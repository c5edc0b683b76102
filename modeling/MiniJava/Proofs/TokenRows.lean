import MiniJava.Program.Derivation
import MiniJava.Proofs.CursorSteps
import MiniJava.Proofs.TextCut

/-!
# Tokens in a row

The tokens of a text lie one behind the other (`inRow_of_tokenize`). So the span that two stretches
of tokens have together is that from the first token of the one to the last token of the other
(`InRow.merge_joined`), and the tokens that lie inside the span of a stretch are its own
(`InRow.filter_inside_joined`).
-/

namespace MiniJava

/-- The span from the first token to the last one. -/
def joined : List Token → Span
  | [] => default
  | t :: ts => t.span.merge (lastSpan t.span ts)

/-- The span lies inside another one. -/
def Span.Inside (a b : Span) : Prop :=
  b.start ≤ a.start ∧ a.stop ≤ b.stop ∧ a.file = b.file

instance (a b : Span) : Decidable (a.Inside b) :=
  inferInstanceAs (Decidable (_ ∧ _ ∧ _))

/-- The tokens lie one behind the other in a file, and each of them has characters. -/
structure InRow (file : Nat) (ts : List Token) : Prop where
  file_eq : ∀ t ∈ ts, t.span.file = file
  start_lt : ∀ t ∈ ts, t.span.start < t.span.stop
  pairwise : ts.Pairwise fun t u => t.span.stop ≤ u.span.start

@[simp] theorem joined_singleton (t : Token) : joined [t] = t.span :=
  t.span.merge_self

theorem lastSpan_eq_getLast (t : Token) (ts : List Token) :
    lastSpan t.span ts = ((t :: ts).getLast (List.cons_ne_nil t ts)).span := by
  induction ts generalizing t with
  | nil => rfl
  | cons u ts ih =>
    rw [List.getLast_cons (List.cons_ne_nil u ts)]
    exact ih u

namespace InRow

variable {file : Nat} {ts us vs ws : List Token}

theorem sublist (h : InRow file us) (hts : ts.Sublist us) : InRow file ts where
  file_eq t ht := h.file_eq t (hts.subset ht)
  start_lt t ht := h.start_lt t (hts.subset ht)
  pairwise := h.pairwise.sublist hts

theorem left (h : InRow file (ts ++ us)) : InRow file ts :=
  h.sublist (List.sublist_append_left ts us)

theorem right (h : InRow file (ts ++ us)) : InRow file us :=
  h.sublist (List.sublist_append_right ts us)

theorem tail {t : Token} (h : InRow file (t :: ts)) : InRow file ts :=
  h.sublist (List.sublist_cons_self t ts)

/-- Of two tokens the earlier one ends before the later one starts. -/
theorem stop_le (h : InRow file (ts ++ us)) {t u : Token} (ht : t ∈ ts) (hu : u ∈ us) :
    t.span.stop ≤ u.span.start :=
  (List.pairwise_append.mp h.pairwise).2.2 t ht u hu

/-- The joined span goes from the start of the first token to the end of the last one. -/
theorem joined_eq (h : InRow file ts) (hts : ts ≠ []) :
    joined ts = ⟨(ts.head hts).span.start, (ts.getLast hts).span.stop, file⟩ := by
  cases ts with
  | nil => contradiction
  | cons t ts =>
    have hlast := List.getLast_mem (List.cons_ne_nil t ts)
    rw [joined, lastSpan_eq_getLast, Span.merge, List.head_cons, h.file_eq t List.mem_cons_self]
    generalize (t :: ts).getLast _ = last at hlast
    rcases List.mem_cons.mp hlast with rfl | hbehind
    · rw [Nat.min_self, Nat.max_self]
    · have hle := List.rel_of_pairwise_cons h.pairwise hbehind
      have hlt := h.start_lt t List.mem_cons_self
      have hlt' := h.start_lt last hlast
      rw [Nat.min_eq_left (by omega), Nat.max_eq_right (by omega)]

/-- Joining the spans of the first and of the last tokens gives the span of all of them. -/
theorem merge_joined (us : List Token) (h : InRow file (ts ++ (us ++ vs))) (hts : ts ≠ [])
    (hvs : vs ≠ []) : (joined ts).merge (joined vs) = joined (ts ++ (us ++ vs)) := by
  have hne : ts ++ (us ++ vs) ≠ [] := List.append_ne_nil_of_left_ne_nil hts _
  have hfirst : (ts.head hts).span.stop ≤ (vs.head hvs).span.start :=
    h.stop_le (List.head_mem hts) (List.mem_append_right us (List.head_mem hvs))
  have hlast : (ts.getLast hts).span.stop ≤ (vs.getLast hvs).span.start :=
    h.stop_le (List.getLast_mem hts) (List.mem_append_right us (List.getLast_mem hvs))
  have hlt := h.left.start_lt _ (List.head_mem hts)
  have hlt' := h.right.right.start_lt _ (List.getLast_mem hvs)
  rw [h.left.joined_eq hts, h.right.right.joined_eq hvs, h.joined_eq hne, Span.merge,
    List.head_append_of_ne_nil hts, List.getLast_append_of_ne_nil hne
      (List.append_ne_nil_of_right_ne_nil us hvs), List.getLast_append_of_ne_nil _ hvs]
  dsimp only
  rw [Nat.min_eq_left (by omega), Nat.max_eq_right (by omega)]

theorem merge_first {t : Token} (h : InRow file (t :: vs)) (hvs : vs ≠ []) :
    t.span.merge (joined vs) = joined (t :: vs) := by
  have hmerge := merge_joined [] h (List.cons_ne_nil t []) hvs
  rwa [joined_singleton] at hmerge

theorem merge_last (us : List Token) {t : Token} (h : InRow file (ts ++ (us ++ [t])))
    (hts : ts ≠ []) : (joined ts).merge t.span = joined (ts ++ (us ++ [t])) := by
  have hmerge := h.merge_joined us hts (List.cons_ne_nil t [])
  rwa [joined_singleton] at hmerge

/-- Every token lies inside the joined span. -/
theorem inside_joined (h : InRow file ts) {t : Token} (ht : t ∈ ts) :
    t.span.Inside (joined ts) := by
  have hne : ts ≠ [] := List.ne_nil_of_mem ht
  have hlt := h.start_lt t ht
  rw [h.joined_eq hne]
  refine ⟨?_, ?_, h.file_eq t ht⟩
  · obtain ⟨first, rest, rfl⟩ := List.exists_cons_of_ne_nil hne
    rw [List.head_cons]
    rcases List.mem_cons.mp ht with rfl | hrest
    · exact Nat.le_refl _
    · have hle := List.rel_of_pairwise_cons h.pairwise hrest
      have hlt' := h.start_lt first List.mem_cons_self
      dsimp only
      omega
  · have hlast := h.start_lt _ (List.getLast_mem hne)
    generalize hl : ts.getLast hne = last at hlast
    rw [← List.dropLast_append_getLast hne, hl] at h ht
    rcases List.mem_append.mp ht with hinit | hlast'
    · have hle := h.stop_le hinit (List.mem_singleton_self last)
      dsimp only
      omega
    · rw [List.mem_singleton.mp hlast']

/-- What is joined of some of the tokens lies inside of what is joined of all. -/
theorem joined_inside (h : InRow file (ts ++ (us ++ vs))) (hus : us ≠ []) :
    (joined us).Inside (joined (ts ++ (us ++ vs))) := by
  have hmem : ∀ {t}, t ∈ us → t ∈ ts ++ (us ++ vs) :=
    fun ht => List.mem_append_right ts (List.mem_append_left vs ht)
  have hfirst := h.inside_joined (hmem (List.head_mem hus))
  have hlast := h.inside_joined (hmem (List.getLast_mem hus))
  rw [h.right.left.joined_eq hus]
  refine ⟨hfirst.1, hlast.2.1, ?_⟩
  rw [← hfirst.2.2, h.file_eq _ (hmem (List.head_mem hus))]

theorem joined_stop_le (h : InRow file (ts ++ (us ++ (vs ++ ws)))) (hts : ts ≠ []) (hvs : vs ≠ []) :
    (joined ts).stop ≤ (joined vs).start := by
  rw [h.left.joined_eq hts, h.right.right.left.joined_eq hvs]
  exact h.stop_le (List.getLast_mem hts)
    (List.mem_append_right us (List.mem_append_left ws (List.head_mem hvs)))

/-- The tokens that lie inside the joined span of some of them are these and no others. -/
theorem filter_inside_joined (h : InRow file (ts ++ (us ++ vs))) (hus : us ≠ []) :
    (ts ++ (us ++ vs)).filter (fun t => t.span.Inside (joined us)) = us := by
  have hbefore : ts.filter (fun t => t.span.Inside (joined us)) = [] := by
    rw [List.filter_eq_nil_iff]
    intro t ht hinside
    have hle := h.stop_le ht (List.mem_append_left vs (List.head_mem hus))
    have hlt := h.start_lt t (List.mem_append_left _ ht)
    have hstart := (of_decide_eq_true hinside).1
    rw [h.right.left.joined_eq hus] at hstart
    dsimp only at hstart
    omega
  have hown : us.filter (fun t => t.span.Inside (joined us)) = us := by
    rw [List.filter_eq_self]
    exact fun t ht => decide_eq_true (h.right.left.inside_joined ht)
  have hafter : vs.filter (fun t => t.span.Inside (joined us)) = [] := by
    rw [List.filter_eq_nil_iff]
    intro t ht hinside
    have hle := h.right.stop_le (List.getLast_mem hus) ht
    have hlt := h.right.right.start_lt t ht
    have hstop := (of_decide_eq_true hinside).2.1
    rw [h.right.left.joined_eq hus] at hstop
    dsimp only at hstop
    omega
  rw [List.filter_append, List.filter_append, hbefore, hown, hafter, List.append_nil,
    List.nil_append]

end InRow

/-- The tokens of a text before its end mark lie in a row. -/
theorem inRow_of_tokenize {text : String} {file : Nat} {words : List Token} {mark : Token}
    (h : tokenize text file = words ++ [mark]) : InRow file words := by
  obtain ⟨ts, hts⟩ := exists_cut file text.toList 0
  rw [hts.tokenize_eq] at h
  obtain ⟨rfl, -⟩ := List.append_inj' h rfl
  have hwithin : ∀ t ∈ ts, t.span.Within file text.toList.length := fun t ht => by
    obtain ⟨start, hcut⟩ := hts.cutFrom_of_mem t ht
    exact hcut.within
  exact ⟨fun t ht => (hwithin t ht).file_eq, fun t ht => (hwithin t ht).start_lt, hts.pairwise⟩

theorem ne_eof_of_tokenize {text : String} {file : Nat} {words : List Token} {mark : Token}
    (h : tokenize text file = words ++ [mark]) : ∀ t ∈ words, t.kind ≠ .eof := by
  obtain ⟨ts, _, hts, -, hshape⟩ := tokenize_shape text file
  obtain ⟨rfl, -⟩ := List.append_inj' (h.symm.trans hts) rfl
  exact fun t ht => (hshape t ht).1

end MiniJava
