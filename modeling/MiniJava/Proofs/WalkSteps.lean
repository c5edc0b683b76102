import MiniJava.Program.Walk
import MiniJava.Proofs.Lookahead

/-!
# Single steps of a walk

`Walker.Steady` says that all accesses of a walker so far were right. A walk is compared with the
readers of cursors, which cannot leave the list: `Place tokens w c` says that a walker and a cursor
stand at the same token, and `Mirrors` that an action of the walker ends as a reader does. It follows
the shape of a reader: `Mirrors.step` is the rule for steps in a row, and each action on one token
has its own rule (`Place.current`, `Place.advance`, …).
-/

namespace MiniJava

/-- The tokens end with an end mark, which is the only one. -/
def EndMarked (tokens : List Token) : Prop :=
  ∃ words mark, tokens = words ++ [mark] ∧ mark.kind = .eof ∧ ∀ t ∈ words, t.kind ≠ .eof

/-- The index of an access. -/
def Access.index : Access → Nat
  | look i | back i | take i => i

/-- The index of the token that is consumed by an access. -/
def Access.taken? : Access → Option Nat
  | take i => some i
  | look _ | back _ => none

/-- The indices of the consumed tokens in their order. -/
def taken (trail : List Access) : List Nat :=
  trail.filterMap Access.taken?

/-- All accesses of a walker were right. -/
structure Walker.Steady (tokens : List Token) (w : Walker) : Prop where
  /-- The tokens before the index were consumed one after the other, and no others. -/
  taken_eq : taken w.trail = List.range w.position
  /-- Each access is to a token of the list. -/
  inside : ∀ a ∈ w.trail, a.index < tokens.length
  /-- A look back is at the token that was consumed last. -/
  back_last : ∀ before i after, w.trail = before ++ .back i :: after →
    (taken before).getLast? = some i
  /-- An end mark is not consumed. -/
  ne_eof : ∀ i t, .take i ∈ w.trail → tokens[i]? = some t → t.kind ≠ .eof

namespace Walker.Steady

variable {tokens : List Token} {n : Nat} {trail : List Access}

theorem start : Walker.start.Steady tokens where
  taken_eq := rfl
  inside _ h := nomatch h
  back_last before _ _ h := by cases before <;> cases h
  ne_eof _ _ h := nomatch h

/-- The looks back of a trail with one more access. -/
theorem back_last_concat {a : Access}
    (h : ∀ before i after, trail = before ++ .back i :: after → (taken before).getLast? = some i)
    (ha : ∀ i, a = .back i → (taken trail).getLast? = some i) (before : List Access) (i : Nat)
    (after : List Access) (htrail : trail ++ [a] = before ++ .back i :: after) :
    (taken before).getLast? = some i := by
  rcases List.eq_nil_or_concat after with rfl | ⟨after, b, rfl⟩
  · obtain ⟨rfl, hback⟩ := List.append_inj' htrail rfl
    exact ha i (List.cons.inj hback).1
  · rw [List.concat_eq_append, ← List.cons_append, ← List.append_assoc] at htrail
    exact h before i after (List.append_inj' htrail rfl).1

/-- A walker stays steady with an access that consumes nothing. -/
theorem note {a : Access} (h : Steady tokens ⟨n, trail⟩) (hinside : a.index < tokens.length)
    (htaken : a.taken? = none) (hback : ∀ i, a = .back i → (taken trail).getLast? = some i) :
    Steady tokens ⟨n, trail ++ [a]⟩ where
  taken_eq := by
    rw [← h.taken_eq, taken, List.filterMap_append, List.filterMap_cons_none htaken]
    exact List.append_nil _
  inside b hb := by
    rcases List.mem_append.mp hb with hb | hb
    · exact h.inside b hb
    · obtain rfl := List.mem_singleton.mp hb
      exact hinside
  back_last := back_last_concat h.back_last hback
  ne_eof j t hj := by
    rcases List.mem_append.mp hj with hj | hj
    · exact h.ne_eof j t hj
    · obtain rfl := List.mem_singleton.mp hj
      cases htaken

theorem look (h : Steady tokens ⟨n, trail⟩) {i : Nat} (hi : i < tokens.length) :
    Steady tokens ⟨n, trail ++ [.look i]⟩ :=
  h.note hi rfl fun _ hlook => nomatch hlook

theorem back (h : Steady tokens ⟨n + 1, trail⟩) (hn : n < tokens.length) :
    Steady tokens ⟨n + 1, trail ++ [.back n]⟩ := by
  refine h.note hn rfl fun i hi => ?_
  cases hi
  rw [h.taken_eq, List.range_succ, List.getLast?_concat]

theorem take (h : Steady tokens ⟨n, trail⟩) {t : Token} (ht : tokens[n]? = some t)
    (hkind : t.kind ≠ .eof) : Steady tokens ⟨n + 1, trail ++ [.take n]⟩ where
  taken_eq := by
    have htaken : taken trail = List.range n := h.taken_eq
    rw [taken, List.filterMap_append, ← taken, htaken, List.range_succ]
    rfl
  inside a ha := by
    rcases List.mem_append.mp ha with ha | ha
    · exact h.inside a ha
    · obtain rfl := List.mem_singleton.mp ha
      exact (List.getElem?_eq_some_iff.mp ht).1
  back_last := back_last_concat h.back_last fun _ htake => nomatch htake
  ne_eof j u hj hu := by
    rcases List.mem_append.mp hj with hj | hj
    · exact h.ne_eof j u hj hu
    · cases List.mem_singleton.mp hj
      obtain rfl := Option.some.inj (ht.symm.trans hu)
      exact hkind

/-- The index does not pass the end mark. -/
theorem position_lt {w : Walker} (h : w.Steady tokens) (hend : EndMarked tokens) :
    w.position < tokens.length := by
  obtain ⟨words, mark, rfl, hmark, -⟩ := hend
  rw [List.length_append, List.length_singleton]
  by_contra hlt
  -- otherwise the end mark was consumed
  have hmem : words.length ∈ taken w.trail := by
    rw [h.taken_eq, List.mem_range]
    omega
  obtain ⟨a, ha, hindex⟩ := List.mem_filterMap.mp hmem
  cases a with
  | take i =>
    obtain rfl : i = words.length := Option.some.inj hindex
    exact h.ne_eof _ mark ha List.getElem?_concat_length hmark
  | look | back => cases hindex

end Walker.Steady

/-! ### Outcomes -/

namespace Walk

variable {tokens : List Token} {w w' : Walker} {α β : Type}

theorem outcome_bind_ok {m : Walk α} {f : α → Walk β} {a : α}
    (h : m.outcome tokens w = (.ok a, w')) :
    (m >>= f).outcome tokens w = (f a).outcome tokens w' := by
  have h : m tokens w = (.ok a, w') := h
  show (ExceptT.bind (m tokens) fun b => f b tokens) w = f a tokens w'
  simp only [ExceptT.bind, ExceptT.mk, bind, StateT.bind, h]
  rfl

theorem outcome_bind_error {m : Walk α} {f : α → Walk β} {e : Halt}
    (h : m.outcome tokens w = (.error e, w')) :
    (m >>= f).outcome tokens w = (.error e, w') := by
  have h : m tokens w = (.error e, w') := h
  show (ExceptT.bind (m tokens) fun b => f b tokens) w = (.error e, w')
  simp only [ExceptT.bind, ExceptT.mk, bind, StateT.bind, h]
  rfl

theorem outcome_access {note : Nat → Access} {i : Nat} {t : Token} (h : tokens[i]? = some t) :
    (access note i).outcome tokens w = (.ok t, ⟨w.position, w.trail ++ [note i]⟩) := by
  show (tokens[i]?.elim (throw (.outside i)) pure : Walk Token) tokens _ = _
  rw [h]
  rfl

/-- An action, and a token of kind `k` behind it. -/
def closed (m : Walk α) (k : Token.Kind) : Walk α := do
  let a ← m
  let _ ← expect k
  return a

end Walk

/-! ### Places -/

/-- The walker and the cursor stand at the same token. -/
structure Place (tokens : List Token) (w : Walker) (c : Cursor) : Prop where
  ended : EndMarked tokens
  steady : w.Steady tokens
  reads : (Cursor.start tokens).Reads (tokens.take w.position) c

/-- The action ends as the reader does: with a value and a value that `Q` relates, or with the same
error. -/
inductive Mirrors {α γ : Type} (tokens : List Token) (Q : α → Walker → γ → Prop) (m : Walk α)
    (w : Walker) : Except SyntaxError γ → Prop
  | ok {a : α} {w' : Walker} {g : γ} :
    m.outcome tokens w = (.ok a, w') → Q a w' g → Mirrors tokens Q m w (.ok g)
  | error {e : SyntaxError} {w' : Walker} :
    m.outcome tokens w = (.error (.fault e), w') → w'.Steady tokens → Mirrors tokens Q m w (.error e)

/-- The values are related, and the places behind them are the same. -/
def Reached {α β : Type} (tokens : List Token) (R : α → β → Prop) {n : Nat} (a : α) (w : Walker)
    (r : Cursor.Read β n) : Prop :=
  R a r.value ∧ Place tokens w r.cursor

section

variable {tokens : List Token} {w : Walker} {c c₁ : Cursor} {α β γ δ : Type} {n : Nat}
variable {Q : α → Walker → γ → Prop} {Q' : β → Walker → δ → Prop}

/-! ### Steps in a row -/

/-- An action of the walker to which no step of the cursor belongs. -/
theorem Mirrors.walk {m : Walk α} {f : α → Walk β} {a : α} {w₁ : Walker}
    {y : Except SyntaxError δ} (hm : m.outcome tokens w = (.ok a, w₁))
    (hf : Mirrors tokens Q' (f a) w₁ y) : Mirrors tokens Q' (m >>= f) w y := by
  cases hf with
  | ok hout hq => exact .ok ((Walk.outcome_bind_ok hm).trans hout) hq
  | error hout hw => exact .error ((Walk.outcome_bind_ok hm).trans hout) hw

theorem Mirrors.bind {m : Walk α} {f : α → Walk β} {x : Except SyntaxError γ}
    {f' : γ → Except SyntaxError δ} (hm : Mirrors tokens Q m w x)
    (hf : ∀ a w₁ g, x = .ok g → Q a w₁ g → Mirrors tokens Q' (f a) w₁ (f' g)) :
    Mirrors tokens Q' (m >>= f) w (x >>= f') := by
  cases hm with
  | @ok a w₁ g hout hg => exact .walk hout (hf a w₁ g rfl hg)
  | error hout hw => exact .error (Walk.outcome_bind_error hout) hw

theorem Mirrors.step {R : α → γ → Prop} {m : Walk α} {f : α → Walk β}
    {x : Except SyntaxError (Cursor.Read γ n)} {f' : Cursor.Read γ n → Except SyntaxError δ}
    (hm : Mirrors tokens (Reached tokens R) m w x)
    (hf : ∀ a v c₁ h₁ w₁, R a v → Place tokens w₁ c₁ →
      Mirrors tokens Q' (f a) w₁ (f' ⟨v, c₁, h₁⟩)) :
    Mirrors tokens Q' (m >>= f) w (x >>= f') :=
  hm.bind fun a w₁ r _ hr => hf a r.value r.cursor r.lt w₁ hr.1 hr.2

/-- As `Mirrors.step`, where both read the same value. -/
theorem Mirrors.read {m : Walk γ} {f : γ → Walk β} {x : Except SyntaxError (Cursor.Read γ n)}
    {f' : Cursor.Read γ n → Except SyntaxError δ} (hm : Mirrors tokens (Reached tokens Eq) m w x)
    (hf : ∀ v c₁ h₁ w₁, x = .ok ⟨v, c₁, h₁⟩ → Place tokens w₁ c₁ →
      Mirrors tokens Q' (f v) w₁ (f' ⟨v, c₁, h₁⟩)) :
    Mirrors tokens Q' (m >>= f) w (x >>= f') := by
  refine hm.bind fun a w₁ r hx hr => ?_
  obtain ⟨v, c₁, h₁⟩ := r
  obtain ⟨rfl, hp⟩ := hr
  exact hf a c₁ h₁ w₁ hx hp

theorem Mirrors.next {m : Walk γ} {f : γ → Walk β} {x : Except SyntaxError (Cursor.Read γ n)}
    {f' : Cursor.Read γ n → Except SyntaxError δ} (hm : Mirrors tokens (Reached tokens Eq) m w x)
    (hf : ∀ v c₁ h₁ w₁, Place tokens w₁ c₁ → Mirrors tokens Q' (f v) w₁ (f' ⟨v, c₁, h₁⟩)) :
    Mirrors tokens Q' (m >>= f) w (x >>= f') :=
  hm.read fun v c₁ h₁ w₁ _ hp => hf v c₁ h₁ w₁ hp

/-- As `Mirrors.step`, where only a token is read. -/
theorem Mirrors.skip {m : Walk α} {f : α → Walk β} {x : Except SyntaxError (Cursor.Read Unit n)}
    {f' : Cursor.Read Unit n → Except SyntaxError δ}
    (hm : Mirrors tokens (Reached tokens fun _ _ => True) m w x)
    (hf : ∀ a c₁ h₁ w₁, Place tokens w₁ c₁ → Mirrors tokens Q' (f a) w₁ (f' ⟨(), c₁, h₁⟩)) :
    Mirrors tokens Q' (m >>= f) w (x >>= f') :=
  hm.step fun a _ c₁ h₁ w₁ _ hp => hf a c₁ h₁ w₁ hp

theorem Mirrors.pure {R : α → γ → Prop} {a : α} {v : γ} {h : c.size < n}
    (hp : Place tokens w c) (hv : R a v) :
    Mirrors tokens (Reached tokens R) (Pure.pure a : Walk α) w
      (Pure.pure ⟨v, c, h⟩ : Except SyntaxError (Cursor.Read γ n)) :=
  .ok rfl (⟨hv, hp⟩ : Reached tokens R a w ⟨v, c, h⟩)

theorem Mirrors.fail {e : SyntaxError} (hp : Place tokens w c) :
    Mirrors tokens Q (Walk.fail e) w (.error e) :=
  .error rfl hp.steady

/-- A reader that reads a list together with the token behind it. -/
theorem Mirrors.closed {R : α → γ → Prop} {m : Walk α} {k : Token.Kind} {f : α → Walk β}
    {x : Except SyntaxError (Cursor.Read γ n)} {f' : Cursor.Read γ n → Except SyntaxError δ}
    (hm : Mirrors tokens (Reached tokens R) (m.closed k) w x)
    (hf : ∀ a v c₁ h₁ w₁, R a v → Place tokens w₁ c₁ →
      Mirrors tokens Q' (f a) w₁ (f' ⟨v, c₁, h₁⟩)) :
    Mirrors tokens Q' (m >>= fun a => Walk.expect k >>= fun _ => f a) w (x >>= f') := by
  have h := hm.step hf
  simpa only [Walk.closed, bind_assoc, pure_bind] using h

/-- The only end mark of the list is its last token. -/
theorem EndMarked.eof_iff (h : EndMarked tokens) {i : Nat} {t : Token} (ht : tokens[i]? = some t) :
    t.kind = .eof ↔ i + 1 = tokens.length := by
  obtain ⟨words, mark, rfl, hmark, hwords⟩ := h
  rw [List.length_append, List.length_singleton, Nat.add_right_cancel_iff]
  obtain ⟨hi, rfl⟩ := List.getElem?_eq_some_iff.mp ht
  rw [List.length_append, List.length_singleton] at hi
  constructor
  · intro hkind
    by_contra hne
    have hlt : i < words.length := by omega
    rw [List.getElem_append_left hlt] at hkind
    exact hwords _ (List.getElem_mem hlt) hkind
  · rintro rfl
    rw [List.getElem_concat_length rfl]
    exact hmark

/-! ### Looks at the tokens -/

namespace Place

theorem start (h : EndMarked tokens) : Place tokens .start (.start tokens) where
  ended := h
  steady := .start
  reads := .refl _

theorem rest_eq (hp : Place tokens w c) : c.rest = tokens.drop w.position := by
  have h : tokens = tokens.take w.position ++ c.rest := hp.reads.rest_eq
  exact List.append_cancel_left (h.symm.trans (List.take_append_drop w.position tokens).symm)

theorem position_lt (hp : Place tokens w c) : w.position < tokens.length :=
  hp.steady.position_lt hp.ended

theorem position_add_size (hp : Place tokens w c) : w.position + c.size = tokens.length := by
  have hlt := hp.position_lt
  rw [Cursor.size, hp.rest_eq, List.length_drop]
  omega

theorem size_le (hp : Place tokens w c) : c.size ≤ tokens.length := by
  have h := hp.position_add_size
  omega

theorem getElem?_eq (hp : Place tokens w c) : tokens[w.position]? = some c.current := by
  have hlt := hp.position_lt
  rw [Cursor.current, hp.rest_eq, List.drop_eq_getElem_cons hlt, List.headD_cons,
    List.getElem?_eq_getElem hlt]

theorem min_eq (hp : Place tokens w c) : min w.position (tokens.length - 1) = w.position := by
  have hlt := hp.position_lt
  omega

/-- Behind one token, the token ahead is the one to come. -/
theorem ahead?_eq {c₀ : Cursor} {t : Token} (hp : Place tokens w c) (hstep : c₀.Reads [t] c) :
    c₀.ahead? = some c.kind := by
  have hlt := hp.position_lt
  rw [Cursor.ahead?, hstep.rest_eq, Cursor.kind, Cursor.current, hp.rest_eq,
    List.drop_eq_getElem_cons hlt]
  rfl

/-- The walker behind a look at the token to come. -/
theorem look (hp : Place tokens w c) :
    Place tokens ⟨w.position, w.trail ++ [.look w.position]⟩ c where
  ended := hp.ended
  steady := hp.steady.look hp.position_lt
  reads := hp.reads

theorem outcome_current (hp : Place tokens w c) : Walk.current.outcome tokens w =
    (.ok c.current, ⟨w.position, w.trail ++ [.look w.position]⟩) := by
  show (Walk.access .look (min w.position (tokens.length - 1))).outcome tokens w = _
  rw [hp.min_eq]
  exact Walk.outcome_access hp.getElem?_eq

theorem current {f : Token → Walk β} {y : Except SyntaxError δ} (hp : Place tokens w c)
    (hf : ∀ w₁, Place tokens w₁ c → Mirrors tokens Q' (f c.current) w₁ y) :
    Mirrors tokens Q' (Walk.current >>= f) w y :=
  .walk hp.outcome_current (hf _ hp.look)

theorem kind {f : Token.Kind → Walk β} {y : Except SyntaxError δ} (hp : Place tokens w c)
    (hf : ∀ w₁, Place tokens w₁ c → Mirrors tokens Q' (f c.kind) w₁ y) :
    Mirrors tokens Q' (Walk.kind >>= f) w y :=
  .walk (Walk.outcome_bind_ok hp.outcome_current) (hf _ hp.look)

theorem check {k : Token.Kind} {f : Bool → Walk β} {y : Except SyntaxError δ}
    (hp : Place tokens w c)
    (hf : ∀ w₁, Place tokens w₁ c → Mirrors tokens Q' (f (c.kind == k)) w₁ y) :
    Mirrors tokens Q' (Walk.check k >>= f) w y :=
  .walk (Walk.outcome_bind_ok (Walk.outcome_bind_ok hp.outcome_current)) (hf _ hp.look)

theorem ahead? {f : Option Token.Kind → Walk β} {y : Except SyntaxError δ} (hp : Place tokens w c)
    (hf : Mirrors tokens Q' (f c.ahead?) w y) :
    Mirrors tokens Q' (Walk.ahead? >>= f) w y := by
  have hahead : c.ahead? = tokens[w.position + 1]?.map Token.kind := by
    rw [Cursor.ahead?, hp.rest_eq, List.getElem?_drop]
  rw [hahead] at hf
  exact .walk rfl hf

theorem last_eq (hp : Place tokens w c) {i : Nat} (hi : w.position = i + 1) {t : Token}
    (ht : tokens[i]? = some t) : c.last = t.span := by
  obtain ⟨hlt, rfl⟩ := List.getElem?_eq_some_iff.mp ht
  rw [hp.reads.last_eq, hi, List.take_succ_eq_append_getElem hlt, lastSpan_append]
  rfl

/-- A look back, where a token was consumed. -/
theorem prevSpan {f : Span → Walk β} {y : Except SyntaxError δ} (hp : Place tokens w c)
    (hsize : c.size < tokens.length)
    (hf : ∀ w₁, Place tokens w₁ c → Mirrors tokens Q' (f c.last) w₁ y) :
    Mirrors tokens Q' (Walk.prevSpan >>= f) w y := by
  obtain ⟨position, trail⟩ := w
  have hposition : position + c.size = tokens.length := hp.position_add_size
  have hlt : position < tokens.length := hp.position_lt
  obtain ⟨i, rfl⟩ : ∃ i, position = i + 1 := ⟨position - 1, by omega⟩
  have hi : i < tokens.length := by omega
  have hget : tokens[i]? = some tokens[i] := List.getElem?_eq_getElem hi
  have hout : Walk.prevSpan.outcome tokens ⟨i + 1, trail⟩ =
      (.ok c.last, ⟨i + 1, trail ++ [.back i]⟩) := by
    rw [hp.last_eq rfl hget]
    exact Walk.outcome_bind_ok (Walk.outcome_access hget)
  exact .walk hout (hf _ ⟨hp.ended, hp.steady.back hi, hp.reads⟩)

/-! ### Moves -/

theorem step (hp : Place tokens w c) {t : Token} (hstep : c.Reads [t] c₁) (ht : t.kind ≠ .eof) :
    Place tokens ⟨w.position + 1, w.trail ++ [.take w.position]⟩ c₁ where
  ended := hp.ended
  steady := by
    refine hp.steady.take hp.getElem?_eq ?_
    rwa [hstep.current_eq]
  reads := by
    have hlt := hp.position_lt
    have hcurrent : tokens[w.position] = t := by
      have hget := hp.getElem?_eq
      rw [List.getElem?_eq_getElem hlt, hstep.current_eq] at hget
      exact Option.some.inj hget
    rw [List.take_succ_eq_append_getElem hlt, hcurrent]
    exact hp.reads.trans hstep

theorem outcome_advance (hp : Place tokens w c) (hkind : c.kind ≠ .eof) :
    Walk.advance.outcome tokens w =
      (.ok c.current, ⟨w.position + 1, w.trail ++ [.take w.position]⟩) := by
  -- the token to come is not the last one, so the index moves
  have hlt : w.position < tokens.length - 1 := by
    have hlt := hp.position_lt
    have hlast := mt (hp.ended.eof_iff hp.getElem?_eq).mpr hkind
    omega
  have haccess : (Walk.access .take (min w.position (tokens.length - 1))).outcome tokens w =
      (.ok c.current, ⟨w.position, w.trail ++ [.take w.position]⟩) := by
    rw [hp.min_eq]
    exact Walk.outcome_access hp.getElem?_eq
  refine (Walk.outcome_bind_ok (m := Walk.access .take (min w.position (tokens.length - 1)))
    haccess).trans ?_
  show (if w.position < tokens.length - 1 then _ else _ : Walk Token).outcome tokens _ = _
  rw [if_pos hlt]
  rfl

theorem advance {f : Token → Walk β} {y : Except SyntaxError δ} (hp : Place tokens w c)
    {k : Token.Kind} {h₁ : c₁.size < c.size} (haccept : c.accept k = some ⟨(), c₁, h₁⟩)
    (hk : k ≠ .eof)
    (hf : ∀ w₁, Place tokens w₁ c₁ → Mirrors tokens Q' (f ⟨k, c₁.last⟩) w₁ y) :
    Mirrors tokens Q' (Walk.advance >>= f) w y := by
  have hstep := Cursor.reads_of_accept haccept
  have hkind : c.kind ≠ .eof := by rwa [hstep.kind_eq]
  refine .walk (hp.outcome_advance hkind) ?_
  rw [hstep.current_eq]
  exact hf _ (hp.step hstep hk)

/-! ### One token -/

/-- The token to come is refused. -/
theorem refuse {expected : Expectation} (hp : Place tokens w c) :
    Mirrors tokens Q (Walk.unexpected expected >>= Walk.fail) w
      (.error (c.unexpected expected)) := by
  rw [Walk.unexpected, bind_assoc]
  refine hp.current fun w₁ hp₁ => ?_
  unfold Cursor.unexpected Cursor.kind
  cases c.current.kind with
  | unknown | keyword | symbol | ident | intLit | eof => exact .walk rfl (.fail hp₁)

end Place

/-- A token that comes can be stepped over. -/
theorem Cursor.exists_step {k : Token.Kind} (h : c.kind = k) (hk : k ≠ .eof) :
    ∃ c₁ h₁, c.accept k = some ⟨(), c₁, h₁⟩ ∧ c.expect k = .ok ⟨(), c₁, h₁⟩ ∧
      c.current = ⟨k, c₁.last⟩ := by
  obtain ⟨a, d, hread⟩ := exists_reads h hk
  obtain ⟨c₁, h₁, haccept, -⟩ := hread.accept_eq
  exact ⟨c₁, h₁, haccept, by rw [expect, haccept], (reads_of_accept haccept).current_eq⟩

namespace Place

/-- The walker reads a token that the cursor accepts. -/
theorem advances {k : Token.Kind} {r : Cursor.Read Unit c.size} (hp : Place tokens w c)
    (hr : c.accept k = some r) (hk : k ≠ .eof) :
    Mirrors tokens (Reached tokens fun _ _ => True) Walk.advance w (.ok r) := by
  have hstep := Cursor.reads_of_accept hr
  have hkind : c.kind ≠ .eof := by rwa [hstep.kind_eq]
  exact .ok (hp.outcome_advance hkind) ⟨trivial, hp.step hstep hk⟩

/-- The walker goes on in one way behind a token of kind `k` if it comes, and in another way if
not. -/
theorem consume {k : Token.Kind} {f : Bool → Walk β} {y : Except SyntaxError δ}
    (hp : Place tokens w c) (hk : k ≠ .eof)
    (hyes : ∀ c₁ h₁ w₁, c.accept k = some ⟨(), c₁, h₁⟩ → Place tokens w₁ c₁ →
      Mirrors tokens Q' (f true) w₁ y)
    (hno : ∀ w₁, c.accept k = none → Place tokens w₁ c → Mirrors tokens Q' (f false) w₁ y) :
    Mirrors tokens Q' (Walk.consume k >>= f) w y := by
  rw [Walk.consume, bind_assoc]
  refine hp.check fun w₁ hp₁ => ?_
  by_cases hkind : c.kind = k
  · obtain ⟨c₁, h₁, hr, -⟩ := Cursor.exists_step hkind hk
    rw [if_pos (beq_iff_eq.mpr hkind), bind_assoc]
    exact hp₁.advance hr hk fun w₂ hp₂ => .walk rfl (hyes c₁ h₁ w₂ hr hp₂)
  · rw [if_neg (by rwa [beq_iff_eq])]
    exact .walk rfl (hno w₁ (Cursor.accept_eq_none hkind) hp₁)

theorem expect {k : Token.Kind} (hp : Place tokens w c) (hk : k ≠ .eof) :
    Mirrors tokens (Reached tokens fun _ _ => True) (Walk.expect k) w (c.expect k) := by
  refine hp.check fun w₁ hp₁ => ?_
  by_cases hkind : c.kind = k
  · obtain ⟨c₁, h₁, hr, hexpect, -⟩ := Cursor.exists_step hkind hk
    rw [if_pos (beq_iff_eq.mpr hkind), hexpect]
    exact hp₁.advances hr hk
  · rw [if_neg (by rwa [beq_iff_eq]), Cursor.expect, Cursor.accept_eq_none hkind]
    exact hp₁.refuse

/-- A token that comes is read. -/
theorem expected {k : Token.Kind} {f : Token → Walk β} {y : Except SyntaxError δ}
    {h₁ : c₁.size < c.size} (hp : Place tokens w c) (haccept : c.accept k = some ⟨(), c₁, h₁⟩)
    (hk : k ≠ .eof) (hf : ∀ t w₁, Place tokens w₁ c₁ → Mirrors tokens Q' (f t) w₁ y) :
    Mirrors tokens Q' (Walk.expect k >>= f) w y := by
  have hexpect := hp.expect hk
  rw [Cursor.expect, haccept] at hexpect
  cases hexpect with
  | ok hout hreached => exact .walk hout (hf _ _ hreached.2)

/-- Another token comes than the one that has to. -/
theorem refused {k : Token.Kind} {f : Token → Walk β} (hp : Place tokens w c) (hk : k ≠ .eof)
    (hkind : c.kind ≠ k) :
    Mirrors tokens Q' (Walk.expect k >>= f) w (.error (c.unexpected (.token k))) := by
  have hexpect := hp.expect hk
  rw [Cursor.expect, Cursor.accept_eq_none hkind] at hexpect
  cases hexpect with
  | error hout hw => exact .error (Walk.outcome_bind_error hout) hw

theorem keyword {k : Keyword} (hp : Place tokens w c) :
    Mirrors tokens (Reached tokens fun _ _ => True) (Walk.expect (.keyword k)) w (c.keyword k) :=
  hp.expect Token.Kind.noConfusion

theorem symbol {s : Symbol} (hp : Place tokens w c) :
    Mirrors tokens (Reached tokens fun _ _ => True) (Walk.expect (.symbol s)) w (c.symbol s) :=
  hp.expect Token.Kind.noConfusion

theorem ident (hp : Place tokens w c) :
    Mirrors tokens (Reached tokens Eq) Walk.ident w c.ident := by
  refine hp.current fun w₁ hp₁ => ?_
  cases hkind : c.kind with
  | ident name =>
    obtain ⟨c₁, h₁, hr, hexpect, hcurrent⟩ := Cursor.exists_step hkind Token.Kind.noConfusion
    simp only [Cursor.ident, hkind, hexpect, hcurrent, ok_bind]
    exact hp₁.advance hr Token.Kind.noConfusion fun w₂ hp₂ => .pure hp₂ rfl
  | keyword | symbol | intLit | unknown | eof =>
    have hcurrent : c.current.kind = _ := hkind
    simp only [Cursor.ident, hkind, hcurrent]
    exact .fail hp₁

theorem word {name : String} (hp : Place tokens w c) :
    Mirrors tokens (Reached tokens fun _ _ => True) (Walk.word name) w (c.word name) := by
  refine hp.check fun w₁ hp₁ => ?_
  by_cases hkind : c.kind = .ident name
  · obtain ⟨c₁, h₁, hr, hexpect, -⟩ := Cursor.exists_step hkind Token.Kind.noConfusion
    rw [if_pos (beq_iff_eq.mpr hkind), Cursor.word, hr]
    -- the name is read as any other one is
    have hident := hp₁.ident
    simp only [Cursor.ident, hkind, hexpect, ok_bind] at hident
    cases hident with
    | ok hout hreached => exact .ok hout ⟨trivial, hreached.2⟩
  · rw [if_neg (by rwa [beq_iff_eq]), Cursor.word, Cursor.accept_eq_none hkind]
    exact hp₁.refuse

/-- A list that ends with a token of kind `k` is read: none of it if this token comes at once. -/
theorem listBefore {ι : Type} {m : Walk (List ι)} {k : Token.Kind} {f : List ι → Walk β}
    {y : Except SyntaxError δ} (hp : Place tokens w c) (hk : k ≠ .eof)
    (hyes : ∀ c₁ h₁ w₁, c.accept k = some ⟨(), c₁, h₁⟩ → Place tokens w₁ c₁ →
      Mirrors tokens Q' (f []) w₁ y)
    (hno : ∀ w₁, c.accept k = none → Place tokens w₁ c →
      Mirrors tokens Q' (m >>= fun l => Walk.expect k >>= fun _ => f l) w₁ y) :
    Mirrors tokens Q' (Walk.listBefore k m >>= fun l => Walk.expect k >>= fun _ => f l) w y := by
  rw [Walk.listBefore, bind_assoc]
  refine hp.check fun w₁ hp₁ => ?_
  by_cases hkind : c.kind = k
  · obtain ⟨c₁, h₁, hr, -⟩ := Cursor.exists_step hkind hk
    rw [if_pos (beq_iff_eq.mpr hkind), pure_bind]
    exact hp₁.expected hr hk fun _ w₂ hp₂ => hyes c₁ h₁ w₂ hr hp₂
  · rw [if_neg (by rwa [beq_iff_eq])]
    exact hno w₁ (Cursor.accept_eq_none hkind) hp₁

end Place

end

end MiniJava
