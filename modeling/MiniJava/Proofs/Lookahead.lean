import Mathlib.Computability.Language
import Mathlib.Order.CompletePartialOrder
import MiniJava.Proofs.CursorSteps
import MiniJava.Proofs.Derivation

/-!
# How far readers look

A reader is run at many places at once: `c : W → Cursor` is a family of places in lists of tokens,
and `x w` is the outcome at `c w`. `Cursor.Tracks L c x w` describes the outcome at one of them and
compares it with the others.

* If it is a value, the tokens read are a word of the language `L`, and as many tokens are read
  wherever these tokens and the next two have the same kinds.
* If it is an error, it points to a token to come, the tokens before this one begin a word of `L`,
  and the same error is found at the same token wherever the tokens up to the one behind it have the
  same kinds (`Cursor.FailsAt`).

The description follows the shape of a reader: `Tracks.bind` is the rule for steps in a row, and
`Tracks.byKind` and `Tracks.branch` are the rules for a look at the next tokens.
-/

namespace MiniJava

/-- The tokens can be continued to a word of the language with tokens that a text can have. -/
def Viable (L : Language Token) (ts : List Token) : Prop :=
  ∃ us, AllLexical us ∧ ts ++ us ∈ L

theorem Viable.mono {L M : Language Token} (h : L ≤ M) {ts : List Token} (hts : Viable L ts) :
    Viable M ts := by
  obtain ⟨us, hus, hmem⟩ := hts
  exact ⟨us, hus, h hmem⟩

theorem Viable.mul_right {L M : Language Token} {ts : List Token} (hts : Viable L ts)
    (hM : Viable M []) : Viable (L * M) ts := by
  obtain ⟨us, hus, hmem⟩ := hts
  obtain ⟨vs, hvs, hmem'⟩ := hM
  refine ⟨us ++ vs, allLexical_append.mpr ⟨hus, hvs⟩, ?_⟩
  rw [← List.append_assoc]
  exact Language.append_mem_mul hmem hmem'

theorem Viable.mul_left {L M : Language Token} {ts us : List Token} (hts : ts ∈ L)
    (hus : Viable M us) : Viable (L * M) (ts ++ us) := by
  obtain ⟨vs, hvs, hmem⟩ := hus
  refine ⟨vs, hvs, ?_⟩
  rw [List.append_assoc]
  exact Language.append_mem_mul hts hmem

/-- Some word of the language can stand in a text. -/
class Writable (L : Language Token) : Prop where
  viable : Viable L []

instance : Writable 1 :=
  ⟨[], allLexical_nil, Language.nil_mem_one⟩

instance {L M : Language Token} [hL : Writable L] [hM : Writable M] : Writable (L * M) :=
  ⟨hL.viable.mul_right hM.viable⟩

theorem Writable.mono {L M : Language Token} (h : Writable L) (hLM : L ≤ M) : Writable M :=
  ⟨h.viable.mono hLM⟩

/-- A single token of the kind. -/
def kindWord (k : Token.Kind) : Language Token :=
  {ts | ∃ a, ts = [⟨k, a⟩]}

/-- A single identifier. -/
def identWord : Language Token :=
  {ts | ∃ i : Ident, ts = [i.token]}

section

variable {L M : Language Token} {p : List Token → Prop}

theorem le_iff_forall_mem : L ≤ M ↔ ∀ ts ∈ L, ts ∈ M :=
  Iff.rfl

theorem forall_mem_one : (∀ ts ∈ (1 : Language Token), p ts) ↔ p [] :=
  forall_eq

theorem forall_mem_mul : (∀ ts ∈ L * M, p ts) ↔ ∀ ts ∈ L, ∀ us ∈ M, p (ts ++ us) :=
  Set.forall_mem_image2

theorem forall_mem_kindWord {k : Token.Kind} : (∀ ts ∈ kindWord k, p ts) ↔ ∀ a, p [⟨k, a⟩] := by
  refine ⟨fun h a => h _ ⟨a, rfl⟩, ?_⟩
  rintro h _ ⟨a, rfl⟩
  exact h a

theorem forall_mem_identWord : (∀ ts ∈ identWord, p ts) ↔ ∀ i : Ident, p [i.token] := by
  refine ⟨fun h i => h _ ⟨i, rfl⟩, ?_⟩
  rintro h _ ⟨i, rfl⟩
  exact h i

end

theorem writable_kindWord {k : Token.Kind} (h : k.Lexical) : Writable (kindWord k) :=
  ⟨[⟨k, default⟩], by simpa using h, default, rfl⟩

instance {word : Keyword} : Writable (kindWord (.keyword word)) :=
  writable_kindWord trivial

instance {sign : Symbol} : Writable (kindWord (.symbol sign)) :=
  writable_kindWord trivial

theorem kindWord_le_identWord (name : String) : kindWord (.ident name) ≤ identWord := by
  rintro _ ⟨a, rfl⟩
  exact ⟨⟨name, a⟩, rfl⟩

instance : Writable identWord :=
  (writable_kindWord (k := .ident "x") (by decide : isIdentName "x" = true)).mono
    (kindWord_le_identWord "x")

namespace Cursor

/-- The next `n` tokens have the same kinds. -/
def Agree (n : Nat) (c d : Cursor) : Prop :=
  ∀ i < n, d.rest[i]?.map Token.kind = c.rest[i]?.map Token.kind

/-- The tokens to come end with an end mark. -/
def Marked (c : Cursor) : Prop :=
  ∃ ts mark, c.rest = ts ++ [mark] ∧ mark.kind = .eof

section

variable {c d c₁ d₁ : Cursor} {m n : Nat} {ts us : List Token}

theorem Agree.refl (n : Nat) (c : Cursor) : Agree n c c :=
  fun _ _ => rfl

theorem Agree.mono (h : Agree n c d) (hmn : m ≤ n) : Agree m c d :=
  fun i hi => h i (Nat.lt_of_lt_of_le hi hmn)

theorem Agree.behind (h : Agree (ts.length + n) c d) (hc : c.Reads ts c₁) (hd : d.Reads us d₁)
    (hlength : us.length = ts.length) : Agree n c₁ d₁ := by
  intro i hi
  have hkinds := h (ts.length + i) (by omega)
  rwa [hc.rest_eq, hd.rest_eq, ← hlength, List.getElem?_append_right (by omega), hlength,
    List.getElem?_append_right (by omega), Nat.add_sub_cancel_left] at hkinds

theorem Agree.kind_eq (h : Agree n c d) (hn : 0 < n) : d.kind = c.kind := by
  have hkinds := h 0 hn
  obtain ⟨_, rest⟩ := c
  obtain ⟨_, rest'⟩ := d
  cases rest <;> cases rest' <;> simp_all [kind, current]

theorem Agree.ahead?_eq (h : Agree n c d) (hn : 1 < n) : d.ahead? = c.ahead? :=
  h 1 hn

theorem Agree.exists_of_append {t : Token} (h : Agree (ts.length + n) c d) (hn : 0 < n)
    (hc : c.rest = ts ++ t :: us) :
    ∃ ts' t' us', ts'.length = ts.length ∧ d.rest = ts' ++ t' :: us' ∧ t'.kind = t.kind := by
  have hkind := h ts.length (by omega)
  rw [hc, List.getElem?_append_right (Nat.le_refl _), Nat.sub_self, List.getElem?_cons_zero,
    Option.map_some, Option.map_eq_some_iff] at hkind
  obtain ⟨t', ht', hkind⟩ := hkind
  obtain ⟨hlt, rfl⟩ := List.getElem?_eq_some_iff.mp ht'
  refine ⟨d.rest.take ts.length, _, d.rest.drop (ts.length + 1), ?_, ?_, hkind⟩
  · rw [List.length_take]
    omega
  · rw [← List.drop_eq_getElem_cons hlt, List.take_append_drop]

theorem Marked.exists_cons (h : c.Marked) : ∃ t us, c.rest = t :: us := by
  obtain ⟨ts, mark, hrest, -⟩ := h
  cases ts with
  | nil => exact ⟨mark, [], hrest⟩
  | cons t ts => exact ⟨t, ts ++ [mark], hrest⟩

theorem exists_reads {k : Token.Kind} (h : c.kind = k) (hk : k ≠ .eof) :
    ∃ a c₁, c.Reads [⟨k, a⟩] c₁ := by
  obtain ⟨last, rest⟩ := c
  cases rest with
  | nil => exact absurd h.symm hk
  | cons t rest =>
    obtain rfl : t.kind = k := h
    exact ⟨t.span, ⟨t.span, rest⟩, rfl, rfl⟩

theorem accept_of_expect {k : Token.Kind} {r : Read Unit c.size} (h : c.expect k = .ok r) :
    c.accept k = some r := by
  rw [expect] at h
  split at h
  · next hr =>
    cases h
    exact hr
  · cases h

/-- The end mark stays ahead of a step over another token. -/
theorem Marked.step {t : Token} (h : c.Marked) (hstep : c.Reads [t] c₁) (ht : t.kind ≠ .eof) :
    c₁.Marked := by
  obtain ⟨ts, mark, hrest, hmark⟩ := h
  rw [hstep.rest_eq, List.singleton_append] at hrest
  cases ts with
  | nil =>
    obtain ⟨rfl, -⟩ := List.cons.inj hrest
    exact absurd hmark ht
  | cons t' ts => exact ⟨ts, mark, (List.cons.inj hrest).2, hmark⟩

end

/-- An error at `w` points to a token to come, the tokens before it begin a word of `L`, and the
error is found elsewhere too. -/
def FailsAt (L : Language Token) {W : Type} {β : W → Type} (c : W → Cursor)
    (x : (w : W) → Except SyntaxError (β w)) (w : W) : Prop :=
  ∀ e, x w = .error e → ∃ ts t us, (c w).rest = ts ++ t :: us ∧ e.span = t.span ∧ Viable L ts ∧
    ∀ u, Agree (ts.length + 2) (c w) (c u) →
      ∃ ts' t' us', ts'.length = ts.length ∧ (c u).rest = ts' ++ t' :: us' ∧
        x u = .error ⟨e.fault, t'.span⟩

/-- What the outcome at `w` has to do with the tokens to come, and with the outcomes elsewhere. -/
structure Tracks (L : Language Token) {W α : Type} {n : W → Nat} (c : W → Cursor)
    (x : (w : W) → Except SyntaxError (Read α (n w))) (w : W) : Prop where
  ok : ∀ r, x w = .ok r → r.cursor.Marked ∧ ∃ ts ∈ L, (c w).Reads ts r.cursor ∧
    ∀ u, Agree (ts.length + 2) (c w) (c u) →
      ∃ r', x u = .ok r' ∧ ∃ us, us.length = ts.length ∧ (c u).Reads us r'.cursor
  error : FailsAt L c x w

/-- The places behind a first step `x`, where it succeeded; one of them lies behind `w`. -/
structure Behind {W α : Type} {n : W → Nat} (x : (w : W) → Except SyntaxError (Read α (n w)))
    (w : W) where
  {V : Type}
  origin : V → W
  value : V → α
  cursor : V → Cursor
  lt : ∀ u, (cursor u).size < n (origin u)
  eq : ∀ u, x (origin u) = .ok ⟨value u, cursor u, lt u⟩
  here : V
  size_lt : (cursor here).size < n w
  marked : (cursor here).Marked

/-- The places at which the next two tokens are of the same kinds as at `w`. -/
structure Alike {W : Type} (c : W → Cursor) (w : W) where
  {V : Type}
  origin : V → W
  kind_eq : ∀ u, (c (origin u)).kind = (c w).kind
  ahead?_eq : ∀ u, (c (origin u)).ahead? = (c w).ahead?
  here : V
  size_eq : (c (origin here)).size = (c w).size
  marked : (c (origin here)).Marked

section

variable {L M : Language Token} {W α β : Type} {n m : W → Nat} {c : W → Cursor} {w : W}

theorem FailsAt.mono {β : W → Type} {x : (w : W) → Except SyntaxError (β w)}
    (h : FailsAt L c x w) (hLM : L ≤ M) : FailsAt M c x w := by
  intro e he
  obtain ⟨ts, t, us, hrest, hspan, hviable, hrun⟩ := h e he
  exact ⟨ts, t, us, hrest, hspan, hviable.mono hLM, hrun⟩

theorem Tracks.mono {x : (w : W) → Except SyntaxError (Read α (n w))} (h : Tracks L c x w)
    (hLM : L ≤ M) : Tracks M c x w where
  ok r hr := by
    obtain ⟨hmark, ts, hts, hrest⟩ := h.ok r hr
    exact ⟨hmark, ts, hLM hts, hrest⟩
  error := h.error.mono hLM

theorem FailsAt.map {β γ : W → Type} {x : (w : W) → Except SyntaxError (β w)}
    {f : (w : W) → β w → γ w} (h : FailsAt L c x w) :
    FailsAt L c (fun u => x u >>= fun b => Pure.pure (f u b)) w := by
  intro e he
  rcases bind_eq_error_iff.mp he with he | ⟨b, -, he⟩
  · obtain ⟨ts, t, us, hrest, hspan, hviable, hrun⟩ := h e he
    refine ⟨ts, t, us, hrest, hspan, hviable, fun u hu => ?_⟩
    obtain ⟨ts', t', us', hlength, hrest', hfail⟩ := hrun u hu
    exact ⟨ts', t', us', hlength, hrest', bind_eq_error_iff.mpr (.inl hfail)⟩
  · cases he

/-! ### Steps in a row -/

/-- All places behind a first step that succeeds at `w`. -/
def Tracks.behind {x : (w : W) → Except SyntaxError (Read α (n w))} (h : Tracks L c x w)
    {r : Read α (n w)} (hr : x w = .ok r) : Behind x w where
  V := {p : (u : W) × Read α (n u) // x p.1 = .ok p.2}
  origin p := p.1.1
  value p := p.1.2.value
  cursor p := p.1.2.cursor
  lt p := p.1.2.lt
  eq p := p.2
  here := ⟨⟨w, r⟩, hr⟩
  size_lt := r.lt
  marked := (h.ok r hr).1

theorem FailsAt.bind {β : W → Type} [hM : Writable M]
    {x : (w : W) → Except SyntaxError (Read α (n w))}
    {f : (w : W) → Read α (n w) → Except SyntaxError (β w)} (hx : Tracks L c x w)
    (hf : ∀ s : Behind x w,
      FailsAt M s.cursor (fun u => f (s.origin u) ⟨s.value u, s.cursor u, s.lt u⟩) s.here) :
    FailsAt (L * M) c (fun u => x u >>= f u) w := by
  intro e he
  rcases bind_eq_error_iff.mp he with he | ⟨r, hr, he⟩
  · obtain ⟨ts, t, us, hrest, hspan, hviable, hrun⟩ := hx.error e he
    refine ⟨ts, t, us, hrest, hspan, hviable.mul_right hM.viable, fun u hu => ?_⟩
    obtain ⟨ts', t', us', hlength, hrest', hfail⟩ := hrun u hu
    exact ⟨ts', t', us', hlength, hrest', bind_eq_error_iff.mpr (.inl hfail)⟩
  · obtain ⟨-, ts, hts, hreads, hrun⟩ := hx.ok r hr
    obtain ⟨us, t, vs, hrest, hspan, hviable, hrun'⟩ := hf (hx.behind hr) e he
    refine ⟨ts ++ us, t, vs, ?_, hspan, .mul_left hts hviable, fun u hu => ?_⟩
    · have hrest : r.cursor.rest = us ++ t :: vs := hrest
      rw [hreads.rest_eq, hrest, List.append_assoc]
    · rw [List.length_append, Nat.add_assoc] at hu
      -- the first step reads as much at `u`, so `u` is one of the places behind it
      obtain ⟨q, hq, ts', hlength, hreads'⟩ := hrun u (hu.mono (by omega))
      obtain ⟨us', t', vs', hlength', hrest', hfail⟩ :=
        hrun' ⟨⟨u, q⟩, hq⟩ (hu.behind hreads hreads' hlength)
      have hrest' : q.cursor.rest = us' ++ t' :: vs' := hrest'
      refine ⟨ts' ++ us', t', vs', ?_, ?_, bind_eq_error_iff.mpr (.inr ⟨q, hq, hfail⟩)⟩
      · rw [List.length_append, List.length_append, hlength, hlength']
      · rw [hreads'.rest_eq, hrest', List.append_assoc]

theorem Tracks.bind [Writable M] {x : (w : W) → Except SyntaxError (Read α (n w))}
    {f : (w : W) → Read α (n w) → Except SyntaxError (Read β (m w))} (hx : Tracks L c x w)
    (hf : ∀ s : Behind x w,
      Tracks M s.cursor (fun u => f (s.origin u) ⟨s.value u, s.cursor u, s.lt u⟩) s.here) :
    Tracks (L * M) c (fun u => x u >>= f u) w where
  ok r hr := by
    obtain ⟨r₁, hr₁, hr⟩ := bind_eq_ok_iff.mp hr
    obtain ⟨-, ts, hts, hreads, hrun⟩ := hx.ok r₁ hr₁
    obtain ⟨hmark, us, hus, hreads', hrun'⟩ := (hf (hx.behind hr₁)).ok r hr
    refine ⟨hmark, ts ++ us, Language.append_mem_mul hts hus, hreads.trans hreads', fun u hu => ?_⟩
    rw [List.length_append, Nat.add_assoc] at hu
    obtain ⟨q₁, hq₁, ts', hlength, hq⟩ := hrun u (hu.mono (by omega))
    obtain ⟨q, hq', us', hlength', hreads''⟩ := hrun' ⟨⟨u, q₁⟩, hq₁⟩ (hu.behind hreads hq hlength)
    refine ⟨q, bind_eq_ok_iff.mpr ⟨q₁, hq₁, hq'⟩, ts' ++ us', ?_, hq.trans hreads''⟩
    rw [List.length_append, List.length_append, hlength, hlength']
  error := .bind hx fun s => (hf s).error

/-- Nothing more is read. -/
theorem Tracks.pure {a : W → α} {h : ∀ u, (c u).size < n u} (hw : (c w).Marked) :
    Tracks 1 c (fun u => (Pure.pure ⟨a u, c u, h u⟩ : Except SyntaxError (Read α (n u)))) w where
  ok r hr := by
    cases hr
    exact ⟨hw, [], Language.nil_mem_one, .refl _, fun u _ => ⟨_, rfl, [], rfl, .refl _⟩⟩
  error e he := by cases he

/-- The token to come is refused. -/
theorem Tracks.fail {e : W → SyntaxError} {fault : SyntaxFault} [hL : Writable L]
    (hw : (c w).Marked) (he : ∀ u, e u = ⟨fault, (c u).current.span⟩) :
    Tracks L c (fun u => (.error (e u) : Except SyntaxError (Read α (n u)))) w where
  ok r hr := by cases hr
  error e' he' := by
    obtain rfl : e w = e' := Except.error.inj he'
    obtain ⟨t, us, hrest⟩ := hw.exists_cons
    refine ⟨[], t, us, hrest, ?_, hL.viable, fun u hu => ?_⟩
    · rw [he, current, hrest]
      rfl
    · obtain ⟨ts', t', us', hlength, hrest', -⟩ :=
        Agree.exists_of_append (n := 2) hu (by omega) hrest
      refine ⟨ts', t', us', hlength, hrest', ?_⟩
      obtain rfl := List.length_eq_zero_iff.mp hlength
      show Except.error (e u) = Except.error ⟨(e w).fault, t'.span⟩
      rw [he, he, current, hrest']
      rfl

/-! ### A look at the next tokens -/

/-- All places that look like `w`. -/
def Alike.all (hw : (c w).Marked) : Alike c w where
  V := {u // Agree 2 (c w) (c u)}
  origin := Subtype.val
  kind_eq u := u.2.kind_eq (by omega)
  ahead?_eq u := u.2.ahead?_eq (by omega)
  here := ⟨w, .refl 2 _⟩
  size_eq := rfl
  marked := hw

/-- What happens at `w` has to be compared with the places that look alike only. -/
theorem FailsAt.byKind {β : W → Type} {x : (w : W) → Except SyntaxError (β w)} (hw : (c w).Marked)
    (h : ∀ s : Alike c w, FailsAt L (fun u => c (s.origin u)) (fun u => x (s.origin u)) s.here) :
    FailsAt L c x w := by
  intro e he
  obtain ⟨ts, t, us, hrest, hspan, hviable, hrun⟩ := h (.all hw) e he
  exact ⟨ts, t, us, hrest, hspan, hviable, fun u hu => hrun ⟨u, hu.mono (by omega)⟩ hu⟩

theorem Tracks.byKind {x : (w : W) → Except SyntaxError (Read α (n w))} (hw : (c w).Marked)
    (h : ∀ s : Alike c w, Tracks L (fun u => c (s.origin u)) (fun u => x (s.origin u)) s.here) :
    Tracks L c x w where
  ok r hr := by
    obtain ⟨hmark, ts, hts, hreads, hrun⟩ := (h (.all hw)).ok r hr
    exact ⟨hmark, ts, hts, hreads, fun u hu => hrun ⟨u, hu.mono (by omega)⟩ hu⟩
  error := .byKind hw fun s => (h s).error

/-- A token that is to come everywhere is read. -/
theorem Tracks.token {k : Token.Kind} {x : (w : W) → Except SyntaxError (Read α (n w))}
    (hk : k ≠ .eof) (hw : (c w).Marked) (hkind : ∀ u, (c u).kind = k)
    (hx : ∀ u a c₁, (c u).Reads [⟨k, a⟩] c₁ → ∃ r, x u = .ok r ∧ r.cursor = c₁) :
    Tracks (kindWord k) c x w := by
  have hall (u : W) : ∃ r a, x u = .ok r ∧ (c u).Reads [⟨k, a⟩] r.cursor := by
    obtain ⟨a, c₁, hread⟩ := exists_reads (hkind u) hk
    obtain ⟨r, hr, rfl⟩ := hx u a c₁ hread
    exact ⟨r, a, hr, hread⟩
  constructor
  · intro r hr
    obtain ⟨r', a, hr', hread⟩ := hall w
    obtain rfl : r = r' := Except.ok.inj (hr.symm.trans hr')
    refine ⟨hw.step hread hk, _, ⟨a, rfl⟩, hread, fun u _ => ?_⟩
    obtain ⟨q, b, hq, hread'⟩ := hall u
    exact ⟨q, hq, [⟨k, b⟩], rfl, hread'⟩
  · intro e he
    obtain ⟨r, -, hr, -⟩ := hall w
    rw [hr] at he
    cases he

/-! ### One token -/

theorem unexpected_of_kind_eq {c d : Cursor} (h : d.kind = c.kind) (expected : Expectation) :
    d.unexpected expected = ⟨(c.unexpected expected).fault, d.current.span⟩ := by
  unfold unexpected
  rw [h]
  split <;> rfl

/-- A token of kind `k` is read, or something else was expected. -/
theorem tracks_accept {k : Token.Kind} {x : (u : W) → Except SyntaxError (Read Unit (c u).size)}
    (expected : Expectation) (hsome : ∀ u r, (c u).accept k = some r → x u = .ok r)
    (hnone : ∀ u, (c u).accept k = none → x u = .error ((c u).unexpected expected))
    (hk : k ≠ .eof) [Writable (kindWord k)] (hw : (c w).Marked) : Tracks (kindWord k) c x w := by
  refine .byKind hw fun s => ?_
  by_cases hkind : (c w).kind = k
  · refine Tracks.token hk s.marked (fun u => (s.kind_eq u).trans hkind) fun u a c₁ hread => ?_
    obtain ⟨d, lt, haccept, -, hd⟩ := hread.accept_eq
    exact ⟨_, hsome _ _ haccept, hd.eq_of_nil.symm⟩
  · have hfail (u : s.V) : x (s.origin u) = .error ((c (s.origin u)).unexpected expected) :=
      hnone _ (accept_eq_none fun h => hkind ((s.kind_eq u).symm.trans h))
    simp only [hfail]
    exact .fail s.marked fun u => unexpected_of_kind_eq (s.kind_eq u) expected

theorem tracks_expect {k : Token.Kind} (hk : k ≠ .eof) [Writable (kindWord k)]
    (hw : (c w).Marked) : Tracks (kindWord k) c (fun u => (c u).expect k) w :=
  tracks_accept (.token k) (fun u r h => by rw [expect, h]) (fun u h => by rw [expect, h]) hk hw

theorem tracks_keyword {word : Keyword} (hw : (c w).Marked) :
    Tracks (kindWord (.keyword word)) c (fun u => (c u).keyword word) w :=
  tracks_expect Token.Kind.noConfusion hw

theorem tracks_symbol {sign : Symbol} (hw : (c w).Marked) :
    Tracks (kindWord (.symbol sign)) c (fun u => (c u).symbol sign) w :=
  tracks_expect Token.Kind.noConfusion hw

theorem tracks_word {name : String} [Writable (kindWord (.ident name))] (hw : (c w).Marked) :
    Tracks (kindWord (.ident name)) c (fun u => (c u).word name) w :=
  tracks_accept (.word name) (fun u r h => by rw [word, h]) (fun u h => by rw [word, h])
    Token.Kind.noConfusion hw

theorem tracks_name {name : String} (hw : (c w).Marked) (hkind : ∀ u, (c u).kind = .ident name) :
    Tracks (kindWord (.ident name)) c (fun u => (c u).ident) w := by
  refine .token Token.Kind.noConfusion hw hkind fun u a c₁ hread => ?_
  obtain ⟨d, lt, hident, -, hd⟩ := Reads.ident_eq (i := ⟨name, a⟩) hread
  exact ⟨_, hident, hd.eq_of_nil.symm⟩

theorem tracks_ident (hw : (c w).Marked) : Tracks identWord c (fun u => (c u).ident) w := by
  refine .byKind hw fun s => ?_
  cases hkind : (c w).kind with
  | ident name =>
    exact .mono (tracks_name s.marked fun u => (s.kind_eq u).trans hkind)
      (kindWord_le_identWord name)
  | keyword | symbol | intLit | eof | unknown =>
    simp only [ident, s.kind_eq, hkind]
    exact .fail s.marked fun u => rfl

/-- A reader that goes on in one way behind a token of kind `k` if it comes, and in another way if
not. -/
theorem Tracks.branch {x : (w : W) → Except SyntaxError (Read α (n w))} (k : Token.Kind)
    (hk : k ≠ .eof) [Writable (kindWord k)] [Writable M] (hw : (c w).Marked)
    (hM : kindWord k * M ≤ L)
    (hyes : ∀ s : Behind (fun u => (c u).expect k) w,
      (∀ u, (c (s.origin u)).accept k = some ⟨(), s.cursor u, s.lt u⟩) →
      Tracks M s.cursor (fun u => x (s.origin u)) s.here)
    (hno : ∀ s : Alike c w, (∀ u, (c (s.origin u)).accept k = none) →
      Tracks L (fun u => c (s.origin u)) (fun u => x (s.origin u)) s.here) : Tracks L c x w := by
  by_cases hkind : (c w).kind = k
  · refine Tracks.mono ?_ hM
    refine .byKind hw fun s => ?_
    have hx : (fun u => x (s.origin u)) =
        fun u => (c (s.origin u)).expect k >>= fun _ => x (s.origin u) := by
      funext u
      obtain ⟨a, c₁, hread⟩ := exists_reads ((s.kind_eq u).trans hkind) hk
      obtain ⟨d, lt, hexpect, -⟩ := hread.expect_eq
      rw [hexpect, ok_bind]
    rw [hx]
    refine Tracks.bind (tracks_expect hk s.marked) fun s₁ => ?_
    exact hyes ⟨fun u => s.origin (s₁.origin u), s₁.value, s₁.cursor, s₁.lt, s₁.eq, s₁.here,
      s.size_eq ▸ s₁.size_lt, s₁.marked⟩ fun u => accept_of_expect (s₁.eq u)
  · exact .byKind hw fun s =>
      hno s fun u => accept_eq_none fun h => hkind ((s.kind_eq u).symm.trans h)

end

end Cursor

end MiniJava
