import MiniJava.Analysis.Basic

/-!
# Outcomes of steps in a row

What has to hold for a sequence of steps to succeed, for steps that may fail (`Except`) and for
steps that may fail and keep a log (`Analysis`).
-/

namespace MiniJava

variable {ε α β σ τ : Type}

@[simp] theorem ok_bind (a : α) (f : α → Except ε β) : (Except.ok a >>= f) = f a := rfl

@[simp] theorem error_bind (e : ε) (f : α → Except ε β) : (Except.error e >>= f) = .error e := rfl

/-- Two steps in a row succeed exactly if the first one does, and then the second one. -/
@[simp] theorem bind_eq_ok_iff {x : Except ε α} {f : α → Except ε β} {b : β} :
    x >>= f = .ok b ↔ ∃ a, x = .ok a ∧ f a = .ok b := by
  cases x with
  | error e => simp
  | ok a => simp

/-- Two steps in a row fail exactly if the first one does, or it succeeds and the second one
fails. -/
theorem bind_eq_error_iff {x : Except ε α} {f : α → Except ε β} {e : ε} :
    x >>= f = .error e ↔ x = .error e ∨ ∃ a, x = .ok a ∧ f a = .error e := by
  cases x with
  | error e' => simp
  | ok a => simp

@[simp] theorem map_eq_ok_iff {x : Except ε α} {f : α → β} {b : β} :
    x.map f = .ok b ↔ ∃ a, x = .ok a ∧ f a = b := by
  cases x with
  | error e => simp [Except.map]
  | ok a => simp [Except.map]

/-- A condition that is refused must not hold for a step to succeed. -/
theorem ite_error_eq_ok_iff {p : Prop} [Decidable p] {e : ε} {a b : α} :
    (if p then .error e else .ok a : Except ε α) = .ok b ↔ ¬p ∧ b = a := by
  by_cases h : p
  · simp [h]
  · simp [h, eq_comm]

theorem ite_error_eq_error_iff {p : Prop} [Decidable p] {e e' : ε} {a : α} :
    (if p then .error e else .ok a : Except ε α) = .error e' ↔ p ∧ e = e' := by
  by_cases h : p
  · simp [h]
  · simp [h]

/-! ### Folds -/

/-- The places of a list with one more element in front. -/
theorem forall_places_cons {Q : List α → α → Prop} {a : α} {l : List α} :
    (∀ before b after, a :: l = before ++ b :: after → Q before b) ↔
      Q [] a ∧ ∀ before b after, l = before ++ b :: after → Q (a :: before) b := by
  constructor
  · intro h
    refine ⟨h [] a l rfl, fun before b after heq => h (a :: before) b after ?_⟩
    rw [heq, List.cons_append]
  · rintro ⟨hfirst, hmore⟩ before b after heq
    cases before with
    | nil =>
      obtain ⟨rfl, -⟩ := List.cons.inj heq
      exact hfirst
    | cons c before =>
      obtain ⟨rfl, hl⟩ := List.cons.inj heq
      exact hmore before b after hl

/-- A condition on elements only does not depend on their places. -/
theorem forall_places_and_iff {Q : List α → α → Prop} {R : α → Prop} {l : List α} :
    (∀ before a after, l = before ++ a :: after → Q before a ∧ R a) ↔
      (∀ before a after, l = before ++ a :: after → Q before a) ∧ ∀ a ∈ l, R a := by
  constructor
  · intro h
    refine ⟨fun before a after heq => (h before a after heq).1, fun a ha => ?_⟩
    obtain ⟨before, after, heq⟩ := List.append_of_mem ha
    exact (h before a after heq).2
  · rintro ⟨hQ, hR⟩ before a after heq
    refine ⟨hQ before a after heq, hR a ?_⟩
    rw [heq]
    exact List.mem_append_right before List.mem_cons_self

/-- Steps in a row succeed exactly if each of them is allowed in the state that the ones before it
lead to. -/
theorem foldlM_eq_ok_iff {step : σ → α → Except ε σ} {Allowed : σ → α → Prop} {add : σ → α → σ}
    (hstep : ∀ s a s', step s a = .ok s' ↔ Allowed s a ∧ s' = add s a) {l : List α} {s s' : σ} :
    l.foldlM step s = .ok s' ↔
      (∀ before a after, l = before ++ a :: after → Allowed (before.foldl add s) a) ∧
        s' = l.foldl add s := by
  induction l generalizing s with
  | nil =>
    rw [List.foldlM_nil]
    constructor
    · intro h
      cases h
      exact ⟨fun before a after heq => by simp at heq, rfl⟩
    · rintro ⟨-, rfl⟩
      rfl
  | cons a l ih =>
    rw [List.foldlM_cons, bind_eq_ok_iff, forall_places_cons]
    constructor
    · rintro ⟨s₁, hs₁, h⟩
      obtain ⟨hallowed, rfl⟩ := (hstep s a s₁).mp hs₁
      obtain ⟨hmore, rfl⟩ := ih.mp h
      exact ⟨⟨hallowed, hmore⟩, rfl⟩
    · rintro ⟨⟨hallowed, hmore⟩, rfl⟩
      exact ⟨add s a, (hstep s a _).mpr ⟨hallowed, rfl⟩, ih.mpr ⟨hmore, rfl⟩⟩

/-- Steps in a row fail exactly if one of them fails in the state that the ones before it lead to,
and these are allowed. -/
theorem foldlM_eq_error_iff {step : σ → α → Except ε σ} {Allowed : σ → α → Prop} {add : σ → α → σ}
    (hstep : ∀ s a s', step s a = .ok s' ↔ Allowed s a ∧ s' = add s a) {l : List α} {s : σ} {e : ε} :
    l.foldlM step s = .error e ↔
      ∃ before a after, l = before ++ a :: after ∧ step (before.foldl add s) a = .error e ∧
        ∀ first b between, before = first ++ b :: between → Allowed (first.foldl add s) b := by
  constructor
  · intro h
    induction l generalizing s with
    | nil => cases h
    | cons a l ih =>
      rw [List.foldlM_cons, bind_eq_error_iff] at h
      rcases h with ha | ⟨s', hs', hl⟩
      · exact ⟨[], a, l, rfl, ha, fun first b between heq => by simp at heq⟩
      · obtain ⟨hallowed, rfl⟩ := (hstep s a s').mp hs'
        obtain ⟨before, b, after, rfl, hb, hbefore⟩ := ih hl
        exact ⟨a :: before, b, after, rfl, hb, forall_places_cons.mpr ⟨hallowed, hbefore⟩⟩
  · rintro ⟨before, a, after, rfl, ha, hbefore⟩
    have hok : before.foldlM step s = .ok (before.foldl add s) :=
      (foldlM_eq_ok_iff hstep).mpr ⟨hbefore, rfl⟩
    rw [List.foldlM_append, hok, ok_bind, List.foldlM_cons, ha, error_bind]

/-- Where steps in a row fail, one of them does. -/
theorem exists_of_foldlM_eq_error {step : σ → α → Except ε σ} {l : List α} {s : σ} {e : ε}
    (h : l.foldlM step s = .error e) : ∃ a ∈ l, ∃ s', step s' a = .error e := by
  induction l generalizing s with
  | nil => cases h
  | cons a l ih =>
    rw [List.foldlM_cons, bind_eq_error_iff] at h
    rcases h with ha | ⟨s', -, hl⟩
    · exact ⟨a, List.mem_cons_self, s, ha⟩
    · obtain ⟨b, hb, s'', hfail⟩ := ih hl
      exact ⟨b, List.mem_cons_of_mem _ hb, s'', hfail⟩

/-- Steps in a row on states that stand for other states, as long as `Inv` holds of these. -/
theorem foldlM_map_eq {f : σ → α → Except ε σ} {f' : τ → α → Except ε τ} {g : σ → τ}
    (Inv : σ → Prop) (hstep : ∀ s a, Inv s → f' (g s) a = (f s a).map g)
    (hinv : ∀ s a s', Inv s → f s a = .ok s' → Inv s') (l : List α) {s : σ} (hs : Inv s) :
    l.foldlM f' (g s) = (l.foldlM f s).map g := by
  induction l generalizing s with
  | nil => rfl
  | cons a l ih =>
    rw [List.foldlM_cons, List.foldlM_cons, hstep s a hs]
    cases hfa : f s a with
    | error e => rfl
    | ok s' => exact ih (hinv s a s' hs hfa)

/-! ### Steps with a log -/

namespace Analysis

@[simp] theorem result_liftM (r : Except SemanticError α) : (liftM r : Analysis α).result = r := rfl

@[simp] theorem result_map (f : α → β) (p : Analysis α) : (f <$> p).result = p.result.map f := by
  rw [map_eq_pure_bind, result_bind]
  cases p.result <;> rfl

theorem result_bind_eq_ok_iff {p : Analysis α} {f : α → Analysis β} {b : β} :
    (p >>= f).result = .ok b ↔ ∃ a, p.result = .ok a ∧ (f a).result = .ok b := by
  rw [result_bind, bind_eq_ok_iff]

theorem result_bind_eq_error_iff {p : Analysis α} {f : α → Analysis β} {e : SemanticError} :
    (p >>= f).result = .error e ↔
      p.result = .error e ∨ ∃ a, p.result = .ok a ∧ (f a).result = .error e := by
  rw [result_bind, bind_eq_error_iff]

/-- Behind a step that succeeds, the next one goes on with its value. -/
theorem bind_of_ok {p : Analysis α} {a : α} (h : p.result = .ok a) (f : α → Analysis β) :
    p >>= f = ⟨p.log ++ (f a).log, (f a).result⟩ := by
  apply Analysis.ext
  · exact log_bind_of_ok h f
  · rw [result_bind, h, ok_bind]

theorem bind_of_error {p : Analysis α} {e : SemanticError} (h : p.result = .error e)
    (f : α → Analysis β) : p >>= f = ⟨p.log, .error e⟩ := by
  apply Analysis.ext
  · exact log_bind_of_error h f
  · rw [result_bind, h, error_bind]

theorem liftM_map (x : Except SemanticError α) (g : α → β) :
    (liftM (x.map g) : Analysis β) = g <$> liftM x := by
  cases x <;> rfl

theorem liftM_ok_bind (a : α) (f : α → Analysis β) :
    (liftM (Except.ok a : Except SemanticError α) : Analysis α) >>= f = f a := rfl

/-- Forgetting the value of a step does not change whether it succeeds. -/
@[simp] theorem result_discard_eq_ok_iff {p : Analysis α} {u : PUnit} :
    (discard p).result = .ok u ↔ ∃ a, p.result = .ok a := by
  simp [Functor.discard, map_const]

theorem result_discard_eq_error_iff {p : Analysis α} {e : SemanticError} :
    (discard p).result = .error e ↔ p.result = .error e := by
  rw [Functor.discard, map_const, Function.comp_apply, result_map]
  cases p.result <;> simp [Except.map]

/-- A condition that is tested before a step has to hold for both to succeed. -/
@[simp] theorem result_ite_fail_eq_ok_iff {c : Prop} [Decidable c] {p : Analysis α} {e : SemanticError}
    {a : α} : (if c then p else fail e).result = .ok a ↔ c ∧ p.result = .ok a := by
  by_cases h : c <;> simp [h]

/-- A step for each element of a list succeeds exactly if it succeeds for every element. -/
@[simp] theorem result_forM_eq_ok_iff {f : α → Analysis PUnit} {l : List α} {u : PUnit} :
    (forM l f).result = .ok u ↔ ∀ a ∈ l, (f a).result = .ok ⟨⟩ := by
  induction l with
  | nil => simp
  | cons a l ih =>
    rw [List.forM_cons, result_bind_eq_ok_iff, List.forall_mem_cons, ← ih]
    exact ⟨fun ⟨_, ha, hl⟩ => ⟨ha, hl⟩, fun ⟨ha, hl⟩ => ⟨_, ha, hl⟩⟩

/-- Where a step for each element of a list fails, it fails for one of the elements. -/
theorem exists_of_result_forM_eq_error {f : α → Analysis PUnit} {l : List α} {e : SemanticError}
    (h : (forM l f).result = .error e) : ∃ a ∈ l, (f a).result = .error e := by
  induction l with
  | nil => cases h
  | cons a l ih =>
    rw [List.forM_cons, result_bind_eq_error_iff] at h
    rcases h with ha | ⟨-, -, hl⟩
    · exact ⟨a, List.mem_cons_self, ha⟩
    · obtain ⟨b, hb, hfail⟩ := ih hl
      exact ⟨b, List.mem_cons_of_mem _ hb, hfail⟩

/-- What comes second is only asked for where the first step succeeds. -/
theorem bind_congr_of_ok {p q : Analysis α} {f g : α → Analysis β} (hpq : p = q)
    (hfg : ∀ a, p.result = .ok a → f a = g a) : p >>= f = q >>= g := by
  subst hpq
  show Analysis.bind p f = Analysis.bind p g
  unfold Analysis.bind
  cases hp : p.result with
  | ok a => simp only [hfg a hp]
  | error e => rfl

theorem forM_congr {f g : α → Analysis PUnit} {l : List α} (h : ∀ a ∈ l, f a = g a) :
    forM l f = forM l g := by
  induction l with
  | nil => rfl
  | cons a l ih =>
    rw [List.forall_mem_cons] at h
    rw [List.forM_cons, List.forM_cons, h.1, ih h.2]

/-- Taking the result commutes with a fold. -/
theorem result_foldlM (f : σ → α → Analysis σ) (l : List α) (s : σ) :
    (l.foldlM f s).result = l.foldlM (fun s a => (f s a).result) s := by
  induction l generalizing s with
  | nil => rfl
  | cons a l ih =>
    rw [List.foldlM_cons, List.foldlM_cons, result_bind]
    simp only [ih]

/-- Steps in a row on states that stand for other states, with the same log. -/
theorem foldlM_map_eq {f : σ → α → Analysis σ} {f' : τ → α → Analysis τ} {g : σ → τ}
    (Inv : σ → Prop) (hstep : ∀ s a, Inv s → f' (g s) a = g <$> f s a)
    (hinv : ∀ s a s', Inv s → (f s a).result = .ok s' → Inv s') (l : List α) {s : σ} (hs : Inv s) :
    l.foldlM f' (g s) = g <$> l.foldlM f s := by
  induction l generalizing s with
  | nil => rw [List.foldlM_nil, List.foldlM_nil, map_pure]
  | cons a l ih =>
    rw [List.foldlM_cons, List.foldlM_cons, hstep s a hs, map_bind, bind_map_left]
    exact bind_congr_of_ok rfl fun s' hs' => ih (hinv s a s' hs hs')

end Analysis

end MiniJava
