import MiniJava.Proofs.Lookahead

/-!
# The runs of the readers

Each reader of expressions and statements does what `Cursor.Tracks` says, for the language of its
form.
-/

namespace MiniJava

/-- The words that make a word of `N` behind each word of `L`. -/
def behind (L N : Language Token) : Language Token :=
  {ts | ∀ us ∈ L, us ++ ts ∈ N}

theorem mul_behind_le (L N : Language Token) : L * behind L N ≤ N := by
  rintro _ ⟨us, hus, ts, hts, rfl⟩
  exact hts us hus

/-! ### Expressions -/

/-- The ways to write a primary expression. -/
def primaryWords : Language Token :=
  {ts | ∃ e : Expr, e.isPrimary = true ∧ e.ReadFrom ts}

/-- The ways to write an expression. -/
def exprWords : Language Token :=
  {ts | ∃ e : Expr, e.ReadFrom ts}

/-- The ways to write at least one argument, with the parenthesis behind. -/
def argsWords : Language Token :=
  {ts | ∃ args us a, args ≠ [] ∧ Expr.ArgsReadFrom args us ∧ ts = us ++ [⟨.symbol .rparen, a⟩]}

theorem primaryWords_le_exprWords : primaryWords ≤ exprWords := by
  rintro ts ⟨e, -, he⟩
  exact ⟨e, he⟩

theorem this_le : kindWord (.keyword .thisKw) * 1 ≤ primaryWords := by
  rintro _ ⟨_, ⟨a, rfl⟩, _, rfl, rfl⟩
  exact ⟨_, rfl, .this⟩

instance : Writable primaryWords :=
  Writable.mono inferInstance this_le

instance : Writable exprWords :=
  Writable.mono inferInstance primaryWords_le_exprWords

theorem int_le {digits : String} (h : isIntText digits = true) :
    kindWord (.intLit digits) * 1 ≤ primaryWords := by
  rintro _ ⟨_, ⟨a, rfl⟩, _, rfl, rfl⟩
  exact ⟨_, rfl, .int h⟩

theorem bool_le (value : Bool) :
    kindWord (.keyword (if value then .trueKw else .falseKw)) * 1 ≤ primaryWords := by
  rintro _ ⟨_, ⟨a, rfl⟩, _, rfl, rfl⟩
  exact ⟨_, rfl, .bool⟩

theorem name_le : identWord * 1 ≤ primaryWords := by
  rintro _ ⟨_, ⟨i, rfl⟩, _, rfl, rfl⟩
  exact ⟨_, rfl, .ident⟩

theorem not_le : kindWord (.symbol .bang) * (primaryWords * 1) ≤ primaryWords := by
  rw [mul_one]
  rintro _ ⟨_, ⟨a, rfl⟩, ts, ⟨e, hprimary, he⟩, rfl⟩
  exact ⟨_, rfl, .not hprimary he⟩

theorem paren_le :
    kindWord (.symbol .lparen) * (exprWords * (kindWord (.symbol .rparen) * 1)) ≤ primaryWords := by
  simp only [le_iff_forall_mem, forall_mem_mul, forall_mem_kindWord, forall_mem_one]
  rintro a ts ⟨e, he⟩ b
  exact ⟨_, rfl, .paren he⟩

theorem newArray_le :
    kindWord (.keyword .intKw) *
        (kindWord (.symbol .lbracket) * (exprWords * (kindWord (.symbol .rbracket) * 1))) ≤
      behind (kindWord (.keyword .newKw)) primaryWords := by
  simp only [le_iff_forall_mem, forall_mem_mul, forall_mem_kindWord, forall_mem_one]
  rintro b c ts ⟨e, he⟩ d _ ⟨a, rfl⟩
  exact ⟨_, rfl, .newArray he⟩

theorem newObject_le :
    identWord * (kindWord (.symbol .lparen) * (kindWord (.symbol .rparen) * 1)) ≤
      behind (kindWord (.keyword .newKw)) primaryWords := by
  simp only [le_iff_forall_mem, forall_mem_mul, forall_mem_kindWord, forall_mem_identWord,
    forall_mem_one]
  rintro i b c _ ⟨a, rfl⟩
  exact ⟨_, rfl, .newObject⟩

instance : Writable (behind (kindWord (.keyword .newKw)) primaryWords) :=
  Writable.mono inferInstance newObject_le

theorem binary_le (op : BinOp) :
    kindWord (.symbol op.symbol) * (primaryWords * 1) ≤ behind primaryWords exprWords := by
  rw [mul_one]
  rintro _ ⟨_, ⟨a, rfl⟩, us, ⟨right, hright, hus⟩, rfl⟩ ts ⟨left, hleft, hts⟩
  exact ⟨_, .binary hleft hright hts hus⟩

theorem index_le :
    kindWord (.symbol .lbracket) * (primaryWords * (kindWord (.symbol .rbracket) * 1)) ≤
      behind primaryWords exprWords := by
  simp only [le_iff_forall_mem, forall_mem_mul, forall_mem_kindWord, forall_mem_one]
  rintro a us ⟨position, hposition, hus⟩ b ts ⟨array, harray, hts⟩
  exact ⟨_, .index harray hposition hts hus⟩

theorem no_operation_le : 1 ≤ behind primaryWords exprWords := by
  rintro _ rfl ts hts
  rw [List.append_nil]
  exact primaryWords_le_exprWords hts

instance : Writable (behind primaryWords exprWords) :=
  Writable.mono inferInstance no_operation_le

/-- What can stand behind a primary expression and a dot. -/
def memberWords : Language Token :=
  behind (kindWord (.symbol .dot)) (behind primaryWords exprWords)

theorem length_le : 1 ≤ behind (kindWord (.ident "length")) memberWords := by
  rintro _ rfl _ ⟨b, rfl⟩ _ ⟨a, rfl⟩ ts ⟨array, harray, hts⟩
  exact ⟨_, .length harray hts⟩

/-- What can stand behind a call up to the name of its method. -/
def callWords (name : String) : Language Token :=
  behind (kindWord (.ident name)) memberWords

theorem send_nil_le (name : String) :
    kindWord (.symbol .rparen) * 1 ≤ behind (kindWord (.symbol .lparen)) (callWords name) := by
  rintro _ ⟨_, ⟨d, rfl⟩, _, rfl, rfl⟩ _ ⟨c, rfl⟩ _ ⟨b, rfl⟩ _ ⟨a, rfl⟩ ts ⟨receiver, hreceiver, hts⟩
  exact ⟨_, @Expr.ReadFrom.send a c d receiver ⟨name, b⟩ [] ts [] hreceiver hts .nil⟩

theorem send_le (name : String) :
    argsWords * 1 ≤ behind (kindWord (.symbol .lparen)) (callWords name) := by
  rw [mul_one]
  rintro _ ⟨args, us, d, -, hus, rfl⟩ _ ⟨c, rfl⟩ _ ⟨b, rfl⟩ _ ⟨a, rfl⟩ ts ⟨receiver, hreceiver, hts⟩
  exact ⟨_, @Expr.ReadFrom.send a c d receiver ⟨name, b⟩ args ts us hreceiver hts hus⟩

instance {name : String} : Writable (behind (kindWord (.symbol .lparen)) (callWords name)) :=
  Writable.mono inferInstance (send_nil_le name)

instance {name : String} : Writable (callWords name) :=
  Writable.mono inferInstance (mul_behind_le (kindWord (.symbol .lparen)) _)

instance : Writable memberWords :=
  have : Writable (kindWord (.ident "x")) := writable_kindWord (by decide : isIdentName "x" = true)
  Writable.mono (L := kindWord (.ident "x") * callWords "x") inferInstance (mul_behind_le _ _)

theorem one_arg_le : kindWord (.symbol .rparen) * 1 ≤ behind exprWords argsWords := by
  rintro _ ⟨_, ⟨a, rfl⟩, _, rfl, rfl⟩ ts ⟨arg, hts⟩
  exact ⟨[arg], ts, a, List.cons_ne_nil _ _, .one hts, rfl⟩

theorem more_args_le :
    kindWord (.symbol .comma) * (argsWords * 1) ≤ behind exprWords argsWords := by
  rw [mul_one]
  rintro _ ⟨_, ⟨a, rfl⟩, _, ⟨args, us, b, hne, hus, rfl⟩, rfl⟩ ts ⟨arg, hts⟩
  obtain ⟨next, more, rfl⟩ := List.exists_cons_of_ne_nil hne
  refine ⟨_, _, b, List.cons_ne_nil _ _, .cons (a := a) hts hus, ?_⟩
  simp

instance : Writable (behind exprWords argsWords) :=
  Writable.mono inferInstance one_arg_le

instance : Writable argsWords :=
  Writable.mono inferInstance (mul_behind_le exprWords argsWords)

namespace Cursor

variable {W : Type} {c : W → Cursor} {w : W}

/-- The three readers of expressions at one place. -/
structure ExprRuns (c : W → Cursor) (w : W) : Prop where
  primary : Tracks primaryWords c (fun u => (c u).primary) w
  expr : Tracks exprWords c (fun u => (c u).expr) w
  args : Tracks argsWords c (fun u => (c u).args) w

section

variable (ih : ∀ {V : Type} {d : V → Cursor} {v : V}, (d v).size < (c w).size → (d v).Marked →
    ExprRuns d v)
include ih

theorem ExprRuns.primary_step (hw : (c w).Marked) :
    Tracks primaryWords c (fun u => (c u).primary) w := by
  refine .byKind hw fun s => ?_
  unfold Cursor.primary
  cases hkind : (c w).kind with
  | intLit digits =>
    simp only [s.kind_eq, hkind]
    have hliteral (u : s.V) : (c (s.origin u)).kind = .intLit digits := (s.kind_eq u).trans hkind
    by_cases hle : isIntText digits = true
    · simp only [hle, if_true]
      refine .mono (.bind (.token Token.Kind.noConfusion s.marked hliteral fun u a c₁ hread => ?_)
        fun s₁ => .pure s₁.marked) (int_le hle)
      obtain ⟨d, lt, hd, -, hrest⟩ := hread.expect_eq
      exact ⟨_, hd, hrest.eq_of_nil.symm⟩
    · -- the literal itself is refused, after the step over it
      have hexpect (u : s.V) : ∃ c₁ lt, (c (s.origin u)).expect (.intLit digits) =
          .ok ⟨(), c₁, lt⟩ ∧ c₁.last = (c (s.origin u)).current.span := by
        obtain ⟨a, c₁, hread⟩ := exists_reads (hliteral u) Token.Kind.noConfusion
        obtain ⟨d, lt, hd, hlast, -⟩ := hread.expect_eq
        exact ⟨d, lt, hd, by rw [hlast, hread.current_eq]⟩
      choose c₁ lt hc₁ hlast using hexpect
      simp only [hc₁, ok_bind, hle]
      exact .fail s.marked fun u => by rw [hlast]
  | ident name =>
    simp only [s.kind_eq, hkind]
    exact .mono (.bind (tracks_ident s.marked) fun s₁ => .pure s₁.marked) name_le
  | keyword word =>
    cases word with
    | trueKw =>
      simp only [s.kind_eq, hkind]
      exact .mono (.bind (tracks_keyword s.marked) fun s₁ => .pure s₁.marked) (bool_le true)
    | falseKw =>
      simp only [s.kind_eq, hkind]
      exact .mono (.bind (tracks_keyword s.marked) fun s₁ => .pure s₁.marked) (bool_le false)
    | thisKw =>
      simp only [s.kind_eq, hkind]
      exact .mono (.bind (tracks_keyword s.marked) fun s₁ => .pure s₁.marked) this_le
    | newKw =>
      simp only [s.kind_eq, hkind]
      refine .mono (.bind (tracks_keyword s.marked) fun s₁ => ?_) (mul_behind_le _ _)
      refine .branch (.keyword .intKw) Token.Kind.noConfusion s₁.marked newArray_le ?_ ?_
      · intro s₂ haccept
        simp only [haccept]
        exact .bind (tracks_symbol s₂.marked) fun s₃ =>
          .bind (ih (s₃.size_lt.trans (s₂.size_lt.trans (s.size_eq ▸ s₁.size_lt))) s₃.marked).expr
            fun s₄ => .bind (tracks_symbol s₄.marked) fun s₅ => .pure s₅.marked
      · intro s₂ haccept
        simp only [haccept]
        exact .mono (.bind (tracks_ident s₂.marked) fun s₃ =>
          .bind (tracks_symbol s₃.marked) fun s₄ =>
          .bind (tracks_symbol s₄.marked) fun s₅ => .pure s₅.marked) newObject_le
    | _ =>
      simp only [s.kind_eq, hkind]
      exact .fail s.marked fun u => rfl
  | symbol sign =>
    cases sign with
    | bang =>
      simp only [s.kind_eq, hkind]
      exact .mono (.bind (tracks_symbol s.marked) fun s₁ =>
        .bind (ih (s.size_eq ▸ s₁.size_lt) s₁.marked).primary fun s₂ => .pure s₂.marked) not_le
    | lparen =>
      simp only [s.kind_eq, hkind]
      exact .mono (.bind (tracks_symbol s.marked) fun s₁ =>
        .bind (ih (s.size_eq ▸ s₁.size_lt) s₁.marked).expr fun s₂ =>
        .bind (tracks_symbol s₂.marked) fun s₃ => .pure s₃.marked) paren_le
    | _ =>
      simp only [s.kind_eq, hkind]
      exact .fail s.marked fun u => rfl
  | eof | unknown =>
    simp only [s.kind_eq, hkind]
    exact .fail s.marked fun u => rfl

/-- Behind the name of a member comes a list of arguments, unless it is the length of an array that
is asked for. -/
theorem ExprRuns.call_step {n : W → Nat} {left : W → Expr} {method : W → Ident} {name : String}
    (hlt : ∀ u, (c u).size < n u) (hname : ∀ u, (method u).name = name) (hw : (c w).Marked) :
    Tracks (callWords name) c (fun u => show Except SyntaxError (Read Expr (n u)) from
      if (method u).name = "length" ∧ (c u).kind ≠ .symbol .lparen then
        return ⟨.length ((left u).span.merge (method u).span) (left u), c u, hlt u⟩
      else do
        let ⟨_, c₁, h₁⟩ ← (c u).symbol .lparen
        match c₁.accept (.symbol .rparen) with
        | some ⟨_, c₂, h₂⟩ =>
          return ⟨.send ((left u).span.merge c₂.last) (left u) (method u) [], c₂,
            h₂.trans (h₁.trans (hlt u))⟩
        | none =>
          let ⟨args, c₂, h₂⟩ ← c₁.args
          return ⟨.send ((left u).span.merge c₂.last) (left u) (method u) args, c₂,
            h₂.trans (h₁.trans (hlt u))⟩) w := by
  refine .byKind hw fun s₁ => ?_
  simp only [hname, s₁.kind_eq]
  by_cases hlength : name = "length" ∧ (c w).kind ≠ .symbol .lparen
  · simp only [if_pos hlength]
    obtain ⟨rfl, -⟩ := hlength
    exact .mono (.pure s₁.marked) length_le
  · simp only [if_neg hlength]
    refine .mono (.bind (tracks_symbol s₁.marked) fun s₂ => ?_) (mul_behind_le _ _)
    have hlt₂ := s₂.size_lt.trans_eq s₁.size_eq
    refine .branch (.symbol .rparen) Token.Kind.noConfusion s₂.marked (send_nil_le name) ?_ ?_
    · intro s₃ haccept
      simp only [haccept]
      exact .pure s₃.marked
    · intro s₃ haccept
      simp only [haccept]
      have hargs := ih (d := fun u => s₂.cursor (s₃.origin u)) (v := s₃.here)
        (s₃.size_eq.trans_lt hlt₂) s₃.marked
      exact .mono (.bind hargs.args fun s₄ => .pure s₄.marked) (send_le name)

/-- Behind a dot comes the name of a member. -/
theorem ExprRuns.member_step {n : W → Nat} {left : W → Expr} (hlt : ∀ u, (c u).size < n u)
    (hw : (c w).Marked) :
    Tracks memberWords c (fun u => show Except SyntaxError (Read Expr (n u)) from do
      let ⟨method, c₁, h₁⟩ ← (c u).ident
      if method.name = "length" ∧ c₁.kind ≠ .symbol .lparen then
        return ⟨.length ((left u).span.merge method.span) (left u), c₁, h₁.trans (hlt u)⟩
      else
        let ⟨_, c₂, h₂⟩ ← c₁.symbol .lparen
        match c₂.accept (.symbol .rparen) with
        | some ⟨_, c₃, h₃⟩ =>
          return ⟨.send ((left u).span.merge c₃.last) (left u) method [], c₃,
            h₃.trans (h₂.trans (h₁.trans (hlt u)))⟩
        | none =>
          let ⟨args, c₃, h₃⟩ ← c₂.args
          return ⟨.send ((left u).span.merge c₃.last) (left u) method args, c₃,
            h₃.trans (h₂.trans (h₁.trans (hlt u)))⟩) w := by
  refine .byKind hw fun s₁ => ?_
  cases hkind : (c w).kind with
  | ident name =>
    refine .mono (.bind (M := callWords name)
      (tracks_name s₁.marked fun u => (s₁.kind_eq u).trans hkind) fun s₂ => ?_) (mul_behind_le _ _)
    have hname (u : s₂.V) : (s₂.value u).name = name := by
      have hread := (reads_of_ident (s₂.eq u)).kind_eq.symm
      rw [s₁.kind_eq, hkind] at hread
      exact Token.Kind.ident.inj hread
    exact ExprRuns.call_step (fun hlt => ih (hlt.trans (s₂.size_lt.trans_eq s₁.size_eq)))
      (fun u => (s₂.lt u).trans (hlt _)) hname s₂.marked
  | keyword | symbol | intLit | eof | unknown =>
    simp only [ident, s₁.kind_eq, hkind, error_bind]
    exact .fail s₁.marked fun u => rfl

theorem ExprRuns.expr_step (hprimary : Tracks primaryWords c (fun u => (c u).primary) w) :
    Tracks exprWords c (fun u => (c u).expr) w := by
  unfold Cursor.expr
  refine .mono (.bind hprimary fun s₁ => ?_) (mul_behind_le _ _)
  refine .byKind s₁.marked fun s₂ => ?_
  have hlt₂ := s₂.size_eq.trans_lt s₁.size_lt
  simp only [s₂.kind_eq]
  cases hop : BinOp.ofKind? (s₁.cursor s₁.here).kind with
  | some op =>
    exact .mono (.bind (tracks_symbol s₂.marked) fun s₃ =>
      .bind (ih (s₃.size_lt.trans hlt₂) s₃.marked).primary fun s₄ => .pure s₄.marked) (binary_le op)
  | none =>
    refine .branch (.symbol .lbracket) Token.Kind.noConfusion s₂.marked index_le ?_ ?_
    · intro s₃ haccept
      simp only [haccept]
      exact .bind (ih (s₃.size_lt.trans hlt₂) s₃.marked).primary fun s₄ =>
        .bind (tracks_symbol s₄.marked) fun s₅ => .pure s₅.marked
    · intro s₃ haccept
      simp only [haccept]
      refine .branch (M := memberWords) (.symbol .dot) Token.Kind.noConfusion s₃.marked
        (mul_behind_le _ _) ?_ ?_
      · intro s₄ haccept
        simp only [haccept]
        have hlt₄ := s₄.size_lt.trans (s₃.size_eq.trans_lt hlt₂)
        exact ExprRuns.member_step (fun hlt => ih (hlt.trans hlt₄))
          (fun u => (s₄.lt u).trans (s₁.lt _)) s₄.marked
      · intro s₄ haccept
        simp only [haccept]
        exact .mono (.pure s₄.marked) no_operation_le

theorem ExprRuns.args_step (hexpr : Tracks exprWords c (fun u => (c u).expr) w) :
    Tracks argsWords c (fun u => (c u).args) w := by
  unfold Cursor.args
  refine .mono (.bind hexpr fun s₁ => ?_) (mul_behind_le _ _)
  refine .branch (.symbol .comma) Token.Kind.noConfusion s₁.marked more_args_le ?_ ?_
  · intro s₂ haccept
    simp only [haccept]
    exact .bind (ih (s₂.size_lt.trans s₁.size_lt) s₂.marked).args fun s₃ => .pure s₃.marked
  · intro s₂ haccept
    simp only [haccept]
    exact .mono (.bind (tracks_symbol s₂.marked) fun s₃ => .pure s₃.marked) one_arg_le

end

/-- By induction on the number of tokens to come. -/
theorem exprRuns (hw : (c w).Marked) : ExprRuns c w := by
  generalize hsize : (c w).size = size
  induction size using Nat.strong_induction_on generalizing W with
  | _ size ih =>
    subst hsize
    have ih {V : Type} {d : V → Cursor} {v : V} (hlt : (d v).size < (c w).size)
        (hv : (d v).Marked) : ExprRuns d v := ih _ hlt hv rfl
    have hprimary := ExprRuns.primary_step ih hw
    have hexpr := ExprRuns.expr_step ih hprimary
    exact ⟨hprimary, hexpr, ExprRuns.args_step ih hexpr⟩

theorem tracks_expr (hw : (c w).Marked) : Tracks exprWords c (fun u => (c u).expr) w :=
  (exprRuns hw).expr

end Cursor

/-! ### Statements -/

/-- The ways to write a statement. -/
def stmtWords : Language Token :=
  {ts | ∃ stmt : Stmt, stmt.ReadFrom ts}

/-- The ways to write statements, with the token behind that closes them. -/
def stmtsWords (close : Token.Kind) : Language Token :=
  {ts | ∃ body us a, Stmt.AllReadFrom body us ∧ ts = us ++ [⟨close, a⟩]}

theorem print_le :
    kindWord (.ident "System") * (kindWord (.symbol .dot) * (kindWord (.ident "out") *
      (kindWord (.symbol .dot) * (kindWord (.ident "println") * (kindWord (.symbol .lparen) *
        (exprWords * (kindWord (.symbol .rparen) * (kindWord (.symbol .semicolon) * 1)))))))) ≤
      stmtWords := by
  simp only [le_iff_forall_mem, forall_mem_mul, forall_mem_kindWord, forall_mem_one]
  rintro a b c d e f ts ⟨value, hts⟩ g h
  exact ⟨_, .print hts⟩

theorem assign_le :
    kindWord (.symbol .assign) * (exprWords * (kindWord (.symbol .semicolon) * 1)) ≤
      behind identWord stmtWords := by
  simp only [le_iff_forall_mem, forall_mem_mul, forall_mem_kindWord, forall_mem_one]
  rintro a ts ⟨value, hts⟩ b _ ⟨i, rfl⟩
  exact ⟨_, .assign hts⟩

theorem arrayAssign_le :
    kindWord (.symbol .lbracket) * (exprWords * (kindWord (.symbol .rbracket) *
      (kindWord (.symbol .assign) * (exprWords * (kindWord (.symbol .semicolon) * 1))))) ≤
      behind identWord stmtWords := by
  simp only [le_iff_forall_mem, forall_mem_mul, forall_mem_kindWord, forall_mem_one]
  rintro a ts ⟨position, hts⟩ b c us ⟨value, hus⟩ d _ ⟨i, rfl⟩
  exact ⟨_, .arrayAssign hts hus⟩

instance : Writable (behind identWord stmtWords) :=
  Writable.mono inferInstance assign_le

instance : Writable stmtWords :=
  Writable.mono inferInstance (mul_behind_le identWord stmtWords)

theorem block_le :
    kindWord (.symbol .lbrace) * (stmtsWords (.symbol .rbrace) * 1) ≤ stmtWords := by
  rw [mul_one]
  rintro _ ⟨_, ⟨a, rfl⟩, _, ⟨body, ts, b, hts, rfl⟩, rfl⟩
  exact ⟨_, .block hts⟩

theorem ifElse_le :
    kindWord (.keyword .ifKw) * (kindWord (.symbol .lparen) * (exprWords *
      (kindWord (.symbol .rparen) * (stmtWords * (kindWord (.keyword .elseKw) *
        (stmtWords * 1)))))) ≤ stmtWords := by
  simp only [mul_one, le_iff_forall_mem, forall_mem_mul, forall_mem_kindWord]
  rintro a b ts ⟨cond, hts⟩ c us ⟨thenBranch, hus⟩ d vs ⟨elseBranch, hvs⟩
  exact ⟨_, .ifElse hts hus hvs⟩

theorem whileLoop_le :
    kindWord (.keyword .whileKw) * (kindWord (.symbol .lparen) * (exprWords *
      (kindWord (.symbol .rparen) * (stmtWords * 1)))) ≤ stmtWords := by
  simp only [mul_one, le_iff_forall_mem, forall_mem_mul, forall_mem_kindWord]
  rintro a b ts ⟨cond, hts⟩ c us ⟨body, hus⟩
  exact ⟨_, .whileLoop hts hus⟩

theorem no_stmt_le (close : Token.Kind) : kindWord close * 1 ≤ stmtsWords close := by
  rintro _ ⟨_, ⟨a, rfl⟩, _, rfl, rfl⟩
  exact ⟨[], [], a, .nil, rfl⟩

theorem more_stmts_le (close : Token.Kind) :
    stmtWords * (stmtsWords close * 1) ≤ stmtsWords close := by
  rw [mul_one]
  rintro _ ⟨ts, ⟨first, hts⟩, _, ⟨more, us, a, hus, rfl⟩, rfl⟩
  exact ⟨_, ts ++ us, a, .cons hts hus, (List.append_assoc _ _ _).symm⟩

instance {close : Token.Kind} [Writable (kindWord close)] : Writable (stmtsWords close) :=
  Writable.mono inferInstance (no_stmt_le close)

instance : Writable (kindWord (.ident "System")) :=
  writable_kindWord (by decide : isIdentName "System" = true)

instance : Writable (kindWord (.ident "out")) :=
  writable_kindWord (by decide : isIdentName "out" = true)

instance : Writable (kindWord (.ident "println")) :=
  writable_kindWord (by decide : isIdentName "println" = true)

namespace Cursor

section

variable {W : Type} {c : W → Cursor} {w : W}

theorem tracks_printStmt (hw : (c w).Marked) :
    Tracks stmtWords c (fun u => (c u).printStmt) w := by
  unfold printStmt
  exact .mono (.bind (tracks_word hw) fun s₁ => .bind (tracks_symbol s₁.marked) fun s₂ =>
    .bind (tracks_word s₂.marked) fun s₃ => .bind (tracks_symbol s₃.marked) fun s₄ =>
    .bind (tracks_word s₄.marked) fun s₅ => .bind (tracks_symbol s₅.marked) fun s₆ =>
    .bind (tracks_expr s₆.marked) fun s₇ => .bind (tracks_symbol s₇.marked) fun s₈ =>
    .bind (tracks_symbol s₈.marked) fun s₉ => .pure s₉.marked) print_le

theorem tracks_assignment (hw : (c w).Marked) :
    Tracks stmtWords c (fun u => (c u).assignment) w := by
  unfold assignment
  refine .mono (.bind (tracks_ident hw) fun s₁ => ?_) (mul_behind_le _ _)
  refine .branch (.symbol .lbracket) Token.Kind.noConfusion s₁.marked arrayAssign_le ?_ ?_
  · intro s₂ haccept
    simp only [haccept]
    exact .bind (tracks_expr s₂.marked) fun s₃ => .bind (tracks_symbol s₃.marked) fun s₄ =>
      .bind (tracks_symbol s₄.marked) fun s₅ => .bind (tracks_expr s₅.marked) fun s₆ =>
      .bind (tracks_symbol s₆.marked) fun s₇ => .pure s₇.marked
  · intro s₂ haccept
    simp only [haccept]
    exact .mono (.bind (tracks_symbol s₂.marked) fun s₃ => .bind (tracks_expr s₃.marked) fun s₄ =>
      .bind (tracks_symbol s₄.marked) fun s₅ => .pure s₅.marked) assign_le

/-- The two readers of statements at one place. -/
structure StmtRuns (c : W → Cursor) (w : W) : Prop where
  stmt : Tracks stmtWords c (fun u => (c u).stmt) w
  stmtsUpTo : ∀ close, close ≠ .eof → Writable (kindWord close) →
    Tracks (stmtsWords close) c (fun u => (c u).stmtsUpTo close) w

theorem StmtRuns.stmt_step (ih : ∀ {V : Type} {d : V → Cursor} {v : V},
    (d v).size < (c w).size → (d v).Marked → StmtRuns d v) (hw : (c w).Marked) :
    Tracks stmtWords c (fun u => (c u).stmt) w := by
  refine .byKind hw fun s => ?_
  have hlt := s.size_eq.le
  unfold Cursor.stmt
  cases hkind : (c w).kind with
  | symbol sign =>
    cases sign with
    | lbrace =>
      simp only [s.kind_eq, hkind]
      exact .mono (.bind (tracks_symbol s.marked) fun s₁ =>
        .bind ((ih (s₁.size_lt.trans_le hlt) s₁.marked).stmtsUpTo _ Token.Kind.noConfusion
          inferInstance) fun s₂ => .pure s₂.marked) block_le
    | _ =>
      simp only [s.kind_eq, hkind]
      exact .fail s.marked fun u => unexpected_of_kind_eq (s.kind_eq u) _
  | keyword word =>
    cases word with
    | ifKw =>
      simp only [s.kind_eq, hkind]
      exact .mono (.bind (tracks_keyword s.marked) fun s₁ =>
        .bind (tracks_symbol s₁.marked) fun s₂ => .bind (tracks_expr s₂.marked) fun s₃ =>
        .bind (tracks_symbol s₃.marked) fun s₄ =>
        have hlt₄ := s₄.size_lt.trans <| s₃.size_lt.trans <| s₂.size_lt.trans <|
          s₁.size_lt.trans_le hlt
        .bind (ih hlt₄ s₄.marked).stmt fun s₅ => .bind (tracks_keyword s₅.marked) fun s₆ =>
        .bind (ih (s₆.size_lt.trans (s₅.size_lt.trans hlt₄)) s₆.marked).stmt fun s₇ =>
        .pure s₇.marked) ifElse_le
    | whileKw =>
      simp only [s.kind_eq, hkind]
      exact .mono (.bind (tracks_keyword s.marked) fun s₁ =>
        .bind (tracks_symbol s₁.marked) fun s₂ => .bind (tracks_expr s₂.marked) fun s₃ =>
        .bind (tracks_symbol s₃.marked) fun s₄ =>
        .bind (ih (s₄.size_lt.trans <| s₃.size_lt.trans <| s₂.size_lt.trans <|
          s₁.size_lt.trans_le hlt) s₄.marked).stmt fun s₅ => .pure s₅.marked) whileLoop_le
    | _ =>
      simp only [s.kind_eq, hkind]
      exact .fail s.marked fun u => unexpected_of_kind_eq (s.kind_eq u) _
  | ident name =>
    simp only [s.kind_eq, hkind, s.ahead?_eq]
    by_cases hprint : name = "System" ∧ (c w).ahead? = some (.symbol .dot)
    · simp only [if_pos hprint]
      exact tracks_printStmt s.marked
    · simp only [if_neg hprint]
      exact tracks_assignment s.marked
  | intLit | eof | unknown =>
    simp only [s.kind_eq, hkind]
    exact .fail s.marked fun u => unexpected_of_kind_eq (s.kind_eq u) _

theorem StmtRuns.stmtsUpTo_step (ih : ∀ {V : Type} {d : V → Cursor} {v : V},
    (d v).size < (c w).size → (d v).Marked → StmtRuns d v) (hw : (c w).Marked) (close : Token.Kind)
    (hclose : close ≠ .eof) [Writable (kindWord close)] :
    Tracks (stmtsWords close) c (fun u => (c u).stmtsUpTo close) w := by
  unfold Cursor.stmtsUpTo
  refine .branch close hclose hw (no_stmt_le close) ?_ ?_
  · intro s₁ haccept
    simp only [haccept]
    exact .pure s₁.marked
  · intro s₁ haccept
    simp only [haccept, s₁.kind_eq]
    by_cases heof : (c w).kind = .eof
    · simp only [if_pos heof]
      exact .fail s₁.marked fun u => unexpected_of_kind_eq (s₁.kind_eq u) _
    · simp only [if_neg heof]
      have hstmt := StmtRuns.stmt_step (c := fun u => c (s₁.origin u)) (w := s₁.here)
        (fun hlt hv => ih (hlt.trans_eq s₁.size_eq) hv) s₁.marked
      exact .mono (.bind hstmt fun s₂ =>
        .bind ((ih (s₂.size_lt.trans_eq s₁.size_eq) s₂.marked).stmtsUpTo close hclose inferInstance)
          fun s₃ => .pure s₃.marked) (more_stmts_le close)

/-- By induction on the number of tokens to come. -/
theorem stmtRuns (hw : (c w).Marked) : StmtRuns c w := by
  generalize hsize : (c w).size = size
  induction size using Nat.strong_induction_on generalizing W with
  | _ size ih =>
    subst hsize
    have ih {V : Type} {d : V → Cursor} {v : V} (hlt : (d v).size < (c w).size)
        (hv : (d v).Marked) : StmtRuns d v := ih _ hlt hv rfl
    refine ⟨StmtRuns.stmt_step ih hw, fun close hclose _ => ?_⟩
    exact StmtRuns.stmtsUpTo_step ih hw close hclose

theorem tracks_stmtsUpTo {close : Token.Kind} (hclose : close ≠ .eof)
    [h : Writable (kindWord close)] (hw : (c w).Marked) :
    Tracks (stmtsWords close) c (fun u => (c u).stmtsUpTo close) w :=
  (stmtRuns hw).stmtsUpTo close hclose h

end

end Cursor

end MiniJava
