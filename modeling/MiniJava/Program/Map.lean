import MiniJava.Program.Basic

/-!
# Changing all names, all spans or all parentheses of a program

* `Program.map` puts other names and other spans into a program; `Program.rename` and
  `Program.eraseSpans` are its two uses.
* `Program.stripParens` takes off the parentheses that group expressions.
-/

namespace MiniJava

variable (f : String → String) (g : Span → Span)

/-- An identifier with its name and its span changed. -/
def Ident.map (i : Ident) : Ident :=
  ⟨f i.name, g i.span⟩

/-- A written type with its names and spans changed. -/
def TypeExpr.map : TypeExpr → TypeExpr
  | int span => int (g span)
  | boolean span => boolean (g span)
  | intArray span => intArray (g span)
  | named name => named (name.map f g)

mutual

/-- An expression with its names and spans changed. -/
def Expr.map : Expr → Expr
  | .int span value => .int (g span) value
  | .bool span value => .bool (g span) value
  | .ident name => .ident (name.map f g)
  | .this span => .this (g span)
  | .binary span op left right => .binary (g span) op left.map right.map
  | .not span operand => .not (g span) operand.map
  | .index span array position => .index (g span) array.map position.map
  | .length span array => .length (g span) array.map
  | .send span receiver method args =>
    .send (g span) receiver.map (method.map f g) (Expr.mapAll args)
  | .newArray span size => .newArray (g span) size.map
  | .newObject span cls => .newObject (g span) (cls.map f g)
  | .paren span inner => .paren (g span) inner.map

/-- Expressions with their names and spans changed. -/
def Expr.mapAll : List Expr → List Expr
  | [] => []
  | first :: more => first.map :: Expr.mapAll more

end

mutual

/-- A statement with its names and spans changed. -/
def Stmt.map : Stmt → Stmt
  | .block span body => .block (g span) (Stmt.mapAll body)
  | .assign span target value => .assign (g span) (target.map f g) (value.map f g)
  | .arrayAssign span target position value =>
    .arrayAssign (g span) (target.map f g) (position.map f g) (value.map f g)
  | .ifElse span cond thenBranch elseBranch =>
    .ifElse (g span) (cond.map f g) thenBranch.map elseBranch.map
  | .whileLoop span cond body => .whileLoop (g span) (cond.map f g) body.map
  | .print span value => .print (g span) (value.map f g)

/-- Statements with their names and spans changed. -/
def Stmt.mapAll : List Stmt → List Stmt
  | [] => []
  | first :: more => first.map :: Stmt.mapAll more

end

/-- The declaration of a variable with its names and spans changed. -/
def VarDecl.map (d : VarDecl) : VarDecl :=
  ⟨d.type.map f g, d.name.map f g, g d.span⟩

/-- A method declaration with its names and spans changed. -/
def MethodDecl.map (d : MethodDecl) : MethodDecl :=
  ⟨d.returns.map f g, d.name.map f g, d.params.map (VarDecl.map f g), d.vars.map (VarDecl.map f g),
    Stmt.mapAll f g d.body, d.result.map f g, g d.span⟩

/-- A class declaration with its names and spans changed. -/
def ClassDecl.map (d : ClassDecl) : ClassDecl :=
  ⟨d.name.map f g, d.parent.map (Ident.map f g), d.fields.map (VarDecl.map f g),
    d.methods.map (MethodDecl.map f g), g d.span⟩

/-- A main class with its names and spans changed. -/
def MainClass.map (d : MainClass) : MainClass :=
  ⟨d.name.map f g, d.args.map f g, d.vars.map (VarDecl.map f g), Stmt.mapAll f g d.body, g d.span⟩

/-- A program with its names and spans changed. -/
def Program.map (p : Program) : Program :=
  ⟨p.main.map f g, p.classes.map (ClassDecl.map f g)⟩

/-- A program with other names in the same places. -/
def Program.rename (p : Program) : Program :=
  p.map f id

/-- A program that no longer knows where it was read from. -/
def Program.eraseSpans (p : Program) : Program :=
  p.map id fun _ => default

/-! ### Nothing is changed -/

theorem TypeExpr.map_id (t : TypeExpr) : t.map id id = t := by
  cases t <;> rfl

mutual

theorem Expr.map_id (e : Expr) : e.map id id = e := by
  cases e with
  | int | bool | ident | this | newObject => rfl
  | binary span op left right => rw [Expr.map, left.map_id, right.map_id, id]
  | not span operand => rw [Expr.map, operand.map_id, id]
  | index span array position => rw [Expr.map, array.map_id, position.map_id, id]
  | length span array => rw [Expr.map, array.map_id, id]
  | send span receiver method args =>
    rw [Expr.map, receiver.map_id, Expr.mapAll_id args, id]
    rfl
  | newArray span size => rw [Expr.map, size.map_id, id]
  | paren span inner => rw [Expr.map, inner.map_id, id]

theorem Expr.mapAll_id (es : List Expr) : Expr.mapAll id id es = es := by
  cases es with
  | nil => rfl
  | cons first more => rw [Expr.mapAll, first.map_id, Expr.mapAll_id more]

end

mutual

theorem Stmt.map_id (s : Stmt) : s.map id id = s := by
  cases s with
  | block span body => rw [Stmt.map, Stmt.mapAll_id body, id]
  | assign span target value =>
    rw [Stmt.map, value.map_id, id]
    rfl
  | arrayAssign span target position value =>
    rw [Stmt.map, position.map_id, value.map_id, id]
    rfl
  | ifElse span cond thenBranch elseBranch =>
    rw [Stmt.map, cond.map_id, thenBranch.map_id, elseBranch.map_id, id]
  | whileLoop span cond body => rw [Stmt.map, cond.map_id, body.map_id, id]
  | print span value => rw [Stmt.map, value.map_id, id]

theorem Stmt.mapAll_id (ss : List Stmt) : Stmt.mapAll id id ss = ss := by
  cases ss with
  | nil => rfl
  | cons first more => rw [Stmt.mapAll, first.map_id, Stmt.mapAll_id more]

end

theorem VarDecl.map_id : VarDecl.map id id = id := by
  funext d
  rw [VarDecl.map, d.type.map_id]
  rfl

theorem MethodDecl.map_id : MethodDecl.map id id = id := by
  funext d
  rw [MethodDecl.map, VarDecl.map_id, d.returns.map_id, Stmt.mapAll_id, d.result.map_id,
    List.map_id, List.map_id]
  rfl

theorem ClassDecl.map_id : ClassDecl.map id id = id := by
  funext d
  have hparent : d.parent.map (Ident.map id id) = d.parent := by
    cases d.parent <;> rfl
  rw [ClassDecl.map, VarDecl.map_id, MethodDecl.map_id, hparent, List.map_id, List.map_id]
  rfl

theorem MainClass.map_id (d : MainClass) : d.map id id = d := by
  rw [MainClass.map, VarDecl.map_id, Stmt.mapAll_id, List.map_id]
  rfl

theorem Program.map_id (p : Program) : p.map id id = p := by
  rw [Program.map, p.main.map_id, ClassDecl.map_id, List.map_id]

/-! ### Parentheses -/

mutual

/-- An expression without grouping parentheses. -/
def Expr.stripParens : Expr → Expr
  | .int span value => .int span value
  | .bool span value => .bool span value
  | .ident name => .ident name
  | .this span => .this span
  | .binary span op left right => .binary span op left.stripParens right.stripParens
  | .not span operand => .not span operand.stripParens
  | .index span array position => .index span array.stripParens position.stripParens
  | .length span array => .length span array.stripParens
  | .send span receiver method args =>
    .send span receiver.stripParens method (Expr.stripAllParens args)
  | .newArray span size => .newArray span size.stripParens
  | .newObject span cls => .newObject span cls
  | .paren _ inner => inner.stripParens

/-- Expressions without grouping parentheses. -/
def Expr.stripAllParens : List Expr → List Expr
  | [] => []
  | first :: more => first.stripParens :: Expr.stripAllParens more

end

mutual

/-- A statement without grouping parentheses. -/
def Stmt.stripParens : Stmt → Stmt
  | .block span body => .block span (Stmt.stripAllParens body)
  | .assign span target value => .assign span target value.stripParens
  | .arrayAssign span target position value =>
    .arrayAssign span target position.stripParens value.stripParens
  | .ifElse span cond thenBranch elseBranch =>
    .ifElse span cond.stripParens thenBranch.stripParens elseBranch.stripParens
  | .whileLoop span cond body => .whileLoop span cond.stripParens body.stripParens
  | .print span value => .print span value.stripParens

/-- Statements without grouping parentheses. -/
def Stmt.stripAllParens : List Stmt → List Stmt
  | [] => []
  | first :: more => first.stripParens :: Stmt.stripAllParens more

end

/-- A method declaration without grouping parentheses. -/
def MethodDecl.stripParens (d : MethodDecl) : MethodDecl :=
  { d with body := Stmt.stripAllParens d.body, result := d.result.stripParens }

/-- A class declaration without grouping parentheses. -/
def ClassDecl.stripParens (d : ClassDecl) : ClassDecl :=
  { d with methods := d.methods.map MethodDecl.stripParens }

/-- A main class without grouping parentheses. -/
def MainClass.stripParens (d : MainClass) : MainClass :=
  { d with body := Stmt.stripAllParens d.body }

/-- A program without grouping parentheses. -/
def Program.stripParens (p : Program) : Program :=
  ⟨p.main.stripParens, p.classes.map ClassDecl.stripParens⟩

end MiniJava
