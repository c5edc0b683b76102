import MiniJava.SemanticError

/-!
# Analyses that keep a log

* `Event` is an entry of the log, at one of two levels.
* `Analysis α` is the outcome of a step of an analysis: the events it logged, and a value or the
  first error. The log is kept also when the step fails.
-/

namespace MiniJava

/-- How much detail an event belongs to. -/
inductive Level
  | debug | trace
deriving DecidableEq

/-- The name of a level in the log. -/
def Level.text : Level → String
  | debug => "DEBUG"
  | trace => "TRACE"

/-- What the log of an analysis tells. -/
inductive Event
  | declarationPass (classes : Nat)
  | declaringMain (cls : String)
  | declaringClass (cls : String) (parent : Option String)
  | declaringMethod (method : MethodName)
  | declarationPassDone
  | typeCheckPass (classes : Nat)
  | checkingMain (method : MethodName)
  | checkingClass (cls : String)
  | checkingMethod (method : MethodName)
  | typeCheckPassDone
  | resolvedVariable (name : String) (method : MethodName)
  | resolvedMember (name cls : String)
  | resolvedInherited (name parent : String)
  | call (method : MethodName) (args : Nat)
deriving DecidableEq

namespace Event

/-- The level of an event: the steps through the declarations are for debugging, what happens to
single names and calls is finer. -/
def level : Event → Level
  | resolvedVariable .. | resolvedMember .. | resolvedInherited .. | call .. => .trace
  | _ => .debug

/-- The form of a character of a quoted name: quotes, backslashes and what cannot be seen are
escaped. Characters behind U+00FF stand for themselves; no name of a text has one. -/
def escape (c : Char) : String :=
  match c with
  | '"' => "\\\""
  | '\\' => "\\\\"
  | '\x00' => "\\0"
  | '\t' => "\\t"
  | '\n' => "\\n"
  | '\r' => "\\r"
  | c =>
    let code := c.toNat
    if code < 32 ∨ (127 ≤ code ∧ code ≤ 160) ∨ code = 173 then
      "\\u\x7b" ++ String.ofList (Nat.toDigits 16 code) ++ "\x7d"
    else
      c.toString

/-- A name with quotes around it. -/
def quoted (name : String) : String :=
  "\"" ++ String.join (name.toList.map escape) ++ "\""

/-- How the log writes the parent of a class. -/
def parentText : Option String → String
  | none => "None"
  | some parent => s!"Some({quoted parent})"

/-- The wording of an event. -/
def message : Event → String
  | declarationPass classes => s!"declaration pass over {classes} classes"
  | declaringMain cls => s!"declaring main class {cls}"
  | declaringClass cls parent => s!"declaring class {cls} (parent {parentText parent})"
  | declaringMethod method => s!"declaring method {method.text}"
  | declarationPassDone => "declaration pass done"
  | typeCheckPass classes => s!"type-check pass over {classes} classes"
  | checkingMain method => s!"checking {method.text}"
  | checkingClass cls => s!"checking class {cls}"
  | checkingMethod method => s!"checking method {method.text}"
  | typeCheckPassDone => "type-check pass done"
  | resolvedVariable name method => s!"resolved {name} as variable of {method.text}"
  | resolvedMember name cls => s!"resolved {name} as member of {cls}"
  | resolvedInherited name parent => s!"resolved {name} as member of parent {parent}"
  | call method args => s!"call {method.text} with {args} args"

/-- The line of an event in the log. -/
def line (e : Event) : String :=
  e.level.text ++ " " ++ e.message

end Event

/-- The events that a step of an analysis logged, and what came of it. -/
structure Analysis (α : Type) where
  log : List Event
  result : Except SemanticError α

namespace Analysis

variable {α β : Type}

/-- A step that succeeds and logs nothing. -/
protected def pure (a : α) : Analysis α :=
  ⟨[], .ok a⟩

/-- One step after the other; an error in the first ends both. -/
protected def bind (p : Analysis α) (f : α → Analysis β) : Analysis β :=
  match p.result with
  | .ok a => ⟨p.log ++ (f a).log, (f a).result⟩
  | .error e => ⟨p.log, .error e⟩

instance : Monad Analysis where
  pure := Analysis.pure
  bind := Analysis.bind

/-- A step that fails. -/
def fail (e : SemanticError) : Analysis α :=
  ⟨[], .error e⟩

/-- A step with a given outcome that logs nothing. -/
def lift (r : Except SemanticError α) : Analysis α :=
  ⟨[], r⟩

instance : MonadLift (Except SemanticError) Analysis where
  monadLift := lift

/-- A step that logs one event. -/
def note (e : Event) : Analysis Unit :=
  ⟨[e], .ok ()⟩

@[simp] theorem result_pure (a : α) : (pure a : Analysis α).result = .ok a := rfl

@[simp] theorem log_pure (a : α) : (pure a : Analysis α).log = [] := rfl

@[simp] theorem result_fail (e : SemanticError) : (fail e : Analysis α).result = .error e := rfl

@[simp] theorem log_fail (e : SemanticError) : (fail e : Analysis α).log = [] := rfl

@[simp] theorem result_lift (r : Except SemanticError α) : (lift r).result = r := rfl

@[simp] theorem log_lift (r : Except SemanticError α) : (lift r).log = [] := rfl

@[simp] theorem result_note (e : Event) : (note e).result = .ok () := rfl

@[simp] theorem log_note (e : Event) : (note e).log = [e] := rfl

/-- Taking the result commutes with sequencing: the log never decides what comes of a step. -/
@[simp] theorem result_bind (p : Analysis α) (f : α → Analysis β) :
    (p >>= f).result = p.result >>= fun a => (f a).result := by
  show (Analysis.bind p f).result = _
  unfold Analysis.bind
  cases p.result <;> rfl

theorem log_bind_of_ok {p : Analysis α} {a : α} (h : p.result = .ok a) (f : α → Analysis β) :
    (p >>= f).log = p.log ++ (f a).log := by
  show (Analysis.bind p f).log = _
  simp [Analysis.bind, h]

theorem log_bind_of_error {p : Analysis α} {e : SemanticError} (h : p.result = .error e)
    (f : α → Analysis β) : (p >>= f).log = p.log := by
  show (Analysis.bind p f).log = _
  simp [Analysis.bind, h]

@[ext] theorem ext {p q : Analysis α} (hl : p.log = q.log) (hr : p.result = q.result) : p = q := by
  cases p
  cases q
  simp_all

instance : LawfulMonad Analysis :=
  LawfulMonad.mk' Analysis
    (fun p => by
      show Analysis.bind p _ = p
      cases h : p.result <;> ext1 <;> simp [Analysis.bind, h, Analysis.pure])
    (fun a f => by
      show Analysis.bind (Analysis.pure a) f = f a
      simp [Analysis.bind, Analysis.pure])
    (fun p f g => by
      show Analysis.bind (Analysis.bind p f) g = Analysis.bind p fun a => Analysis.bind (f a) g
      cases h : p.result with
      | error e => simp [Analysis.bind, h]
      | ok a => cases h' : (f a).result <;> simp [Analysis.bind, h, h'])

end Analysis

end MiniJava
