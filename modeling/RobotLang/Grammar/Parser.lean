namespace RobotLang.Grammar

variable {α β : Type}

inductive Terminal
  | comment
  | word (text : String)
  | symbol (char : Char)
  | identifier
  | string
  | decimal
  | integer
  | boolean
  | finish
  deriving DecidableEq, Repr

def Terminal.label : Terminal → String
  | comment => "Comment"
  | word text => "'" ++ text ++ "'"
  | symbol char => "'" ++ String.singleton char ++ "'"
  | identifier => "ID"
  | string => "STRING"
  | decimal => "STRICTFLOAT"
  | integer => "INT"
  | boolean => "BOOL"
  | finish => "EOF"

/-- The terminals looked for in vain at the furthest place, from which `left` characters are left,
in the order in which they were first tried. -/
structure Expected where
  left : Nat
  terminals : List Terminal
  deriving DecidableEq, Repr

namespace Expected

def nothing : Expected := ⟨0, []⟩

/-- Two records, one after the other: the further place wins. -/
def join (a b : Expected) : Expected :=
  if b.terminals = [] then a
  else if a.terminals = [] then b
  else if a.left < b.left then a
  else if b.left < a.left then b
  else ⟨a.left, a.terminals ++ b.terminals.filter (· ∉ a.terminals)⟩

end Expected

structure Outcome (α : Type) where
  value : Option (α × List Char)
  expected : Expected

def Parser (α : Type) := List Char → Outcome α

namespace Parser

def run (p : Parser α) (s : List Char) : Option (α × List Char) := (p s).value

protected def pure (a : α) : Parser α := fun s => ⟨some (a, s), .nothing⟩

protected def bind (p : Parser α) (f : α → Parser β) : Parser β := fun s =>
  let o := p s
  match o.value with
  | none => ⟨none, o.expected⟩
  | some (a, rest) =>
    let next := f a rest
    ⟨next.value, o.expected.join next.expected⟩

instance : Monad Parser where
  pure := Parser.pure
  bind := Parser.bind

protected def orElse (p : Parser α) (q : Unit → Parser α) : Parser α := fun s =>
  let o := p s
  match o.value with
  | some _ => o
  | none =>
    let next := q () s
    ⟨next.value, o.expected.join next.expected⟩

instance : OrElse (Parser α) := ⟨Parser.orElse⟩

def fail : Parser α := fun _ => ⟨none, .nothing⟩

def optional (p : Parser α) : Parser (Option α) := some <$> p <|> pure none

def manyUpTo (p : Parser α) : Nat → Parser (List α)
  | 0 => pure []
  | limit + 1 => (do
      let a ← p
      let more ← manyUpTo p limit
      pure (a :: more)) <|> pure []

/-- As often as possible; a parser that takes at least a character cannot succeed more often than
there are characters. -/
def many (p : Parser α) : Parser (List α) := fun s => manyUpTo p (s.length + 1) s

/-- At least one, with separators; a separator that no element follows is left alone. -/
def sepBy1 (p : Parser α) (separator : Parser β) : Parser (List α) := do
  let a ← p
  let more ← many (do let _ ← separator; p)
  pure (a :: more)

def sepBy (p : Parser α) (separator : Parser β) : Parser (List α) :=
  sepBy1 p separator <|> pure []

section Run

variable (p : Parser α) (s : List Char)

@[simp] theorem run_pure (a : α) : (pure a : Parser α).run s = some (a, s) := rfl

@[simp] theorem run_bind (f : α → Parser β) :
    (p >>= f).run s = (p.run s).bind fun r => (f r.1).run r.2 := by
  change (Parser.bind p f s).value = _
  simp only [Parser.bind, run]
  cases (p s).value <;> rfl

@[simp] theorem run_orElse (q : Parser α) :
    (p <|> q).run s = (p.run s).orElse fun _ => q.run s := by
  change (Parser.orElse p (fun _ => q) s).value = _
  simp only [Parser.orElse, run]
  cases h : (p s).value <;> simp [h]

@[simp] theorem run_fail : (fail : Parser α).run s = none := rfl

@[simp] theorem run_map (f : α → β) : (f <$> p).run s = (p.run s).map fun r => (f r.1, r.2) := by
  change (p >>= fun a => pure (f a)).run s = _
  rw [run_bind]
  cases p.run s <;> rfl

theorem run_many : (many p).run s = (manyUpTo p (s.length + 1)).run s := rfl

end Run

end Parser

end RobotLang.Grammar
