import RobotLang.Grammar.Tree

namespace RobotLang.Grammar

def callKind : Parser (Nat × CallKind) :=
  (fun t => (t.1, .publish)) <$> word "publish" <|>
  (fun t => (t.1, .subscribe)) <$> word "subscribe" <|>
  (fun t => (t.1, .service)) <$> word "service"

section Expressions

variable (expr : Parser ExprTree)

def moreArguments : Parser (List ExprTree) := do
  let _ ← symbol ','
  Parser.sepBy1 expr (symbol ',')

def rosCall : Parser ExprTree := do
  let (mark, kind) ← callKind
  let _ ← symbol '('
  let (_, topic) ← string
  let args ← Parser.optional (moreArguments expr)
  let _ ← symbol ')'
  pure (.ros mark kind topic (args.getD []))

def call : Parser ExprTree := do
  let (mark, name) ← identifier
  let _ ← symbol '('
  let args ← Parser.sepBy expr (symbol ',')
  let _ ← symbol ')'
  pure (.call mark name args)

def literal : Parser ExprTree :=
  (fun t => .literal t.1 (.string t.2)) <$> string <|>
  (fun t => .literal t.1 (.real t.2)) <$> decimal <|>
  (fun t => .literal t.1 (.integer t.2)) <$> integer <|>
  (fun t => .literal t.1 (.boolean t.2)) <$> boolean

def name : Parser ExprTree := (fun t => .name t.1 t.2) <$> identifier

/-- The words with a meaning of their own are not reserved: `publish(x)` is a call of a function of that
name. -/
def exprOver : Parser ExprTree := rosCall expr <|> call expr <|> literal <|> name

end Expressions

def exprWithin : Nat → Parser ExprTree
  | 0 => Parser.fail
  | depth + 1 => exprOver (exprWithin depth)

/-- Every level of nesting takes characters of its own, so the length of the text bounds it. -/
def expr : Parser ExprTree := fun s => exprWithin (s.length + 1) s

def includeDeclaration : Parser Declaration := do
  let _ ← word "include"
  let (_, file) ← string
  pure (.includes file)

def robotDeclaration : Parser Declaration := do
  let (mark, _) ← word "robot"
  let (_, name) ← identifier
  pure (.robot mark name)

def typeDeclaration : Parser Declaration := do
  let (mark, _) ← word "type"
  let (_, name) ← identifier
  pure (.type mark name)

def parameter : Parser ParameterTree := do
  let (mark, name) ← identifier
  let _ ← symbol ':'
  let (typeMark, typeName) ← identifier
  pure ⟨mark, name, typeMark, typeName⟩

def parameters : Parser (List ParameterTree) := do
  let _ ← symbol '('
  let ps ← Parser.sepBy parameter (symbol ',')
  let _ ← symbol ')'
  pure ps

def body : Parser (List ExprTree) := do
  let _ ← symbol '\x7b'
  let es ← Parser.sepBy expr (symbol ';')
  let _ ← Parser.optional (symbol ';')
  let _ ← symbol '\x7d'
  pure es

def functionDeclaration : Parser Declaration := do
  let (mark, _) ← word "fn"
  let (_, name) ← identifier
  let ps ← parameters
  let es ← body
  pure (.function mark name ps es)

def methodDeclaration : Parser Declaration := do
  let (mark, _) ← word "method"
  let (_, name) ← identifier
  let ps ← parameters
  pure (.method mark name ps)

def declaration : Parser Declaration :=
  includeDeclaration <|> robotDeclaration <|> typeDeclaration <|> functionDeclaration <|>
    methodDeclaration

def program : Parser (List Declaration) := do
  let ds ← Parser.many declaration
  let _ ← finish
  pure ds

end RobotLang.Grammar
