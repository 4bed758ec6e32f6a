import RobotLang.Grammar.Parser
import RobotLang.Number.Scan
import RobotLang.Text.CharClass

namespace RobotLang.Grammar

open Text Number

variable {α : Type}

def isGap (c : Char) : Bool := c == ' ' || c == '\t' || c == '\n' || c == '\r'

def skipFrom : Bool → List Char → List Char
  | _, [] => []
  | true, c :: cs => skipFrom (c != '\n') cs
  | false, '/' :: '/' :: cs => skipFrom true cs
  | false, c :: cs => if isGap c then skipFrom false cs else c :: cs

def skip (s : List Char) : List Char := skipFrom false s

def wordEnds : List Char → Bool
  | [] => true
  | c :: _ => !isWordChar c

def scanWord (text : String) (s : List Char) : Option (Unit × List Char) :=
  let rest := s.drop text.toList.length
  if text.toList.isPrefixOf s && wordEnds rest then some ((), rest) else none

def scanSymbol (char : Char) : List Char → Option (Unit × List Char)
  | [] => none
  | c :: cs => if c = char then some ((), cs) else none

def scanIdentifier : List Char → Option (String × List Char)
  | [] => none
  | c :: cs =>
    if isWordChar c && !isDigitChar c then
      some (String.ofList (c :: cs.takeWhile isWordChar), cs.dropWhile isWordChar)
    else none

/-- Up to the first quote that no backslash precedes. -/
def untilQuote (quote : Char) : List Char → Option (List Char × List Char)
  | [] => none
  | '\\' :: c :: cs =>
    if c = quote then (untilQuote quote cs).map fun r => ('\\' :: c :: r.1, r.2)
    else (untilQuote quote (c :: cs)).map fun r => ('\\' :: r.1, r.2)
  | c :: cs =>
    if c = quote then some ([], cs)
    else (untilQuote quote cs).map fun r => (c :: r.1, r.2)

/-- Up to the last quote that a backslash precedes; the backslash belongs to the content. -/
def untilLastEscape (quote : Char) : List Char → Option (List Char × List Char)
  | [] => none
  | '\\' :: c :: cs =>
    if c = quote then
      match untilLastEscape quote cs with
      | some r => some ('\\' :: c :: r.1, r.2)
      | none => some (['\\'], cs)
    else (untilLastEscape quote (c :: cs)).map fun r => ('\\' :: r.1, r.2)
  | c :: cs => (untilLastEscape quote cs).map fun r => (c :: r.1, r.2)

/-- The content of a string: a backslash before a quote of either kind is dropped. -/
def unescape : List Char → List Char
  | [] => []
  | '\\' :: c :: cs =>
    if c = '"' ∨ c = '\'' then c :: unescape cs else '\\' :: unescape (c :: cs)
  | c :: cs => c :: unescape cs

def scanString : List Char → Option (String × List Char)
  | [] => none
  | quote :: cs =>
    if quote = '"' ∨ quote = '\'' then
      ((untilQuote quote cs).orElse fun _ => untilLastEscape quote cs).map fun r =>
        (String.ofList (unescape r.1), r.2)
    else none

def scanReal (s : List Char) : Option (Binary64 × List Char) :=
  (scanDecimal s).filter fun r => wordEnds r.2 && r.2.head? != some '.'

def scanBoolean (s : List Char) : Option (Bool × List Char) :=
  let word := fun text b => (scanWord text s).map fun r => (b, r.2)
  (((word "True" true).orElse fun _ => word "true" true).orElse fun _ =>
    word "False" false).orElse fun _ => word "false" false

def scanFinish : List Char → Option (Unit × List Char)
  | [] => some ((), [])
  | _ => none

/-- What is skipped before a token does not belong to it: its mark is the number of characters left where it
begins. -/
def token (terminal : Terminal) (scan : List Char → Option (α × List Char)) : Parser (Nat × α) :=
  fun s =>
    let s := skip s
    match scan s with
    | some (a, rest) => ⟨some ((s.length, a), rest), .nothing⟩
    | none => ⟨none, ⟨s.length, [terminal]⟩⟩

def word (text : String) : Parser (Nat × Unit) := token (.word text) (scanWord text)

def symbol (char : Char) : Parser (Nat × Unit) := token (.symbol char) (scanSymbol char)

def identifier : Parser (Nat × String) := token .identifier scanIdentifier

def string : Parser (Nat × String) := token .string scanString

def decimal : Parser (Nat × Binary64) := token .decimal scanReal

def integer : Parser (Nat × Numeral) := token .integer scanInteger

def boolean : Parser (Nat × Bool) := token .boolean scanBoolean

def finish : Parser (Nat × Unit) := token .finish scanFinish

theorem run_token (terminal : Terminal) (scan : List Char → Option (α × List Char))
    (s : List Char) : (token terminal scan).run s =
      (scan (skip s)).map fun r => (((skip s).length, r.1), r.2) := by
  simp only [Parser.run, token]
  cases scan (skip s) <;> rfl

end RobotLang.Grammar
