import RobotLang.Text.Quoted
import RobotLang.Text.Similar

namespace RobotLang.CommandLine

structure OptionSpec where
  long : String
  short : Option Char
  takesValue : Bool
  deriving DecidableEq, Repr

inductive OptionFault
  | unknown (spelling : String) (similar : List String)
  | needsValue (spelling : String)
  | takesNoValue (spelling : String)
  deriving DecidableEq, Repr

def suggestion : List String → String
  | [] => ""
  | [word] => " Did you mean " ++ Text.quoted word ++ "?"
  | words => " (Did you mean one of: " ++ Text.joined ", " (words.map Text.quoted) ++ "?)"

def OptionFault.message : OptionFault → String
  | unknown spelling similar =>
    "No such option " ++ Text.quoted spelling ++ "." ++ suggestion similar
  | needsValue spelling => "Option " ++ Text.quoted spelling ++ " requires an argument."
  | takesNoValue spelling => "Option " ++ Text.quoted spelling ++ " does not take a value."

structure Given where
  options : List (String × String)
  arguments : List String
  deriving DecidableEq, Repr

def Given.withOption (g : Given) (o : OptionSpec) (value : String) : Given :=
  { g with options := (o.long, value) :: g.options }

def Given.value? (g : Given) (long : String) : Option String :=
  (g.options.reverse.find? (·.1 == long)).map (·.2)

def Given.has (g : Given) (long : String) : Bool := (g.value? long).isSome

def splitEquals (cs : List Char) : List Char × Option (List Char) :=
  match cs.dropWhile (· != '=') with
  | [] => (cs, none)
  | _ :: value => (cs.takeWhile (· != '='), some value)

inductive Spelled
  | option (spec : OptionSpec) (value : Option String) (spelling : String)
  | fault (fault : OptionFault)
  deriving DecidableEq, Repr

def spelled (specs : List OptionSpec) (arg : String) : Spelled :=
  let split := splitEquals arg.toList
  let name := String.ofList split.1
  match specs.find? (·.long == name), arg.toList with
  | some o, _ => .option o (split.2.map String.ofList) name
  | none, '-' :: '-' :: _ => .fault (.unknown name (Text.similar (specs.map (·.long)) name))
  | none, _ :: c :: more =>
    match specs.find? (·.short == some c) with
    | some o => .option o (if more = [] then none else some (String.ofList more)) s!"-{c}"
    | none => .fault (.unknown s!"-{c}" [])
  | none, _ => .fault (.unknown name [])

def isOption (arg : String) : Bool := arg.startsWith "-" && arg != "-"

/-- Options begin with a mark: neither a letter nor a number. -/
def startsLikeOption (arg : String) : Bool :=
  match arg.toList.head? with
  | some c => c == '_' || !Text.isWordChar c
  | none => false

/-- Reads at most `limit` words. Unless options may stand after arguments, the first argument ends
the reading. -/
def readUpTo (specs : List OptionSpec) (interspersed : Bool) :
    Nat → List String → Except OptionFault Given
  | 0, args => .ok ⟨[], args⟩
  | _, [] => .ok ⟨[], []⟩
  | limit + 1, arg :: args =>
    if arg = "--" then .ok ⟨[], args⟩
    else if !isOption arg then
      if interspersed then
        (readUpTo specs interspersed limit args).map fun g =>
          { g with arguments := arg :: g.arguments }
      else .ok ⟨[], arg :: args⟩
    else
      match spelled specs arg with
      | .fault fault => .error fault
      | .option o joined spelling =>
        if o.takesValue then
          match joined, args with
          | some value, args =>
            (readUpTo specs interspersed limit args).map (·.withOption o value)
          | none, value :: args =>
            (readUpTo specs interspersed limit args).map (·.withOption o value)
          | none, [] => .error (.needsValue spelling)
        else if joined.isSome then .error (.takesNoValue spelling)
        else (readUpTo specs interspersed limit args).map (·.withOption o "")

def read (specs : List OptionSpec) (interspersed : Bool) (args : List String) :
    Except OptionFault Given :=
  readUpTo specs interspersed args.length args

end RobotLang.CommandLine
