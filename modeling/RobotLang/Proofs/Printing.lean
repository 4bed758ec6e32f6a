import RobotLang.Model.Text
import RobotLang.Proofs.Numerals
import RobotLang.Proofs.Quoting
import RobotLang.Proofs.Recovery

namespace RobotLang

open Grammar Text Number

/-! ### Declarations of a model -/

def Literal.tree : Literal → LiteralTree
  | string s => .string s
  | boolean b => .boolean b
  | integer n => .integer (.ofInt n)
  | real x => .real x

namespace Expr

mutual

/-- What an expression is written as; one of no particular kind is taken for an empty name. -/
def tree : Expr → ExprTree
  | literal value _ => .literal 0 value.tree
  | reference name _ _ => .name 0 name
  | call name args _ _ => .call 0 name (trees args)
  | ros kind topic args _ => .ros 0 kind topic (trees args)
  | abstract => .name 0 ""

def trees : List Expr → List ExprTree
  | [] => []
  | e :: es => tree e :: trees es

end

mutual

/-- There are no backslashes in strings and topics, and no real numbers. -/
def Plain : Expr → Prop
  | literal (.string s) _ => '\\' ∉ s.toList
  | literal (.real _) _ => False
  | literal _ _ | reference .. | abstract => True
  | call _ args _ _ => AllPlain args
  | ros _ topic args _ => '\\' ∉ topic.toList ∧ AllPlain args

def AllPlain : List Expr → Prop
  | [] => True
  | e :: es => Plain e ∧ AllPlain es

end

mutual

def decidablePlain : ∀ e : Expr, Decidable e.Plain
  | literal (.string s) _ => inferInstanceAs (Decidable ('\\' ∉ s.toList))
  | literal (.real _) _ => .isFalse id
  | literal (.integer _) _ | literal (.boolean _) _ | reference .. | abstract => .isTrue trivial
  | call _ args _ _ => decidableAllPlain args
  | ros _ topic args _ =>
    let _ := decidableAllPlain args
    inferInstanceAs (Decidable ('\\' ∉ topic.toList ∧ AllPlain args))

def decidableAllPlain : ∀ es : List Expr, Decidable (AllPlain es)
  | [] => .isTrue trivial
  | e :: es =>
    let _ := decidablePlain e
    let _ := decidableAllPlain es
    inferInstanceAs (Decidable (Plain e ∧ AllPlain es))

end

instance (es : List Expr) : Decidable (AllPlain es) := decidableAllPlain es

mutual

def literals : Expr → List Literal
  | literal value _ => [value]
  | reference .. | abstract => []
  | call _ args _ _ => literalsOf args
  | ros _ topic args _ => .string topic :: literalsOf args

def literalsOf : List Expr → List Literal
  | [] => []
  | e :: es => literals e ++ literalsOf es

end

theorem trees_eq_map (es : List Expr) : trees es = es.map tree := by
  induction es with
  | nil => rfl
  | cons e es ih => rw [trees, ih, List.map_cons]

end Expr

namespace Literal

def content? : Literal → Option String
  | string s => some s
  | _ => none

def isReal : Literal → Bool
  | real _ => true
  | _ => false

end Literal

namespace Model

variable (m : Model)

def parameterTree (p : Parameter) : ParameterTree := ⟨0, p.name, 0, m.typeText p.type⟩

def literals : List Literal := m.functions.flatMap fun f => Expr.literalsOf f.body

def strings : List String := m.literals.filterMap Literal.content?

def declarations : List Declaration :=
  m.includes.map .includes ++ m.robots.map (fun r => .robot 0 r.name) ++
    m.types.map (fun t => .type 0 t.name) ++
    m.functions.map (fun f => .function 0 f.name (f.parameters.map m.parameterTree) (Expr.trees f.body)) ++
    m.methods.map fun f => .method 0 f.name (f.parameters.map m.parameterTree)

end Model

/-! ### Texts of lexemes -/

section Inert

variable {c : Char}

theorem isInert_of_isWordChar (h : isWordChar c = true) : IsInert c := by
  refine ⟨?_, ?_, ?_⟩ <;> rintro rfl <;> exact absurd h (by decide)

theorem isInert_of_isGap (h : isGap c = true) : IsInert c := by
  refine ⟨?_, ?_, ?_⟩ <;> rintro rfl <;> exact absurd h (by decide)

theorem isInert_of_mem_symbols (h : c ∈ symbols) : IsInert c := by
  refine ⟨?_, ?_, ?_⟩ <;> rintro rfl <;> exact absurd h (by decide)

end Inert

namespace Grammar.Lexeme

def content? : Lexeme → Option String
  | string v => some v
  | _ => none

def strings (xs : List Lexeme) : List String := xs.filterMap content?

theorem strings_append (xs ys : List Lexeme) : strings (xs ++ ys) = strings xs ++ strings ys :=
  List.filterMap_append

theorem strings_separated (c : Char) (rows : List (List Lexeme)) :
    strings (separated c rows) = rows.flatMap strings := by
  cases rows with
  | nil => rfl
  | cons xs rest =>
      rw [separated, strings_append, List.flatMap_cons]
      congr 1
      induction rest with
      | nil => rfl
      | cons ys rest ih =>
          rw [List.flatMap_cons, List.cons_append, strings, List.filterMap_cons_none rfl, ← strings, strings_append,
            ih, List.flatMap_cons]

end Grammar.Lexeme

/-- A text that shows the strings of a row, and lays out the row if they are read back from their quotes. -/
structure Printed (xs : List Lexeme) (s : List Char) : Prop where
  shown : Shows (Lexeme.strings xs) s
  layout : Quotable (Lexeme.strings xs) → Layout xs s

section Spelled

/-- In front of a printed text that goes on with no character of a word, the text prints the lexemes. -/
def Spelled (xs : List Lexeme) (t : String) : Prop :=
  ∀ ys s, Printed ys s → wordEnds s = true → Printed (xs ++ ys) (t.toList ++ s)

variable {xs ys : List Lexeme} {s : List Char}

theorem printed_word {w : String} (hw : IsIdentifier w) (h : Printed ys s) (hs : wordEnds s = true) :
    Printed (.word w :: ys) (w.toList ++ s) where
  shown := h.shown.append_inert fun c hc => isInert_of_isWordChar (hw.isWordChar c hc)
  layout hq := .touching (.word hw hs) (h.layout hq)

theorem printed_symbol {c : Char} (hc : c ∈ symbols) (h : Printed ys s) : Printed (.symbol c :: ys) (c :: s) where
  shown := .inert (isInert_of_mem_symbols hc) h.shown
  layout hq := .touching (.symbol hc) (h.layout hq)

theorem printed_blank {c : Char} (hc : isGap c = true) (h : Printed ys s) : Printed ys (c :: s) where
  shown := .inert (isInert_of_isGap hc) h.shown
  layout hq := (h.layout hq).gap_append (.blank hc .nil)

theorem printed_blanks {g : List Char} (hg : g.all isGap = true) (h : Printed ys s) : Printed ys (g ++ s) := by
  induction g with
  | nil => exact h
  | cons c g ih =>
      rw [List.all_cons, Bool.and_eq_true] at hg
      exact printed_blank hg.1 (ih hg.2)

theorem printed_string (v : String) (h : Printed ys s) :
    Printed (.string v :: ys) ((Literal.quotedText v).toList ++ s) where
  shown := .quoted v h.shown
  layout hq := by
    obtain ⟨⟨hv, hlast⟩, hys⟩ := quotable_cons.1 hq
    have hs : EndsInBackslash v.toList → '"' ∉ s := fun he hmem => h.shown.mem_iff.1 hmem (hlast he)
    exact .touching (.string (scanString_quotedText_iff.2 ⟨rfl, hv, hs⟩)) (h.layout hys)

theorem printed_integer (n : Int) (h : Printed ys s) :
    Printed (.numeral (.ofInt n) :: ys) ((toString n).toList ++ s) := by
  have hdigits := Numeral.isDigit_ofInt n
  rw [Numeral.toList_toString]
  constructor
  case shown =>
    refine h.shown.append_inert fun c hc => ?_
    rcases List.mem_append.1 hc with hc | hc
    · cases hn : (Numeral.ofInt n).negative <;> simp [hn] at hc
      exact hc ▸ ⟨by decide, by decide, by decide⟩
    · exact isInert_of_isWordChar (isWordChar_of_isDigit (hdigits c hc))
  case layout =>
    refine fun hq => .touching (.numeral (Numeral.digits_ofInt_ne_nil n) hdigits ?_) (h.layout hq)
    cases (Numeral.ofInt n).negative with
    | true => rfl
    | false => exact .inl rfl

theorem toList_joined_cons (separator t : String) (ts : List String) :
    (joined separator (t :: ts)).toList = t.toList ++ ts.flatMap fun u => separator.toList ++ u.toList := by
  induction ts generalizing t with
  | nil => rw [joined, List.flatMap_nil, List.append_nil]
  | cons u ts ih =>
      have hj : joined separator (t :: u :: ts) = t ++ separator ++ joined separator (u :: ts) := rfl
      rw [hj, String.toList_append, String.toList_append, ih, List.flatMap_cons, List.append_assoc,
        List.append_assoc]

theorem spelled_joined {α : Type} {lex : α → List Lexeme} {txt : α → String} {separator : String}
    {between : List Lexeme}
    (hs : ∀ ys s, Printed ys s → Printed (between ++ ys) (separator.toList ++ s))
    (he : ∀ s, wordEnds (separator.toList ++ s) = true) {a : α} {as : List α}
    (h : ∀ b ∈ a :: as, Spelled (lex b) (txt b)) :
    Spelled (lex a ++ as.flatMap fun b => between ++ lex b) (joined separator ((a :: as).map txt)) := by
  obtain ⟨ha, has⟩ := List.forall_mem_cons.1 h
  induction as generalizing a with
  | nil =>
      rw [List.flatMap_nil, List.append_nil]
      exact ha
  | cons b as ih =>
      have hrest := ih has (List.forall_mem_cons.1 has).1 (List.forall_mem_cons.1 has).2
      have hj : joined separator ((a :: b :: as).map txt) =
          txt a ++ separator ++ joined separator ((b :: as).map txt) := rfl
      intro ys s hys hends
      have ht := ha _ _ (hs _ _ (hrest ys s hys hends)) (he _)
      rw [hj]
      simpa using ht

theorem spelled_separated {α : Type} {lex : α → List Lexeme} {txt : α → String} {as : List α}
    (h : ∀ a ∈ as, Spelled (lex a) (txt a)) :
    Spelled (separated ',' (as.map lex)) (joined ", " (as.map txt)) := by
  cases as with
  | nil => exact fun ys s hs _ => hs
  | cons a as =>
      have hcomma : ∀ ys s, Printed ys s → Printed ([.symbol ','] ++ ys) (", ".toList ++ s) :=
        fun _ _ hs => printed_symbol (by decide) (printed_blank (by decide) hs)
      rw [List.map_cons, separated, List.flatMap_map]
      exact spelled_joined hcomma (fun _ => rfl) h

theorem printed_parentheses {rows : List (List Lexeme × String)} (h : ∀ r ∈ rows, Spelled r.1 r.2)
    (hs : Printed ys s) :
    Printed (.symbol '(' :: (separated ',' (rows.map Prod.fst) ++ .symbol ')' :: ys))
      ('(' :: ((joined ", " (rows.map Prod.snd)).toList ++ ')' :: s)) :=
  printed_symbol (by decide) (spelled_separated h _ _ (printed_symbol (by decide) hs) rfl)

mutual

theorem spelled_tree : ∀ e : Expr, e.tree.Readable → Spelled e.tree.lexemes e.text
  | .literal (.string v) _, _ => fun ys s hs _ => printed_string v hs
  | .literal (.boolean true) _, _ => fun ys s hs he => printed_word (by decide) hs he
  | .literal (.boolean false) _, _ => fun ys s hs he => printed_word (by decide) hs he
  | .literal (.integer n) _, _ => fun ys s hs _ => printed_integer n hs
  | .literal (.real x) _, hr => hr.elim
  | .reference name _ _, hr => fun ys s hs he => printed_word hr.1 hs he
  | .abstract, hr => absurd hr.1 (by decide)
  | .call name args _ _, hr => by
      have hargs := spelled_trees args hr.2.2
      have hrows : ∀ r ∈ args.map (fun e => (e.tree.lexemes, e.text)), Spelled r.1 r.2 :=
        List.forall_mem_map.2 hargs
      intro ys s hs _
      have ht := printed_word hr.1 (printed_parentheses hrows hs) rfl
      simpa [Expr.text, Expr.texts_eq_map, Expr.tree, ExprTree.lexemes, ExprTree.lexemesOf_eq_map,
        Expr.trees_eq_map, Function.comp_def] using ht
  | .ros kind topic args _, hr => by
      have hargs := spelled_trees args hr
      have hrows : ∀ r ∈ ([.string topic], Literal.quotedText topic) ::
          args.map (fun e => (e.tree.lexemes, e.text)), Spelled r.1 r.2 :=
        List.forall_mem_cons.2 ⟨fun _ _ hs _ => printed_string topic hs, List.forall_mem_map.2 hargs⟩
      intro ys s hs _
      have ht := printed_word (isIdentifier_callKind kind) (printed_parentheses hrows hs) rfl
      simpa [Expr.text, Expr.texts_eq_map, Expr.tree, ExprTree.lexemes, ExprTree.lexemesOf_eq_map,
        Expr.trees_eq_map, Function.comp_def] using ht

theorem spelled_trees : ∀ es : List Expr, ExprTree.AllReadableWith LiteralTree.HasLexemes (Expr.trees es) →
    ∀ e ∈ es, Spelled e.tree.lexemes e.text
  | [], _ => fun _ he => by cases he
  | e :: es, hr => List.forall_mem_cons.2 ⟨spelled_tree e hr.1, spelled_trees es hr.2⟩

end

/-! ### Declarations -/

theorem spelled_keyword {w : String} (hw : IsIdentifier w) {name : String} (hn : IsIdentifier name) :
    Spelled [.word w, .word name] (w ++ " " ++ name) := by
  intro ys s hs he
  rw [String.toList_append, String.toList_append, List.append_assoc, List.append_assoc]
  exact printed_word hw (printed_blank (c := ' ') (by decide) (printed_word hn hs he)) rfl

theorem spelled_include {file : String} (hq : '"' ∉ file.toList) :
    Spelled [.word "include", .string file] (Model.includeLine file) := by
  intro ys s hs _
  have ht : (Model.includeLine file).toList = "include".toList ++ ' ' :: (Literal.quotedText file).toList := by
    simp only [Model.includeLine, String.toList_append, toList_quotedText, escaped_eq_self hq]
    rfl
  rw [ht, List.append_assoc]
  exact printed_word (by decide) (printed_blank (by decide) (printed_string file hs)) rfl

variable {m : Model}

theorem spelled_parameter {p : Parameter} (hn : IsIdentifier p.name) (ht : IsIdentifier (m.typeText p.type)) :
    Spelled (m.parameterTree p).lexemes (m.parameterText p) := by
  intro ys s hs he
  rw [Model.parameterText, String.toList_append, String.toList_append, List.append_assoc, List.append_assoc]
  exact printed_word hn (printed_symbol (c := ':') (by decide) (printed_blank (c := ' ') (by decide)
    (printed_word ht hs he))) rfl

def Model.ParametersPrintable (m : Model) (ps : List Parameter) : Prop :=
  ∀ p ∈ ps, IsIdentifier p.name ∧ IsIdentifier (m.typeText p.type)

theorem printed_signature {name : String} (hn : IsIdentifier name) {ps : List Parameter}
    (hps : m.ParametersPrintable ps) (hs : Printed ys s) :
    Printed (.word name :: (parameterLexemes (ps.map m.parameterTree) ++ ys))
      ((m.signatureText name ps).toList ++ s) := by
  have hrows : ∀ r ∈ ps.map (fun p => ((m.parameterTree p).lexemes, m.parameterText p)), Spelled r.1 r.2 :=
    List.forall_mem_map.2 fun p hp => spelled_parameter (hps p hp).1 (hps p hp).2
  have ht := printed_word hn (printed_parentheses hrows hs) rfl
  simpa [Model.signatureText, parameterLexemes, Function.comp_def] using ht

theorem separated_append_of_ne_nil (c : Char) {rows : List (List Lexeme)} (h : rows ≠ []) :
    separated c rows ++ [Lexeme.symbol c] = rows.flatMap fun xs => xs ++ [Lexeme.symbol c] := by
  cases rows with
  | nil => exact absurd rfl h
  | cons xs rest =>
      clear h
      rw [separated, List.flatMap_cons, List.append_assoc, List.append_assoc]
      congr 1
      induction rest with
      | nil => rfl
      | cons ys rest ih => simp only [List.flatMap_cons, List.cons_append, List.append_assoc, ih, List.nil_append]

theorem printed_bodyLines {es : List Expr} (h : ∀ e ∈ es, Spelled e.tree.lexemes e.text) (hs : Printed ys s) :
    Printed (es.flatMap (fun e => e.tree.lexemes ++ [.symbol ';']) ++ .symbol '\x7d' :: ys)
      (es.flatMap (fun e => '\n' :: (Model.bodyLine e).toList) ++ '\n' :: '\x7d' :: s) := by
  induction es with
  | nil => exact printed_blank (by decide) (printed_symbol (by decide) hs)
  | cons e es ih =>
      have hrest := ih fun e he => h e (List.mem_cons_of_mem _ he)
      have hline := h e List.mem_cons_self _ _ (printed_symbol (c := ';') (by decide) hrest) rfl
      have ht := printed_blanks (g := ['\n', ' ', ' ', ' ', ' ']) (by decide) hline
      simpa [Model.bodyLine] using ht

theorem bodyLexemes_of_ne_nil {es : List Expr} (h : es ≠ []) :
    bodyLexemes true (Expr.trees es) =
      .symbol '\x7b' ::
        (es.flatMap (fun e => e.tree.lexemes ++ [Lexeme.symbol ';']) ++ [Lexeme.symbol '\x7d']) := by
  have hrows : (Expr.trees es).map ExprTree.lexemes ≠ [] := by
    simpa [Expr.trees_eq_map] using h
  have hs := separated_append_of_ne_nil ';' hrows
  rw [bodyLexemes, if_pos rfl, ← List.append_assoc, hs, Expr.trees_eq_map, List.map_map, List.flatMap_map]
  rfl

theorem toList_functionText {f : Function} (h : f.body ≠ []) :
    (m.functionText f).toList = "fn ".toList ++ ((m.signatureText f.name f.parameters).toList ++
      ' ' :: '\x7b' :: (f.body.flatMap (fun e => '\n' :: (Model.bodyLine e).toList) ++ ['\n', '\x7d'])) := by
  rw [Model.functionText, if_neg h, List.cons_append, toList_joined_cons, List.flatMap_append, List.flatMap_map]
  simp

theorem spelled_function {f : Function} (hn : IsIdentifier f.name) (hps : m.ParametersPrintable f.parameters)
    (hb : ∀ e ∈ f.body, Spelled e.tree.lexemes e.text) :
    Spelled (.word "fn" :: .word f.name :: (parameterLexemes (f.parameters.map m.parameterTree) ++
      bodyLexemes (!f.body.isEmpty) (Expr.trees f.body))) (m.functionText f) := by
  intro ys s hs _
  have hfn : ∀ zs r, Printed zs r → Printed (.word "fn" :: .word f.name ::
      (parameterLexemes (f.parameters.map m.parameterTree) ++ .symbol '\x7b' :: zs))
      ("fn ".toList ++ ((m.signatureText f.name f.parameters).toList ++ ' ' :: '\x7b' :: r)) := by
    intro zs r hr
    exact printed_word (w := "fn") (by decide) (printed_blank (by decide) (printed_signature hn hps
      (printed_blank (by decide) (printed_symbol (by decide) hr)))) rfl
  by_cases he : f.body = []
  · have ht := hfn _ _ (printed_symbol (c := '\x7d') (by decide) hs)
    simpa [Model.functionText, he, bodyLexemes, Expr.trees, separated] using ht
  · have ht := hfn _ _ (printed_bodyLines hb hs)
    rw [toList_functionText he, show (!f.body.isEmpty) = true by simpa using he, bodyLexemes_of_ne_nil he]
    simpa using ht

theorem spelled_method {f : Method} (hn : IsIdentifier f.name) (hps : m.ParametersPrintable f.parameters) :
    Spelled (.word "method" :: .word f.name :: parameterLexemes (f.parameters.map m.parameterTree))
      (m.methodText f) := by
  intro ys s hs _
  rw [Model.methodText, String.toList_append, List.append_assoc]
  exact printed_word (w := "method") (by decide) (printed_blank (by decide) (printed_signature hn hps hs)) rfl

/-! ### Models -/

/-- The names of a model are identifiers and its bodies readable. -/
structure Model.Spellable (m : Model) : Prop where
  robots : ∀ r ∈ m.robots, IsIdentifier r.name
  types : ∀ t ∈ m.types, IsIdentifier t.name
  functions : ∀ f ∈ m.functions, IsIdentifier f.name ∧ m.ParametersPrintable f.parameters ∧
    ExprTree.AllReadableWith LiteralTree.HasLexemes (Expr.trees f.body)
  methods : ∀ f ∈ m.methods, IsIdentifier f.name ∧ m.ParametersPrintable f.parameters

/-- All strings of the model are read back from what is written for it, too. -/
structure Model.Printable (m : Model) : Prop extends m.Spellable where
  includes : ∀ file ∈ m.includes, '"' ∉ file.toList
  quotable : Quotable (m.includes ++ m.strings)

def endsWithSemicolon : Declaration → Bool
  | .function _ _ _ body => !body.isEmpty
  | _ => false

def writtenLexemes (d : Declaration) : List Lexeme := d.lexemes (endsWithSemicolon d)

def Model.lines (m : Model) : List (List Lexeme × String) :=
  m.includes.map (fun file => (writtenLexemes (.includes file), Model.includeLine file)) ++
    m.robots.map (fun r => (writtenLexemes (.robot 0 r.name), "robot " ++ r.name)) ++
    m.types.map (fun t => (writtenLexemes (.type 0 t.name), "type " ++ t.name)) ++
    ([], "") :: m.functions.map (fun f => (writtenLexemes
      (.function 0 f.name (f.parameters.map m.parameterTree) (Expr.trees f.body)), m.functionText f)) ++
    m.methods.map fun f => (writtenLexemes (.method 0 f.name (f.parameters.map m.parameterTree)), m.methodText f)

theorem spelled_lines (h : m.Spellable) (hincludes : ∀ file ∈ m.includes, '"' ∉ file.toList) :
    ∀ l ∈ m.lines, Spelled l.1 l.2 := by
  have hf : ∀ f ∈ m.functions, Spelled (writtenLexemes
      (.function 0 f.name (f.parameters.map m.parameterTree) (Expr.trees f.body))) (m.functionText f) := by
    intro f hf
    obtain ⟨hn, hps, hread⟩ := h.functions f hf
    have hb := spelled_function hn hps (spelled_trees f.body hread)
    rwa [writtenLexemes, Declaration.lexemes, endsWithSemicolon,
      show (Expr.trees f.body).isEmpty = f.body.isEmpty by cases f.body <;> rfl]
  have hm : ∀ f ∈ m.methods, Spelled _ (m.methodText f) := fun f hf =>
    spelled_method (h.methods f hf).1 (h.methods f hf).2
  have hi : ∀ file ∈ m.includes, Spelled _ (Model.includeLine file) := fun file hfile =>
    spelled_include (hincludes file hfile)
  have hr : ∀ r ∈ m.robots, Spelled [.word "robot", .word r.name] ("robot " ++ r.name) := fun r hr =>
    spelled_keyword (w := "robot") (by decide) (h.robots r hr)
  have ht : ∀ t ∈ m.types, Spelled [.word "type", .word t.name] ("type " ++ t.name) := fun t ht =>
    spelled_keyword (w := "type") (by decide) (h.types t ht)
  have hempty : Spelled [] "" := fun ys s hs _ => hs
  simp only [Model.lines, List.forall_mem_append, List.forall_mem_cons, List.forall_mem_map]
  exact ⟨⟨⟨⟨hi, hr⟩, ht⟩, hempty, hf⟩, hm⟩

theorem printed_lines {rows : List (List Lexeme × String)} (h : ∀ r ∈ rows, Spelled r.1 r.2) :
    Printed (rows.flatMap Prod.fst) (rows.flatMap fun r => r.2.toList ++ ['\n']) := by
  induction rows with
  | nil => exact ⟨.nil, fun _ => .nil (.gap .nil)⟩
  | cons r rows ih =>
      have hrest := ih fun r hr => h r (List.mem_cons_of_mem _ hr)
      rw [List.flatMap_cons, List.flatMap_cons, List.append_assoc]
      exact h r List.mem_cons_self _ _ (printed_blank (by decide) hrest) rfl

theorem toList_joined_lines {ls : List String} (h : ls ≠ []) :
    (joined "\n" ls ++ "\n").toList = ls.flatMap fun l => l.toList ++ ['\n'] := by
  cases ls with
  | nil => exact absurd rfl h
  | cons l ls =>
      rw [String.toList_append, toList_joined_cons, List.flatMap_cons, List.append_assoc, List.append_assoc]
      congr 1
      clear h
      induction ls with
      | nil => rfl
      | cons k ls ih =>
          rw [List.flatMap_cons, List.flatMap_cons, List.append_assoc, List.append_assoc, ih,
            List.append_assoc k.toList]
          rfl

theorem Model.toList_text (m : Model) : m.text.toList = m.lines.flatMap fun l => l.2.toList ++ ['\n'] := by
  have ht : m.text = joined "\n" (m.lines.map Prod.snd) ++ "\n" := by
    simp [Model.text, Model.lines, Function.comp_def]
  have hne : m.lines.map Prod.snd ≠ [] := by
    simp [Model.lines]
  rw [ht, toList_joined_lines hne, List.flatMap_map]

theorem flatMap_lines_fst : m.lines.flatMap Prod.fst =
    programLexemes (m.declarations.map fun d => (endsWithSemicolon d, d)) := by
  simp [Model.lines, Model.declarations, programLexemes, writtenLexemes, List.flatMap_map]

/-! ### Strings of declarations -/

namespace Grammar

theorem strings_parameterLexemes (ps : List ParameterTree) : Lexeme.strings (parameterLexemes ps) = [] := by
  have hps : (ps.map ParameterTree.lexemes).flatMap Lexeme.strings = [] :=
    List.flatMap_eq_nil_iff.2 (List.forall_mem_map.2 fun _ _ => rfl)
  show Lexeme.strings (separated ',' _ ++ [Lexeme.symbol ')']) = _
  rw [Lexeme.strings_append, Lexeme.strings_separated, hps]
  rfl

def ExprTree.strings (e : ExprTree) : List String := Lexeme.strings e.lexemes

theorem ExprTree.strings_call (mark : Nat) (n : String) (args : List ExprTree) :
    (ExprTree.call mark n args).strings = args.flatMap ExprTree.strings := by
  show Lexeme.strings (separated ',' _ ++ [Lexeme.symbol ')']) = _
  rw [Lexeme.strings_append, Lexeme.strings_separated, lexemesOf_eq_map, List.flatMap_map]
  exact List.append_nil _

theorem ExprTree.strings_ros (mark : Nat) (k : CallKind) (topic : String) (args : List ExprTree) :
    (ExprTree.ros mark k topic args).strings = topic :: args.flatMap ExprTree.strings := by
  show Lexeme.strings (separated ',' _ ++ [Lexeme.symbol ')']) = _
  rw [Lexeme.strings_append, Lexeme.strings_separated, List.flatMap_cons, lexemesOf_eq_map, List.flatMap_map]
  exact List.append_nil _

def Declaration.strings (d : Declaration) : List String := Lexeme.strings (writtenLexemes d)

theorem Declaration.strings_function (mark : Nat) (name : String) (ps : List ParameterTree) (body : List ExprTree) :
    (Declaration.function mark name ps body).strings = body.flatMap ExprTree.strings := by
  show Lexeme.strings (parameterLexemes ps ++ bodyLexemes _ body) = _
  rw [Lexeme.strings_append, strings_parameterLexemes, List.nil_append]
  show Lexeme.strings (separated ';' _ ++
    ((if _ then [Lexeme.symbol ';'] else []) ++ [Lexeme.symbol '\x7d'])) = _
  rw [Lexeme.strings_append, Lexeme.strings_separated, List.flatMap_map]
  split <;> exact List.append_nil _

theorem Declaration.strings_method (mark : Nat) (name : String) (ps : List ParameterTree) :
    (Declaration.method mark name ps).strings = [] :=
  strings_parameterLexemes ps

end Grammar

mutual

theorem strings_tree : ∀ e : Expr, e.tree.strings = e.literals.filterMap Literal.content?
  | .literal (.string _) _ | .literal (.boolean _) _ | .literal (.integer _) _ | .literal (.real _) _ => rfl
  | .reference .. | .abstract => rfl
  | .call name args _ _ => by rw [Expr.tree, ExprTree.strings_call, strings_trees args, Expr.literals]
  | .ros kind topic args _ => by
      rw [Expr.tree, ExprTree.strings_ros, strings_trees args, Expr.literals]
      rfl

theorem strings_trees : ∀ es : List Expr,
    (Expr.trees es).flatMap ExprTree.strings = (Expr.literalsOf es).filterMap Literal.content?
  | [] => rfl
  | e :: es => by
      rw [Expr.trees, List.flatMap_cons, Expr.literalsOf, List.filterMap_append, strings_tree e, strings_trees es]

end

theorem strings_declarations (m : Model) : m.declarations.flatMap Declaration.strings = m.includes ++ m.strings := by
  have hi : ∀ file, (Declaration.includes file).strings = [file] := fun _ => rfl
  have hr : ∀ name, (Declaration.robot 0 name).strings = [] := fun _ => rfl
  have ht : ∀ name, (Declaration.type 0 name).strings = [] := fun _ => rfl
  have hnil : ∀ {α : Type} (as : List α), as.flatMap (fun _ => ([] : List String)) = [] := fun as =>
    List.flatMap_eq_nil_iff.2 fun _ _ => rfl
  simp only [Model.declarations, List.flatMap_append, List.flatMap_map, hi, hr, ht, Declaration.strings_function,
    Declaration.strings_method, strings_trees, hnil, List.append_nil, List.flatMap_singleton', Model.strings,
    Model.literals, List.filterMap_flatMap]

theorem strings_programLexemes (ds : List Declaration) :
    Lexeme.strings (programLexemes (ds.map fun d => (endsWithSemicolon d, d))) = ds.flatMap Declaration.strings := by
  rw [programLexemes, List.flatMap_map, Lexeme.strings, List.filterMap_flatMap]
  rfl

theorem printed_text (h : m.Spellable) (hincludes : ∀ file ∈ m.includes, '"' ∉ file.toList) :
    Printed (programLexemes (m.declarations.map fun d => (endsWithSemicolon d, d))) m.text.toList := by
  rw [Model.toList_text, ← flatMap_lines_fst]
  exact printed_lines (spelled_lines h hincludes)

/-- The text of a model lays out its declarations. -/
theorem layout_text (h : m.Printable) :
    Layout (programLexemes (m.declarations.map fun d => (endsWithSemicolon d, d))) m.text.toList :=
  (printed_text h.toSpellable h.includes).layout
    (((strings_programLexemes m.declarations).trans (strings_declarations m)).symm ▸ h.quotable)

theorem shows_text (h : m.Spellable) (hincludes : ∀ file ∈ m.includes, '"' ∉ file.toList) :
    Shows (m.includes ++ m.strings) m.text.toList :=
  (strings_programLexemes m.declarations).trans (strings_declarations m) ▸ (printed_text h hincludes).shown

end Spelled

end RobotLang
