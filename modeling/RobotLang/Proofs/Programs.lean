import Mathlib.Data.List.Chain
import RobotLang.Proofs.Contents
import RobotLang.Proofs.ReadModels

namespace RobotLang

namespace Grammar

/-! ### Ways of writing -/

namespace Lexeme

def IsWord : Lexeme → Prop
  | word _ => True
  | _ => False

def IsNumeral : Lexeme → Prop
  | numeral _ => True
  | _ => False

theorem Text.plain {quote : Char} {s : String} (hq : quote = '"' ∨ quote = '\'') (hb : '\\' ∉ s.toList)
    (hn : quote ∉ s.toList) : Text (.string s) (quote :: (s.toList ++ [quote])) := by
  have hraw : ∀ cs : List Char, '\\' ∉ cs → quote ∉ cs → QuotedAs quote cs cs := by
    intro cs hb hn
    induction cs with
    | nil => exact .nil
    | cons c cs ih =>
        rw [List.mem_cons, not_or] at hb hn
        exact .char (Ne.symm hb.1) (Ne.symm hn.1) (ih hb.2 hn.2)
  exact .string hq (hraw s.toList hb hn)

theorem IsHead.wordEnds {x : Lexeme} {c : Char} (h : x.IsHead c) (hw : ¬ x.IsWord) (hn : ¬ x.IsNumeral)
    (s : List Char) : wordEnds (c :: s) = true := by
  cases x with
  | word w => exact absurd trivial hw
  | numeral n => exact absurd trivial hn
  | symbol d =>
      obtain ⟨hword, -⟩ := isolated_of_mem_symbols h.2
      simpa [Grammar.wordEnds] using hword
  | string s => rcases h with rfl | rfl <;> rfl

end Lexeme

structure Piece where
  gap : List Char
  lexeme : Lexeme
  text : List Char

def Piece.chars (p : Piece) : List Char := p.gap ++ p.text

/-- A way of writing lexemes in their order. -/
structure Writing (xs : List Lexeme) where
  pieces : List Piece
  last : List Char
  lexemes : pieces.map Piece.lexeme = xs
  gaps : ∀ p ∈ pieces, Gap p.gap
  texts : ∀ p ∈ pieces, p.lexeme.Text p.text
  apart : pieces.IsChain fun p q => p.lexeme.IsWord → q.lexeme.IsWord → q.gap ≠ []
  ends : FinalGap last

def Writing.text {xs : List Lexeme} (w : Writing xs) : List Char := w.pieces.flatMap Piece.chars ++ w.last

/-- Nowhere does a numeral follow a word, so that it cannot be taken for a part of one. -/
def NumeralsApart (xs : List Lexeme) : Prop := xs.IsChain fun x y => x.IsWord → ¬ y.IsNumeral

theorem wordEnds_gap {g s : List Char} (hg : Gap g) (h : g ≠ [] ∨ wordEnds s = true) :
    wordEnds (g ++ s) = true := by
  cases hg with
  | nil => exact h.resolve_left (absurd rfl)
  | @blank c g hc =>
      simp only [isGap, Bool.or_eq_true, beq_iff_eq] at hc
      rcases hc with ((rfl | rfl) | rfl) | rfl <;> rfl
  | comment => rfl

theorem wordEnds_finalGap {s : List Char} (h : FinalGap s) : wordEnds s = true := by
  cases h with
  | gap hg =>
      rw [← List.append_nil s]
      exact wordEnds_gap hg (.inr rfl)
  | comment _ hg => exact wordEnds_gap hg (.inr rfl)

theorem layout_of_pieces {ps : List Piece} {last : List Char} (hg : ∀ p ∈ ps, Gap p.gap)
    (ht : ∀ p ∈ ps, p.lexeme.Text p.text)
    (hw : ps.IsChain fun p q => p.lexeme.IsWord → q.lexeme.IsWord → q.gap ≠ [])
    (hn : NumeralsApart (ps.map Piece.lexeme)) (hl : FinalGap last) :
    Layout (ps.map Piece.lexeme) (ps.flatMap Piece.chars ++ last) := by
  induction ps with
  | nil => exact .nil hl
  | cons p ps ih =>
      obtain ⟨hgp, hgs⟩ := List.forall_mem_cons.1 hg
      obtain ⟨htp, hts⟩ := List.forall_mem_cons.1 ht
      obtain ⟨hwp, hws⟩ := List.isChain_cons.1 hw
      obtain ⟨hnp, hns⟩ := List.isChain_cons.1 hn
      rw [List.flatMap_cons, Piece.chars, List.append_assoc, List.append_assoc]
      refine .cons hgp (htp.before fun w hpw => ?_) (ih hgs hts hws hns)
      have hword : p.lexeme.IsWord := by rw [hpw]; trivial
      cases ps with
      | nil => exact wordEnds_finalGap hl
      | cons q qs =>
          rw [List.flatMap_cons, Piece.chars, List.append_assoc, List.append_assoc]
          refine wordEnds_gap (hgs q List.mem_cons_self) ?_
          by_cases hq : q.lexeme.IsWord
          · exact .inl (hwp q rfl hword hq)
          · obtain ⟨c, rest, hc, hhead⟩ := (hts q List.mem_cons_self).head
            rw [hc]
            exact .inr (hhead.wordEnds hq (hnp q.lexeme rfl hword) _)

theorem Writing.layout {xs : List Lexeme} (hn : NumeralsApart xs) (w : Writing xs) : Layout xs w.text := by
  have hl := layout_of_pieces w.gaps w.texts w.apart (w.lexemes.symm ▸ hn) w.ends
  rwa [w.lexemes] at hl

/-! ### Numerals in programs -/

namespace NumeralsApart

variable {x : Lexeme} {xs ys : List Lexeme}

theorem cons_symbol (c : Char) (hy : NumeralsApart ys) : NumeralsApart (.symbol c :: ys) :=
  List.isChain_cons.2 ⟨fun _ _ hw => hw.elim, hy⟩

theorem cons_word (w : String) (hy : NumeralsApart (x :: ys)) (hx : ¬ x.IsNumeral) :
    NumeralsApart (.word w :: x :: ys) :=
  List.isChain_cons_cons.2 ⟨fun _ => hx, hy⟩

theorem append (hx : NumeralsApart xs) (hy : NumeralsApart (x :: ys)) (hn : ¬ x.IsNumeral) :
    NumeralsApart (xs ++ x :: ys) := by
  refine List.isChain_append.2 ⟨hx, hy, fun _ _ y hmem _ => ?_⟩
  obtain rfl := Option.some.inj hmem
  exact hn

theorem append_symbol (hx : NumeralsApart xs) (c : Char) (hy : NumeralsApart ys) :
    NumeralsApart (xs ++ .symbol c :: ys) :=
  hx.append (hy.cons_symbol c) id

theorem append_flatMap (hx : NumeralsApart xs) (c : Char) {yss : List (List Lexeme)}
    (h : ∀ ys ∈ yss, NumeralsApart ys) : NumeralsApart (xs ++ yss.flatMap fun ys => .symbol c :: ys) := by
  induction yss generalizing xs with
  | nil => rwa [List.flatMap_nil, List.append_nil]
  | cons ys yss ih =>
      obtain ⟨hy, hys⟩ := List.forall_mem_cons.1 h
      rw [List.flatMap_cons, List.cons_append]
      exact hx.append_symbol c (ih hy hys)

theorem separated (c : Char) {xss : List (List Lexeme)} (h : ∀ xs ∈ xss, NumeralsApart xs) :
    NumeralsApart (separated c xss) := by
  cases xss with
  | nil => exact .nil
  | cons xs xss =>
      obtain ⟨hx, hxs⟩ := List.forall_mem_cons.1 h
      exact hx.append_flatMap c hxs

theorem parenthesized (w : String) {xss : List (List Lexeme)} (h : ∀ xs ∈ xss, NumeralsApart xs) :
    NumeralsApart (.word w :: .symbol '(' :: (Grammar.separated ',' xss ++ [.symbol ')'])) :=
  .cons_word w (((separated ',' h).append_symbol ')' .nil).cons_symbol '(') id

end NumeralsApart

mutual

theorem numeralsApart_lexemes : ∀ e : ExprTree, NumeralsApart e.lexemes
  | .ros _ kind _ args =>
      .parenthesized kind.text (List.forall_mem_cons.2 ⟨.singleton _, numeralsApart_lexemesOf args⟩)
  | .call _ n args => .parenthesized n (numeralsApart_lexemesOf args)
  | .literal _ (.string _) | .literal _ (.integer _) | .literal _ (.boolean _) => .singleton _
  | .literal _ (.real _) => .nil
  | .name .. => .singleton _

theorem numeralsApart_lexemesOf : ∀ es : List ExprTree, ∀ xs ∈ ExprTree.lexemesOf es, NumeralsApart xs
  | [] => List.forall_mem_nil _
  | e :: es => List.forall_mem_cons.2 ⟨numeralsApart_lexemes e, numeralsApart_lexemesOf es⟩

end

theorem numeralsApart_parameters (w : String) (ps : List ParameterTree) :
    NumeralsApart (.word w :: parameterLexemes ps) := by
  refine .parenthesized w (List.forall_mem_map.2 fun p _ => ?_)
  exact .cons_word p.name (.cons_symbol ':' (.singleton _)) id

theorem numeralsApart_body (semicolon : Bool) (es : List ExprTree) :
    NumeralsApart (bodyLexemes semicolon es) := by
  have hrow : NumeralsApart (separated ';' (es.map ExprTree.lexemes)) :=
    .separated ';' (List.forall_mem_map.2 fun e _ => numeralsApart_lexemes e)
  refine .cons_symbol '\x7b' ?_
  cases semicolon with
  | true => exact hrow.append_symbol ';' (.cons_symbol '\x7d' .nil)
  | false => exact hrow.append_symbol '\x7d' .nil

theorem numeralsApart_declaration (semicolon : Bool) (d : Declaration) :
    NumeralsApart (d.lexemes semicolon) := by
  cases d with
  | includes file | robot mark name | type mark name => exact .cons_word _ (.singleton _) id
  | function mark name ps body =>
      have hps := (numeralsApart_parameters name ps).append (numeralsApart_body semicolon body) id
      exact hps.cons_word "fn" id
  | method mark name ps => exact (numeralsApart_parameters name ps).cons_word "method" id

theorem numeralsApart_program (ds : List (Bool × Declaration)) : NumeralsApart (programLexemes ds) := by
  induction ds with
  | nil => exact .nil
  | cons d ds ih =>
      have hd := numeralsApart_declaration d.1 d.2
      rw [programLexemes, List.flatMap_cons]
      cases ds with
      | nil => rwa [List.flatMap_nil, List.append_nil]
      | cons e es =>
          have hhead : ∃ w xs, e.2.lexemes e.1 = .word w :: xs := by
            cases e.2 <;> exact ⟨_, _, rfl⟩
          obtain ⟨w, xs, he⟩ := hhead
          rw [programLexemes, List.flatMap_cons, he] at ih
          rw [List.flatMap_cons, he]
          exact hd.append ih id

/-! ### What is declared -/

/-- A string, a boolean, or an integer with no more digits than a number may have. -/
def LiteralTree.IsPlain : LiteralTree → Prop
  | string _ | boolean _ => True
  | integer n => n.digits.length ≤ Error.numeralLimit
  | real _ => False

def Declaration.IsPlain : Declaration → Prop
  | function _ _ _ body => ∀ e ∈ body, e.ReadableWith LiteralTree.IsPlain
  | _ => True

def LiteralTree.meaning : LiteralTree → Literal
  | string s => .string s
  | boolean b => .boolean b
  | integer n =>
    .integer (if n.negative then -(Nat.ofDigitChars 10 n.digits 0 : Int) else Nat.ofDigitChars 10 n.digits 0)
  | real x => .real x

mutual

def ExprTree.meaning : ExprTree → Expr
  | .ros _ kind topic args => .ros kind topic (meanings args) none
  | .call _ n args => .call n (meanings args) none none
  | .literal _ v => .literal v.meaning none
  | .name _ n => .reference n none none

def ExprTree.meanings : List ExprTree → List Expr
  | [] => []
  | e :: es => meaning e :: meanings es

end

def ParameterTree.meaning (p : ParameterTree) : Parameter :=
  ⟨p.name, if p.typeName = "bool" then .boolean else .unresolved p.typeName none, none⟩

mutual

theorem ExprTree.meaning_unmarked : ∀ e : ExprTree, e.unmarked.meaning = e.meaning
  | .literal .. | .name .. => rfl
  | .call _ _ args => by simp only [unmarked, meaning, meanings_unmarkedAll args]
  | .ros _ _ _ args => by simp only [unmarked, meaning, meanings_unmarkedAll args]

theorem ExprTree.meanings_unmarkedAll : ∀ es : List ExprTree, meanings (unmarkedAll es) = meanings es
  | [] => rfl
  | e :: es => by simp only [unmarkedAll, meanings, meaning_unmarked e, meanings_unmarkedAll es]

end

mutual

theorem ExprTree.ReadableWith.mono {ok ok' : LiteralTree → Prop} (hok : ∀ v, ok v → ok' v) :
    ∀ e : ExprTree, e.ReadableWith ok → e.ReadableWith ok'
  | .literal _ v, h => hok v h
  | .name .., h => h
  | .call _ _ args, h => ⟨h.1, h.2.1, AllReadableWith.mono hok args h.2.2⟩
  | .ros _ _ _ args, h => AllReadableWith.mono hok args h

theorem ExprTree.AllReadableWith.mono {ok ok' : LiteralTree → Prop} (hok : ∀ v, ok v → ok' v) :
    ∀ es : List ExprTree, AllReadableWith ok es → AllReadableWith ok' es
  | [], _ => trivial
  | e :: es, h => ⟨ReadableWith.mono hok e h.1, AllReadableWith.mono hok es h.2⟩

end

namespace Declaration

def file? : Declaration → Option String
  | includes file => some file
  | _ => none

def robot? : Declaration → Option String
  | robot _ name => some name
  | _ => none

def type? : Declaration → Option String
  | type _ name => some name
  | _ => none

def function? : Declaration → Option (String × List Parameter × List Expr)
  | function _ name ps body => some (name, ps.map ParameterTree.meaning, ExprTree.meanings body)
  | _ => none

def method? : Declaration → Option (String × List Parameter)
  | method _ name ps => some (name, ps.map ParameterTree.meaning)
  | _ => none

theorem IsPlain.readable {d : Declaration} (h : d.IsPlain) : d.Readable := by
  have hok : ∀ v : LiteralTree, v.IsPlain → v.HasLexemes := by
    intro v hv
    cases v <;> first | exact hv.elim | trivial
  cases d with
  | function mark name ps body => exact fun e he => ExprTree.ReadableWith.mono hok e (h e he)
  | includes file | robot mark name | type mark name | method mark name ps => trivial

theorem IsPlain.longNumerals {d : Declaration} (h : d.IsPlain) : Source.declaredLongNumerals d = [] := by
  have hok : ∀ v : LiteralTree, v.IsPlain → v.IsShort := by
    intro v hv
    cases v <;> first | exact hv | trivial
  cases d with
  | function mark name ps body =>
      refine Source.longNumeralsOf_of_isShort body (ExprTree.allReadableWith_iff.2 fun e he => ?_)
      exact ExprTree.ReadableWith.mono hok e (h e he)
  | includes file | robot mark name | type mark name | method mark name ps => rfl

end Declaration

end Grammar

open Grammar

/-- The model of the declarations, each of them numbered within its kind, without positions. -/
def Model.declaring (imported : Imported) (ds : List Declaration) : Model where
  includes := ds.filterMap Declaration.file?
  robots := (ds.filterMap Declaration.robot?).mapIdx fun i name => ⟨⟨i⟩, name, none⟩
  types := (ds.filterMap Declaration.type?).mapIdx fun i name => ⟨⟨i⟩, name, none⟩
  functions := (ds.filterMap Declaration.function?).mapIdx fun i f => ⟨⟨⟨i⟩, f.1, none⟩, f.2.1, f.2.2⟩
  methods := (ds.filterMap Declaration.method?).mapIdx fun i f => ⟨⟨⟨i⟩, f.1, none⟩, f.2⟩
  rosCalls := .empty
  imported

namespace Model

def declare (m : Model) : Declaration → Model
  | .includes file => m.addInclude file
  | .robot _ name => m.addRobot name none
  | .type _ name => m.addType name none
  | .function _ name ps body =>
    m.addFunction name (ps.map ParameterTree.meaning) (ExprTree.meanings body) none
  | .method _ name ps => m.addMethod name (ps.map ParameterTree.meaning) none

theorem declaring_append (imported : Imported) (ds : List Declaration) (d : Declaration) :
    declaring imported (ds ++ [d]) = (declaring imported ds).declare d := by
  cases d <;>
    simp [List.filterMap_cons, declaring, declare, addInclude, addRobot, addType, addFunction, addMethod,
      EntityId.next, Declaration.file?, Declaration.robot?, Declaration.type?, Declaration.function?,
      Declaration.method?]

theorem declaring_eq_foldl (imported : Imported) (ds : List Declaration) :
    declaring imported ds = ds.foldl declare (.besides imported) := by
  induction ds using List.reverseRecOn with
  | nil => rfl
  | append_singleton ds d ih => rw [declaring_append, ih, List.foldl_append, List.foldl_cons, List.foldl_nil]

theorem declare_unmarked (m : Model) (d : Declaration) : m.declare d.unmarked = m.declare d := by
  cases d with
  | includes file | robot mark name | type mark name => rfl
  | function mark name ps body =>
      have hb := ExprTree.meanings_unmarkedAll body
      rw [ExprTree.unmarkedAll_eq_map] at hb
      simp only [Declaration.unmarked, declare, List.map_map, hb]
      rfl
  | method mark name ps =>
      simp only [Declaration.unmarked, declare, List.map_map]
      rfl

theorem declaring_congr (imported : Imported) {ds es : List Declaration}
    (h : ds.map Declaration.unmarked = es.map Declaration.unmarked) :
    declaring imported ds = declaring imported es := by
  have hu : ∀ ds : List Declaration, declaring imported (ds.map Declaration.unmarked) = declaring imported ds := by
    intro ds
    simp only [declaring_eq_foldl, List.foldl_map, declare_unmarked]
  rw [← hu ds, h, hu es]

end Model

namespace Source

variable (s : Source)

theorem literal_eq_meaning {v : LiteralTree} (h : v.IsProper) : literal v = v.meaning := by
  cases v with
  | integer n =>
      have hd := Number.digitsValue_eq_ofDigitChars h
      simp only [literal, LiteralTree.meaning, Number.Numeral.value, Number.signed, hd]
  | string x | boolean b | real x => rfl

mutual

theorem unplaced_expr : ∀ e : ExprTree, e.ReadableWith LiteralTree.IsProper → (s.expr e).unplaced = e.meaning
  | .literal _ v, h => congrArg (Expr.literal · none) (literal_eq_meaning h)
  | .name .., _ => rfl
  | .call _ _ args, h => by
      simp only [expr, Expr.unplaced, ExprTree.meaning, unplacedAll_exprs args h.2.2]
  | .ros _ _ _ args, h => by
      simp only [expr, Expr.unplaced, ExprTree.meaning, unplacedAll_exprs args h]

theorem unplacedAll_exprs : ∀ es : List ExprTree, ExprTree.AllReadableWith LiteralTree.IsProper es →
    Expr.unplacedAll (s.exprs es) = ExprTree.meanings es
  | [], _ => rfl
  | e :: es, h => by
      simp only [exprs, Expr.unplacedAll, ExprTree.meanings, unplaced_expr e h.1, unplacedAll_exprs es h.2]

end

theorem unplaced_parameter (p : ParameterTree) : (s.parameter p).unplaced = p.meaning := by
  simp only [parameter, Parameter.unplaced, ParameterTree.meaning, type]
  split <;> rfl

theorem unplaced_add (m : Model) {d : Declaration} (h : d.IsProper) :
    (m.add s d).unplaced = m.unplaced.declare d := by
  cases d with
  | includes file => rfl
  | robot mark name | type mark name =>
      simp [Model.add, Model.addRobot, Model.addType, Model.unplaced, Model.declare, Entity.unplaced, EntityId.next]
  | function mark name ps body =>
      have hb := s.unplacedAll_exprs body (ExprTree.allReadableWith_iff.2 h.2.2)
      have hps : (Parameter.unplaced ∘ s.parameter) = ParameterTree.meaning := funext s.unplaced_parameter
      simp [Model.add, Model.addFunction, Model.unplaced, Model.declare, Function.unplaced, Entity.unplaced,
        EntityId.next, hb, hps]
  | method mark name ps =>
      have hps : (Parameter.unplaced ∘ s.parameter) = ParameterTree.meaning := funext s.unplaced_parameter
      simp [Model.add, Model.addMethod, Model.unplaced, Model.declare, Method.unplaced, Entity.unplaced,
        EntityId.next, hps]

theorem unplaced_addAll (m : Model) {ds : List Declaration} (h : ∀ d ∈ ds, d.IsProper) :
    (ds.foldl (Model.add s) m).unplaced = ds.foldl Model.declare m.unplaced := by
  induction ds generalizing m with
  | nil => rfl
  | cons d ds ih =>
      obtain ⟨hd, hds⟩ := List.forall_mem_cons.1 h
      rw [List.foldl_cons, List.foldl_cons, ih _ hds, s.unplaced_add m hd]

/-- A program is recovered from every way of writing it. Of declarations, at least one, whose literals are
strings, booleans and integers that are not too long, and in which no name is spelled like a boolean and
no call like a ROS call, every text reads as the model that declares exactly them, up to positions. -/
theorem model_of_writing (imported : Imported) (file : Option String) {ds : List (Bool × Declaration)}
    (hne : ds ≠ []) (hds : ∀ d ∈ ds, d.2.IsPlain) (w : Writing (programLexemes ds)) :
    ∃ m, Source.model ⟨file, w.text⟩ imported = .ok m ∧
      m.unplaced = Model.declaring imported (ds.map Prod.snd) := by
  obtain ⟨es, hrun, hmap⟩ := run_program_of_layout (fun d hd => (hds d hd).readable)
    (w.layout (numeralsApart_program ds))
  have hsame : es.map Declaration.unmarked = (ds.map Prod.snd).map Declaration.unmarked := by
    rw [hmap, List.map_map]
    rfl
  have hes : es ≠ [] := by
    rintro rfl
    exact hne (List.map_eq_nil_iff.1 hmap.symm)
  have hlong : es.flatMap declaredLongNumerals = [] := by
    refine List.flatMap_eq_nil_iff.2 fun e he => ?_
    have hmem : e.unmarked ∈ ds.map fun d => d.2.unmarked := hmap ▸ List.mem_map_of_mem he
    obtain ⟨d, hd, hde⟩ := List.mem_map.1 hmem
    rw [← declaredLongNumerals_unmarked, ← hde, declaredLongNumerals_unmarked, (hds d hd).longNumerals]
  have hprogram := program_eq_ok_iff (s := ⟨file, w.text⟩).2 ⟨⟨[], hrun⟩, hes, hlong⟩
  refine ⟨_, model_eq_ok_iff.2 ⟨es, hprogram, rfl⟩, ?_⟩
  rw [unplaced_addAll _ _ (isProper_of_run_program hrun), ← Model.declaring_congr imported hsame,
    Model.declaring_eq_foldl]
  rfl

theorem model_of_writing_publish :
    ∃ m, Source.model ⟨none, "include'a\"b'fn//\"\nfn()\x7bpublish(fn)\x7d//".toList⟩ .empty = .ok m ∧
      m.unplaced =
        { Model.empty with
          includes := ["a\"b"]
          functions :=
            [⟨⟨⟨0⟩, "fn", none⟩, [], [.call "publish" [.reference "fn" none none] none none]⟩] } := by
  let ds : List (Bool × Declaration) :=
    [(false, .includes "a\"b"), (false, .function 0 "fn" [] [.call 0 "publish" [.name 0 "fn"]])]
  let bare (x : Lexeme) (text : String) : Piece := ⟨[], x, text.toList⟩
  let w : Writing (programLexemes ds) :=
    { pieces :=
        [bare (.word "include") "include", bare (.string "a\"b") "'a\"b'", bare (.word "fn") "fn",
          ⟨"//\"\n".toList, .word "fn", "fn".toList⟩, bare (.symbol '(') "(", bare (.symbol ')') ")",
          bare (.symbol '\x7b') "\x7b", bare (.word "publish") "publish", bare (.symbol '(') "(",
          bare (.word "fn") "fn", bare (.symbol ')') ")", bare (.symbol '\x7d') "\x7d"]
      last := "//".toList
      lexemes := rfl
      gaps := by
        simp only [List.forall_mem_cons]
        exact ⟨.nil, .nil, .nil, .comment (show '\n' ∉ ['"'] by decide) .nil, .nil, .nil, .nil, .nil, .nil, .nil,
          .nil, .nil, List.forall_mem_nil _⟩
      texts := by
        simp only [List.forall_mem_cons]
        exact ⟨.word (by decide), .plain (.inr rfl) (by decide) (by decide), .word (by decide), .word (by decide),
          .symbol (by decide), .symbol (by decide), .symbol (by decide), .word (by decide), .symbol (by decide),
          .word (by decide), .symbol (by decide), .symbol (by decide), List.forall_mem_nil _⟩
      apart := by simp [bare, Lexeme.IsWord]
      ends := .comment (show '\n' ∉ [] by decide) .nil }
  have hplain : ∀ d ∈ ds, d.2.IsPlain := by
    refine List.forall_mem_cons.2 ⟨trivial, List.forall_mem_singleton.2 (List.forall_mem_singleton.2 ?_)⟩
    exact ⟨by decide, fun _ _ => rfl, ⟨by decide, by decide⟩, trivial⟩
  exact model_of_writing .empty none (List.cons_ne_nil _ _) hplain w

end Source

end RobotLang
