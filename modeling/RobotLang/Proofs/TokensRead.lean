import RobotLang.Proofs.Answers
import RobotLang.Source

namespace RobotLang

open Grammar Text Number

/-! ### Spelling -/

inductive Token
  | word (text : String)
  | string (content : String)
  | real (value : Binary64)
  | integer (value : Int)
  | symbol (char : Char)
  deriving DecidableEq, Repr

/-- A boolean with a capital letter is the same token as one without. -/
def Token.ofWord (w : String) : Token :=
  .word (if w = "True" then "true" else if w = "False" then "false" else w)

def Literal.token : Literal → Token
  | string s => .string s
  | real x => .real x
  | integer n => .integer n
  | boolean b => .word (booleanText b)

namespace Expr

mutual

def tokens : Expr → List Token
  | literal value _ => [value.token]
  | reference name _ _ => [.ofWord name]
  | call name args _ _ => .ofWord name :: .symbol '(' :: ((tokensAfter ',' args).drop 1 ++ [.symbol ')'])
  | ros kind topic args _ =>
    .ofWord kind.text :: .symbol '(' :: .string topic :: (tokensAfter ',' args ++ [.symbol ')'])
  | abstract => []

def tokensAfter (separator : Char) : List Expr → List Token
  | [] => []
  | e :: es => .symbol separator :: (tokens e ++ tokensAfter separator es)

end

theorem tokensAfter_eq_flatMap (separator : Char) (es : List Expr) :
    tokensAfter separator es = es.flatMap fun e => .symbol separator :: e.tokens := by
  induction es with
  | nil => rfl
  | cons e es ih => rw [tokensAfter, ih, List.flatMap_cons, List.cons_append]

end Expr

namespace Grammar

def ParameterTree.tokens (p : ParameterTree) : List Token :=
  [.ofWord p.name, .symbol ':', .ofWord p.typeName]

def parameterTokens (ps : List ParameterTree) : List Token :=
  .symbol '(' :: ((ps.flatMap fun p => .symbol ',' :: p.tokens).drop 1 ++ [.symbol ')'])

def bodyTokens (semicolon : Bool) (es : List Expr) : List Token :=
  .symbol '\x7b' :: ((Expr.tokensAfter ';' es).drop 1 ++
    ((if semicolon then [.symbol ';'] else []) ++ [.symbol '\x7d']))

def Declaration.tokens (s : Source) (semicolon : Bool) : Declaration → List Token
  | includes file => [.word "include", .string file]
  | robot _ name => [.word "robot", .ofWord name]
  | type _ name => [.word "type", .ofWord name]
  | function _ name ps body =>
    .word "fn" :: .ofWord name :: (parameterTokens ps ++ bodyTokens semicolon (s.exprs body))
  | method _ name ps => .word "method" :: .ofWord name :: parameterTokens ps

end Grammar

/-! ### Scanning -/

section Scanning

variable {s r : List Char} {c : Char} {cs : List Char}

def scanToken? (s : List Char) : Option (Token × List Char) :=
  ((scanIdentifier s).map fun x => (.ofWord x.1, x.2)) <|>
  ((scanString s).map fun x => (.string x.1, x.2)) <|>
  ((scanReal s).map fun x => (.real x.1, x.2)) <|>
  ((scanInteger s).map fun x => (.integer x.1.value, x.2))

def scanToken (c : Char) (cs : List Char) : Token × List Char :=
  (scanToken? (c :: cs)).getD (.symbol c, cs)

/-- The ways in which a token is read. -/
inductive TokenRead (s : List Char) : Token × List Char → Prop
  | word {w : String} {r : List Char} (h : scanIdentifier s = some (w, r)) : TokenRead s (.ofWord w, r)
  | string {v : String} {r : List Char} (h : scanString s = some (v, r)) : TokenRead s (.string v, r)
  | real {x : Binary64} {r : List Char} (h : scanReal s = some (x, r)) : TokenRead s (.real x, r)
  | integer {n : Numeral} {r : List Char} (h : scanInteger s = some (n, r)) : TokenRead s (.integer n.value, r)
  | symbol {c : Char} {cs : List Char} (h : s = c :: cs) (hs : scanString s = none) : TokenRead s (.symbol c, cs)

theorem tokenRead_scanToken (c : Char) (cs : List Char) : TokenRead (c :: cs) (scanToken c cs) := by
  rw [scanToken, scanToken?]
  cases hw : scanIdentifier (c :: cs) with
  | some x => exact .word hw
  | none =>
      cases hs : scanString (c :: cs) with
      | some x => exact .string hs
      | none =>
          cases hr : scanReal (c :: cs) with
          | some x => exact .real hr
          | none =>
              cases hn : scanInteger (c :: cs) with
              | some x => exact .integer hn
              | none => exact .symbol rfl hs

theorem scanToken_takes (c : Char) (cs : List Char) : Takes (c :: cs) (scanToken c cs).2 := by
  generalize hx : scanToken c cs = x
  have hread := tokenRead_scanToken c cs
  rw [hx] at hread
  cases hread with
  | word h => exact scanIdentifier_takes h
  | string h => exact scanString_takes h
  | real h => exact scanReal_takes h
  | integer h => exact scanInteger_takes h
  | symbol h =>
      obtain ⟨-, rfl⟩ := List.cons.inj h
      exact .cons List.suffix_rfl

/-- The tokens in a text, in their order. -/
def tokensIn (s : List Char) : List Token :=
  match _hs : skip s with
  | [] => []
  | c :: cs => (scanToken c cs).1 :: tokensIn (scanToken c cs).2
termination_by s.length
decreasing_by
  have hskip := (skip_suffix s).length_le
  have htakes := (scanToken_takes c cs).2
  rw [_hs] at hskip
  omega

theorem tokensIn_eq (s : List Char) :
    tokensIn s =
      match skip s with
      | [] => []
      | c :: cs => (scanToken c cs).1 :: tokensIn (scanToken c cs).2 := by
  rw [tokensIn]
  split
  next hs => rw [hs]
  next c cs hs => rw [hs]

theorem scanToken_of_scanIdentifier {w : String} (h : scanIdentifier (c :: cs) = some (w, r)) :
    scanToken c cs = (.ofWord w, r) := by
  simp [scanToken, scanToken?, h]

theorem scanIdentifier_eq_none (h : isWordChar c = false ∨ isDigitChar c = true) (cs : List Char) :
    scanIdentifier (c :: cs) = none := by
  rw [scanIdentifier, if_neg]
  rcases h with h | h <;> simp [h]

theorem scanString_eq_none (hd : c ≠ '"') (hs : c ≠ '\'') (cs : List Char) : scanString (c :: cs) = none := by
  rw [scanString, if_neg (not_or.2 ⟨hd, hs⟩)]

theorem scanToken_of_scanString {v : String} (h : scanString (c :: cs) = some (v, r)) :
    scanToken c cs = (.string v, r) := by
  obtain ⟨d, ds, he, hquote⟩ := scanString_head h
  obtain ⟨rfl, rfl⟩ := List.cons.inj he
  have hword : scanIdentifier (c :: cs) = none := by
    rcases hquote with rfl | rfl <;> exact scanIdentifier_eq_none (.inl (by decide)) cs
  simp [scanToken, scanToken?, h, hword]

theorem scans_eq_none_of_number (h : scanReal (c :: cs) ≠ none ∨ scanInteger (c :: cs) ≠ none) :
    scanIdentifier (c :: cs) = none ∧ scanString (c :: cs) = none := by
  have hhead : c = '-' ∨ c = '+' ∨ c = '.' ∨ isDigitChar c = true := by
    by_contra hc
    simp only [not_or, Bool.not_eq_true] at hc
    obtain ⟨hm, hp, hpoint, hd⟩ := hc
    rcases h with h | h
    · exact h (scanReal_eq_none hm hp hpoint hd cs)
    · exact h (scanInteger_eq_none hm hp hd cs)
  rcases hhead with rfl | rfl | rfl | hd
  · exact ⟨scanIdentifier_eq_none (.inl (by decide)) cs, scanString_eq_none (by decide) (by decide) cs⟩
  · exact ⟨scanIdentifier_eq_none (.inl (by decide)) cs, scanString_eq_none (by decide) (by decide) cs⟩
  · exact ⟨scanIdentifier_eq_none (.inl (by decide)) cs, scanString_eq_none (by decide) (by decide) cs⟩
  · refine ⟨scanIdentifier_eq_none (.inr hd) cs, scanString_eq_none ?_ ?_ cs⟩ <;> rintro rfl <;>
      exact absurd hd (by decide)

theorem scanToken_of_scanReal {x : Binary64} (h : scanReal (c :: cs) = some (x, r)) :
    scanToken c cs = (.real x, r) := by
  obtain ⟨hword, hstring⟩ := scans_eq_none_of_number (.inl (by rw [h]; exact nofun))
  simp [scanToken, scanToken?, h, hword, hstring]

theorem scanToken_of_scanInteger {n : Numeral} (hr : scanReal (c :: cs) = none)
    (h : scanInteger (c :: cs) = some (n, r)) : scanToken c cs = (.integer n.value, r) := by
  obtain ⟨hword, hstring⟩ := scans_eq_none_of_number (.inr (by rw [h]; exact nofun))
  simp [scanToken, scanToken?, h, hr, hword, hstring]

theorem scanToken_of_symbol (hw : isWordChar c = false) (hd : isDigitChar c = false)
    (hc : c ∉ ['"', '\'', '-', '+', '.']) (cs : List Char) : scanToken c cs = (.symbol c, cs) := by
  simp only [List.mem_cons, List.not_mem_nil, or_false, not_or] at hc
  obtain ⟨hdouble, hsingle, hm, hp, hpoint⟩ := hc
  simp [scanToken, scanToken?, scanIdentifier_eq_none (.inl hw), scanString_eq_none hdouble hsingle,
    scanReal_eq_none hm hp hpoint hd, scanInteger_eq_none hm hp hd]

theorem scanToken_of_mem_symbols (hc : c ∈ symbols) (cs : List Char) : scanToken c cs = (.symbol c, cs) := by
  obtain ⟨hw, hd, -⟩ := isolated_of_mem_symbols hc
  refine scanToken_of_symbol hw hd ?_ cs
  have hall : symbols.all (fun c => decide (c ∉ ['"', '\'', '-', '+', '.'])) = true := by decide
  exact of_decide_eq_true (List.all_eq_true.1 hall c hc)

end Scanning

namespace Grammar

open RobotLang.Grammar.Parser

variable {α : Type} {s r : List Char}

/-! ### Tokens -/

/-- The tokens of a text up to a rest of it. -/
def tokenRecord : Record Token where
  holds s ts r := tokensIn s = ts ++ tokensIn r
  nothing _ := rfl
  trans h h' := by rw [h, h', List.append_assoc]

theorem spells_token {terminal : Terminal} {scan : List Char → Option (α × List Char)} {f : α → Token}
    (hnil : scan [] = none) (h : ∀ c cs a r, scan (c :: cs) = some (a, r) → scanToken c cs = (f a, r)) :
    Lists tokenRecord (token terminal scan) fun t => [f t.2] := by
  rintro s ⟨mark, a⟩ r ht
  obtain ⟨-, ha⟩ := run_token_eq_some ht
  refine ⟨[f a], ?_, rfl⟩
  show tokensIn s = _
  rw [tokensIn_eq]
  cases hs : skip s with
  | nil => rw [hs, hnil] at ha; cases ha
  | cons c cs =>
      rw [hs] at ha
      simp only [h c cs a r ha]
      rfl

theorem scanIdentifier_of_scanWord {w : String} (hw : IsIdentifier w) {u : Unit} (h : scanWord w s = some (u, r)) :
    scanIdentifier s = some (w, r) := by
  obtain ⟨rfl, hr⟩ := scanWord_eq_some h
  obtain ⟨c, cs, hc, hword, hdigit, -⟩ := id hw
  have htake := takeWhile_word hw hr
  have hdrop := dropWhile_word hw hr
  rw [hc, List.cons_append] at htake hdrop ⊢
  rw [scanIdentifier_eq hword hdigit, htake, hdrop, ← hc, String.ofList_toList]

theorem spells_word {w : String} (hw : IsIdentifier w) : Lists tokenRecord (word w) fun _ => [.ofWord w] := by
  refine spells_token (f := fun _ => .ofWord w) ?_ fun c cs u r h => ?_
  · obtain ⟨c, cs, hc, -⟩ := hw
    rw [scanWord, hc]
    rfl
  · exact scanToken_of_scanIdentifier (scanIdentifier_of_scanWord hw h)

theorem spells_identifier : Lists tokenRecord identifier fun t => [.ofWord t.2] :=
  spells_token rfl fun _ _ _ _ => scanToken_of_scanIdentifier

theorem spells_string : Lists tokenRecord string fun t => [.string t.2] :=
  spells_token rfl fun _ _ _ _ => scanToken_of_scanString

theorem spells_symbol {c : Char} (hc : c ∈ symbols) : Lists tokenRecord (symbol c) fun _ => [.symbol c] := by
  refine spells_token (f := fun _ => .symbol c) rfl fun d ds u r h => ?_
  obtain ⟨rfl, rfl⟩ := List.cons.inj (scanSymbol_eq_some h)
  exact scanToken_of_mem_symbols hc ds

theorem spells_decimal : Lists tokenRecord decimal fun t => [.real t.2] :=
  spells_token rfl fun _ _ _ _ => scanToken_of_scanReal

theorem spells_boolean : Lists tokenRecord boolean fun t => [.word (booleanText t.2)] := by
  refine spells_token (f := fun b => .word (booleanText b)) rfl fun c cs b r h => ?_
  obtain ⟨w, hw, hs⟩ := exists_scanWord_of_scanBoolean h
  have hspelling : ∀ b, ∀ w ∈ booleanSpellings b, Token.ofWord w = .word (booleanText b) := by decide
  rw [← hspelling b w hw]
  exact scanToken_of_scanIdentifier (scanIdentifier_of_scanWord (isIdentifier_booleanSpellings b w hw) hs)

theorem spells_callKind : Lists tokenRecord callKind fun t => [.ofWord t.2.text] :=
  Leaves.orElse ((spells_word (by decide)).map fun _ => rfl)
    (.orElse ((spells_word (by decide)).map fun _ => rfl) ((spells_word (by decide)).map fun _ => rfl))

/-! ### Expressions -/

section Expressions

variable (src : Source) {p : Parser ExprTree}

theorem tokensAfter_exprs (separator : Char) (es : List ExprTree) :
    Expr.tokensAfter separator (src.exprs es) =
      es.flatMap fun e => [Token.symbol separator] ++ (src.expr e).tokens := by
  rw [Expr.tokensAfter_eq_flatMap, Source.exprs_eq_map, List.flatMap_map]
  rfl

theorem spells_moreArguments (h : Lists tokenRecord p fun e => (src.expr e).tokens) :
    Lists tokenRecord (moreArguments p) fun es => Expr.tokensAfter ',' (src.exprs es) := by
  have hcomma := spells_symbol (c := ',') (by decide)
  refine hcomma.seq fun _ => h.seq fun e => (h.behind hcomma).many.seq fun es => .pure ?_
  show _ = Expr.tokensAfter ',' (src.exprs (e :: es))
  rw [tokensAfter_exprs, List.flatMap_cons, List.append_nil, List.append_assoc]

theorem spells_rosCall (h : Lists tokenRecord p fun e => (src.expr e).tokens) :
    Lists tokenRecord (rosCall p) fun e => (src.expr e).tokens := by
  refine spells_callKind.seq ?_
  rintro ⟨mark, kind⟩
  refine (spells_symbol (by decide)).seq fun _ => spells_string.seq ?_
  rintro ⟨mark', topic⟩
  refine (spells_moreArguments src h).optional.seq fun o => (spells_symbol (by decide)).seq fun _ => .pure ?_
  cases o <;> simp [Source.expr, Source.exprs, Expr.tokens, Expr.tokensAfter]

theorem spells_call (h : Lists tokenRecord p fun e => (src.expr e).tokens) :
    Lists tokenRecord (call p) fun e => (src.expr e).tokens := by
  refine spells_identifier.seq ?_
  rintro ⟨mark, name⟩
  refine (spells_symbol (by decide)).seq fun _ => (h.sepBy_drop (spells_symbol (by decide))).seq fun args => ?_
  refine (spells_symbol (by decide)).seq fun _ => .pure ?_
  show _ = (Expr.call name (src.exprs args) none (src.position mark)).tokens
  rw [List.length_singleton, ← tokensAfter_exprs, Expr.tokens]
  simp

theorem spells_literal : Lists tokenRecord literal fun e => (src.expr e).tokens := by
  refine Leaves.orElse (spells_string.map fun _ => rfl) fun s e r he => ?_
  rcases run_orElse_eq_some he with he | ⟨hr, he⟩
  · exact spells_decimal.map (g := fun e => (src.expr e).tokens) (fun _ => rfl) s e r he
  rcases run_orElse_eq_some he with he | ⟨-, he⟩
  · obtain ⟨⟨mark, n⟩, hn, rfl⟩ := run_map_eq_some he
    obtain ⟨-, hscan⟩ := run_token_eq_some hn
    rw [run_map, Option.map_eq_none_iff, decimal, run_token, Option.map_eq_none_iff] at hr
    refine ⟨[.integer n.value], ?_, rfl⟩
    show tokensIn s = _
    rw [tokensIn_eq]
    cases hs : skip s with
    | nil => rw [hs] at hscan; cases hscan
    | cons c cs =>
        rw [hs] at hscan hr
        simp only [scanToken_of_scanInteger hr hscan]
        rfl
  · exact spells_boolean.map (g := fun e => (src.expr e).tokens) (fun _ => rfl) s e r he

theorem spells_exprWithin (d : Nat) : Lists tokenRecord (exprWithin d) fun e => (src.expr e).tokens := by
  induction d with
  | zero =>
      intro s e r he
      cases he
  | succ d ih =>
      exact Leaves.orElse (spells_rosCall src ih) (.orElse (spells_call src ih)
        (.orElse (spells_literal src) (spells_identifier.map fun _ => rfl)))

theorem spells_expr : Lists tokenRecord expr fun e => (src.expr e).tokens := by
  intro s e r he
  rw [run_expr] at he
  exact spells_exprWithin src _ s e r he

end Expressions

/-! ### Declarations -/

section Declarations

variable (src : Source)

theorem spells_parameter : Lists tokenRecord parameter ParameterTree.tokens := by
  refine spells_identifier.seq ?_
  rintro ⟨mark, name⟩
  refine (spells_symbol (by decide)).seq fun _ => spells_identifier.seq ?_
  rintro ⟨typeMark, typeName⟩
  exact .pure rfl

theorem spells_parameters : Lists tokenRecord parameters parameterTokens := by
  refine (spells_symbol (by decide)).seq fun _ =>
    (spells_parameter.sepBy_drop (spells_symbol (by decide))).seq fun ps => ?_
  exact (spells_symbol (by decide)).seq fun _ => .pure (by simp [parameterTokens])

theorem spells_body :
    Leaves tokenRecord body fun es ts => ∃ semicolon, ts = bodyTokens semicolon (src.exprs es) := by
  refine (spells_symbol (by decide)).seq fun _ =>
    ((spells_expr src).sepBy_drop (spells_symbol (by decide))).seq fun es => ?_
  refine (spells_symbol (by decide)).optional.seq fun o => (spells_symbol (by decide)).seq fun _ => .pure ?_
  rw [List.length_singleton, ← tokensAfter_exprs]
  cases o with
  | none => exact ⟨false, by simp [bodyTokens]⟩
  | some x => exact ⟨true, by simp [bodyTokens]⟩

theorem spells_declaration :
    Leaves tokenRecord declaration fun d ts => ∃ semicolon, ts = d.tokens src semicolon := by
  have hinclude : Leaves tokenRecord includeDeclaration fun d ts => ∃ semicolon, ts = d.tokens src semicolon := by
    refine (spells_word (by decide)).seq fun _ => spells_string.seq ?_
    rintro ⟨mark, file⟩
    exact .pure ⟨false, rfl⟩
  have hrobot : Leaves tokenRecord robotDeclaration fun d ts => ∃ semicolon, ts = d.tokens src semicolon := by
    refine (spells_word (by decide)).heading spells_identifier (fun _ _ => rfl) fun _ _ name => ?_
    exact .pure ⟨false, rfl⟩
  have htype : Leaves tokenRecord typeDeclaration fun d ts => ∃ semicolon, ts = d.tokens src semicolon := by
    refine (spells_word (by decide)).heading spells_identifier (fun _ _ => rfl) fun _ _ name => ?_
    exact .pure ⟨false, rfl⟩
  have hfunction : Leaves tokenRecord functionDeclaration fun d ts => ∃ semicolon, ts = d.tokens src semicolon := by
    refine (spells_word (by decide)).heading spells_identifier (fun _ _ => rfl) fun _ _ name => ?_
    refine spells_parameters.seq fun ps => (spells_body src).bind ?_
    rintro es ts ⟨semicolon, rfl⟩
    exact .pure ⟨semicolon, by simp [Declaration.tokens]; decide⟩
  have hmethod : Leaves tokenRecord methodDeclaration fun d ts => ∃ semicolon, ts = d.tokens src semicolon := by
    refine (spells_word (by decide)).heading spells_identifier (fun _ _ => rfl) fun _ _ name => ?_
    exact spells_parameters.seq fun ps => .pure ⟨false, by simp [Declaration.tokens]; decide⟩
  exact hinclude.orElse (hrobot.orElse (htype.orElse (hfunction.orElse hmethod)))

/-- The tokens of a program that the grammar accepts are those of its declarations. -/
theorem tokensIn_of_run_program {ds : List Declaration} (h : program.run s = some (ds, r)) :
    ∃ rows, List.Forall₂ (fun d ts => ∃ semicolon, ts = d.tokens src semicolon) ds rows ∧
      tokensIn s = rows.flatten := by
  obtain ⟨t, hds, ht⟩ := run_finish_eq_some h
  have hend : tokensIn t = [] := by rw [tokensIn_eq, ht]
  obtain ⟨ts, hts, rows, hrows, rfl⟩ := (spells_declaration src).many s _ _ hds
  exact ⟨rows, hrows, (hts : _ = _ ++ tokensIn t).trans (by rw [hend, List.append_nil])⟩

end Declarations

end Grammar

end RobotLang
