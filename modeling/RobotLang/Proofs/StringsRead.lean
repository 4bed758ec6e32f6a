import RobotLang.Proofs.Answers
import RobotLang.Proofs.Printing

namespace RobotLang

namespace Grammar

open Text Number RobotLang.Grammar.Parser

variable {α : Type} {s r t : List Char}

/-- The strings in a text, in their order; a quote that nothing closes is passed over. -/
def stringsIn (s : List Char) : List String :=
  match _hs : skip s with
  | [] => []
  | c :: cs =>
    match _hv : scanString (c :: cs) with
    | some (v, r) => v :: stringsIn r
    | none => stringsIn cs
termination_by s.length
decreasing_by
  · have hskip := (skip_suffix s).length_le
    have htakes := (scanString_takes _hv).2
    rw [_hs] at hskip
    omega
  · have hskip := (skip_suffix s).length_le
    rw [_hs, List.length_cons] at hskip
    omega

theorem stringsIn_eq (s : List Char) :
    stringsIn s =
      match skip s with
      | [] => []
      | c :: cs =>
        match scanString (c :: cs) with
        | some x => x.1 :: stringsIn x.2
        | none => stringsIn cs := by
  rw [stringsIn]
  split
  next hs => rw [hs]
  next c cs hs =>
    rw [hs]
    dsimp only
    split
    next hv => rw [hv]
    next hv => rw [hv]

theorem skip_skip (s : List Char) : skip (skip s) = skip s := by
  have hskip : ∀ comment, skipFrom false (skipFrom comment s) = skipFrom comment s := by
    intro comment
    fun_induction skipFrom comment s with
    | case1 => rfl
    | case2 c cs ih => exact ih
    | case3 cs ih => exact ih
    | case4 c cs hc hg ih => exact ih
    | case5 c cs hc hg => rw [skipFrom, if_neg hg]; exact hc
  exact hskip false

theorem stringsIn_skip (s : List Char) : stringsIn (skip s) = stringsIn s := by
  rw [stringsIn_eq, skip_skip, ← stringsIn_eq]

theorem stringsIn_of_scanString {v : String} (h : scanString s = some (v, r)) : stringsIn s = v :: stringsIn r := by
  obtain ⟨c, cs, rfl, hc⟩ := scanString_head h
  have hskip : skip (c :: cs) = c :: cs := by rcases hc with rfl | rfl <;> exact skip_cons (by decide) (by decide) cs
  simp only [stringsIn_eq (c :: cs), hskip, h]

theorem stringsIn_inert {c : Char} (hc : IsInert c) (s : List Char) : stringsIn (c :: s) = stringsIn s := by
  by_cases hg : isGap c = true
  · rw [← stringsIn_skip, skip_cons_of_isGap hg, stringsIn_skip]
  · have hskip : skip (c :: s) = c :: s := skip_cons (by simpa using hg) hc.2.2 s
    have hscan : scanString (c :: s) = none := by
      rw [scanString, if_neg]
      exact not_or.2 ⟨hc.1, hc.2.1⟩
    simp only [stringsIn_eq (c :: s), hskip, hscan]

def Skims (s r : List Char) : Prop := ∃ cs, s = cs ++ r ∧ ∀ c ∈ cs, IsInert c

theorem Skims.stringsIn_eq (h : Skims s r) : stringsIn s = stringsIn r := by
  obtain ⟨cs, rfl, hcs⟩ := h
  induction cs with
  | nil => rfl
  | cons c cs ih =>
      obtain ⟨hc, hcs⟩ := List.forall_mem_cons.1 hcs
      rw [List.cons_append, stringsIn_inert hc, ih hcs]

theorem isInert_of_isNumberChar (c : Char) (h : IsNumberChar c) : IsInert c := by
  rcases h with h | h
  · refine ⟨?_, ?_, ?_⟩ <;> rintro rfl <;> exact absurd h (by decide)
  · refine ⟨?_, ?_, ?_⟩ <;> rintro rfl <;> exact absurd h (by decide)

theorem skims_of_spans (h : Spans IsNumberChar s r) : Skims s r := h.mono isInert_of_isNumberChar

theorem skims_scanWord {w : String} (hw : IsIdentifier w) {u : Unit} (h : scanWord w s = some (u, r)) : Skims s r :=
  ⟨w.toList, (scanWord_eq_some h).1, fun c hc => isInert_of_isWordChar (hw.isWordChar c hc)⟩

theorem skims_scanBoolean {b : Bool} (h : scanBoolean s = some (b, r)) : Skims s r := by
  obtain ⟨w, hw, hs⟩ := exists_scanWord_of_scanBoolean h
  exact skims_scanWord (isIdentifier_booleanSpellings b w hw) hs

theorem skims_scanIdentifier {w : String} (h : scanIdentifier s = some (w, r)) : Skims s r := by
  obtain ⟨-, -, rfl⟩ := scanIdentifier_eq_some h
  exact Spans.dropWhile (fun c hc => isInert_of_isWordChar hc) s

theorem skims_scanSymbol {c : Char} (hc : c ∈ symbols) {u : Unit} (h : scanSymbol c s = some (u, r)) :
    Skims s r := by
  obtain rfl := scanSymbol_eq_some h
  exact Spans.cons (isInert_of_mem_symbols hc) r

/-- The strings of a text up to a rest of it. -/
def stringRecord : Record String where
  holds s vs r := stringsIn s = vs ++ stringsIn r
  nothing _ := rfl
  trans h h' := by rw [h, h', List.append_assoc]

theorem lists_token {terminal : Terminal} {scan : List Char → Option (α × List Char)} {f : α → List String}
    (h : ∀ s a r, scan s = some (a, r) → stringsIn s = f a ++ stringsIn r) :
    Lists stringRecord (token terminal scan) fun t => f t.2 := by
  rintro s ⟨mark, a⟩ r ht
  obtain ⟨-, ha⟩ := run_token_eq_some ht
  exact ⟨f a, (stringsIn_skip s).symm.trans (h (skip s) a r ha), rfl⟩

theorem lists_inert {terminal : Terminal} {scan : List Char → Option (α × List Char)}
    (h : ∀ s a r, scan s = some (a, r) → Skims s r) : Lists stringRecord (token terminal scan) fun _ => [] :=
  lists_token (f := fun _ => []) fun s a r ha => (h s a r ha).stringsIn_eq

theorem lists_word {w : String} (hw : IsIdentifier w) : Lists stringRecord (word w) fun _ => [] :=
  lists_inert fun _ _ _ => skims_scanWord hw

theorem lists_symbol {c : Char} (hc : c ∈ symbols) : Lists stringRecord (symbol c) fun _ => [] :=
  lists_inert fun _ _ _ => skims_scanSymbol hc

theorem lists_identifier : Lists stringRecord identifier fun _ => [] :=
  lists_inert fun _ _ _ => skims_scanIdentifier

theorem lists_string : Lists stringRecord string fun t => [t.2] :=
  lists_token (f := fun v => [v]) fun _ _ _ => stringsIn_of_scanString

theorem lists_decimal : Lists stringRecord decimal fun _ => [] :=
  lists_inert fun _ _ _ h => skims_of_spans (spans_scanReal h)

theorem lists_integer : Lists stringRecord integer fun _ => [] :=
  lists_inert fun _ _ _ h => skims_of_spans (spans_scanInteger h)

theorem lists_boolean : Lists stringRecord boolean fun _ => [] := lists_inert fun _ _ _ => skims_scanBoolean

theorem lists_callKind : Lists stringRecord callKind fun _ => [] :=
  Leaves.orElse ((lists_word (by decide)).map fun _ => rfl)
    (.orElse ((lists_word (by decide)).map fun _ => rfl) ((lists_word (by decide)).map fun _ => rfl))

section Expressions

variable {p : Parser ExprTree}

theorem lists_moreArguments (h : Lists stringRecord p ExprTree.strings) :
    Lists stringRecord (moreArguments p) fun es => es.flatMap ExprTree.strings :=
  (lists_symbol (by decide)).seq fun _ => h.sepBy1 (lists_symbol (by decide))

theorem lists_rosCall (h : Lists stringRecord p ExprTree.strings) :
    Lists stringRecord (rosCall p) ExprTree.strings := by
  refine lists_callKind.seq ?_
  rintro ⟨mark, kind⟩
  refine (lists_symbol (by decide)).seq fun _ => lists_string.seq ?_
  rintro ⟨mark', topic⟩
  refine (lists_moreArguments h).optional.seq fun o => (lists_symbol (by decide)).seq fun _ => .pure ?_
  cases o <;> simp [ExprTree.strings_ros]

theorem lists_call (h : Lists stringRecord p ExprTree.strings) : Lists stringRecord (call p) ExprTree.strings := by
  refine lists_identifier.seq ?_
  rintro ⟨mark, name⟩
  refine (lists_symbol (by decide)).seq fun _ => (h.sepBy (lists_symbol (by decide))).seq fun args => ?_
  refine (lists_symbol (by decide)).seq fun _ => .pure ?_
  simp [ExprTree.strings_call]

theorem lists_literal : Lists stringRecord literal ExprTree.strings :=
  Leaves.orElse (lists_string.map fun _ => rfl)
    (.orElse (lists_decimal.map fun _ => rfl)
      (.orElse (lists_integer.map fun _ => rfl) (lists_boolean.map fun _ => rfl)))

theorem lists_exprWithin (d : Nat) : Lists stringRecord (exprWithin d) ExprTree.strings := by
  induction d with
  | zero =>
      intro s e r he
      cases he
  | succ d ih =>
      exact Leaves.orElse (lists_rosCall ih) (.orElse (lists_call ih)
        (.orElse lists_literal (lists_identifier.map fun _ => rfl)))

theorem lists_expr : Lists stringRecord expr ExprTree.strings := by
  intro s e r he
  rw [run_expr] at he
  exact lists_exprWithin _ s e r he

end Expressions

theorem lists_parameter : Lists stringRecord parameter fun _ => [] := by
  refine lists_identifier.seq ?_
  rintro ⟨mark, name⟩
  refine (lists_symbol (by decide)).seq fun _ => lists_identifier.seq ?_
  rintro ⟨typeMark, typeName⟩
  exact .pure rfl

theorem lists_parameters : Lists stringRecord parameters fun _ => [] := by
  refine (lists_symbol (by decide)).seq fun _ => (lists_parameter.sepBy (lists_symbol (by decide))).seq fun ps => ?_
  refine (lists_symbol (by decide)).seq fun _ => .pure ?_
  simp

theorem lists_body : Lists stringRecord body fun es => es.flatMap ExprTree.strings := by
  refine (lists_symbol (by decide)).seq fun _ => (lists_expr.sepBy (lists_symbol (by decide))).seq fun es => ?_
  refine (lists_symbol (by decide)).optional.seq fun o => (lists_symbol (by decide)).seq fun _ => .pure ?_
  cases o <;> simp

theorem lists_declaration : Lists stringRecord declaration Declaration.strings := by
  have hinclude : Lists stringRecord includeDeclaration Declaration.strings := by
    refine (lists_word (by decide)).seq fun _ => lists_string.seq ?_
    rintro ⟨mark, file⟩
    exact .pure rfl
  have hrobot : Lists stringRecord robotDeclaration Declaration.strings := by
    refine (lists_word (by decide)).heading lists_identifier (fun _ _ => rfl) fun _ _ name => ?_
    exact .pure rfl
  have htype : Lists stringRecord typeDeclaration Declaration.strings := by
    refine (lists_word (by decide)).heading lists_identifier (fun _ _ => rfl) fun _ _ name => ?_
    exact .pure rfl
  have hfunction : Lists stringRecord functionDeclaration Declaration.strings := by
    refine (lists_word (by decide)).heading lists_identifier (fun _ _ => rfl) fun _ _ name => ?_
    refine lists_parameters.seq fun ps => lists_body.seq fun es => .pure ?_
    simp [Declaration.strings_function]
  have hmethod : Lists stringRecord methodDeclaration Declaration.strings := by
    refine (lists_word (by decide)).heading lists_identifier (fun _ _ => rfl) fun _ _ name => ?_
    refine lists_parameters.seq fun ps => .pure ?_
    simp [Declaration.strings_method]
  exact Leaves.orElse hinclude (.orElse hrobot (.orElse htype (.orElse hfunction hmethod)))

/-- A program has the strings of its text. -/
theorem stringsIn_of_run_program {ds : List Declaration} (h : program.run s = some (ds, r)) :
    stringsIn s = ds.flatMap Declaration.strings := by
  obtain ⟨t, hds, ht⟩ := run_finish_eq_some h
  have hend : stringsIn t = [] := by rw [stringsIn_eq, ht]
  obtain ⟨vs, hvs, rfl⟩ := lists_declaration.many s _ _ hds
  exact (hvs : _ = _ ++ stringsIn t).trans (by rw [hend, List.append_nil])

end Grammar

variable {vs : List String} {s : List Char}

open Grammar

theorem exists_scanString_quotedText (v : String) (s : List Char) :
    ∃ x, scanString ((Literal.quotedText v).toList ++ s) = some x := by
  rw [toList_quotedText, List.cons_append, List.append_assoc, List.singleton_append, scanString, if_pos (.inl rfl)]
  cases hu : untilQuote '"' (escaped v.toList ++ '"' :: s) with
  | some x => exact ⟨_, rfl⟩
  | none =>
      cases hl : untilLastEscape '"' (escaped v.toList ++ '"' :: s) with
      | some x => exact ⟨_, rfl⟩
      | none => exact absurd (List.mem_append_right _ List.mem_cons_self) ((not_mem_of_untilQuote_eq_none hu).1 hl)

/-- Where the strings in a text are those that have been quoted in it, they are all read back. -/
theorem Shows.quotable (h : Shows vs s) (hs : stringsIn s = vs) : Quotable vs := by
  induction h with
  | nil => exact ⟨List.forall_mem_nil _, List.forall_mem_nil _⟩
  | inert hc _ ih => exact ih (stringsIn_inert hc _ ▸ hs)
  | @quoted v vs s h ih =>
      obtain ⟨⟨w, r⟩, hscan⟩ := exists_scanString_quotedText v s
      rw [stringsIn_of_scanString hscan] at hs
      obtain ⟨rfl, hrest⟩ := List.cons.inj hs
      obtain ⟨rfl, hquote, hend⟩ := scanString_quotedText_iff.1 hscan
      refine quotable_cons.2 ⟨⟨hquote, fun he => ?_⟩, ih hrest⟩
      exact Decidable.not_not.1 fun hne => hend he (h.mem_iff.2 hne)

end RobotLang
