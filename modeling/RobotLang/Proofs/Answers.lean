import RobotLang.Proofs.Recovery
import RobotLang.Proofs.Scans

namespace RobotLang.Grammar

open Text Number RobotLang.Grammar.Parser

variable {α : Type} {s r : List Char}

theorem gives_token {terminal : Terminal} {scan : List Char → Option (α × List Char)} {k : Nat}
    {P : α → Prop} (h : ∀ s a r, scan s = some (a, r) → r.length + k ≤ s.length ∧ P a) :
    Gives (token terminal scan) k fun t => P t.2 := by
  rintro s ⟨mark, a⟩ r ht
  obtain ⟨-, ha⟩ := run_token_eq_some ht
  obtain ⟨hlen, hP⟩ := h (skip s) a r ha
  exact ⟨Nat.le_trans hlen (skip_suffix s).length_le, hP⟩

theorem gives_word (w : String) : Gives (word w) 0 fun _ => True := by
  refine gives_token (P := fun _ => True) fun s _ r h => ⟨?_, trivial⟩
  obtain ⟨rfl, -⟩ := scanWord_eq_some h
  exact (List.suffix_append _ _).length_le

theorem gives_symbol (c : Char) : Gives (symbol c) 1 fun _ => True :=
  gives_token (P := fun _ => True) fun _ _ _ h => ⟨(scanSymbol_takes h).2, trivial⟩

theorem scanIdentifier_eq_some {w : String} (h : scanIdentifier s = some (w, r)) :
    IsIdentifier w ∧ s.takeWhile isWordChar = w.toList ∧ s.dropWhile isWordChar = r := by
  cases s with
  | nil => cases h
  | cons c cs =>
      simp only [scanIdentifier] at h
      split at h
      next hc =>
        rw [Bool.and_eq_true, Bool.not_eq_true'] at hc
        obtain ⟨rfl, rfl⟩ := Prod.mk.inj (Option.some.inj h)
        refine ⟨⟨c, cs.takeWhile isWordChar, String.toList_ofList, hc.1, hc.2, fun d hd => ?_⟩, ?_, ?_⟩
        · exact List.all_eq_true.1 List.all_takeWhile d hd
        · rw [List.takeWhile_cons, hc.1, String.toList_ofList]
          rfl
        · rw [List.dropWhile_cons, hc.1]
          rfl
      · cases h

theorem gives_identifier : Gives identifier 0 fun t => IsIdentifier t.2 :=
  gives_token fun _ _ _ h => ⟨(scanIdentifier_takes h).1.length_le, (scanIdentifier_eq_some h).1⟩

theorem gives_string : Gives string 0 fun _ => True :=
  gives_token (P := fun _ => True) fun _ _ _ h => ⟨(scanString_takes h).1.length_le, trivial⟩

theorem gives_integer : Gives integer 0 fun t => ∀ d ∈ t.2.digits, d.isDigit = true := by
  refine gives_token (P := fun n : Numeral => ∀ d ∈ n.digits, d.isDigit = true) fun s n r h =>
    ⟨(scanInteger_takes h).1.length_le, fun d hd => ?_⟩
  rw [scanInteger] at h
  split at h
  · cases h
  · obtain ⟨rfl, rfl⟩ := Prod.mk.inj (Option.some.inj h)
    exact List.all_eq_true.1 List.all_takeWhile d hd

theorem gives_decimal : Gives decimal 0 fun _ => True :=
  gives_token (P := fun _ => True) fun _ _ _ h => ⟨(scanReal_takes h).1.length_le, trivial⟩

theorem gives_boolean : Gives boolean 0 fun _ => True :=
  gives_token (P := fun _ => True) fun _ _ _ h => ⟨(scanBoolean_takes h).1.length_le, trivial⟩

theorem gives_finish : Gives finish 0 fun _ => True := by
  refine gives_token (P := fun _ => True) fun s u r h => ?_
  cases s with
  | nil =>
      obtain ⟨-, rfl⟩ := Prod.mk.inj (Option.some.inj h)
      exact ⟨Nat.le_refl _, trivial⟩
  | cons c cs => cases h

theorem run_finish_eq_some {p : Parser α} {a : α}
    (h : (do let a ← p; let _ ← finish; pure a).run s = some (a, r)) : ∃ t, p.run s = some (a, t) ∧ skip t = [] := by
  obtain ⟨b, t, hb, h⟩ := run_bind_eq_some h
  obtain ⟨⟨mark, u⟩, t', hfinish, h⟩ := run_bind_eq_some h
  rw [run_pure, Option.some.injEq, Prod.mk.injEq] at h
  obtain ⟨rfl, -⟩ := h
  obtain ⟨-, hu⟩ := run_token_eq_some hfinish
  refine ⟨t, hb, ?_⟩
  cases hs : skip t with
  | nil => rfl
  | cons c cs =>
      rw [hs] at hu
      cases hu

section Heading

variable {w : String} {f : Nat × Unit → Parser α} {g : Nat → Nat × String → Parser α}

theorem gives_heading (hf : ∀ mark u, f (mark, u) = identifier >>= g mark) {P : α → Prop}
    (h : ∀ mark mark' name, IsIdentifier name → Gives (g mark (mark', name)) 0 P) :
    Gives (word w >>= f) 0 P := by
  refine (gives_word w).seq fun t _ => ?_
  rw [hf t.1 t.2]
  exact gives_identifier.seq fun t' hn => h t.1 t'.1 t'.2 hn

theorem Parser.Lists.heading {γ : Type} {R : Record γ} {xs : List γ} {ys : Nat × String → List γ}
    (hw : Lists R (word w) fun _ => xs) (hn : Lists R identifier ys)
    (hf : ∀ mark u, f (mark, u) = identifier >>= g mark) {Q : α → List γ → Prop}
    (h : ∀ mark mark' name, Leaves R (g mark (mark', name)) fun a zs => Q a (xs ++ (ys (mark', name) ++ zs))) :
    Leaves R (word w >>= f) Q := by
  refine hw.seq fun t => ?_
  rw [hf t.1 t.2]
  exact hn.seq fun t' => h t.1 t'.1 t'.2

end Heading

theorem gives_callKind : Gives callKind 0 fun _ => True :=
  ((gives_word _).map fun _ _ => trivial).orElse
    (((gives_word _).map fun _ _ => trivial).orElse ((gives_word _).map fun _ _ => trivial))

def LiteralTree.IsProper : LiteralTree → Prop
  | integer n => ∀ d ∈ n.digits, d.isDigit = true
  | string _ | real _ | boolean _ => True

section Expressions

variable {p : Parser ExprTree} {P : ExprTree → Prop}

theorem gives_moreArguments (h : Gives p 0 P) : Gives (moreArguments p) 0 fun es => ∀ e ∈ es, P e :=
  (gives_symbol ',').seq fun _ _ => h.sepBy1 (gives_symbol ',')

theorem gives_rosCall (h : Gives p 0 P) :
    Gives (rosCall p) 0 fun e => ∃ mark k topic args, e = .ros mark k topic args ∧ ∀ a ∈ args, P a := by
  refine gives_callKind.seq ?_
  rintro ⟨mark, k⟩ -
  refine (gives_symbol '(').seq fun _ _ => gives_string.seq ?_
  rintro ⟨mark', topic⟩ -
  refine (gives_moreArguments h).optional.seq fun o ho => (gives_symbol ')').seq fun _ _ => .pure ?_
  refine ⟨mark, k, topic, o.getD [], rfl, ?_⟩
  cases o with
  | none => simp
  | some es => exact ho es rfl

theorem gives_call (h : Gives p 0 P) :
    Gives (call p) 0 fun e =>
      ∃ mark name args, e = .call mark name args ∧ IsIdentifier name ∧ ∀ a ∈ args, P a := by
  refine gives_identifier.seq ?_
  rintro ⟨mark, name⟩ hn
  refine (gives_symbol '(').seq fun _ _ => (h.sepBy (gives_symbol ',')).seq fun args ha => ?_
  exact (gives_symbol ')').seq fun _ _ => .pure ⟨mark, name, args, rfl, hn, ha⟩

theorem gives_literal : Gives literal 0 fun e => ∃ mark v, e = .literal mark v ∧ v.IsProper :=
  (gives_string.map fun _ _ => ⟨_, _, rfl, trivial⟩).orElse
    ((gives_decimal.map fun _ _ => ⟨_, _, rfl, trivial⟩).orElse
      ((gives_integer.map fun _ h => ⟨_, _, rfl, h⟩).orElse
        (gives_boolean.map fun _ _ => ⟨_, _, rfl, trivial⟩)))

theorem gives_name : Gives name 0 fun e => ∃ mark n, e = .name mark n ∧ IsIdentifier n :=
  gives_identifier.map fun _ h => ⟨_, _, rfl, h⟩

/-- A parser of expressions answers with a string only where it has read one. -/
def StringsAreRead (p : Parser ExprTree) : Prop :=
  ∀ s mark v r, p.run s = some (.literal mark (.string v), r) → string.run s = some ((mark, v), r)

theorem stringsAreRead_literal : StringsAreRead literal := by
  intro s mark v r h
  rcases run_orElse_eq_some h with h | ⟨-, h⟩
  · obtain ⟨⟨m, w⟩, hw, he⟩ := run_map_eq_some h
    obtain ⟨rfl, hv⟩ := ExprTree.literal.inj he
    obtain rfl := LiteralTree.string.inj hv
    exact hw
  · rcases run_orElse_eq_some h with h | ⟨-, h⟩
    · obtain ⟨x, -, he⟩ := run_map_eq_some h
      cases he
    · rcases run_orElse_eq_some h with h | ⟨-, h⟩
      · obtain ⟨x, -, he⟩ := run_map_eq_some h
        cases he
      · obtain ⟨x, -, he⟩ := run_map_eq_some h
        cases he

theorem stringsAreRead_exprOver (h : Gives p 0 P) : StringsAreRead (exprOver p) := by
  intro s mark v r hs
  rcases run_orElse_eq_some hs with hs | ⟨-, hs⟩
  · obtain ⟨-, _, k, topic, args, he, -⟩ := gives_rosCall h _ _ _ hs
    cases he
  · rcases run_orElse_eq_some hs with hs | ⟨-, hs⟩
    · obtain ⟨-, _, n, args, he, -⟩ := gives_call h _ _ _ hs
      cases he
    · rcases run_orElse_eq_some hs with hs | ⟨-, hs⟩
      · exact stringsAreRead_literal s mark v r hs
      · obtain ⟨-, _, n, he, -⟩ := gives_name _ _ _ hs
        cases he

theorem run_callKind_of_identifier {k : CallKind} {mark : Nat}
    (h : identifier.run s = some ((mark, k.text), r)) : callKind.run s = some ((mark, k), r) := by
  obtain ⟨rfl, hw⟩ := run_token_eq_some h
  obtain ⟨-, htake, rfl⟩ := scanIdentifier_eq_some hw
  have hscan : ∀ l : CallKind, (word l.text).run s =
      if l = k then some (((skip s).length, ()), (skip s).dropWhile isWordChar) else none := by
    intro l
    rw [word, run_token, scanWord_eq (isIdentifier_callKind l).isWordChar, htake]
    by_cases hl : l = k
    · rw [if_pos hl, if_pos (by rw [hl]), Option.map_some]
    · rw [if_neg hl, if_neg fun hc => hl (CallKind.text_injective (String.toList_inj.1 hc)).symm,
        Option.map_none]
  have hpublish := hscan .publish
  have hsubscribe := hscan .subscribe
  have hservice := hscan .service
  simp only [CallKind.text] at hpublish hsubscribe hservice
  rw [callKind, run_orElse, run_orElse, run_map, run_map, run_map, hpublish, hsubscribe, hservice]
  cases k <;> rfl

theorem run_optional_moreArguments (h : Gives p 0 P) {es : List ExprTree}
    (hes : Runs (do let _ ← symbol ','; p) s es r) :
    ∃ o, (Parser.optional (moreArguments p)).run s = some (o, r) ∧ o.getD [] = es := by
  have hstep : Gives (do let _ ← symbol ','; p) 1 P := (gives_symbol ',').bind fun _ _ => h
  cases hes with
  | stop hn =>
      refine ⟨none, run_optional_of_none ?_, rfl⟩
      cases hc : (symbol ',').run s with
      | none => exact run_bind_of_none hc _
      | some x =>
          rw [run_bind_of_some (a := x.1) (r := x.2) hc] at hn
          rw [moreArguments, run_bind_of_some (a := x.1) (r := x.2) hc, sepBy1, run_bind_of_none hn]
  | @step _ t _ e es he hr =>
      obtain ⟨c, t', hc, he⟩ := run_bind_eq_some he
      refine ⟨some (e :: es), run_optional_of_some ?_, rfl⟩
      rw [moreArguments, run_bind_of_some hc]
      exact run_sepBy1_of_runs he hr (Nat.le_of_add_right_le (hstep.length_le_of_runs hr))

/-- A call that is spelled like a ROS call is one. -/
theorem run_rosCall_of_call (h : Gives p 0 P) (hp : StringsAreRead p) {k : CallKind} {mark mark' : Nat}
    {topic : String} {args : List ExprTree}
    (hc : (call p).run s = some (.call mark k.text (.literal mark' (.string topic) :: args), r)) :
    (rosCall p).run s = some (.ros mark k topic args, r) := by
  obtain ⟨⟨m, n⟩, r₁, hn, hc⟩ := run_bind_eq_some hc
  obtain ⟨_, r₂, hopen, hc⟩ := run_bind_eq_some hc
  obtain ⟨es, r₃, hes, hc⟩ := run_bind_eq_some hc
  obtain ⟨_, r₄, hclose, hc⟩ := run_bind_eq_some hc
  rw [run_pure, Option.some.injEq, Prod.mk.injEq] at hc
  obtain ⟨he, rfl⟩ := hc
  obtain ⟨rfl, rfl, rfl⟩ := ExprTree.call.inj he
  obtain ⟨t, ht, hruns⟩ := ((gives_symbol ',').bind fun _ _ => h).runs_of_run_sepBy hes
  obtain ⟨o, ho, hargs⟩ := run_optional_moreArguments h hruns
  rw [rosCall, run_bind_of_some (run_callKind_of_identifier hn)]
  dsimp only
  rw [run_bind_of_some hopen, run_bind_of_some (hp _ _ _ _ ht)]
  dsimp only
  rw [run_bind_of_some ho, run_bind_of_some hclose, run_pure, hargs]

theorem not_mem_booleanWords {mark : Nat} {n : String} (hb : boolean.run s = none)
    (hn : identifier.run s = some ((mark, n), r)) : n ∉ booleanWords := by
  intro hmem
  obtain ⟨-, hw⟩ := run_token_eq_some hn
  obtain ⟨hid, htake, -⟩ := scanIdentifier_eq_some hw
  have hscan : scanWord n (skip s) = some ((), (skip s).dropWhile isWordChar) := by
    rw [scanWord_eq hid.isWordChar, if_pos htake]
  have hnone : ∀ v ∈ booleanWords, scanWord v (skip s) = none := by
    rw [boolean, run_token, Option.map_eq_none_iff] at hb
    simp only [scanBoolean, Option.orElse_eq_or, Option.or_eq_none_iff, Option.map_eq_none_iff] at hb
    simpa [booleanWords, and_assoc] using hb
  rw [hnone n hmem] at hscan
  cases hscan

theorem run_boolean_of_run_literal (h : literal.run s = none) : boolean.run s = none := by
  simp only [literal, run_orElse, run_map, Option.orElse_eq_or, Option.or_eq_none_iff,
    Option.map_eq_none_iff] at h
  exact h.2.2.2

theorem gives_exprOver (h : Gives p 0 (ExprTree.ReadableWith LiteralTree.IsProper)) (hp : StringsAreRead p) :
    Gives (exprOver p) 0 (ExprTree.ReadableWith LiteralTree.IsProper) := by
  intro s e r he
  rcases run_orElse_eq_some he with he | ⟨hros, he⟩
  · obtain ⟨hlen, mark, k, topic, args, rfl, hargs⟩ := gives_rosCall h s e r he
    exact ⟨hlen, ExprTree.allReadableWith_iff.2 hargs⟩
  rcases run_orElse_eq_some he with he | ⟨-, he⟩
  · obtain ⟨hlen, mark, n, args, rfl, hn, hargs⟩ := gives_call h s e r he
    refine ⟨hlen, hn, fun k hk => ?_, ExprTree.allReadableWith_iff.2 hargs⟩
    subst hk
    rw [← Bool.not_eq_true]
    intro hstring
    match args, hstring with
    | .literal _ (.string _) :: _, _ =>
        rw [run_rosCall_of_call h hp he] at hros
        cases hros
  rcases run_orElse_eq_some he with he | ⟨hliteral, he⟩
  · obtain ⟨hlen, mark, v, rfl, hv⟩ := gives_literal s e r he
    exact ⟨hlen, hv⟩
  · obtain ⟨hlen, mark, n, rfl, hn⟩ := gives_name s e r he
    obtain ⟨⟨m, n'⟩, ht, hname⟩ := run_map_eq_some he
    obtain ⟨-, rfl⟩ := ExprTree.name.inj hname
    exact ⟨hlen, hn, not_mem_booleanWords (run_boolean_of_run_literal hliteral) ht⟩

theorem gives_exprWithin (d : Nat) :
    Gives (exprWithin d) 0 (ExprTree.ReadableWith LiteralTree.IsProper) ∧ StringsAreRead (exprWithin d) := by
  induction d with
  | zero =>
      refine ⟨fun s e r he => ?_, fun s mark v r he => ?_⟩
      · cases he
      · cases he
  | succ d ih => exact ⟨gives_exprOver ih.1 ih.2, stringsAreRead_exprOver ih.1⟩

theorem gives_expr : Gives expr 0 (ExprTree.ReadableWith LiteralTree.IsProper) := by
  intro s e r he
  rw [run_expr] at he
  exact (gives_exprWithin (s.length + 1)).1 s e r he

end Expressions

def ParameterTree.IsProper (p : ParameterTree) : Prop := IsIdentifier p.name ∧ IsIdentifier p.typeName

/-- All names of a declaration are identifiers and all expressions are readable, but for what real
numbers are written as. -/
def Declaration.IsProper : Declaration → Prop
  | includes _ => True
  | robot _ name | type _ name => IsIdentifier name
  | function _ name ps body =>
    IsIdentifier name ∧ (∀ p ∈ ps, p.IsProper) ∧ ∀ e ∈ body, e.ReadableWith LiteralTree.IsProper
  | method _ name ps => IsIdentifier name ∧ ∀ p ∈ ps, p.IsProper

theorem gives_parameter : Gives parameter 0 ParameterTree.IsProper := by
  refine gives_identifier.seq ?_
  rintro ⟨mark, name⟩ hn
  refine (gives_symbol ':').seq fun _ _ => gives_identifier.seq ?_
  rintro ⟨typeMark, typeName⟩ ht
  exact .pure ⟨hn, ht⟩

theorem gives_parameters : Gives parameters 0 fun ps => ∀ p ∈ ps, p.IsProper :=
  (gives_symbol '(').seq fun _ _ => (gives_parameter.sepBy (gives_symbol ',')).seq fun _ hps =>
    (gives_symbol ')').seq fun _ _ => .pure hps

theorem gives_body : Gives body 0 fun es => ∀ e ∈ es, e.ReadableWith LiteralTree.IsProper :=
  (gives_symbol '\x7b').seq fun _ _ => (gives_expr.sepBy (gives_symbol ';')).seq fun _ hes =>
    (gives_symbol ';').optional.seq fun _ _ => (gives_symbol '\x7d').seq fun _ _ => .pure hes

theorem gives_declaration : Gives declaration 0 Declaration.IsProper := by
  have hinclude : Gives includeDeclaration 0 Declaration.IsProper := by
    refine (gives_word _).seq fun _ _ => gives_string.seq ?_
    rintro ⟨mark, file⟩ -
    exact .pure trivial
  have hrobot : Gives robotDeclaration 0 Declaration.IsProper := by
    refine gives_heading (fun _ _ => rfl) fun _ _ name hn => ?_
    exact .pure hn
  have htype : Gives typeDeclaration 0 Declaration.IsProper := by
    refine gives_heading (fun _ _ => rfl) fun _ _ name hn => ?_
    exact .pure hn
  have hfunction : Gives functionDeclaration 0 Declaration.IsProper := by
    refine gives_heading (fun _ _ => rfl) fun _ _ name hn => ?_
    exact gives_parameters.seq fun ps hps => gives_body.seq fun es hes => .pure ⟨hn, hps, hes⟩
  have hmethod : Gives methodDeclaration 0 Declaration.IsProper := by
    refine gives_heading (fun _ _ => rfl) fun _ _ name hn => ?_
    exact gives_parameters.seq fun ps hps => .pure ⟨hn, hps⟩
  exact hinclude.orElse (hrobot.orElse (htype.orElse (hfunction.orElse hmethod)))

/-- Every declaration of a program that the grammar accepts is proper. -/
theorem isProper_of_run_program {ds : List Declaration} (h : program.run s = some (ds, r)) :
    ∀ d ∈ ds, d.IsProper := by
  have hds : Gives program 0 fun ds => ∀ d ∈ ds, d.IsProper :=
    gives_declaration.many.seq fun _ hds => gives_finish.seq fun _ _ => .pure hds
  exact (hds s ds r h).2

end RobotLang.Grammar
