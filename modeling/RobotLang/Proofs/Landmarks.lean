import RobotLang.Proofs.Answers
import RobotLang.Source

namespace RobotLang

open Grammar Number

def BeginsWith (w : String) (s : List Char) : Prop := ∃ rest, s = w.toList ++ rest ∧ wordEnds rest = true

def Heads (keyword name : String) (s : List Char) : Prop :=
  ∃ g rest, s = keyword.toList ++ (g ++ rest) ∧ wordEnds (g ++ rest) = true ∧ Gap g ∧ BeginsWith name rest

def Literal.Begins : Literal → List Char → Prop
  | string v, s => ∃ r, scanString s = some (v, r)
  | boolean b, s => ∃ r, scanBoolean s = some (b, r)
  | integer n, s => ∃ k r, scanInteger s = some (k, r) ∧ k.value = n
  | real x, s => ∃ r, scanReal s = some (x, r)

namespace Grammar

open RobotLang.Grammar.Parser

variable {α β : Type} {s t r : List Char}

/-- A mark, and what stands at the place to which it leads. -/
structure Pin where
  mark : Nat
  here : List Char → Prop

/-- The pins stand in a text in their order, up to a rest. -/
inductive Trail : List Char → List Pin → List Char → Prop
  | stop {s r : List Char} (h : r <:+ s) : Trail s [] r
  | pin {s t u r : List Char} {x : Pin} {pins : List Pin} (hs : t <:+ s) (hm : x.mark = t.length)
      (hh : x.here t) (ht : Takes t u) (h : Trail u pins r) : Trail s (x :: pins) r

namespace Trail

variable {pins more : List Pin}

theorem of_suffix (h : Trail t pins r) (hs : t <:+ s) : Trail s pins r := by
  cases h with
  | stop h => exact .stop (h.trans hs)
  | pin ht hm hh hu h => exact .pin (ht.trans hs) hm hh hu h

theorem trans (h : Trail s pins t) (h' : Trail t more r) : Trail s (pins ++ more) r := by
  induction h with
  | stop h => exact h'.of_suffix h
  | pin hs hm hh ht _ ih => exact .pin hs hm hh ht (ih h')

theorem suffix (h : Trail s pins r) : r <:+ s := by
  induction h with
  | stop h => exact h
  | pin hs _ _ ht _ ih => exact ih.trans (ht.1.trans hs)

end Trail

def trail : Record Pin := ⟨Trail, fun _ => .stop List.suffix_rfl, Trail.trans⟩

/-- Every answer comes with pins that stand in the text that the parser has taken. -/
abbrev Tracks (p : Parser α) (Q : α → List Pin → Prop) : Prop := Leaves trail p Q

abbrev Marks (p : Parser α) (f : α → List Pin) : Prop := Lists trail p f

theorem Parser.Lists.drop {p : Parser α} {f : α → List Pin} (h : Lists trail p f) : Marks p fun _ => [] := by
  intro s a r ha
  obtain ⟨pins, hpins, -⟩ := h s a r ha
  exact ⟨[], .stop hpins.suffix, rfl⟩

theorem marks_token {terminal : Terminal} {scan : List Char → Option (α × List Char)}
    {H : α → List Char → Prop} (h : ∀ s a r, scan s = some (a, r) → Takes s r ∧ H a s) :
    Marks (token terminal scan) fun t => [⟨t.1, H t.2⟩] := by
  rintro s ⟨mark, a⟩ r ht
  obtain ⟨rfl, ha⟩ := run_token_eq_some ht
  obtain ⟨htakes, hhere⟩ := h (skip s) a r ha
  exact ⟨_, .pin (skip_suffix s) rfl hhere htakes (.stop List.suffix_rfl), rfl⟩

theorem marks_word {w : String} (hw : w.toList ≠ []) : Marks (word w) fun t => [⟨t.1, BeginsWith w⟩] :=
  marks_token (H := fun _ => BeginsWith w) fun _ _ r h => ⟨scanWord_takes hw h, r, scanWord_eq_some h⟩

theorem marks_symbol (c : Char) : Marks (symbol c) fun _ => [] :=
  (marks_token (H := fun _ _ => True) fun _ _ _ h => ⟨scanSymbol_takes h, trivial⟩).drop

theorem beginsWith_of_scanIdentifier {w : String} (h : scanIdentifier s = some (w, r)) : BeginsWith w s := by
  obtain ⟨-, hw, rfl⟩ := scanIdentifier_eq_some h
  exact ⟨_, by rw [← hw, List.takeWhile_append_dropWhile], wordEnds_dropWhile s⟩

theorem marks_identifier : Marks identifier fun t => [⟨t.1, BeginsWith t.2⟩] :=
  marks_token (H := BeginsWith) fun _ _ _ h => ⟨scanIdentifier_takes h, beginsWith_of_scanIdentifier h⟩

theorem marks_string : Marks string fun t => [⟨t.1, (Literal.string t.2).Begins⟩] :=
  marks_token (H := fun v => (Literal.string v).Begins) fun _ _ r h => ⟨scanString_takes h, r, h⟩

theorem marks_decimal : Marks decimal fun t => [⟨t.1, (Literal.real t.2).Begins⟩] :=
  marks_token (H := fun x => (Literal.real x).Begins) fun _ _ r h => ⟨scanReal_takes h, r, h⟩

theorem marks_integer : Marks integer fun t => [⟨t.1, (Literal.integer t.2.value).Begins⟩] :=
  marks_token (H := fun n : Numeral => (Literal.integer n.value).Begins) fun _ n r h =>
    ⟨scanInteger_takes h, n, r, h, rfl⟩

theorem marks_boolean : Marks boolean fun t => [⟨t.1, (Literal.boolean t.2).Begins⟩] :=
  marks_token (H := fun b => (Literal.boolean b).Begins) fun _ _ r h => ⟨scanBoolean_takes h, r, h⟩

theorem marks_finish : Marks finish fun _ => [] := by
  rintro s ⟨mark, u⟩ r ht
  obtain ⟨-, hu⟩ := run_token_eq_some ht
  refine ⟨[], .stop ?_, rfl⟩
  cases hs : skip s with
  | nil =>
      rw [hs] at hu
      obtain ⟨-, rfl⟩ := Prod.mk.inj (Option.some.inj hu)
      exact List.nil_suffix
  | cons c cs =>
      rw [hs] at hu
      cases hu

theorem marks_callKind : Marks callKind fun t => [⟨t.1, BeginsWith t.2.text⟩] :=
  Leaves.orElse ((marks_word (by decide)).map fun _ => rfl)
    (.orElse ((marks_word (by decide)).map fun _ => rfl) ((marks_word (by decide)).map fun _ => rfl))

mutual

/-- The pins of an expression, those of a call before those of its arguments. -/
def ExprTree.pins : ExprTree → List Pin
  | .ros mark kind _ args => ⟨mark, BeginsWith kind.text⟩ :: pinsOf args
  | .call mark n args => ⟨mark, BeginsWith n⟩ :: pinsOf args
  | .literal mark value => [⟨mark, (Source.literal value).Begins⟩]
  | .name mark n => [⟨mark, BeginsWith n⟩]

def ExprTree.pinsOf : List ExprTree → List Pin
  | [] => []
  | e :: es => ExprTree.pins e ++ ExprTree.pinsOf es

end

theorem ExprTree.pinsOf_eq_flatMap (es : List ExprTree) : pinsOf es = es.flatMap pins := by
  induction es with
  | nil => rfl
  | cons e es ih => rw [pinsOf, ih, List.flatMap_cons]

section Expressions

variable {p : Parser ExprTree}

theorem marks_moreArguments (h : Marks p ExprTree.pins) : Marks (moreArguments p) ExprTree.pinsOf := by
  simp only [funext ExprTree.pinsOf_eq_flatMap]
  exact (marks_symbol ',').seq fun _ => h.sepBy1 (marks_symbol ',')

theorem marks_rosCall (h : Marks p ExprTree.pins) : Marks (rosCall p) ExprTree.pins := by
  refine marks_callKind.seq ?_
  rintro ⟨mark, kind⟩
  refine (marks_symbol '(').seq fun _ => marks_string.drop.seq ?_
  rintro ⟨mark', topic⟩
  refine (marks_moreArguments h).optional.seq fun o => (marks_symbol ')').seq fun _ => .pure ?_
  cases o with
  | none => rfl
  | some es => simp [ExprTree.pins]

theorem marks_call (h : Marks p ExprTree.pins) : Marks (call p) ExprTree.pins := by
  refine marks_identifier.seq ?_
  rintro ⟨mark, name⟩
  refine (marks_symbol '(').seq fun _ => (h.sepBy (marks_symbol ',')).seq fun args => ?_
  refine (marks_symbol ')').seq fun _ => .pure ?_
  simp [ExprTree.pins, ExprTree.pinsOf_eq_flatMap]

theorem marks_literal : Marks literal ExprTree.pins :=
  Leaves.orElse (marks_string.map fun _ => rfl)
    (.orElse (marks_decimal.map fun _ => rfl)
      (.orElse (marks_integer.map fun _ => rfl) (marks_boolean.map fun _ => rfl)))

theorem marks_exprWithin (d : Nat) : Marks (exprWithin d) ExprTree.pins := by
  induction d with
  | zero =>
      intro s e r he
      cases he
  | succ d ih =>
      exact Leaves.orElse (marks_rosCall ih) (.orElse (marks_call ih)
        (.orElse marks_literal (marks_identifier.map fun _ => rfl)))

theorem marks_expr : Marks expr ExprTree.pins := by
  intro s e r he
  rw [run_expr] at he
  exact marks_exprWithin _ s e r he

end Expressions

def ParameterTree.pins (p : ParameterTree) : List Pin :=
  [⟨p.mark, BeginsWith p.name⟩, ⟨p.typeMark, BeginsWith p.typeName⟩]

def Declaration.pins : Declaration → List Pin
  | includes _ => []
  | robot mark name => [⟨mark, Heads "robot" name⟩]
  | type mark name => [⟨mark, Heads "type" name⟩]
  | function mark name ps body =>
    ⟨mark, Heads "fn" name⟩ :: (ps.flatMap ParameterTree.pins ++ ExprTree.pinsOf body)
  | method mark name ps => ⟨mark, Heads "method" name⟩ :: ps.flatMap ParameterTree.pins

theorem tracks_heading {w : String} (hw : w.toList ≠ []) {f : Nat × Unit → Parser α}
    {Q : α → List Pin → Prop}
    (h : ∀ mark u, ∃ g : Nat × String → Parser α, f (mark, u) = identifier >>= g ∧
      ∀ mark' name, Tracks (g (mark', name)) fun a more => Q a (⟨mark, Heads w name⟩ :: more)) :
    Tracks (word w >>= f) Q := by
  intro s a r hr
  obtain ⟨⟨mark, u⟩, t, hword, hr⟩ := run_bind_eq_some hr
  obtain ⟨g, hf, hg⟩ := h mark u
  rw [hf] at hr
  obtain ⟨⟨mark', name⟩, t', hname, hr⟩ := run_bind_eq_some hr
  obtain ⟨rfl, hscan⟩ := run_token_eq_some hword
  obtain ⟨-, hscan'⟩ := run_token_eq_some hname
  have htakes := scanIdentifier_takes hscan'
  have hne : skip t ≠ [] := fun hnil => by
    rw [hnil] at hscan'
    cases hscan'
  obtain ⟨gap, ht, hgap⟩ : ∃ gap, t = gap ++ skip t ∧ Gap gap := exists_gap_of_skip hne
  obtain ⟨hs, hends⟩ := scanWord_eq_some hscan
  have hheads : Heads w name (skip s) :=
    ⟨gap, skip t, by rw [← ht, hs], by rw [← ht, hends], hgap, beginsWith_of_scanIdentifier hscan'⟩
  obtain ⟨more, hmore, hQ⟩ := hg mark' name t' a r hr
  refine ⟨_, .pin (skip_suffix s) rfl hheads ?_ hmore, hQ⟩
  exact (scanWord_takes hw hscan).suffix_trans (htakes.1.trans (skip_suffix t))

theorem marks_parameter : Marks parameter ParameterTree.pins := by
  refine marks_identifier.seq ?_
  rintro ⟨mark, name⟩
  refine (marks_symbol ':').seq fun _ => marks_identifier.seq ?_
  rintro ⟨typeMark, typeName⟩
  exact .pure rfl

theorem marks_parameters : Marks parameters fun ps => ps.flatMap ParameterTree.pins := by
  refine (marks_symbol '(').seq fun _ => (marks_parameter.sepBy (marks_symbol ',')).seq fun ps => ?_
  refine (marks_symbol ')').seq fun _ => .pure ?_
  simp

theorem marks_body : Marks body ExprTree.pinsOf := by
  refine (marks_symbol '\x7b').seq fun _ => (marks_expr.sepBy (marks_symbol ';')).seq fun es => ?_
  refine (marks_symbol ';').optional.drop.seq fun _ => (marks_symbol '\x7d').seq fun _ => .pure ?_
  simp [ExprTree.pinsOf_eq_flatMap]

theorem marks_declaration : Marks declaration Declaration.pins := by
  have hinclude : Marks includeDeclaration Declaration.pins := by
    refine (marks_word (by decide)).drop.seq fun _ => marks_string.drop.seq ?_
    rintro ⟨mark, file⟩
    exact .pure rfl
  have hrobot : Marks robotDeclaration Declaration.pins :=
    tracks_heading (by decide) fun mark _ => ⟨_, rfl, fun _ name => .pure rfl⟩
  have htype : Marks typeDeclaration Declaration.pins :=
    tracks_heading (by decide) fun mark _ => ⟨_, rfl, fun _ name => .pure rfl⟩
  have hfunction : Marks functionDeclaration Declaration.pins := by
    refine tracks_heading (by decide) fun mark _ => ⟨_, rfl, fun _ name => ?_⟩
    refine marks_parameters.seq fun ps => marks_body.seq fun es => .pure ?_
    rw [List.append_nil]
    rfl
  have hmethod : Marks methodDeclaration Declaration.pins := by
    refine tracks_heading (by decide) fun mark _ => ⟨_, rfl, fun _ name => ?_⟩
    refine marks_parameters.seq fun ps => .pure ?_
    rw [List.append_nil]
    rfl
  exact Leaves.orElse hinclude (.orElse hrobot (.orElse htype (.orElse hfunction hmethod)))

/-- The marks of a program lead through its text. -/
theorem trail_of_run_program {ds : List Declaration} (h : program.run s = some (ds, r)) :
    Trail s (ds.flatMap Declaration.pins) r := by
  have hds : Marks program fun ds => ds.flatMap Declaration.pins := by
    refine marks_declaration.many.seq fun ds => marks_finish.seq fun _ => .pure ?_
    simp
  obtain ⟨pins, hpins, rfl⟩ := hds s ds r h
  exact hpins

end Grammar

end RobotLang
