import RobotLang.Proofs.QuotedRoundTrip
import RobotLang.Proofs.TokensRead

namespace RobotLang

open Grammar Text Number

/-! ### Tokens of programs -/

def Token.IsOfGrammar : Token → Prop
  | symbol c => c ∈ symbols
  | _ => True

section OfGrammar

variable {c : Char} {ts us : List Token}

def OfGrammar (ts : List Token) : Prop := ∀ t ∈ ts, t.IsOfGrammar

namespace OfGrammar

theorem nil : OfGrammar [] := List.forall_mem_nil _

theorem append (h : OfGrammar ts) (h' : OfGrammar us) : OfGrammar (ts ++ us) := List.forall_mem_append.2 ⟨h, h'⟩

theorem symbol (hc : c ∈ symbols) (h : OfGrammar ts) : OfGrammar (.symbol c :: ts) := List.forall_mem_cons.2 ⟨hc, h⟩

theorem word (w : String) (h : OfGrammar ts) : OfGrammar (.word w :: ts) := List.forall_mem_cons.2 ⟨trivial, h⟩

theorem string (v : String) (h : OfGrammar ts) : OfGrammar (.string v :: ts) :=
  List.forall_mem_cons.2 ⟨trivial, h⟩

theorem drop (h : OfGrammar ts) (n : Nat) : OfGrammar (ts.drop n) := fun t ht => h t (List.mem_of_mem_drop ht)

theorem flatMap {α : Type} {f : α → List Token} {as : List α} (h : ∀ a ∈ as, OfGrammar (f a)) :
    OfGrammar (as.flatMap f) := by
  intro t ht
  obtain ⟨a, ha, ht⟩ := List.mem_flatMap.1 ht
  exact h a ha t ht

end OfGrammar

mutual

theorem ofGrammar_tokens : ∀ e : Expr, OfGrammar e.tokens
  | .literal (.string _) _ | .literal (.boolean _) _ | .literal (.integer _) _ | .literal (.real _) _ =>
      List.forall_mem_singleton.2 trivial
  | .reference _ _ _ => .word _ .nil
  | .abstract => .nil
  | .call _ args _ _ =>
      .word _ (.symbol (by decide) (.append (.drop (ofGrammar_tokensAfter (by decide) args) 1)
        (.symbol (by decide) .nil)))
  | .ros _ _ args _ =>
      .word _ (.symbol (by decide) (.string _ (.append (ofGrammar_tokensAfter (by decide) args)
        (.symbol (by decide) .nil))))

theorem ofGrammar_tokensAfter {separator : Char} (hs : separator ∈ symbols) :
    ∀ es : List Expr, OfGrammar (Expr.tokensAfter separator es)
  | [] => .nil
  | e :: es => .symbol hs (.append (ofGrammar_tokens e) (ofGrammar_tokensAfter hs es))

end

theorem ofGrammar_parameterTokens (ps : List ParameterTree) : OfGrammar (parameterTokens ps) := by
  have hps : OfGrammar (ps.flatMap fun p => .symbol ',' :: p.tokens) := .flatMap fun p _ =>
    .symbol (by decide) (.word _ (.symbol (by decide) (.word _ .nil)))
  exact .symbol (by decide) (.append (.drop hps 1) (.symbol (by decide) .nil))

theorem ofGrammar_bodyTokens (semicolon : Bool) (es : List Expr) : OfGrammar (bodyTokens semicolon es) := by
  have hend : OfGrammar (if semicolon then [.symbol ';'] else []) := by
    cases semicolon
    · exact .nil
    · exact .symbol (by decide) .nil
  exact .symbol (by decide) (.append (.drop (ofGrammar_tokensAfter (by decide) es) 1)
    (.append hend (.symbol (by decide) .nil)))

theorem ofGrammar_declaration (s : Source) (semicolon : Bool) (d : Declaration) :
    OfGrammar (d.tokens s semicolon) := by
  cases d with
  | includes file => exact .word _ (.string _ .nil)
  | robot mark name => exact .word _ (.word _ .nil)
  | type mark name => exact .word _ (.word _ .nil)
  | function mark name ps body =>
      exact .word _ (.word _ (.append (ofGrammar_parameterTokens ps) (ofGrammar_bodyTokens semicolon _)))
  | method mark name ps => exact .word _ (.word _ (ofGrammar_parameterTokens ps))

theorem ofGrammar_of_run_program {s r : List Char} {ds : List Declaration} (h : program.run s = some (ds, r)) :
    OfGrammar (tokensIn s) := by
  obtain ⟨rows, hrows, htokens⟩ := tokensIn_of_run_program Source.nowhere h
  rw [htokens]
  clear h htokens
  induction hrows with
  | nil => exact .nil
  | cons hts _ ih =>
      obtain ⟨semicolon, rfl⟩ := hts
      exact .append (ofGrammar_declaration _ semicolon _) ih

end OfGrammar

/-! ### Marks -/

/-- A text of quoted strings without backslashes and of inert characters. -/
def Shown (t : List Char) : Prop := ∃ vs, Shows vs t ∧ ∀ v ∈ vs, '\\' ∉ v.toList

/-- A text with a question mark behind such a text. -/
def Marked (t : List Char) : Prop := ∃ a b, t = a ++ '?' :: b ∧ Shown a

section Marks

variable {α : Type} {c : Char} {cs s t u a b r : List Char}

theorem Shows.append {vs ws : List String} (h : Shows vs s) (h' : Shows ws t) : Shows (vs ++ ws) (s ++ t) := by
  induction h with
  | nil => exact h'
  | inert hc _ ih => exact .inert hc ih
  | quoted v _ ih =>
      rw [List.append_assoc]
      exact .quoted v ih

namespace Shown

theorem nil : Shown [] := ⟨[], .nil, List.forall_mem_nil _⟩

theorem append (h : Shown s) (h' : Shown t) : Shown (s ++ t) := by
  obtain ⟨vs, hvs, hv⟩ := h
  obtain ⟨ws, hws, hw⟩ := h'
  exact ⟨vs ++ ws, hvs.append hws, List.forall_mem_append.2 ⟨hv, hw⟩⟩

theorem of_inert (h : ∀ c ∈ cs, IsInert c) : Shown cs := by
  refine ⟨[], ?_, List.forall_mem_nil _⟩
  have hs := Shows.nil.append_inert h
  rwa [List.append_nil] at hs

theorem of_all (h : cs.all (fun c => decide (IsInert c)) = true) : Shown cs :=
  of_inert fun c hc => of_decide_eq_true (List.all_eq_true.1 h c hc)

theorem word {w : String} (hw : IsIdentifier w) : Shown w.toList :=
  of_inert fun c hc => isInert_of_isWordChar (hw.isWordChar c hc)

theorem flatMap {f : α → List Char} {as : List α} (h : ∀ x ∈ as, Shown (f x)) : Shown (as.flatMap f) := by
  induction as with
  | nil => exact nil
  | cons x as ih =>
      obtain ⟨hx, has⟩ := List.forall_mem_cons.1 h
      exact hx.append (ih has)

theorem of_spelled {xs : List Lexeme} {w : String} (h : Spelled xs w)
    (hv : ∀ v ∈ Lexeme.strings xs, '\\' ∉ v.toList) : Shown w.toList := by
  have hs := (h [] [] ⟨.nil, fun _ => .nil (.gap .nil)⟩ rfl).shown
  rw [List.append_nil, List.append_nil] at hs
  exact ⟨_, hs, hv⟩

theorem of_spans {P : Char → Prop} (hP : ∀ c, P c → IsInert c ∧ c ≠ '?') (h : Shown a)
    (hr : Spans P (a ++ '?' :: b) r) : ∃ a', r = a' ++ '?' :: b ∧ Shown a' := by
  obtain ⟨cs, hcs, hall⟩ := hr
  induction cs generalizing a with
  | nil => exact ⟨a, hcs.symm, h⟩
  | cons c cs ih =>
      obtain ⟨hc, hcs'⟩ := List.forall_mem_cons.1 hall
      obtain ⟨hinert, hmark⟩ := hP c hc
      obtain ⟨vs, hvs, hv⟩ := h
      cases hvs with
      | nil => exact absurd (List.cons.inj hcs).1.symm hmark
      | @inert d _ s hd hs =>
          obtain ⟨-, hrest⟩ := List.cons.inj hcs
          exact ih ⟨vs, hs, hv⟩ hrest hcs'
      | quoted v hs =>
          rw [toList_quotedText] at hcs
          exact absurd (List.cons.inj hcs).1.symm hinert.1

end Shown

namespace Marked

theorem append (h : Marked s) (t : List Char) : Marked (s ++ t) := by
  obtain ⟨a, b, rfl, ha⟩ := h
  exact ⟨a, b ++ t, by rw [List.append_assoc, List.cons_append], ha⟩

theorem of_shown (h : Shown s) (h' : Marked t) : Marked (s ++ t) := by
  obtain ⟨a, b, rfl, ha⟩ := h'
  exact ⟨s ++ a, b, (List.append_assoc ..).symm, h.append ha⟩

/-- Where every part is shown or marked, what is before the first marked one is shown. -/
theorem flatMap {f : α → List Char} {as : List α} (h : ∀ x ∈ as, Shown (f x) ∨ Marked (f x))
    (hm : ∃ x ∈ as, Marked (f x)) : Marked (as.flatMap f) := by
  induction as with
  | nil =>
      obtain ⟨x, hx, -⟩ := hm
      cases hx
  | cons x as ih =>
      obtain ⟨hx, has⟩ := List.forall_mem_cons.1 h
      by_cases hmark : Marked (f x)
      · exact hmark.append _
      · obtain ⟨y, hy, hmarked⟩ := hm
        refine of_shown (hx.resolve_right hmark) (ih has ⟨y, ?_, hmarked⟩)
        exact (List.mem_cons.1 hy).resolve_left fun he => hmark (he ▸ hmarked)

end Marked

theorem isInert_and_ne_of_isWordChar (c : Char) (h : isWordChar c = true) : IsInert c ∧ c ≠ '?' := by
  refine ⟨isInert_of_isWordChar h, ?_⟩
  rintro rfl
  exact absurd h (by decide)

theorem isInert_and_ne_of_isNumberChar (c : Char) (h : IsNumberChar c) : IsInert c ∧ c ≠ '?' := by
  refine ⟨isInert_of_isNumberChar c h, ?_⟩
  rintro rfl
  rcases h with h | h <;> exact absurd h (by decide)

theorem tokensIn_gap (hc : isGap c = true) (s : List Char) : tokensIn (c :: s) = tokensIn s := by
  rw [tokensIn_eq, skip_cons_of_isGap hc, ← tokensIn_eq]

theorem tokensIn_cons (hg : isGap c = false) (hc : c ≠ '/') (s : List Char) :
    tokensIn (c :: s) = (scanToken c s).1 :: tokensIn (scanToken c s).2 := by
  rw [tokensIn_eq, skip_cons hg hc]

theorem tokensIn_quotedText {v : String} (hv : '\\' ∉ v.toList) (s : List Char) :
    tokensIn ((Literal.quotedText v).toList ++ s) = .string v :: tokensIn s := by
  have hscan : scanString ((Literal.quotedText v).toList ++ s) = some (v, s) := by
    refine scanString_quotedText_iff.2 ⟨rfl, fun he => ?_, fun he => ?_⟩
    · exact hv (he.subset List.mem_cons_self)
    · exact absurd (List.mem_of_getLast? he) hv
  rw [toList_quotedText, List.cons_append] at hscan ⊢
  rw [tokensIn_cons (by decide) (by decide), scanToken_of_scanString hscan]

/-- A token that begins with an inert character leaves the mark where it is. -/
theorem exists_rest_of_scanToken (hc : IsInert c) (ha : Shown a) :
    ∃ a', (scanToken c (a ++ '?' :: b)).2 = a' ++ '?' :: b ∧ Shown a' := by
  have hall : Shown (c :: a) := (Shown.of_inert (List.forall_mem_singleton.2 hc)).append ha
  generalize hx : scanToken c (a ++ '?' :: b) = x
  have hread := tokenRead_scanToken c (a ++ '?' :: b)
  rw [hx] at hread
  cases hread with
  | word h =>
      obtain ⟨-, -, rfl⟩ := scanIdentifier_eq_some h
      exact hall.of_spans isInert_and_ne_of_isWordChar (.dropWhile (fun _ => id) _)
  | string h =>
      obtain ⟨d, ds, he, hquote⟩ := scanString_head h
      obtain ⟨rfl, -⟩ := List.cons.inj he
      rcases hquote with rfl | rfl
      · exact absurd rfl hc.1
      · exact absurd rfl hc.2.1
  | real h => exact hall.of_spans isInert_and_ne_of_isNumberChar (spans_scanReal h)
  | integer h => exact hall.of_spans isInert_and_ne_of_isNumberChar (spans_scanInteger h)
  | symbol h =>
      obtain ⟨rfl, rfl⟩ := List.cons.inj h
      exact ⟨a, rfl, ha⟩

/-- A mark is read as a token: the tokens before it end where it stands. -/
theorem Marked.mem_tokensIn (h : Marked t) : .symbol '?' ∈ tokensIn t := by
  obtain ⟨a, b, rfl, ha⟩ := h
  -- A token takes several characters at once, so that the induction is on the length of what is left.
  induction hn : a.length using Nat.strongRecOn generalizing a with
  | ind n ih =>
      subst hn
      obtain ⟨vs, hvs, hv⟩ := id ha
      cases hvs with
      | nil =>
          rw [List.nil_append, tokensIn_cons (by decide) (by decide),
            scanToken_of_symbol (by decide) (by decide) (by decide)]
          exact List.mem_cons_self
      | @inert c _ s hc hs =>
          rw [List.cons_append]
          by_cases hg : isGap c = true
          · rw [tokensIn_gap hg]
            exact ih s.length (by simp) s ⟨vs, hs, hv⟩ rfl
          · obtain ⟨a', ha', hshown⟩ := exists_rest_of_scanToken (b := b) hc ⟨vs, hs, hv⟩
            have htakes := (scanToken_takes c (s ++ '?' :: b)).2
            rw [tokensIn_cons (by simpa using hg) hc.2.2]
            rw [ha'] at htakes ⊢
            simp only [List.length_append, List.length_cons] at htakes
            exact List.mem_cons_of_mem _ (ih a'.length (by simp; omega) a' hshown rfl)
      | @quoted v vs s hs =>
          obtain ⟨hbackslash, hrest⟩ := List.forall_mem_cons.1 hv
          have hlength : s.length < ((Literal.quotedText v).toList ++ s).length := by
            simp [toList_quotedText]; omega
          rw [List.append_assoc, tokensIn_quotedText hbackslash]
          exact List.mem_cons_of_mem _ (ih s.length hlength s ⟨vs, hs, hrest⟩ rfl)

theorem Marked.run_program (h : Marked t) : program.run t = none := by
  cases hr : program.run t with
  | none => rfl
  | some x =>
      obtain ⟨ds, r⟩ := x
      have hmark : '?' ∈ symbols := ofGrammar_of_run_program hr _ h.mem_tokensIn
      exact absurd hmark (by decide)

end Marks

/-! ### Models -/

namespace Model

variable {m : Model}

theorem shown_joined {ts : List String} (h : ∀ t ∈ ts, Shown t.toList) : Shown (joined ", " ts).toList := by
  cases ts with
  | nil => exact .nil
  | cons t ts =>
      obtain ⟨ht, hts⟩ := List.forall_mem_cons.1 h
      rw [toList_joined_cons]
      exact ht.append (.flatMap fun u hu => .append (.of_all (by decide)) (hts u hu))

theorem marked_joined {ts : List String} (h : ∀ t ∈ ts, Shown t.toList ∨ Marked t.toList)
    (hm : ∃ t ∈ ts, Marked t.toList) : Marked (joined ", " ts).toList := by
  have hcomma : Shown ", ".toList := .of_all (by decide)
  cases ts with
  | nil =>
      obtain ⟨t, ht, -⟩ := hm
      cases ht
  | cons t ts =>
      obtain ⟨ht, hts⟩ := List.forall_mem_cons.1 h
      rw [toList_joined_cons]
      by_cases hmark : Marked t.toList
      · exact hmark.append _
      · refine .of_shown (ht.resolve_right hmark) (.flatMap (fun u hu => ?_) ?_)
        · exact (hts u hu).imp hcomma.append (.of_shown hcomma)
        · obtain ⟨u, hu, hmarked⟩ := hm
          refine ⟨u, (List.mem_cons.1 hu).resolve_left fun he => hmark (he ▸ hmarked), ?_⟩
          exact .of_shown hcomma hmarked

theorem marked_parameterText {p : Parameter} (hp : p.IsRead) :
    (p.type = .boolean ∧ Shown (m.parameterText p).toList) ∨
      (p.type ≠ .boolean ∧ Marked (m.parameterText p).toList) := by
  obtain ⟨hn, ht⟩ := hp
  have hstart : Shown (p.name ++ ": ").toList := by
    rw [String.toList_append]
    exact .append (.word hn) (.of_all (by decide))
  rw [parameterText, String.toList_append]
  cases hty : p.type with
  | boolean => exact .inl ⟨rfl, hstart.append (.word (w := "bool") (by decide))⟩
  | unresolved name position =>
      rw [hty] at ht
      refine .inr ⟨(fun he => by cases he), .of_shown hstart ⟨name.toList, [], ?_, .word ht.1⟩⟩
      rw [typeText, String.toList_append]
      rfl
  | undefined | skillset id | imported id | declared id | abstract =>
      rw [hty] at ht
      exact ht.elim

section Signatures

variable {name : String} {ps : List Parameter}

theorem shown_signatureText (hn : IsIdentifier name) (hps : ∀ p ∈ ps, p.IsRead)
    (hb : ∀ p ∈ ps, p.type = .boolean) : Shown (m.signatureText name ps).toList := by
  rw [signatureText, String.toList_append, String.toList_append, String.toList_append]
  refine .append (.append (.append (.word hn) (.of_all (by decide))) (shown_joined ?_)) (.of_all (by decide))
  refine List.forall_mem_map.2 fun p hp => ?_
  rcases marked_parameterText (m := m) (hps p hp) with h | h
  · exact h.2
  · exact absurd (hb p hp) h.1

theorem marked_signatureText (hn : IsIdentifier name) (hps : ∀ p ∈ ps, p.IsRead)
    (hm : ∃ p ∈ ps, p.type ≠ .boolean) : Marked (m.signatureText name ps).toList := by
  rw [signatureText, String.toList_append, String.toList_append, String.toList_append]
  refine .append (.of_shown (.append (.word hn) (.of_all (by decide))) (marked_joined ?_ ?_)) _
  · refine List.forall_mem_map.2 fun p hp => ?_
    rcases marked_parameterText (m := m) (hps p hp) with h | h
    · exact .inl h.2
    · exact .inr h.2
  · obtain ⟨p, hp, hne⟩ := hm
    refine ⟨m.parameterText p, List.mem_map_of_mem hp, ?_⟩
    rcases marked_parameterText (m := m) (hps p hp) with h | h
    · exact absurd h.1 hne
    · exact h.2

end Signatures

section Bodies

variable {f : Function}

theorem shown_body (hr : f.IsRead) (hreals : ∀ l ∈ Expr.literalsOf f.body, l.isReal = false)
    (hv : ∀ v ∈ (Expr.literalsOf f.body).filterMap Literal.content?, '\\' ∉ v.toList) :
    ∀ e ∈ f.body, Shown e.text.toList := by
  intro e he
  have hreadable := Expr.readable_trees _ hreals hr.readable
  refine .of_spelled (spelled_trees f.body hreadable e he) fun v hmem => hv v ?_
  have hstrings := strings_trees f.body
  rw [← hstrings, Expr.trees_eq_map, List.flatMap_map]
  exact List.mem_flatMap.2 ⟨e, he, hmem⟩

theorem shown_functionText (hr : f.IsRead) (hbody : ∀ e ∈ f.body, Shown e.text.toList)
    (hb : ∀ p ∈ f.parameters, p.type = .boolean) : Shown (m.functionText f).toList := by
  have hsignature := shown_signatureText (m := m) hr.name hr.parameters hb
  by_cases he : f.body = []
  · rw [functionText, if_pos he, String.toList_append, String.toList_append]
    exact .append (.append (.of_all (by decide)) hsignature) (.of_all (by decide))
  · rw [toList_functionText he]
    refine .append (.of_all (by decide)) (.append hsignature (.append (s := [' ', '\x7b']) (.of_all (by decide))
      (.append (.flatMap fun e hmem => ?_) (.of_all (by decide)))))
    rw [bodyLine, String.toList_append, String.toList_append]
    have hindent : Shown "    ".toList := .of_all (by decide)
    have hend : Shown ";".toList := .of_all (by decide)
    exact .append (s := ['\n']) (.of_all (by decide)) ((hindent.append (hbody e hmem)).append hend)

theorem marked_functionText (hr : f.IsRead) (hm : ∃ p ∈ f.parameters, p.type ≠ .boolean) :
    Marked (m.functionText f).toList := by
  have hheader : Marked ("fn " ++ m.signatureText f.name f.parameters).toList := by
    rw [String.toList_append]
    exact .of_shown (.of_all (by decide)) (marked_signatureText hr.name hr.parameters hm)
  by_cases he : f.body = []
  · rw [functionText, if_pos he, String.toList_append]
    exact hheader.append _
  · rw [toList_functionText he, ← List.append_assoc, ← String.toList_append]
    exact hheader.append _

end Bodies

section Methods

variable {f : Method}

theorem shown_methodText (hr : f.IsRead) (hb : ∀ p ∈ f.parameters, p.type = .boolean) :
    Shown (m.methodText f).toList := by
  rw [methodText, String.toList_append]
  exact .append (.of_all (by decide)) (shown_signatureText hr.name hr.parameters hb)

theorem marked_methodText (hr : f.IsRead) (hm : ∃ p ∈ f.parameters, p.type ≠ .boolean) :
    Marked (m.methodText f).toList := by
  rw [methodText, String.toList_append]
  exact .of_shown (.of_all (by decide)) (marked_signatureText hr.name hr.parameters hm)

end Methods

theorem shown_or_marked_of_forall {ps : List Parameter} {t : List Char}
    (hs : (∀ p ∈ ps, p.type = .boolean) → Shown t) (hm : (∃ p ∈ ps, p.type ≠ .boolean) → Marked t) :
    Shown t ∨ Marked t := by
  by_cases h : ∀ p ∈ ps, p.type = .boolean
  · exact .inl (hs h)
  · simp only [not_forall] at h
    obtain ⟨p, hp, hne⟩ := h
    exact .inr (hm ⟨p, hp, hne⟩)

theorem shown_or_marked_of_line (hr : m.IsRead) (hbackslash : ∀ file ∈ m.includes, '\\' ∉ file.toList)
    (hquote : ∀ file ∈ m.includes, '"' ∉ file.toList)
    (hbody : ∀ f ∈ m.functions, ∀ e ∈ f.body, Shown e.text.toList) :
    ∀ l ∈ m.lines, Shown l.2.toList ∨ Marked l.2.toList := by
  simp only [lines, List.forall_mem_append, List.forall_mem_cons, List.forall_mem_map]
  refine ⟨⟨⟨⟨fun file hfile => .inl ?_, fun r hrobot => .inl ?_⟩, fun t ht => .inl ?_⟩, .inl .nil,
    fun f hf => ?_⟩, fun f hf => ?_⟩
  · exact .of_spelled (spelled_include (hquote file hfile)) (List.forall_mem_singleton.2 (hbackslash file hfile))
  · exact .of_spelled (spelled_keyword (w := "robot") (by decide) (hr.robots r hrobot)) (List.forall_mem_nil _)
  · exact .of_spelled (spelled_keyword (w := "type") (by decide) (hr.types t ht)) (List.forall_mem_nil _)
  · have hread := hr.functions f hf
    exact shown_or_marked_of_forall (shown_functionText hread (hbody f hf)) (marked_functionText hread)
  · have hread := hr.methods f hf
    exact shown_or_marked_of_forall (shown_methodText hread) (marked_methodText hread)

theorem exists_marked_line (hr : m.IsRead) (hm : ∃ p ∈ m.parameters, p.type ≠ .boolean) :
    ∃ l ∈ m.lines, Marked l.2.toList := by
  obtain ⟨p, hp, hne⟩ := hm
  rcases List.mem_append.1 hp with hp | hp
  · obtain ⟨f, hf, hp⟩ := List.mem_flatMap.1 hp
    exact ⟨_, List.mem_append_left _ (List.mem_append_right _ (List.mem_cons_of_mem _ (List.mem_map_of_mem hf))),
      marked_functionText (hr.functions f hf) ⟨p, hp, hne⟩⟩
  · obtain ⟨f, hf, hp⟩ := List.mem_flatMap.1 hp
    exact ⟨_, List.mem_append_right _ (List.mem_map_of_mem hf), marked_methodText (hr.methods f hf) ⟨p, hp, hne⟩⟩

theorem marked_text (hr : m.IsRead) (hbackslash : ∀ v ∈ m.includes ++ m.strings, '\\' ∉ v.toList)
    (hquote : ∀ file ∈ m.includes, '"' ∉ file.toList) (hreals : ∀ l ∈ m.literals, l.isReal = false)
    (hm : ∃ p ∈ m.parameters, p.type ≠ .boolean) : Marked m.text.toList := by
  obtain ⟨hincludes, hstrings⟩ := List.forall_mem_append.1 hbackslash
  have hbody : ∀ f ∈ m.functions, ∀ e ∈ f.body, Shown e.text.toList := by
    intro f hf
    have hsub : ∀ l ∈ Expr.literalsOf f.body, l ∈ m.literals := fun l hl => List.mem_flatMap.2 ⟨f, hf, hl⟩
    refine shown_body (hr.functions f hf) (fun l hl => hreals l (hsub l hl)) fun v hv => ?_
    obtain ⟨l, hl, hc⟩ := List.mem_filterMap.1 hv
    exact hstrings v (List.mem_filterMap.2 ⟨l, hsub l hl, hc⟩)
  have hlines := shown_or_marked_of_line hr hincludes hquote hbody
  obtain ⟨l, hl, hmarked⟩ := exists_marked_line hr hm
  rw [toList_text]
  refine .flatMap (fun k hk => ?_) ⟨l, hl, hmarked.append _⟩
  exact (hlines k hk).imp (fun h => h.append (.of_all (by decide))) fun h => h.append _

/-! ### Reading again -/

variable {t : Files.Tree} {base source : String} {imported after : Imported}

theorem parseText_of_run_program {written : String} (h : program.run written.toList = none) :
    ∃ e, parseText t base written imported = (.error (.malformed none e), imported) := by
  cases he : Grammar.program.read written.toList with
  | error e =>
      have hmodel : (Source.mk none written.toList).model imported = .error (.malformed none e) := by
        rw [Source.model, Source.program, Source.read, he]
        rfl
      exact ⟨e, parseSource_of_error hmodel⟩
  | ok ds =>
      obtain ⟨r, hr⟩ := Parser.read_eq_ok_iff.1 he
      rw [h] at hr
      cases hr

/-- A model that has been read, without backslashes, double quotes in includes and real numbers, is read again from
its text if and only if all its parameters are boolean. Otherwise the text is malformed. -/
theorem unresolved_text_is_malformed (h : parseText t base source imported = (.ok m, after))
    (hbackslash : ∀ v ∈ m.includes ++ m.strings, '\\' ∉ v.toList)
    (hquote : ∀ file ∈ m.includes, '"' ∉ file.toList) (hreals : ∀ l ∈ m.literals, l.isReal = false) :
    ∃ written, m.text? = some written ∧
      ((∃ m' after', parseText t base written imported = (.ok m', after')) ↔
        ∀ p ∈ m.parameters, p.type = .boolean) ∧
      ((∃ p ∈ m.parameters, p.type ≠ .boolean) →
        ∃ e, parseText t base written imported = (.error (.malformed none e), imported)) := by
  obtain ⟨hread, hne⟩ := isRead_of_parseText h
  have hmalformed : (∃ p ∈ m.parameters, p.type ≠ .boolean) →
      ∃ e, parseText t base m.text imported = (.error (.malformed none e), imported) := fun hm =>
    parseText_of_run_program (marked_text hread hbackslash hquote hreals hm).run_program
  refine ⟨m.text, hread.text?_eq, ⟨fun ⟨m', after', hparse⟩ => ?_, fun hps => ?_⟩, hmalformed⟩
  · by_contra hps
    simp only [not_forall] at hps
    obtain ⟨p, hp, hty⟩ := hps
    obtain ⟨e, he⟩ := hmalformed ⟨p, hp, hty⟩
    rw [he] at hparse
    cases hparse
  · have hprintable : m.Printable := ⟨hread.spellable hps hreals, hquote, quotable_of_not_mem hbackslash⟩
    have hwritten := hread.contents_declarations hps
    have hlong := longNumerals_of_readable fun f hf => (hread.functions f hf).readable
    obtain ⟨es, hes, hmap⟩ := hprintable.program_text (hwritten ▸ hne) hlong
    obtain ⟨m', hm', -⟩ := parseText_of_contents h hes ((Contents.ofDeclarations_congr hmap).trans hwritten)
    exact ⟨m', after, hm'⟩

theorem unresolved_text_is_malformed_pose :
    let t : Files.Tree := ⟨⟨["w"]⟩, [(⟨["w", "arm.rl"]⟩, .bytes "type pose".toUTF8.toList)]⟩
    let source := "include 'arm.rl' fn f(x: bool) \x7b say('a\"?') \x7d method say(on: bool, at: pose)"
    ∃ m after, parseText t "" source .empty = (.ok m, after) ∧
      m.text? = some ("include \"arm.rl\"\n\nfn f(x: bool) \x7b\n    say(\"a\\\"?\");\n\x7d\n" ++
        "method say(on: bool, at: pose?)\n") ∧
      ∃ written e, m.text? = some written ∧ parseText t "" written .empty = (.error (.malformed none e), .empty) := by
  intro t source
  obtain ⟨m, after, hp, hbackslash, hquote, hreals, hmark, htext⟩ : ∃ m after,
      parseText t "" source .empty = (.ok m, after) ∧ (∀ v ∈ m.includes ++ m.strings, '\\' ∉ v.toList) ∧
        (∀ file ∈ m.includes, '"' ∉ file.toList) ∧ (∀ l ∈ m.literals, l.isReal = false) ∧
        (∃ p ∈ m.parameters, p.type ≠ .boolean) ∧
        m.text? = some ("include \"arm.rl\"\n\nfn f(x: bool) \x7b\n    say(\"a\\\"?\");\n\x7d\n" ++
          "method say(on: bool, at: pose?)\n") :=
    exists_model_of_any (by decide +kernel)
  obtain ⟨written, hwritten, -, hmalformed⟩ := unresolved_text_is_malformed hp hbackslash hquote hreals
  obtain ⟨e, he⟩ := hmalformed hmark
  exact ⟨m, after, hp, htext, written, e, hwritten, he⟩

end Model

end RobotLang
