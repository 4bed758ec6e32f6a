import Mathlib.Data.List.Basic
import RobotLang.Proofs.RoundTrip
import RobotLang.Proofs.StringsRead

namespace RobotLang

open Grammar Number

mutual

theorem strings_expr (s : Source) : ∀ e : ExprTree, e.strings = (s.expr e).unplaced.literals.filterMap Literal.content?
  | .literal _ (.string _) | .literal _ (.boolean _) | .literal _ (.integer _) | .literal _ (.real _) => rfl
  | .name .. => rfl
  | .call _ _ args => by
      rw [ExprTree.strings_call, strings_exprs s args, Source.expr, Expr.unplaced, Expr.literals]
  | .ros _ _ topic args => by
      rw [ExprTree.strings_ros, strings_exprs s args, Source.expr, Expr.unplaced, Expr.literals]
      rfl

theorem strings_exprs (s : Source) : ∀ es : List ExprTree,
    es.flatMap ExprTree.strings = (Expr.literalsOf (Expr.unplacedAll (s.exprs es))).filterMap Literal.content?
  | [] => rfl
  | e :: es => by
      rw [List.flatMap_cons, strings_expr s e, strings_exprs s es, Source.exprs, Expr.unplacedAll, Expr.literalsOf,
        List.filterMap_append]

end

def Contents.strings (c : Contents) : List String :=
  c.functions.flatMap fun f => (Expr.literalsOf f.2.2).filterMap Literal.content?

theorem Contents.strings_ofDeclarations {ds : List Declaration} (h : (ofDeclarations ds).includes = []) :
    (ofDeclarations ds).strings = ds.flatMap Declaration.strings := by
  rw [ofDeclarations_eq] at h ⊢
  rw [Contents.strings, List.flatMap_assoc]
  refine List.flatMap_congr fun d hd => ?_
  cases d with
  | includes file => exact absurd (List.flatMap_eq_nil_iff.1 h _ hd) (List.cons_ne_nil _ _)
  | robot mark name | type mark name => rfl
  | function mark name ps body =>
      rw [Declaration.strings_function, strings_exprs Source.nowhere body]
      exact List.append_nil _
  | method mark name ps => exact (Declaration.strings_method mark name ps).symm

namespace Model

open Parser

variable {m : Model} {t : Files.Tree} {base source : String} {imported after : Imported}

theorem stringsIn_of_parseText (h : parseText t base source imported = (.ok m, after)) (hincludes : m.includes = []) :
    stringsIn source.toList = m.contents.strings := by
  obtain ⟨ds, hds, -⟩ := parseText_eq_ok_iff.1 h
  obtain ⟨⟨r, hrun⟩, -⟩ := Source.program_eq_ok_iff.1 hds
  have hcontents := contents_of_parseText hds h
  have hnone : (Contents.ofDeclarations ds).includes = [] := hcontents ▸ hincludes
  rw [stringsIn_of_run_program hrun, hcontents, Contents.strings_ofDeclarations hnone]

theorem stringsIn_of_buildText (hi : Reachable (.besides imported))
    (h : buildText t base source imported = (.ok m, after)) (hincludes : m.includes = []) :
    stringsIn source.toList = m.strings := by
  obtain ⟨l, hparse, hrun⟩ := checked_eq_ok_iff.1 h
  have hl := (hi.parseText hparse).isNumbered
  have hpasses := passes_of_runAll_check hl hrun
  have hcontents := hpasses.contents_declarations hl (isRead_of_parseText hparse).1
  have hnone : (Contents.ofDeclarations m.declarations).includes = [] :=
    hcontents ▸ hpasses.includes.symm.trans hincludes
  rw [stringsIn_of_parseText hparse (hpasses.includes.symm.trans hincludes), ← hcontents,
    Contents.strings_ofDeclarations hnone, strings_declarations, hincludes, List.nil_append]

/-- A model without includes and real numbers that has been built is built again from its text, with the same
strings, topics and ROS calls and all else the same up to positions, if its strings can be quoted; and if they
cannot, its text is rejected or has other strings. -/
theorem strings_survive_quoting (hi : Reachable (.besides imported))
    (h : buildText t base source imported = (.ok m, after)) (hincludes : m.includes = [])
    (hreals : ∀ l ∈ m.literals, l.isReal = false) :
    ∃ written, m.text? = some written ∧
      (Quotable m.strings → ∃ m', buildText t base written imported = (.ok m', after) ∧ m'.unplaced = m.unplaced) ∧
      ∀ m' after', buildText t base written imported = (.ok m', after') → m'.includes = [] →
        m'.strings = m.strings → Quotable m.strings := by
  obtain ⟨l, hl, hread, hpasses⟩ := passes_of_buildText hi h
  have hspellable := hpasses.spellable hl hread hreals
  have hnone : ∀ file ∈ m.includes, '"' ∉ file.toList := by simp [hincludes]
  refine ⟨m.text, hspellable.text?_eq, fun hq => ?_, fun m' after' hbuild hincludes' hstrings => ?_⟩
  · have hprintable : m.Printable := ⟨hspellable, hnone, by rwa [hincludes, List.nil_append]⟩
    exact hprintable.built_again hi h
  · have hshows := shows_text hspellable hnone
    rw [hincludes, List.nil_append] at hshows
    exact hshows.quotable ((stringsIn_of_buildText hi hbuild hincludes').trans hstrings)

theorem strings_survive_quoting_dir :
    let t : Files.Tree := ⟨.root, []⟩
    let source := "fn f() \x7b publish('/a\"b', \"it's\", \"c:\\dir\\\") \x7d"
    let written := "\nfn f() \x7b\n    publish(\"/a\\\"b\", \"it's\", \"c:\\dir\\\");\n\x7d\n"
    ∃ m after, buildText t "" source .empty = (.ok m, after) ∧ m.includes = [] ∧
      (∀ l ∈ m.literals, l.isReal = false) ∧ m.strings = ["/a\"b", "it's", "c:\\dir\\"] ∧ m.text? = some written ∧
      ∃ m', buildText t "" written .empty = (.ok m', after) ∧ m'.unplaced = m.unplaced := by
  intro t source written
  have hempty : Reachable (.besides .empty) := .empty
  obtain ⟨m, after, hb, hincludes, hreals, hstrings, htext⟩ : ∃ m after,
      buildText t "" source .empty = (.ok m, after) ∧ m.includes = [] ∧ (∀ l ∈ m.literals, l.isReal = false) ∧
        m.strings = ["/a\"b", "it's", "c:\\dir\\"] ∧ m.text? = some written :=
    exists_model_of_any (by decide +kernel)
  obtain ⟨written', htext', hagain, -⟩ := strings_survive_quoting hempty hb hincludes hreals
  obtain rfl := Option.some.inj (htext'.symm.trans htext)
  have hquotable : Quotable m.strings := by
    rw [hstrings]
    decide +kernel
  exact ⟨m, after, hb, hincludes, hreals, hstrings, htext, hagain hquotable⟩

theorem backslash_lost :
    ¬ ∀ (t : Files.Tree) (base source : String) (m : Model) (after : Imported),
      buildText t base source .empty = (.ok m, after) → m.includes = [] → (∀ l ∈ m.literals, l.isReal = false) →
      ∃ written m' after', m.text? = some written ∧ buildText t base written .empty = (.ok m', after') ∧
        m'.strings = m.strings := by
  intro h
  let t : Files.Tree := ⟨.root, []⟩
  let source := "fn f() \x7b say(\"\\\\'\") \x7d method say(x: bool)"
  let written := "\nfn f() \x7b\n    say(\"\\'\");\n\x7d\nmethod say(x: bool)\n"
  obtain ⟨m, after, hb, hincludes, hreals, hstrings, htext⟩ : ∃ m after,
      buildText t "" source .empty = (.ok m, after) ∧ m.includes = [] ∧ (∀ l ∈ m.literals, l.isReal = false) ∧
        m.strings = ["\\'"] ∧ m.text? = some written :=
    exists_model_of_any (by decide +kernel)
  obtain ⟨n, _, hlost, hn⟩ : ∃ n after, buildText t "" written .empty = (.ok n, after) ∧ n.strings = ["'"] :=
    exists_model_of_any (by decide +kernel)
  obtain ⟨written', m', _, htext', hbuild, hsame⟩ := h t "" source m after hb hincludes hreals
  obtain rfl := Option.some.inj (htext'.symm.trans htext)
  obtain rfl := Except.ok.inj (Prod.mk.inj (hbuild.symm.trans hlost)).1
  rw [hn, hstrings] at hsame
  exact absurd hsame (by decide)

theorem IsRead.spellable (hr : m.IsRead) (hps : ∀ p ∈ m.parameters, p.type = .boolean)
    (hreals : ∀ l ∈ m.literals, l.isReal = false) : m.Spellable := by
  have hparameters : ∀ ps : List Parameter, (∀ p ∈ ps, p ∈ m.parameters ∧ p.IsRead) → m.ParametersPrintable ps := by
    intro ps hread p hp
    obtain ⟨hmem, hpread⟩ := hread p hp
    refine ⟨hpread.1, ?_⟩
    rw [hps p hmem]
    exact (by decide : IsIdentifier "bool")
  refine ⟨hr.robots, hr.types, fun f hf => ?_, fun f hf => ?_⟩
  · have hread := hr.functions f hf
    refine ⟨hread.name, hparameters _ (Passes.read_of_function hr hf), Expr.readable_trees _ ?_ hread.readable⟩
    exact fun l hl => hreals l (List.mem_flatMap.2 ⟨f, hf, hl⟩)
  · exact ⟨(hr.methods f hf).name, hparameters _ (Passes.read_of_method hr hf)⟩

theorem IsRead.contents_declarations (hr : m.IsRead) (hps : ∀ p ∈ m.parameters, p.type = .boolean) :
    Contents.ofDeclarations m.declarations = m.contents := by
  have hparameters : ∀ ps : List Parameter, (∀ p ∈ ps, p ∈ m.parameters ∧ p.IsRead) →
      ps.map (fun p => (Source.nowhere.parameter (m.parameterTree p)).unplaced) = ps.map Parameter.unplaced := by
    intro ps hread
    refine List.map_congr_left fun p hp => ?_
    rw [Source.parameter, parameterTree, Parameter.unplaced, Parameter.unplaced, hps p (hread p hp).1]
    rfl
  rw [Contents.ofDeclarations_declarations, contents]
  congr 1
  · refine List.map_congr_left fun f hf => ?_
    have hread := hr.functions f hf
    rw [hparameters _ (Passes.read_of_function hr hf), Expr.exprs_trees Source.nowhere f.body hread.readable,
      hread.unbound]
    rfl
  · refine List.map_congr_left fun f hf => ?_
    rw [hparameters _ (Passes.read_of_method hr hf)]
    rfl

def includeLines (files : List String) (rest : List Char) : List Char :=
  files.flatMap (fun file => (includeLine file).toList ++ ['\n']) ++ rest

theorem includeLines_cons (file : String) (files : List String) (rest : List Char) :
    includeLines (file :: files) rest =
      "include".toList ++ ' ' :: '"' :: (file.toList ++ '"' :: '\n' :: includeLines files rest) := by
  simp [includeLines, includeLine]

theorem exists_includeLines (m : Model) : ∃ rest, m.text.toList = includeLines m.includes rest := by
  rw [toList_text, lines, List.append_assoc, List.append_assoc, List.append_assoc, List.flatMap_append,
    List.flatMap_map]
  exact ⟨_, rfl⟩

theorem mem_includeLines {files : List String} (h : files ≠ []) (rest : List Char) : '"' ∈ includeLines files rest := by
  cases files with
  | nil => exact absurd rfl h
  | cons file files => simp [includeLines_cons]

theorem run_declaration_of_include {s u r : List Char} {d : Declaration}
    (hs : skip s = "include".toList ++ ' ' :: '"' :: u) (h : declaration.run s = some (d, r)) :
    ∃ file, d = .includes file ∧ scanString ('"' :: u) = some (file, r) := by
  have htake : (skip s).takeWhile Text.isWordChar = "include".toList := by
    rw [hs]
    exact takeWhile_word (w := "include") (by decide) rfl
  have hother : ∀ {w : String} (f : Nat × Unit → Parser Declaration), IsIdentifier w → "include" ≠ w →
      (word w >>= f).run s = none := by
    intro w f hw hne
    refine run_bind_of_none ?_ f
    rw [word, run_token, scanWord_eq hw.isWordChar, htake, if_neg fun he => hne (String.toList_inj.1 he)]
    rfl
  rcases run_orElse_eq_some h with h | ⟨-, h⟩
  · obtain ⟨⟨mark, x⟩, r₁, hword, h⟩ := run_bind_eq_some h
    obtain ⟨⟨mark', file⟩, r₂, hstring, h⟩ := run_bind_eq_some h
    rw [run_pure, Option.some.injEq, Prod.mk.injEq] at h
    obtain ⟨rfl, rfl⟩ := h
    obtain ⟨-, hword⟩ := run_token_eq_some hword
    obtain ⟨-, hstring⟩ := run_token_eq_some hstring
    have hrest := (scanWord_eq_some hword).1
    rw [hs] at hrest
    obtain rfl := List.append_cancel_left hrest
    exact ⟨file, rfl, hstring⟩
  · have hrobot : robotDeclaration.run s = none := hother (w := "robot") _ (by decide) (by decide)
    have htype : typeDeclaration.run s = none := hother (w := "type") _ (by decide) (by decide)
    have hfunction : functionDeclaration.run s = none := hother (w := "fn") _ (by decide) (by decide)
    have hmethod : methodDeclaration.run s = none := hother (w := "method") _ (by decide) (by decide)
    rw [run_orElse_of_none hrobot, run_orElse_of_none htype, run_orElse_of_none hfunction, hmethod] at h
    cases h

/-- Includes that are read as they have been written hold no double quotes and are read back. -/
theorem quotable_of_run_includeLines {files : List String} {rest g r : List Char} {ds : List Declaration} {n : Nat}
    (hg : Gap g) (h : (manyUpTo declaration n).run (g ++ includeLines files rest) = some (ds, r))
    (hfiles : (Contents.ofDeclarations ds).includes = files) :
    (∀ file ∈ files, '"' ∉ file.toList) ∧ Quotable files := by
  induction files generalizing g ds n with
  | nil => exact ⟨List.forall_mem_nil _, List.forall_mem_nil _, List.forall_mem_nil _⟩
  | cons file files ih =>
      obtain ⟨d, ds, rfl⟩ : ∃ d es, ds = d :: es :=
        List.exists_cons_of_ne_nil fun hnil => absurd (hfiles.symm.trans (hnil ▸ rfl)) (List.cons_ne_nil _ _)
      obtain ⟨n, t, hd, hds⟩ := run_manyUpTo_eq_cons h
      have hskip : skip (g ++ includeLines (file :: files) rest) =
          "include".toList ++ ' ' :: '"' :: (file.toList ++ '"' :: '\n' :: includeLines files rest) := by
        rw [skip_gap hg, includeLines_cons]
        exact skip_cons (c := 'i') (by decide) (by decide) _
      obtain ⟨file', rfl, hscan⟩ := run_declaration_of_include hskip hd
      obtain ⟨rfl, hrest⟩ := List.cons.inj (show file' :: (Contents.ofDeclarations ds).includes = _ from hfiles)
      obtain ⟨hbare, rfl, hquote, hend⟩ := scanString_bare_iff.1 hscan
      obtain ⟨hbares, hquotable⟩ := ih (g := ['\n']) (.blank rfl .nil) hds hrest
      refine ⟨List.forall_mem_cons.2 ⟨hbare, hbares⟩, quotable_cons.2 ⟨⟨hquote, fun he => ?_⟩, hquotable⟩⟩
      exact Decidable.not_not.1 fun hne => hend he (List.mem_cons_of_mem _ (mem_includeLines hne rest))

/-- A model that has been read, without strings and real numbers in its bodies and with boolean parameters only,
is read again from its text, with the same includes and imported entries and all else the same up to positions, if
no include holds a double quote and all of them can be quoted; and if not, its text is rejected or has other
includes. -/
theorem includes_survive_quoting (h : parseText t base source imported = (.ok m, after))
    (hps : ∀ p ∈ m.parameters, p.type = .boolean) (hstrings : m.strings = [])
    (hreals : ∀ l ∈ m.literals, l.isReal = false) :
    ∃ written, m.text? = some written ∧
      ((∀ file ∈ m.includes, '"' ∉ file.toList) ∧ Quotable m.includes →
        ∃ m', parseText t base written imported = (.ok m', after) ∧ m'.unplaced = m.unplaced) ∧
      ∀ m' after', parseText t base written imported = (.ok m', after') → m'.includes = m.includes →
        (∀ file ∈ m.includes, '"' ∉ file.toList) ∧ Quotable m.includes := by
  obtain ⟨hread, hne⟩ := isRead_of_parseText h
  have hspellable := hread.spellable hps hreals
  have hwritten := hread.contents_declarations hps
  refine ⟨m.text, hspellable.text?_eq, fun ⟨hbare, hquotable⟩ => ?_, fun m' after' hparse hincludes => ?_⟩
  · have hprintable : m.Printable := ⟨hspellable, hbare, by rwa [hstrings, List.append_nil]⟩
    have hlong := longNumerals_of_readable fun f hf => (hread.functions f hf).readable
    obtain ⟨es, hes, hmap⟩ := hprintable.program_text (hwritten ▸ hne) hlong
    exact parseText_of_contents h hes ((Contents.ofDeclarations_congr hmap).trans hwritten)
  · obtain ⟨ds, hds, -⟩ := parseText_eq_ok_iff.1 hparse
    obtain ⟨⟨r, hrun⟩, -⟩ := Source.program_eq_ok_iff.1 hds
    obtain ⟨ds', r', hmany, hrun⟩ := run_bind_eq_some hrun
    obtain ⟨-, r'', -, hrun⟩ := run_bind_eq_some hrun
    rw [run_pure, Option.some.injEq, Prod.mk.injEq] at hrun
    obtain ⟨rfl, rfl⟩ := hrun
    obtain ⟨rest, hrest⟩ := m.exists_includeLines
    rw [hrest] at hmany
    refine quotable_of_run_includeLines (g := []) .nil hmany ?_
    exact (congrArg Contents.includes (contents_of_parseText hds hparse)).symm.trans hincludes

theorem includes_survive_quoting_rl :
    let t : Files.Tree := ⟨⟨["w"]⟩, [(⟨["w", "it's.rl"]⟩, .bytes "type pose".toUTF8.toList),
      (⟨["w", "b\\"]⟩, .bytes "type grip".toUTF8.toList)]⟩
    let source := "include \"it's.rl\" include 'b\\' fn f(x: bool) \x7b f(x) \x7d"
    let written := "include \"it's.rl\"\ninclude \"b\\\"\n\nfn f(x: bool) \x7b\n    f(x);\n\x7d\n"
    ∃ m after, parseText t "" source .empty = (.ok m, after) ∧ (∀ p ∈ m.parameters, p.type = .boolean) ∧
      m.strings = [] ∧ (∀ l ∈ m.literals, l.isReal = false) ∧ m.includes = ["it's.rl", "b\\"] ∧
      m.text? = some written ∧ ∃ m', parseText t "" written .empty = (.ok m', after) ∧ m'.unplaced = m.unplaced := by
  intro t source written
  obtain ⟨m, after, hb, hps, hstrings, hreals, hincludes, htext⟩ : ∃ m after,
      parseText t "" source .empty = (.ok m, after) ∧ (∀ p ∈ m.parameters, p.type = .boolean) ∧
        m.strings = [] ∧ (∀ l ∈ m.literals, l.isReal = false) ∧ m.includes = ["it's.rl", "b\\"] ∧
        m.text? = some written :=
    exists_model_of_any (by decide +kernel)
  obtain ⟨written', htext', hagain, -⟩ := includes_survive_quoting hb hps hstrings hreals
  obtain rfl := Option.some.inj (htext'.symm.trans htext)
  have hquotable : (∀ file ∈ m.includes, '"' ∉ file.toList) ∧ Quotable m.includes := by
    rw [hincludes]
    decide +kernel
  exact ⟨m, after, hb, hps, hstrings, hreals, hincludes, htext, hagain hquotable⟩

theorem include_renamed :
    ¬ ∀ (t : Files.Tree) (base source : String) (imported : Imported) (m : Model) (after : Imported),
      parseText t base source imported = (.ok m, after) → (∀ p ∈ m.parameters, p.type = .boolean) → m.strings = [] →
      (∀ l ∈ m.literals, l.isReal = false) →
      ∃ written m', m.text? = some written ∧ parseText t base written imported = (.ok m', after) ∧
        m'.includes = m.includes := by
  intro h
  let t : Files.Tree := ⟨⟨["w"]⟩, [(⟨["w", "a\\'b.rl"]⟩, .bytes "type T".toUTF8.toList),
    (⟨["w", "a'b.rl"]⟩, .bytes "type U".toUTF8.toList)]⟩
  let source := "include \"a\\\\'b.rl\""
  let written := "include \"a\\'b.rl\"\n\n"
  obtain ⟨m, after, hb, hps, hstrings, hreals, hincludes, htext⟩ : ∃ m after,
      parseText t "" source .empty = (.ok m, after) ∧ (∀ p ∈ m.parameters, p.type = .boolean) ∧
        m.strings = [] ∧ (∀ l ∈ m.literals, l.isReal = false) ∧ m.includes = ["a\\'b.rl"] ∧
        m.text? = some written :=
    exists_model_of_any (by decide +kernel)
  obtain ⟨n, _, hrenamed, hn⟩ : ∃ n after, parseText t "" written .empty = (.ok n, after) ∧ n.includes = ["a'b.rl"] :=
    exists_model_of_any (by decide +kernel)
  obtain ⟨written', m', htext', hparse, hsame⟩ := h t "" source .empty m after hb hps hstrings hreals
  obtain rfl := Option.some.inj (htext'.symm.trans htext)
  obtain rfl := Except.ok.inj (Prod.mk.inj (hparse.symm.trans hrenamed)).1
  rw [hn, hincludes] at hsame
  exact absurd hsame (by decide)

end Model

end RobotLang
