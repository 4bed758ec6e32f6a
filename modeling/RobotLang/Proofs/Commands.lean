import RobotLang.Proofs.CommandWords
import RobotLang.Proofs.ShownModels

namespace RobotLang.CommandLine

open Files Text

def EndsLine (s : String) : Prop := ∃ front, s = front ++ "\n"

theorem EndsLine.append {t : String} (h : EndsLine t) (s : String) : EndsLine (s ++ t) := by
  obtain ⟨front, rfl⟩ := h
  exact ⟨s ++ front, String.append_assoc.symm⟩

theorem EndsLine.withPlainLines_append {s : String} (h : EndsLine s) (t : String) :
    withPlainLines (s ++ t) = withPlainLines s ++ withPlainLines t := by
  obtain ⟨front, rfl⟩ := h
  rw [withPlainLines, String.toList_append, plainLines_append, String.ofList_append]
  · rfl
  · simp

theorem endsLine_reportLine (stamp label text : String) : EndsLine (reportLine stamp label text) := ⟨_, rfl⟩

theorem endsLine_separatorLine : EndsLine separatorLine := ⟨_, rfl⟩

theorem withPlainLines_separatorLine : withPlainLines separatorLine = separatorLine := by
  have hmem : '\r' ∉ separatorLine.toList := by
    unfold separatorLine
    rw [String.toList_append, String.toList_ofList, List.mem_append, not_or]
    refine ⟨fun h => ?_, by simp⟩
    exact absurd (List.eq_of_mem_replicate h) (by decide)
  rw [withPlainLines, plainLines_eq_self hmem, String.ofList_toList]

theorem withPlainLines_reportLine (stamp label text : String) :
    withPlainLines (reportLine stamp label text) = reportLine stamp label text := by
  rw [withPlainLines, plainLines_eq_self, String.ofList_toList]
  simp [reportLine, withoutControls, isCursorControl]

section Reports

variable {w : World} {path : String} {m : Model} {e : Error}

/-- What is printed in front of the text of a model that has been validated. -/
def printedBefore (w : World) (verbosity : Int) (m : Model) : String :=
  successLine w.stamp ++ if 3 ≤ verbosity then separatorLine ++ writtenImports m else ""

theorem endsLine_printedBefore (w : World) (verbosity : Int) (m : Model) :
    EndsLine (printedBefore w verbosity m) := by
  have hsuccess : EndsLine (successLine w.stamp) := endsLine_reportLine _ _ _
  rw [printedBefore]
  split
  · have himports : EndsLine (writtenImports m) := ⟨_, rfl⟩
    exact (himports.append separatorLine).append _
  · rwa [String.append_empty]

theorem dumped_eq (ht : m.text? = some m.text) (verbosity : Int) :
    dumped verbosity (successLine w.stamp) m =
      .ok (printedBefore w verbosity m ++
        if 2 ≤ verbosity then separatorLine ++ withoutSequences m.text else "") := by
  rw [dumped, written?, ht, printedBefore]
  by_cases h₃ : 3 ≤ verbosity
  · have h₂ : 2 ≤ verbosity := Int.le_trans (by decide) h₃
    simp only [h₃, h₂, if_true, Report.followedBy, Option.map_some, String.append_assoc]
  · by_cases h₂ : 2 ≤ verbosity <;>
      simp only [h₃, h₂, if_true, if_false, Report.followedBy, Option.map_some, String.append_empty,
        String.append_assoc]

theorem validate_of_ok (h : (Model.buildFile w.files path .empty).1 = .ok m) (verbosity : Int) :
    validate w verbosity path =
      .ok (printedBefore w verbosity m ++
        if 2 ≤ verbosity then separatorLine ++ withoutSequences m.text else "") := by
  have hempty : Reachable (.besides .empty) := .empty
  rw [validate, h]
  exact dumped_eq (Model.shown_of_buildFile hempty (Prod.ext h rfl)).1 verbosity

theorem inspect_of_ok (h : (Model.buildFile w.files path .empty).1 = .ok m) :
    inspect w path = .ok (successLine w.stamp ++ m.summary) := by
  have hempty : Reachable (.besides .empty) := .empty
  rw [inspect, h]
  show Report.followedBy _ m.summary? = _
  rw [(Model.shown_of_buildFile hempty (Prod.ext h rfl)).2, Report.followedBy]

theorem render_of_text (ht : m.text? = some m.text) {skillsets resolved : Bool}
    (h : (if resolved then Model.buildFile w.files path .empty else Model.parseFile w.files path .empty).1 = .ok m) :
    render w path skillsets resolved =
      .ok ((if skillsets then writtenImports m ++ separatorLine else "") ++ withoutSequences m.text) := by
  rw [render, h]
  show Report.followedBy _ (written? m) = _
  rw [written?, ht, Option.map_some, Report.followedBy]

theorem render_of_ok (h : (Model.buildFile w.files path .empty).1 = .ok m) (skillsets : Bool) :
    render w path skillsets true =
      .ok ((if skillsets then writtenImports m ++ separatorLine else "") ++ withoutSequences m.text) := by
  have hempty : Reachable (.besides .empty) := .empty
  exact render_of_text (Model.shown_of_buildFile hempty (Prod.ext h rfl)).1 h

theorem render_of_parsed (h : (Model.parseFile w.files path .empty).1 = .ok m) (skillsets : Bool) :
    render w path skillsets false =
      .ok ((if skillsets then writtenImports m ++ separatorLine else "") ++ withoutSequences m.text) :=
  render_of_text (Model.text?_of_parseFile (Prod.ext h rfl)) h

theorem render_of_error {skillsets resolved : Bool}
    (h : (if resolved then Model.buildFile w.files path .empty else Model.parseFile w.files path .empty).1 = .error e) :
    render w path skillsets resolved = .failed "" e := by
  rw [render, h]

theorem report_of_error {c : Command} (hc : c.takesModel = true) {given : Given}
    (hn : given.has "--no-resolve" = false) (h : (Model.buildFile w.files path .empty).1 = .error e)
    (verbosity : Int) : c.report w verbosity given path = .failed "" e := by
  cases c with
  | validate => rw [Command.report, validate, h]
  | inspect => rw [Command.report, inspect, h]
  | render =>
      rw [Command.report, hn]
      exact render_of_error h
  | visualize => cases hc

theorem report_of_ok {c : Command} (hc : c.takesModel = true) {given : Given}
    (hn : given.has "--no-resolve" = false) (h : (Model.buildFile w.files path .empty).1 = .ok m)
    (verbosity : Int) : ∃ printed, c.report w verbosity given path = .ok printed := by
  cases c with
  | validate => exact ⟨_, validate_of_ok h verbosity⟩
  | inspect => exact ⟨_, inspect_of_ok h⟩
  | render =>
      rw [Command.report, hn]
      exact ⟨_, render_of_ok h _⟩
  | visualize => cases hc

end Reports

/-- Words that are options of the program alone; they ask for a verbosity, and with it the environment
is one that the log can be set up for. -/
def Accepts (env : Environment) (words : List String) (verbosity : Int) : Prop :=
  start env words = .ok (verbosity, []) ∧ ∃ level, (Log.unconfigured.configure verbosity env).2 = .ok level

/-- What follows the name of a command that builds the model of a path. -/
inductive BuildWords (path : String) : Command → List String → Prop
  | validate : BuildWords path .validate [path]
  | inspect : BuildWords path .inspect [path]
  | render {before after : List String} (h : ∀ flag ∈ before ++ after, flag = "--skillsets") :
    BuildWords path .render (before ++ path :: after)

/-- What follows `render` when the model of a path is only to be read. -/
inductive ParseWords (path : String) : List String → Prop
  | render {before after : List String}
    (h : ∀ flag ∈ before ++ after, flag = "--skillsets" ∨ flag = "--no-resolve")
    (hn : "--no-resolve" ∈ before ++ after) : ParseWords path (before ++ path :: after)

def failurePrefix (stamp : String) (c : Command) : String := withoutControls (stamp ++ " " ++ c.failureLabel)

def failureText (e : Error) : String := withoutControls e.message ++ "\n"

section Calls

variable {w : World} {words args before after : List String} {v : Int} {path : String} {c : Command}

theorem call_eq_runCommand (h : Accepts w.env words v) (c : Command) (args : List String) :
    ∃ log, call w (words ++ c.name :: args) = runCommand w log v c args := by
  obtain ⟨hstart, level, hlevel⟩ := h
  have hname : isOption c.name = false := by cases c <;> decide +kernel
  have hof : Command.ofName? c.name = some c := by cases c <;> decide +kernel
  rcases hconfigure : Log.unconfigured.configure v w.env with ⟨log, _ | _⟩
  · rw [hconfigure] at hlevel
    cases hlevel
  · refine ⟨log, ?_⟩
    rw [call, if_neg (by simp), start_append hstart hname]
    simp only [hof, hconfigure]

theorem runCommand_eq_outcome (hc : c.takesModel = true) (hpath : isOption path = false)
    (hflags : ∀ flag ∈ before ++ after, IsFlag c.options flag ∧ flag ≠ "--help") (log : Log) :
    ∃ logged, runCommand w log v c (before ++ path :: after) =
      (c.report w v ⟨(before ++ after).map (·, ""), [path]⟩ path).outcome w.stamp c.failureLabel logged := by
  obtain ⟨hb, ha⟩ := List.forall_mem_append.1 hflags
  have hread := read_flags (fun f hf => (hb f hf).1) (fun f hf => (ha f hf).1) hpath
  have hhelp : ¬ (Given.mk ((before ++ after).map (·, "")) [path]).has helpOption.long = true :=
    fun h => (hflags _ (has_flags.1 h)).2 rfl
  rw [runCommand, hread]
  refine ⟨log.emitAll (c.notes w ⟨(before ++ after).map (·, ""), [path]⟩ path), ?_⟩
  show (if _ then _ else _) = _
  rw [if_neg hhelp, hc]

theorem run_eq_outcome (h : Accepts w.env words v) (hc : c.takesModel = true) (hpath : isOption path = false)
    (hflags : ∀ flag ∈ before ++ after, IsFlag c.options flag ∧ flag ≠ "--help") :
    ∃ logged, run w (words ++ c.name :: (before ++ path :: after)) =
      ((c.report w v ⟨(before ++ after).map (·, ""), [path]⟩ path).outcome w.stamp c.failureLabel
        logged).withPlainLines := by
  obtain ⟨log, hcall⟩ := call_eq_runCommand h c (before ++ path :: after)
  obtain ⟨logged, houtcome⟩ := runCommand_eq_outcome (w := w) (v := v) hc hpath hflags log
  exact ⟨logged, by rw [run, hcall, houtcome]⟩

theorem run_path_eq_outcome (h : Accepts w.env words v) (hc : c.takesModel = true) (hpath : isOption path = false) :
    ∃ logged, run w (words ++ [c.name, path]) =
      ((c.report w v ⟨[], [path]⟩ path).outcome w.stamp c.failureLabel logged).withPlainLines := by
  have hnil : ∀ flag ∈ ([] ++ [] : List String), IsFlag c.options flag ∧ flag ≠ "--help" := List.forall_mem_nil _
  exact run_eq_outcome h hc hpath hnil

theorem isFlag_skillsets : IsFlag Command.render.options "--skillsets" ∧ "--skillsets" ≠ "--help" :=
  ⟨⟨by decide, by decide +kernel, by decide +kernel⟩, by decide⟩

theorem isFlag_noResolve : IsFlag Command.render.options "--no-resolve" ∧ "--no-resolve" ≠ "--help" :=
  ⟨⟨by decide, by decide +kernel, by decide +kernel⟩, by decide⟩

theorem BuildWords.exists_flags (h : BuildWords path c args) :
    c.takesModel = true ∧ ∃ before after, args = before ++ path :: after ∧
      (∀ flag ∈ before ++ after, IsFlag c.options flag ∧ flag ≠ "--help") ∧ "--no-resolve" ∉ before ++ after := by
  cases h with
  | validate | inspect => exact ⟨rfl, [], [], rfl, List.forall_mem_nil _, List.not_mem_nil⟩
  | render hflags =>
      refine ⟨rfl, _, _, rfl, fun flag hf => ?_, fun hn => absurd (hflags _ hn) (by decide)⟩
      rw [hflags flag hf]
      exact isFlag_skillsets

theorem outcome_ok (printed stamp label logged : String) :
    ((Report.ok printed).outcome stamp label logged).withPlainLines =
      ⟨0, withPlainLines printed, withPlainLines logged, []⟩ :=
  rfl

theorem outcome_failed (e : Error) (stamp logged : String) (c : Command) :
    ((Report.failed "" e).outcome stamp c.failureLabel logged).withPlainLines =
      ⟨1, failurePrefix stamp c ++ failureText e, withPlainLines logged, []⟩ := by
  have hline : withPlainLines ("" ++ reportLine stamp c.failureLabel e.message) =
      failurePrefix stamp c ++ failureText e := by
    rw [String.empty_append, withPlainLines_reportLine, reportLine, withoutControls_append, String.append_assoc]
    rfl
  rw [← hline]
  rfl

theorem run_of_buildFile_error (h : Accepts w.env words v) (hpath : isOption path = false)
    (ha : BuildWords path c args) {e : Error} (he : (Model.buildFile w.files path .empty).1 = .error e) :
    (run w (words ++ c.name :: args)).exitCode = 1 ∧
      (run w (words ++ c.name :: args)).stdout = failurePrefix w.stamp c ++ failureText e := by
  obtain ⟨hc, before, after, rfl, hflags, hn⟩ := ha.exists_flags
  obtain ⟨logged, hrun⟩ := run_eq_outcome h hc hpath hflags
  rw [hrun, report_of_error hc (Bool.eq_false_iff.2 fun hh => hn (has_flags.1 hh)) he, outcome_failed]
  exact ⟨rfl, rfl⟩

theorem run_of_buildFile_ok (h : Accepts w.env words v) (hpath : isOption path = false)
    (ha : BuildWords path c args) {m : Model} (hm : (Model.buildFile w.files path .empty).1 = .ok m) :
    (run w (words ++ c.name :: args)).exitCode = 0 := by
  obtain ⟨hc, before, after, rfl, hflags, hn⟩ := ha.exists_flags
  obtain ⟨logged, hrun⟩ := run_eq_outcome h hc hpath hflags
  obtain ⟨printed, hreport⟩ := report_of_ok hc (Bool.eq_false_iff.2 fun hh => hn (has_flags.1 hh)) hm v
  rw [hrun, hreport, outcome_ok]

theorem exitCode_eq_zero_of_parseWords (h : Accepts w.env words v) (hpath : isOption path = false)
    (ha : ParseWords path args) :
    (run w (words ++ Command.render.name :: args)).exitCode = 0 ↔
      ∃ m, (Model.parseFile w.files path .empty).1 = .ok m := by
  obtain ⟨hflags, hn⟩ := ha
  next before after =>
  have hspec : ∀ flag ∈ before ++ after, IsFlag Command.render.options flag ∧ flag ≠ "--help" := by
    intro flag hf
    rcases hflags flag hf with rfl | rfl
    · exact isFlag_skillsets
    · exact isFlag_noResolve
  obtain ⟨logged, hrun⟩ := run_eq_outcome h (c := .render) rfl hpath hspec
  rw [hrun, Command.report, has_flags.2 hn, Bool.not_true]
  cases hp : (Model.parseFile w.files path .empty).1 with
  | ok m =>
      rw [render_of_parsed hp, outcome_ok]
      exact iff_of_true rfl ⟨m, rfl⟩
  | error e =>
      have hfailed : ∀ skillsets, render w path skillsets false = .failed "" e := fun _ => render_of_error hp
      rw [hfailed, outcome_failed]
      exact iff_of_false Nat.one_ne_zero nofun

theorem stdout_of_render (h : Accepts w.env words v) (hpath : isOption path = false) {m : Model}
    (hm : (Model.buildFile w.files path .empty).1 = .ok m) :
    (run w (words ++ [Command.render.name, path])).stdout = withPlainLines (withoutSequences m.text) := by
  obtain ⟨logged, hrun⟩ := run_path_eq_outcome h (c := .render) rfl hpath
  have hreport : Command.report w v ⟨[], [path]⟩ path .render = _ := render_of_ok hm false
  rw [if_neg Bool.false_ne_true, String.empty_append] at hreport
  rw [hrun, hreport, outcome_ok]

theorem stdout_of_validate (h : Accepts w.env words v) (hpath : isOption path = false) (hv : 2 ≤ v) {m : Model}
    (hm : (Model.buildFile w.files path .empty).1 = .ok m) :
    (run w (words ++ [Command.validate.name, path])).stdout =
      withPlainLines (printedBefore w v m) ++ separatorLine ++ withPlainLines (withoutSequences m.text) := by
  obtain ⟨logged, hrun⟩ := run_path_eq_outcome h (c := .validate) rfl hpath
  rw [hrun, Command.report, validate_of_ok hm, if_pos hv, outcome_ok]
  show withPlainLines (printedBefore w v m ++ (separatorLine ++ withoutSequences m.text)) = _
  rw [(endsLine_printedBefore w v m).withPlainLines_append, endsLine_separatorLine.withPlainLines_append,
    withPlainLines_separatorLine, String.append_assoc]

end Calls

/-- For every file tree and path, with whatever the program accepts as its own options: the commands that
build the model of the path succeed together, and fail together with the text of the same error behind
a prefix of their own. What only reads the model succeeds exactly if it can be read. The text that is
rendered for a model is what validation prints last of it. -/
theorem building_commands_agree (w : World) {words : List String} {v : Int} (hwords : Accepts w.env words v)
    {path : String} (hpath : path.startsWith "-" = false) :
    let built := (Model.buildFile w.files path .empty).1
    let parsed := (Model.parseFile w.files path .empty).1
    let outcome := fun (c : Command) args => run w (words ++ c.name :: args)
    (∀ c args, BuildWords path c args →
      (∀ m, built = .ok m → (outcome c args).exitCode = 0) ∧
      ∀ e, built = .error e → (outcome c args).exitCode = 1 ∧
        (outcome c args).stdout = failurePrefix w.stamp c ++ failureText e) ∧
    (∀ args, ParseWords path args →
      ((outcome .render args).exitCode = 0 ↔ ∃ m, parsed = .ok m) ∧
      ∀ args', BuildWords path .render args' → (outcome .render args').exitCode = 0 →
        (outcome .render args).exitCode = 0) ∧
    ∀ m, built = .ok m → ∃ text, m.text? = some text ∧
      (outcome .render [path]).stdout = withPlainLines (withoutSequences text) ∧
      (2 ≤ v → (outcome .validate [path]).stdout =
        withPlainLines (printedBefore w v m) ++ separatorLine ++ (outcome .render [path]).stdout) := by
  intro built parsed outcome
  have hp : isOption path = false := by rw [isOption, hpath, Bool.false_and]
  refine ⟨fun c args ha => ⟨fun m hm => ?_, fun e he => ?_⟩, fun args ha => ?_, fun m hm => ?_⟩
  · exact run_of_buildFile_ok hwords hp ha hm
  · exact run_of_buildFile_error hwords hp ha he
  · have hiff := exitCode_eq_zero_of_parseWords hwords hp ha
    refine ⟨hiff, fun args' ha' hzero => hiff.2 ?_⟩
    cases hb : built with
    | ok m =>
        obtain ⟨n, hparse, -⟩ := Model.checked_eq_ok_iff.1 (Prod.ext hb rfl)
        exact ⟨n, congrArg Prod.fst hparse⟩
    | error e =>
        have hone := (run_of_buildFile_error hwords hp ha' hb).1
        rw [hzero] at hone
        cases hone
  · have hempty : Reachable (.besides .empty) := .empty
    have hrender := stdout_of_render hwords hp hm
    refine ⟨m.text, (Model.shown_of_buildFile hempty (Prod.ext hm rfl)).1, hrender, fun hv => ?_⟩
    exact (stdout_of_validate hwords hp hv hm).trans (congrArg _ hrender.symm)

theorem building_commands_agree_pose :
    let t : Tree := ⟨⟨["w"]⟩, [(⟨["w", "a.rl"]⟩, .bytes "type pose fn go(x: pose) \x7b go(x) \x7d".toUTF8.toList),
      (⟨["w", "b.rl"]⟩, .bytes "fn go(x: pose) \x7b\x7d".toUTF8.toList)]⟩
    let w : World := ⟨t, [(Log.levelVariable, "debug")], "[day]"⟩
    let words := ["-v", "2"]
    Accepts w.env words 2 ∧ "a.rl".startsWith "-" = false ∧ "b.rl".startsWith "-" = false ∧
      (run w (words ++ ["inspect", "a.rl"])).exitCode = 0 ∧
      (run w (words ++ ["validate", "a.rl"])).stdout =
        "[day] Model validation success!\n" ++ separatorLine ++ (run w (words ++ ["render", "a.rl"])).stdout ∧
      (run w (words ++ ["render", "--skillsets", "b.rl"])).exitCode = 1 ∧
      (run w (words ++ ["render", "b.rl", "--no-resolve"])).exitCode = 0 := by
  intro t w words
  have hwords : Accepts w.env words 2 := ⟨by decide +kernel, 10, by decide +kernel⟩
  have ha : "a.rl".startsWith "-" = false := by decide +kernel
  have hb : "b.rl".startsWith "-" = false := by decide +kernel
  obtain ⟨hbuild, -, hshown⟩ := building_commands_agree w hwords ha
  obtain ⟨hbuild', hparse', -⟩ := building_commands_agree w hwords hb
  have hskillsets : BuildWords "b.rl" .render (["--skillsets"] ++ "b.rl" :: []) :=
    .render fun _ hf => List.mem_singleton.1 hf
  have hnoResolve : ParseWords "b.rl" ([] ++ "b.rl" :: ["--no-resolve"]) :=
    .render (fun _ hf => .inr (List.mem_singleton.1 hf)) List.mem_cons_self
  have hm : ∃ m, (Model.buildFile t "a.rl" .empty).1 = .ok m := exists_of_isOk (by decide +kernel)
  have hn : ∃ n, (Model.parseFile t "b.rl" .empty).1 = .ok n := exists_of_isOk (by decide +kernel)
  have he : ∃ e, (Model.buildFile t "b.rl" .empty).1 = .error e := exists_of_not_isOk (by decide +kernel)
  obtain ⟨m, hm⟩ := hm
  obtain ⟨e, he⟩ := he
  obtain ⟨text, -, -, hvalidate⟩ := hshown m hm
  have hfront : withPlainLines (printedBefore w 2 m) = "[day] Model validation success!\n" := by
    rw [printedBefore, if_neg (by decide), String.append_empty, successLine, withPlainLines_reportLine]
    decide +kernel
  rw [hfront] at hvalidate
  exact ⟨hwords, ha, hb, (hbuild _ _ .inspect).1 m hm, hvalidate (by decide), ((hbuild' _ _ hskillsets).2 e he).1,
    (hparse' _ hnoResolve).1.2 hn⟩

end RobotLang.CommandLine
