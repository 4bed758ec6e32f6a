import Mathlib.Data.List.Basic
import RobotLang.Log

namespace RobotLang.Log

open Text (isBlankChar trimmed)

abbrev Call := Int × Environment

def after (log : Log) (calls : List Call) : Log := calls.foldl (fun log c => (log.configure c.1 c.2).1) log

def answers (log : Log) : List Call → List (Except Error Int)
  | [] => []
  | c :: calls => (log.configure c.1 c.2).2 :: (log.configure c.1 c.2).1.answers calls

/-- The log when a level has been set, be it for the first time or again, and before any has been. -/
def withLevel : Option Int → Log
  | none => unconfigured
  | some level => ⟨level, false, [level]⟩

def spelled (value : String) : String := String.ofList ((trimmed isBlankChar value.toList).map upperChar)

def levelNames : List String := ["CRITICAL", "FATAL", "ERROR", "WARNING", "WARN", "INFO", "DEBUG", "NOTSET"]

variable {log : Log} {verbosity level : Int} {env : Environment} {e : Error}

theorem levelOfName?_eq_none_iff {name : String} : levelOfName? name = none ↔ name ∉ levelNames := by
  constructor
  · rintro h hn
    simp only [levelNames, List.mem_cons, List.not_mem_nil, or_false] at hn
    rcases hn with rfl | rfl | rfl | rfl | rfl | rfl | rfl | rfl <;> cases h
  · intro h
    rw [levelOfName?.eq_def]
    split
    case h_9 => rfl
    all_goals exact absurd (by decide) h

theorem levelOfName?_eq_zero_iff {name : String} : levelOfName? name = some 0 ↔ name = "NOTSET" := by
  constructor
  · intro h
    rw [levelOfName?.eq_def] at h
    split at h
    case h_8 => rfl
    all_goals exact absurd h (by decide)
  · rintro rfl
    rfl

def asked (env : Environment) : String :=
  if (env.lookup levelVariable).getD "" = "" then "info" else (env.lookup levelVariable).getD ""

theorem levelFrom_of_some (h : levelOfName? (spelled (asked env)) = some level) : levelFrom env = .ok level := by
  rw [spelled, asked] at h
  simp only [levelFrom, h]

theorem levelFrom_of_none (h : levelOfName? (spelled (asked env)) = none) :
    levelFrom env = .error (.unknownLevel (asked env)) := by
  rw [spelled, asked] at h
  simp only [levelFrom, h, asked]

theorem asked_of_lookup {value : String} (h : env.lookup levelVariable = some value) (hne : value ≠ "") :
    asked env = value := by
  rw [asked, h, Option.getD_some, if_neg hne]

theorem asked_eq_or (env : Environment) :
    asked env = "info" ∨ ∃ value, env.lookup levelVariable = some value ∧ value ≠ "" ∧ asked env = value := by
  cases h : env.lookup levelVariable with
  | none => exact .inl (by rw [asked, h]; rfl)
  | some value =>
      by_cases hne : value = ""
      · exact .inl (by rw [asked, h, hne]; rfl)
      · exact .inr ⟨value, rfl, hne, asked_of_lookup h hne⟩

theorem levelFrom_eq_error_iff :
    levelFrom env = .error e ↔ ∃ value, env.lookup levelVariable = some value ∧ value ≠ "" ∧
      spelled value ∉ levelNames ∧ e = .unknownLevel value := by
  constructor
  · intro h
    cases hl : levelOfName? (spelled (asked env)) with
    | some level =>
        rw [levelFrom_of_some hl] at h
        cases h
    | none =>
        rw [levelFrom_of_none hl] at h
        rcases asked_eq_or env with hinfo | ⟨value, hv, hne, ha⟩
        · rw [hinfo] at hl
          exact absurd hl (by decide)
        · rw [ha] at h hl
          exact ⟨value, hv, hne, levelOfName?_eq_none_iff.1 hl, (Except.error.inj h).symm⟩
  · rintro ⟨value, hv, hne, hn, rfl⟩
    have ha := asked_of_lookup hv hne
    rw [levelFrom_of_none (ha ▸ levelOfName?_eq_none_iff.2 hn), ha]

theorem levelFrom_eq_zero_iff :
    levelFrom env = .ok 0 ↔ ∃ value, env.lookup levelVariable = some value ∧ spelled value = "NOTSET" := by
  have hzero : levelFrom env = .ok 0 ↔ levelOfName? (spelled (asked env)) = some 0 := by
    cases hl : levelOfName? (spelled (asked env)) with
    | some level => simp [levelFrom_of_some hl]
    | none => simp [levelFrom_of_none hl]
  rw [hzero, levelOfName?_eq_zero_iff]
  constructor
  · intro h
    rcases asked_eq_or env with hinfo | ⟨value, hv, -, ha⟩
    · rw [hinfo] at h
      exact absurd h (by decide)
    · exact ⟨value, hv, ha ▸ h⟩
  · rintro ⟨value, hv, hn⟩
    have hne : value ≠ "" := by
      rintro rfl
      exact absurd hn (by decide)
    rw [asked_of_lookup hv hne, hn]

theorem levelFor_eq_error_iff :
    levelFor verbosity env = .error e ↔ 1 ≤ verbosity ∧ ∃ value, env.lookup levelVariable = some value ∧
      value ≠ "" ∧ spelled value ∉ levelNames ∧ e = .unknownLevel value := by
  rw [levelFor, ← levelFrom_eq_error_iff]
  split
  next h => simp only [reduceCtorEq, false_iff, not_and]; omega
  next h => simp only [iff_and_self]; omega

theorem levelFor_eq_zero_iff :
    levelFor verbosity env = .ok 0 ↔
      1 ≤ verbosity ∧ ∃ value, env.lookup levelVariable = some value ∧ spelled value = "NOTSET" := by
  rw [levelFor, ← levelFrom_eq_zero_iff]
  split
  next h => simp only [Except.ok.injEq, critical]; omega
  next h => simp only [iff_and_self]; omega

theorem configure_snd (log : Log) (verbosity : Int) (env : Environment) :
    (log.configure verbosity env).2 = levelFor verbosity env := by
  rw [configure]
  cases levelFor verbosity env <;> rfl

theorem configure_fst_of_error (h : (log.configure verbosity env).2 = .error e) :
    (log.configure verbosity env).1 = log := by
  rw [configure_snd] at h
  rw [configure, h]

theorem answers_eq_map (log : Log) (calls : List Call) :
    log.answers calls = calls.map fun c => levelFor c.1 c.2 := by
  induction calls generalizing log with
  | nil => rfl
  | cons c calls ih => rw [answers, configure_snd, ih, List.map_cons]

theorem withLevel_set (set? : Option Int) (level : Int) : (withLevel set?).set level = withLevel (some level) := by
  cases set? <;> rfl

theorem configure_withLevel (set? : Option Int) (verbosity : Int) (env : Environment) :
    ((withLevel set?).configure verbosity env).1 = withLevel ((levelFor verbosity env).toOption.or set?) := by
  rw [configure]
  cases levelFor verbosity env with
  | error e => rfl
  | ok level => exact withLevel_set set? level

theorem after_withLevel (set? : Option Int) (calls : List Call) : (withLevel set?).after calls =
    withLevel ((((withLevel set?).answers calls).filterMap Except.toOption).getLast?.or set?) := by
  induction calls generalizing set? with
  | nil => rfl
  | cons c calls ih =>
      have hstep : (withLevel set?).after (c :: calls) =
          (withLevel ((levelFor c.1 c.2).toOption.or set?)).after calls := by
        rw [← configure_withLevel]
        rfl
      rw [hstep, ih, answers_eq_map, answers_eq_map, List.map_cons]
      generalize calls.map (fun c => levelFor c.1 c.2) = later
      cases levelFor c.1 c.2 with
      | error e => rfl
      | ok level =>
          have hlevels : (Except.ok level :: later : List (Except Error Int)).filterMap Except.toOption =
              level :: later.filterMap Except.toOption := rfl
          rw [hlevels, List.getLast?_cons]
          cases (later.filterMap Except.toOption).getLast? <;> rfl

/-- Whatever calls have been made before, a call fails exactly if it is not to be silent and the environment
has a value that names no level, and then it leaves the log as it was. Once a call has answered a level, there
is one handler, and it has the level that was answered last, as the logger has, which does not propagate. -/
theorem configure_all_or_nothing (before : List Call) :
    (∀ verbosity env e, ((unconfigured.after before).configure verbosity env).2 = .error e ↔
      1 ≤ verbosity ∧ ∃ value, env.lookup levelVariable = some value ∧ value ≠ "" ∧
        spelled value ∉ levelNames ∧ e = .unknownLevel value) ∧
      (∀ verbosity env e, ((unconfigured.after before).configure verbosity env).2 = .error e →
        ((unconfigured.after before).configure verbosity env).1 = unconfigured.after before) ∧
      ∀ level, ((unconfigured.answers before).filterMap Except.toOption).getLast? = some level →
        unconfigured.after before = ⟨level, false, [level]⟩ := by
  refine ⟨fun verbosity env e => ?_, fun verbosity env e h => configure_fst_of_error h, fun level hlevel => ?_⟩
  · rw [configure_snd]
    exact levelFor_eq_error_iff
  · have hrun := after_withLevel none before
    rw [withLevel, hlevel, Option.some_or] at hrun
    exact hrun

theorem configure_all_or_nothing_chatty :
    let chatty : Environment := [("RLC_LOG", "chatty")]
    let before : List Call := [(2, chatty), (1, [("RLC_LOG", " Debug ")]), (0, chatty), (1, chatty)]
    ((unconfigured.answers before).filterMap Except.toOption).getLast? = some 51 ∧
      unconfigured.after before = ⟨51, false, [51]⟩ ∧
      ((unconfigured.after before).configure 3 chatty).2 = .error (.unknownLevel "chatty") ∧
      ((unconfigured.after before).configure 3 chatty).1 = ⟨51, false, [51]⟩ := by
  intro chatty before
  obtain ⟨hfails, hsame, hlast⟩ := configure_all_or_nothing before
  have hlevel : ((unconfigured.answers before).filterMap Except.toOption).getLast? = some 51 := by decide +kernel
  have herror := (hfails 3 chatty (.unknownLevel "chatty")).2 ⟨by decide, "chatty", rfl, by decide, by decide, rfl⟩
  exact ⟨hlevel, hlast 51 hlevel, herror, (hsame 3 chatty _ herror).trans (hlast 51 hlevel)⟩

/-- A record of a level passes the logger for a name and one of the handlers. -/
def LetsThrough (log : Log) (name : Option String) (level : Int) : Prop :=
  log.enabled (loggerName name) level = true ∧ ∃ handler ∈ log.handlers, handler ≤ level

/-- The level from which records are let through when one has been set: that of the logger above, for zero. -/
def threshold (level : Int) : Int := if level = 0 then rootLevel else level

theorem le_threshold (level : Int) : level ≤ threshold level := by
  rw [threshold]
  split
  next h => rw [h]; decide
  · exact Int.le_refl level

theorem enabled_iff (log : Log) (logger : String) (k : Int) :
    log.enabled logger k = true ↔ threshold log.level ≤ k := by
  have hlevel : log.effectiveLevel logger = threshold log.level := by
    rw [effectiveLevel, ownLevel, threshold]
    split <;> grind
  rw [enabled, hlevel, decide_eq_true_iff]

theorem letsThrough_withLevel (level : Int) (name : Option String) (k : Int) :
    (withLevel (some level)).LetsThrough name k ↔ threshold level ≤ k := by
  rw [LetsThrough, enabled_iff]
  exact ⟨And.left, fun hk => ⟨hk, level, List.mem_singleton_self level, Int.le_trans (le_threshold level) hk⟩⟩

theorem emit_withLevel (level : Int) (logger : String) (k : Int) (message : String) :
    (withLevel (some level)).emit logger k message = if threshold level ≤ k then line k message else "" := by
  by_cases hk : threshold level ≤ k
  · have henabled : (withLevel (some level)).enabled logger k = true := (enabled_iff _ _ _).2 hk
    have hpass : (withLevel (some level)).handlers.filter (· ≤ k) = [level] :=
      List.filter_eq_self.2 (List.forall_mem_singleton.2 (decide_eq_true (Int.le_trans (le_threshold level) hk)))
    rw [emit, henabled, hpass, if_pos hk]
    simp [withLevel, String.join]
  · have hsilent : (withLevel (some level)).enabled logger k = false :=
      Bool.eq_false_iff.2 fun h => hk ((enabled_iff _ _ _).1 h)
    rw [emit, hsilent, if_neg hk]
    rfl

/-- A call that answers a level makes the log let through what has this level, whichever logger it is sent
through, unless the level is that of `NOTSET`: then the logger above has its say, which lets warnings through. -/
theorem letsThrough_configured (before : List Call)
    (h : ((unconfigured.after before).configure verbosity env).2 = .ok level) :
    (∀ name k, ((unconfigured.after before).configure verbosity env).1.LetsThrough name k ↔ threshold level ≤ k) ∧
      (∀ logger k message, ((unconfigured.after before).configure verbosity env).1.emit logger k message =
        if threshold level ≤ k then line k message else "") ∧
      ((∀ name k, ((unconfigured.after before).configure verbosity env).1.LetsThrough name k ↔ level ≤ k) ↔
        ¬ (1 ≤ verbosity ∧ ∃ value, env.lookup levelVariable = some value ∧ spelled value = "NOTSET")) := by
  rw [configure_snd] at h
  have hlog : ((unconfigured.after before).configure verbosity env).1 = withLevel (some level) := by
    have hrun := after_withLevel none before
    rw [withLevel] at hrun
    rw [hrun, configure_withLevel, h]
    rfl
  rw [hlog, ← levelFor_eq_zero_iff, h]
  refine ⟨letsThrough_withLevel level, emit_withLevel level, ?_⟩
  simp only [letsThrough_withLevel, Except.ok.injEq]
  constructor
  · rintro hle rfl
    exact absurd ((hle none 0).2 (Int.le_refl 0)) (by decide)
  · intro hne name k
    rw [threshold, if_neg hne]

theorem letsThrough_configured_warning :
    let before : List Call := [(0, []), (2, [("RLC_LOG", "debug")])]
    let env : Environment := [("RLC_LOG", " Warning ")]
    let log := ((unconfigured.after before).configure 1 env).1
    ((unconfigured.after before).configure 1 env).2 = .ok 30 ∧
      (∀ name k, log.LetsThrough name k ↔ 30 ≤ k) ∧
      log.emit (loggerName (some "rlc_dsl.language")) 30 "odd" = "warning: odd\n" ∧
      log.emit (loggerName (some "rlc_dsl.language")) 29 "odd" = "" := by
  intro before env log
  have hlevel : ((unconfigured.after before).configure 1 env).2 = .ok 30 := by decide +kernel
  obtain ⟨hlets, hemit, -⟩ := letsThrough_configured before hlevel
  exact ⟨hlevel, hlets, (hemit _ _ _).trans (by decide +kernel), (hemit _ _ _).trans (by decide +kernel)⟩

theorem notset_drops_information :
    ¬ ∀ (before : List Call) (verbosity : Int) (env : Environment) (level : Int),
      ((unconfigured.after before).configure verbosity env).2 = .ok level →
        ∀ name k, ((unconfigured.after before).configure verbosity env).1.LetsThrough name k ↔ level ≤ k := by
  intro h
  have hlevel : (unconfigured.configure 1 [("RLC_LOG", "notset")]).2 = .ok 0 := by decide +kernel
  have hlets := (h [] 1 [("RLC_LOG", "notset")] 0 hlevel (some "rlc_dsl.language") 20).2 (by decide)
  exact absurd hlets.1 (by decide +kernel)

end RobotLang.Log
