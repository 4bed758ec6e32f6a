import RobotLang.CommandLine.Run

namespace RobotLang.CommandLine

section Words

variable {specs : List OptionSpec} {words flags before after rest : List String} {word path : String}

theorem ok_of_map_withOption {r : Except OptionFault Given} {o : OptionSpec} {value : String}
    {options : List (String × String)} {arguments : List String}
    (h : r.map (·.withOption o value) = .ok ⟨options, arguments⟩) :
    ∃ more, r = .ok ⟨more, arguments⟩ ∧ options = (o.long, value) :: more := by
  cases r with
  | error fault => cases h
  | ok g =>
      obtain ⟨rfl, rfl⟩ := Given.mk.inj (Except.ok.inj h)
      exact ⟨g.options, rfl, rfl⟩

theorem ne_dashes (hw : isOption word = false) : word ≠ "--" := by
  rintro rfl
  exact absurd hw (by decide +kernel)

theorem readUpTo_append {limit : Nat} {options : List (String × String)}
    (h : readUpTo specs false limit words = .ok ⟨options, []⟩) (hw : isOption word = false)
    (extra : Nat) : readUpTo specs false (limit + extra + 1) (words ++ word :: rest) = .ok ⟨options, word :: rest⟩ := by
  have hword : ∀ limit, readUpTo specs false (limit + 1) (word :: rest) = .ok ⟨[], word :: rest⟩ := by
    intro limit
    rw [readUpTo, if_neg (ne_dashes hw), hw]
    rfl
  fun_induction readUpTo specs false limit words generalizing options with
  | case1 args =>
      obtain ⟨rfl, rfl⟩ := Given.mk.inj (Except.ok.inj h)
      exact hword _
  | case2 limit =>
      obtain ⟨rfl, -⟩ := Given.mk.inj (Except.ok.inj h)
      exact hword _
  | case3 limit args =>
      obtain ⟨rfl, rfl⟩ := Given.mk.inj (Except.ok.inj h)
      rw [Nat.succ_add, List.cons_append, readUpTo, if_pos rfl]
      rfl
  | case4 => contradiction
  | case5 | case6 | case9 | case10 => cases h
  -- What is left is an option joined with its value, one with its value after it, and one without a value.
  | case7 limit arg hdashes hoption o spelling htakes value args hspelled ih =>
      obtain ⟨more, hread, rfl⟩ := ok_of_map_withOption h
      rw [Nat.succ_add, Nat.succ_add, List.cons_append, readUpTo, if_neg hdashes, if_neg hoption, hspelled]
      simp only [htakes, if_true, ih hread]
      rfl
  | case8 limit arg hdashes hoption o spelling htakes value args hspelled ih =>
      obtain ⟨more, hread, rfl⟩ := ok_of_map_withOption h
      rw [Nat.succ_add, Nat.succ_add, List.cons_append, readUpTo, if_neg hdashes, if_neg hoption, hspelled]
      simp only [htakes, if_true, List.cons_append, ih hread]
      rfl
  | case11 limit arg args hdashes hoption o joined spelling hspelled htakes hjoined ih =>
      obtain ⟨more, hread, rfl⟩ := ok_of_map_withOption h
      rw [Nat.succ_add, Nat.succ_add, List.cons_append, readUpTo, if_neg hdashes, if_neg hoption, hspelled]
      simp only [htakes, hjoined, ih hread]
      rfl

theorem start_append {env : Environment} {v : Int} (h : start env words = .ok (v, []))
    (hw : isOption word = false) : start env (words ++ word :: rest) = .ok (v, word :: rest) := by
  rw [start] at h
  split at h
  · cases h
  next given hread =>
    split at h
    · cases h
    next hhelp =>
      split at h
      · cases h
      next verbosity hv =>
        obtain ⟨options, arguments⟩ := given
        obtain ⟨rfl, harguments⟩ := Prod.mk.inj (Except.ok.inj h)
        obtain rfl : arguments = [] := harguments
        have happend : read programOptions false (words ++ word :: rest) = .ok ⟨options, word :: rest⟩ := by
          rw [read, List.length_append, List.length_cons]
          exact readUpTo_append hread hw rest.length
        -- Neither the call for help nor the verbosity depends on the arguments.
        have hhelp' : (Given.mk options (word :: rest)).has helpOption.long = false := Bool.eq_false_iff.2 hhelp
        have hv' : verbosityFrom ⟨options, word :: rest⟩ env = .ok verbosity := hv
        simp only [start, happend, hhelp', hv', Bool.false_eq_true, if_false]

/-- A word that is read as an option without a value. -/
def IsFlag (specs : List OptionSpec) (word : String) : Prop :=
  word ≠ "--" ∧ isOption word = true ∧ spelled specs word = .option ⟨word, none, false⟩ none word

theorem readUpTo_flags (h : ∀ flag ∈ flags, IsFlag specs flag) (interspersed : Bool) (limit : Nat) :
    readUpTo specs interspersed (flags.length + limit) (flags ++ rest) =
      (readUpTo specs interspersed limit rest).map fun g =>
        { g with options := flags.map (·, "") ++ g.options } := by
  induction flags with
  | nil => cases hr : readUpTo specs interspersed limit rest <;> simp [hr, Except.map]
  | cons flag flags ih =>
      obtain ⟨⟨hd, ho, hs⟩, hflags⟩ := List.forall_mem_cons.1 h
      rw [List.length_cons, Nat.succ_add, List.cons_append, readUpTo, if_neg hd, ho, hs, ih hflags]
      cases readUpTo specs interspersed limit rest <;> rfl

theorem read_flags (hb : ∀ flag ∈ before, IsFlag specs flag) (ha : ∀ flag ∈ after, IsFlag specs flag)
    (hp : isOption path = false) :
    read specs true (before ++ path :: after) = .ok ⟨(before ++ after).map (·, ""), [path]⟩ := by
  have hafter : readUpTo specs true after.length after = .ok ⟨after.map (·, ""), []⟩ := by
    have h : readUpTo specs true (after.length + 0) (after ++ []) = _ := readUpTo_flags ha true 0
    simpa [readUpTo, Except.map] using h
  have hpath : readUpTo specs true (after.length + 1) (path :: after) = .ok ⟨after.map (·, ""), [path]⟩ := by
    rw [readUpTo, if_neg (ne_dashes hp), hp, hafter]
    rfl
  rw [read, List.length_append, List.length_cons, readUpTo_flags hb, hpath, List.map_append]
  rfl

theorem has_flags {arguments : List String} {long : String} :
    (Given.mk (flags.map (·, "")) arguments).has long = true ↔ long ∈ flags := by
  rw [Given.has, Given.value?, Option.isSome_map, List.find?_isSome]
  constructor
  · rintro ⟨option, ho, hlong⟩
    obtain ⟨flag, hf, rfl⟩ := List.mem_map.1 (List.mem_reverse.1 ho)
    exact beq_iff_eq.1 hlong ▸ hf
  · intro hf
    exact ⟨_, List.mem_reverse.2 (List.mem_map_of_mem hf), beq_iff_eq.2 rfl⟩

end Words

end RobotLang.CommandLine
