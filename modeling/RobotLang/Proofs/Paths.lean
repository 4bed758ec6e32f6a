import Mathlib.Data.List.Forall2
import RobotLang.Files.Path

namespace RobotLang.Files.Path

def IsName (piece : List Char) : Prop := piece ≠ [] ∧ piece ≠ ['.'] ∧ piece ≠ ['.', '.']

/-- A path whose names are spelled as themselves. -/
def IsProper (p : Path) : Prop := ∀ name ∈ p.names, IsName name.toList ∧ '/' ∉ name.toList

/-- Where one gets to from a place, piece by piece. -/
inductive Leads : List String → List (List Char) → List String → Prop
  | here (names : List String) : Leads names [] names
  | stay {names there : List String} {piece : List Char} {ps : List (List Char)}
      (hp : piece = [] ∨ piece = ['.']) (hl : Leads names ps there) : Leads names (piece :: ps) there
  | up {names there : List String} {ps : List (List Char)} (hl : Leads names.dropLast ps there) :
      Leads names (['.', '.'] :: ps) there
  | down {names there : List String} {piece : List Char} {ps : List (List Char)} (hp : IsName piece)
      (hl : Leads (names ++ [String.ofList piece]) ps there) : Leads names (piece :: ps) there

/-- The path that a text names, seen from a base directory, which is itself seen from the working
directory. A name that no file can have ends the way. -/
def Names (home : Path) (base text : String) (p : Path) : Prop :=
  if isAbsolute text then Leads [] (possiblePieces (text.toList.splitOn '/')) p.names
  else
    Leads (if isAbsolute base then [] else home.names)
      (possiblePieces (base.toList.splitOn '/' ++ text.toList.splitOn '/')) p.names

theorem pieces_eq_splitOn (cs : List Char) : (pieces cs).1 :: (pieces cs).2 = cs.splitOn '/' := by
  induction cs with
  | nil => rfl
  | cons c cs ih =>
      rw [pieces, List.splitOn_cons_eq_if_modifyHead, ← ih]
      by_cases hc : c = '/'
      · simp [hc]
      · simp [hc]

theorem piecesOf_eq_splitOn (text : String) : piecesOf text = text.toList.splitOn '/' :=
  pieces_eq_splitOn text.toList

theorem slash_not_mem_of_splitOn {cs : List Char} : ∀ piece ∈ cs.splitOn '/', '/' ∉ piece := by
  induction cs with
  | nil => simp
  | cons c cs ih =>
      obtain ⟨first, rest, hs⟩ := List.exists_cons_of_ne_nil (List.splitOn_ne_nil '/' cs)
      rw [hs] at ih
      obtain ⟨hfirst, hrest⟩ := List.forall_mem_cons.1 ih
      rw [List.splitOn_cons_eq_if_modifyHead, hs]
      by_cases hc : c = '/'
      · rw [if_pos (by simpa using hc)]
        exact List.forall_mem_cons.2 ⟨List.not_mem_nil, ih⟩
      · rw [if_neg (by simpa using hc)]
        refine List.forall_mem_cons.2 ⟨?_, hrest⟩
        rw [List.mem_cons, not_or]
        exact ⟨Ne.symm hc, hfirst⟩

theorem mem_of_mem_possiblePieces {piece : List Char} {ps : List (List Char)}
    (h : piece ∈ possiblePieces ps) : piece ∈ ps := by
  induction ps with
  | nil => exact h
  | cons p ps ih =>
      rw [possiblePieces] at h
      split at h
      · exact List.mem_singleton.1 h ▸ List.mem_cons_self
      · rcases List.mem_cons.1 h with rfl | h
        · exact List.mem_cons_self
        · exact List.mem_cons_of_mem _ (ih h)

theorem step_of_isName {piece : List Char} (h : IsName piece) (names : List String) :
    step names piece = String.ofList piece :: names := by
  rw [step, if_neg (not_or.2 ⟨h.1, h.2.1⟩), if_neg h.2.2]

theorem leads_iff {names there : List String} {ps : List (List Char)} :
    Leads names ps there ↔ there = (ps.foldl step names.reverse).reverse := by
  constructor
  · intro h
    induction h with
    | here names => simp
    | stay hp hl ih => rw [ih, List.foldl_cons, step, if_pos hp]
    | up hl ih =>
        rw [ih, List.foldl_cons, step, if_neg (by simp), if_pos rfl, List.tail_reverse]
    | down hp hl ih =>
        rw [ih, List.foldl_cons, step_of_isName hp]
        simp
  · rintro rfl
    induction ps generalizing names with
    | nil =>
        rw [List.foldl_nil, List.reverse_reverse]
        exact .here names
    | cons piece ps ih =>
        rw [List.foldl_cons]
        by_cases hstay : piece = [] ∨ piece = ['.']
        · rw [step, if_pos hstay]
          exact .stay hstay ih
        by_cases hup : piece = ['.', '.']
        · subst hup
          rw [step, if_neg hstay, if_pos rfl, List.tail_reverse]
          exact .up ih
        · have hname : IsName piece := ⟨fun he => hstay (.inl he), fun he => hstay (.inr he), hup⟩
          have hrest : Leads (names ++ [String.ofList piece]) ps _ := ih
          rw [List.reverse_append] at hrest
          rw [step_of_isName hname]
          exact .down hname hrest

theorem leads_ofPieces (base : Path) (isAbsolute : Bool) (ps : List (List Char)) {p : Path} :
    Leads (if isAbsolute then [] else base.names) ps p.names ↔ p = ofPieces base isAbsolute ps := by
  rw [leads_iff, ofPieces, Path.mk.injEq]
  cases isAbsolute <;> rfl

theorem isAbsolute_append {base : String} (h : base ≠ "") (text : String) :
    isAbsolute (base ++ text) = isAbsolute base := by
  obtain ⟨c, cs, hc⟩ := List.exists_cons_of_ne_nil (mt String.toList_eq_nil_iff.1 h)
  simp only [isAbsolute, String.toList_append, hc]
  rfl

theorem leads_empty_cons {names there : List String} {ps : List (List Char)} :
    Leads names ([] :: ps) there ↔ Leads names ps there := by
  rw [leads_iff, leads_iff, List.foldl_cons, step, if_pos (.inl rfl)]

theorem names_iff {home : Path} {base text : String} {p : Path} :
    home.Names base text p ↔ p = home.resolve (below base text) := by
  rw [Names, resolve, ← leads_ofPieces, piecesOf_eq_splitOn]
  by_cases habs : isAbsolute text = true
  · have hbelow : below base text = text := if_pos (.inr habs)
    rw [if_pos habs, hbelow, if_pos habs]
  rw [if_neg habs]
  by_cases hbase : base = ""
  · have hbelow : below base text = text := if_pos (.inl hbase)
    rw [hbelow, if_neg habs, hbase]
    exact leads_empty_cons
  · have hbelow : below base text = base ++ ("/" ++ text) := by
      rw [below, if_neg (not_or.2 ⟨hbase, habs⟩), String.append_assoc]
    have hsplit : (base ++ ("/" ++ text)).toList.splitOn '/' =
        base.toList.splitOn '/' ++ text.toList.splitOn '/' := by
      rw [String.toList_append, String.toList_append]
      exact List.splitOn_append_cons_self _ _
    rw [hbelow, hsplit, isAbsolute_append hbase]

theorem forall₂_names_iff {home : Path} {base : String} {texts : List String} {ps : List Path} :
    List.Forall₂ (home.Names base) texts ps ↔ ps = texts.map fun text => home.resolve (below base text) := by
  constructor
  · intro h
    induction h with
    | nil => rfl
    | cons hn _ ih => rw [List.map_cons, ← ih, names_iff.1 hn]
  · rintro rfl
    exact List.forall₂_map_right_iff.2 (List.forall₂_same.2 fun _ _ => names_iff.2 rfl)

theorem isProper_of_leads {names there : List String} {ps : List (List Char)} (h : Leads names ps there)
    (hn : IsProper ⟨names⟩) (hps : ∀ piece ∈ ps, '/' ∉ piece) : IsProper ⟨there⟩ := by
  induction h with
  | here names => exact hn
  | stay hp hl ih => exact ih hn (List.forall_mem_cons.1 hps).2
  | up hl ih =>
      exact ih (fun name hmem => hn name (List.dropLast_subset _ hmem)) (List.forall_mem_cons.1 hps).2
  | down hp hl ih =>
      obtain ⟨hslash, hrest⟩ := List.forall_mem_cons.1 hps
      refine ih (List.forall_mem_append.2 ⟨hn, List.forall_mem_singleton.2 ?_⟩) hrest
      rw [String.toList_ofList]
      exact ⟨hp, hslash⟩

theorem Names.isProper {home : Path} (hh : home.IsProper) {base text : String} {p : Path}
    (h : home.Names base text p) : p.IsProper := by
  have hroot : IsProper ⟨[]⟩ := List.forall_mem_nil _
  rw [Names] at h
  split at h
  · exact isProper_of_leads h hroot fun piece hp => slash_not_mem_of_splitOn piece (mem_of_mem_possiblePieces hp)
  · refine isProper_of_leads h ?_ fun piece hp => ?_
    · split
      · exact hroot
      · exact hh
    · rcases List.mem_append.1 (mem_of_mem_possiblePieces hp) with hp | hp
      · exact slash_not_mem_of_splitOn piece hp
      · exact slash_not_mem_of_splitOn piece hp

theorem toList_joined (names : List String) :
    (Text.joined "/" names).toList = ['/'].intercalate (names.map String.toList) := by
  induction names with
  | nil => rfl
  | cons n names ih =>
      cases names with
      | nil => simp [Text.joined, List.intercalate]
      | cons m ms =>
          rw [Text.joined, String.toList_append, String.toList_append, ih]
          · simp [List.intercalate]
          · exact List.cons_ne_nil m ms

theorem foldl_step_names {names : List String} (h : IsProper ⟨names⟩) (above : List String) :
    (names.map String.toList).foldl step above = names.reverse ++ above := by
  induction names generalizing above with
  | nil => rfl
  | cons n names ih =>
      obtain ⟨hn, hns⟩ := List.forall_mem_cons.1 h
      rw [List.map_cons, List.foldl_cons, step_of_isName hn.1, String.ofList_toList, ih hns]
      simp

theorem toList_text (p : Path) : p.text.toList = '/' :: ['/'].intercalate (p.names.map String.toList) := by
  rw [text, String.toList_append, toList_joined]
  rfl

theorem isAbsolute_text (p : Path) : isAbsolute p.text = true := by
  rw [isAbsolute, toList_text]
  rfl

theorem piecesOf_text {p : Path} (hp : p.IsProper) :
    piecesOf p.text = [] :: if p.names = [] then [[]] else p.names.map String.toList := by
  have hslash : ∀ piece ∈ p.names.map String.toList, '/' ∉ piece := by
    intro piece hmem
    obtain ⟨name, hname, rfl⟩ := List.mem_map.1 hmem
    exact (hp name hname).2
  rw [piecesOf_eq_splitOn, toList_text, List.splitOn_cons_eq_if_modifyHead, if_pos (BEq.refl '/')]
  split
  next hnil => rw [hnil]; rfl
  next hne => rw [List.splitOn_intercalate '/' hslash (mt List.map_eq_nil_iff.1 hne)]

theorem spell_text {p : Path} (hp : p.IsProper) (home : Path) : home.spell p.text = p := by
  have hfold : (piecesOf p.text).foldl step [] = p.names.reverse := by
    rw [piecesOf_text hp, List.foldl_cons, step, if_pos (.inl rfl)]
    split
    next hnil => rw [hnil]; rfl
    next hne => rw [foldl_step_names hp, List.append_nil]
  rw [spell, ofPieces, isAbsolute_text, if_pos rfl, hfold, List.reverse_reverse]

theorem spelledText_text {p : Path} (hp : p.IsProper) : p.spelledText p.text = p.text := by
  have hhead : p.text.toList.takeWhile (· = '/') = ['/'] := by
    rw [toList_text]
    cases hn : p.names with
    | nil => rfl
    | cons name names =>
        obtain ⟨hname, hslash⟩ := hp name (hn ▸ List.mem_cons_self)
        obtain ⟨c, cs, hc⟩ := List.exists_cons_of_ne_nil hname.1
        rw [hc, List.mem_cons, not_or] at hslash
        have hstart : ∃ rest, ['/'].intercalate ((name :: names).map String.toList) = c :: rest := by
          rw [List.map_cons, hc]
          cases names with
          | nil => exact ⟨_, rfl⟩
          | cons n ns => exact ⟨_, rfl⟩
        obtain ⟨rest, hrest⟩ := hstart
        have hne : decide (c = '/') = false := decide_eq_false (Ne.symm hslash.1)
        rw [hrest, List.takeWhile_cons, if_pos (by decide), List.takeWhile_cons, hne]
        rfl
  rw [spelledText, hhead]

end RobotLang.Files.Path
