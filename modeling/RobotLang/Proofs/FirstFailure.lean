import RobotLang.Resolve.Until

namespace RobotLang

variable {α β ε σ : Type}

theorem mapUntil_append (f : α → α × Option ε) (as bs : List α) :
    mapUntil f (as ++ bs) =
      match mapUntil f as with
      | (rewritten, some e) => (rewritten ++ bs, some e)
      | (rewritten, none) => (rewritten ++ (mapUntil f bs).1, (mapUntil f bs).2) := by
  induction as with
  | nil => rfl
  | cons a as ih =>
      simp only [List.cons_append, mapUntil, ih]
      rcases f a with ⟨b, _ | e⟩
      · rcases mapUntil f as with ⟨rewritten, _ | e⟩ <;> rfl
      · rfl

theorem mapUntil_of_failure (f : α → α × Option ε) {before after : List α} {a : α} {e : ε}
    (hb : ∀ b ∈ before, (f b).2 = none) (ha : (f a).2 = some e) :
    mapUntil f (before ++ a :: after) = (before.map (fun b => (f b).1) ++ (f a).1 :: after, some e) := by
  have hp : f a = ((f a).1, some e) := by rw [← ha]
  rw [mapUntil_append, mapUntil_eq_map f before hb]
  simp only [mapUntil]
  rw [hp]

theorem mapUntil_eq_map_of_eq {f : α → α × Option ε} {g : α → α} {as : List α}
    (h : ∀ a ∈ as, f a = (g a, none)) : mapUntil f as = (as.map g, none) := by
  rw [mapUntil_eq_map f as fun a ha => by rw [h a ha]]
  exact Prod.ext (List.map_congr_left fun a ha => by rw [h a ha]) rfl

theorem eq_map_of_mapUntil {f : α → α × Option ε} {as bs : List α} (h : mapUntil f as = (bs, none)) :
    (∀ a ∈ as, (f a).2 = none) ∧ bs = as.map fun a => (f a).1 := by
  induction as generalizing bs with
  | nil => exact ⟨List.forall_mem_nil _, (Prod.mk.inj h).1.symm⟩
  | cons a as ih =>
      rw [mapUntil] at h
      rcases hf : f a with ⟨b, _ | e⟩ <;> rw [hf] at h
      · obtain ⟨rfl, he⟩ := Prod.mk.inj h
        obtain ⟨hnone, hmap⟩ := ih (Prod.ext rfl he)
        refine ⟨List.forall_mem_cons.2 ⟨by rw [hf], hnone⟩, ?_⟩
        simp only [List.map_cons, hf, hmap]
      · cases (Prod.mk.inj h).2

theorem map_mapUntil {γ : Type} (f : α → α × Option ε) (g : α → γ) (h : ∀ a, g (f a).1 = g a)
    (as : List α) : (mapUntil f as).1.map g = as.map g := by
  induction as with
  | nil => rfl
  | cons a as ih =>
      have ha := h a
      rw [mapUntil]
      rcases hf : f a with ⟨b, _ | e⟩ <;> rw [hf] at ha
      · simp only [List.map_cons, ih, ha]
      · simp only [List.map_cons, ha]

theorem mapUntil_map {γ ε' : Type} (f : α → α × Option ε) (g : γ → γ × Option ε') (k : α → γ) (l : ε → ε')
    (h : ∀ a, g (k a) = (k (f a).1, (f a).2.map l)) (as : List α) :
    mapUntil g (as.map k) = ((mapUntil f as).1.map k, (mapUntil f as).2.map l) := by
  induction as with
  | nil => rfl
  | cons a as ih =>
      rw [List.map_cons, mapUntil, mapUntil, h a, ih]
      rcases f a with ⟨b, _ | e⟩ <;> rfl

theorem mapUntil_flatMap (f : α → α × Option ε) (F : β → β × Option ε) (parts : β → List α)
    (h : ∀ b, (parts (F b).1, (F b).2) = mapUntil f (parts b)) (bs : List β) :
    ((mapUntil F bs).1.flatMap parts, (mapUntil F bs).2) = mapUntil f (bs.flatMap parts) := by
  induction bs with
  | nil => rfl
  | cons b bs ih =>
      have hb := h b
      rw [List.flatMap_cons, mapUntil_append, ← hb, ← ih, mapUntil]
      rcases F b with ⟨c, _ | e⟩ <;> rfl

theorem fst_mapUntil_cons (f : α → α × Option ε) (a : α) (as : List α) :
    (mapUntil f (a :: as)).1 = (f a).1 :: if (f a).2.isSome then as else (mapUntil f as).1 := by
  rw [mapUntil]
  rcases f a with ⟨b, _ | e⟩ <;> rfl

theorem snd_mapUntil_cons (f : α → α × Option ε) (a : α) (as : List α) :
    (mapUntil f (a :: as)).2 = (f a).2.or (mapUntil f as).2 := by
  rw [mapUntil]
  rcases f a with ⟨b, _ | e⟩ <;> rfl

/-- A pass makes up for an earlier one that did not get over more entries. -/
theorem mapUntil_resume {f g : α → α × Option ε} (h : ∀ a, f (g a).1 = f a)
    (hn : ∀ a, (g a).2 = none → (f a).2 = none) (as : List α) :
    mapUntil f (mapUntil g as).1 = mapUntil f as := by
  induction as with
  | nil => rfl
  | cons a as ih =>
      rw [fst_mapUntil_cons]
      cases hg : (g a).2 with
      | some e => simp only [mapUntil, h a, Option.isSome_some, if_true]
      | none =>
          have hf : f a = ((f a).1, none) := by rw [← hn a hg]
          simp only [mapUntil, h a, Option.isSome_none, Bool.false_eq_true, if_false, ih]
          rw [hf]

theorem mapUntil_mapUntil (f : α → α × Option ε) (h : ∀ a, f (f a).1 = f a) (as : List α) :
    mapUntil f (mapUntil f as).1 = mapUntil f as :=
  mapUntil_resume h (fun _ hn => hn) as

theorem exists_of_mapUntil {f : α → α × Option ε} {as : List α} {e : ε} (h : (mapUntil f as).2 = some e) :
    ∃ a ∈ as, (f a).2 = some e := by
  induction as with
  | nil => cases h
  | cons a as ih =>
      rw [snd_mapUntil_cons, Option.or_eq_some_iff] at h
      rcases h with h | ⟨-, h⟩
      · exact ⟨a, List.mem_cons_self, h⟩
      · obtain ⟨b, hb, he⟩ := ih h
        exact ⟨b, List.mem_cons_of_mem a hb, he⟩

section

variable {ε' : Type} (f : α → α × Option ε) (g : α → α × Option ε')

/-- A pass ends as it would have ended before a pass that its rewriting takes no notice of. -/
theorem snd_mapUntil_mapUntil (h : ∀ a, (f (g a).1).2 = (f a).2) (as : List α) :
    (mapUntil f (mapUntil g as).1).2 = (mapUntil f as).2 := by
  induction as with
  | nil => rfl
  | cons a as ih =>
      rw [fst_mapUntil_cons, snd_mapUntil_cons, snd_mapUntil_cons, h a]
      split
      · rfl
      · rw [ih]

/-- Of two passes it does not matter which one goes first, also if either stops on its way. -/
theorem mapUntil_comm (hf : ∀ a, (f (g a).1).2 = (f a).2) (hg : ∀ a, (g (f a).1).2 = (g a).2)
    (h : ∀ a, (f (g a).1).1 = (g (f a).1).1) (as : List α) :
    (mapUntil f (mapUntil g as).1).1 = (mapUntil g (mapUntil f as).1).1 := by
  induction as with
  | nil => rfl
  | cons a as ih =>
      simp only [fst_mapUntil_cons, hf a, hg a, h a]
      cases (f a).2.isSome <;> cases (g a).2.isSome
      · simp only [Bool.false_eq_true, if_false, ih]
      all_goals rfl

end

theorem foldUntil_append (step : σ → α → σ × Option ε) (s : σ) (as bs : List α) :
    foldUntil step s (as ++ bs) =
      match foldUntil step s as with
      | (t, some e) => (t, some e)
      | (t, none) => foldUntil step t bs := by
  induction as generalizing s with
  | nil => rfl
  | cons a as ih =>
      simp only [List.cons_append, foldUntil]
      rcases step s a with ⟨t, _ | e⟩
      · exact ih t
      · rfl

theorem foldUntil_map {τ γ ε' : Type} (step : σ → α → σ × Option ε) (step' : τ → γ → τ × Option ε')
    (g : σ → τ) (k : α → γ) (l : ε → ε')
    (h : ∀ s a, step' (g s) (k a) = (g (step s a).1, (step s a).2.map l)) (s : σ) (as : List α) :
    foldUntil step' (g s) (as.map k) = (g (foldUntil step s as).1, (foldUntil step s as).2.map l) := by
  induction as generalizing s with
  | nil => rfl
  | cons a as ih =>
      rw [List.map_cons, foldUntil, foldUntil, h s a]
      rcases step s a with ⟨t, _ | e⟩
      · exact ih t
      · rfl

theorem exists_of_foldUntil {step : σ → α → σ × Option ε} {s : σ} {as : List α} {e : ε}
    (h : (foldUntil step s as).2 = some e) : ∃ t, ∃ a ∈ as, (step t a).2 = some e := by
  induction as generalizing s with
  | nil => cases h
  | cons a as ih =>
      rw [foldUntil] at h
      rcases hs : step s a with ⟨t, _ | e'⟩ <;> rw [hs] at h
      · obtain ⟨u, b, hb, he⟩ := ih h
        exact ⟨u, b, List.mem_cons_of_mem a hb, he⟩
      · exact ⟨s, a, List.mem_cons_self, by rw [hs]; exact h⟩

theorem foldUntil_keeps {P : σ → Prop} (step : σ → α → σ × Option ε)
    (h : ∀ s a, P s → P (step s a).1) (as : List α) {s : σ} (hs : P s) : P (foldUntil step s as).1 := by
  induction as generalizing s with
  | nil => exact hs
  | cons a as ih =>
      have ha := h s a hs
      simp only [foldUntil]
      rcases hstep : step s a with ⟨t, _ | e⟩
      · rw [hstep] at ha
        exact ih ha
      · rw [hstep] at ha
        exact ha

end RobotLang
