namespace RobotLang

variable {α β ε σ : Type}

/-- The entry that fails is kept as its rewriting left it, and the ones after it as they were. -/
def mapUntil (f : α → α × Option ε) : List α → List α × Option ε
  | [] => ([], none)
  | a :: as =>
    match f a with
    | (b, some e) => (b :: as, some e)
    | (b, none) =>
      let rest := mapUntil f as
      (b :: rest.1, rest.2)

def foldUntil (step : σ → α → σ × Option ε) (s : σ) : List α → σ × Option ε
  | [] => (s, none)
  | a :: as =>
    match step s a with
    | (s, some e) => (s, some e)
    | (s, none) => foldUntil step s as

def throughFailure (f : α → Option ε) : List α → List α
  | [] => []
  | a :: as => a :: if (f a).isSome then [] else throughFailure f as

@[simp] theorem mapUntil_nil (f : α → α × Option ε) : mapUntil f [] = ([], none) := rfl

theorem mapUntil_eq_map (f : α → α × Option ε) (as : List α) (h : ∀ a ∈ as, (f a).2 = none) :
    mapUntil f as = (as.map fun a => (f a).1, none) := by
  induction as with
  | nil => rfl
  | cons a as ih =>
    have ha := h a List.mem_cons_self
    have hs := ih fun b hb => h b (List.mem_cons_of_mem _ hb)
    have hp : f a = ((f a).1, none) := by rw [← ha]
    rw [mapUntil, hp]
    simp [hs]

end RobotLang
