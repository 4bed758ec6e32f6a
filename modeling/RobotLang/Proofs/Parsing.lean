import Mathlib.Data.List.Forall2
import RobotLang.Grammar.Parser

namespace RobotLang.Grammar.Parser

variable {α β : Type} {p : Parser α} {q : Parser β} {s r t : List Char} {a : α} {as : List α}

theorem run_optional_of_some (h : p.run s = some (a, r)) : (optional p).run s = some (some a, r) := by
  simp only [optional, run_orElse, run_map, h, Option.map_some, Option.orElse_some]

theorem run_optional_of_none (h : p.run s = none) : (optional p).run s = some (none, s) := by
  simp only [optional, run_orElse, run_map, h, Option.map_none, Option.orElse_none, run_pure]

theorem run_bind_of_some (h : p.run s = some (a, r)) (f : α → Parser β) :
    (p >>= f).run s = (f a).run r := by
  simp only [run_bind, h, Option.bind_some]

theorem run_bind_of_none (h : p.run s = none) (f : α → Parser β) : (p >>= f).run s = none := by
  simp only [run_bind, h, Option.bind_none]

theorem run_bind_eq_some {f : α → Parser β} {b : β} (h : (p >>= f).run s = some (b, t)) :
    ∃ a r, p.run s = some (a, r) ∧ (f a).run r = some (b, t) := by
  rw [run_bind, Option.bind_eq_some_iff] at h
  obtain ⟨⟨a, r⟩, ha, hb⟩ := h
  exact ⟨a, r, ha, hb⟩

theorem run_orElse_of_some {p' : Parser α} (h : p.run s = some (a, r)) :
    (p <|> p').run s = some (a, r) := by
  simp only [run_orElse, h, Option.orElse_some]

theorem run_orElse_of_none {p' : Parser α} (h : p.run s = none) : (p <|> p').run s = p'.run s := by
  simp only [run_orElse, h, Option.orElse_none]

theorem run_orElse_eq_some {p' : Parser α} (h : (p <|> p').run s = some (a, r)) :
    p.run s = some (a, r) ∨ p.run s = none ∧ p'.run s = some (a, r) := by
  cases hp : p.run s with
  | none => exact .inr ⟨rfl, run_orElse_of_none hp ▸ h⟩
  | some x =>
      rw [run_orElse_of_some hp] at h
      exact .inl h

theorem run_map_eq_some {f : α → β} {b : β} (h : (f <$> p).run s = some (b, r)) :
    ∃ a, p.run s = some (a, r) ∧ f a = b := by
  rw [run_map, Option.map_eq_some_iff] at h
  obtain ⟨⟨a, t⟩, ha, he⟩ := h
  obtain ⟨hb, rfl⟩ := Prod.mk.inj he
  exact ⟨a, ha, hb⟩

inductive Runs (p : Parser α) : List Char → List α → List Char → Prop
  | stop {s : List Char} (h : p.run s = none) : Runs p s [] s
  | step {s r t : List Char} {a : α} {as : List α} (h : p.run s = some (a, r)) (hr : Runs p r as t) :
      Runs p s (a :: as) t

theorem run_manyUpTo_succ (n : Nat) :
    (manyUpTo p (n + 1)).run s =
      (((p.run s).bind fun x => ((manyUpTo p n).run x.2).map fun y => (x.1 :: y.1, y.2)).orElse
        fun _ => some ([], s)) := by
  simp only [manyUpTo, run_orElse, run_bind, run_pure, Option.map_eq_bind, Function.comp_def]

theorem run_manyUpTo_isSome (p : Parser α) (n : Nat) (s : List Char) :
    ∃ x, (manyUpTo p n).run s = some x := by
  cases n with
  | zero => exact ⟨([], s), rfl⟩
  | succ n =>
      rw [run_manyUpTo_succ]
      generalize (p.run s).bind _ = o
      cases o with
      | none => exact ⟨([], s), rfl⟩
      | some x => exact ⟨x, rfl⟩

theorem run_manyUpTo_eq_cons {n : Nat} (h : (manyUpTo p n).run s = some (a :: as, t)) :
    ∃ m r, p.run s = some (a, r) ∧ (manyUpTo p m).run r = some (as, t) := by
  cases n with
  | zero => cases h
  | succ n =>
      rw [run_manyUpTo_succ] at h
      cases hp : p.run s with
      | none => simp [hp] at h
      | some x =>
          obtain ⟨y, hy⟩ := run_manyUpTo_isSome p n x.2
          simp only [hp, Option.bind_some, hy, Option.map_some, Option.orElse_some, Option.some.injEq,
            Prod.mk.injEq, List.cons.injEq] at h
          obtain ⟨⟨rfl, rfl⟩, rfl⟩ := h
          exact ⟨n, x.2, rfl, hy⟩

theorem run_manyUpTo_of_runs (h : Runs p s as t) {n : Nat} (hn : as.length ≤ n) :
    (manyUpTo p n).run s = some (as, t) := by
  induction h generalizing n with
  | @stop s h =>
      cases n with
      | zero => rfl
      | succ n => rw [run_manyUpTo_succ, h, Option.bind_none, Option.orElse_none]
  | step h _ ih =>
      cases n with
      | zero => cases hn
      | succ n =>
          rw [run_manyUpTo_succ, h, Option.bind_some, ih (Nat.le_of_succ_le_succ hn), Option.map_some,
            Option.orElse_some]

theorem run_many_of_runs (h : Runs p s as t) (hn : as.length ≤ s.length) :
    (many p).run s = some (as, t) := by
  rw [run_many]
  exact run_manyUpTo_of_runs h (Nat.le_succ_of_le hn)

theorem run_sepBy1_of_runs (ha : p.run s = some (a, r)) (h : Runs (do let _ ← q; p) r as t)
    (hn : as.length ≤ r.length) : (sepBy1 p q).run s = some (a :: as, t) := by
  rw [sepBy1, run_bind_of_some ha, run_bind_of_some (run_many_of_runs h hn), run_pure]

theorem run_sepBy_of_none (h : p.run s = none) : (sepBy p q).run s = some ([], s) := by
  rw [sepBy, run_orElse_of_none (by rw [sepBy1, run_bind_of_none h]), run_pure]

/-- Every answer satisfies `P` and has taken at least `k` characters. -/
def Gives (p : Parser α) (k : Nat) (P : α → Prop) : Prop :=
  ∀ s a r, p.run s = some (a, r) → r.length + k ≤ s.length ∧ P a

namespace Gives

variable {P P' : α → Prop} {Q : β → Prop} {k l : Nat}

theorem mono (h : Gives p k P) (hk : l ≤ k) (hP : ∀ a, P a → P' a) : Gives p l P' := by
  intro s a r ha
  obtain ⟨hlen, hp⟩ := h s a r ha
  exact ⟨by omega, hP a hp⟩

theorem pure (h : P a) : Gives (Pure.pure a : Parser α) 0 P := by
  intro s b r hb
  rw [run_pure, Option.some.injEq, Prod.mk.injEq] at hb
  obtain ⟨rfl, rfl⟩ := hb
  exact ⟨Nat.le_refl _, h⟩

theorem bind {f : α → Parser β} (h : Gives p k P) (hf : ∀ a, P a → Gives (f a) l Q) :
    Gives (p >>= f) (k + l) Q := by
  intro s b t hb
  obtain ⟨a, r, ha, hr⟩ := run_bind_eq_some hb
  obtain ⟨hlen, hP⟩ := h s a r ha
  obtain ⟨hlen', hQ⟩ := hf a hP r b t hr
  exact ⟨by omega, hQ⟩

theorem seq {f : α → Parser β} (h : Gives p k P) (hf : ∀ a, P a → Gives (f a) 0 Q) :
    Gives (p >>= f) 0 Q :=
  (h.bind hf).mono (Nat.zero_le _) fun _ h => h

theorem orElse {p' : Parser α} (h : Gives p k P) (h' : Gives p' k P) : Gives (p <|> p') k P := by
  intro s a r ha
  rcases run_orElse_eq_some ha with ha | ⟨-, ha⟩
  · exact h s a r ha
  · exact h' s a r ha

theorem map {f : α → β} (h : Gives p k P) (hf : ∀ a, P a → Q (f a)) : Gives (f <$> p) k Q := by
  intro s b r hb
  obtain ⟨a, ha, rfl⟩ := run_map_eq_some hb
  exact ⟨(h s a r ha).1, hf a (h s a r ha).2⟩

theorem optional (h : Gives p k P) : Gives (optional p) 0 fun o => ∀ a, o = some a → P a :=
  .orElse ((h.map fun a hP b hb => Option.some.inj hb ▸ hP).mono (Nat.zero_le k) fun _ h => h)
    (.pure fun _ h => by cases h)

theorem manyUpTo (h : Gives p k P) (n : Nat) : Gives (manyUpTo p n) 0 fun as => ∀ a ∈ as, P a := by
  induction n with
  | zero => exact .pure (by simp)
  | succ n ih =>
      refine .orElse ?_ (.pure (by simp))
      refine (h.bind fun a ha => ih.bind fun as has => .pure ?_).mono (Nat.zero_le _) fun _ h => h
      exact List.forall_mem_cons.2 ⟨ha, has⟩

theorem many (h : Gives p k P) : Gives (many p) 0 fun as => ∀ a ∈ as, P a :=
  fun s as r ha => h.manyUpTo _ s as r ha

theorem sepBy1 (h : Gives p k P) (hq : Gives q l Q) :
    Gives (sepBy1 p q) k fun as => ∀ a ∈ as, P a :=
  h.bind fun _ ha => (many (hq.bind fun _ _ => h)).bind fun _ has =>
    .pure (List.forall_mem_cons.2 ⟨ha, has⟩)

theorem sepBy (h : Gives p k P) (hq : Gives q l Q) : Gives (sepBy p q) 0 fun as => ∀ a ∈ as, P a :=
  .orElse ((h.sepBy1 hq).mono (Nat.zero_le k) fun _ h => h) (.pure (by simp))

theorem length_le_of_runs (h : Gives p 1 P) (hr : Runs p s as t) : as.length + t.length ≤ s.length := by
  induction hr with
  | stop _ => simp
  | step ha _ ih =>
      have hlen := (h _ _ _ ha).1
      rw [List.length_cons]
      omega

theorem runs_of_run_many (h : Gives p 1 P) (hm : (Parser.many p).run s = some (as, t)) : Runs p s as t := by
  have hall : ∀ (n : Nat) (s : List Char), s.length < n →
      ∀ as, (Parser.manyUpTo p n).run s = some (as, t) → Runs p s as t := by
    intro n
    induction n with
    | zero => exact fun s hs => absurd hs (Nat.not_lt_zero _)
    | succ n ih =>
        intro s hs as hm
        rw [run_manyUpTo_succ] at hm
        cases hp : p.run s with
        | none =>
            simp only [hp, Option.bind_none, Option.orElse_none, Option.some.injEq, Prod.mk.injEq] at hm
            obtain ⟨rfl, rfl⟩ := hm
            exact .stop hp
        | some x =>
            obtain ⟨a, r⟩ := x
            have hlen := (h s a r hp).1
            obtain ⟨y, hr⟩ := run_manyUpTo_isSome p n r
            simp only [hp, Option.bind_some, hr, Option.map_some, Option.orElse_some,
              Option.some.injEq, Prod.mk.injEq] at hm
            obtain ⟨rfl, rfl⟩ := hm
            exact .step hp (ih r (by omega) _ hr)
  exact hall _ s (Nat.lt_succ_self _) as hm

theorem runs_of_run_sepBy (h : Gives (do let _ ← q; p) 1 P) (hs : (Parser.sepBy p q).run s = some (a :: as, t)) :
    ∃ r, p.run s = some (a, r) ∧ Runs (do let _ ← q; p) r as t := by
  rcases run_orElse_eq_some hs with hs | ⟨-, hs⟩
  · obtain ⟨b, r, hb, hs⟩ := run_bind_eq_some hs
    obtain ⟨bs, t', hbs, hs⟩ := run_bind_eq_some hs
    rw [run_pure, Option.some.injEq, Prod.mk.injEq] at hs
    obtain ⟨he, rfl⟩ := hs
    obtain ⟨rfl, rfl⟩ := List.cons.inj he
    exact ⟨r, hb, h.runs_of_run_many hbs⟩
  · rw [run_pure, Option.some.injEq, Prod.mk.injEq] at hs
    cases hs.1

end Gives

/-- What is found in a text up to a rest of it. -/
structure Record (γ : Type) where
  holds : List Char → List γ → List Char → Prop
  nothing (s : List Char) : holds s [] s
  trans {s t r : List Char} {xs ys : List γ} (h : holds s xs t) (h' : holds t ys r) : holds s (xs ++ ys) r

section Records

variable {γ : Type} {R : Record γ} {p' : Parser α}

/-- Every answer comes with a record of the text that the parser has taken. -/
def Leaves (R : Record γ) (p : Parser α) (Q : α → List γ → Prop) : Prop :=
  ∀ s a r, p.run s = some (a, r) → ∃ xs, R.holds s xs r ∧ Q a xs

/-- The record is a function of the answer. -/
def Lists (R : Record γ) (p : Parser α) (f : α → List γ) : Prop := Leaves R p fun a xs => xs = f a

namespace Leaves

variable {Q Q₁ : α → List γ → Prop} {Q' : β → List γ → Prop}

theorem mono (h : Leaves R p Q) (hQ : ∀ a xs, Q a xs → Q₁ a xs) : Leaves R p Q₁ := by
  intro s a r ha
  obtain ⟨xs, hxs, hq⟩ := h s a r ha
  exact ⟨xs, hxs, hQ a xs hq⟩

theorem pure (h : Q a []) : Leaves R (Pure.pure a : Parser α) Q := by
  intro s b r hb
  rw [run_pure, Option.some.injEq, Prod.mk.injEq] at hb
  obtain ⟨rfl, rfl⟩ := hb
  exact ⟨[], R.nothing s, h⟩

theorem bind {f : α → Parser β} (h : Leaves R p Q)
    (hf : ∀ a xs, Q a xs → Leaves R (f a) fun b ys => Q' b (xs ++ ys)) : Leaves R (p >>= f) Q' := by
  intro s b t hb
  obtain ⟨a, r, ha, hr⟩ := run_bind_eq_some hb
  obtain ⟨xs, hxs, hQ⟩ := h s a r ha
  obtain ⟨ys, hys, hQ'⟩ := hf a xs hQ r b t hr
  exact ⟨xs ++ ys, R.trans hxs hys, hQ'⟩

theorem orElse (h : Leaves R p Q) (h' : Leaves R p' Q) : Leaves R (p <|> p') Q := by
  intro s a r ha
  rcases run_orElse_eq_some ha with ha | ⟨-, ha⟩
  · exact h s a r ha
  · exact h' s a r ha

theorem manyUpTo (h : Leaves R p Q) (n : Nat) :
    Leaves R (manyUpTo p n) fun as xs => ∃ rows, List.Forall₂ Q as rows ∧ xs = rows.flatten := by
  induction n with
  | zero => exact .pure ⟨[], .nil, rfl⟩
  | succ n ih =>
      refine .orElse (h.bind fun a xs hQ => ih.bind ?_) (.pure ⟨[], .nil, rfl⟩)
      rintro as _ ⟨rows, hrows, rfl⟩
      exact .pure ⟨xs :: rows, .cons hQ hrows, by rw [List.append_nil]; rfl⟩

theorem many (h : Leaves R p Q) :
    Leaves R (many p) fun as xs => ∃ rows, List.Forall₂ Q as rows ∧ xs = rows.flatten :=
  fun s as r ha => h.manyUpTo _ s as r ha

end Leaves

namespace Lists

variable {f : α → List γ} {Q : β → List γ → Prop}

theorem seq {k : α → Parser β} (h : Lists R p f) (hk : ∀ a, Leaves R (k a) fun b ys => Q b (f a ++ ys)) :
    Leaves R (p >>= k) Q :=
  Leaves.bind h fun a _ hxs => hxs ▸ hk a

theorem map {k : α → β} {g : β → List γ} (h : Lists R p f) (hk : ∀ a, g (k a) = f a) : Lists R (k <$> p) g := by
  intro s b r hb
  obtain ⟨a, ha, rfl⟩ := run_map_eq_some hb
  obtain ⟨xs, hxs, hf⟩ := h s a r ha
  exact ⟨xs, hxs, hf.trans (hk a).symm⟩

theorem optional (h : Lists R p f) : Lists R (optional p) fun o => o.elim [] f :=
  Leaves.orElse (h.map fun _ => rfl) (.pure rfl)

theorem manyUpTo (h : Lists R p f) (n : Nat) : Lists R (manyUpTo p n) fun as => as.flatMap f := by
  induction n with
  | zero => exact Leaves.pure rfl
  | succ n ih =>
      refine Leaves.orElse (h.seq fun a => ih.seq fun as => .pure ?_) (.pure rfl)
      rw [List.append_nil]
      rfl

theorem many (h : Lists R p f) : Lists R (many p) fun as => as.flatMap f :=
  fun s as r ha => h.manyUpTo _ s as r ha

theorem behind {xs : List γ} (h : Lists R p f) (hq : Lists R q fun _ => xs) :
    Lists R (do let _ ← q; p) fun a => xs ++ f a :=
  hq.seq fun _ => Leaves.mono h fun _ _ hys => congrArg (xs ++ ·) hys

/-- A record of separators comes before that of every answer but the first one. -/
theorem sepBy1_drop {xs : List γ} (h : Lists R p f) (hq : Lists R q fun _ => xs) :
    Lists R (sepBy1 p q) fun as => (as.flatMap fun a => xs ++ f a).drop xs.length := by
  refine h.seq fun a => (h.behind hq).many.seq fun as => .pure ?_
  show _ = ((a :: as).flatMap fun a => xs ++ f a).drop xs.length
  rw [List.append_nil, List.flatMap_cons, List.append_assoc, List.drop_left]

theorem sepBy_drop {xs : List γ} (h : Lists R p f) (hq : Lists R q fun _ => xs) :
    Lists R (sepBy p q) fun as => (as.flatMap fun a => xs ++ f a).drop xs.length :=
  Leaves.orElse (h.sepBy1_drop hq) (.pure List.drop_nil.symm)

theorem sepBy1 (h : Lists R p f) (hq : Lists R q fun _ => []) : Lists R (sepBy1 p q) fun as => as.flatMap f :=
  h.sepBy1_drop hq

theorem sepBy (h : Lists R p f) (hq : Lists R q fun _ => []) : Lists R (sepBy p q) fun as => as.flatMap f :=
  h.sepBy_drop hq

end Lists

end Records

end RobotLang.Grammar.Parser
