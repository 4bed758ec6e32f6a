import RobotLang.Grammar.Token

namespace RobotLang.Grammar

open Text Number

variable {α : Type} {s r t : List Char}

/-- A scanner that was given the first text and has left the second one has taken something. -/
def Takes (s r : List Char) : Prop := r <:+ s ∧ r.length < s.length

namespace Takes

theorem cons {c : Char} (h : r <:+ s) : Takes (c :: s) r :=
  ⟨h.trans (List.suffix_cons c s), Nat.lt_succ_of_le h.length_le⟩

theorem of_suffix (h : Takes t r) (hs : t <:+ s) : Takes s r :=
  ⟨h.1.trans hs, Nat.lt_of_lt_of_le h.2 hs.length_le⟩

theorem suffix_trans (h : Takes s t) (hr : r <:+ t) : Takes s r :=
  ⟨hr.trans h.1, Nat.lt_of_le_of_lt hr.length_le h.2⟩

theorem dropWhile {p : Char → Bool} (h : s.takeWhile p ≠ []) : Takes s (s.dropWhile p) := by
  refine ⟨List.dropWhile_suffix p, ?_⟩
  have hlen := congrArg List.length (List.takeWhile_append_dropWhile (p := p) (l := s))
  have hpos := List.length_pos_iff.2 h
  rw [List.length_append] at hlen
  omega

end Takes

theorem skipFrom_suffix (comment : Bool) (s : List Char) : skipFrom comment s <:+ s := by
  fun_induction skipFrom comment s with
  | case1 => exact List.suffix_rfl
  | case2 c cs ih => exact ih.trans (List.suffix_cons c cs)
  | case3 cs ih => exact ih.trans ((List.suffix_cons '/' cs).trans (List.suffix_cons '/' _))
  | case4 c cs hc hg ih => exact ih.trans (List.suffix_cons c cs)
  | case5 c cs hc hg => exact List.suffix_rfl

theorem skip_suffix (s : List Char) : skip s <:+ s := skipFrom_suffix false s

theorem run_token_eq_some {terminal : Terminal} {scan : List Char → Option (α × List Char)} {mark : Nat}
    {a : α} (h : (token terminal scan).run s = some ((mark, a), r)) :
    mark = (skip s).length ∧ scan (skip s) = some (a, r) := by
  simp only [run_token, Option.map_eq_some_iff, Prod.mk.injEq] at h
  obtain ⟨⟨b, t⟩, hb, ⟨rfl, rfl⟩, rfl⟩ := h
  exact ⟨rfl, hb⟩

theorem scanWord_eq_some {w : String} {u : Unit} (h : scanWord w s = some (u, r)) :
    s = w.toList ++ r ∧ wordEnds r = true := by
  rw [scanWord] at h
  split at h
  next hw =>
    rw [Bool.and_eq_true, List.isPrefixOf_iff_prefix] at hw
    obtain ⟨-, rfl⟩ := Prod.mk.inj (Option.some.inj h)
    exact ⟨(List.prefix_iff_eq_append.1 hw.1).symm, hw.2⟩
  · cases h

theorem scanWord_takes {w : String} {u : Unit} (hw : w.toList ≠ []) (h : scanWord w s = some (u, r)) :
    Takes s r := by
  obtain ⟨rfl, -⟩ := scanWord_eq_some h
  refine ⟨List.suffix_append _ _, ?_⟩
  have hpos := List.length_pos_iff.2 hw
  rw [List.length_append]
  omega

theorem scanSymbol_eq_some {c : Char} {u : Unit} (h : scanSymbol c s = some (u, r)) : s = c :: r := by
  cases s with
  | nil => cases h
  | cons d ds =>
      rw [scanSymbol] at h
      split at h
      next hd =>
        obtain ⟨-, rfl⟩ := Prod.mk.inj (Option.some.inj h)
        rw [hd]
      · cases h

theorem scanSymbol_takes {c : Char} {u : Unit} (h : scanSymbol c s = some (u, r)) : Takes s r := by
  obtain rfl := scanSymbol_eq_some h
  exact .cons List.suffix_rfl

theorem scanIdentifier_takes {w : String} (h : scanIdentifier s = some (w, r)) : Takes s r := by
  cases s with
  | nil => cases h
  | cons c cs =>
      rw [scanIdentifier] at h
      split at h
      · obtain ⟨-, rfl⟩ := Prod.mk.inj (Option.some.inj h)
        exact .cons (List.dropWhile_suffix _)
      · cases h

/-- Whatever is made of its content, a scanner leaves what it has left. -/
theorem exists_of_map_content {β γ : Type} (f : β → γ) {o : Option (β × List Char)} {y : γ}
    (h : (o.map fun x => (f x.1, x.2)) = some (y, r)) : ∃ x, o = some (x, r) ∧ f x = y := by
  obtain ⟨⟨x, t⟩, hx, he⟩ := Option.map_eq_some_iff.1 h
  obtain ⟨rfl, rfl⟩ := Prod.mk.inj he
  exact ⟨x, hx, rfl⟩

section Quotes

variable {quote : Char} {content : List Char}

theorem eq_append_of_untilQuote (h : untilQuote quote s = some (content, r)) : s = content ++ quote :: r := by
  fun_induction untilQuote quote s generalizing content r with
  | case1 => cases h
  | case2 cs ih =>
      obtain ⟨x, hx, rfl⟩ := exists_of_map_content ('\\' :: quote :: ·) h
      rw [ih hx]
      rfl
  | case3 c cs hc ih =>
      obtain ⟨x, hx, rfl⟩ := exists_of_map_content ('\\' :: ·) h
      rw [ih hx]
      rfl
  | case4 cs hn =>
      obtain ⟨rfl, rfl⟩ := Prod.mk.inj (Option.some.inj h)
      rfl
  | case5 c cs hn hc ih =>
      obtain ⟨x, hx, rfl⟩ := exists_of_map_content (c :: ·) h
      rw [ih hx]
      rfl

theorem eq_append_of_untilLastEscape (h : untilLastEscape quote s = some (content, r)) :
    s = content ++ quote :: r := by
  fun_induction untilLastEscape quote s generalizing content r with
  | case1 => cases h
  | case2 cs x hx ih =>
      obtain ⟨rfl, rfl⟩ := Prod.mk.inj (Option.some.inj h)
      rw [ih hx]
      rfl
  | case3 cs hx ih =>
      obtain ⟨rfl, rfl⟩ := Prod.mk.inj (Option.some.inj h)
      rfl
  | case4 c cs hc ih =>
      obtain ⟨x, hx, rfl⟩ := exists_of_map_content ('\\' :: ·) h
      rw [ih hx]
      rfl
  | case5 c cs hn ih =>
      obtain ⟨x, hx, rfl⟩ := exists_of_map_content (c :: ·) h
      rw [ih hx]
      rfl

end Quotes

theorem scanString_takes {v : String} (h : scanString s = some (v, r)) : Takes s r := by
  cases s with
  | nil => cases h
  | cons quote cs =>
      rw [scanString] at h
      split at h
      · obtain ⟨content, ht, -⟩ := exists_of_map_content (String.ofList <| unescape ·) h
        have hcs : cs = content ++ quote :: r := by
          rw [Option.orElse_eq_or, Option.or_eq_some_iff] at ht
          rcases ht with ht | ⟨-, ht⟩
          · exact eq_append_of_untilQuote ht
          · exact eq_append_of_untilLastEscape ht
        rw [hcs]
        exact .cons ((List.suffix_cons quote r).trans (List.suffix_append _ _))
      · cases h

theorem scanSign_suffix (s : List Char) : (scanSign s).2 <:+ s := by
  unfold scanSign
  split
  · exact List.suffix_cons _ _
  · exact List.suffix_cons _ _
  · exact List.suffix_rfl

theorem scanInteger_takes {n : Numeral} (h : scanInteger s = some (n, r)) : Takes s r := by
  rw [scanInteger] at h
  split at h
  · cases h
  next hd =>
    obtain ⟨-, rfl⟩ := Prod.mk.inj (Option.some.inj h)
    exact (Takes.dropWhile hd).of_suffix (scanSign_suffix s)

theorem scanExponent_suffix {e : Int} (h : scanExponent s = some (e, r)) : r <:+ s := by
  cases s with
  | nil => cases h
  | cons c cs =>
      rw [scanExponent] at h
      split at h
      · obtain ⟨-, rfl⟩ := Prod.mk.inj (Option.some.inj h)
        exact (List.dropWhile_suffix _).trans ((scanSign_suffix cs).trans (List.suffix_cons c cs))
      · cases h

theorem scanDecimal_takes {x : Binary64} (h : scanDecimal s = some (x, r)) : Takes s r := by
  have hs := scanSign_suffix s
  rw [scanDecimal] at h
  split at h
  next rest hr =>
    dsimp only at h
    split at h
    · cases h
    · obtain ⟨-, rfl⟩ := Prod.mk.inj (Option.some.inj h)
      have hpoint : Takes (scanSign s).2 (rest.dropWhile isDigitChar) :=
        (Takes.cons (List.dropWhile_suffix _)).of_suffix (hr ▸ List.dropWhile_suffix _)
      refine (hpoint.suffix_trans ?_).of_suffix hs
      cases he : scanExponent (rest.dropWhile isDigitChar) with
      | none => exact List.suffix_rfl
      | some e => exact scanExponent_suffix (e := e.1) (r := e.2) he
  next hr =>
    split at h
    · cases h
    next hw =>
      obtain ⟨e, he, -⟩ := exists_of_map_content (Binary64.ofDecimal _ _) h
      exact ((Takes.dropWhile hw).suffix_trans (scanExponent_suffix he)).of_suffix hs

theorem scanReal_takes {x : Binary64} (h : scanReal s = some (x, r)) : Takes s r := by
  rw [scanReal, Option.filter_eq_some_iff] at h
  exact scanDecimal_takes h.1

def booleanSpellings : Bool → List String
  | true => ["True", "true"]
  | false => ["False", "false"]

theorem exists_scanWord_of_scanBoolean {b : Bool} (h : scanBoolean s = some (b, r)) :
    ∃ w ∈ booleanSpellings b, scanWord w s = some ((), r) := by
  have hword : ∀ (w : String) (b' : Bool), w ∈ booleanSpellings b' →
      ((scanWord w s).map fun x => (b', x.2)) = some (b, r) →
      ∃ w ∈ booleanSpellings b, scanWord w s = some ((), r) := by
    intro w b' hw h
    obtain ⟨_, hs, rfl⟩ := exists_of_map_content (fun _ => b') h
    exact ⟨w, hw, hs⟩
  simp only [scanBoolean, Option.orElse_eq_or, Option.or_eq_some_iff] at h
  rcases h with ((h | ⟨-, h⟩) | ⟨-, h⟩) | ⟨-, h⟩
  all_goals exact hword _ _ (by decide) h

theorem scanBoolean_takes {b : Bool} (h : scanBoolean s = some (b, r)) : Takes s r := by
  obtain ⟨w, hw, hs⟩ := exists_scanWord_of_scanBoolean h
  have hne : ∀ b, ∀ w ∈ booleanSpellings b, w.toList ≠ [] := by decide
  exact scanWord_takes (hne b w hw) hs

/-- Between the two places in a text there are characters of the class only. -/
def Spans (P : Char → Prop) (s r : List Char) : Prop := ∃ cs, s = cs ++ r ∧ ∀ c ∈ cs, P c

namespace Spans

variable {P Q : Char → Prop}

theorem refl (s : List Char) : Spans P s s := ⟨[], rfl, List.forall_mem_nil _⟩

theorem trans (h : Spans P s t) (h' : Spans P t r) : Spans P s r := by
  obtain ⟨cs, rfl, hcs⟩ := h
  obtain ⟨ds, rfl, hds⟩ := h'
  exact ⟨cs ++ ds, (List.append_assoc ..).symm, List.forall_mem_append.2 ⟨hcs, hds⟩⟩

theorem cons {c : Char} (hc : P c) (s : List Char) : Spans P (c :: s) s :=
  ⟨[c], rfl, List.forall_mem_singleton.2 hc⟩

theorem dropWhile {p : Char → Bool} (hp : ∀ c, p c = true → P c) (s : List Char) : Spans P s (s.dropWhile p) :=
  ⟨s.takeWhile p, List.takeWhile_append_dropWhile.symm, fun c hc => hp c (List.all_eq_true.1 List.all_takeWhile c hc)⟩

theorem mono (h : Spans P s r) (hPQ : ∀ c, P c → Q c) : Spans Q s r := by
  obtain ⟨cs, hs, hcs⟩ := h
  exact ⟨cs, hs, fun c hc => hPQ c (hcs c hc)⟩

end Spans

def IsNumberChar (c : Char) : Prop := isDigitChar c = true ∨ c ∈ ['-', '+', '.', 'e', 'E']

theorem spans_scanSign (s : List Char) : Spans IsNumberChar s (scanSign s).2 := by
  unfold scanSign
  split
  · exact .cons (.inr (by decide)) _
  · exact .cons (.inr (by decide)) _
  · exact .refl s

theorem spans_scanInteger {n : Numeral} (h : scanInteger s = some (n, r)) : Spans IsNumberChar s r := by
  rw [scanInteger] at h
  split at h
  · cases h
  · obtain ⟨-, rfl⟩ := Prod.mk.inj (Option.some.inj h)
    exact (spans_scanSign s).trans (.dropWhile (fun c hc => .inl (isDigitChar_of_isDigit hc)) _)

theorem spans_scanExponent {e : Int} (h : scanExponent s = some (e, r)) : Spans IsNumberChar s r := by
  cases s with
  | nil => cases h
  | cons c cs =>
      rw [scanExponent] at h
      split at h
      next hc =>
        obtain ⟨-, rfl⟩ := Prod.mk.inj (Option.some.inj h)
        have hletter : IsNumberChar c := by rcases hc.1 with rfl | rfl <;> exact .inr (by decide)
        exact (Spans.cons hletter cs).trans ((spans_scanSign cs).trans (.dropWhile (fun c => .inl) _))
      · cases h

theorem spans_scanDecimal {x : Binary64} (h : scanDecimal s = some (x, r)) : Spans IsNumberChar s r := by
  have hdigits : ∀ t, Spans IsNumberChar t (t.dropWhile isDigitChar) := .dropWhile fun c => .inl
  have hwhole := (spans_scanSign s).trans (hdigits _)
  rw [scanDecimal] at h
  split at h
  next rest hr =>
    dsimp only at h
    split at h
    · cases h
    · obtain ⟨-, rfl⟩ := Prod.mk.inj (Option.some.inj h)
      rw [hr] at hwhole
      have hpoint := hwhole.trans (.cons (.inr (by decide)) rest)
      refine (hpoint.trans (hdigits rest)).trans ?_
      cases he : scanExponent (rest.dropWhile isDigitChar) with
      | none => exact .refl _
      | some e => exact spans_scanExponent (e := e.1) (r := e.2) he
  next hr =>
    split at h
    · cases h
    · obtain ⟨e, he, -⟩ := exists_of_map_content (Binary64.ofDecimal _ _) h
      exact hwhole.trans (spans_scanExponent he)

theorem spans_scanReal {x : Binary64} (h : scanReal s = some (x, r)) : Spans IsNumberChar s r := by
  rw [scanReal, Option.filter_eq_some_iff] at h
  exact spans_scanDecimal h.1

end RobotLang.Grammar
