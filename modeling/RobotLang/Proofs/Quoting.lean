import RobotLang.Model.Expr
import RobotLang.Proofs.Scans

namespace RobotLang

open Grammar

def escaped (cs : List Char) : List Char := cs.flatMap fun c => if c = '"' then ['\\', '"'] else [c]

def EndsInBackslash (cs : List Char) : Prop := cs.getLast? = some '\\'

def EscapesQuote (cs : List Char) : Prop := ['\\', '\''] <:+: cs

instance (cs : List Char) : Decidable (EndsInBackslash cs) := inferInstanceAs (Decidable (_ = _))

instance (cs : List Char) : Decidable (EscapesQuote cs) := inferInstanceAs (Decidable (_ <:+: _))

theorem toList_quotedText (v : String) :
    (Literal.quotedText v).toList = '"' :: (escaped v.toList ++ ['"']) := by
  simp only [Literal.quotedText, String.toList_append, String.toList_ofList]
  rfl

section Escaped

variable {c : Char} {cs s : List Char}

theorem escaped_cons_quote (cs : List Char) : escaped ('"' :: cs) = '\\' :: '"' :: escaped cs := rfl

theorem escaped_cons (hc : c ≠ '"') (cs : List Char) : escaped (c :: cs) = c :: escaped cs := by
  rw [escaped, List.flatMap_cons, if_neg hc]
  rfl

theorem escaped_eq_self (h : '"' ∉ cs) : escaped cs = cs := by
  induction cs with
  | nil => rfl
  | cons c cs ih =>
      rw [List.mem_cons, not_or] at h
      rw [escaped_cons (Ne.symm h.1), ih h.2]

theorem escaped_append (cs ds : List Char) : escaped (cs ++ ds) = escaped cs ++ escaped ds :=
  List.flatMap_append

theorem head?_escaped_ne (h : cs = [] → s.head? ≠ some '"') : (escaped cs ++ s).head? ≠ some '"' := by
  cases cs with
  | nil => exact h rfl
  | cons c cs =>
      by_cases hc : c = '"'
      · simp [hc, escaped_cons_quote]
      · simpa [escaped_cons hc] using hc

theorem endsInBackslash_cons : EndsInBackslash (c :: cs) ↔ (c = '\\' ∧ cs = []) ∨ EndsInBackslash cs := by
  cases cs with
  | nil => simp [EndsInBackslash]
  | cons d cs => simp [EndsInBackslash, List.getLast?_cons_cons]

theorem EndsInBackslash.cons (h : EndsInBackslash cs) (c : Char) : EndsInBackslash (c :: cs) :=
  endsInBackslash_cons.2 (.inr h)

theorem escapesQuote_cons : EscapesQuote (c :: cs) ↔ (c = '\\' ∧ cs.head? = some '\'') ∨ EscapesQuote cs := by
  rw [EscapesQuote, List.infix_cons_iff]
  refine or_congr ?_ Iff.rfl
  cases cs with
  | nil => simp
  | cons d cs => simp [List.cons_prefix_cons, eq_comm]

end Escaped

/-! ### Up to the closing quote -/

section Closing

variable {c : Char} {cs content r s t : List Char}

theorem untilQuote_escape (s : List Char) :
    untilQuote '"' ('\\' :: '"' :: s) = (untilQuote '"' s).map fun x => ('\\' :: '"' :: x.1, x.2) := by
  rw [untilQuote, if_pos rfl]

theorem untilQuote_step (hc : c ≠ '"') (hs : c = '\\' → s.head? ≠ some '"') :
    untilQuote '"' (c :: s) = (untilQuote '"' s).map fun x => (c :: x.1, x.2) := by
  by_cases hb : c = '\\'
  · subst hb
    cases s with
    | nil => rfl
    | cons d s => rw [untilQuote, if_neg (by simpa using hs rfl)]
  · rw [untilQuote, if_neg hc]
    exact fun d ds h _ => hb h

theorem untilLastEscape_step (hs : c = '\\' → s.head? ≠ some '"') :
    untilLastEscape '"' (c :: s) = (untilLastEscape '"' s).map fun x => (c :: x.1, x.2) := by
  by_cases hb : c = '\\'
  · subst hb
    cases s with
    | nil => rfl
    | cons d s => rw [untilLastEscape, if_neg (by simpa using hs rfl)]
  · rw [untilLastEscape]
    exact fun d ds h _ => hb h

theorem head?_escaped_of_cons (h : EndsInBackslash (c :: cs) → s.head? ≠ some '"') :
    c = '\\' → (escaped cs ++ s).head? ≠ some '"' := by
  rintro rfl
  exact head?_escaped_ne fun hnil => h (hnil ▸ rfl)

/-- What has been escaped holds no closing quote, unless its end makes one of what follows. -/
theorem untilQuote_escaped (h : EndsInBackslash cs → s.head? ≠ some '"') :
    untilQuote '"' (escaped cs ++ s) = (untilQuote '"' s).map fun x => (escaped cs ++ x.1, x.2) := by
  induction cs with
  | nil => simp [escaped]
  | cons c cs ih =>
      have hstep := head?_escaped_of_cons h
      have hrest : EndsInBackslash cs → s.head? ≠ some '"' := fun he => h (he.cons c)
      by_cases hc : c = '"'
      · subst hc
        rw [escaped_cons_quote, List.cons_append, List.cons_append, untilQuote_escape, ih hrest, Option.map_map]
        rfl
      · rw [escaped_cons hc, List.cons_append, untilQuote_step hc hstep, ih hrest, Option.map_map]
        rfl

theorem untilLastEscape_escaped (h : EndsInBackslash cs → s.head? ≠ some '"')
    (hs : untilLastEscape '"' s = some (content, r)) :
    untilLastEscape '"' (escaped cs ++ s) = some (escaped cs ++ content, r) := by
  induction cs with
  | nil => exact hs
  | cons c cs ih =>
      have hstep := head?_escaped_of_cons h
      have hrest := ih fun he => h (he.cons c)
      by_cases hc : c = '"'
      · subst hc
        rw [escaped_cons_quote, List.cons_append, List.cons_append, untilLastEscape, if_pos rfl, hrest]
        rfl
      · rw [escaped_cons hc, List.cons_append, untilLastEscape_step hstep, hrest]
        rfl

theorem untilQuote_of_not_mem (h : '"' ∉ s) : untilQuote '"' s = none := by
  induction s with
  | nil => rfl
  | cons c s ih =>
      rw [List.mem_cons, not_or] at h
      rw [untilQuote_step (Ne.symm h.1) fun _ he => h.2 (List.mem_of_head? he), ih h.2, Option.map_none]

theorem untilLastEscape_of_not_mem (h : '"' ∉ s) : untilLastEscape '"' s = none := by
  induction s with
  | nil => rfl
  | cons c s ih =>
      rw [List.mem_cons, not_or] at h
      rw [untilLastEscape_step fun _ he => h.2 (List.mem_of_head? he), ih h.2, Option.map_none]

/-- Where a backslash hides the closing quote and there is no other one, that quote is taken after all. -/
theorem close_escaped (h : EndsInBackslash cs → '"' ∉ r) :
    ((untilQuote '"' (escaped cs ++ '"' :: r)).orElse fun _ => untilLastEscape '"' (escaped cs ++ '"' :: r)) =
      some (escaped cs, r) := by
  by_cases hb : EndsInBackslash cs
  · obtain ⟨ds, rfl⟩ := List.getLast?_eq_some_iff.1 hb
    have hsplit : escaped (ds ++ ['\\']) ++ '"' :: r = escaped ds ++ '\\' :: '"' :: r := by
      rw [escaped_append, List.append_assoc]
      rfl
    have hlast : untilLastEscape '"' ('\\' :: '"' :: r) = some (['\\'], r) := by
      rw [untilLastEscape, if_pos rfl, untilLastEscape_of_not_mem (h hb)]
    rw [hsplit, untilQuote_escaped fun _ => by simp, untilQuote_escape, untilQuote_of_not_mem (h hb),
      untilLastEscape_escaped (fun _ => by simp) hlast, escaped_append]
    rfl
  · rw [untilQuote_escaped fun he => absurd he hb, untilQuote, if_pos rfl]
    · simp
    · simp

theorem unescape_step (hs : c = '\\' → s.head? ≠ some '"' ∧ s.head? ≠ some '\'') :
    unescape (c :: s) = c :: unescape s := by
  by_cases hb : c = '\\'
  · subst hb
    cases s with
    | nil => rfl
    | cons d s => rw [unescape, if_neg (by simpa using hs rfl)]
  · rw [unescape]
    exact fun d ds h _ => hb h

theorem head?_escaped (cs : List Char) (hc : c ≠ '\\') (hq : c ≠ '"') :
    (escaped cs).head? = some c ↔ cs.head? = some c := by
  cases cs with
  | nil => rfl
  | cons d cs =>
      by_cases hd : d = '"'
      · simp [hd, escaped_cons_quote, Ne.symm hc, Ne.symm hq]
      · simp [escaped_cons hd]

theorem unescape_escaped_iff : unescape (escaped cs) = cs ↔ ¬ EscapesQuote cs := by
  induction cs with
  | nil => simp [escaped, unescape, EscapesQuote]
  | cons c cs ih =>
      by_cases hq : c = '"'
      · subst hq
        rw [escaped_cons_quote, unescape, if_pos (.inl rfl), List.cons_inj_right, ih, escapesQuote_cons]
        simp
      rw [escaped_cons hq]
      by_cases he : c = '\\' ∧ cs.head? = some '\''
      · obtain ⟨rfl, hd⟩ := he
        obtain ⟨d, ds⟩ := List.head?_eq_some_iff.1 hd
        subst ds
        rw [escaped_cons (by decide), unescape, if_pos (.inr rfl), escapesQuote_cons]
        simp
      · have hstep : c = '\\' → (escaped cs).head? ≠ some '"' ∧ (escaped cs).head? ≠ some '\'' := by
          intro hb
          rw [Ne, Ne, head?_escaped cs (by decide : '\'' ≠ '\\') (by decide)]
          refine ⟨?_, fun hd => he ⟨hb, hd⟩⟩
          have hhead : (escaped cs ++ []).head? ≠ some '"' := head?_escaped_ne fun _ => by simp
          rwa [List.append_nil] at hhead
        rw [unescape_step hstep, List.cons_inj_right, ih, escapesQuote_cons, or_iff_right he]

/-! ### Reading back what has been quoted -/

theorem not_endsInBackslash_of_untilQuote (h : untilQuote '"' s = some (content, r)) :
    ¬ EndsInBackslash content := by
  fun_induction untilQuote '"' s generalizing content r with
  | case1 => cases h
  | case2 cs ih =>
      obtain ⟨x, hx, rfl⟩ := exists_of_map_content ('\\' :: '"' :: ·) h
      simpa [endsInBackslash_cons] using ih hx
  | case3 c cs hc ih =>
      obtain ⟨x, hx, rfl⟩ := exists_of_map_content ('\\' :: ·) h
      -- The backslash is not the last character: what follows it is not the quote.
      have hne : x ≠ [] := by
        rintro rfl
        exact hc (List.cons.inj (eq_append_of_untilQuote hx)).1
      simpa [endsInBackslash_cons, hne] using ih hx
  | case4 cs hn =>
      obtain ⟨rfl, rfl⟩ := Prod.mk.inj (Option.some.inj h)
      simp [EndsInBackslash]
  | case5 c cs hn hc ih =>
      obtain ⟨x, hx, rfl⟩ := exists_of_map_content (c :: ·) h
      intro hb
      rcases endsInBackslash_cons.1 hb with ⟨rfl, rfl⟩ | hb
      · exact hn _ _ rfl (eq_append_of_untilQuote hx)
      · exact ih hx hb

theorem not_mem_of_untilQuote_eq_none (h : untilQuote '"' s = none) :
    (untilLastEscape '"' s = none → '"' ∉ s) ∧
      ∀ content r, untilLastEscape '"' s = some (content, r) → '"' ∉ r := by
  fun_induction untilLastEscape '"' s with
  | case1 => simp
  | case2 cs x hx ih =>
      rw [untilQuote_escape, Option.map_eq_none_iff] at h
      refine ⟨fun he => absurd he (Option.some_ne_none _), fun content r he => ?_⟩
      obtain ⟨-, rfl⟩ := Prod.mk.inj (Option.some.inj he)
      exact (ih h).2 _ _ hx
  | case3 cs hx ih =>
      rw [untilQuote_escape, Option.map_eq_none_iff] at h
      refine ⟨fun he => absurd he (Option.some_ne_none _), fun content r he => ?_⟩
      obtain ⟨-, rfl⟩ := Prod.mk.inj (Option.some.inj he)
      exact (ih h).1 hx
  | case4 c cs hc ih =>
      rw [untilQuote_step (by decide) (by simpa using hc), Option.map_eq_none_iff] at h
      obtain ⟨hnone, hsome⟩ := ih h
      refine ⟨fun he => ?_, fun content r he => ?_⟩
      · simpa using hnone (Option.map_eq_none_iff.1 he)
      · obtain ⟨x, hx, -⟩ := exists_of_map_content ('\\' :: ·) he
        exact hsome _ _ hx
  | case5 c cs hn ih =>
      have hc : c ≠ '"' := by
        rintro rfl
        simp [untilQuote] at h
      have hb : c = '\\' → cs.head? ≠ some '"' := fun hb he => by
        obtain ⟨ds, rfl⟩ := List.head?_eq_some_iff.1 he
        exact hn _ _ hb rfl
      rw [untilQuote_step hc hb, Option.map_eq_none_iff] at h
      obtain ⟨hnone, hsome⟩ := ih h
      refine ⟨fun he => ?_, fun content r he => ?_⟩
      · simpa [Ne.symm hc] using hnone (Option.map_eq_none_iff.1 he)
      · obtain ⟨x, hx, -⟩ := exists_of_map_content (c :: ·) he
        exact hsome _ _ hx

theorem unescape_eq_nil_iff : unescape content = [] ↔ content = [] := by
  fun_cases unescape content <;> simp

theorem unescape_eq_cons (h : unescape content = c :: cs) :
    ∃ rest, unescape rest = cs ∧ (content = c :: rest ∨ (c = '"' ∨ c = '\'') ∧ content = '\\' :: c :: rest) := by
  fun_cases unescape content with
  | case1 => cases h
  | case2 d ds hd =>
      rw [unescape, if_pos hd] at h
      obtain ⟨rfl, rfl⟩ := List.cons.inj h
      exact ⟨ds, rfl, .inr ⟨hd, rfl⟩⟩
  | case3 d ds hd =>
      rw [unescape, if_neg hd] at h
      obtain ⟨rfl, rfl⟩ := List.cons.inj h
      exact ⟨_, rfl, .inl rfl⟩
  | case4 d ds hn =>
      rw [unescape] at h
      · obtain ⟨rfl, rfl⟩ := List.cons.inj h
        exact ⟨_, rfl, .inl rfl⟩
      · exact hn

theorem eq_escaped_of_unescape (h : content <+: escaped cs ++ s) (hc : unescape content = cs) :
    content = escaped cs := by
  induction cs generalizing content with
  | nil => exact unescape_eq_nil_iff.1 hc
  | cons c cs ih =>
      obtain ⟨rest, hrest, rfl | ⟨hq, rfl⟩⟩ := unescape_eq_cons hc
      · by_cases hq : c = '"'
        · subst hq
          exact absurd (List.cons_prefix_cons.1 h).1 (by decide)
        · rw [escaped_cons hq] at h ⊢
          rw [ih (List.cons_prefix_cons.1 h).2 hrest]
      · rcases hq with rfl | rfl
        · rw [escaped_cons_quote] at h ⊢
          rw [ih (List.cons_prefix_cons.1 (List.cons_prefix_cons.1 h).2).2 hrest]
        · exact absurd (List.cons_prefix_cons.1 h).1 (by decide)

theorem unescape_eq_self_of_begins (h : content <+: unescape content ++ s) : unescape content = content := by
  fun_induction unescape content with
  | case1 => rfl
  | case2 c cs hc ih =>
      obtain ⟨rfl, -⟩ := List.cons_prefix_cons.1 h
      exact absurd hc (by decide)
  | case3 c cs hc ih => rw [ih (List.cons_prefix_cons.1 h).2]
  | case4 c cs hn ih => rw [ih (List.cons_prefix_cons.1 h).2]

theorem scanString_eq_some {v : String} (h : scanString ('"' :: s) = some (v, r)) :
    ∃ content, unescape content = v.toList ∧ s = content ++ '"' :: r ∧
      (¬ EndsInBackslash content ∨ '"' ∉ r) := by
  rw [scanString, if_pos (.inl rfl), Option.orElse_eq_or] at h
  obtain ⟨content, ht, rfl⟩ := exists_of_map_content (String.ofList <| unescape ·) h
  refine ⟨content, String.toList_ofList.symm, ?_⟩
  rcases Option.or_eq_some_iff.1 ht with ht | ⟨hnone, ht⟩
  · exact ⟨eq_append_of_untilQuote ht, .inl (not_endsInBackslash_of_untilQuote ht)⟩
  · exact ⟨eq_append_of_untilLastEscape ht, .inr ((not_mem_of_untilQuote_eq_none hnone).2 _ _ ht)⟩

theorem endsInBackslash_escaped : EndsInBackslash (escaped cs) ↔ EndsInBackslash cs := by
  induction cs with
  | nil => rfl
  | cons c cs ih =>
      have hnil : escaped cs = [] ↔ cs = [] := by
        cases cs with
        | nil => simp [escaped]
        | cons d ds => by_cases hd : d = '"' <;> simp [hd, escaped_cons_quote, escaped_cons]
      by_cases hc : c = '"'
      · simp [hc, escaped_cons_quote, endsInBackslash_cons, ih]
      · rw [escaped_cons hc, endsInBackslash_cons, endsInBackslash_cons, ih, hnil]

/-- A quoted string is read back if and only if there is no backslash before a single quote in it, and
none at its end unless no quote follows. -/
theorem scanString_quotedText_iff {v : String} :
    scanString ((Literal.quotedText v).toList ++ r) = some (v, t) ↔
      t = r ∧ ¬ EscapesQuote v.toList ∧ (EndsInBackslash v.toList → '"' ∉ r) := by
  rw [toList_quotedText, List.cons_append, List.append_assoc, List.singleton_append]
  constructor
  · intro h
    obtain ⟨content, hcontent, hs, hend⟩ := scanString_eq_some h
    obtain rfl := eq_escaped_of_unescape ⟨_, hs.symm⟩ hcontent
    obtain rfl := (List.cons.inj (List.append_cancel_left hs)).2
    rw [endsInBackslash_escaped] at hend
    exact ⟨rfl, unescape_escaped_iff.1 hcontent, hend.neg_resolve_left⟩
  · rintro ⟨rfl, hv, hr⟩
    rw [scanString, if_pos (.inl rfl), close_escaped hr, Option.map_some, unescape_escaped_iff.2 hv,
      String.ofList_toList]

theorem not_infix_of_unescape_eq_self (hc : c = '"' ∨ c = '\'') (h : unescape cs = cs) : ¬ ['\\', c] <:+: cs := by
  fun_induction unescape cs with
  | case1 => simp
  | case2 d ds hd ih =>
      obtain ⟨rfl, -⟩ := List.cons.inj h
      exact absurd hd (by decide)
  | case3 d ds hd ih =>
      have htail := ih (List.cons.inj h).2
      rw [List.infix_cons_iff, not_or]
      refine ⟨fun hp => hd ?_, htail⟩
      rwa [← (List.cons_prefix_cons.1 (List.cons_prefix_cons.1 hp).2).1]
  | case4 d ds hn ih =>
      have htail := ih (List.cons.inj h).2
      rw [List.infix_cons_iff, not_or]
      refine ⟨fun hp => ?_, htail⟩
      obtain ⟨rfl, rest, rfl⟩ := List.cons_prefix_cons.1 hp
      exact hn _ _ rfl rfl

theorem scanString_bare_iff {v : String} :
    scanString ('"' :: (v.toList ++ '"' :: r)) = some (v, t) ↔
      '"' ∉ v.toList ∧ t = r ∧ ¬ EscapesQuote v.toList ∧ (EndsInBackslash v.toList → '"' ∉ r) := by
  by_cases hq : '"' ∈ v.toList
  · simp only [hq, not_true_eq_false, false_and, iff_false]
    intro h
    obtain ⟨as, bs, hv, has⟩ := List.eq_append_cons_of_mem hq
    by_cases hb : EndsInBackslash as
    · obtain ⟨content, hcontent, hs, -⟩ := scanString_eq_some h
      have hself : unescape content = content := unescape_eq_self_of_begins ⟨_, by rw [hcontent, hs]⟩
      obtain ⟨as, rfl⟩ := List.getLast?_eq_some_iff.1 hb
      refine not_infix_of_unescape_eq_self (.inl rfl) hself ⟨as, bs, ?_⟩
      rw [← hself, hcontent, hv]
      simp
    · -- The first quote ends the string, which then is longer than what has been read.
      have hclose := close_escaped (r := bs ++ '"' :: r) fun he => absurd he hb
      rw [escaped_eq_self has] at hclose
      rw [hv, List.append_assoc, List.cons_append, scanString, if_pos (.inl rfl), hclose, Option.map_some,
        Option.some.injEq, Prod.mk.injEq] at h
      have hread : unescape as = as ++ '"' :: bs := by rw [← hv, ← h.1, String.toList_ofList]
      have hbegins : as <+: unescape as ++ [] := ⟨'"' :: bs, by simp [hread]⟩
      simp [unescape_eq_self_of_begins hbegins] at hread
  · rw [← scanString_quotedText_iff, toList_quotedText, escaped_eq_self hq]
    simp [hq]

end Closing

/-! ### Rows of strings -/

/-- In none of the strings a backslash stands before a single quote, and only the last one may end in a
backslash. -/
structure Quotable (vs : List String) : Prop where
  quotes : ∀ v ∈ vs, ¬ EscapesQuote v.toList
  ends : ∀ v ∈ vs.dropLast, ¬ EndsInBackslash v.toList

instance (vs : List String) : Decidable (Quotable vs) :=
  decidable_of_iff ((∀ v ∈ vs, ¬ EscapesQuote v.toList) ∧ ∀ v ∈ vs.dropLast, ¬ EndsInBackslash v.toList)
    ⟨fun ⟨hq, he⟩ => ⟨hq, he⟩, fun ⟨hq, he⟩ => ⟨hq, he⟩⟩

theorem quotable_cons {v : String} {vs : List String} :
    Quotable (v :: vs) ↔ (¬ EscapesQuote v.toList ∧ (EndsInBackslash v.toList → vs = [])) ∧ Quotable vs := by
  cases vs with
  | nil =>
      constructor
      · exact fun h => ⟨⟨h.quotes v List.mem_cons_self, fun _ => rfl⟩, ⟨by simp, by simp⟩⟩
      · exact fun h => ⟨by simpa using h.1.1, by simp⟩
  | cons w vs =>
      constructor
      · intro h
        have hquotes := List.forall_mem_cons.1 h.quotes
        have hends := List.forall_mem_cons.1 h.ends
        exact ⟨⟨hquotes.1, fun he => absurd he hends.1⟩, ⟨hquotes.2, hends.2⟩⟩
      · rintro ⟨⟨hv, he⟩, hvs⟩
        exact ⟨List.forall_mem_cons.2 ⟨hv, hvs.quotes⟩,
          List.forall_mem_cons.2 ⟨fun hb => List.cons_ne_nil _ _ (he hb), hvs.ends⟩⟩

theorem quotable_of_not_mem {vs : List String} (h : ∀ v ∈ vs, '\\' ∉ v.toList) : Quotable vs where
  quotes v hv he := h v hv (he.subset List.mem_cons_self)
  ends v hv he := h v (List.dropLast_subset _ hv) (List.mem_of_getLast? he)

/-- A character that begins neither a string nor a comment. -/
def IsInert (c : Char) : Prop := c ≠ '"' ∧ c ≠ '\'' ∧ c ≠ '/'

instance (c : Char) : Decidable (IsInert c) := inferInstanceAs (Decidable (c ≠ '"' ∧ c ≠ '\'' ∧ c ≠ '/'))

/-- A text in which the strings stand in quotes, in their order, and nothing else but inert characters. -/
inductive Shows : List String → List Char → Prop
  | nil : Shows [] []
  | inert {c : Char} {vs : List String} {s : List Char} (hc : IsInert c) (h : Shows vs s) : Shows vs (c :: s)
  | quoted (v : String) {vs : List String} {s : List Char} (h : Shows vs s) :
      Shows (v :: vs) ((Literal.quotedText v).toList ++ s)

namespace Shows

variable {vs : List String} {cs s : List Char}

theorem append_inert (hc : ∀ c ∈ cs, IsInert c) (h : Shows vs s) : Shows vs (cs ++ s) := by
  induction cs with
  | nil => exact h
  | cons c cs ih =>
      obtain ⟨hc, hcs⟩ := List.forall_mem_cons.1 hc
      exact .inert hc (ih hcs)

theorem mem_iff (h : Shows vs s) : '"' ∈ s ↔ vs ≠ [] := by
  induction h with
  | nil => simp
  | inert hc _ ih => rw [List.mem_cons, ih, or_iff_right (Ne.symm hc.1)]
  | quoted v _ => simp [toList_quotedText]

end Shows

end RobotLang
