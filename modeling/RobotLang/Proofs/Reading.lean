import RobotLang.Grammar.Program
import RobotLang.Proofs.Layout
import RobotLang.Proofs.Parsing

namespace RobotLang.Grammar

open Text Number

variable {α β : Type}

/-- On every layout of `xs` and of lexemes that satisfy `F` after them, the parser gives an answer that
satisfies `Q` and leaves a layout of the lexemes after `xs`. -/
def Reads (p : Parser α) (xs : List Lexeme) (F : List Lexeme → Prop) (Q : α → Prop) : Prop :=
  ∀ ys s, F ys → Layout (xs ++ ys) s → ∃ a r, p.run s = some (a, r) ∧ Q a ∧ Layout ys r

/-- On no layout of `xs` there is an answer. -/
def Refuses (p : Parser α) (xs : List Lexeme) : Prop := ∀ s, Layout xs s → p.run s = none

def anything (_ : List Lexeme) : Prop := True

namespace Reads

variable {p : Parser α} {xs ys : List Lexeme} {F G : List Lexeme → Prop} {Q Q' : α → Prop}

theorem mono (h : Reads p xs F Q) (hF : ∀ ys, G ys → F ys) (hQ : ∀ a, Q a → Q' a) : Reads p xs G Q' := by
  intro ys s hG hs
  obtain ⟨a, r, ha, hq, hr⟩ := h ys s (hF ys hG) hs
  exact ⟨a, r, ha, hQ a hq, hr⟩

theorem pure {a : α} (h : Q a) : Reads (Pure.pure a : Parser α) [] F Q :=
  fun _ s _ hs => ⟨a, s, Parser.run_pure s a, h, hs⟩

theorem bind {f : α → Parser β} {R : β → Prop} (h : Reads p xs F Q)
    (hf : ∀ a, Q a → Reads (f a) ys G R) (hF : ∀ zs, G zs → F (ys ++ zs)) :
    Reads (p >>= f) (xs ++ ys) G R := by
  intro zs s hG hs
  rw [List.append_assoc] at hs
  obtain ⟨a, r, ha, hq, hr⟩ := h (ys ++ zs) s (hF zs hG) hs
  obtain ⟨b, t, hb, hR, ht⟩ := hf a hq zs r hG hr
  exact ⟨b, t, (Parser.run_bind_of_some ha f).trans hb, hR, ht⟩

theorem map {f : α → β} {R : β → Prop} (h : Reads p xs F Q) (hf : ∀ a, Q a → R (f a)) :
    Reads (f <$> p) xs F R := by
  intro ys s hF hs
  obtain ⟨a, r, ha, hq, hr⟩ := h ys s hF hs
  exact ⟨f a, r, by rw [Parser.run_map, ha]; rfl, hf a hq, hr⟩

theorem bind_pure {f : α → β} {R : β → Prop} (h : Reads p xs F Q) (hf : ∀ a, Q a → R (f a)) :
    Reads (p >>= fun a => Pure.pure (f a)) xs F R := by
  intro ys s hF hs
  obtain ⟨a, r, ha, hq, hr⟩ := h ys s hF hs
  exact ⟨f a, r, by rw [Parser.run_bind_of_some ha, Parser.run_pure], hf a hq, hr⟩

theorem orElse_left (h : Reads p xs F Q) (p' : Parser α) : Reads (p <|> p') xs F Q := by
  intro ys s hF hs
  obtain ⟨a, r, ha, hq, hr⟩ := h ys s hF hs
  exact ⟨a, r, Parser.run_orElse_of_some ha, hq, hr⟩

theorem orElse_right {p' : Parser α} (hp : ∀ ys, F ys → Refuses p (xs ++ ys)) (h : Reads p' xs F Q) :
    Reads (p <|> p') xs F Q := by
  intro ys s hF hs
  obtain ⟨a, r, ha, hq, hr⟩ := h ys s hF hs
  exact ⟨a, r, (Parser.run_orElse_of_none (hp ys hF s hs)).trans ha, hq, hr⟩

end Reads

namespace Refuses

variable {p p' : Parser α} {xs ys : List Lexeme}

theorem map (f : α → β) (h : Refuses p xs) : Refuses (f <$> p) xs := by
  intro s hs
  rw [Parser.run_map, h s hs]
  rfl

theorem orElse (h : Refuses p xs) (h' : Refuses p' xs) : Refuses (p <|> p') xs := by
  intro s hs
  rw [Parser.run_orElse_of_none (h s hs), h' s hs]

theorem bind (h : Refuses p xs) (f : α → Parser β) : Refuses (p >>= f) xs :=
  fun s hs => Parser.run_bind_of_none (h s hs) f

theorem bind_of_reads {f : α → Parser β} {F : List Lexeme → Prop} {Q : α → Prop}
    (h : Reads p xs F Q) (hF : F ys) (hf : ∀ a, Q a → Refuses (f a) ys) :
    Refuses (p >>= f) (xs ++ ys) := by
  intro s hs
  obtain ⟨a, r, ha, hq, hr⟩ := h ys s hF hs
  rw [Parser.run_bind_of_some ha, hf a hq r hr]

end Refuses

/-! ### Words and symbols -/

theorem IsIdentifier.ne_nil {w : String} (h : IsIdentifier w) : w.toList ≠ [] := by
  obtain ⟨c, cs, hw, -⟩ := h
  simp [hw]

theorem IsIdentifier.isWordChar {w : String} (h : IsIdentifier w) : ∀ c ∈ w.toList, isWordChar c = true := by
  obtain ⟨c, cs, hw, hc, -, hcs⟩ := h
  rw [hw]
  exact List.forall_mem_cons.2 ⟨hc, hcs⟩

theorem takeWhile_of_wordEnds {s : List Char} (h : wordEnds s = true) : s.takeWhile isWordChar = [] := by
  cases s with
  | nil => rfl
  | cons c cs =>
      simp only [wordEnds, Bool.not_eq_true'] at h
      rw [List.takeWhile_cons, h]
      rfl

theorem dropWhile_of_wordEnds {s : List Char} (h : wordEnds s = true) : s.dropWhile isWordChar = s := by
  have hs := List.takeWhile_append_dropWhile (p := isWordChar) (l := s)
  rwa [takeWhile_of_wordEnds h, List.nil_append] at hs

theorem wordEnds_dropWhile (s : List Char) : wordEnds (s.dropWhile isWordChar) = true := by
  induction s with
  | nil => rfl
  | cons c cs ih =>
      rw [List.dropWhile_cons]
      split
      · exact ih
      next hc => simpa [wordEnds] using hc

theorem scanWord_eq {w : String} (hw : ∀ c ∈ w.toList, isWordChar c = true) (s : List Char) :
    scanWord w s =
      if s.takeWhile isWordChar = w.toList then some ((), s.dropWhile isWordChar) else none := by
  rw [scanWord]
  by_cases h : s.takeWhile isWordChar = w.toList
  · have hs : w.toList ++ s.dropWhile isWordChar = s := h ▸ List.takeWhile_append_dropWhile
    have hd : s.drop w.toList.length = s.dropWhile isWordChar := by
      rw [← hs, List.drop_left, hs]
    rw [if_pos h, hd, wordEnds_dropWhile, Bool.and_true, if_pos]
    exact List.isPrefixOf_iff_prefix.2 ⟨_, hs⟩
  · rw [if_neg h, if_neg]
    intro hp
    rw [Bool.and_eq_true, List.isPrefixOf_iff_prefix] at hp
    obtain ⟨⟨r, rfl⟩, hr⟩ := hp
    rw [List.drop_left] at hr
    exact h (by rw [List.takeWhile_append_of_pos hw, takeWhile_of_wordEnds hr, List.append_nil])

theorem scanIdentifier_eq {c : Char} (hc : isWordChar c = true) (hd : isDigitChar c = false)
    (s : List Char) :
    scanIdentifier (c :: s) =
      some (String.ofList ((c :: s).takeWhile isWordChar), (c :: s).dropWhile isWordChar) := by
  simp only [scanIdentifier, hc, hd, Bool.not_false, Bool.and_true, if_true, List.takeWhile_cons,
    List.dropWhile_cons]

theorem takeWhile_word {w : String} (hw : IsIdentifier w) {r : List Char} (hr : wordEnds r = true) :
    (w.toList ++ r).takeWhile isWordChar = w.toList := by
  rw [List.takeWhile_append_of_pos hw.isWordChar, takeWhile_of_wordEnds hr, List.append_nil]

theorem dropWhile_word {w : String} (hw : IsIdentifier w) {r : List Char} (hr : wordEnds r = true) :
    (w.toList ++ r).dropWhile isWordChar = r := by
  rw [List.dropWhile_append_of_pos hw.isWordChar, dropWhile_of_wordEnds hr]

/-! ### Tokens on layouts -/

variable {terminal : Terminal} {scan : List Char → Option (α × List Char)} {x : Lexeme}
  {xs ys : List Lexeme} {F : List Lexeme → Prop}

theorem reads_token {a : α}
    (h : ∀ cs r ys, x.Before r cs → F ys → Layout ys r → scan (cs ++ r) = some (a, r)) :
    Reads (token terminal scan) [x] F fun t => t.2 = a := by
  intro ys s hF hs
  obtain ⟨cs, r, hskip, hx, hr⟩ := hs.skip_eq
  refine ⟨((skip s).length, a), r, ?_, rfl, hr⟩
  rw [run_token, hskip, h cs r ys hx hF hr]
  rfl

theorem refuses_token (hnil : scan [] = none)
    (h : ∀ x ∈ xs.head?, ∀ c s, x.IsHead c → scan (c :: s) = none) : Refuses (token terminal scan) xs := by
  intro s hs
  rw [run_token]
  cases xs with
  | nil =>
      cases hs with
      | nil hs => rw [skip_finalGap hs, hnil, Option.map_none]
  | cons x xs =>
      obtain ⟨c, rest, hskip, hc⟩ := hs.head
      rw [hskip, h x rfl c rest hc, Option.map_none]

theorem reads_word {w : String} (hw : IsIdentifier w) :
    Reads (word w) [.word w] anything fun _ => True := by
  refine (reads_token (a := ()) fun cs r ys hx _ _ => ?_).mono (fun _ h => h) fun _ _ => trivial
  cases hx with
  | word _ hr =>
      rw [scanWord_eq hw.isWordChar, takeWhile_word hw hr, dropWhile_word hw hr, if_pos rfl]

theorem Lexeme.IsHead.takeWhile_ne {w : String} (hw : IsIdentifier w) {c : Char} (hx : x.IsHead c)
    (hn : ∀ v, x ≠ .word v) (s : List Char) : (c :: s).takeWhile isWordChar ≠ w.toList := by
  obtain ⟨d, ds, hd, hwd, hdd, -⟩ := hw
  intro h
  rw [hd, List.takeWhile_cons] at h
  split at h
  next hc =>
    obtain rfl := (List.cons.inj h).1
    cases x with
    | word v => exact hn v rfl
    | symbol e =>
        rw [(isolated_of_mem_symbols hx.2).1] at hc
        cases hc
    | string s => rcases hx with rfl | rfl <;> exact absurd hc (by decide)
    | numeral n =>
        rcases hx with rfl | rfl | hx
        · exact absurd hc (by decide)
        · exact absurd hc (by decide)
        · rw [isDigitChar_of_isDigit hx] at hdd
          cases hdd
  · cases h

theorem refuses_word {w : String} (hw : IsIdentifier w) (h : xs.head? ≠ some (.word w)) :
    Refuses (word w) xs := by
  intro s hs
  rw [word, run_token, scanWord_eq hw.isWordChar, if_neg, Option.map_none]
  cases xs with
  | nil =>
      cases hs with
      | nil hs =>
          rw [skip_finalGap hs]
          exact fun he => hw.ne_nil he.symm
  | cons x xs =>
      by_cases hx : ∃ v, x = .word v
      · obtain ⟨v, rfl⟩ := hx
        obtain ⟨cs, r, hskip, hv, -⟩ := hs.skip_eq
        cases hv with
        | word hv hends =>
            rw [hskip, takeWhile_word hv hends]
            exact fun he => h (by rw [List.head?_cons, String.toList_inj.1 he])
      · obtain ⟨c, rest, hskip, hc⟩ := hs.head
        rw [hskip]
        exact hc.takeWhile_ne hw (fun v hv => hx ⟨v, hv⟩) rest

theorem reads_identifier (w : String) : Reads identifier [.word w] anything fun t => t.2 = w := by
  refine reads_token fun cs r ys hx _ _ => ?_
  cases hx with
  | word hw hr =>
      obtain ⟨c, cs, hcs, hc, hd, -⟩ := id hw
      have ht := takeWhile_word hw hr
      have hd' := dropWhile_word hw hr
      rw [hcs, List.cons_append] at ht hd' ⊢
      rw [scanIdentifier_eq hc hd, ht, hd', ← hcs, String.ofList_toList]

theorem refuses_identifier (h : ∀ w, xs.head? ≠ some (.word w)) : Refuses identifier xs := by
  refine refuses_token rfl fun x hx c s hc => ?_
  cases x with
  | word w => exact absurd hx (h w)
  | symbol d =>
      simp only [scanIdentifier, (isolated_of_mem_symbols hc.2).1, Bool.false_and, Bool.false_eq_true, if_false]
  | string w => rcases hc with rfl | rfl <;> rfl
  | numeral n =>
      rcases hc with rfl | rfl | hc
      · rfl
      · rfl
      · simp only [scanIdentifier, isDigitChar_of_isDigit hc, Bool.not_true, Bool.and_false,
          Bool.false_eq_true, if_false]

theorem reads_symbol (c : Char) : Reads (symbol c) [.symbol c] anything fun _ => True := by
  refine (reads_token (a := ()) fun cs r ys hx _ _ => ?_).mono (fun _ h => h) fun _ _ => trivial
  cases hx with
  | symbol _ => exact if_pos rfl

theorem refuses_symbol {c : Char} (hc : c ∈ symbols) (h : xs.head? ≠ some (.symbol c)) :
    Refuses (symbol c) xs := by
  refine refuses_token rfl fun x hx d s hd => if_neg ?_
  rintro rfl
  obtain ⟨hword, hdigit, -⟩ := isolated_of_mem_symbols hc
  cases x with
  | word w => exact absurd (hword.symm.trans hd.1) Bool.false_ne_true
  | symbol e =>
      obtain ⟨rfl, -⟩ := hd
      exact h hx
  | string w => rcases hd with rfl | rfl <;> exact absurd hc (by decide)
  | numeral n =>
      rcases hd with rfl | rfl | hd
      · exact absurd hc (by decide)
      · exact absurd hc (by decide)
      · rw [isDigitChar_of_isDigit hd] at hdigit
        cases hdigit

/-! ### Strings -/

theorem reads_string (v : String) : Reads string [.string v] anything fun t => t.2 = v := by
  refine reads_token fun cs r ys hx _ _ => ?_
  cases hx with
  | string h => exact h

theorem refuses_string (h : ∀ v, xs.head? ≠ some (.string v)) : Refuses string xs := by
  refine refuses_token rfl fun x hx c s hc => ?_
  rw [scanString, if_neg]
  rintro (rfl | rfl)
  all_goals
    cases x with
    | word w => exact absurd hc.1 (by decide)
    | symbol d => exact absurd hc.2 (by decide)
    | string v => exact h v hx
    | numeral n => exact absurd hc (by simp [Lexeme.IsHead])

/-! ### Numerals -/

def BeforeSymbol (ys : List Lexeme) : Prop := ∃ c zs, ys = .symbol c :: zs

theorem Layout.first_char {c : Char} {s : List Char} (h : Layout (.symbol c :: ys) s) :
    ∃ d r, s = d :: r ∧ isWordChar d = false ∧ isDigitChar d = false ∧ d ≠ '.' := by
  cases h with
  | @cons _ _ g cs r hg hx =>
      cases hg with
      | nil =>
          cases hx with
          | symbol hc =>
              obtain ⟨hword, hdigit, -, -, -, -, hpoint⟩ := isolated_of_mem_symbols hc
              exact ⟨c, r, rfl, hword, hdigit, hpoint⟩
      | @blank d g hd =>
          refine ⟨d, g ++ (cs ++ r), rfl, ?_⟩
          simp only [isGap, Bool.or_eq_true, beq_iff_eq] at hd
          rcases hd with ((rfl | rfl) | rfl) | rfl <;> decide
      | comment => exact ⟨'/', _, rfl, by decide⟩

theorem scanSign_numeral {n : Numeral} {sign : List Char} (hd : n.digits ≠ [])
    (h : ∀ d ∈ n.digits, d.isDigit = true)
    (hs : if n.negative then sign = ['-'] else sign = [] ∨ sign = ['+']) (r : List Char) :
    scanSign (sign ++ n.digits ++ r) = (n.negative, n.digits ++ r) := by
  cases hn : n.negative with
  | true =>
      rw [hn, if_pos rfl] at hs
      rw [hs]
      rfl
  | false =>
      rw [hn, if_neg Bool.false_ne_true] at hs
      rcases hs with rfl | rfl
      · obtain ⟨d, ds, he⟩ := List.exists_cons_of_ne_nil hd
        have hh : d.isDigit = true := h d (he ▸ List.mem_cons_self)
        have hm : d ≠ '-' := fun hc => absurd (hc ▸ hh) (by decide)
        have hp : d ≠ '+' := fun hc => absurd (hc ▸ hh) (by decide)
        rw [he]
        simp [scanSign, hm, hp]
      · rfl

theorem takeWhile_digits {p : Char → Bool} {ds r : List Char} (h : ∀ d ∈ ds, p d = true) {d : Char}
    (hd : p d = false) : (ds ++ d :: r).takeWhile p = ds := by
  rw [List.takeWhile_append_of_pos h, List.takeWhile_cons, hd]
  simp

theorem dropWhile_digits {p : Char → Bool} {ds r : List Char} (h : ∀ d ∈ ds, p d = true) {d : Char}
    (hd : p d = false) : (ds ++ d :: r).dropWhile p = d :: r := by
  rw [List.dropWhile_append_of_pos h, List.dropWhile_cons, hd]
  simp

theorem isDigit_of_not_isDigitChar {c : Char} (h : isDigitChar c = false) : c.isDigit = false := by
  rw [← Bool.not_eq_true]
  intro hd
  rw [isDigitChar_of_isDigit hd] at h
  cases h

theorem reads_integer (n : Numeral) : Reads integer [.numeral n] BeforeSymbol fun t => t.2 = n := by
  refine reads_token fun cs r ys hx hF hr => ?_
  obtain ⟨c, zs, rfl⟩ := hF
  obtain ⟨d, r, rfl, -, hdig, -⟩ := hr.first_char
  cases hx with
  | numeral hd h hs =>
      rw [scanInteger, scanSign_numeral hd h hs, takeWhile_digits h (isDigit_of_not_isDigitChar hdig),
        dropWhile_digits h (isDigit_of_not_isDigitChar hdig), if_neg hd]

/-- A numeral is not the beginning of a real number. -/
theorem refuses_decimal_numeral (n : Numeral) (hF : BeforeSymbol ys) : Refuses decimal (.numeral n :: ys) := by
  intro s hs
  obtain ⟨c, zs, rfl⟩ := hF
  obtain ⟨cs, r, hskip, hx, hr⟩ := hs.skip_eq
  obtain ⟨d, r, rfl, hword, hdig, hpoint⟩ := hr.first_char
  have he : d ≠ 'e' ∧ d ≠ 'E' := by
    refine ⟨?_, ?_⟩ <;> rintro rfl <;> exact absurd hword (by decide)
  cases hx with
  | numeral hd h hs =>
      have hall := fun d hd => isDigitChar_of_isDigit (h d hd)
      rw [decimal, run_token, hskip, scanReal, scanDecimal, scanSign_numeral hd h hs,
        takeWhile_digits hall hdig, dropWhile_digits hall hdig]
      simp [hd, hpoint, scanExponent, he]

theorem scanSign_of_ne {c : Char} (hm : c ≠ '-') (hp : c ≠ '+') (s : List Char) :
    scanSign (c :: s) = (false, c :: s) := by
  simp [scanSign, hm, hp]

theorem scanReal_eq_none {c : Char} (hm : c ≠ '-') (hp : c ≠ '+') (hpoint : c ≠ '.') (hd : isDigitChar c = false)
    (s : List Char) : scanReal (c :: s) = none := by
  simp [scanReal, scanDecimal, scanSign_of_ne hm hp, hd, hpoint]

theorem scanInteger_eq_none {c : Char} (hm : c ≠ '-') (hp : c ≠ '+') (hd : isDigitChar c = false) (s : List Char) :
    scanInteger (c :: s) = none := by
  simp [scanInteger, scanSign_of_ne hm hp, isDigit_of_not_isDigitChar hd]

/-- Where the first lexeme is not a numeral, the text begins with neither a sign nor a digit. -/
theorem Lexeme.IsHead.not_numeral {c : Char} (hx : x.IsHead c) (hn : ∀ n, x ≠ .numeral n) :
    c ≠ '-' ∧ c ≠ '+' ∧ c ≠ '.' ∧ isDigitChar c = false := by
  cases x with
  | word w =>
      refine ⟨?_, ?_, ?_, hx.2⟩ <;> rintro rfl <;> exact absurd hx.1 (by decide)
  | symbol d =>
      obtain ⟨-, hdigit, -, -, hminus, hplus, hpoint⟩ := isolated_of_mem_symbols hx.2
      exact ⟨hminus, hplus, hpoint, hdigit⟩
  | string v => rcases hx with rfl | rfl <;> decide
  | numeral n => exact absurd rfl (hn n)

theorem refuses_decimal (h : ∀ n, xs.head? ≠ some (.numeral n)) : Refuses decimal xs := by
  refine refuses_token rfl fun x hx c s hc => ?_
  obtain ⟨hm, hp, hpoint, hd⟩ := hc.not_numeral fun n hn => h n (hn ▸ hx)
  exact scanReal_eq_none hm hp hpoint hd s

theorem refuses_integer (h : ∀ n, xs.head? ≠ some (.numeral n)) : Refuses integer xs := by
  refine refuses_token rfl fun x hx c s hc => ?_
  obtain ⟨hm, hp, -, hd⟩ := hc.not_numeral fun n hn => h n (hn ▸ hx)
  exact scanInteger_eq_none hm hp hd s

/-! ### Words with a meaning of their own -/

instance (w : String) : Decidable (IsIdentifier w) :=
  match h : w.toList with
  | [] => isFalse fun hw => hw.ne_nil h
  | c :: cs =>
    decidable_of_iff (isWordChar c = true ∧ isDigitChar c = false ∧ cs.all isWordChar = true)
      ⟨fun ⟨hc, hd, hcs⟩ => ⟨c, cs, h, hc, hd, List.all_eq_true.1 hcs⟩, fun ⟨_, _, he, hc, hd, hcs⟩ => by
        obtain ⟨rfl, rfl⟩ := List.cons.inj (h.symm.trans he)
        exact ⟨hc, hd, List.all_eq_true.2 hcs⟩⟩

def booleanWords : List String := ["True", "true", "False", "false"]

def booleanText (b : Bool) : String := if b then "true" else "false"

theorem isIdentifier_booleanWords : ∀ w ∈ booleanWords, IsIdentifier w := by decide

theorem isIdentifier_booleanSpellings : ∀ b, ∀ w ∈ booleanSpellings b, IsIdentifier w := by decide

theorem scanWord_eq_none {w : String} (hw : IsIdentifier w) {s : List Char} (hs : Layout xs s)
    (h : xs.head? ≠ some (.word w)) : scanWord w (skip s) = none := by
  have hr := refuses_word hw h s hs
  rw [word, run_token, Option.map_eq_none_iff] at hr
  exact hr

theorem refuses_boolean (h : ∀ w ∈ booleanWords, xs.head? ≠ some (.word w)) : Refuses boolean xs := by
  intro s hs
  have hw : ∀ w ∈ booleanWords, scanWord w (skip s) = none := fun w hw =>
    scanWord_eq_none (isIdentifier_booleanWords w hw) hs (h w hw)
  simp only [boolean, run_token, scanBoolean, hw "True" (by decide), hw "true" (by decide),
    hw "False" (by decide), hw "false" (by decide), Option.map_none, Option.orElse_none]

theorem reads_boolean (b : Bool) :
    Reads boolean [.word (booleanText b)] anything fun t => t.2 = b := by
  intro ys s hF hs
  have hr := reads_word (isIdentifier_booleanWords (booleanText b) (by cases b <;> decide)) ys s hF hs
  have hw : ∀ w ∈ booleanWords, w ≠ booleanText b → scanWord w (skip s) = none := fun w hw hne =>
    scanWord_eq_none (isIdentifier_booleanWords w hw) hs (by simpa using Ne.symm hne)
  obtain ⟨⟨_, _⟩, r, ht, -, hr⟩ := hr
  obtain ⟨-, ht⟩ := run_token_eq_some ht
  refine ⟨((skip s).length, b), r, ?_, rfl, hr⟩
  simp only [boolean, run_token, scanBoolean]
  cases b with
  | true =>
      rw [hw "True" (by decide) (by decide), show scanWord "true" (skip s) = _ from ht]
      rfl
  | false =>
      rw [hw "True" (by decide) (by decide), hw "true" (by decide) (by decide),
        hw "False" (by decide) (by decide), show scanWord "false" (skip s) = _ from ht]
      rfl

theorem isIdentifier_callKind (k : CallKind) : IsIdentifier k.text := by
  cases k <;> decide

theorem CallKind.text_injective {k l : CallKind} (h : k.text = l.text) : k = l := by
  have hk := k.ofText?_text
  rw [h, l.ofText?_text, Option.some.injEq] at hk
  exact hk.symm

theorem reads_callKind (k : CallKind) : Reads callKind [.word k.text] anything fun t => t.2 = k := by
  have hk : Reads ((fun t => (t.1, k)) <$> word k.text) [.word k.text] anything fun t => t.2 = k :=
    (reads_word (isIdentifier_callKind k)).map fun _ _ => rfl
  have hne : ∀ l : CallKind, l ≠ k → ∀ ys, Refuses (word l.text) ([.word k.text] ++ ys) := by
    intro l hl ys
    refine refuses_word (isIdentifier_callKind l) fun he => hl ?_
    exact CallKind.text_injective (Lexeme.word.inj (Option.some.inj he)).symm
  cases k with
  | publish => exact hk.orElse_left _
  | subscribe =>
      exact .orElse_right (fun ys _ => (hne .publish (by decide) ys).map _) (hk.orElse_left _)
  | service =>
      exact .orElse_right (fun ys _ => (hne .publish (by decide) ys).map _)
        (.orElse_right (fun ys _ => (hne .subscribe (by decide) ys).map _) hk)

theorem refuses_callKind (h : ∀ k : CallKind, xs.head? ≠ some (.word k.text)) : Refuses callKind xs :=
  ((refuses_word (isIdentifier_callKind .publish) (h .publish)).map _).orElse
    (((refuses_word (isIdentifier_callKind .subscribe) (h .subscribe)).map _).orElse
      ((refuses_word (isIdentifier_callKind .service) (h .service)).map _))

end RobotLang.Grammar
