import RobotLang.Grammar.Tree
import RobotLang.Proofs.Scans

namespace RobotLang.Grammar

open Text Number

inductive Lexeme
  | word (text : String)
  | symbol (char : Char)
  | string (content : String)
  | numeral (n : Numeral)
  deriving DecidableEq, Repr

def IsIdentifier (text : String) : Prop :=
  ∃ c cs, text.toList = c :: cs ∧ isWordChar c = true ∧ isDigitChar c = false ∧
    ∀ d ∈ cs, isWordChar d = true

def symbols : List Char := ['(', ')', '\x7b', '\x7d', ':', ',', ';']

theorem isolated_of_mem_symbols {c : Char} (h : c ∈ symbols) :
    isWordChar c = false ∧ isDigitChar c = false ∧ isGap c = false ∧ c ≠ '/' ∧ c ≠ '-' ∧ c ≠ '+' ∧ c ≠ '.' := by
  have hall : symbols.all (fun c => !isWordChar c && !isDigitChar c && !isGap c && c != '/' && c != '-' &&
      c != '+' && c != '.') = true := by
    decide
  simpa [and_assoc] using List.all_eq_true.1 hall c h

/-- What may stand between two quotes of a kind for a content: backslashes stand before quotes only,
and they do before quotes of that kind. -/
inductive QuotedAs (quote : Char) : List Char → List Char → Prop
  | nil : QuotedAs quote [] []
  | char {c : Char} {cs raw : List Char} (hc : c ≠ '\\') (hq : c ≠ quote) (h : QuotedAs quote cs raw) :
      QuotedAs quote (c :: cs) (c :: raw)
  | escaped {c : Char} {cs raw : List Char} (hc : c = '"' ∨ c = '\'') (h : QuotedAs quote cs raw) :
      QuotedAs quote (c :: cs) ('\\' :: c :: raw)

inductive Lexeme.Text : Lexeme → List Char → Prop
  | word {w : String} (h : IsIdentifier w) : Text (.word w) w.toList
  | symbol {c : Char} (h : c ∈ symbols) : Text (.symbol c) [c]
  | string {quote : Char} {s : String} {raw : List Char} (hq : quote = '"' ∨ quote = '\'')
      (h : QuotedAs quote s.toList raw) : Text (.string s) (quote :: (raw ++ [quote]))
  | numeral {n : Numeral} {sign : List Char} (hd : n.digits ≠ []) (h : ∀ d ∈ n.digits, d.isDigit = true)
      (hs : if n.negative then sign = ['-'] else sign = [] ∨ sign = ['+']) :
      Text (.numeral n) (sign ++ n.digits)

/-- What a lexeme is written as in front of a text: a word where no character of a word follows, and a string
in every way in which it is read there. -/
inductive Lexeme.Before (s : List Char) : Lexeme → List Char → Prop
  | word {w : String} (h : IsIdentifier w) (hs : wordEnds s = true) : Before s (.word w) w.toList
  | symbol {c : Char} (h : c ∈ symbols) : Before s (.symbol c) [c]
  | string {v : String} {cs : List Char} (h : scanString (cs ++ s) = some (v, s)) : Before s (.string v) cs
  | numeral {n : Numeral} {sign : List Char} (hd : n.digits ≠ []) (h : ∀ d ∈ n.digits, d.isDigit = true)
      (hs : if n.negative then sign = ['-'] else sign = [] ∨ sign = ['+']) :
      Before s (.numeral n) (sign ++ n.digits)

inductive Gap : List Char → Prop
  | nil : Gap []
  | blank {c : Char} {g : List Char} (hc : isGap c = true) (hg : Gap g) : Gap (c :: g)
  | comment {line g : List Char} (hl : '\n' ∉ line) (hg : Gap g) :
      Gap ('/' :: '/' :: (line ++ '\n' :: g))

/-- What may stand behind everything else: the end of the text may end a comment too. -/
inductive FinalGap : List Char → Prop
  | gap {g : List Char} (hg : Gap g) : FinalGap g
  | comment {line g : List Char} (hl : '\n' ∉ line) (hg : Gap g) : FinalGap (g ++ '/' :: '/' :: line)

/-- A text consists of lexemes in their order and of gaps. -/
inductive Layout : List Lexeme → List Char → Prop
  | nil {s : List Char} (h : FinalGap s) : Layout [] s
  | cons {x : Lexeme} {xs : List Lexeme} {g cs s : List Char} (hg : Gap g) (hx : x.Before s cs)
      (hs : Layout xs s) : Layout (x :: xs) (g ++ (cs ++ s))

theorem Gap.append {g g' : List Char} (hg : Gap g) (hg' : Gap g') : Gap (g ++ g') := by
  induction hg with
  | nil => exact hg'
  | blank hc _ ih => exact .blank hc ih
  | @comment line g hl _ ih =>
      rw [List.cons_append, List.cons_append, List.append_assoc, List.cons_append]
      exact .comment hl ih

theorem skipFrom_append {line : List Char} (hl : '\n' ∉ line) (s : List Char) :
    skipFrom true (line ++ s) = skipFrom true s := by
  induction line with
  | nil => rfl
  | cons c line ih =>
      rw [List.mem_cons, not_or] at hl
      have hc : (c != '\n') = true := by simpa using Ne.symm hl.1
      rw [List.cons_append, skipFrom, hc]
      exact ih hl.2

theorem skipFrom_line {line : List Char} (hl : '\n' ∉ line) (s : List Char) :
    skipFrom true (line ++ '\n' :: s) = skip s :=
  skipFrom_append hl _

theorem skipFrom_lastLine {line : List Char} (hl : '\n' ∉ line) : skipFrom true line = [] := by
  simpa [skipFrom] using skipFrom_append hl []

theorem skip_cons_of_isGap {c : Char} (hc : isGap c = true) (s : List Char) : skip (c :: s) = skip s := by
  have hn : c ≠ '/' := by
    rintro rfl
    exact absurd hc (by decide)
  rw [skip, skipFrom, if_pos hc, skip]
  · exact fun cs h _ => hn h

theorem skip_gap {g : List Char} (hg : Gap g) (s : List Char) : skip (g ++ s) = skip s := by
  induction hg with
  | nil => rfl
  | blank hc hg ih => rw [List.cons_append, skip_cons_of_isGap hc, ih]
  | @comment line g hl hg ih =>
      rw [List.cons_append, List.cons_append, List.append_assoc, List.cons_append, skip, skipFrom,
        skipFrom_line hl, ih]

theorem skip_finalGap {s : List Char} (h : FinalGap s) : skip s = [] := by
  cases h with
  | gap hg =>
      rw [← List.append_nil s]
      exact skip_gap hg []
  | comment hl hg => rw [skip_gap hg, skip, skipFrom, skipFrom_lastLine hl]

theorem skip_cons {c : Char} (hc : isGap c = false) (hs : c ≠ '/') (s : List Char) :
    skip (c :: s) = c :: s := by
  rw [skip, skipFrom, if_neg (by simp [hc])]
  exact fun cs h _ => hs h

/-- What is true of a text behind the gap in front of it is true of the text, if it stays true when a gap is put
in front, and when the end of the text ends a comment. -/
theorem of_skipFrom {P : List Char → Prop} (hgap : ∀ g s, Gap g → P s → P (g ++ s))
    (hend : ∀ line, '\n' ∉ line → P [] → P ('/' :: '/' :: line)) (comment : Bool) (s : List Char)
    (h : P (skipFrom comment s)) :
    if comment then ∀ line, '\n' ∉ line → P ('/' :: '/' :: (line ++ s)) else P s := by
  fun_induction skipFrom comment s with
  | case1 comment =>
      cases comment with
      | false => exact h
      | true =>
          intro line hl
          rw [List.append_nil]
          exact hend line hl h
  | case2 c cs ih =>
      intro line hl
      by_cases hc : c = '\n'
      · subst hc
        have hcomment := hgap ('/' :: '/' :: (line ++ ['\n'])) cs (.comment hl .nil) (ih h)
        simpa using hcomment
      · rw [if_pos (by simpa using hc)] at ih
        have hline : '\n' ∉ line ++ [c] := by simp [hl, Ne.symm hc]
        simpa using ih h (line ++ [c]) hline
  | case3 cs ih => exact ih h [] List.not_mem_nil
  | case4 c cs _ hc ih => exact hgap [c] cs (.blank hc .nil) (ih h)
  | case5 c cs _ _ => exact h

theorem exists_gap_of_skip {s : List Char} (h : skip s ≠ []) : ∃ g, s = g ++ skip s ∧ Gap g := by
  refine of_skipFrom (P := fun t => ∃ g, t = g ++ skip s ∧ Gap g) ?_ ?_ false s ⟨[], rfl, .nil⟩
  · rintro g' _ hg' ⟨g, rfl, hg⟩
    exact ⟨g' ++ g, (List.append_assoc ..).symm, hg'.append hg⟩
  · rintro line - ⟨g, hs, -⟩
    exact absurd (List.append_eq_nil_iff.1 hs.symm).2 h

def Lexeme.IsHead (c : Char) : Lexeme → Prop
  | word _ => isWordChar c = true ∧ isDigitChar c = false
  | symbol d => c = d ∧ c ∈ symbols
  | string _ => c = '"' ∨ c = '\''
  | numeral _ => c = '-' ∨ c = '+' ∨ c.isDigit = true

theorem scanString_head {s r : List Char} {v : String} (h : scanString s = some (v, r)) :
    ∃ c cs, s = c :: cs ∧ (c = '"' ∨ c = '\'') := by
  cases s with
  | nil => cases h
  | cons c cs =>
      rw [scanString] at h
      split at h
      next hc => exact ⟨c, cs, rfl, hc⟩
      · cases h

theorem Lexeme.Before.head {x : Lexeme} {cs s : List Char} (h : x.Before s cs) :
    ∃ c rest, cs = c :: rest ∧ x.IsHead c := by
  cases h with
  | @word w h =>
      obtain ⟨c, rest, hw, hc, hd, -⟩ := h
      exact ⟨c, rest, hw, hc, hd⟩
  | @symbol c h => exact ⟨c, [], rfl, rfl, h⟩
  | @string v cs h =>
      cases cs with
      | nil => exact absurd (scanString_takes h).2 (Nat.lt_irrefl _)
      | cons c cs =>
          obtain ⟨d, ds, hd, hq⟩ := scanString_head h
          obtain ⟨rfl, -⟩ := List.cons.inj hd
          exact ⟨c, cs, rfl, hq⟩
  | @numeral n sign hd h hs =>
      obtain ⟨d, ds, hn⟩ := List.exists_cons_of_ne_nil hd
      have hhead : d.isDigit = true := h d (hn ▸ List.mem_cons_self)
      split at hs
      · exact ⟨'-', n.digits, by rw [hs]; rfl, .inl rfl⟩
      · rcases hs with rfl | rfl
        · exact ⟨d, ds, hn, .inr (.inr hhead)⟩
        · exact ⟨'+', n.digits, rfl, .inr (.inl rfl)⟩

theorem untilQuote_quotedAs {quote : Char} (hq : quote = '"' ∨ quote = '\'') {cs raw : List Char}
    (h : QuotedAs quote cs raw) (r : List Char) : untilQuote quote (raw ++ quote :: r) = some (raw, r) := by
  have hb : quote ≠ '\\' := by rcases hq with rfl | rfl <;> decide
  induction h with
  | nil => simp [untilQuote, hb]
  | char hc hne _ ih => simp [untilQuote, hc, hne, ih]
  | @escaped c cs raw hc _ ih =>
      have hcb : c ≠ '\\' := by rcases hc with rfl | rfl <;> decide
      by_cases he : c = quote
      · simp [untilQuote, he, ih]
      · simp [untilQuote, he, hcb, ih]

theorem unescape_quotedAs {quote : Char} {cs raw : List Char} (h : QuotedAs quote cs raw) :
    unescape raw = cs := by
  induction h with
  | nil => rfl
  | char hc _ _ ih => simp [unescape, hc, ih]
  | escaped hc _ ih => simp [unescape, hc, ih]

theorem Lexeme.Text.before {x : Lexeme} {cs s : List Char} (h : x.Text cs)
    (hends : ∀ w, x = .word w → wordEnds s = true) : x.Before s cs := by
  cases h with
  | word h => exact .word h (hends _ rfl)
  | symbol h => exact .symbol h
  | @string quote v raw hq h =>
      refine .string ?_
      rw [List.cons_append, List.append_assoc, List.singleton_append, scanString, if_pos hq,
        untilQuote_quotedAs hq h, Option.orElse_some, Option.map_some, unescape_quotedAs h,
        String.ofList_toList]
  | numeral hd h hs => exact .numeral hd h hs

theorem Lexeme.Text.head {x : Lexeme} {cs : List Char} (h : x.Text cs) :
    ∃ c rest, cs = c :: rest ∧ x.IsHead c :=
  Before.head (h.before (s := []) fun _ _ => rfl)

theorem Lexeme.IsHead.not_skipped {x : Lexeme} {c : Char} (h : x.IsHead c) : isGap c = false ∧ c ≠ '/' := by
  have hword : isWordChar c = true → isGap c = false ∧ c ≠ '/' := by
    intro hc
    refine ⟨?_, fun he => absurd (he ▸ hc) (by decide)⟩
    rw [← Bool.not_eq_true]
    intro hg
    simp only [isGap, Bool.or_eq_true, beq_iff_eq] at hg
    rcases hg with ((rfl | rfl) | rfl) | rfl <;> exact absurd hc (by decide)
  cases x with
  | word w => exact hword h.1
  | symbol d =>
      obtain ⟨-, -, hgap, hslash, -⟩ := isolated_of_mem_symbols h.2
      exact ⟨hgap, hslash⟩
  | string s => rcases h with rfl | rfl <;> decide
  | numeral n =>
      rcases h with rfl | rfl | h
      · decide
      · decide
      · exact hword (isWordChar_of_isDigit h)

theorem Layout.skip_eq {x : Lexeme} {xs : List Lexeme} {s : List Char} (h : Layout (x :: xs) s) :
    ∃ cs r, skip s = cs ++ r ∧ x.Before r cs ∧ Layout xs r := by
  cases h with
  | @cons _ _ g cs r hg hx hs =>
      obtain ⟨c, rest, rfl, hc⟩ := hx.head
      obtain ⟨hgap, hslash⟩ := hc.not_skipped
      exact ⟨c :: rest, r, by rw [skip_gap hg, List.cons_append, skip_cons hgap hslash], hx, hs⟩

theorem Layout.head {x : Lexeme} {xs : List Lexeme} {s : List Char} (h : Layout (x :: xs) s) :
    ∃ c rest, skip s = c :: rest ∧ x.IsHead c := by
  obtain ⟨cs, r, hs, hx, -⟩ := h.skip_eq
  obtain ⟨c, rest, rfl, hc⟩ := hx.head
  exact ⟨c, rest ++ r, hs, hc⟩

theorem Layout.length_le {xs : List Lexeme} {s : List Char} (h : Layout xs s) : xs.length ≤ s.length := by
  induction h with
  | nil => exact Nat.zero_le _
  | cons hg hx hs ih =>
      obtain ⟨c, rest, rfl, -⟩ := hx.head
      simp only [List.length_append, List.length_cons]
      omega

theorem Layout.isIdentifier {xs : List Lexeme} {s : List Char} (h : Layout xs s) {w : String}
    (hw : .word w ∈ xs) : IsIdentifier w := by
  induction h with
  | nil => cases hw
  | cons _ hx _ ih =>
      rcases List.mem_cons.1 hw with rfl | hw
      · cases hx with
        | word h _ => exact h
      · exact ih hw

theorem Layout.touching {x : Lexeme} {xs : List Lexeme} {cs s : List Char} (hx : x.Before s cs) (h : Layout xs s) :
    Layout (x :: xs) (cs ++ s) :=
  .cons .nil hx h

theorem Layout.gap_append {xs : List Lexeme} {g s : List Char} (hg : Gap g) (h : Layout xs s) :
    Layout xs (g ++ s) := by
  cases h with
  | nil h =>
      refine .nil ?_
      cases h with
      | gap hg' => exact .gap (hg.append hg')
      | comment hl hg' =>
          rw [← List.append_assoc]
          exact .comment hl (hg.append hg')
  | cons hg' hx hs =>
      rw [← List.append_assoc]
      exact .cons (hg.append hg') hx hs

theorem Layout.of_skip {xs : List Lexeme} {s : List Char} (h : Layout xs (skip s)) : Layout xs s := by
  refine of_skipFrom (P := Layout xs) (fun g s => gap_append) (fun line hl hnil => ?_) false s h
  have hxs : xs = [] := List.length_eq_zero_iff.1 (Nat.le_zero.1 hnil.length_le)
  exact hxs ▸ .nil (.comment hl .nil)

end RobotLang.Grammar
