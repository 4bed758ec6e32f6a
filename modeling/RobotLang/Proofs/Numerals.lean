import RobotLang.Number.Scan

namespace RobotLang.Number

open Text

def Numeral.ofInt : Int → Numeral
  | .ofNat k => ⟨false, Nat.toDigits 10 k⟩
  | .negSucc k => ⟨true, Nat.toDigits 10 (k + 1)⟩

theorem digitsValue_eq_ofDigitChars {ds : List Char} (h : ∀ d ∈ ds, d.isDigit = true) :
    digitsValue ds = Nat.ofDigitChars 10 ds 0 := by
  have hfold : ∀ n, ds.foldl (fun n d => 10 * n + digitValue d) n = Nat.ofDigitChars 10 ds n := by
    induction ds with
    | nil => exact fun n => Nat.ofDigitChars_nil.symm
    | cons d ds ih =>
        intro n
        have hd : digitValue d = d.toNat - '0'.toNat := by
          rw [digitValue, if_pos (h d List.mem_cons_self)]
        rw [List.foldl_cons, hd, ih fun d hd => h d (List.mem_cons_of_mem _ hd), Nat.ofDigitChars_cons]
  exact hfold 0

theorem isDigit_toDigits (k : Nat) : ∀ d ∈ Nat.toDigits 10 k, d.isDigit = true :=
  fun _ hd => Nat.isDigit_of_mem_toDigits (by omega) (by omega) hd

theorem digitsValue_toDigits (k : Nat) : digitsValue (Nat.toDigits 10 k) = k := by
  rw [digitsValue_eq_ofDigitChars (isDigit_toDigits k), Nat.ofDigitChars_ten_toDigits]

theorem Numeral.isDigit_ofInt (n : Int) : ∀ d ∈ (ofInt n).digits, d.isDigit = true := by
  cases n with
  | ofNat k => exact isDigit_toDigits k
  | negSucc k => exact isDigit_toDigits (k + 1)

theorem Numeral.digits_ofInt_ne_nil (n : Int) : (ofInt n).digits ≠ [] := by
  cases n <;> exact Nat.toDigits_ne_nil

theorem Numeral.value_ofInt (n : Int) : (ofInt n).value = n := by
  cases n with
  | ofNat k =>
      rw [value, ofInt, signed, if_neg (by simp), digitsValue_toDigits]
      rfl
  | negSucc k =>
      rw [value, ofInt, signed, if_pos rfl, digitsValue_toDigits]
      rfl

theorem Numeral.toList_toString (n : Int) :
    (toString n).toList = (if (ofInt n).negative then ['-'] else []) ++ (ofInt n).digits := by
  cases n with
  | ofNat k =>
      have hk : (toString (Int.ofNat k)).toList = k.repr.toList := rfl
      rw [hk, Nat.toList_repr]
      rfl
  | negSucc k =>
      have hk : (toString (Int.negSucc k)) = "-" ++ (k + 1).repr := rfl
      rw [hk, String.toList_append, Nat.toList_repr]
      rfl

theorem digitsValue_lt {ds : List Char} (h : ∀ d ∈ ds, d.isDigit = true) : digitsValue ds < Nat.pow 10 ds.length := by
  change digitsValue ds < 10 ^ ds.length
  rw [digitsValue_eq_ofDigitChars h]
  induction ds with
  | nil => simp
  | cons d ds ih =>
      have hd : d.toNat - '0'.toNat ≤ 9 := by
        have hlt := h d List.mem_cons_self
        simp only [Char.isDigit, Bool.and_eq_true, decide_eq_true_eq] at hlt
        have h9 := UInt32.le_iff_toNat_le.1 hlt.2
        have : d.toNat ≤ 57 := h9
        have : '0'.toNat = 48 := rfl
        omega
      have hrest := ih fun d hd => h d (List.mem_cons_of_mem _ hd)
      have hpow : 0 < 10 ^ ds.length := Nat.pow_pos (by omega)
      rw [Nat.ofDigitChars_cons, Nat.ofDigitChars_eq_ofDigitChars_zero, List.length_cons, Nat.pow_succ]
      have hmul : 10 ^ ds.length * (10 * 0 + (d.toNat - '0'.toNat)) ≤ 10 ^ ds.length * 9 :=
        Nat.mul_le_mul_left _ (by omega)
      omega

theorem Numeral.natAbs_value (n : Numeral) : n.value.natAbs = digitsValue n.digits := by
  rw [value, signed]
  split
  · rw [Int.natAbs_neg, Int.natAbs_natCast]
  · exact Int.natAbs_natCast _

/-- What is written for the value of a numeral has no more digits than a limit that the numeral keeps. -/
theorem Numeral.length_ofInt_value_le {n : Numeral} (h : ∀ d ∈ n.digits, d.isDigit = true) {k : Nat}
    (hk : 0 < k) (hn : n.digits.length ≤ k) : (ofInt n.value).digits.length ≤ k := by
  have hd : (ofInt n.value).digits = Nat.toDigits 10 n.value.natAbs := by
    cases n.value <;> rfl
  rw [hd, Nat.length_toDigits_le_iff (by omega) hk, natAbs_value]
  exact Nat.lt_of_lt_of_le (digitsValue_lt h) (Nat.pow_le_pow_right (by omega) hn)

end RobotLang.Number
