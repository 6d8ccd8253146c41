import Mathlib.Data.Nat.Digits.Defs
import TextTemplate.Number.Arithmetic

/-! # Which numbers have a text

  A whole number is written unless it has more than `Numeral.maxDigits` digits
  (`write_eq_error_iff`).  A double never has a whole part of that many digits,
  so it always has a text (`not_isLong_of_wholeFloat?`).  What is written says the
  number (`numeralValue_repr`), and it is no longer than what the number has been
  read from, in whatever script and with whatever zeros in front
  (`not_isLong_numeralValue`).
-/

namespace TextTemplate

namespace Numeral

/-- The whole number has more decimal digits than are written. -/
def IsLong (n : Int) : Prop := maxDigits < (Nat.repr n.natAbs).length

theorem write_eq_error_iff {n : Int} {fault : TooManyDigits} :
    write n = .error fault ↔ IsLong n := by
  unfold write IsLong
  by_cases h : (Nat.repr n.natAbs).length ≤ maxDigits
  · simp [h]
  · have hlong : maxDigits < (Nat.repr n.natAbs).length := by omega
    cases fault
    simp [h, hlong]

/-- A magnitude has no more decimal digits than binary ones. -/
theorem not_isLong_of_lt {n : Int} {e : Nat} (he : 0 < e) (hmax : e ≤ maxDigits)
    (h : n.natAbs < 2 ^ e) : ¬ IsLong n := by
  have hpow : 2 ^ e ≤ 10 ^ e := Nat.pow_le_pow_left (by decide) e
  have hlength := Nat.repr_length n.natAbs e he (Nat.lt_of_lt_of_le h hpow)
  unfold IsLong
  omega

/-! ### Written and read -/

theorem digitValue?_digitChar : ∀ d < 10, Text.digitValue? (Nat.digitChar d) = some d := by
  decide

theorem numeralValue_concat (digits : List Char) (c : Char) :
    Text.numeralValue (digits ++ [c])
      = 10 * Text.numeralValue digits + (Text.digitValue? c).getD 0 := by
  simp only [Text.numeralValue, List.foldl_append, List.foldl_cons, List.foldl_nil]

/-- What a number is written with says the number. -/
theorem numeralValue_repr (n : Nat) : Text.numeralValue (Nat.repr n).toList = n := by
  induction n using Nat.strongRecOn with
  | ind n ih =>
    by_cases hn : n < 10
    · rw [Nat.repr_of_lt hn, String.toList_singleton, ← List.nil_append [_], numeralValue_concat,
        digitValue?_digitChar n hn]
      simp [Text.numeralValue]
    · have hlast := digitValue?_digitChar (n % 10) (by omega)
      have hfront := ih (n / 10) (by omega)
      rw [Nat.repr_of_ge (by omega), String.toList_append, String.toList_singleton,
        numeralValue_concat, hfront, hlast, Option.getD_some]
      omega

/-- A number is written with decimal digits. -/
theorem isDecimalDigit_of_mem_repr (n : Nat) {c : Char} (hc : c ∈ (Nat.repr n).toList) :
    Text.isDecimalDigit c = true := by
  have hdigit : ∀ d < 10, Text.isDecimalDigit (Nat.digitChar d) = true := by
    intro d hd
    rw [Text.isDecimalDigit, digitValue?_digitChar d hd]
    rfl
  induction n using Nat.strongRecOn with
  | ind n ih =>
    by_cases hn : n < 10
    · rw [Nat.repr_of_lt hn, String.toList_singleton, List.mem_singleton] at hc
      subst hc
      exact hdigit n hn
    · rw [Nat.repr_of_ge (by omega), String.toList_append, String.toList_singleton] at hc
      rcases List.mem_append.1 hc with hc | hc
      · exact ih (n / 10) (by omega) hc
      · obtain rfl := List.mem_singleton.1 hc
        exact hdigit (n % 10) (by omega)

theorem digitValue?_lt (c : Char) : (Text.digitValue? c).getD 0 < 10 := by
  unfold Text.digitValue?
  cases hfound : Text.digitZeros.find? fun first => first ≤ c.toNat && c.toNat < first + 10 with
  | none => simp
  | some first =>
    have hplace := List.find?_some hfound
    simp only [Bool.and_eq_true, decide_eq_true_eq] at hplace
    simp only [Option.map_some, Option.getD_some]
    omega

/-- A row of digits says a number that needs no more digits. -/
theorem numeralValue_lt (digits : List Char) :
    Text.numeralValue digits < 10 ^ digits.length := by
  -- Each digit behind a number makes room for ten more.
  have hfrom : ∀ n, digits.foldl (fun n c => 10 * n + (Text.digitValue? c).getD 0) n
      < (n + 1) * 10 ^ digits.length := by
    induction digits with
    | nil => simp
    | cons c rest ih =>
      intro n
      have hdigit := digitValue?_lt c
      have hrest := ih (10 * n + (Text.digitValue? c).getD 0)
      have hroom : (10 * n + (Text.digitValue? c).getD 0 + 1) * 10 ^ rest.length
          ≤ 10 * (n + 1) * 10 ^ rest.length := by
        apply Nat.mul_le_mul_right
        omega
      rw [List.foldl_cons, List.length_cons, Nat.pow_succ']
      calc
        _ < _ := hrest
        _ ≤ 10 * (n + 1) * 10 ^ rest.length := hroom
        _ = (n + 1) * (10 * 10 ^ rest.length) := by
          rw [Nat.mul_comm 10 (n + 1), Nat.mul_assoc]
  have hzero := hfrom 0
  rw [Nat.zero_add, Nat.one_mul] at hzero
  exact hzero

/-- A number that is read can be written. -/
theorem not_isLong_numeralValue {digits : List Char} (h : digits.length ≤ maxDigits) :
    ¬ IsLong (Text.numeralValue digits) := by
  have hlt : Text.numeralValue digits < 10 ^ maxDigits := by
    have hpow := Nat.pow_le_pow_right (n := 10) (by omega) h
    have := numeralValue_lt digits
    omega
  have hlength := Nat.repr_length _ maxDigits (by decide) hlt
  unfold IsLong
  rw [Int.natAbs_natCast]
  omega

end Numeral

/-! ### Doubles -/

namespace Binary64

theorem significand_ofFloat_lt (x : Float) : (ofFloat x).significand < 2 ^ 53 := by
  have hfraction : x.toBits.toNat % pow2 52 < 2 ^ 52 := Nat.mod_lt _ (by simp [pow2])
  unfold ofFloat
  simp only
  split
  · simp only
    omega
  · simp only [pow2, Nat.pow_eq] at *
    omega

theorem exponent_ofFloat_le (x : Float) : (ofFloat x).exponent ≤ 972 := by
  have hbiased : x.toBits.toNat / pow2 52 % pow2 11 < 2 ^ 11 := Nat.mod_lt _ (by simp [pow2])
  unfold ofFloat
  simp only
  split
  · simp
  · simp only
    omega

/-- A magnitude that is a whole number is no larger than its numerator. -/
theorem natAbs_whole?_le {b : Binary64} {n : Int} (h : b.whole? = some n) :
    n.natAbs ≤ b.ratio.1 := by
  have hquotient : b.ratio.1 / b.ratio.2 ≤ b.ratio.1 := Nat.div_le_self ..
  unfold whole? at h
  simp only at h
  split at h
  · obtain rfl := Option.some.inj h
    split
    · rw [Int.natAbs_neg, Int.natAbs_natCast]
      exact hquotient
    · rw [Int.natAbs_natCast]
      exact hquotient
  · cases h

end Binary64

/-- The whole number that a double is has a text. -/
theorem Number.not_isLong_of_wholeFloat? {x : Float} {n : Int} (h : wholeFloat? x = some n) :
    ¬ Numeral.IsLong n := by
  have hwhole : (Binary64.ofFloat x).whole? = some n := by
    unfold wholeFloat? at h
    split at h
    · cases h
    · exact h
  have hsignificand := Binary64.significand_ofFloat_lt x
  have hexponent := Binary64.exponent_ofFloat_le x
  -- The numerator is the significand, moved by the exponent.
  have hnumerator : ∀ e, (Binary64.ofFloat x).exponent ≤ (e : Nat) →
      (Binary64.ofFloat x).ratio.1 < 2 ^ (53 + e) := by
    intro e he
    rw [Nat.pow_add]
    apply Nat.mul_lt_mul_of_lt_of_le hsignificand
    · exact Nat.pow_le_pow_right (by decide) (by omega)
    · exact Nat.two_pow_pos e
  have hlt := Nat.lt_of_le_of_lt (Binary64.natAbs_whole?_le hwhole) (hnumerator 972 hexponent)
  exact Numeral.not_isLong_of_lt (by decide) (by decide) hlt

end TextTemplate
