import Mathlib
import TextTemplate.Proofs.Number.Numeral

/-! # The double of a whole number

  A positive whole number is made a double by rounding it to 53 binary digits.
  The double has the bits that are put together for it (`toBits_ofBits`), so its
  value is the rounded number (`value_ofBits`), and no double is nearer to the
  whole number (`ofInt?_nearest`).  For a double with fewer places is a multiple of
  the unit that is rounded to, and one with more places is less than the least
  number of 53 digits.  There is none only for numbers that would be rounded beyond
  the largest double (`ofInt?_eq_none_iff`).

  The bits also say that a double which is at most zero is so in the exact order
  (`compareInt?_zero_of_le`).
-/

namespace TextTemplate.Binary64

/-! ### Bits -/

section Bits

open Float.Model Float.Model.UnpackedFloat

variable {b : BitVec 64}

theorem toNat_unpackMantissa : (@unpackMantissa Format.binary64 b).toNat = b.toNat % 2 ^ 52 := by
  simp [unpackMantissa]

theorem toNat_unpackExponent :
    (@unpackExponent Format.binary64 b).toNat = b.toNat / 2 ^ 52 % 2 ^ 11 := by
  simp [unpackExponent, BitVec.extractLsb, Nat.shiftRight_eq_div_pow]

theorem unpackSign_eq (h : b.toNat < 2 ^ 63) : @unpackSign Format.binary64 b = 0#1 := by
  rw [← BitVec.toNat_inj]
  simp only [unpackSign, BitVec.extractLsb, BitVec.toNat_cast, BitVec.extractLsb'_toNat,
    Nat.shiftRight_eq_div_pow]
  show b.toNat / 2 ^ 63 % 2 ^ 1 = 0
  omega

/-- Bits between those of the least and of the greatest positive normal number say such a number. -/
theorem unpack_normal (hmin : 2 ^ 52 ≤ b.toNat) (hmax : b.toNat < 2047 * 2 ^ 52) :
    @isNaNBits Format.binary64 b = false ∧
    (UnpackedFloat.unpack Format.binary64 b).isNaN = false ∧
    (UnpackedFloat.unpack Format.binary64 b).isInf = false := by
  have hexponent : (@unpackExponent Format.binary64 b).toNat = b.toNat / 2 ^ 52 % 2 ^ 11 :=
    toNat_unpackExponent
  have hones : @unpackExponent Format.binary64 b ≠ -1#11 := by
    intro h
    have := congrArg BitVec.toNat h
    rw [hexponent, show (-1#11).toNat = 2047 from rfl] at this
    omega
  have hzeros : @unpackExponent Format.binary64 b ≠ 0#11 := by
    intro h
    have := congrArg BitVec.toNat h
    rw [hexponent, show (0#11).toNat = 0 from rfl] at this
    omega
  -- An exponent that is neither all ones nor all zeros says a normal number.
  refine ⟨decide_eq_false fun h => hones h.1, ?_⟩
  rw [UnpackedFloat.unpack]
  simp only [if_neg hones, if_neg hzeros]
  exact ⟨rfl, rfl⟩

end Bits

/-- A positive normal number has the bits that it is made of. -/
theorem toBits_ofBits {b : UInt64} (hmin : 2 ^ 52 ≤ b.toNat) (hmax : b.toNat < 2047 * 2 ^ 52) :
    (Float.ofBits b).toBits = b ∧ (Float.ofBits b).isNaN = false ∧
      (Float.ofBits b).isInf = false := by
  obtain ⟨hbitsNaN, hnan, hinf⟩ := unpack_normal (b := b.toBitVec) hmin hmax
  have hpack : Float.Model.UnpackedFloat.pack Float.Model.Format.binary64
      (Float.Model.UnpackedFloat.unpack Float.Model.Format.binary64 b.toBitVec) = b.toBitVec := by
    rw [Float.Model.UnpackedFloat.pack_unpack, hbitsNaN]
    rfl
  have hbits : (Float.ofBits b).toBits = b := congrArg UInt64.ofBitVec hpack
  have hunpack : (Float.ofBits b).toModel.unpack
      = Float.Model.UnpackedFloat.unpack Float.Model.Format.binary64 b.toBitVec :=
    congrArg (Float.Model.UnpackedFloat.unpack Float.Model.Format.binary64)
      (congrArg UInt64.toBitVec hbits)
  refine ⟨hbits, ?_, ?_⟩
  · show (Float.ofBits b).toModel.unpack.isNaN = false
    rw [hunpack, hnan]
  · show (Float.ofBits b).toModel.unpack.isInf = false
    rw [hunpack, hinf]

/-! ### Values -/

/-- The number that the parts say. -/
def value (b : Binary64) : ℚ := (if b.negative then -1 else 1) * b.significand * 2 ^ b.exponent

/-- The parts of a number whose bits are those of an exponent and a significand without its leading
    digit. -/
theorem ofFloat_ofBits (bits biased fraction : Nat) (hbits : bits = biased * 2 ^ 52 + fraction)
    (hpos : 0 < biased) (hmax : biased < 2047) (hfraction : fraction < 2 ^ 52) :
    let x := Float.ofBits (UInt64.ofNat bits)
    (x.isNaN = false ∧ x.isInf = false) ∧
      ofFloat x
        = ⟨false, 2 ^ 52 + fraction, (biased : Int) - 1075, fraction == 0 && biased > 1⟩ := by
  intro x
  have hword : (UInt64.ofNat bits).toNat = bits := by
    rw [UInt64.toNat_ofNat', Nat.mod_eq_of_lt]
    omega
  obtain ⟨htoBits, hnan, hinf⟩ := toBits_ofBits (b := UInt64.ofNat bits) (by omega) (by omega)
  refine ⟨⟨hnan, hinf⟩, ?_⟩
  have hlow : bits % 2 ^ 52 = fraction := by omega
  have hhigh : bits / 2 ^ 52 % 2 ^ 11 = biased := by omega
  have hsign : (bits / 2 ^ 63 == 1) = false := by
    rw [beq_eq_false_iff_ne]
    omega
  simp only [ofFloat, x, htoBits, hword, pow2, Nat.pow_eq, hlow, hhigh, hsign,
    if_neg (Nat.ne_of_gt hpos)]

/-- A significand of 53 binary digits, or of 54 if it is the least such one, put together with an
    exponent: the carry goes into the exponent. -/
theorem value_ofBits (bits biased m : Nat) (hbits : bits = biased * 2 ^ 52 + (m - 2 ^ 52))
    (hpos : 0 < biased) (hm : 2 ^ 52 ≤ m) (hm' : m ≤ 2 ^ 53) (hmax : bits < 2047 * 2 ^ 52) :
    let x := Float.ofBits (UInt64.ofNat bits)
    (x.isNaN = false ∧ x.isInf = false) ∧ (ofFloat x).negative = false ∧
      0 < (ofFloat x).significand ∧ (ofFloat x).value = m * 2 ^ ((biased : ℤ) - 1075) := by
  have hvalue : ∀ s e narrow, (Binary64.mk false s e narrow).value = s * 2 ^ e := by
    intro s e narrow
    simp [value]
  rcases Nat.lt_or_eq_of_le hm' with hlt | hcarry
  · obtain ⟨hfinite, hparts⟩ := ofFloat_ofBits bits biased (m - 2 ^ 52) hbits hpos (by omega)
      (by omega)
    have hsignificand : 2 ^ 52 + (m - 2 ^ 52) = m := by omega
    simp only [hparts, hvalue, hsignificand]
    exact ⟨hfinite, trivial, by omega, trivial⟩
  · have hnext : bits = (biased + 1) * 2 ^ 52 + 0 := by
      rw [hbits, hcarry, Nat.add_zero, Nat.add_mul]
      rfl
    obtain ⟨hfinite, hparts⟩ := ofFloat_ofBits bits (biased + 1) 0 hnext (by omega) (by omega)
      (by omega)
    refine ⟨hfinite, ?_⟩
    simp only [hparts, hvalue, hcarry]
    refine ⟨trivial, by omega, ?_⟩
    have hexponent : ((biased + 1 : ℕ) : ℤ) - 1075 = ((biased : ℤ) - 1075) + 1 := by
      push_cast
      ring
    rw [hexponent, zpow_add_one₀ (by norm_num)]
    push_cast
    ring

/-! ### Rounding -/

/-- No whole number is nearer to a quotient than the rounded one. -/
theorem roundHalfEven_nearest (num : Nat) {den : Nat} (hden : 0 < den) (k : ℤ) :
    |(roundHalfEven num den : ℤ) * den - num| ≤ |k * den - num| := by
  have hsplit : (num : ℤ) = den * (num / den : ℕ) + (num % den : ℕ) := by
    exact_mod_cast (Nat.div_add_mod num den).symm
  have hrest : num % den < den := Nat.mod_lt num hden
  unfold roundHalfEven
  generalize num / den = q at hsplit ⊢
  generalize num % den = r at hsplit hrest ⊢
  -- Below the quotient the rest is the least distance, above it what the rest lacks.
  have hlow : k ≤ q → (r : ℤ) ≤ |k * den - num| := by
    intro hk
    have hmul : k * den ≤ q * den := mul_le_mul_of_nonneg_right hk (Int.natCast_nonneg den)
    exact le_abs.2 (.inr (by linarith))
  have hhigh : (q : ℤ) + 1 ≤ k → (den : ℤ) - r ≤ |k * den - num| := by
    intro hk
    have hmul : ((q : ℤ) + 1) * den ≤ k * den :=
      mul_le_mul_of_nonneg_right hk (Int.natCast_nonneg den)
    exact le_abs.2 (.inl (by linarith))
  have hdown : |(q : ℤ) * den - num| = r := by
    rw [hsplit, abs_of_nonpos] <;> linarith [Int.natCast_nonneg r]
  have hup : |((q + 1 : ℕ) : ℤ) * den - num| = den - r := by
    rw [hsplit, abs_of_nonneg] <;> push_cast <;> linarith
  simp only
  split
  · next hround =>
    rw [hdown]
    rcases le_or_gt k q with hk | hk
    · exact hlow hk
    · exact le_trans (by omega) (hhigh hk)
  · next hround =>
    rw [hup]
    rcases le_or_gt k q with hk | hk
    · exact le_trans (by omega) (hlow hk)
    · exact hhigh hk

/-- A whole number is rounded up or down. -/
theorem roundHalfEven_bounds (num den : Nat) :
    num / den ≤ roundHalfEven num den ∧ roundHalfEven num den ≤ num / den + 1 := by
  unfold roundHalfEven
  simp only
  split <;> omega

section Whole

variable {n : Nat}

theorem pow2_eq (k : Nat) : pow2 k = 2 ^ k := rfl

/-- A positive whole number, moved to 53 binary digits before the point: numerator and denominator
    of what is rounded. -/
def moved (n : Nat) : Nat × Nat := (n * 2 ^ (52 - Nat.log2 n), 2 ^ (Nat.log2 n - 52))

theorem moved_bounds (hn : 0 < n) :
    2 ^ 52 * (moved n).2 ≤ (moved n).1 ∧ (moved n).1 < 2 ^ 53 * (moved n).2 := by
  have hplaces : 52 + (Nat.log2 n - 52) = Nat.log2 n + (52 - Nat.log2 n) := by omega
  have hmin : 2 ^ Nat.log2 n ≤ n := Nat.log2_self_le (Nat.ne_of_gt hn)
  have hmax : n < 2 ^ (Nat.log2 n + 1) := Nat.lt_log2_self
  constructor
  · calc
      2 ^ 52 * 2 ^ (Nat.log2 n - 52) = 2 ^ Nat.log2 n * 2 ^ (52 - Nat.log2 n) := by
        rw [← Nat.pow_add, ← Nat.pow_add, hplaces]
      _ ≤ n * 2 ^ (52 - Nat.log2 n) := Nat.mul_le_mul_right _ hmin
  · calc
      n * 2 ^ (52 - Nat.log2 n) < 2 ^ (Nat.log2 n + 1) * 2 ^ (52 - Nat.log2 n) :=
        Nat.mul_lt_mul_of_pos_right hmax (Nat.two_pow_pos _)
      _ = 2 ^ 53 * 2 ^ (Nat.log2 n - 52) := by
        rw [← Nat.pow_add, ← Nat.pow_add]
        congr 1
        omega

/-- The exponent under which a positive whole number has 53 binary digits before the point. -/
theorem scaleFor_one (hn : 0 < n) : scaleFor n 1 = (Nat.log2 n : Int) - 52 := by
  have hlog : Nat.log2 1 = 0 := by decide
  have hup : (-((Nat.log2 n : Int) - (0 : Nat) - 52)).toNat = 52 - Nat.log2 n := by omega
  have hdown : ((Nat.log2 n : Int) - (0 : Nat) - 52).toNat = Nat.log2 n - 52 := by omega
  have hfits : ¬ n * 2 ^ (52 - Nat.log2 n) < 2 ^ 52 * (1 * 2 ^ (Nat.log2 n - 52)) := by
    rw [Nat.one_mul]
    exact Nat.not_lt.2 (moved_bounds hn).1
  simp only [scaleFor, hlog, hup, hdown, pow2_eq, if_neg hfits]
  omega

/-- What a positive whole number is rounded to, in units of the last of 53 binary digits. -/
def roundedOf (n : Nat) : Nat := roundHalfEven (moved n).1 (moved n).2

theorem roundedOf_bounds (hn : 0 < n) : 2 ^ 52 ≤ roundedOf n ∧ roundedOf n ≤ 2 ^ 53 := by
  obtain ⟨hmin, hmax⟩ := moved_bounds hn
  obtain ⟨hlow, hhigh⟩ := roundHalfEven_bounds (moved n).1 (moved n).2
  have hden : 0 < (moved n).2 := Nat.two_pow_pos _
  have hquotient := (Nat.le_div_iff_mul_le hden).2 hmin
  have hquotient' := (Nat.div_lt_iff_lt_mul hden).2 hmax
  exact ⟨Nat.le_trans hquotient hlow, Nat.le_trans hhigh hquotient'⟩

/-- The bits of the double of a positive whole number, if they are those of a number. -/
def bitsOf (n : Nat) : Nat := (Nat.log2 n + 1023) * 2 ^ 52 + (roundedOf n - 2 ^ 52)

theorem bitsOf_eq (n : Nat) :
    bitsOf n = (Nat.log2 n + 1023) * 2 ^ 52 + (roundedOf n - 2 ^ 52) := rfl

theorem ofInt?_eq (hn : 0 < n) : ofInt? n
    = if bitsOf n < 2047 * 2 ^ 52 then some (Float.ofBits (UInt64.ofNat (bitsOf n))) else none := by
  have hsign : decide ((n : Int) < 0) = false := decide_eq_false (by omega)
  have hup : (-((Nat.log2 n : Int) - 52)).toNat = 52 - Nat.log2 n := by omega
  have hdown : ((Nat.log2 n : Int) - 52).toNat = Nat.log2 n - 52 := by omega
  have hbiased : ((Nat.log2 n : Int) - 52 + 1075).toNat = Nat.log2 n + 1023 := by omega
  have hrounded : roundHalfEven (n * 2 ^ (52 - Nat.log2 n)) (1 * 2 ^ (Nat.log2 n - 52))
      = roundedOf n := by
    rw [Nat.one_mul]
    rfl
  have hmin : ¬ roundedOf n < 2 ^ 52 := Nat.not_lt.2 (roundedOf_bounds hn).1
  simp only [ofInt?, nearest?, hsign, Int.natAbs_natCast, if_neg (Nat.ne_of_gt hn),
    scaleFor_one hn, hup, hdown, hbiased, pow2_eq, hrounded, if_neg hmin,
    Bool.false_eq_true, if_false, Nat.zero_add]
  rw [← bitsOf_eq]

/-- A double of a positive whole number is what that is rounded to. -/
theorem value_of_ofInt? (hn : 0 < n) {x : Float} (h : ofInt? n = some x) :
    (x.isNaN = false ∧ x.isInf = false) ∧ (ofFloat x).negative = false ∧
      0 < (ofFloat x).significand ∧
      (ofFloat x).value = roundedOf n * 2 ^ ((Nat.log2 n : ℤ) - 52) := by
  obtain ⟨hmin, hmax⟩ := roundedOf_bounds hn
  rw [ofInt?_eq hn] at h
  split at h
  · next hbits =>
    obtain rfl := Option.some.inj h
    obtain ⟨hfinite, hnegative, hsignificand, hvalue⟩ :=
      value_ofBits (bitsOf n) (Nat.log2 n + 1023) (roundedOf n) (bitsOf_eq n) (by omega) hmin hmax
        hbits
    have hexponent : ((Nat.log2 n + 1023 : ℕ) : ℤ) - 1075 = (Nat.log2 n : ℤ) - 52 := by
      push_cast
      ring
    rw [hexponent] at hvalue
    exact ⟨hfinite, hnegative, hsignificand, hvalue⟩
  · cases h

/-- How far a multiple of the unit is from the number, told in what is rounded. -/
theorem distance_eq (n : Nat) (k : ℤ) : |(k : ℚ) * 2 ^ ((Nat.log2 n : ℤ) - 52) - n|
    = (|k * (moved n).2 - (moved n).1| : ℤ) / 2 ^ (52 - Nat.log2 n) := by
  have hunit : (2 : ℚ) ^ ((Nat.log2 n : ℤ) - 52)
      = 2 ^ (Nat.log2 n - 52) / 2 ^ (52 - Nat.log2 n) := by
    have hsplit : (Nat.log2 n : ℤ) - 52 = (Nat.log2 n - 52 : ℕ) - (52 - Nat.log2 n : ℕ) := by
      omega
    rw [hsplit, zpow_sub₀ (by norm_num), zpow_natCast, zpow_natCast]
  have hpos : (0 : ℚ) < 2 ^ (52 - Nat.log2 n) := by positivity
  have hquotient : (k : ℚ) * 2 ^ ((Nat.log2 n : ℤ) - 52) - n
      = (k * (moved n).2 - (moved n).1) / 2 ^ (52 - Nat.log2 n) := by
    rw [hunit, moved]
    push_cast
    field_simp
  rw [hquotient, abs_div, abs_of_pos hpos]
  push_cast
  rfl

/-- No multiple of the unit is nearer to the number than what that is rounded to. -/
theorem roundedOf_nearest (n : Nat) (k : ℤ) :
    |(roundedOf n : ℚ) * 2 ^ ((Nat.log2 n : ℤ) - 52) - n|
      ≤ |(k : ℚ) * 2 ^ ((Nat.log2 n : ℤ) - 52) - n| := by
  have hnearest := roundHalfEven_nearest (moved n).1 (Nat.two_pow_pos _ : 0 < (moved n).2) k
  have hrounded := distance_eq n (roundedOf n)
  rw [Int.cast_natCast] at hrounded
  rw [hrounded, distance_eq]
  exact div_le_div_of_nonneg_right (Int.cast_le.2 hnearest) (by positivity)

/-- A double is a multiple of the unit, or less than the least number of 53 binary digits. -/
theorem multiple_or_less (b : Binary64) (hb : b.significand < 2 ^ 53) (e : ℤ) :
    (∃ k : ℤ, b.value = k * 2 ^ e) ∨ b.value < 2 ^ 52 * 2 ^ e := by
  rcases le_or_gt e b.exponent with he | he
  · refine .inl ⟨(if b.negative then -1 else 1) * b.significand * 2 ^ (b.exponent - e).toNat, ?_⟩
    have hsplit : (2 : ℚ) ^ b.exponent = 2 ^ (b.exponent - e).toNat * 2 ^ e := by
      rw [← zpow_natCast, ← zpow_add₀ (by norm_num), Int.toNat_of_nonneg (by omega)]
      congr 1
      omega
    rw [value, hsplit]
    split <;> push_cast <;> ring
  · right
    have hpos : (0 : ℚ) < 2 ^ b.exponent := by positivity
    have hle : b.value ≤ b.significand * 2 ^ b.exponent := by
      have hzero : (0 : ℚ) ≤ b.significand * 2 ^ b.exponent := by positivity
      rw [value]
      split <;> linarith
    have hexponent : (2 : ℚ) ^ b.exponent ≤ 2 ^ (e - 1) :=
      zpow_le_zpow_right₀ (by norm_num) (by omega)
    have hsignificand : (b.significand : ℚ) < 2 ^ 53 := by exact_mod_cast hb
    calc
      b.value ≤ b.significand * 2 ^ b.exponent := hle
      _ < 2 ^ 53 * 2 ^ b.exponent := by gcongr
      _ ≤ 2 ^ 53 * 2 ^ (e - 1) := by gcongr
      _ = 2 ^ 52 * 2 ^ e := by
        rw [zpow_sub_one₀ (by norm_num)]
        ring

/-- The double of a positive whole number is as near to it as any. -/
theorem nearest_of_ofInt? (hn : 0 < n) {x : Float} (h : ofInt? n = some x) (y : Float) :
    |(ofFloat x).value - n| ≤ |(ofFloat y).value - n| := by
  obtain ⟨-, -, -, hvalue⟩ := value_of_ofInt? hn h
  have hmin : (2 : ℚ) ^ 52 * 2 ^ ((Nat.log2 n : ℤ) - 52) ≤ n := by
    have hleast : ((2 ^ Nat.log2 n : ℕ) : ℚ) ≤ n :=
      Nat.cast_le.2 (Nat.log2_self_le (Nat.ne_of_gt hn))
    rw [zpow_sub₀ (by norm_num), zpow_natCast]
    push_cast at hleast
    calc
      (2 : ℚ) ^ 52 * (2 ^ Nat.log2 n / 2 ^ (52 : ℤ)) = 2 ^ Nat.log2 n := by
        norm_num
        ring
      _ ≤ n := hleast
  rw [hvalue]
  rcases multiple_or_less (ofFloat y) (significand_ofFloat_lt y) ((Nat.log2 n : ℤ) - 52) with
    ⟨k, hk⟩ | hless
  · rw [hk]
    exact roundedOf_nearest n k
  · -- The least number of 53 digits stands between the double and the number.
    have hbetween := roundedOf_nearest n (2 ^ 52)
    push_cast at hbetween
    refine le_trans hbetween ?_
    rw [abs_of_nonpos (by linarith), abs_of_nonpos (by linarith)]
    linarith

/-- What is less than 54 binary digits is rounded up to them from the middle between the last two
    numbers on. -/
theorem carries_iff {num u : Nat} (hu : 0 < u) (hnum : num < 2 ^ 53 * (2 * u)) :
    2 ^ 53 ≤ roundHalfEven num (2 * u) ↔ 2 ^ 54 * u - u ≤ num := by
  have hsplit := Nat.div_add_mod num (2 * u)
  have hrest : num % (2 * u) < 2 * u := Nat.mod_lt _ (by omega)
  have hquotient : num / (2 * u) < 2 ^ 53 := (Nat.div_lt_iff_lt_mul (by omega)).2 hnum
  unfold roundHalfEven
  generalize num / (2 * u) = q at hsplit hquotient ⊢
  generalize num % (2 * u) = r at hsplit hrest ⊢
  have hlast : q < 2 ^ 53 - 1 ∨ q = 2 ^ 53 - 1 := by omega
  rcases hlast with hlt | rfl
  · -- Below the last number of 53 digits, neither side holds.
    have hmul : 2 * u * q + 2 * u ≤ 2 * u * (2 ^ 53 - 1) := by
      rw [← Nat.mul_succ]
      exact Nat.mul_le_mul_left _ hlt
    simp only
    split <;> omega
  · simp only
    split <;> omega

/-- Only a number that would be rounded to one beyond the largest double has none. -/
theorem ofInt?_eq_none_iff (hn : 0 < n) : ofInt? n = none ↔ 2 ^ 1024 - 2 ^ 970 ≤ n := by
  obtain ⟨hmin, hmax⟩ := roundedOf_bounds hn
  have hleast : 2 ^ Nat.log2 n ≤ n := Nat.log2_self_le (Nat.ne_of_gt hn)
  have hless : n < 2 ^ (Nat.log2 n + 1) := Nat.lt_log2_self
  have hnone : ofInt? n = none ↔ 2047 * 2 ^ 52 ≤ bitsOf n := by
    rw [ofInt?_eq hn]
    split <;> simp <;> omega
  have hlargest : 2 ^ 1024 = 2 ^ 54 * 2 ^ 970 := by rw [← Nat.pow_add]
  have hunit : 2 ^ 971 = 2 * 2 ^ 970 := by rw [← Nat.pow_succ']
  have hhalf : 2 ^ 1023 = 2 ^ 53 * 2 ^ 970 := by rw [← Nat.pow_add]
  have hpos : 0 < 2 ^ 970 := by positivity
  rw [hnone, bitsOf_eq, hlargest]
  rcases Nat.lt_trichotomy (Nat.log2 n) 1023 with hlog | hlog | hlog
  · have hsmall : n < 2 ^ 1023 :=
      Nat.lt_of_lt_of_le hless (pow_le_pow_right₀ (by decide) hlog)
    generalize 2 ^ 970 = u at hhalf hpos ⊢
    omega
  · have hrounded : roundedOf n = roundHalfEven n (2 * 2 ^ 970) := by
      rw [roundedOf, moved, hlog, ← hunit, Nat.sub_eq_zero_of_le (by omega), Nat.pow_zero,
        Nat.mul_one]
    have hbound : n < 2 ^ 1024 :=
      Nat.lt_of_lt_of_le hless
        (pow_le_pow_right₀ (by decide) (Nat.le_of_eq (congrArg (· + 1) hlog)))
    rw [hlargest] at hbound
    have hcarries := carries_iff hpos (show n < 2 ^ 53 * (2 * 2 ^ 970) by omega)
    rw [hlog, hrounded]
    omega
  · have hlarge : 2 ^ 1024 ≤ n :=
      Nat.le_trans (pow_le_pow_right₀ (by decide) hlog) hleast
    rw [hlargest] at hlarge
    generalize 2 ^ 970 = u at hlarge hpos ⊢
    omega

end Whole

/-! ### Order -/

section Order

open Float.Model Float.Model.UnpackedFloat

/-- What is not above zero has its sign bit set, or it is the positive zero. -/
theorem le_zero_cases {b : BitVec 64}
    (h : (UnpackedFloat.unpack Format.binary64 b).le (.zero .positive) = true) :
    2 ^ 63 ≤ b.toNat ∨ b.toNat = 0 := by
  by_contra hneither
  have hpositive : b.toNat < 2 ^ 63 := by omega
  have hmantissa : (@unpackMantissa Format.binary64 b).toNat = b.toNat % 2 ^ 52 :=
    toNat_unpackMantissa
  have hexponent : (@unpackExponent Format.binary64 b).toNat = b.toNat / 2 ^ 52 % 2 ^ 11 :=
    toNat_unpackExponent
  have hsign : @unpackSign Format.binary64 b = 0#1 := unpackSign_eq hpositive
  -- Without a sign, only the zero is not above zero: its exponent and its fraction have no digit.
  rw [UnpackedFloat.unpack] at h
  simp only [hsign] at h
  split at h
  · split at h
    · cases h
    · cases h
  · split at h
    · next hzeros =>
      split at h
      · next hnone =>
        have hfraction := congrArg BitVec.toNat hnone
        have hbiased := congrArg BitVec.toNat hzeros
        rw [hmantissa] at hfraction
        rw [hexponent] at hbiased
        simp at hfraction hbiased
        omega
      · cases h
    · cases h

end Order

/-- A double that is not above zero is not found above it in the exact order. -/
theorem compareInt?_zero_of_le {x : Float} (h : x ≤ 0) : compareInt? 0 x ≠ some .lt := by
  have hle : (Float.Model.UnpackedFloat.unpack Float.Model.Format.binary64 x.toBits.toBitVec).le
      (.zero .positive) = true := of_decide_eq_true h
  unfold compareInt?
  rcases le_zero_cases hle with hhigh | hzero
  · have hsign : signBit x = true := by
      unfold signBit
      exact decide_eq_true (UInt64.le_iff_toNat_le.2 hhigh)
    have hlt : x.toBits.toNat < 2 ^ 64 := x.toBits.toNat_lt
    have hquotient : x.toBits.toNat / 2 ^ 63 = 1 := by
      have : 2 ^ 63 ≤ x.toBits.toNat := hhigh
      omega
    have hnegative : (ofFloat x).negative = true := by
      unfold ofFloat
      simp only [pow2_eq, hquotient]
      split <;> rfl
    split
    · nofun
    · split
      · nofun
      · simp only [hnegative, if_true]
        intro hless
        have hpos := compare_lt_iff_lt.1 (Option.some.inj hless)
        omega
  · have hbits : x.toBits = 0 := UInt64.toNat_inj.1 hzero
    have hinf : x.isInf = false := by
      show (Float.Model.UnpackedFloat.unpack Float.Model.Format.binary64 x.toBits.toBitVec).isInf
        = false
      rw [hbits]
      rfl
    have hratio : (ofFloat x).ratio.1 = 0 := by
      simp only [ofFloat, hbits]
      rfl
    have hnegative : (ofFloat x).negative = false := by
      simp only [ofFloat, hbits]
      rfl
    split
    · nofun
    · simp only [hinf, hnegative, hratio]
      simp

end TextTemplate.Binary64
