import GenLang.Proofs.Decimal.Bits
import GenLang.Decimal.Shortest

/-!
# The double nearest to a fraction

The reals that round to a double are an interval around it. Every fraction in the interval of a
double with a mantissa of 53 bits is read as that double, whatever its numerator and denominator.
-/

namespace GenLang

namespace Binary64

/-! ## Bits -/

theorem nearestBits_le (num den : Nat) : nearestBits num den ≤ 2047 * hidden := by
  unfold nearestBits
  split
  · exact Nat.zero_le _
  · exact Nat.min_le_right _ _

theorem toNat_toBits_nearest (num den : Nat) :
    (nearest false num den).toBits.toNat = nearestBits num den := by
  unfold nearest
  rw [if_neg Bool.false_ne_true, Nat.zero_add]
  exact toNat_toBits_ofBits (nearestBits_le num den)

/-- Mantissas and exponents that finite doubles are taken apart into. -/
structure IsFinite (m : Nat) (e : Int) : Prop where
  lt : m < 2 * hidden
  least : -1074 ≤ e
  most : e ≤ 971
  normal : hidden ≤ m ∨ e = -1074

theorem IsFinite.cast_lt {m : Nat} {e : Int} (h : IsFinite m e) : (m : ℚ) < 9007199254740992 := by
  have hlt : m < 9007199254740992 := h.lt
  exact_mod_cast hlt

/-- The bits of a finite double that is not negative. -/
def bitsOf (m : Nat) (e : Int) : Nat :=
  (e + 1074).toNat * hidden + m

/-- What the bits of a finite double that is not negative stand for. -/
theorem ofBits_of_lt {b : Nat} (hb : b < 2047 * hidden) :
    ∃ m e, ofBits b = .finite false m e ∧ IsFinite m e ∧ b = bitsOf m e := by
  have hsign : (b / signBit % 2 == 1) = false := by
    have hsize : signBit = 9223372036854775808 := rfl
    rw [hidden_eq] at hb
    rw [hsize, Nat.div_eq_of_lt (by omega)]
    rfl
  have hfield : b / hidden % 2048 = b / hidden := Nat.mod_eq_of_lt (by rw [hidden_eq] at *; omega)
  have hfinite : b / hidden ≠ 2047 := by rw [hidden_eq] at *; omega
  have hdiv := Nat.div_add_mod b hidden
  unfold ofBits
  simp only [hsign, hfield, if_neg hfinite]
  -- Numbers with exponent field zero have no hidden bit and share the least exponent.
  by_cases hzero : b / hidden = 0
  · rw [if_pos hzero]
    have hfraction : b % hidden < 2 * hidden := by rw [hidden_eq] at *; omega
    have hbits : b = bitsOf (b % hidden) (-1074) := by rw [bitsOf, hidden_eq] at *; omega
    exact ⟨_, _, rfl, ⟨hfraction, by decide, by decide, .inr rfl⟩, hbits⟩
  · rw [if_neg hzero]
    have hmantissa : hidden + b % hidden < 2 * hidden := by rw [hidden_eq] at *; omega
    have hbits : b = bitsOf (hidden + b % hidden) ((b / hidden : Nat) - 1075) := by
      rw [bitsOf, hidden_eq] at *
      omega
    exact ⟨_, _, rfl, ⟨hmantissa, by omega, by rw [hidden_eq] at *; omega,
      .inl (Nat.le_add_right _ _)⟩, hbits⟩

theorem ofBits_infinity : ofBits (2047 * hidden) = .infinite false := by
  decide

/-! ## Fractions -/

variable {num den : Nat} {e : Int}

theorem scale_eq (num den : Nat) (e : Int) :
    ((scale num den e).1 : ℚ) / (scale num den e).2 = num / den / 2 ^ e := by
  unfold scale
  split
  · next he =>
    obtain ⟨n, rfl⟩ : ∃ n : Nat, e = -n := ⟨(-e).toNat, by omega⟩
    simp only [neg_neg, Int.toNat_natCast, Nat.pow_eq, Nat.cast_mul, Nat.cast_pow, Nat.cast_ofNat,
      zpow_neg, zpow_natCast]
    field_simp
  · next he =>
    obtain ⟨n, rfl⟩ : ∃ n : Nat, e = n := ⟨e.toNat, by omega⟩
    simp only [Int.toNat_natCast, Nat.pow_eq, Nat.cast_mul, Nat.cast_pow, Nat.cast_ofNat,
      zpow_natCast]
    field_simp

theorem scale_pos (hden : 0 < den) (num : Nat) (e : Int) : 0 < (scale num den e).2 := by
  unfold scale
  split
  · exact hden
  · exact Nat.mul_pos hden (Nat.pow_pos (by decide))

/-- Numbers that are rounded to an integer. A tie is rounded to an even one. -/
def RoundsTo (x : ℚ) (k : Nat) : Prop :=
  |x - k| ≤ 1 / 2 ∧ (k % 2 = 1 → |x - k| < 1 / 2)

theorem roundsTo_div_iff {x p : ℚ} {k : Nat} (hp : 0 < p) : RoundsTo (x / p) k ↔
    ((2 * k - 1) * p ≤ 2 * x ∧ 2 * x ≤ (2 * k + 1) * p) ∧
      (k % 2 = 1 → (2 * k - 1) * p < 2 * x ∧ 2 * x < (2 * k + 1) * p) := by
  have hdiff : x / p - k = (x - k * p) / p := by
    field_simp
  rw [RoundsTo, hdiff, abs_div, abs_of_pos hp, div_le_iff₀ hp, div_lt_iff₀ hp, abs_le, abs_lt]
  constructor
  · rintro ⟨⟨hlow, hhigh⟩, hodd⟩
    refine ⟨⟨by linarith, by linarith⟩, fun hk => ?_⟩
    obtain ⟨hlow, hhigh⟩ := hodd hk
    exact ⟨by linarith, by linarith⟩
  · rintro ⟨⟨hlow, hhigh⟩, hodd⟩
    refine ⟨⟨by linarith, by linarith⟩, fun hk => ?_⟩
    obtain ⟨hlow, hhigh⟩ := hodd hk
    exact ⟨by linarith, by linarith⟩

theorem roundDiv_eq {n d k : Nat} (hd : 0 < d) (h : RoundsTo (n / d) k) : roundDiv n d = k := by
  have hends : (2 * (k * d) ≤ 2 * n + d ∧ 2 * n ≤ 2 * (k * d) + d) ∧
      (k % 2 = 1 → 2 * (k * d) < 2 * n + d ∧ 2 * n < 2 * (k * d) + d) := by
    have hends := (roundsTo_div_iff (by exact_mod_cast hd)).1 h
    rw [sub_mul, sub_le_iff_le_add, sub_lt_iff_lt_add, add_mul, one_mul, mul_assoc] at hends
    exact_mod_cast hends
  have hdiv := Nat.div_add_mod n d
  have hmod := Nat.mod_lt n hd
  -- The quotient is the integer or the one before it.
  have hquotient : n / d = k ∨ n / d + 1 = k := by
    have hupper : n / d < k + 1 := (Nat.div_lt_iff_lt_mul hd).2 (by rw [Nat.add_mul]; omega)
    have hlower : k ≤ n / d + 1 := by
      rw [← Nat.add_div_right n hd, Nat.le_div_iff_mul_le hd]
      omega
    omega
  unfold roundDiv
  dsimp only
  rcases hquotient with hq | hq
  · have hn : n = k * d + n % d := by rw [← hq, Nat.mul_comm]; exact hdiv.symm
    rw [hq]
    split
    · rfl
    · split <;> omega
  · have hn : n + d = k * d + n % d := by rw [← hq, Nat.add_mul, Nat.mul_comm _ d]; omega
    split
    · omega
    · split
      · exact hq
      · omega

/-! ## Exponents -/

/-- The exponent at which a number has a mantissa of 53 bits, or that of the smallest doubles. -/
structure IsExponent (x : ℚ) (e : Int) : Prop where
  least : -1074 ≤ e
  lt : x < 2 ^ (e + 53)
  le : e = -1074 ∨ 2 ^ (e + 52) ≤ x

theorem IsExponent.eq {x : ℚ} {e e' : Int} (h : IsExponent x e) (h' : IsExponent x e') :
    e = e' := by
  -- Of two exponents the larger one would have fewer than 53 bits.
  have hle {a b : Int} (ha : IsExponent x a) (hb : IsExponent x b) : b ≤ a := by
    rcases hb.le with rfl | hlow
    · exact ha.least
    · have hpow := hlow.trans_lt ha.lt
      rw [zpow_lt_zpow_iff_right₀ one_lt_two] at hpow
      omega
  exact le_antisymm (hle h' h) (hle h h')

theorem log2_bounds {n : Nat} (hn : n ≠ 0) :
    (2 : ℚ) ^ (n.log2 : Int) ≤ n ∧ (n : ℚ) < 2 ^ ((n.log2 : Int) + 1) := by
  have hlow := Nat.log2_self_le hn
  have hhigh := Nat.lt_log2_self (n := n)
  constructor
  · rw [zpow_natCast]
    exact_mod_cast hlow
  · rw [← Nat.cast_succ, zpow_natCast]
    exact_mod_cast hhigh

/-- The logarithms of numerator and denominator tell a fraction up to a factor of two. -/
theorem log2_ratio_bounds (hnum : num ≠ 0) (hden : den ≠ 0) :
    (2 : ℚ) ^ ((num.log2 : Int) - den.log2 - 1) ≤ num / den ∧
      (num / den : ℚ) < 2 ^ ((num.log2 : Int) - den.log2 + 1) := by
  obtain ⟨hnlow, hnhigh⟩ := log2_bounds hnum
  obtain ⟨hdlow, hdhigh⟩ := log2_bounds hden
  have hden' : (0 : ℚ) < den := by exact_mod_cast Nat.pos_of_ne_zero hden
  -- the numerator on one side, the denominator on the other, each by its own bound
  constructor
  · rw [le_div_iff₀ hden']
    calc (2 : ℚ) ^ ((num.log2 : Int) - den.log2 - 1) * den
        ≤ 2 ^ ((num.log2 : Int) - den.log2 - 1) * 2 ^ ((den.log2 : Int) + 1) :=
          mul_le_mul_of_nonneg_left hdhigh.le (by positivity)
      _ = 2 ^ (num.log2 : Int) := by
          rw [← zpow_add₀ two_ne_zero]
          congr 1
          omega
      _ ≤ num := hnlow
  · rw [div_lt_iff₀ hden']
    calc (num : ℚ) < 2 ^ ((num.log2 : Int) + 1) := hnhigh
      _ = 2 ^ ((num.log2 : Int) - den.log2 + 1) * 2 ^ (den.log2 : Int) := by
          rw [← zpow_add₀ two_ne_zero]
          congr 1
          omega
      _ ≤ 2 ^ ((num.log2 : Int) - den.log2 + 1) * den :=
          mul_le_mul_of_nonneg_left hdlow (by positivity)

/-- Whether a mantissa has 53 bits at most is seen from its whole part. -/
theorem scale_div_lt_iff (hden : 0 < den) : (scale num den e).1 / (scale num den e).2 < 2 * hidden ↔
    (num / den : ℚ) < 2 ^ (e + 53) := by
  have hpos := scale_pos hden num e
  have hsize : 2 * hidden = 2 ^ 53 := rfl
  rw [Nat.div_lt_iff_lt_mul hpos, hsize, zpow_add₀ two_ne_zero, mul_comm ((2 : ℚ) ^ e),
    ← div_lt_iff₀ (by positivity), ← scale_eq, div_lt_iff₀ (by exact_mod_cast hpos)]
  norm_cast

theorem isExponent_exponentOf (hnum : num ≠ 0) (hden : 0 < den) :
    IsExponent (num / den) (exponentOf num den) := by
  obtain ⟨hlow, hhigh⟩ := log2_ratio_bounds hnum hden.ne'
  unfold exponentOf
  dsimp only
  -- The exponent is guessed from the logarithms, and is either right or one too small.
  generalize hl : max (Int.ofNat num.log2 - Int.ofNat den.log2 - 53) (-1074) = low
  simp only [Int.ofNat_eq_natCast] at hl
  split
  · next h =>
    refine ⟨by omega, (scale_div_lt_iff hden).1 h, ?_⟩
    by_cases hle : (num.log2 : Int) - den.log2 - 53 ≤ -1074
    · exact .inl (by omega)
    · exact .inr ((zpow_le_zpow_right₀ one_le_two (by omega)).trans hlow)
  · next h =>
    rw [scale_div_lt_iff hden, not_lt] at h
    exact ⟨by omega, hhigh.trans_le (zpow_le_zpow_right₀ one_le_two (by omega)),
      .inr ((zpow_le_zpow_right₀ one_le_two (by omega)).trans h)⟩

/-! ## The nearest double -/

theorem nearestBits_eq {k : Nat} (hnum : num ≠ 0) (hden : 0 < den)
    (he : IsExponent (num / den) e) (hk : RoundsTo (num / den / 2 ^ e) k) :
    nearestBits num den = min ((e + 1074).toNat * hidden + k) (2047 * hidden) := by
  have hexponent : exponentOf num den = e := (isExponent_exponentOf hnum hden).eq he
  unfold nearestBits
  rw [if_neg hnum, hexponent]
  dsimp only
  rw [roundDiv_eq (scale_pos hden num e) (by rwa [scale_eq])]

end Binary64

namespace Decimal.Interval

open Binary64

/-- A number lies in an interval. -/
def Contains (i : Interval) (x : ℚ) : Prop :=
  if i.closed then (i.low : ℚ) / i.den ≤ x ∧ x ≤ i.high / i.den
  else (i.low : ℚ) / i.den < x ∧ x < i.high / i.den

variable {m : Nat} {e : Int} {x : ℚ}

/-- Quarters of a step, as an interval writes them. -/
theorem cast_quarters (n : Nat) (e : Int) :
    ((n * Nat.pow 2 (e - 2).toNat : Nat) : ℚ) / (Nat.pow 2 (2 - e).toNat : Nat) =
      n * (2 ^ e / 4) := by
  have hquarter : (2 : ℚ) ^ e / 4 = 2 ^ (e - 2) := by
    rw [zpow_sub₀ two_ne_zero]
    norm_num
  simp only [Nat.pow_eq, Nat.cast_mul, Nat.cast_pow, Nat.cast_ofNat]
  rw [hquarter, mul_div_assoc, ← zpow_natCast, ← zpow_natCast, ← zpow_sub₀ two_ne_zero]
  congr 2
  omega

/-- How far the interval of a double reaches down, in quarters of a step. -/
def below (m : Nat) (e : Int) : Nat :=
  if m = Binary64.hidden ∧ -1074 < e then 1 else 2

theorem below_pos (m : Nat) (e : Int) : 0 < below m e := by
  unfold below
  split <;> decide

theorem below_le (m : Nat) (e : Int) : below m e ≤ 2 := by
  unfold below
  split <;> decide

theorem low_of (hm : 0 < m) (e : Int) :
    ((of m e).low : ℚ) / (of m e).den = (4 * m - below m e) * (2 ^ e / 4) := by
  have hle : below m e ≤ 4 * m := (below_le m e).trans (by omega)
  refine (cast_quarters (4 * m - below m e) e).trans ?_
  rw [Nat.cast_sub hle]
  push_cast
  ring

theorem high_of (m : Nat) (e : Int) :
    ((of m e).high : ℚ) / (of m e).den = (4 * m + 2) * (2 ^ e / 4) := by
  refine (cast_quarters (4 * m + 2) e).trans ?_
  push_cast
  ring

theorem contains_of (hm : 0 < m) (h : (of m e).Contains x) :
    (4 * m - below m e) * (2 ^ e / 4 : ℚ) ≤ x ∧ x ≤ (4 * m + 2) * (2 ^ e / 4) ∧
      (m % 2 = 1 → (4 * m - below m e) * (2 ^ e / 4 : ℚ) < x ∧ x < (4 * m + 2) * (2 ^ e / 4)) := by
  have hclosed : (of m e).closed = (m % 2 == 0) := rfl
  rw [Contains, low_of hm, high_of, hclosed] at h
  by_cases heven : m % 2 = 0
  · rw [if_pos (by simpa using heven)] at h
    exact ⟨h.1, h.2, fun hodd => by omega⟩
  · rw [if_neg (by simpa using heven)] at h
    exact ⟨h.1.le, h.2.le, fun _ => h⟩

theorem contains_middle (hm : 0 < m) (e : Int) : (of m e).Contains (m * 2 ^ e) := by
  have hstep : (0 : ℚ) < 2 ^ e / 4 := by positivity
  have hbelow : (0 : ℚ) < below m e := by exact_mod_cast below_pos m e
  have hlow : (4 * m - below m e : ℚ) * (2 ^ e / 4) < m * 2 ^ e := by nlinarith
  have hhigh : (m * 2 ^ e : ℚ) < (4 * m + 2) * (2 ^ e / 4) := by nlinarith
  rw [Contains, low_of hm, high_of]
  split
  · exact ⟨hlow.le, hhigh.le⟩
  · exact ⟨hlow, hhigh⟩

end Decimal.Interval

namespace Binary64

open Decimal

variable {num den m : Nat} {e : Int} {x : ℚ}

/-- What the interval of a double says of mantissas at its own exponent. -/
theorem roundsTo_of_contains (hm : 0 < m) (h : (Interval.of m e).Contains x) :
    RoundsTo (x / 2 ^ e) m ∧ x ≤ (m + 1 / 2) * 2 ^ e := by
  obtain ⟨hlow, hhigh, hodd⟩ := Interval.contains_of hm h
  have hstep : (0 : ℚ) < 2 ^ e := by positivity
  have hbelow : (Interval.below m e : ℚ) ≤ 2 := by exact_mod_cast Interval.below_le m e
  refine ⟨(roundsTo_div_iff hstep).2 ⟨⟨by nlinarith, by linarith⟩, fun hk => ?_⟩, by linarith⟩
  obtain ⟨hlow, hhigh⟩ := hodd hk
  exact ⟨by nlinarith, by linarith⟩

theorem pos_of_contains (hm : 0 < m) (h : (Interval.of m e).Contains x) : 0 < x := by
  obtain ⟨hlow, -, -⟩ := Interval.contains_of hm h
  have hstep : (0 : ℚ) < 2 ^ e / 4 := by positivity
  have hbelow : (Interval.below m e : ℚ) ≤ 2 := by exact_mod_cast Interval.below_le m e
  have hm' : (1 : ℚ) ≤ m := by exact_mod_cast hm
  exact (mul_pos (by linarith) hstep).trans_le hlow

/-- A number in the interval has the exponent of the double, unless it lies below all that have. -/
theorem isExponent_of_contains (hfinite : IsFinite m e) (hm : 0 < m)
    (h : (Interval.of m e).Contains x) (hown : e = -1074 ∨ (2 : ℚ) ^ (e + 52) ≤ x) :
    IsExponent x e := by
  obtain ⟨-, hle⟩ := roundsTo_of_contains hm h
  have hstep : (0 : ℚ) < 2 ^ e := by positivity
  have hm' : (m : ℚ) + 1 ≤ 2 ^ (53 : Int) := by
    have hnat : m + 1 ≤ 2 ^ 53 := hfinite.lt
    exact_mod_cast hnat
  refine ⟨hfinite.least, ?_, hown⟩
  rw [zpow_add₀ two_ne_zero]
  nlinarith

/-- Only the interval of the lowest double of an exponent reaches below it. There it has the
exponent before, and is rounded up to what has one bit more. -/
theorem isExponent_below (hlow : hidden ≤ m) (h : (Interval.of m e).Contains x)
    (hleast : -1074 < e) (hlt : x < 2 ^ (e + 52)) :
    m = hidden ∧ IsExponent x (e - 1) ∧ RoundsTo (x / 2 ^ (e - 1)) (2 * hidden) := by
  have hsize : hidden = 2 ^ 52 := rfl
  have hstep : (0 : ℚ) < 2 ^ e := by positivity
  have hpow (k : Nat) : (2 : ℚ) ^ (e + k) = 2 ^ e * 2 ^ k := by
    rw [zpow_add₀ two_ne_zero, zpow_natCast]
  have hhalf : (2 : ℚ) ^ (e - 1) = 2 ^ e / 2 := zpow_sub_one₀ two_ne_zero e
  obtain ⟨hlower, -, -⟩ := Interval.contains_of (by omega) h
  have hlt' : x < 2 ^ e * 2 ^ 52 := hlt.trans_eq (hpow 52)
  -- A larger mantissa has all of its interval at its own exponent.
  obtain rfl : m = hidden := by
    by_contra hne
    have hbelow : Interval.below m e = 2 := if_neg fun hboth => hne hboth.1
    have hnext : (2 : ℚ) ^ 52 + 1 ≤ m := by
      have hnat : 2 ^ 52 + 1 ≤ m := by omega
      exact_mod_cast hnat
    rw [hbelow, Nat.cast_two] at hlower
    nlinarith
  have hbelow : Interval.below hidden e = 1 := if_pos ⟨rfl, hleast⟩
  rw [hbelow, hsize, Nat.cast_one, Nat.cast_pow, Nat.cast_two] at hlower
  refine ⟨rfl, ⟨by omega, ?_, .inr ?_⟩, ?_⟩
  · have hsum : e - 1 + 53 = e + 52 := by omega
    rwa [hsum]
  · have hsum : e - 1 + 52 = e + (51 : Nat) := by omega
    rw [hsum, hpow]
    nlinarith
  · rw [hhalf, roundsTo_div_iff (by positivity)]
    refine ⟨?_, fun hodd => absurd hodd (by decide)⟩
    rw [hsize]
    push_cast
    exact ⟨by linarith, by linarith⟩

/-- A fraction in the interval of a double is rounded to the double. -/
theorem nearestBits_of_contains (hfinite : IsFinite m e) (hlow : hidden ≤ m) (hden : 0 < den)
    (h : (Interval.of m e).Contains (num / den)) : nearestBits num den = bitsOf m e := by
  have hm : 0 < m := Nat.lt_of_lt_of_le (by decide) hlow
  have hlt := hfinite.lt
  have hleast := hfinite.least
  have hmost := hfinite.most
  have hnum : num ≠ 0 := by
    rintro rfl
    have hpos := pos_of_contains hm h
    rw [Nat.cast_zero, zero_div] at hpos
    exact lt_irrefl _ hpos
  -- The ratio may lie below the power of two that its nearest number is: then it has the exponent
  -- below, and rounds up to it.
  by_cases hown : e = -1074 ∨ (2 : ℚ) ^ (e + 52) ≤ num / den
  · rw [nearestBits_eq hnum hden (isExponent_of_contains hfinite hm h hown)
      (roundsTo_of_contains hm h).1, bitsOf, Nat.min_eq_left]
    rw [hidden_eq] at *
    omega
  · obtain ⟨hne, hbelow⟩ := not_or.1 hown
    obtain ⟨rfl, hexponent, hrounds⟩ := isExponent_below hlow h (by omega) (not_le.1 hbelow)
    rw [nearestBits_eq hnum hden hexponent hrounds, bitsOf, Nat.min_eq_left]
    all_goals
      rw [hidden_eq]
      omega

end Binary64

end GenLang
