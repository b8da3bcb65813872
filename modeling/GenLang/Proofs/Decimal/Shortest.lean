import GenLang.Proofs.Decimal.Rounding

/-!
# The shortest decimal lies in the interval

Whatever the search for a decimal finds lies in the interval of the double. For doubles that are
written with their digits it ends on a grid that is finer than half a step, so it finds something.
-/

namespace GenLang

namespace Decimal

/-- The number that a decimal stands for. -/
def toRat (d : Decimal) : ℚ :=
  d.digits * 10 ^ d.exponent

namespace Interval

variable {i : Interval} {e : Int}

theorem ratio_pow {b : Nat} (hb : b ≠ 0) (e : Int) :
    ((Nat.pow b e.toNat : Nat) : ℚ) / (Nat.pow b (-e).toNat : Nat) = b ^ e := by
  simp only [Nat.pow_eq, Nat.cast_pow]
  rw [← zpow_natCast, ← zpow_natCast, ← zpow_sub₀ (Nat.cast_ne_zero.2 hb)]
  congr 1
  omega

/-- What is compared over the denominator of an interval and in units of a grid are numbers. -/
theorem le_grid_iff (hden : 0 < i.den) (n c : Nat) (e : Int) :
    (n * Nat.pow 10 (-e).toNat ≤ c * (i.den * Nat.pow 10 e.toNat) ↔
        (n / i.den : ℚ) ≤ c * 10 ^ e) ∧
      (c * (i.den * Nat.pow 10 e.toNat) ≤ n * Nat.pow 10 (-e).toNat ↔
        (c * 10 ^ e : ℚ) ≤ n / i.den) := by
  have hden' : (0 : ℚ) < i.den := by exact_mod_cast hden
  have hfactor : (0 : ℚ) < (Nat.pow 10 (-e).toNat : Nat) := by
    exact_mod_cast Nat.pow_pos (n := (-e).toNat) (by decide : 0 < 10)
  have hpow : (10 : ℚ) ^ e = _ := (ratio_pow (b := 10) (by decide) e).symm
  rw [hpow, ← mul_div_assoc, div_le_div_iff₀ hden' hfactor, div_le_div_iff₀ hfactor hden',
    mul_assoc, mul_comm _ (i.den : ℚ)]
  norm_cast

theorem holds_iff (hden : 0 < i.den) (c : Nat) (e : Int) :
    i.holds c (i.den * Nat.pow 10 e.toNat) (Nat.pow 10 (-e).toNat) = true ↔
      i.Contains (c * 10 ^ e) := by
  obtain ⟨hlow, hlow'⟩ := le_grid_iff hden i.low c e
  obtain ⟨hhigh', hhigh⟩ := le_grid_iff hden i.high c e
  unfold holds Contains
  by_cases hclosed : i.closed
  · rw [if_pos hclosed, if_pos hclosed, Bool.and_eq_true, decide_eq_true_iff, decide_eq_true_iff,
      hlow, hhigh]
  · rw [if_neg hclosed, if_neg hclosed, Bool.and_eq_true, decide_eq_true_iff, decide_eq_true_iff,
      ← not_le, ← not_le, hlow', hhigh', not_le, not_le]

/-- What is found on a grid lies in the interval. -/
theorem contains_of_onGrid? (hden : 0 < i.den) {d : Decimal} (h : i.onGrid? e = some d) :
    i.Contains d.toRat := by
  have hholds (c : Nat) := holds_iff hden c e
  unfold onGrid? at h
  dsimp only at h
  split at h
  · next hfirst hsecond =>
    cases h
    rw [toRat]
    dsimp only
    split
    · exact (hholds _).1 hfirst
    · exact (hholds _).1 hsecond
  · next hfirst _ =>
    cases h
    exact (hholds _).1 hfirst
  · next _ hsecond =>
    cases h
    exact (hholds _).1 hsecond
  · cases h

/-- A grid that is finer than what lies above the middle has a point in the interval. -/
theorem isSome_onGrid? (hden : 0 < i.den) (hlow : i.low < i.mid)
    (hfine : (i.mid / i.den : ℚ) + 10 ^ e < i.high / i.den) : (i.onGrid? e).isSome := by
  have hden' : (0 : ℚ) < i.den := by exact_mod_cast hden
  have hunit : 0 < i.den * Nat.pow 10 e.toNat := Nat.mul_pos hden (Nat.pow_pos (by decide))
  -- The last point that is not above the middle is tried, and the next one, which is above it.
  generalize hc : i.mid * Nat.pow 10 (-e).toNat / (i.den * Nat.pow 10 e.toNat) = c
  have hbelow : (c * 10 ^ e : ℚ) ≤ i.mid / i.den := by
    rw [← (le_grid_iff hden i.mid c e).2, ← hc]
    exact Nat.div_mul_le_self _ _
  have habove : (i.mid / i.den : ℚ) < (c + 1 : Nat) * 10 ^ e := by
    rw [← not_le, ← (le_grid_iff hden i.mid (c + 1) e).2, not_le, ← hc]
    exact Nat.lt_mul_of_div_lt (Nat.lt_succ_self _) hunit
  have hlow' : (i.low / i.den : ℚ) < i.mid / i.den :=
    div_lt_div_of_pos_right (by exact_mod_cast hlow) hden'
  have hnext : ((c + 1 : Nat) * 10 ^ e : ℚ) < i.high / i.den := by
    push_cast
    linarith
  have hcontains : i.Contains ((c + 1 : Nat) * 10 ^ e) := by
    unfold Contains
    split
    · exact ⟨(hlow'.trans habove).le, hnext.le⟩
    · exact ⟨hlow'.trans habove, hnext⟩
  rw [← holds_iff hden] at hcontains
  unfold onGrid?
  dsimp only
  rw [hc, hcontains]
  cases i.holds c (i.den * Nat.pow 10 e.toNat) (Nat.pow 10 (-e).toNat) <;> rfl

/-- A search that comes to a grid with a point in the interval finds one there or before. -/
theorem contains_search (hden : 0 < i.den) {n : Nat}
    (h : ∃ k : Nat, k < n ∧ (i.onGrid? (e - k)).isSome) : i.Contains (i.search n e).toRat := by
  induction n generalizing e with
  | zero =>
    obtain ⟨k, hk, -⟩ := h
    exact absurd hk (Nat.not_lt_zero k)
  | succ n ih =>
    obtain ⟨k, hk, hsome⟩ := h
    unfold search
    cases hgrid : i.onGrid? e with
    | some d => exact contains_of_onGrid? hden hgrid
    | none =>
      cases k with
      | zero =>
        rw [Nat.cast_zero, sub_zero, hgrid] at hsome
        cases hsome
      | succ k =>
        refine ih ⟨k, by omega, ?_⟩
        rwa [Nat.cast_succ, add_comm, ← sub_sub] at hsome

end Interval

/-! ## The shortest decimal -/

/-- Between these exponents the search ends on a grid that is finer than half a step. -/
theorem fine_grid {e : Int} (hlow : -66 ≤ e) (hhigh : e ≤ 1) :
    (10 : ℚ) ^ ((53 + e) * 30103 / 100000 + 2 - 24) < 2 ^ e / 2 := by
  -- The exponents are few enough to compare the powers themselves.
  have hall : ∀ k : Nat, k < 68 → 2 * Nat.pow 2 (-((k : Int) - 66)).toNat *
      Nat.pow 10 ((53 + ((k : Int) - 66)) * 30103 / 100000 + 2 - 24).toNat <
        Nat.pow 2 ((k : Int) - 66).toNat *
          Nat.pow 10 (-((53 + ((k : Int) - 66)) * 30103 / 100000 + 2 - 24)).toNat := by
    decide +kernel
  obtain ⟨k, rfl⟩ : ∃ k : Nat, e = (k : Int) - 66 := ⟨(e + 66).toNat, by omega⟩
  have hk := hall k (by omega)
  generalize (53 + ((k : Int) - 66)) * 30103 / 100000 + 2 - 24 = top at hk ⊢
  generalize (k : Int) - 66 = e at hk ⊢
  have hten : (10 : ℚ) ^ top = _ := (Interval.ratio_pow (b := 10) (by decide) top).symm
  have htwo : (2 : ℚ) ^ e = _ := (Interval.ratio_pow (b := 2) (by decide) e).symm
  have hpos {b n : Nat} (hb : 0 < b) : (0 : ℚ) < (Nat.pow b n : Nat) := by
    exact_mod_cast Nat.pow_pos (n := n) hb
  rw [hten, htwo, div_div, div_lt_div_iff₀ (hpos (by decide)) (mul_pos (hpos (by decide)) two_pos)]
  have hk' : ((2 * Nat.pow 2 (-e).toNat * Nat.pow 10 top.toNat : Nat) : ℚ) <
      (Nat.pow 2 e.toNat * Nat.pow 10 (-top).toNat : Nat) := by exact_mod_cast hk
  push_cast at hk' ⊢
  linarith

theorem contains_shortest {m : Nat} {e : Int} (hlow : Binary64.hidden ≤ m)
    (hhigh : m < 2 * Binary64.hidden) (he : -66 ≤ e) (he' : e ≤ 1) :
    (Interval.of m e).Contains (shortest m e).toRat := by
  have hden : 0 < (Interval.of m e).den := Nat.pow_pos (by decide)
  have hsize : Binary64.hidden = 2 ^ 52 := rfl
  have hlog : m.log2 = 52 := by
    exact (Nat.log2_eq_iff (by omega)).2 ⟨by omega, by omega⟩
  have hmid : ((Interval.of m e).mid : ℚ) / (Interval.of m e).den = m * 2 ^ e := by
    refine (Interval.cast_quarters (4 * m) e).trans ?_
    push_cast
    ring
  have hless : (Interval.of m e).low < (Interval.of m e).mid := by
    have hbelow := Interval.below_pos m e
    refine Nat.mul_lt_mul_of_pos_right (?_ : 4 * m - Interval.below m e < 4 * m)
      (Nat.pow_pos (by decide))
    omega
  -- The grid that the search comes to after 24 steps is fine enough, if no other one was.
  refine Interval.contains_search hden ⟨24, by decide, Interval.isSome_onGrid? hden hless ?_⟩
  rw [hmid, Interval.high_of, hlog]
  have hfine := fine_grid he he'
  have htop : Int.ofNat 52 + 1 + e = 53 + e := by
    rw [Int.ofNat_eq_natCast]
    omega
  rw [htop]
  push_cast
  linarith

end Decimal

end GenLang
