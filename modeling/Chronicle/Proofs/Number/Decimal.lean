import Chronicle.Number.Style
import Chronicle.Proofs.Number.Monotone
import Mathlib.Algebra.Order.Field.Basic

/-!
# The decimals that are written and read

The shortest decimal of a magnitude has at most eighteen digits and is not larger than that of the
largest magnitude. Such a decimal is read as a number, although reading rounds more than once.

## Implementation notes

Reading rounds the digits, then a power of ten, then the product, so that a decimal below the bound of
the layout may still be read as too large. Rounding is monotone, so it is enough to look at the largest
number of digits for every power of ten.
-/

namespace Chronicle

namespace Number

theorem pow_toNat_neg_mul_zpow {b : ℚ} (hb : b ≠ 0) (q : Int) : b ^ (-q).toNat * b ^ q = b ^ q.toNat := by
  rw [← zpow_natCast, ← zpow_natCast, ← zpow_add₀ hb]
  congr 1
  omega

/-- Powers are compared by their exponents if a power of the two bases compares them. -/
theorem two_zpow_le_ten_zpow {n d : Nat} (hn : n ≠ 0) {b k : Int} (hk : d * b ≤ n * k)
    (h : 0 ≤ b ∧ 2 ^ n ≤ 10 ^ d ∨ b ≤ 0 ∧ 10 ^ d ≤ 2 ^ n) : (2 : ℚ) ^ b ≤ 10 ^ k := by
  have hbase : ((2 : ℚ) ^ n) ^ b ≤ (10 ^ d) ^ b := by
    rcases h with ⟨hb, hle⟩ | ⟨hb, hle⟩
    · exact zpow_le_zpow_left₀ hb (by positivity) (by exact_mod_cast hle)
    · obtain ⟨c, hc⟩ := Int.eq_ofNat_of_zero_le (show 0 ≤ -b by omega)
      obtain rfl : b = -(c : Int) := by omega
      rw [zpow_neg, zpow_neg, zpow_natCast, zpow_natCast]
      have hle : (10 : ℚ) ^ d ≤ 2 ^ n := by exact_mod_cast hle
      gcongr
  refine (pow_le_pow_iff_left₀ (by positivity) (by positivity) hn).mp ?_
  calc ((2 : ℚ) ^ b) ^ n = (2 ^ n) ^ b := by rw [← zpow_natCast, ← zpow_natCast, zpow_comm]
    _ ≤ (10 ^ d) ^ b := hbase
    _ = 10 ^ (d * b) := by rw [← zpow_natCast, ← zpow_mul]
    _ ≤ 10 ^ (n * k) := zpow_le_zpow_right₀ (by norm_num) hk
    _ = (10 ^ k) ^ n := by rw [← zpow_natCast, ← zpow_mul, mul_comm]

namespace Decimal

/-- The value of a decimal. -/
def value (x : Decimal) : ℚ := x.digits * 10 ^ x.exponent

theorem value_natCast (digits power : Nat) :
    value ⟨digits, power⟩ = (digits * 10 ^ power : Nat) := by
  rw [value, zpow_natCast, Nat.cast_mul, Nat.cast_pow, Nat.cast_ofNat]

theorem mul_pow_le {m n k extra : Nat} (h : value ⟨m, (k + extra : Nat)⟩ ≤ value ⟨n, k⟩) :
    m * 10 ^ extra ≤ n := by
  rw [value_natCast, value_natCast, Nat.cast_le, Nat.pow_add', ← Nat.mul_assoc] at h
  exact Nat.le_of_mul_le_mul_right h (Nat.pow_pos (by decide))

/-- Without its trailing zeros a decimal keeps its value; it has no more digits, and digits other than zero
if it had such ones. -/
theorem strip_spec (bound : Nat) (x : Decimal) :
    (x.strip bound).value = x.value ∧ (x.strip bound).digits ≤ x.digits ∧
      (x.digits ≠ 0 → (x.strip bound).digits ≠ 0) := by
  induction bound generalizing x with
  | zero => exact ⟨rfl, le_rfl, id⟩
  | succ bound ih =>
      unfold strip
      split_ifs with h
      · obtain ⟨hne, hzero⟩ := h
        obtain ⟨hvalue, hle, hpos⟩ := ih ⟨x.digits / 10, x.exponent + 1⟩
        have hdigits : (x.digits : ℚ) = 10 * (x.digits / 10 : Nat) := by
          exact_mod_cast (Nat.mul_div_cancel' (Nat.dvd_of_mod_eq_zero hzero)).symm
        refine ⟨?_, hle.trans (Nat.div_le_self _ _), fun _ => hpos (by dsimp only; omega)⟩
        rw [hvalue, value, value, hdigits, zpow_add₀ (by norm_num)]
        ring
      · exact ⟨rfl, le_rfl, id⟩

end Decimal

namespace RoundingInterval

variable {interval : RoundingInterval} {grid : Int}

theorem factors_snd_pos (interval : RoundingInterval) (grid : Int) : 0 < (interval.factors grid).2 :=
  Nat.mul_pos (Nat.two_pow_pos _) (Nat.pow_pos (by decide))

/-- The two factors are in the ratio of the quarter unit to the power of ten. -/
theorem factors_scale (interval : RoundingInterval) (grid : Int) :
    ((interval.factors grid).1 : ℚ) * 10 ^ grid = 2 ^ interval.exponent * (interval.factors grid).2 := by
  have hten : (10 : ℚ) ≠ 0 := by norm_num
  rw [factors]
  push_cast [Nat.pow_eq]
  rw [mul_assoc, pow_toNat_neg_mul_zpow hten, ← mul_assoc, mul_comm (2 ^ interval.exponent),
    pow_toNat_neg_mul_zpow two_ne_zero]

/-- Multiples of the quarter unit and of a power of ten are compared by their values. -/
theorem mul_factors_le_iff (interval : RoundingInterval) (grid : Int) (a b : Nat) :
    (a * (interval.factors grid).1 ≤ b * (interval.factors grid).2 ↔
        (a : ℚ) * 2 ^ interval.exponent ≤ b * 10 ^ grid) ∧
      (b * (interval.factors grid).2 ≤ a * (interval.factors grid).1 ↔
        (b : ℚ) * 10 ^ grid ≤ a * 2 ^ interval.exponent) := by
  have hscale := factors_scale interval grid
  have hstep : (0 : ℚ) < (interval.factors grid).2 := by exact_mod_cast factors_snd_pos interval grid
  have hgrid : (0 : ℚ) < 10 ^ grid := by positivity
  have ha : (a : ℚ) * (interval.factors grid).1 * 10 ^ grid =
      a * 2 ^ interval.exponent * (interval.factors grid).2 := by
    rw [mul_assoc, hscale, mul_assoc]
  have hb : (b : ℚ) * (interval.factors grid).2 * 10 ^ grid =
      b * 10 ^ grid * (interval.factors grid).2 := by ring
  constructor
  · rw [← Nat.cast_le (α := ℚ), Nat.cast_mul, Nat.cast_mul, ← mul_le_mul_iff_left₀ hgrid, ha, hb,
      mul_le_mul_iff_left₀ hstep]
  · rw [← Nat.cast_le (α := ℚ), Nat.cast_mul, Nat.cast_mul, ← mul_le_mul_iff_left₀ hgrid, ha, hb,
      mul_le_mul_iff_left₀ hstep]

/-- What lies in an interval lies between its ends. -/
theorem holds_bounds {n : Nat} (h : interval.holds grid n = true) :
    (interval.low : ℚ) * 2 ^ interval.exponent ≤ n * 10 ^ grid ∧
      (n : ℚ) * 10 ^ grid ≤ interval.high * 2 ^ interval.exponent := by
  rw [← (mul_factors_le_iff interval grid interval.low n).1,
    ← (mul_factors_le_iff interval grid interval.high n).2]
  unfold holds at h
  split_ifs at h
  · simpa using h
  · simp only [Bool.and_eq_true, decide_eq_true_eq] at h
    exact ⟨h.1.le, h.2.le⟩

/-- A neighbour lies in the interval, and is the floor of the middle or the number after it. -/
theorem neighbour?_eq_some {n : Nat} (h : interval.neighbour? grid = some n) :
    interval.holds grid n = true ∧
      n ≤ interval.middle * (interval.factors grid).1 / (interval.factors grid).2 + 1 := by
  unfold neighbour? at h
  dsimp only at h
  obtain ⟨hlow, hhigh⟩ := roundDiv_bounds (interval.middle * (interval.factors grid).1)
    (interval.factors grid).2
  split at h
  · rename_i hfloor hsucc
    cases h
    refine ⟨?_, hhigh⟩
    rcases hlow.eq_or_lt with heq | hlt
    · rwa [← heq]
    · rwa [le_antisymm hhigh hlt]
  · cases h
    exact ⟨‹_›, Nat.le_succ _⟩
  · cases h
    exact ⟨‹_›, le_rfl⟩
  · cases h

/-- A decimal is found on one of the grids that are tried. -/
theorem refine_eq_some {tries : Nat} {x : Decimal} (h : interval.refine tries grid = some x) :
    grid < x.exponent + tries ∧ interval.neighbour? x.exponent = some x.digits := by
  induction tries generalizing grid with
  | zero => cases h
  | succ tries ih =>
      unfold refine at h
      cases hfound : interval.neighbour? grid with
      | some digits =>
          rw [hfound] at h
          cases h
          exact ⟨by dsimp only; omega, hfound⟩
      | none =>
          rw [hfound] at h
          obtain ⟨hlt, hneighbour⟩ := ih h
          exact ⟨by omega, hneighbour⟩

/-- The power of ten that is found is above the middle, unless all tries were used up. -/
theorem decimalMagnitude_spec (interval : RoundingInterval) (tries : Nat) (guess : Int) :
    (interval.middle : ℚ) * 2 ^ interval.exponent < 10 ^ interval.decimalMagnitude tries guess ∨
      interval.decimalMagnitude tries guess = guess + tries := by
  induction tries generalizing guess with
  | zero => exact .inr (by simp [decimalMagnitude])
  | succ tries ih =>
      unfold decimalMagnitude
      dsimp only
      split_ifs with h
      · left
        have hvalue := (mul_factors_le_iff interval guess interval.middle 1).2.not.mp (by omega)
        simpa using hvalue
      · rcases ih (guess + 1) with hfound | hexhausted
        · exact .inl hfound
        · exact .inr (by rw [hexhausted]; push_cast; ring)

/-- Grids that are refined so many times below a power of ten above the middle have so many digits. -/
theorem digits_le {above : Int} (habove : (interval.middle : ℚ) * 2 ^ interval.exponent < 10 ^ above)
    {k n : Nat} (hgrid : above ≤ grid + k) (h : interval.neighbour? grid = some n) : n ≤ 10 ^ k := by
  have hvalue : (interval.middle : ℚ) * 2 ^ interval.exponent < (10 ^ k : Nat) * 10 ^ grid := by
    calc (interval.middle : ℚ) * 2 ^ interval.exponent < 10 ^ above := habove
      _ ≤ 10 ^ (k + grid) := zpow_le_zpow_right₀ (by norm_num) (by omega)
      _ = (10 ^ k : Nat) * 10 ^ grid := by
          rw [zpow_add₀ (by norm_num), zpow_natCast]
          norm_cast
  have hbelow := (mul_factors_le_iff interval grid interval.middle (10 ^ k)).2.not.mpr (not_le.mpr hvalue)
  have hfloor : interval.middle * (interval.factors grid).1 / (interval.factors grid).2 < 10 ^ k :=
    (Nat.div_lt_iff_lt_mul (factors_snd_pos interval grid)).mpr (not_le.mp hbelow)
  exact (neighbour?_eq_some h).2.trans hfloor

end RoundingInterval

/-! ## The shortest decimal of a magnitude -/

/-- The shortest decimal of the largest magnitude. -/
def Decimal.greatest : Decimal := ⟨17976931348623157, 292⟩

/-- Whether a decimal is one that a number of 64 bits may be written as. -/
structure Decimal.Fits (x : Decimal) : Prop where
  zero : x.digits = 0 → x.exponent = 0
  digits_le : x.digits ≤ 10 ^ sufficientDigits
  value_le : x.value ≤ Decimal.greatest.value

/-- The larger the power of ten, the fewer digits a decimal that fits has. -/
theorem Decimal.Fits.mul_pow_le {x : Decimal} (h : x.Fits) {extra : Nat}
    (hexponent : x.exponent = (292 + extra : Nat)) :
    x.digits * 10 ^ extra ≤ Decimal.greatest.digits ∧ extra < 17 := by
  obtain ⟨digits, exponent⟩ := x
  obtain ⟨hzero, -, hvalue⟩ := h
  dsimp only at hzero hexponent ⊢
  subst hexponent
  have hproduct : digits * 10 ^ extra ≤ Decimal.greatest.digits := Decimal.mul_pow_le (k := 292) hvalue
  refine ⟨hproduct, (Nat.pow_lt_pow_iff_right (a := 10) (by decide)).mp (lt_of_le_of_lt ?_
    (show Decimal.greatest.digits < 10 ^ 17 by decide))⟩
  have hne : digits ≠ 0 := fun hdigits => by
    have := hzero hdigits
    omega
  exact (Nat.le_mul_of_pos_left _ (Nat.pos_of_ne_zero hne)).trans hproduct

theorem Decimal.Fits.exponent_lt {x : Decimal} (h : x.Fits) : x.exponent < 309 := by
  by_contra hlarge
  obtain ⟨extra, hextra⟩ := Int.eq_ofNat_of_zero_le (show 0 ≤ x.exponent - 292 by omega)
  obtain ⟨-, hsmall⟩ := h.mul_pow_le (show x.exponent = (292 + extra : Nat) by omega)
  omega

theorem Decimal.fits_zero : Decimal.Fits ⟨0, 0⟩ where
  zero := fun _ => rfl
  digits_le := Nat.zero_le _
  value_le := by
    simp only [Decimal.value, Decimal.greatest]
    norm_num

namespace Magnitude

theorem value_nonneg (x : Magnitude) : 0 ≤ x.value := by
  unfold value
  positivity

theorem num_ratio_ne_zero {x : Magnitude} (h : 1 ≤ x.value) : x.ratio.1 ≠ 0 := by
  intro hzero
  rw [← x.ratio_eq_value, hzero, Nat.cast_zero, zero_div] at h
  exact absurd h (by norm_num)

variable {x : Magnitude}

/-- The interval of a magnitude below the largest one ends below the shortest decimal of that one. -/
theorem InLayout.high_le (h : x.InLayout .double) (hne : x ≠ ⟨2 ^ 53 - 1, 971⟩) :
    ((RoundingInterval.ofMagnitude .double x).high : ℚ) *
      2 ^ (RoundingInterval.ofMagnitude .double x).exponent ≤ Decimal.greatest.value := by
  obtain ⟨m, q⟩ := x
  have hbound : m < 2 ^ 53 := h.bound
  have hgreatest : q ≤ 971 := h.greatest
  have hvalue (a : Nat) (e : Int) := (RoundingInterval.mul_factors_le_iff ⟨0, 0, 0, e, true⟩
    Decimal.greatest.exponent a Decimal.greatest.digits).1
  change ((4 * m + 2 : Nat) : ℚ) * 2 ^ (q - 2) ≤ _
  rcases hgreatest.eq_or_lt with rfl | hlt
  · have hlast : m ≠ 2 ^ 53 - 1 := fun heq => hne (by rw [heq])
    calc ((4 * m + 2 : Nat) : ℚ) * 2 ^ (971 - 2 : Int)
        ≤ (4 * 2 ^ 53 - 6 : Nat) * 2 ^ (971 - 2 : Int) := by
          gcongr
          omega
      _ ≤ Decimal.greatest.value := (hvalue _ _).mp (by decide +kernel)
  · calc ((4 * m + 2 : Nat) : ℚ) * 2 ^ (q - 2) ≤ (2 ^ 55 : Nat) * 2 ^ (968 : Int) := by
          gcongr
          · omega
          · exact one_le_two
          · omega
      _ ≤ Decimal.greatest.value := (hvalue _ _).mp (by decide +kernel)

/-- The power of ten that is found for a magnitude is above it. -/
theorem InLayout.middle_lt (h : x.InLayout .double) (hne : x.mantissa ≠ 0) :
    let interval := RoundingInterval.ofMagnitude .double x
    let binary : Int := (Nat.log2 interval.middle : Int) + interval.exponent
    (interval.middle : ℚ) * 2 ^ interval.exponent <
      10 ^ interval.decimalMagnitude 4 ((binary * 30103).fdiv 100000 - 1) := by
  intro interval binary
  rcases interval.decimalMagnitude_spec 4 ((binary * 30103).fdiv 100000 - 1) with hfound | hexhausted
  · exact hfound
  have hmiddle : interval.middle = 4 * x.mantissa := rfl
  have hexponent : interval.exponent = x.exponent - 2 := rfl
  have hlow := Nat.log2_self_le (show interval.middle ≠ 0 by omega)
  have hhigh := Nat.lt_log2_self (n := interval.middle)
  have hbits : Nat.log2 interval.middle < 55 := by
    have hbound : x.mantissa < 2 ^ 53 := h.bound
    exact (Nat.pow_lt_pow_iff_right (a := 2) one_lt_two).mp (hlow.trans_lt (by omega))
  have hleast : -1074 ≤ x.exponent := h.least
  have hgreatest : x.exponent ≤ 971 := h.greatest
  calc (interval.middle : ℚ) * 2 ^ interval.exponent
      < 2 ^ (Nat.log2 interval.middle + 1) * 2 ^ interval.exponent := by
        gcongr
        exact_mod_cast hhigh
    _ = 2 ^ (binary + 1) := by
        rw [← zpow_natCast, ← zpow_add₀ two_ne_zero]
        congr 1
        push_cast
        ring
    _ ≤ 10 ^ ((binary * 30103).fdiv 100000 + 3) := by
        rw [Int.fdiv_eq_ediv_of_nonneg _ (by decide)]
        rcases le_total 0 (binary + 1) with hsign | hsign
        · exact two_zpow_le_ten_zpow (show 93 ≠ 0 by decide) (d := 28) (by omega)
            (.inl ⟨hsign, by decide +kernel⟩)
        · exact two_zpow_le_ten_zpow (show 10 ≠ 0 by decide) (d := 3) (by omega)
            (.inr ⟨hsign, by decide⟩)
    _ = 10 ^ interval.decimalMagnitude 4 ((binary * 30103).fdiv 100000 - 1) := by
        rw [hexhausted]
        congr 1
        push_cast
        ring

theorem shortest_greatest : shortest .double ⟨2 ^ 53 - 1, 971⟩ = Decimal.greatest := by decide +kernel

/-- A magnitude is written with digits that fit. -/
theorem InLayout.shortest_fits (h : x.InLayout .double) : (x.shortest .double).Fits := by
  by_cases hgreatest : x = ⟨2 ^ 53 - 1, 971⟩
  · rw [hgreatest, shortest_greatest]
    exact ⟨fun hzero => absurd hzero (by decide), by decide, le_rfl⟩
  unfold shortest
  split_ifs with hmantissa
  · exact Decimal.fits_zero
  dsimp only
  have hmiddle := h.middle_lt hmantissa
  have hend := h.high_le hgreatest
  have hlowPos : 0 < (RoundingInterval.ofMagnitude .double x).low := by
    unfold RoundingInterval.ofMagnitude
    dsimp only
    split_ifs <;> omega
  dsimp only at hmiddle
  generalize hinterval : RoundingInterval.ofMagnitude .double x = interval at *
  generalize interval.decimalMagnitude 4 _ = above at *
  split
  · rename_i found hfound
    obtain ⟨hgrid, hneighbour⟩ := RoundingInterval.refine_eq_some hfound
    obtain ⟨hholds, -⟩ := RoundingInterval.neighbour?_eq_some hneighbour
    obtain ⟨hlow, hhigh⟩ := RoundingInterval.holds_bounds hholds
    obtain ⟨hvalue, hdigits, hpos⟩ := found.strip_spec sufficientDigits
    have hne : found.digits ≠ 0 := by
      intro hzero
      rw [hzero, Nat.cast_zero, zero_mul] at hlow
      exact absurd hlow (not_le.mpr (by positivity))
    refine ⟨fun hzero => absurd hzero (hpos hne), ?_, ?_⟩
    · exact hdigits.trans (RoundingInterval.digits_le hmiddle (by omega) hneighbour)
    · rw [hvalue]
      exact hhigh.trans hend
  · exact Decimal.fits_zero

end Magnitude

/-! ## Reading decimals -/

namespace Double

/-- Powers of ten in range round to magnitudes in their order. -/
theorem powerOfTen?_mono {power power' : Nat} (hle : power ≤ power') (h : power' ≤ greatestPower) :
    ∃ factor factor', powerOfTen? power = some factor ∧ powerOfTen? power' = some factor' ∧
      factor.value ≤ factor'.value := by
  have hratio {p p' : Nat} (hle : p ≤ p') :
      ((Nat.pow 10 p : Nat) : ℚ) / (1 : Nat) ≤ (Nat.pow 10 p' : Nat) / (1 : Nat) := by
    simp only [Nat.pow_eq]
    gcongr
    norm_num
  obtain ⟨last, hlast⟩ : ∃ last, powerOfTen? greatestPower = some last :=
    Option.isSome_iff_exists.mp (by decide +kernel)
  obtain ⟨factor', hfactor', -⟩ := Magnitude.ofRatio?_mono one_ne_zero one_ne_zero (hratio h) hlast
  obtain ⟨factor, hfactor, hvalue⟩ :=
    Magnitude.ofRatio?_mono one_ne_zero one_ne_zero (hratio hle) hfactor'
  exact ⟨factor, factor', hfactor, hfactor', hvalue⟩

/-- A power of ten in range rounds to a magnitude that is at least one. -/
theorem powerOfTen?_eq_some {power : Nat} (h : power ≤ greatestPower) :
    ∃ factor, powerOfTen? power = some factor ∧ 1 ≤ factor.value := by
  obtain ⟨one, factor, hone, hfactor, hle⟩ := powerOfTen?_mono power.zero_le h
  have hunit : powerOfTen? 0 = some ⟨2 ^ 52, -52⟩ := by decide +kernel
  cases hone.symm.trans hunit
  refine ⟨factor, hfactor, le_trans (le_of_eq ?_) hle⟩
  norm_num [Magnitude.value]

/-- Dividing a magnitude by a power of ten gives a magnitude. -/
theorem scaleDown?_eq_some {x : Magnitude} (hx : x.InLayout .double) {power : Nat}
    (h : power ≤ greatestPower) : ∃ y, scaleDown? x power = some y ∧ y.InLayout .double := by
  obtain ⟨factor, hfactor, hone⟩ := powerOfTen?_eq_some h
  have hden : x.ratio.2 * factor.ratio.1 ≠ 0 := Nat.mul_ne_zero x.den_ratio_ne_zero
    (Magnitude.num_ratio_ne_zero hone)
  have hle : ((x.ratio.1 * factor.ratio.2 : Nat) : ℚ) / (x.ratio.2 * factor.ratio.1 : Nat) ≤
      x.ratio.1 / x.ratio.2 := by
    have hsplit : ((x.ratio.1 * factor.ratio.2 : Nat) : ℚ) / (x.ratio.2 * factor.ratio.1 : Nat) =
        x.value / factor.value := by
      rw [← x.ratio_eq_value, ← factor.ratio_eq_value, div_div_div_eq]
      push_cast
      rfl
    rw [hsplit, x.ratio_eq_value]
    exact div_le_self x.value_nonneg hone
  have hsame := hx.ofRatio?_eq x.den_ratio_ne_zero x.ratio_eq_value
  obtain ⟨y, hy, -⟩ := Magnitude.ofRatio?_mono hden x.den_ratio_ne_zero hle hsame
  refine ⟨y, ?_, Magnitude.inLayout_of_ofRatio? (by decide) hden hy⟩
  rw [scaleDown?, hfactor]
  exact hy

theorem scaleDownSteps?_eq_some {steps : Nat} {x : Magnitude} (hx : x.InLayout .double) {exponent : Nat}
    (h : exponent < greatestPower * (steps + 1)) : ∃ y, scaleDownSteps? steps x exponent = some y := by
  induction steps generalizing x exponent with
  | zero =>
      obtain ⟨y, hy, -⟩ := scaleDown?_eq_some hx (show exponent ≤ greatestPower by omega)
      exact ⟨y, hy⟩
  | succ steps ih =>
      unfold scaleDownSteps?
      split_ifs with hlast hzero
      · obtain ⟨y, hy, -⟩ := scaleDown?_eq_some hx hlast
        exact ⟨y, hy⟩
      · exact ⟨x, rfl⟩
      · obtain ⟨smaller, hsmaller, hfits⟩ := scaleDown?_eq_some hx (le_refl greatestPower)
        rw [hsmaller]
        exact ih hfits (by rw [Nat.mul_succ] at h; omega)

/-- A significand of 64 bits rounds to a magnitude. -/
theorem ofRatio?_word {significand : Nat} (h : significand < 2 ^ 64) :
    ∃ start, Magnitude.ofRatio? .double significand 1 = some start ∧ start.InLayout .double := by
  have hlast : (Magnitude.ofRatio? .double (2 ^ 64) 1).isSome := by decide +kernel
  obtain ⟨last, hlast⟩ := Option.isSome_iff_exists.mp hlast
  have hle : (significand : ℚ) / (1 : Nat) ≤ (2 ^ 64 : Nat) / (1 : Nat) := by
    gcongr
  obtain ⟨start, hstart, -⟩ := Magnitude.ofRatio?_mono one_ne_zero one_ne_zero hle hlast
  exact ⟨start, hstart, Magnitude.inLayout_of_ofRatio? (by decide) one_ne_zero hstart⟩

/-- A decimal below one unit is never too large. -/
theorem isSome_ofDecimal?_of_neg (negative : Bool) {significand : Nat} (h : significand < 2 ^ 64)
    {exponent : Int} (hexponent : exponent < 0) :
    (ofDecimal? negative significand exponent).isSome = true := by
  obtain ⟨start, hstart, hfits⟩ := ofRatio?_word h
  have hsteps : (-exponent).toNat < greatestPower * ((-exponent).toNat / greatestPower + 1) := by
    rw [Nat.mul_succ]
    exact Nat.lt_mul_div_succ _ (by decide)
  obtain ⟨scaled, hscaled⟩ := scaleDownSteps?_eq_some hfits hsteps
  rw [ofDecimal?, hstart]
  simp only [Option.bind_eq_bind, Option.bind_some, if_neg (not_le.mpr hexponent), hscaled,
    Option.isSome_some]

theorem ofDecimal?_natCast (negative : Bool) (significand : Nat) {power : Nat}
    (h : power ≤ greatestPower) :
    ofDecimal? negative significand power =
      (Magnitude.ofRatio? .double significand 1).bind fun start =>
        (scaleUp? start power).map (ofMagnitude negative) := by
  unfold ofDecimal?
  simp only [Int.natCast_nonneg, if_true, Int.toNat_natCast, if_pos h, Option.map_eq_bind]
  rfl

/-- If a significand is not too large for a power of ten, a smaller one is not too large for a smaller
power. -/
theorem isSome_ofDecimal?_mono {n n' power power' : Nat} (hle : n ≤ n') (hpower : power ≤ power')
    (h : power' ≤ greatestPower) {negative' : Bool}
    (hlarge : (ofDecimal? negative' n' power').isSome = true) (negative : Bool) :
    (ofDecimal? negative n power).isSome = true := by
  rw [ofDecimal?_natCast negative n (hpower.trans h)]
  rw [ofDecimal?_natCast negative' n' h] at hlarge
  obtain ⟨result, hresult⟩ := Option.isSome_iff_exists.mp hlarge
  obtain ⟨start', hstart', hscaled'⟩ := Option.bind_eq_some_iff.mp hresult
  obtain ⟨scaled', hscaled', -⟩ := Option.map_eq_some_iff.mp hscaled'
  have hratio : (n : ℚ) / (1 : Nat) ≤ n' / (1 : Nat) := by
    gcongr
  obtain ⟨start, hstart, hvalue⟩ := Magnitude.ofRatio?_mono one_ne_zero one_ne_zero hratio hstart'
  obtain ⟨factor, factor', hfactor, hfactor', hfactors⟩ := powerOfTen?_mono hpower h
  have hsplit (x y : Magnitude) :
      ((x.ratio.1 * y.ratio.1 : Nat) : ℚ) / (x.ratio.2 * y.ratio.2 : Nat) = x.value * y.value := by
    rw [← x.ratio_eq_value, ← y.ratio_eq_value, div_mul_div_comm]
    push_cast
    rfl
  have hden (x y : Magnitude) : x.ratio.2 * y.ratio.2 ≠ 0 :=
    Nat.mul_ne_zero x.den_ratio_ne_zero y.den_ratio_ne_zero
  have hproduct : ((start.ratio.1 * factor.ratio.1 : Nat) : ℚ) / (start.ratio.2 * factor.ratio.2 : Nat) ≤
      (start'.ratio.1 * factor'.ratio.1 : Nat) / (start'.ratio.2 * factor'.ratio.2 : Nat) := by
    rw [hsplit, hsplit]
    exact mul_le_mul hvalue hfactors factor.value_nonneg start'.value_nonneg
  rw [scaleUp?, hfactor'] at hscaled'
  obtain ⟨scaled, hscaled, -⟩ :=
    Magnitude.ofRatio?_mono (hden start factor) (hden start' factor') hproduct hscaled'
  have hup : scaleUp? start power = some scaled := by
    rw [scaleUp?, hfactor]
    exact hscaled
  rw [hstart, Option.bind_some, hup]
  rfl

/-- As many digits as there may be are not too large for the power of ten above which the bound of the
layout leaves fewer of them. -/
theorem isSome_ofDecimal?_sufficientDigits :
    (ofDecimal? false (10 ^ sufficientDigits) (291 : Nat)).isSome = true := by decide +kernel

theorem isSome_ofDecimal?_greatest : ∀ extra < 17,
    (ofDecimal? false (Decimal.greatest.digits / 10 ^ extra) ((292 + extra : Nat) : Int)).isSome = true := by
  decide +kernel

/-- The decimals that numbers are written as are read, although reading rounds them more than once. -/
theorem isSome_ofDecimal?_of_fits {x : Decimal} (h : x.Fits) (negative : Bool) :
    (ofDecimal? negative x.digits x.exponent).isSome = true := by
  rcases lt_or_ge x.exponent 0 with hneg | hnonneg
  · exact isSome_ofDecimal?_of_neg negative (h.digits_le.trans_lt (by decide)) hneg
  obtain ⟨power, hpower⟩ := Int.eq_ofNat_of_zero_le hnonneg
  rw [hpower]
  by_cases hsmall : power ≤ 291
  · exact isSome_ofDecimal?_mono h.digits_le hsmall (by decide) isSome_ofDecimal?_sufficientDigits negative
  obtain ⟨extra, rfl⟩ := Nat.exists_eq_add_of_le (show 292 ≤ power by omega)
  obtain ⟨hproduct, hextra⟩ := h.mul_pow_le hpower
  exact isSome_ofDecimal?_mono ((Nat.le_div_iff_mul_le (by positivity)).mpr hproduct) le_rfl
    (show 292 + extra ≤ 308 by omega) (isSome_ofDecimal?_greatest extra hextra) negative

end Double

end Number

end Chronicle
