import Chronicle.Number.Layout
import Mathlib.Algebra.Order.Field.Power
import Mathlib.Tactic.Ring
import Mathlib.Tactic.NormNum

/-!
# Rounding to a layout

Rounding a ratio gives a magnitude of the layout, and gives back a magnitude that is one of the layout
already. So a number that was narrowed to 32 bits is narrowed to itself.

## Implementation notes

A magnitude of a layout either has the least exponent or a full mantissa, which makes it the only one of
its value. Values are compared as rational numbers.
-/

namespace Chronicle

namespace Number

theorem roundDiv_bounds (num den : Nat) :
    num / den ≤ roundDiv num den ∧ roundDiv num den ≤ num / den + 1 := by
  unfold roundDiv
  dsimp only
  split_ifs <;> omega

theorem roundDiv_mul {den : Nat} (h : den ≠ 0) (n : Nat) : roundDiv (n * den) den = n := by
  have hpos : 0 < den := Nat.pos_of_ne_zero h
  unfold roundDiv
  rw [Nat.mul_mod_left, Nat.mul_div_cancel n hpos, if_pos (by omega)]

namespace Magnitude

variable {layout : Layout} {num den : Nat}

/-- The value of a magnitude. -/
def value (x : Magnitude) : ℚ := x.mantissa * 2 ^ x.exponent

/-- Whether a magnitude is one of a layout: its mantissa and its exponent are in range, and unless the
exponent is the least one the mantissa has all its bits. -/
structure InLayout (layout : Layout) (x : Magnitude) : Prop where
  bound : x.mantissa < 2 ^ (layout.fractionBits + 1)
  least : layout.leastExponent ≤ x.exponent
  greatest : x.exponent ≤ layout.greatestExponent
  full : x.exponent = layout.leastExponent ∨ 2 ^ layout.fractionBits ≤ x.mantissa

/-! ## Ratios -/

theorem den_ratio_ne_zero (x : Magnitude) : x.ratio.2 ≠ 0 := by
  unfold ratio
  split_ifs
  · exact one_ne_zero
  · exact (Nat.two_pow_pos _).ne'

/-- The ratio of a magnitude is its value. -/
theorem ratio_eq_value (x : Magnitude) : (x.ratio.1 : ℚ) / x.ratio.2 = x.value := by
  unfold ratio value
  split_ifs with h
  · obtain ⟨k, hk⟩ := Int.eq_ofNat_of_zero_le h
    rw [hk]
    simp
  · obtain ⟨k, hk⟩ := Int.eq_ofNat_of_zero_le (show 0 ≤ -x.exponent by omega)
    have hexponent : x.exponent = -(k : Int) := by omega
    rw [hk, hexponent, zpow_neg, zpow_natCast]
    simp [div_eq_mul_inv]

/-- A ratio divided by a power of two, as rounding does it. -/
def scale (num den : Nat) (q : Int) : Nat × Nat :=
  if 0 ≤ q then (num, den * Nat.pow 2 q.toNat) else (num * Nat.pow 2 (-q).toNat, den)

theorem den_scale_ne_zero (h : den ≠ 0) (num : Nat) (q : Int) : (scale num den q).2 ≠ 0 := by
  unfold scale
  split_ifs
  · exact Nat.mul_ne_zero h (Nat.two_pow_pos _).ne'
  · exact h

theorem scale_eq (num den : Nat) (q : Int) :
    ((scale num den q).1 : ℚ) / (scale num den q).2 = num / den * 2 ^ (-q) := by
  unfold scale
  split_ifs with h
  · obtain ⟨k, hk⟩ := Int.eq_ofNat_of_zero_le h
    rw [hk, zpow_neg]
    simp [div_eq_mul_inv, mul_assoc, mul_comm]
  · obtain ⟨k, hk⟩ := Int.eq_ofNat_of_zero_le (show 0 ≤ -q by omega)
    rw [hk, zpow_natCast, div_mul_eq_mul_div]
    simp

/-- The exponent that rounding chooses. -/
def place (layout : Layout) (num den : Nat) : Int :=
  let guess : Int := (Nat.log2 num : Int) - Nat.log2 den - layout.fractionBits - 1
  let low := max guess layout.leastExponent
  if (scale num den low).1 / (scale num den low).2 < Nat.pow 2 (layout.fractionBits + 1) then low
  else low + 1

theorem ofRatio?_eq (h : num ≠ 0) :
    ofRatio? layout num den =
      let q := place layout num den
      let rounded := roundDiv (scale num den q).1 (scale num den q).2
      let result : Magnitude :=
        if rounded = Nat.pow 2 (layout.fractionBits + 1) then ⟨Nat.pow 2 layout.fractionBits, q + 1⟩
        else ⟨rounded, q⟩
      if layout.greatestExponent < result.exponent then none else some result :=
  if_neg h

/-- The logarithms of numerator and denominator tell a ratio up to a factor of two on either side. -/
theorem ratio_bounds (hnum : num ≠ 0) (hden : den ≠ 0) :
    (2 : ℚ) ^ ((Nat.log2 num : Int) - Nat.log2 den - 1) < num / den ∧
      (num : ℚ) / den < 2 ^ ((Nat.log2 num : Int) - Nat.log2 den + 1) := by
  have hnumLow : (2 : ℚ) ^ (Nat.log2 num : Int) ≤ num := by
    exact_mod_cast Nat.log2_self_le hnum
  have hnumHigh : (num : ℚ) < 2 ^ ((Nat.log2 num : Int) + 1) := by
    exact_mod_cast Nat.lt_log2_self (n := num)
  have hdenLow : (2 : ℚ) ^ (Nat.log2 den : Int) ≤ den := by
    exact_mod_cast Nat.log2_self_le hden
  have hdenHigh : (den : ℚ) < 2 ^ ((Nat.log2 den : Int) + 1) := by
    exact_mod_cast Nat.lt_log2_self (n := den)
  have hpos : (0 : ℚ) < den := by exact_mod_cast Nat.pos_of_ne_zero hden
  constructor
  · rw [lt_div_iff₀ hpos]
    calc (2 : ℚ) ^ ((Nat.log2 num : Int) - Nat.log2 den - 1) * den
        < 2 ^ ((Nat.log2 num : Int) - Nat.log2 den - 1) * 2 ^ ((Nat.log2 den : Int) + 1) := by
          gcongr
      _ = 2 ^ (Nat.log2 num : Int) := by
          rw [← zpow_add₀ two_ne_zero]
          ring_nf
      _ ≤ num := hnumLow
  · rw [div_lt_iff₀ hpos]
    calc (num : ℚ) < 2 ^ ((Nat.log2 num : Int) + 1) := hnumHigh
      _ = 2 ^ ((Nat.log2 num : Int) - Nat.log2 den + 1) * 2 ^ (Nat.log2 den : Int) := by
          rw [← zpow_add₀ two_ne_zero]
          ring_nf
      _ ≤ 2 ^ ((Nat.log2 num : Int) - Nat.log2 den + 1) * den := by gcongr

/-- Whether an exponent is the one at which a layout holds a value. -/
structure Places (layout : Layout) (x : ℚ) (q : Int) : Prop where
  least : layout.leastExponent ≤ q
  bound : x * 2 ^ (-q) < 2 ^ (layout.fractionBits + 1)
  full : q = layout.leastExponent ∨ 2 ^ layout.fractionBits ≤ x * 2 ^ (-q)

/-- A layout holds a smaller value at no larger exponent. -/
theorem Places.le_of_le {x y : ℚ} {p q : Int} (hp : Places layout x p) (hq : Places layout y q)
    (h : x ≤ y) : p ≤ q := by
  by_contra hlt
  have hfull := hp.full.resolve_left (by have := hq.least; omega)
  have hbound : y * 2 ^ (-q) < 2 ^ (layout.fractionBits + 1) := hq.bound
  have hshift : x * 2 ^ (-q) = x * 2 ^ (-p) * 2 ^ (p - q) := by
    rw [mul_assoc, ← zpow_add₀ two_ne_zero]
    ring_nf
  have htwo : (2 : ℚ) ≤ 2 ^ (p - q) := by
    simpa using zpow_le_zpow_right₀ (one_le_two (α := ℚ)) (show (1 : Int) ≤ p - q by omega)
  have hlarge : (2 : ℚ) ^ (layout.fractionBits + 1) ≤ x * 2 ^ (-q) := by
    rw [hshift, pow_succ]
    exact mul_le_mul hfull htwo zero_le_two (le_trans (by positivity) hfull)
  have hle : x * 2 ^ (-q) ≤ y * 2 ^ (-q) := by gcongr
  exact absurd hbound (not_lt.mpr (hlarge.trans hle))

/-- There is at most one exponent at which a layout holds a value. -/
theorem Places.unique {x : ℚ} {p q : Int} (hp : Places layout x p) (hq : Places layout x q) : p = q :=
  le_antisymm (hp.le_of_le hq le_rfl) (hq.le_of_le hp le_rfl)

theorem div_scale_lt_iff (hden : den ≠ 0) (q : Int) (n : Nat) :
    (scale num den q).1 / (scale num den q).2 < n ↔ (num : ℚ) / den * 2 ^ (-q) < n := by
  have hpos : 0 < (scale num den q).2 := Nat.pos_of_ne_zero (den_scale_ne_zero hden num q)
  rw [← scale_eq, Nat.div_lt_iff_lt_mul hpos, div_lt_iff₀ (by exact_mod_cast hpos)]
  exact_mod_cast Iff.rfl

/-- Rounding chooses the exponent at which the layout holds the ratio. -/
theorem place_places (hnum : num ≠ 0) (hden : den ≠ 0) :
    Places layout (num / den) (place layout num den) := by
  obtain ⟨hlow, hhigh⟩ := ratio_bounds hnum hden
  simp only [place, div_scale_lt_iff hden]
  generalize hguess : (Nat.log2 num : Int) - Nat.log2 den - layout.fractionBits - 1 = guess
  generalize hlevel : max guess layout.leastExponent = low
  have hleast : layout.leastExponent ≤ low := hlevel ▸ le_max_right _ _
  have hguessLow : guess ≤ low := hlevel ▸ le_max_left _ _
  have hbelow : (num : ℚ) / den * 2 ^ (-low) < 2 ^ (layout.fractionBits + 2) := by
    calc (num : ℚ) / den * 2 ^ (-low)
        < 2 ^ ((Nat.log2 num : Int) - Nat.log2 den + 1) * 2 ^ (-low) := by gcongr
      _ = 2 ^ ((Nat.log2 num : Int) - Nat.log2 den + 1 - low) := by
          rw [← zpow_add₀ two_ne_zero]
          rfl
      _ ≤ 2 ^ ((layout.fractionBits + 2 : Nat) : Int) := by
          apply zpow_le_zpow_right₀ one_le_two
          push_cast
          omega
      _ = 2 ^ (layout.fractionBits + 2) := zpow_natCast _ _
  have hcarry : (Nat.pow 2 (layout.fractionBits + 1) : ℚ) = 2 ^ (layout.fractionBits + 1) := by
    norm_cast
  split_ifs with hfits
  · refine ⟨hleast, by rwa [hcarry] at hfits, ?_⟩
    rcases max_choice guess layout.leastExponent with hmax | hmax
    · right
      calc (2 : ℚ) ^ layout.fractionBits = 2 ^ (layout.fractionBits : Int) := (zpow_natCast _ _).symm
        _ = 2 ^ ((Nat.log2 num : Int) - Nat.log2 den - 1) * 2 ^ (-low) := by
            rw [← zpow_add₀ two_ne_zero, ← hlevel, hmax, ← hguess]
            ring_nf
        _ ≤ num / den * 2 ^ (-low) := by gcongr
    · exact Or.inl (hlevel ▸ hmax)
  · have hhalf : (num : ℚ) / den * 2 ^ (-(low + 1)) = num / den * 2 ^ (-low) / 2 := by
      rw [neg_add, zpow_add₀ two_ne_zero]
      ring
    refine ⟨by omega, ?_, Or.inr ?_⟩
    · rw [hhalf, div_lt_iff₀ two_pos, ← pow_succ]
      exact hbelow
    · rw [hhalf, le_div_iff₀ two_pos, ← pow_succ]
      rw [hcarry, not_lt] at hfits
      exact hfits

/-! ## Magnitudes of a layout -/

theorem value_mul_zpow (x : Magnitude) : x.value * 2 ^ (-x.exponent) = x.mantissa := by
  rw [value, mul_assoc, ← zpow_add₀ two_ne_zero, add_neg_cancel, zpow_zero, mul_one]

/-- A magnitude of a layout stands at the exponent at which the layout holds its value. -/
theorem InLayout.places {x : Magnitude} (h : x.InLayout layout) :
    Places layout x.value x.exponent where
  least := h.least
  bound := by
    rw [value_mul_zpow]
    exact_mod_cast h.bound
  full := by
    rw [value_mul_zpow]
    exact h.full.imp_right fun hfull => by exact_mod_cast hfull

/-- Rounding gives a magnitude of the layout. -/
theorem inLayout_of_ofRatio? (hlayout : layout.leastExponent ≤ layout.greatestExponent)
    (hden : den ≠ 0) {x : Magnitude} (h : ofRatio? layout num den = some x) : x.InLayout layout := by
  by_cases hnum : num = 0
  · rw [ofRatio?, if_pos hnum] at h
    cases h
    exact ⟨Nat.two_pow_pos _, le_refl _, hlayout, Or.inl rfl⟩
  · have hplace : Places layout ((num : ℚ) / den) (place layout num den) := place_places hnum hden
    rw [ofRatio?_eq hnum] at h
    dsimp only at h
    generalize place layout num den = q at h hplace
    have hquotient : (scale num den q).1 / (scale num den q).2 < 2 ^ (layout.fractionBits + 1) := by
      rw [div_scale_lt_iff hden]
      exact_mod_cast hplace.bound
    have hfull : q = layout.leastExponent ∨
        2 ^ layout.fractionBits ≤ (scale num den q).1 / (scale num den q).2 := by
      refine hplace.full.imp_right fun hfull => ?_
      rw [← not_lt, div_scale_lt_iff hden, not_lt]
      exact_mod_cast hfull
    obtain ⟨hlow, hhigh⟩ := roundDiv_bounds (scale num den q).1 (scale num den q).2
    generalize roundDiv (scale num den q).1 (scale num den q).2 = rounded at h hlow hhigh
    generalize (scale num den q).1 / (scale num den q).2 = quotient at hquotient hfull hlow hhigh
    split_ifs at h with hcarry hbeyond hbeyond
    · cases h
      exact ⟨Nat.pow_lt_pow_right one_lt_two (Nat.lt_succ_self _), hplace.least.trans (by simp),
        not_lt.mp hbeyond, Or.inr (le_refl _)⟩
    · cases h
      have hne : rounded ≠ 2 ^ (layout.fractionBits + 1) := hcarry
      exact ⟨by dsimp only; omega, hplace.least, not_lt.mp hbeyond,
        hfull.imp_right fun hfull => hfull.trans hlow⟩

/-- Rounding gives back a magnitude that is one of the layout. -/
theorem InLayout.ofRatio?_eq {x : Magnitude} (h : x.InLayout layout) (hden : den ≠ 0)
    (hvalue : (num : ℚ) / den = x.value) : ofRatio? layout num den = some x := by
  by_cases hnum : num = 0
  · have hmantissa : x.mantissa = 0 := by
      have hzero : x.value = 0 := by rw [← hvalue, hnum, Nat.cast_zero, zero_div]
      have hcast := x.value_mul_zpow
      rw [hzero, zero_mul] at hcast
      exact_mod_cast hcast.symm
    have hexponent : x.exponent = layout.leastExponent := by
      refine h.full.resolve_right fun hfull => ?_
      have := Nat.two_pow_pos layout.fractionBits
      omega
    rw [ofRatio?, if_pos hnum, zero, ← hmantissa, ← hexponent]
  · have hplace : place layout num den = x.exponent :=
      (hvalue ▸ place_places hnum hden).unique h.places
    have hscale := scale_eq num den x.exponent
    have hscaleDen := den_scale_ne_zero hden num x.exponent
    rw [hvalue, value_mul_zpow, div_eq_iff (by exact_mod_cast hscaleDen)] at hscale
    have hexact : (scale num den x.exponent).1 = x.mantissa * (scale num den x.exponent).2 := by
      exact_mod_cast hscale
    have hne : x.mantissa ≠ Nat.pow 2 (layout.fractionBits + 1) := h.bound.ne
    rw [Magnitude.ofRatio?_eq hnum, hplace]
    simp only [hexact, roundDiv_mul hscaleDen, if_neg hne, if_neg (not_lt.mpr h.greatest)]

end Magnitude

/-! ## Doubles -/

theorem leastExponent_double : Layout.double.leastExponent = -1074 := by decide

theorem leastExponent_single : Layout.single.leastExponent = -149 := by decide

theorem greatestExponent_double : Layout.double.greatestExponent = 971 := by decide

theorem greatestExponent_single : Layout.single.greatestExponent = 104 := by decide

/-- A magnitude of the 32-bit layout has the value of one of the 64-bit layout. -/
theorem Magnitude.InLayout.exists_double {x : Magnitude} (h : x.InLayout .single) :
    ∃ y : Magnitude, y.InLayout .double ∧ y.value = x.value := by
  by_cases hzero : x.mantissa = 0
  · refine ⟨zero .double, ⟨Nat.two_pow_pos _, le_refl _, by decide, Or.inl rfl⟩, ?_⟩
    simp [value, zero, hzero]
  · have hlow := Nat.log2_self_le hzero
    have hhigh := Nat.lt_log2_self (n := x.mantissa)
    have hlog : Nat.log2 x.mantissa < 24 :=
      (Nat.pow_lt_pow_iff_right (a := 2) one_lt_two).mp (hlow.trans_lt h.bound)
    obtain ⟨k, hk⟩ : ∃ k, Nat.log2 x.mantissa + k = 52 := ⟨52 - Nat.log2 x.mantissa, by omega⟩
    have hleast := h.least
    have hgreatest := h.greatest
    rw [leastExponent_single] at hleast
    rw [greatestExponent_single] at hgreatest
    refine ⟨⟨x.mantissa * 2 ^ k, x.exponent - k⟩, ⟨?_, ?_, ?_, Or.inr ?_⟩, ?_⟩
    · calc x.mantissa * 2 ^ k < 2 ^ (Nat.log2 x.mantissa + 1) * 2 ^ k := by gcongr
        _ = 2 ^ 53 := by rw [← pow_add]; congr 1; omega
    · rw [leastExponent_double]
      dsimp only
      omega
    · rw [greatestExponent_double]
      dsimp only
      omega
    · calc 2 ^ 52 = 2 ^ Nat.log2 x.mantissa * 2 ^ k := by rw [← pow_add, hk]
        _ ≤ x.mantissa * 2 ^ k := by gcongr
    · simp only [value, Nat.cast_mul, Nat.cast_pow, Nat.cast_ofNat]
      rw [mul_assoc, ← zpow_natCast, ← zpow_add₀ two_ne_zero, add_sub_cancel]

namespace Double

/-- The fields of a bit pattern are those that it was made of. -/
theorem read_ofFields (negative : Bool) {rest : Nat} (h : rest < 2 ^ 63) :
    (ofFields negative rest).read =
      if rest / 2 ^ 52 = 2047 then
        if rest % 2 ^ 52 = 0 then .infinite negative else .nan
      else if rest / 2 ^ 52 = 0 then .finite negative ⟨rest % 2 ^ 52, Layout.double.leastExponent⟩
      else .finite negative
        ⟨2 ^ 52 + rest % 2 ^ 52, Layout.double.leastExponent + (rest / 2 ^ 52 : Nat) - 1⟩ := by
  obtain ⟨n, hn⟩ : ∃ n, (if negative then 2 ^ 63 else 0) + rest = n := ⟨_, rfl⟩
  have hbits : (ofFields negative rest).bits.toNat = n := by
    change (UInt64.ofNat ((if negative then 2 ^ 63 else 0) + rest)).toNat = n
    rw [hn, UInt64.toNat_ofNat']
    apply Nat.mod_eq_of_lt
    split_ifs at hn <;> omega
  have hsign : (n / 2 ^ 63 == 1) = negative := by
    cases negative
    · simp only [Bool.false_eq_true, if_false, zero_add] at hn
      rw [beq_eq_false_iff_ne]
      omega
    · simp only [if_true] at hn
      rw [beq_iff_eq]
      omega
  have hbiased : n / 2 ^ 52 % 2 ^ 11 = rest / 2 ^ 52 := by
    split_ifs at hn <;> omega
  have hfraction : n % 2 ^ 52 = rest % 2 ^ 52 := by
    split_ifs at hn <;> omega
  unfold read
  simp only [hbits, Nat.pow_eq, hsign, hbiased, hfraction]

/-- The bits of a magnitude of the 64-bit layout stand for that magnitude. -/
theorem read_ofMagnitude (negative : Bool) {x : Magnitude} (h : x.InLayout .double) :
    (ofMagnitude negative x).read = .finite negative x := by
  obtain ⟨hbound, hleast, hgreatest, hfull⟩ := h
  obtain ⟨mantissa, exponent⟩ := x
  rw [leastExponent_double] at hleast hfull
  rw [greatestExponent_double] at hgreatest
  change mantissa < 2 ^ 53 at hbound
  change exponent = -1074 ∨ 2 ^ 52 ≤ mantissa at hfull
  dsimp only at hleast hgreatest
  unfold ofMagnitude
  rw [leastExponent_double]
  simp only [Nat.pow_eq]
  split_ifs with hsmall
  -- A mantissa without its leading bit has the least exponent, which the bits leave out.
  · have hexponent : exponent = -1074 := hfull.resolve_right (by omega)
    have hquotient : mantissa / 2 ^ 52 = 0 := Nat.div_eq_of_lt hsmall
    rw [read_ofFields negative (by omega), hquotient, Nat.mod_eq_of_lt hsmall, hexponent]
    rfl
  · obtain ⟨biased, hbiased⟩ := Int.eq_ofNat_of_zero_le (show 0 ≤ exponent + 1075 by omega)
    have htoNat : (exponent - -1074 + 1).toNat = biased := by omega
    have hquotient : (biased * 2 ^ 52 + (mantissa - 2 ^ 52)) / 2 ^ 52 = biased := by omega
    have hremainder : (biased * 2 ^ 52 + (mantissa - 2 ^ 52)) % 2 ^ 52 = mantissa - 2 ^ 52 := by omega
    rw [htoNat, read_ofFields negative (by omega), hquotient, hremainder, if_neg (by omega),
      if_neg (by omega), leastExponent_double]
    have hmantissa : 2 ^ 52 + (mantissa - 2 ^ 52) = mantissa := by omega
    have hexponent : -1074 + (biased : Int) - 1 = exponent := by omega
    rw [hmantissa, hexponent]

/-- A finite number stands for a magnitude of the 64-bit layout. -/
theorem inLayout_of_read {x : Double} {negative : Bool} {magnitude : Magnitude}
    (h : x.read = .finite negative magnitude) : magnitude.InLayout .double := by
  unfold read at h
  simp only [Nat.pow_eq, leastExponent_double] at h
  have hbiased : x.bits.toNat / 2 ^ 52 % 2 ^ 11 < 2 ^ 11 := Nat.mod_lt _ (by decide)
  have hfraction : x.bits.toNat % 2 ^ 52 < 2 ^ 52 := Nat.mod_lt _ (by decide)
  generalize x.bits.toNat / 2 ^ 52 % 2 ^ 11 = biased at *
  generalize x.bits.toNat % 2 ^ 52 = fraction at *
  have hgreatest := greatestExponent_double
  have hleast := leastExponent_double
  split_ifs at h
  · cases h
    have hrange : (-1074 : Int) ≤ Layout.double.greatestExponent := by decide
    exact ⟨hfraction.trans (by decide), hleast.le, hrange, .inl hleast.symm⟩
  · cases h
    refine ⟨?_, ?_, ?_, .inr (Nat.le_add_right _ _)⟩
    · show 2 ^ 52 + fraction < 2 ^ 53
      omega
    · rw [hleast]
      dsimp only
      omega
    · rw [hgreatest]
      dsimp only
      omega

/-- A number that was narrowed to 32 bits is narrowed to itself. -/
theorem toSingle_toSingle (x : Double) : x.toSingle.toSingle = x.toSingle := by
  have hnan : nan.toSingle = nan := by decide
  have hinfinity : ∀ negative, (infinity negative).toSingle = infinity negative := by decide
  rw [toSingle.eq_def x]
  cases hread : x.read with
  | nan => exact hnan
  | infinite negative => exact hinfinity negative
  | finite negative magnitude =>
      dsimp only
      cases hsingle : Magnitude.ofRatio? .single magnitude.ratio.1 magnitude.ratio.2 with
      | none => exact hinfinity negative
      | some single =>
          have hfits := Magnitude.inLayout_of_ofRatio? (by decide) magnitude.den_ratio_ne_zero hsingle
          obtain ⟨double, hdouble, hvalue⟩ := hfits.exists_double
          have hwiden := hdouble.ofRatio?_eq single.den_ratio_ne_zero
            (single.ratio_eq_value.trans hvalue.symm)
          have hnarrow := hfits.ofRatio?_eq double.den_ratio_ne_zero
            (double.ratio_eq_value.trans hvalue)
          dsimp only
          rw [hwiden, toSingle, read_ofMagnitude negative hdouble]
          dsimp only
          rw [hnarrow]
          dsimp only
          rw [hwiden]

end Double

end Number

end Chronicle
