import Chronicle.Proofs.Number.Rounding
import Mathlib.Tactic.Linarith

/-!
# Rounding is monotone

Of two ratios the larger one does not round to the smaller magnitude, and it is not too large for a
layout unless the smaller one may be too large as well.

## Implementation notes

Rounding may carry into the next exponent. The carried magnitude has the value of the mantissa that did
not fit, so that values are compared without regard to the carry, and only the bound on the exponent
looks at it.
-/

namespace Chronicle

namespace Number

/-! ## Rounded quotients -/

/-- A quotient is at most a half away from what it rounds to, and exactly a half away from an even number
only. -/
theorem roundDiv_near (num : Nat) {den : Nat} (h : 0 < den) :
    2 * num ≤ (2 * roundDiv num den + 1) * den ∧ 2 * roundDiv num den * den ≤ 2 * num + den ∧
      (2 * num = (2 * roundDiv num den + 1) * den ∨ 2 * roundDiv num den * den = 2 * num + den →
        roundDiv num den % 2 = 0) := by
  have hsplit : den * (num / den) + num % den = num := Nat.div_add_mod num den
  have hrest : num % den < den := Nat.mod_lt num h
  have hmul (q : Nat) : (2 * q + 1) * den = 2 * (den * q) + den ∧ 2 * q * den = 2 * (den * q) :=
    ⟨by ring, by ring⟩
  have hsucc : den * (num / den + 1) = den * (num / den) + den := Nat.mul_succ _ _
  unfold roundDiv
  dsimp only
  split_ifs with hbelow habove heven
  all_goals
    simp only [hmul, hsucc]
    omega

theorem roundDiv_mono {num den num' den' : Nat} (hden : 0 < den) (hden' : 0 < den')
    (h : num * den' ≤ num' * den) : roundDiv num den ≤ roundDiv num' den' := by
  obtain ⟨-, hhigh, heven⟩ := roundDiv_near num hden
  obtain ⟨hlow', -, heven'⟩ := roundDiv_near num' hden'
  generalize roundDiv num den = r at *
  generalize roundDiv num' den' = r' at *
  by_contra hlt
  have hhigh := Nat.mul_le_mul_right den' hhigh
  have hlow' := Nat.mul_le_mul_right den hlow'
  have hstep := Nat.mul_le_mul_right (den * den') (show r' + 1 ≤ r by omega)
  -- Both quotients lie half-way between neighbours, of which not both are even.
  have hr : r = r' + 1 := by
    refine Nat.eq_of_mul_eq_mul_right (Nat.mul_pos hden hden') ?_
    nlinarith
  subst hr
  have htie : 2 * (r' + 1) * den = 2 * num + den :=
    Nat.eq_of_mul_eq_mul_right hden' (by nlinarith)
  have htie' : 2 * num' = (2 * r' + 1) * den' := Nat.eq_of_mul_eq_mul_right hden (by nlinarith)
  have := heven (.inr htie)
  have := heven' (.inl htie')
  omega

namespace Magnitude

variable {layout : Layout} {num den num' den' : Nat}

/-- The magnitude of a mantissa that may have one bit too many. -/
def carry (layout : Layout) (mantissa : Nat) (q : Int) : Magnitude :=
  if mantissa = Nat.pow 2 (layout.fractionBits + 1) then ⟨Nat.pow 2 layout.fractionBits, q + 1⟩
  else ⟨mantissa, q⟩

theorem value_carry (layout : Layout) (mantissa : Nat) (q : Int) :
    (carry layout mantissa q).value = mantissa * 2 ^ q := by
  unfold carry value
  split_ifs with h
  · rw [h, zpow_add₀ two_ne_zero]
    push_cast [Nat.pow_eq]
    ring
  · rfl

/-- Between two exponents, or between mantissas at one exponent, carrying keeps the order. -/
theorem carry_le {r r' : Nat} {q q' : Int} (hr : r ≤ 2 ^ (layout.fractionBits + 1))
    (hr' : r' ≤ 2 ^ (layout.fractionBits + 1))
    (h : q = q' ∧ r ≤ r' ∨ q < q' ∧ 2 ^ layout.fractionBits ≤ r') :
    (carry layout r q).exponent ≤ (carry layout r' q').exponent ∧
      (carry layout r q).value ≤ (carry layout r' q').value := by
  rw [value_carry, value_carry]
  rcases h with ⟨rfl, hle⟩ | ⟨hlt, hfull⟩
  · refine ⟨?_, by gcongr⟩
    unfold carry
    simp only [Nat.pow_eq]
    split_ifs with hcarry hcarry' hcarry'
    · exact le_rfl
    · omega
    · exact (lt_add_one q).le
    · exact le_rfl
  · constructor
    · have hlow : (carry layout r q).exponent ≤ q + 1 := by
        unfold carry
        split_ifs
        · exact le_rfl
        · exact (lt_add_one q).le
      have hhigh : q' ≤ (carry layout r' q').exponent := by
        unfold carry
        split_ifs
        · exact (lt_add_one q').le
        · exact le_rfl
      omega
    · calc (r : ℚ) * 2 ^ q ≤ 2 ^ (layout.fractionBits + 1) * 2 ^ q := by
            gcongr
            exact_mod_cast hr
        _ = 2 ^ layout.fractionBits * 2 ^ (q + 1) := by
            rw [zpow_add₀ two_ne_zero]
            ring
        _ ≤ 2 ^ layout.fractionBits * 2 ^ q' := by
            gcongr
            · exact one_le_two
            · omega
        _ ≤ r' * 2 ^ q' := by
            gcongr
            exact_mod_cast hfull

/-- The mantissa of a ratio at an exponent. -/
def mantissaAt (num den : Nat) (q : Int) : Nat := roundDiv (scale num den q).1 (scale num den q).2

theorem ofRatio?_eq_carry (h : num ≠ 0) :
    ofRatio? layout num den =
      let x := carry layout (mantissaAt num den (place layout num den)) (place layout num den)
      if layout.greatestExponent < x.exponent then none else some x :=
  ofRatio?_eq h

theorem mantissaAt_mono (hden : den ≠ 0) (hden' : den' ≠ 0)
    (h : (num : ℚ) / den ≤ num' / den') (q : Int) : mantissaAt num den q ≤ mantissaAt num' den' q := by
  have hpos : 0 < (scale num den q).2 := Nat.pos_of_ne_zero (den_scale_ne_zero hden num q)
  have hpos' : 0 < (scale num' den' q).2 := Nat.pos_of_ne_zero (den_scale_ne_zero hden' num' q)
  have hscaled : ((scale num den q).1 : ℚ) / (scale num den q).2 ≤
      (scale num' den' q).1 / (scale num' den' q).2 := by
    rw [scale_eq, scale_eq]
    gcongr
  rw [div_le_div_iff₀ (by exact_mod_cast hpos) (by exact_mod_cast hpos')] at hscaled
  exact roundDiv_mono hpos hpos' (by exact_mod_cast hscaled)

/-- The mantissa at the exponent that rounding chooses has all bits of the layout, unless the exponent is
the least one, and at most one bit too many. -/
theorem mantissaAt_place (layout : Layout) (hnum : num ≠ 0) (hden : den ≠ 0) :
    mantissaAt num den (place layout num den) ≤ 2 ^ (layout.fractionBits + 1) ∧
      (place layout num den = layout.leastExponent ∨
        2 ^ layout.fractionBits ≤ mantissaAt num den (place layout num den)) := by
  have hplace : Places layout ((num : ℚ) / den) (place layout num den) := place_places hnum hden
  generalize place layout num den = q at *
  obtain ⟨hlow, hhigh⟩ := roundDiv_bounds (scale num den q).1 (scale num den q).2
  have hquotient : (scale num den q).1 / (scale num den q).2 < 2 ^ (layout.fractionBits + 1) := by
    rw [div_scale_lt_iff hden]
    exact_mod_cast hplace.bound
  refine ⟨hhigh.trans hquotient, hplace.full.imp_right fun hfull => le_trans ?_ hlow⟩
  rw [← not_lt, div_scale_lt_iff hden, not_lt]
  exact_mod_cast hfull

/-- A ratio that is not larger than one that rounds to a magnitude of the layout rounds to a magnitude
that is not larger. -/
theorem ofRatio?_mono (hden : den ≠ 0) (hden' : den' ≠ 0) (h : (num : ℚ) / den ≤ num' / den')
    {y : Magnitude} (hy : ofRatio? layout num' den' = some y) :
    ∃ x, ofRatio? layout num den = some x ∧ x.value ≤ y.value := by
  by_cases hnum : num = 0
  · refine ⟨zero layout, if_pos hnum, ?_⟩
    have hzero : (zero layout).value = 0 := by simp [value, zero]
    rw [hzero, value]
    positivity
  have hpos : (0 : ℚ) < num / den := by
    have hnum : (0 : ℚ) < num := by exact_mod_cast Nat.pos_of_ne_zero hnum
    have hden : (0 : ℚ) < den := by exact_mod_cast Nat.pos_of_ne_zero hden
    exact div_pos hnum hden
  have hnum' : num' ≠ 0 := by
    rintro rfl
    rw [Nat.cast_zero, zero_div] at h
    exact absurd h (not_le.mpr hpos)
  have hplaces : Places layout ((num : ℚ) / den) (place layout num den) := place_places hnum hden
  have hplace : place layout num den ≤ place layout num' den' :=
    hplaces.le_of_le (place_places hnum' hden') h
  have hmono := mantissaAt_mono hden hden' h (place layout num den)
  obtain ⟨hfits, -⟩ := mantissaAt_place layout hnum hden
  obtain ⟨hfits', hfull'⟩ := mantissaAt_place layout hnum' hden'
  have hleast := hplaces.least
  rw [ofRatio?_eq_carry hnum'] at hy
  rw [ofRatio?_eq_carry hnum]
  generalize place layout num den = q at *
  generalize place layout num' den' = q' at *
  obtain ⟨hexponent, hvalue⟩ : (carry layout (mantissaAt num den q) q).exponent ≤
      (carry layout (mantissaAt num' den' q') q').exponent ∧
      (carry layout (mantissaAt num den q) q).value ≤
        (carry layout (mantissaAt num' den' q') q').value := by
    rcases hplace.eq_or_lt with rfl | hlt
    · exact carry_le hfits hfits' (.inl ⟨rfl, hmono⟩)
    · exact carry_le hfits hfits' (.inr ⟨hlt, hfull'.resolve_left (by omega)⟩)
  dsimp only at hy ⊢
  split_ifs at hy with hbeyond
  cases hy
  exact ⟨_, if_neg (by omega), hvalue⟩

end Magnitude

end Number

end Chronicle
