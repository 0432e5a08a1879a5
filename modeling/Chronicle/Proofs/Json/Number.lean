import Chronicle.Proofs.Json.Decode
import Chronicle.Proofs.Number.Decimal

/-!
# Floating-point numbers as JSON

The number of every finite floating-point number is one that is read as a number again. The others are
written as a constant, which is no number.

## Implementation notes

A number is written in one of four shapes. Each is told by its literal, whose digits are those of the
decimal with zeros around them, so that all digits are gathered when it is read.
-/

namespace Chronicle

open Number (Decimal Double)

namespace Json

/-! ## Gathering digits -/

namespace Scaled

/-- A significand with one more digit. -/
def grow (n : Nat) (c : Char) : Nat := 10 * n + (c.toNat - 48)

theorem le_foldl_grow (digits : List Char) (n : Nat) : n ≤ digits.foldl grow n := by
  induction digits generalizing n with
  | nil => exact le_rfl
  | cons c digits ih =>
      have hgrow : n ≤ grow n c := by
        unfold grow
        omega
      exact hgrow.trans (ih _)

theorem appendWhole_eq {x : Scaled} {digits : List Char}
    (h : digits.foldl grow x.significand < wordBound) :
    x.appendWhole digits = ⟨digits.foldl grow x.significand, x.exponent⟩ := by
  induction digits generalizing x with
  | nil => rfl
  | cons c digits ih =>
      have hnext : grow x.significand c < wordBound := (le_foldl_grow digits _).trans_lt h
      exact (if_pos hnext).trans (ih h)

theorem appendFraction_eq {x : Scaled} {digits : List Char}
    (h : digits.foldl grow x.significand < wordBound) :
    x.appendFraction digits = ⟨digits.foldl grow x.significand, x.exponent - digits.length⟩ := by
  induction digits generalizing x with
  | nil => simp [appendFraction]
  | cons c digits ih =>
      have hnext : grow x.significand c < wordBound := (le_foldl_grow digits _).trans_lt h
      refine (if_pos hnext).trans ((ih h).trans ?_)
      simp only [List.foldl_cons, List.length_cons, mk.injEq, grow, true_and]
      push_cast
      ring

/-- Digits that fit are all gathered, and those of the fraction are counted. -/
theorem append_eq {whole fraction : List Char} (h : Text.decimalValue (whole ++ fraction) < wordBound) :
    (appendWhole ⟨0, 0⟩ whole).appendFraction fraction =
      ⟨Text.decimalValue (whole ++ fraction), -fraction.length⟩ := by
  have happend : Text.decimalValue (whole ++ fraction) = fraction.foldl grow (whole.foldl grow 0) :=
    List.foldl_append
  rw [happend] at h ⊢
  rw [appendWhole_eq ((le_foldl_grow fraction _).trans_lt h), appendFraction_eq h, zero_sub]

end Scaled

/-! ## The four shapes -/

namespace Literal

/-- Whether a literal is the one that a decimal is written as, behind a sign or none, and is read. -/
structure Writes (x : Decimal) (l : Literal) : Prop where
  wellFormed : l.WellFormed
  spelling : l.spelling true =
    (if l.negative then ['-'] else []) ++ Number.Style.json.write x
  read : l.numeric?.isSome = true

variable {x : Decimal} {negative : Bool}

/-- A literal with a point is read, if its digits fit. -/
theorem isSome_numeric?_of_point {l : Literal} (hexponent : l.exponent = none) (hpoint : l.fraction ≠ [])
    (h : Text.decimalValue (l.whole ++ l.fraction) < wordBound) : l.numeric?.isSome = true := by
  have hparts : l.fraction.isEmpty = false := by simpa using hpoint
  have hlength : -(l.fraction.length : Int) < 0 := by
    have := List.length_pos_iff.mpr hpoint
    omega
  rw [numeric?, hparts, Bool.false_and, if_neg Bool.false_ne_true, Option.isSome_map, float?,
    Scaled.append_eq h, hexponent]
  exact Double.isSome_ofDecimal?_of_neg l.negative h hlength

theorem digits_numeral (x : Decimal) : ∀ c ∈ x.numeral, c.isDigit = true :=
  fun _ => Text.isDigit_toDigits

theorem numeral_ne_nil (x : Decimal) : x.numeral ≠ [] := Text.toDigits_ne_nil _

theorem decimalValue_numeral (x : Decimal) : Text.decimalValue x.numeral = x.digits :=
  Text.decimalValue_toDigits _

theorem digits_zeros (n : Nat) : ∀ c ∈ List.replicate n '0', c.isDigit = true := by
  intro c hc
  rw [List.eq_of_mem_replicate hc]
  rfl

theorem fits_word (h : x.Fits) : x.digits < wordBound := h.digits_le.trans_lt (by decide)

/-- The numeral of a decimal that fits begins with a zero only if the decimal is zero. -/
theorem eq_zero_of_head? (h : x.Fits) (hzero : x.numeral.head? = some '0') : x = ⟨0, 0⟩ := by
  have hdigits : x.digits = 0 := Text.head?_toDigits _ hzero
  have hexponent := h.zero hdigits
  obtain ⟨digits, exponent⟩ := x
  rw [Decimal.mk.injEq]
  exact ⟨hdigits, hexponent⟩

section Positional

variable (hpositional : Number.Style.json.isPositional x.scientificExponent = true)

include hpositional

theorem write_positional :
    Number.Style.json.write x = Number.Style.json.positional x.numeral x.exponent := if_pos hpositional

/-- A whole number has its zeros written out, and a zero behind the point. -/
theorem writes_whole (h : x.Fits) (hexponent : 0 ≤ x.exponent) :
    Writes x ⟨negative, x.numeral ++ List.replicate x.exponent.toNat '0', ['0'], none⟩ := by
  have hwhole : ∀ c ∈ x.numeral ++ List.replicate x.exponent.toNat '0', c.isDigit = true :=
    List.forall_mem_append.mpr ⟨digits_numeral x, digits_zeros _⟩
  have hfraction : ∀ c ∈ ['0'], c.isDigit = true := List.forall_mem_singleton.mpr rfl
  refine ⟨⟨hwhole, ?_, fun hzero => ?_, hfraction, by simp⟩, ?_, ?_⟩
  · exact List.append_ne_nil_of_left_ne_nil (numeral_ne_nil x) _
  · dsimp only at hzero ⊢
    rw [List.head?_append_of_ne_nil _ (numeral_ne_nil x)] at hzero
    rw [eq_zero_of_head? h hzero]
    rfl
  · rw [write_positional hpositional, Number.Style.positional, if_pos hexponent]
    simp [Literal.spelling, fractionPart, exponentPart, Number.Style.json]
  · refine isSome_numeric?_of_point rfl (List.cons_ne_nil _ _) ?_
    have hgreatest : x.scientificExponent ≤ 15 := by
      simp only [Number.Style.isPositional, Number.Style.json, Option.all_some, Bool.and_eq_true,
        decide_eq_true_eq] at hpositional
      exact hpositional.2
    have hlength : (x.numeral ++ List.replicate x.exponent.toNat '0' ++ ['0']).length ≤ 17 := by
      simp only [List.length_append, List.length_replicate, List.length_cons, List.length_nil]
      rw [Decimal.scientificExponent] at hgreatest
      omega
    calc Text.decimalValue (x.numeral ++ List.replicate x.exponent.toNat '0' ++ ['0'])
        < 10 ^ (x.numeral ++ List.replicate x.exponent.toNat '0' ++ ['0']).length :=
          Text.decimalValue_lt (List.forall_mem_append.mpr ⟨hwhole, hfraction⟩)
      _ ≤ 10 ^ 17 := Nat.pow_le_pow_right (by decide) hlength
      _ ≤ wordBound := by decide

/-- A number with an exponent within its digits has the point among them. -/
theorem writes_split (h : x.Fits) (hexponent : x.exponent < 0)
    (hlength : (-x.exponent).toNat < x.numeral.length) :
    Writes x ⟨negative, x.numeral.take (x.numeral.length - (-x.exponent).toNat),
      x.numeral.drop (x.numeral.length - (-x.exponent).toNat), none⟩ := by
  generalize hpoint : x.numeral.length - (-x.exponent).toNat = point
  have hfirst : 0 < point := by omega
  have hlast : point < x.numeral.length := by omega
  have hwhole : x.numeral.take point ≠ [] := by
    simpa [List.take_eq_nil_iff, numeral_ne_nil] using hfirst.ne'
  have hfraction : x.numeral.drop point ≠ [] := by
    simpa [List.drop_eq_nil_iff] using hlast
  refine ⟨⟨fun c hc => ?_, hwhole, fun hzero => ?_, fun c hc => ?_, by simp⟩, ?_, ?_⟩
  · exact digits_numeral x c (List.mem_of_mem_take hc)
  · rw [List.head?_take, if_neg hfirst.ne'] at hzero
    rw [eq_zero_of_head? h hzero] at hexponent
    exact absurd hexponent (lt_irrefl 0)
  · exact digits_numeral x c (List.mem_of_mem_drop hc)
  · rw [write_positional hpositional, Number.Style.positional, if_neg (not_le.mpr hexponent)]
    dsimp only
    rw [if_pos hlength, hpoint]
    have hempty : (x.numeral.drop point).isEmpty = false := by simpa using hfraction
    simp [Literal.spelling, fractionPart, exponentPart, hempty]
  · refine isSome_numeric?_of_point rfl hfraction ?_
    dsimp only
    rw [List.take_append_drop, decimalValue_numeral]
    exact fits_word h

/-- A number below its first digit has zeros between the point and its digits. -/
theorem writes_fraction (h : x.Fits) (hexponent : x.exponent < 0)
    (hlength : ¬(-x.exponent).toNat < x.numeral.length) :
    Writes x ⟨negative, ['0'],
      List.replicate ((-x.exponent).toNat - x.numeral.length) '0' ++ x.numeral, none⟩ := by
  have hfraction : List.replicate ((-x.exponent).toNat - x.numeral.length) '0' ++ x.numeral ≠ [] :=
    List.append_ne_nil_of_right_ne_nil _ (numeral_ne_nil x)
  refine ⟨⟨List.forall_mem_singleton.mpr rfl, List.cons_ne_nil _ _, fun _ => rfl, ?_, by simp⟩, ?_, ?_⟩
  · exact List.forall_mem_append.mpr ⟨digits_zeros _, digits_numeral x⟩
  · rw [write_positional hpositional, Number.Style.positional, if_neg (not_le.mpr hexponent)]
    dsimp only
    rw [if_neg hlength]
    simp [Literal.spelling, fractionPart, exponentPart, numeral_ne_nil]
  · refine isSome_numeric?_of_point rfl hfraction ?_
    have hvalue := Text.decimalValue_replicate_append
      ((-x.exponent).toNat - x.numeral.length + 1) x.numeral
    rw [decimalValue_numeral] at hvalue
    exact (show Text.decimalValue _ = x.digits from hvalue) ▸ fits_word h

end Positional

/-- A decimal that fits is read from its digits and its exponent. -/
theorem isSome_numeric?_scientific (h : x.Fits) {d : Char} {rest : List Char}
    (hnumeral : x.numeral = d :: rest) :
    (numeric? ⟨negative, [d], rest, some (decide (x.scientificExponent < 0),
      Nat.toDigits 10 x.scientificExponent.natAbs)⟩).isSome = true := by
  have hvalue : Text.decimalValue ([d] ++ rest) = x.digits := by
    rw [List.singleton_append, ← hnumeral, decimalValue_numeral]
  have hlength : x.numeral.length = rest.length + 1 := by rw [hnumeral, List.length_cons]
  have hsize : Text.decimalValue (Nat.toDigits 10 x.scientificExponent.natAbs) =
      x.scientificExponent.natAbs := Text.decimalValue_toDigits _
  rw [numeric?, Option.isNone_some, Bool.and_false, if_neg Bool.false_ne_true, Option.isSome_map,
    float?, Scaled.append_eq (hvalue ▸ fits_word h), hvalue]
  dsimp only
  rw [hsize]
  have hscientific : x.scientificExponent = x.exponent + rest.length := by
    rw [Decimal.scientificExponent, hlength]
    push_cast
    ring
  have hexponent : (if decide (x.scientificExponent < 0) = true
      then -(rest.length : Int) - x.scientificExponent.natAbs
      else -(rest.length : Int) + x.scientificExponent.natAbs) = x.exponent := by
    split_ifs with hsign
    · rw [decide_eq_true_eq] at hsign
      omega
    · rw [decide_eq_true_eq] at hsign
      omega
  rw [hexponent]
  split_ifs with hbound hlarge
  · exact Double.isSome_ofDecimal?_of_fits h negative
  · have hdigits : x.numeral.length ≤ 18 :=
      (Nat.length_toDigits_le_iff (by decide) (by decide)).mpr (h.digits_le.trans_lt (by decide))
    have hsmall := h.exponent_lt
    have hsign := of_decide_eq_false hlarge.2
    exact absurd (show x.scientificExponent.natAbs < 2 ^ 31 by omega) hbound
  · rfl

/-- Any other number has a point after its first digit, if there are more, and an exponent. -/
theorem writes_scientific (h : x.Fits)
    (hscientific : ¬Number.Style.json.isPositional x.scientificExponent = true) :
    Writes x ⟨negative, x.numeral.take 1, x.numeral.drop 1,
      some (decide (x.scientificExponent < 0), Nat.toDigits 10 x.scientificExponent.natAbs)⟩ := by
  obtain ⟨d, rest, hnumeral⟩ := List.exists_cons_of_ne_nil (numeral_ne_nil x)
  have hdigits : ∀ c ∈ d :: rest, c.isDigit = true := hnumeral ▸ digits_numeral x
  obtain ⟨hfirst, hrest⟩ := List.forall_mem_cons.mp hdigits
  rw [hnumeral, List.take_succ_cons, List.take_zero, List.drop_succ_cons, List.drop_zero]
  refine ⟨⟨List.forall_mem_singleton.mpr hfirst, List.cons_ne_nil _ _, fun _ => rfl, hrest, ?_⟩, ?_, ?_⟩
  · rintro _ ⟨⟩
    exact ⟨Text.toDigits_ne_nil _, fun _ => Text.isDigit_toDigits⟩
  · rw [Number.Style.write, if_neg hscientific, hnumeral]
    by_cases hsign : x.scientificExponent < 0
    · cases rest <;> simp [spelling, fractionPart, exponentPart, Number.Style.scientific, hsign]
    · cases rest <;>
        simp [spelling, fractionPart, exponentPart, Number.Style.scientific, Number.Style.json, hsign]
  · exact isSome_numeric?_scientific h hnumeral

/-- Every decimal that a number may be written as is written as a literal, and read. -/
theorem exists_writes (h : x.Fits) (negative : Bool) : ∃ l, Writes x l ∧ l.negative = negative := by
  by_cases hpositional : Number.Style.json.isPositional x.scientificExponent = true
  · by_cases hexponent : 0 ≤ x.exponent
    · exact ⟨_, writes_whole hpositional h hexponent, rfl⟩
    · by_cases hlength : (-x.exponent).toNat < x.numeral.length
      · exact ⟨_, writes_split hpositional h (not_le.mp hexponent) hlength, rfl⟩
      · exact ⟨_, writes_fraction hpositional h (not_le.mp hexponent) hlength, rfl⟩
  · exact ⟨_, writes_scientific h hpositional, rfl⟩

end Literal

/-! ## Floating-point numbers -/

/-- A finite number is written as a literal that is read as a number. -/
theorem exists_ofDouble {x : Double} (h : x.isFinite = true) :
    ∃ l : Literal, l.WellFormed ∧ ofDouble x = .number (l.spelling true) ∧ l.numeric?.isSome = true := by
  rw [ofDouble, if_pos h]
  unfold Double.isFinite at h
  cases hread : x.read with
  | nan => simp [hread] at h
  | infinite negative => simp [hread] at h
  | finite negative magnitude =>
      have hlayout := Double.inLayout_of_read hread
      have hnarrowed := hlayout.ofRatio?_eq magnitude.den_ratio_ne_zero magnitude.ratio_eq_value
      obtain ⟨l, ⟨hwellFormed, hspelling, hnumeric⟩, hsign⟩ :=
        Literal.exists_writes hlayout.shortest_fits negative
      refine ⟨l, hwellFormed, ?_, hnumeric⟩
      rw [hspelling, hsign, Double.format, hread]
      simp only [hnarrowed, String.toList_ofList]

theorem ofDouble_of_not_finite {x : Double} (h : x.isFinite = false) : ofDouble x = .null := by
  rw [ofDouble, h]
  rfl

theorem Written.double (x : Double) : (ofDouble x).Written := by
  cases hfinite : x.isFinite with
  | true =>
      obtain ⟨l, hwellFormed, hnumber, -⟩ := exists_ofDouble hfinite
      exact hnumber ▸ .number hwellFormed true
  | false => exact ofDouble_of_not_finite hfinite ▸ .null

theorem depth_ofDouble (x : Double) : (ofDouble x).depth = 0 := by
  unfold ofDouble
  split_ifs <;> rfl

/-- A number is read from what it is written as exactly if it is finite. -/
theorem isSome_double?_ofDouble (x : Double) : (ofDouble x).double?.isSome = x.isFinite := by
  cases hfinite : x.isFinite with
  | true =>
      obtain ⟨l, hwellFormed, hnumber, hnumeric⟩ := exists_ofDouble hfinite
      rw [hnumber, double?, hwellFormed.numeric?_spelling]
      obtain ⟨value, hvalue⟩ := Option.isSome_iff_exists.mp hnumeric
      rw [hvalue]
      cases value <;> rfl
  | false =>
      rw [ofDouble_of_not_finite hfinite]
      rfl

end Json

end Chronicle
