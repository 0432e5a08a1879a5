import Chronicle.Text.Numeral
import Mathlib.Tactic.Ring

/-!
# Numerals stand for their numbers

A numeral in base ten or sixteen is read as the number that it writes, also with zeros before it, and a
reader of digits stops where the digits end.
-/

namespace Chronicle

namespace Text

/-! ## Base ten -/

theorem decimalValue_toDigits (n : Nat) : decimalValue (Nat.toDigits 10 n) = n :=
  Nat.ofDigitChars_toDigits (by decide) (by decide)

theorem toDigits_ne_nil (n : Nat) : Nat.toDigits 10 n ≠ [] :=
  List.ne_nil_of_length_pos Nat.length_toDigits_pos

theorem isDigit_toDigits {n : Nat} {c : Char} (h : c ∈ Nat.toDigits 10 n) : c.isDigit = true :=
  Nat.isDigit_of_mem_toDigits (by decide) (by decide) h

theorem decimalValue_replicate_append (k : Nat) (digits : List Char) :
    decimalValue (List.replicate k '0' ++ digits) = decimalValue digits := by
  induction k with
  | zero => rfl
  | succ k ih => exact ih

theorem decimalValue_decimalPadded (width n : Nat) : decimalValue (decimalPadded width n) = n :=
  (decimalValue_replicate_append _ _).trans (decimalValue_toDigits n)

theorem isDigit_decimalPadded {width n : Nat} {c : Char} (h : c ∈ decimalPadded width n) :
    c.isDigit = true := by
  rcases List.mem_append.mp h with h | h
  · rw [List.eq_of_mem_replicate h]
    rfl
  · exact isDigit_toDigits h

theorem decimalPadded_ne_nil (width n : Nat) : decimalPadded width n ≠ [] :=
  List.append_ne_nil_of_right_ne_nil _ (toDigits_ne_nil n)

theorem length_decimalPadded {width n : Nat} (hwidth : 0 < width) (h : n < 10 ^ width) :
    (decimalPadded width n).length = width := by
  have hle : (Nat.toDigits 10 n).length ≤ width :=
    (Nat.length_toDigits_le_iff (by decide) hwidth).mpr h
  simp only [decimalPadded, List.length_append, List.length_replicate]
  omega

theorem toNat_of_isDigit {c : Char} (h : c.isDigit = true) : 48 ≤ c.toNat ∧ c.toNat ≤ 57 := by
  simpa [Char.isDigit, UInt32.le_iff_toNat_le] using h

/-- Digits after a number make it less than the next number with as many zeros. -/
theorem foldl_digits_lt {digits : List Char} (h : ∀ c ∈ digits, c.isDigit = true) (n : Nat) :
    digits.foldl (fun n c => 10 * n + (c.toNat - 48)) n < (n + 1) * 10 ^ digits.length := by
  induction digits generalizing n with
  | nil => simp
  | cons c digits ih =>
      obtain ⟨hc, hrest⟩ := List.forall_mem_cons.mp h
      obtain ⟨-, hdigit⟩ := toNat_of_isDigit hc
      calc (c :: digits).foldl (fun n c => 10 * n + (c.toNat - 48)) n
          < (10 * n + (c.toNat - 48) + 1) * 10 ^ digits.length := ih hrest _
        _ ≤ (10 * (n + 1)) * 10 ^ digits.length := Nat.mul_le_mul_right _ (by omega)
        _ = (n + 1) * 10 ^ (c :: digits).length := by
            rw [List.length_cons, Nat.pow_succ']
            ring

/-- A list of digits writes a number of no more digits. -/
theorem decimalValue_lt {digits : List Char} (h : ∀ c ∈ digits, c.isDigit = true) :
    decimalValue digits < 10 ^ digits.length := by
  simpa [decimalValue] using foldl_digits_lt h 0

/-- A numeral begins with a zero only if it is zero. -/
theorem head?_toDigits (n : Nat) (h : (Nat.toDigits 10 n).head? = some '0') : n = 0 := by
  induction n using Nat.strongRecOn with
  | ind n ih =>
      by_cases hsmall : n < 10
      · rw [Nat.toDigits_of_lt_base hsmall, List.head?_cons, Option.some.injEq] at h
        have hdigit : ∀ k < 10, k.digitChar = '0' → k = 0 := by decide
        exact hdigit n hsmall h
      · have hne := toDigits_ne_nil (n / 10)
        rw [Nat.toDigits_of_base_le (by decide) (by omega), List.head?_append,
          List.head?_eq_some_head hne, Option.some_or, ← List.head?_eq_some_head hne] at h
        have hzero := ih (n / 10) (by omega) h
        omega

/-! ## Digits before other characters -/

/-- A text that begins with a digit does not begin with another character. -/
theorem digits_append_ne {digits : List Char} (h : ∀ c ∈ digits, c.isDigit = true)
    (hne : digits ≠ []) {c : Char} (hc : c.isDigit = false) (rest s : List Char) :
    digits ++ rest ≠ c :: s := by
  obtain ⟨d, digits, rfl⟩ := List.exists_cons_of_ne_nil hne
  intro heq
  have hd : d.isDigit = true := h d List.mem_cons_self
  rw [(List.cons.inj heq).1, hc] at hd
  exact Bool.false_ne_true hd

/-- Whether a text does not begin with a digit. -/
def NoDigit (s : List Char) : Prop := ∀ c ∈ s.head?, c.isDigit = false

theorem takeWhile_digits {digits rest : List Char} (h : ∀ c ∈ digits, c.isDigit = true)
    (hrest : NoDigit rest) : (digits ++ rest).takeWhile Char.isDigit = digits := by
  rw [List.takeWhile_append_of_pos h]
  cases rest with
  | nil => simp
  | cons c rest =>
      have hc : c.isDigit = false := hrest c rfl
      simp [hc]

theorem dropWhile_digits {digits rest : List Char} (h : ∀ c ∈ digits, c.isDigit = true)
    (hrest : NoDigit rest) : (digits ++ rest).dropWhile Char.isDigit = rest := by
  rw [List.dropWhile_append_of_pos h]
  cases rest with
  | nil => rfl
  | cons c rest =>
      have hc : c.isDigit = false := hrest c rfl
      simp [hc]

/-- Digits are found in as many characters as they take or, if they end there, in more. -/
theorem takeWhile_take {digits : List Char} (rest : List Char) {width : Nat}
    (h : ∀ c ∈ digits, c.isDigit = true) (hlength : digits.length ≤ width)
    (hrest : digits.length < width → NoDigit rest) :
    ((digits ++ rest).take width).takeWhile Char.isDigit = digits := by
  rw [List.take_append, List.take_of_length_le hlength]
  apply takeWhile_digits h
  intro c hc
  by_cases hlt : digits.length < width
  · rw [List.head?_take, if_neg (by omega)] at hc
    exact hrest hlt c hc
  · rw [show width - digits.length = 0 by omega] at hc
    cases hc

/-! ## Base sixteen -/

theorem hexValue?_hexDigit {n : Nat} (h : n < 16) : hexValue? (hexDigit n) = some n := by
  revert n
  decide

/-- A padded numeral is read after the digits before it. -/
theorem foldlM_hexPadded (width n start : Nat) :
    (hexPadded width n).foldlM (fun m c => (hexValue? c).map (16 * m + ·)) start =
      some (16 ^ width * start + n % 16 ^ width) := by
  induction width generalizing n with
  | zero => simp [hexPadded, Nat.mod_one]
  | succ width ih =>
      have hlow : hexValue? (hexDigit (n % 16)) = some (n % 16) :=
        hexValue?_hexDigit (Nat.mod_lt n (by decide))
      have hsplit : n % 16 ^ (width + 1) = 16 * (n / 16 % 16 ^ width) + n % 16 := by
        rw [Nat.pow_succ', Nat.mod_mul]
        omega
      rw [hexPadded, List.foldlM_append, ih, hsplit]
      simp only [List.foldlM_cons, List.foldlM_nil, hlow, Option.map_some, Option.bind_eq_bind,
        Option.bind_some, Option.pure_def, Option.some.injEq]
      ring

theorem hexNumber?_hexPadded {width n : Nat} (h : n < 16 ^ width) :
    hexNumber? (hexPadded width n) = some n := by
  rw [hexNumber?, foldlM_hexPadded, Nat.mod_eq_of_lt h]
  simp

end Text

end Chronicle
