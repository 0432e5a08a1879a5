import Chronicle.Identity.Uuid
import Chronicle.Proofs.Text.Numeral

/-!
# Identifiers are read back

The text of an identifier names that identifier: its hyphens stand where the reader looks for them, and
its 32 digits give back all 128 bits.
-/

namespace Chronicle

namespace Uuid

/-! ## Hyphens -/

theorem hyphenate_cons_cons (n m : Nat) (ns : List Nat) (digits : List Char) :
    hyphenate (n :: m :: ns) digits = digits.take n ++ '-' :: hyphenate (m :: ns) (digits.drop n) := by
  rw [hyphenate]
  exact List.cons_ne_nil _ _

theorem length_hyphenate (ns : List Nat) {digits : List Char} (h : digits.length = ns.sum) :
    (hyphenate ns digits).length = digits.length + (ns.length - 1) := by
  induction ns generalizing digits with
  | nil => rfl
  | cons n ns ih =>
      cases ns with
      | nil => rfl
      | cons m ns =>
          have hrest : (digits.drop n).length = (m :: ns).sum := by
            rw [List.length_drop, h, List.sum_cons, Nat.add_sub_cancel_left]
          rw [hyphenate_cons_cons, List.length_append, List.length_cons, ih hrest, List.length_take,
            List.length_drop]
          simp only [List.sum_cons, List.length_cons] at h ⊢
          omega

/-- Digits are found again without the hyphens between them. -/
theorem unhyphenate?_hyphenate {ns : List Nat} (hne : ns ≠ []) {digits : List Char}
    (h : digits.length = ns.sum) : unhyphenate? ns (hyphenate ns digits) = some digits := by
  induction ns generalizing digits with
  | nil => exact absurd rfl hne
  | cons n ns ih =>
      cases ns with
      | nil => exact if_pos (h.trans (List.sum_singleton))
      | cons m ns =>
          have hgroup : (digits.take n).length = n := by
            rw [List.length_take, h, List.sum_cons]
            omega
          have hrest : (digits.drop n).length = (m :: ns).sum := by
            rw [List.length_drop, h, List.sum_cons, Nat.add_sub_cancel_left]
          rw [hyphenate_cons_cons, unhyphenate?]
          · rw [List.drop_left' hgroup, List.take_left' hgroup]
            show (unhyphenate? (m :: ns) (hyphenate (m :: ns) (digits.drop n))).map _ = _
            rw [ih (List.cons_ne_nil _ _) hrest]
            exact congrArg some (List.take_append_drop n digits)
          · exact List.cons_ne_nil _ _

/-! ## Digits -/

theorem ofDigits?_hexPadded (uuid : Uuid) :
    ofDigits? (Text.hexPadded 32 uuid.bits.toNat) = some uuid := by
  have hbound : uuid.bits.toNat < 16 ^ 32 := uuid.bits.isLt
  rw [ofDigits?, if_pos (Text.hexPadded_length _ _), Text.hexNumber?_hexPadded hbound, Option.map_some]
  simp

/-- A text of 36 characters is read as a hyphenated one. -/
theorem ofText?_of_length {s : List Char} (h : s.length = 36) :
    ofText? (String.ofList s) = (unhyphenate? groups s).bind ofDigits? := by
  have hplain : (36 : Nat) ≠ 32 := by decide
  simp only [ofText?, String.toList_ofList, h, if_neg hplain, if_true]

/-- An identifier is read back from its text. -/
theorem ofText?_text (uuid : Uuid) : ofText? uuid.text = some uuid := by
  have hdigits : (Text.hexPadded 32 uuid.bits.toNat).length = groups.sum := Text.hexPadded_length _ _
  have hlength := length_hyphenate groups hdigits
  rw [hdigits] at hlength
  rw [text, ofText?_of_length hlength, unhyphenate?_hyphenate (by decide) hdigits, Option.bind_some,
    ofDigits?_hexPadded]

end Uuid

end Chronicle
