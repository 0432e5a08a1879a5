import Chronicle.Source.TextValue
import Mathlib.Tactic.IntervalCases
import Mathlib.Tactic.SplitIfs

/-!
# Text literals stand for their texts

The literal that is written for a text stands for that text, whichever characters it has.
-/

namespace Chronicle

namespace Source

namespace TextValue

theorem hexValue?_digitChar {n : Nat} (h : n < 16) : Text.hexValue? n.digitChar = some n := by
  interval_cases n <;> rfl

/-- A digit is read after the digits before it. -/
theorem codePoint_digitChar {n : Nat} (h : n < 16) (value : Nat) (rest : List Char) :
    codePoint value (n.digitChar :: rest) = codePoint (16 * value + n) rest := by
  have hbrace : n.digitChar ≠ '\x7d' := by
    interval_cases n <;> decide
  rw [codePoint, hexValue?_digitChar h]
  · rfl
  · exact hbrace

theorem codePoint_toDigits (n : Nat) (rest : List Char) :
    codePoint 0 (Nat.toDigits 16 n ++ rest) = codePoint n rest := by
  induction n using Nat.strongRecOn generalizing rest with
  | ind n ih =>
      by_cases hsmall : n < 16
      · rw [Nat.toDigits_of_lt_base hsmall, List.singleton_append, codePoint_digitChar hsmall]
        simp
      · have hshorter : n / 16 < n := by omega
        rw [Nat.toDigits_of_base_le (by decide) (by omega), List.append_assoc, List.singleton_append,
          ih (n / 16) hshorter, codePoint_digitChar (Nat.mod_lt n (by decide)), Nat.div_add_mod]

theorem quotedBody_codePoint (fuel : Nat) (c : Char) (rest : List Char) :
    quotedBody (fuel + 1)
      (['\\', 'u', '\x7b'] ++ Nat.toDigits 16 c.toNat ++ ['\x7d'] ++ rest) =
        c :: quotedBody fuel rest := by
  have hvalue : codePoint 0 (Nat.toDigits 16 c.toNat ++ '\x7d' :: rest) = (c.toNat, rest) := by
    rw [codePoint_toDigits]
    rfl
  simp only [List.append_assoc, List.cons_append, List.nil_append, quotedBody, hvalue,
    Char.ofNat_toNat]

/-- A character that is not escaped stands for itself. -/
theorem quotedBody_cons (fuel : Nat) {c : Char} (rest : List Char) (hquote : c ≠ '"')
    (hbackslash : c ≠ '\\') (hreturn : c ≠ '\r') :
    quotedBody (fuel + 1) (c :: rest) = c :: quotedBody fuel rest := by
  rw [quotedBody]
  all_goals simp_all

theorem quotedBody_quotedChar (fuel : Nat) (c : Char) (rest : List Char) :
    quotedBody (fuel + 1) (Text.quotedChar c ++ rest) = c :: quotedBody fuel rest := by
  unfold Text.quotedChar
  split_ifs with hzero htab hreturn hnewline hquote hbackslash hinvisible
  · subst hzero
    rfl
  · subst htab
    rfl
  · subst hreturn
    rfl
  · subst hnewline
    rfl
  · subst hquote
    rfl
  · subst hbackslash
    rfl
  · exact quotedBody_codePoint fuel c rest
  · exact quotedBody_cons fuel rest hquote hbackslash hreturn

/-- What stands for a character in a literal is read as that character. -/
theorem quotedBody_literalChar (fuel : Nat) (c : Char) (next : Option Char) (rest : List Char) :
    quotedBody (fuel + 1) (Scanner.literalChar c next ++ rest) = c :: quotedBody fuel rest := by
  unfold Scanner.literalChar
  split
  · rename_i hzero
    subst hzero
    split <;> rfl
  · exact quotedBody_quotedChar fuel c rest

theorem length_le_literalChars (text : List Char) :
    text.length ≤ (Scanner.literalChars text).length := by
  induction text with
  | nil => exact Nat.zero_le _
  | cons c rest ih =>
      have hne : 0 < (Scanner.literalChar c rest.head?).length := by
        unfold Scanner.literalChar Text.quotedChar
        split_ifs <;> simp
      rw [Scanner.literalChars, List.length_append, List.length_cons]
      omega

theorem quotedBody_literalChars {text : List Char} {fuel : Nat} (h : text.length ≤ fuel) :
    quotedBody fuel (Scanner.literalChars text ++ ['"']) = text := by
  induction text generalizing fuel with
  | nil => cases fuel <;> rfl
  | cons c rest ih =>
      cases fuel with
      | zero => cases h
      | succ fuel =>
          rw [Scanner.literalChars, List.append_assoc, quotedBody_literalChar,
            ih (Nat.le_of_succ_le_succ h)]

end TextValue

/-- The literal for a text stands for that text. -/
theorem textValue?_textLiteral (text : String) :
    textValue? (Scanner.textLiteral text.toList) = some text := by
  have hlength : text.toList.length ≤ (Scanner.literalChars text.toList ++ ['"']).length := by
    rw [List.length_append]
    exact Nat.le_add_right_of_le (TextValue.length_le_literalChars _)
  rw [textValue?, Scanner.textLiteral, String.toList_ofList]
  simp only [TextValue.quotedBody_literalChars hlength, String.ofList_toList]

end Source

end Chronicle
