import Chronicle.Proofs.Text.Numeral
import Chronicle.Proofs.Time.Calendar
import Chronicle.Time.Reader

/-!
# Instants are read back

The text of an instant names that instant, if its year has four digits, and some instant, if its year is in
the range of instants.

## Implementation notes

Every field is read with any text behind it. The reader is more lenient than the writer, so that each
step also says that nothing is skipped: no field begins with a blank.
-/

namespace Chronicle

namespace Time

namespace Reader

theorem isBlank_digit {c : Char} (h : c.isDigit = true) : isBlank c = false := by
  obtain ⟨hmin, hmax⟩ := Text.toNat_of_isDigit h
  rw [← Char.ofNat_toNat c]
  generalize c.toNat = code at *
  interval_cases code <;> rfl

theorem skipBlanks_digits {digits rest : List Char} (h : ∀ c ∈ digits, c.isDigit = true)
    (hne : digits ≠ []) : skipBlanks (digits ++ rest) = digits ++ rest := by
  obtain ⟨c, digits, rfl⟩ := List.exists_cons_of_ne_nil hne
  exact List.dropWhile_cons_of_neg (by simp [isBlank_digit (h c List.mem_cons_self)])

theorem skipBlanks_decimalPadded (width n : Nat) (rest : List Char) :
    skipBlanks (Text.decimalPadded width n ++ rest) = Text.decimalPadded width n ++ rest :=
  skipBlanks_digits (fun _ => Text.isDigit_decimalPadded) (Text.decimalPadded_ne_nil width n)

/-- A number is read from the digits that stand at the front, if there are not too many of them. -/
theorem number?_digits {digits rest : List Char} {width : Nat} (h : ∀ c ∈ digits, c.isDigit = true)
    (hne : digits ≠ []) (hlength : digits.length ≤ width)
    (hrest : digits.length < width → Text.NoDigit rest) :
    number? width (digits ++ rest) = some (Text.decimalValue digits, rest) := by
  have hdigits := Text.takeWhile_take rest h hlength hrest
  have hempty : digits.isEmpty = false := by simpa using hne
  simp only [number?, hdigits, hempty, List.drop_left]
  rfl

/-- A number is read from exactly as many digits as it may have. -/
theorem number?_decimalPadded {width n : Nat} (hwidth : 0 < width) (h : n < 10 ^ width)
    (rest : List Char) :
    number? width (Text.decimalPadded width n ++ rest) = some (n, rest) := by
  have hlength := Text.length_decimalPadded hwidth h
  rw [number?_digits (fun _ => Text.isDigit_decimalPadded) (Text.decimalPadded_ne_nil width n)
    hlength.le fun hlt => absurd hlength hlt.ne, Text.decimalValue_decimalPadded]

theorem field?_decimalPadded {n : Nat} (h : n < 100) (rest : List Char) :
    field? 2 (Text.decimalPadded 2 n ++ rest) = some (n, rest) := by
  rw [field?, skipBlanks_decimalPadded, number?_decimalPadded (by decide) h]

theorem separator?_cons {c : Char} (h : isBlank c = false) (rest : List Char) :
    separator? c (c :: rest) = some rest := by
  rw [separator?, skipBlanks, List.dropWhile_cons_of_neg (by simp [h]), literal?, if_pos rfl]

/-- A year is read from its text: four digits, or a sign and any number of digits. -/
theorem year?_yearText (year : Int) {rest : List Char} (hrest : Text.NoDigit rest) :
    year? (Instant.yearText year ++ rest) = some (year, rest) := by
  have hsigned : number? (Text.decimalPadded 4 year.natAbs ++ rest).length
      (Text.decimalPadded 4 year.natAbs ++ rest) = some (year.natAbs, rest) := by
    rw [number?_digits (fun _ => Text.isDigit_decimalPadded) (Text.decimalPadded_ne_nil 4 year.natAbs)
      (by simp) fun _ => hrest, Text.decimalValue_decimalPadded]
  unfold Instant.yearText
  split_ifs with hrange hneg
  · obtain ⟨hmin, hmax⟩ := hrange
    have hbound : year.toNat < 10 ^ 4 := by omega
    have hread := number?_decimalPadded (by decide) hbound rest
    have hsign : ∀ c, c.isDigit = false → ∀ s, Text.decimalPadded 4 year.toNat ++ rest ≠ c :: s :=
      fun c hc => Text.digits_append_ne (fun _ => Text.isDigit_decimalPadded)
        (Text.decimalPadded_ne_nil 4 year.toNat) hc rest
    rw [year?, skipBlanks_decimalPadded]
    split
    · exact absurd ‹_› (hsign '-' rfl _)
    · exact absurd ‹_› (hsign '+' rfl _)
    · rw [hread]
      simp [hmin]
  · have hvalue : -(year.natAbs : Int) = year := by omega
    exact (congrArg (Option.map _) hsigned).trans (congrArg (fun n => some (n, rest)) hvalue)
  · have hvalue : (year.natAbs : Int) = year := by omega
    exact (congrArg (Option.map _) hsigned).trans (congrArg (fun n => some (n, rest)) hvalue)

/-- A fraction of a second is read as its nanoseconds. -/
theorem fraction?_digits {width n : Nat} (hwidth : 0 < width) (hmax : width ≤ 9) (h : n < 10 ^ width)
    {rest : List Char} (hrest : Text.NoDigit rest) :
    fraction? ('.' :: (Text.decimalPadded width n ++ rest)) =
      some (n * Nat.pow 10 (9 - width), rest) := by
  have hlength := Text.length_decimalPadded hwidth h
  have hdigits := Text.takeWhile_take rest (fun _ => Text.isDigit_decimalPadded)
    (hlength.trans_le hmax) fun _ => hrest
  have hne : (Text.decimalPadded width n).isEmpty = false := by
    simpa using Text.decimalPadded_ne_nil width n
  have hempty : ∀ c ∈ ([] : List Char), c.isDigit = true := by simp
  have hdrop : rest.dropWhile Char.isDigit = rest := Text.dropWhile_digits hempty hrest
  simp only [fraction?, hdigits, hne, List.drop_left, Text.decimalValue_decimalPadded, hdrop]
  simp [hlength]

theorem fraction?_fractionText {nanoseconds : Nat} (h : nanoseconds < secondNanoseconds)
    {rest : List Char} (hrest : Text.NoDigit rest) (hpoint : rest.head? ≠ some '.') :
    fraction? (Instant.fractionText nanoseconds ++ rest) = some (nanoseconds, rest) := by
  have hbound : nanoseconds < 1000000000 := h
  unfold Instant.fractionText
  split_ifs with hzero hmillis hmicros
  · rw [List.nil_append, hzero]
    unfold fraction?
    split
    · exact absurd rfl hpoint
    · rfl
  · rw [List.cons_append, fraction?_digits (by decide) (by decide) (by omega) hrest,
      show nanoseconds / 1000000 * Nat.pow 10 (9 - 3) = nanoseconds from
        Nat.div_mul_cancel (Nat.dvd_of_mod_eq_zero hmillis)]
  · rw [List.cons_append, fraction?_digits (by decide) (by decide) (by omega) hrest,
      show nanoseconds / 1000 * Nat.pow 10 (9 - 6) = nanoseconds from
        Nat.div_mul_cancel (Nat.dvd_of_mod_eq_zero hmicros)]
  · rw [List.cons_append, fraction?_digits (by decide) (by decide) hbound hrest,
      show nanoseconds * Nat.pow 10 (9 - 9) = nanoseconds from Nat.mul_one _]

end Reader

namespace Instant

/-- The text of a date and a time of day. -/
def clockText (date : Date) (hour minute second nanoseconds : Nat) : List Char :=
  let two := Text.decimalPadded 2
  yearText date.year ++ '-' :: (two date.month ++ '-' :: (two date.day ++
    'T' :: (two hour ++ ':' :: (two minute ++ ':' :: (two second ++
      (fractionText nanoseconds ++ ['Z']))))))

/-- A time of day is read from its text, if its year is in the range of instants; the second `60` is a
leap second. -/
theorem ofText?_clockText_eq {days : Int} {hour minute second nanoseconds : Nat}
    (hhour : hour < 24) (hminute : minute < 60) (hsecond : second ≤ 60)
    (hnanoseconds : nanoseconds < secondNanoseconds) :
    ofText? (String.ofList (clockText (Date.ofDays days) hour minute second nanoseconds)) =
      if Reader.yearRange.1 ≤ (Date.ofDays days).year ∧ (Date.ofDays days).year ≤ Reader.yearRange.2 then
        some ⟨86400 * days + (3600 * hour + 60 * minute + if second = 60 then 59 else second : Nat),
          if second = 60 then nanoseconds + secondNanoseconds else nanoseconds⟩
      else none := by
  have hvalid := Date.isValid_ofDays days
  have hdays := Date.toDays_ofDays days
  obtain ⟨hmonth, hday⟩ := Date.lt_of_isValid hvalid
  have hdash := Reader.separator?_cons (c := '-') rfl
  have hcolon := Reader.separator?_cons (c := ':') rfl
  have hend : Text.NoDigit ['Z'] := by simp [Text.NoDigit]
  have hfraction := Reader.fraction?_fractionText hnanoseconds hend (by simp)
  have hyear (s : List Char) := Reader.year?_yearText (Date.ofDays days).year
    (show Text.NoDigit ('-' :: s) by simp [Text.NoDigit])
  have hbind {α β : Type} {x : Option α} {a : α} (hx : x = some a) (f : α → Option β) :
      x.bind f = f a := by rw [hx, Option.bind_some]
  rw [ofText?, String.toList_ofList]
  refine (hbind (hyear _) _).trans ?_
  refine (hbind (hdash _) _).trans ?_
  refine (hbind (Reader.field?_decimalPadded hmonth _) _).trans ?_
  refine (hbind (hdash _) _).trans ?_
  refine (hbind (Reader.field?_decimalPadded hday _) _).trans ?_
  refine (hbind (Reader.field?_decimalPadded (by omega) _) _).trans ?_
  refine (hbind (hcolon _) _).trans ?_
  refine (hbind (Reader.field?_decimalPadded (by omega) _) _).trans ?_
  refine (hbind (hcolon _) _).trans ?_
  refine (hbind (Reader.field?_decimalPadded (by omega) _) _).trans ?_
  refine (hbind hfraction _).trans ?_
  have hclock : (3600 * hour + 60 * minute + if second = 60 then 59 else second) < 86400 := by
    split <;> omega
  have hsame : (86400 * days +
      (3600 * hour + 60 * minute + if second = 60 then 59 else second : Nat)) / 86400 = days := by
    omega
  refine (hbind (show Reader.offset? (Reader.skipBlanks ['Z']) = some (0, []) from rfl) _).trans ?_
  by_cases hrange : Reader.yearRange.1 ≤ (Date.ofDays days).year ∧
      (Date.ofDays days).year ≤ Reader.yearRange.2
  · rw [if_pos hrange]
    simp only [hdays, hvalid, hsame, hrange, hhour, hminute, hsecond, Int.sub_zero]
    rfl
  · rw [if_neg hrange]
    simp only [Bool.and_eq_true, decide_eq_true_eq]
    rw [if_neg fun h => hrange ⟨h.1.2, h.2⟩]

/-- A time of day in a year of the range is read from its text. -/
theorem ofText?_clockText {days : Int} {hour minute second nanoseconds : Nat}
    (hmin : Reader.yearRange.1 ≤ (Date.ofDays days).year)
    (hmax : (Date.ofDays days).year ≤ Reader.yearRange.2)
    (hhour : hour < 24) (hminute : minute < 60) (hsecond : second ≤ 60)
    (hnanoseconds : nanoseconds < secondNanoseconds) :
    ofText? (String.ofList (clockText (Date.ofDays days) hour minute second nanoseconds)) =
      some ⟨86400 * days + (3600 * hour + 60 * minute + if second = 60 then 59 else second : Nat),
        if second = 60 then nanoseconds + secondNanoseconds else nanoseconds⟩ :=
  (ofText?_clockText_eq hhour hminute hsecond hnanoseconds).trans (if_pos ⟨hmin, hmax⟩)

/-- The second of a minute that a text shows: a leap second is the second `60`. -/
def shownSecond (second nanoseconds : Nat) : Nat :=
  if secondNanoseconds ≤ nanoseconds then second % 60 + 1 else second % 60

theorem text_letter (i : Instant) :
    i.text .letter = String.ofList (clockText (Date.ofDays (i.seconds / 86400))
      ((i.seconds % 86400).toNat / 3600) ((i.seconds % 86400).toNat / 60 % 60)
      (shownSecond (i.seconds % 86400).toNat i.nanoseconds) (i.nanoseconds % secondNanoseconds)) := by
  simp [text, shownSecond, clockText]

theorem shownSecond_le (second nanoseconds : Nat) : shownSecond second nanoseconds ≤ 60 := by
  rw [shownSecond]
  split <;> omega

/-- Whether an instant lies in a year that instants may lie in. -/
def InRange (i : Instant) : Prop :=
  Reader.yearRange.1 ≤ (Date.ofDays (i.seconds / 86400)).year ∧
    (Date.ofDays (i.seconds / 86400)).year ≤ Reader.yearRange.2

instance (i : Instant) : Decidable i.InRange := inferInstanceAs (Decidable (_ ∧ _))

/-- The text of an instant names an instant exactly if the year is in range. -/
theorem isSome_ofText?_text (i : Instant) : (ofText? (i.text .letter)).isSome = true ↔ i.InRange := by
  rw [text_letter, ofText?_clockText_eq (by omega) (by omega) (shownSecond_le _ _)
    (Nat.mod_lt _ (by decide)), Option.isSome_ite]
  rfl

/-- Whether the text of an instant names it: the year has four digits, and only the last second of a
minute is followed by a leap second. -/
structure Portable (i : Instant) : Prop where
  year_min : 0 ≤ (Date.ofDays (i.seconds / 86400)).year
  year_max : (Date.ofDays (i.seconds / 86400)).year ≤ 9999
  nanoseconds_lt : i.nanoseconds < 2 * secondNanoseconds
  leap : secondNanoseconds ≤ i.nanoseconds → i.seconds % 60 = 59

/-- An instant is read back from its text. -/
theorem Portable.ofText?_text {i : Instant} (h : i.Portable) : ofText? (i.text .letter) = some i := by
  obtain ⟨hmin, hmax, hsize, hlast⟩ := h
  obtain ⟨seconds, nanoseconds⟩ := i
  have hbillion : secondNanoseconds = 1000000000 := rfl
  have hsecond := shownSecond_le (seconds % 86400).toNat nanoseconds
  rw [text_letter, ofText?_clockText (le_trans (by decide) hmin) (le_trans hmax (by decide))
    (by omega) (by omega) hsecond (Nat.mod_lt _ (by decide)), Option.some.injEq, Instant.mk.injEq]
  dsimp only at *
  rw [hbillion]
  by_cases hleap : secondNanoseconds ≤ nanoseconds
  · have hlast := hlast hleap
    have hshown : shownSecond (seconds % 86400).toNat nanoseconds = 60 := by
      rw [shownSecond, if_pos hleap]
      omega
    rw [if_pos hshown, if_pos hshown]
    omega
  · have hshown : shownSecond (seconds % 86400).toNat nanoseconds = (seconds % 86400).toNat % 60 :=
      if_neg hleap
    rw [hshown, if_neg (by omega), if_neg (by omega)]
    omega

end Instant

end Time

end Chronicle
