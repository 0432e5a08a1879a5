import Chronicle.Json.Reader
import Chronicle.Proofs.Text.Numeral

/-!
# JSON texts are read back

The compact text of a value that writers put together is read as that value, whatever characters its
names and texts hold and however deep it is nested.

## Implementation notes

Every piece is read with any text behind it, so that the reader of a larger piece can go on. Only a
number needs to know what follows it, because only a number has no end of its own. The text of a value
is at least as long as the fuel that reading it takes.
-/

namespace Chronicle

namespace Json

namespace Literal

/-- Whether the parts of a literal are digits, of which the whole part and a written exponent have one at
least, and a zero at the front of the whole part stands alone. -/
structure WellFormed (l : Literal) : Prop where
  whole : ∀ c ∈ l.whole, c.isDigit = true
  whole_ne_nil : l.whole ≠ []
  zero_alone : l.whole.head? = some '0' → l.whole.length = 1
  fraction : ∀ c ∈ l.fraction, c.isDigit = true
  exponent : ∀ e ∈ l.exponent, e.2 ≠ [] ∧ ∀ c ∈ e.2, c.isDigit = true

/-- The point and the digits after it, if there are any. -/
def fractionPart (digits : List Char) : List Char :=
  if digits.isEmpty then [] else '.' :: digits

/-- The letter of an exponent with its sign and its digits, if there is one; `plus` tells whether an
exponent without a minus sign has a plus sign. -/
def exponentPart (plus : Bool) : Option (Bool × List Char) → List Char
  | none => []
  | some (negative, digits) =>
    'e' :: ((if negative then ['-'] else if plus then ['+'] else []) ++ digits)

/-- The characters of a literal. -/
def spelling (plus : Bool) (l : Literal) : List Char :=
  (if l.negative then ['-'] else []) ++
    (l.whole ++ (fractionPart l.fraction ++ exponentPart plus l.exponent))

end Literal

/-- Whether a value is put together from constants, numbers, texts, arrays and objects. -/
inductive Written : Json → Prop
  | null : Written .null
  | bool (value : Bool) : Written (.bool value)
  | number {l : Literal} (h : l.WellFormed) (plus : Bool) : Written (.number (l.spelling plus))
  | text (text : String) : Written (.ofText text)
  | array {items : List Json} (h : ∀ item ∈ items, Written item) : Written (.array items)
  | members {members : List (String × Json)} (h : ∀ m ∈ members, Written m.2) :
      Written (.ofMembers members)

theorem Written.single {name : String} {value : Json} (h : value.Written) :
    (ofMembers [(name, value)]).Written :=
  .members (by simpa using h)

theorem Written.pair {first second : String} {a b : Json} (ha : a.Written) (hb : b.Written) :
    (ofMembers [(first, a), (second, b)]).Written :=
  .members (by simpa using ⟨ha, hb⟩)

/-! ## Numbers -/

namespace Literal

/-- Whether a number that stands before this text ends there. -/
def Ends (s : List Char) : Prop :=
  ∀ c ∈ s.head?, c.isDigit = false ∧ c ≠ '.' ∧ c ≠ 'e' ∧ c ≠ 'E'

theorem ends_nil : Ends [] := by simp [Ends]

theorem Ends.noDigit {s : List Char} (h : Ends s) : Text.NoDigit s := fun c hc => (h c hc).1

theorem exponent?_of_ends {s : List Char} (h : Ends s) : exponent? s = some (none, s) := by
  cases s with
  | nil => rfl
  | cons c s =>
      obtain ⟨-, -, he, hE⟩ := h c rfl
      unfold exponent?
      exact if_neg (not_or.mpr ⟨he, hE⟩)

theorem noDigit_cons {c : Char} (h : c.isDigit = false) (s : List Char) : Text.NoDigit (c :: s) := by
  simpa [Text.NoDigit] using h

/-- A point with its digits is read where no digit and no other point follows. -/
theorem fraction?_fractionPart {digits s : List Char} (h : ∀ c ∈ digits, c.isDigit = true)
    (hs : Text.NoDigit s) (hpoint : s.head? ≠ some '.') :
    fraction? (fractionPart digits ++ s) = some (digits, s) := by
  cases digits with
  | nil =>
      unfold fraction? fractionPart
      split
      · rename_i heq
        exact absurd (congrArg List.head? heq) hpoint
      · rfl
  | cons c digits =>
      show fraction? ('.' :: (c :: digits ++ s)) = _
      simp only [fraction?, Text.takeWhile_digits h hs, Text.dropWhile_digits h hs]
      rfl

/-- An exponent with its sign and its digits is read where the number ends behind it. -/
theorem exponent?_exponentPart {plus : Bool} {e : Option (Bool × List Char)}
    (h : ∀ x ∈ e, x.2 ≠ [] ∧ ∀ c ∈ x.2, c.isDigit = true) {s : List Char} (hs : Ends s) :
    exponent? (exponentPart plus e ++ s) = some (e, s) := by
  cases e with
  | none => exact exponent?_of_ends hs
  | some x =>
      obtain ⟨negative, digits⟩ := x
      obtain ⟨hne, hdigits⟩ := h _ rfl
      have hempty : digits.isEmpty = false := by simpa using hne
      have htake := Text.takeWhile_digits hdigits hs.noDigit
      have hdrop := Text.dropWhile_digits hdigits hs.noDigit
      cases negative with
      | true => simp [exponentPart, exponent?, htake, hdrop, hempty]
      | false =>
          cases plus with
          | true => simp [exponentPart, exponent?, htake, hdrop, hempty]
          | false =>
              have hminus : ∀ r, digits ++ s ≠ '-' :: r := Text.digits_append_ne hdigits hne rfl s
              have hplus : ∀ r, digits ++ s ≠ '+' :: r := Text.digits_append_ne hdigits hne rfl s
              simp [exponentPart, exponent?, htake, hdrop, hempty]

/-- No digit stands behind the whole part. -/
theorem noDigit_exponentPart (plus : Bool) (e : Option (Bool × List Char)) {s : List Char}
    (hs : Ends s) :
    Text.NoDigit (exponentPart plus e ++ s) ∧ (exponentPart plus e ++ s).head? ≠ some '.' := by
  cases e with
  | none => exact ⟨hs.noDigit, fun hpoint => (hs '.' hpoint).2.1 rfl⟩
  | some x => exact ⟨noDigit_cons rfl _, by simp [exponentPart]⟩

/-- A literal is read from its characters. -/
theorem WellFormed.read?_spelling {l : Literal} (h : l.WellFormed) (plus : Bool) {rest : List Char}
    (hrest : Ends rest) : read? (l.spelling plus ++ rest) = some (l, rest) := by
  obtain ⟨negative, whole, fraction, exponent⟩ := l
  obtain ⟨hwhole, hne, hzero, hfraction, hexponent⟩ := h
  dsimp only at hwhole hne hzero hfraction hexponent
  obtain ⟨hnoDigit, hpoint⟩ := noDigit_exponentPart plus exponent hrest
  have hbehind : Text.NoDigit (fractionPart fraction ++ (exponentPart plus exponent ++ rest)) := by
    unfold fractionPart
    split_ifs
    · exact hnoDigit
    · exact noDigit_cons rfl _
  have hstart : (whole.isEmpty || (whole.head? = some '0' && 1 < whole.length)) = false := by
    by_cases hhead : whole.head? = some '0'
    · simp [hne, hzero hhead]
    · simp [hne, hhead]
  have htake := Text.takeWhile_digits hwhole hbehind
  have hdrop := Text.dropWhile_digits hwhole hbehind
  have hdigits := fraction?_fractionPart hfraction hnoDigit hpoint
  have hsize : exponent? (exponentPart plus exponent ++ rest) = some (exponent, rest) :=
    exponent?_exponentPart hexponent hrest
  simp only [spelling, List.append_assoc]
  generalize fractionPart fraction ++ (exponentPart plus exponent ++ rest) = body at *
  cases negative with
  | true => simp [read?, htake, hdrop, hstart, hdigits, hsize]
  | false =>
      have hsign : ∀ s, whole ++ body ≠ '-' :: s := Text.digits_append_ne hwhole hne (by decide) body
      simp [read?, htake, hdrop, hstart, hdigits, hsize]

/-- The literal of an integer: its sign, if it is negative, and the digits of its size. -/
def ofInt (n : Int) : Literal := ⟨decide (n < 0), Nat.toDigits 10 n.natAbs, [], none⟩

/-- A numeral is a whole part: it has a digit, and a zero at its front stands alone. -/
theorem wellFormed_ofInt (n : Int) : (ofInt n).WellFormed where
  whole := fun _ => Text.isDigit_toDigits
  whole_ne_nil := Text.toDigits_ne_nil _
  zero_alone := fun hzero => by
    rw [ofInt, Text.head?_toDigits _ hzero]
    rfl
  fraction := List.forall_mem_nil _
  exponent := by simp [ofInt]

end Literal

theorem ofInt_eq (n : Int) : ofInt n = .number ((Literal.ofInt n).spelling false) := by
  by_cases h : n < 0
  · simp [ofInt, Literal.ofInt, Literal.spelling, Literal.fractionPart, Literal.exponentPart, h]
  · simp [ofInt, Literal.ofInt, Literal.spelling, Literal.fractionPart, Literal.exponentPart, h]

theorem Written.int (n : Int) : (ofInt n).Written :=
  ofInt_eq n ▸ .number (Literal.wellFormed_ofInt n) false

/-! ## Strings -/

namespace Reader

/-- The units behind a unit that has been read. -/
def behind (unit : StringUnit) (s : List Char) : Option (List StringUnit × List Char) :=
  (units? s).map fun (units, rest) => (unit :: units, rest)

theorem units?_letter {letter c : Char} (hletter : letter ≠ 'u') (h : escaped? letter = some c)
    (rest : List Char) : units? ('\\' :: letter :: rest) = behind (.char c) rest := by
  rw [units?, h, behind, Option.map_eq_bind]
  · rfl
  · exact fun _ _ _ _ _ heq => absurd heq hletter

theorem units?_code {code : Nat} (h : code < 32) (rest : List Char) :
    units? ('\\' :: 'u' :: (Text.hexPadded 4 code ++ rest)) =
      behind (.char (Char.ofNat code)) rest := by
  have hcode : Text.hexNumber? (Text.hexPadded 4 code) = some code :=
    Text.hexNumber?_hexPadded (by omega)
  have hunit : StringUnit.ofCode code = .char (Char.ofNat code) := if_neg (by omega)
  simp only [Text.hexPadded, List.nil_append, List.cons_append] at hcode ⊢
  rw [units?, hcode, behind, Option.map_eq_bind, ← hunit]
  rfl

theorem units?_plain {c : Char} (hquote : c ≠ '"') (hslash : c ≠ '\\') (h : ¬c.toNat < 32)
    (rest : List Char) : units? (c :: rest) = behind (.char c) rest := by
  rw [units?, if_neg h, behind]
  · exact hquote
  · exact fun _ _ _ _ _ heq => absurd heq hslash
  · exact fun _ _ heq => absurd heq hslash

/-- A character inside a string is read back, whether or not it is escaped. -/
theorem units?_escapeChar (c : Char) (rest : List Char) :
    units? (escapeChar c ++ rest) = behind (.char c) rest := by
  unfold escapeChar
  split_ifs with hquote hslash hback hfeed hline hreturn htab hcontrol
  · subst hquote
    exact units?_letter (by decide) rfl rest
  · subst hslash
    exact units?_letter (by decide) rfl rest
  · subst hback
    exact units?_letter (by decide) rfl rest
  · subst hfeed
    exact units?_letter (by decide) rfl rest
  · subst hline
    exact units?_letter (by decide) rfl rest
  · subst hreturn
    exact units?_letter (by decide) rfl rest
  · subst htab
    exact units?_letter (by decide) rfl rest
  · simpa using units?_code hcontrol rest
  · exact units?_plain hquote hslash hcontrol rest

/-- The characters of a text are read back up to the quote behind them. -/
theorem units?_text (text rest : List Char) :
    units? (text.flatMap escapeChar ++ '"' :: rest) = some (text.map .char, rest) := by
  induction text with
  | nil => rw [List.flatMap_nil, List.nil_append, units?, List.map_nil]
  | cons c text ih =>
      rw [List.flatMap_cons, List.append_assoc, units?_escapeChar, behind, ih]
      rfl

theorem pairUnits?_text (text : List Char) : pairUnits? (text.map .char) = some text := by
  induction text with
  | nil => rfl
  | cons c text ih => rw [List.map_cons, pairUnits?, ih, Option.map_some]

/-- What follows the opening quote of a text is read as that text. -/
theorem string?_text (text : String) (rest : List Char) :
    string? (text.toList.flatMap escapeChar ++ '"' :: rest) = some (some text, rest) := by
  simp only [string?, units?_text, Option.map_some, pairUnits?_text, String.ofList_toList]

end Reader

/-! ## The front of a text -/

/-- Whether a character may begin a number. -/
def BeginsNumber (c : Char) : Prop := c = '-' ∨ c.isDigit = true

theorem BeginsNumber.ne {c d : Char} (h : BeginsNumber c) (hsign : d ≠ '-') (hdigit : d.isDigit = false) :
    c ≠ d := by
  rintro rfl
  rcases h with rfl | h
  · exact hsign rfl
  · exact Bool.false_ne_true (hdigit.symm.trans h)

theorem Literal.WellFormed.exists_spelling {l : Literal} (h : l.WellFormed) (plus : Bool) :
    ∃ c rest, l.spelling plus = c :: rest ∧ BeginsNumber c := by
  obtain ⟨c, digits, hdigits⟩ := List.exists_cons_of_ne_nil h.whole_ne_nil
  have hdigit : c.isDigit = true := h.whole c (hdigits ▸ List.mem_cons_self)
  rw [spelling, hdigits]
  by_cases hnegative : l.negative
  · exact ⟨'-', _, by rw [if_pos hnegative]; rfl, .inl rfl⟩
  · exact ⟨c, _, by rw [if_neg hnegative]; rfl, .inr hdigit⟩

/-- Whether a text begins with no blank and no bracket that closes. -/
def Opens (s : List Char) : Prop :=
  ∃ c rest, s = c :: rest ∧ Reader.isBlank c = false ∧ c ≠ ']' ∧ c ≠ '\x7d'

theorem Opens.append {s : List Char} (h : Opens s) (rest : List Char) : Opens (s ++ rest) := by
  obtain ⟨c, tail, rfl, hc⟩ := h
  exact ⟨c, tail ++ rest, rfl, hc⟩

theorem Opens.skipBlanks {s : List Char} (h : Opens s) : Reader.skipBlanks s = s := by
  obtain ⟨c, rest, rfl, hc, -⟩ := h
  exact List.dropWhile_cons_of_neg (by simp [hc])

theorem opens_quote (text : String) : Opens (quote text) := ⟨'"', _, rfl, by decide⟩

theorem Written.opens {json : Json} (h : json.Written) : Opens json.render := by
  cases h with
  | null => exact ⟨'n', _, rfl, by decide⟩
  | bool value => cases value <;> exact ⟨_, _, rfl, by decide⟩
  | number h plus =>
      obtain ⟨c, rest, hrender, hc⟩ := h.exists_spelling plus
      have hne {d : Char} := hc.ne (d := d)
      refine ⟨c, rest, hrender, ?_, hne (by decide) (by decide), hne (by decide) (by decide)⟩
      simp [Reader.isBlank, hne]
  | text text => exact opens_quote text
  | array h => exact ⟨'[', _, rfl, by decide⟩
  | members h => exact ⟨'\x7b', _, rfl, by decide⟩

theorem Written.opens_items {item : Json} (h : item.Written) (rest : List Json) :
    Opens (renderItems (item :: rest)) := by
  cases rest with
  | nil => exact h.opens
  | cons next rest => exact h.opens.append _

theorem opens_members (name : Option String) (value : Json) (rest : List (Option String × Json)) :
    Opens (renderMembers ((name, value) :: rest)) := by
  cases rest with
  | nil => exact (opens_quote _).append _
  | cons next rest => exact (opens_quote _).append _

/-! ## Values -/

/-- Whether a value is read back from its text, whatever follows the text and however much fuel there is
beyond its length. -/
def ReadBack (json : Json) : Prop :=
  ∀ fuel rest, Literal.Ends rest → json.render.length ≤ fuel →
    Reader.value? fuel (json.render ++ rest) = some (json, rest)

theorem quote_append (text : String) (rest : List Char) :
    quote text ++ rest = '"' :: (text.toList.flatMap escapeChar ++ '"' :: rest) := by
  simp [quote]

theorem readBack_ofText (text : String) : (ofText text).ReadBack := by
  intro fuel rest _ hfuel
  cases fuel with
  | zero => exact absurd hfuel (by simp [ofText, render, quote])
  | succ fuel =>
      show Reader.value? (fuel + 1) (quote text ++ rest) = _
      rw [quote_append, Reader.value?, Reader.string?_text]
      rfl

/-- A text that begins like a number is read as one. -/
theorem value?_of_beginsNumber {c : Char} (h : BeginsNumber c) (fuel : Nat) (s : List Char) :
    Reader.value? (fuel + 1) (c :: s) = (Literal.read? (c :: s)).map fun (_, rest) =>
      (.number ((c :: s).take ((c :: s).length - rest.length)), rest) := by
  rw [Reader.value?]
  all_goals exact fun _ heq => h.ne (by decide) (by decide) (List.cons.inj heq).1

theorem readBack_number {l : Literal} (h : l.WellFormed) (plus : Bool) :
    (number (l.spelling plus)).ReadBack := by
  intro fuel rest hrest hfuel
  obtain ⟨c, tail, hspelling, hc⟩ := h.exists_spelling plus
  have hread := h.read?_spelling plus hrest
  rw [render] at hfuel ⊢
  cases fuel with
  | zero => exact absurd hfuel (by simp [hspelling])
  | succ fuel =>
      have hlength : (c :: tail ++ rest).length - rest.length = (c :: tail).length := by
        rw [List.length_append, Nat.add_sub_cancel]
      rw [hspelling] at hread ⊢
      rw [List.cons_append, value?_of_beginsNumber hc, ← List.cons_append, hread]
      simp only [Option.map_some, hlength, List.take_left]

theorem renderItems_cons_cons (item next : Json) (rest : List Json) :
    renderItems (item :: next :: rest) = item.render ++ ',' :: renderItems (next :: rest) := by
  rw [renderItems]
  exact List.cons_ne_nil _ _

/-- The items of an array are read up to the bracket behind them. -/
theorem items?_render {items : List Json} (h : ∀ item ∈ items, item.Written ∧ item.ReadBack)
    (hne : items ≠ []) (rest : List Char) :
    ∀ fuel, (renderItems items).length < fuel →
      Reader.items? fuel (renderItems items ++ ']' :: rest) = some (items, rest) := by
  induction items with
  | nil => exact absurd rfl hne
  | cons item items ih =>
      intro fuel hfuel
      obtain ⟨fuel, rfl⟩ := Nat.exists_eq_succ_of_ne_zero (Nat.ne_zero_of_lt hfuel)
      obtain ⟨_, hitem⟩ := h item List.mem_cons_self
      cases items with
      | nil =>
          have hfirst := hitem fuel (']' :: rest) (by simp [Literal.Ends]) (Nat.le_of_lt_succ hfuel)
          rw [renderItems, Reader.items?, hfirst]
          rfl
      | cons next items =>
          rw [renderItems_cons_cons, List.length_append, List.length_cons] at hfuel
          have hfirst := hitem fuel (',' :: (renderItems (next :: items) ++ ']' :: rest))
            (by simp [Literal.Ends]) (by omega)
          have hopens := (h next (by simp)).1.opens_items items
          have hrest := ih (fun i hi => h i (List.mem_cons_of_mem _ hi)) (List.cons_ne_nil _ _) fuel
            (by omega)
          rw [renderItems_cons_cons, List.append_assoc, List.cons_append, Reader.items?, hfirst]
          show (Reader.items? fuel
            (Reader.skipBlanks (renderItems (next :: items) ++ ']' :: rest))).bind _ = _
          rw [(hopens.append _).skipBlanks, hrest]
          rfl

/-- Members with their names as a reader finds them. -/
def named (members : List (String × Json)) : List (Option String × Json) :=
  members.map fun (name, value) => (some name, value)

theorem renderMembers_cons_cons (name : String) (value : Json) (next : Option String × Json)
    (rest : List (Option String × Json)) :
    renderMembers ((some name, value) :: next :: rest) =
      quote name ++ ':' :: (value.render ++ ',' :: renderMembers (next :: rest)) := by
  rw [renderMembers]
  · rfl
  · exact List.cons_ne_nil _ _

/-- A member is read up to what stands behind its value. -/
theorem members?_member {name : String} {value : Json} (hwritten : value.Written) {fuel : Nat}
    {rest : List Char} (hvalue : Reader.value? fuel (value.render ++ rest) = some (value, rest)) :
    Reader.members? (fuel + 1) (quote name ++ ':' :: (value.render ++ rest)) =
      match Reader.skipBlanks rest with
      | '\x7d' :: rest => some ([(some name, value)], rest)
      | ',' :: rest => (Reader.members? fuel (Reader.skipBlanks rest)).map fun (members, rest) =>
          ((some name, value) :: members, rest)
      | _ => none := by
  rw [quote_append, Reader.members?]
  show (Reader.string? (name.toList.flatMap escapeChar ++ '"' :: _)).bind _ = _
  rw [Reader.string?_text]
  show (Reader.value? fuel (Reader.skipBlanks (value.render ++ rest))).bind _ = _
  rw [(hwritten.opens.append rest).skipBlanks, hvalue]
  simp only [Option.map_eq_bind]
  rfl

/-- The members of an object are read up to the brace behind them. -/
theorem members?_render {members : List (String × Json)}
    (h : ∀ m ∈ members, m.2.Written ∧ m.2.ReadBack) (hne : members ≠ []) (rest : List Char) :
    ∀ fuel, (renderMembers (named members)).length < fuel →
      Reader.members? fuel (renderMembers (named members) ++ '\x7d' :: rest) =
        some (named members, rest) := by
  induction members with
  | nil => exact absurd rfl hne
  | cons member members ih =>
      intro fuel hfuel
      obtain ⟨fuel, rfl⟩ := Nat.exists_eq_succ_of_ne_zero (Nat.ne_zero_of_lt hfuel)
      obtain ⟨name, value⟩ := member
      obtain ⟨hwritten, hvalue⟩ : value.Written ∧ value.ReadBack := h _ List.mem_cons_self
      cases members with
      | nil =>
          have hrender : renderMembers (named [(name, value)]) = quote name ++ ':' :: value.render := rfl
          rw [hrender, List.length_append, List.length_cons] at hfuel
          have hfirst := hvalue fuel ('\x7d' :: rest) (by simp [Literal.Ends]) (by omega)
          rw [hrender, List.append_assoc, List.cons_append, members?_member hwritten hfirst]
          rfl
      | cons next members =>
          have hrender : renderMembers (named ((name, value) :: next :: members)) =
              quote name ++ ':' :: (value.render ++ ',' :: renderMembers (named (next :: members))) :=
            renderMembers_cons_cons _ _ _ _
          simp only [hrender, List.length_append, List.length_cons] at hfuel
          have hfirst := hvalue fuel (',' :: (renderMembers (named (next :: members)) ++ '\x7d' :: rest))
            (by simp [Literal.Ends]) (by omega)
          have hopens : Opens (renderMembers (named (next :: members))) := opens_members _ _ _
          have hrest := ih (fun m hm => h m (List.mem_cons_of_mem _ hm)) (List.cons_ne_nil _ _) fuel
            (by omega)
          rw [hrender, List.append_assoc, List.cons_append, List.append_assoc, List.cons_append,
            members?_member hwritten hfirst]
          show (Reader.members? fuel (Reader.skipBlanks (renderMembers (named (next :: members)) ++
            '\x7d' :: rest))).map _ = _
          rw [(hopens.append _).skipBlanks, hrest]
          rfl

theorem value?_array_of_opens {s : List Char} (h : Opens s) (fuel : Nat) :
    Reader.value? (fuel + 1) ('[' :: s) =
      (Reader.items? fuel s).map fun (items, rest) => (.array items, rest) := by
  rw [Reader.value?, h.skipBlanks]
  obtain ⟨c, rest, rfl, -, hbracket, -⟩ := h
  split
  · exact absurd (List.cons.inj ‹_›).1 hbracket
  · rfl

theorem value?_object_of_opens {s : List Char} (h : Opens s) (fuel : Nat) :
    Reader.value? (fuel + 1) ('\x7b' :: s) =
      (Reader.members? fuel s).map fun (members, rest) => (.object members, rest) := by
  rw [Reader.value?, h.skipBlanks]
  obtain ⟨c, rest, rfl, -, -, hbrace⟩ := h
  split
  · exact absurd (List.cons.inj ‹_›).1 hbrace
  · rfl

theorem readBack_array {items : List Json} (h : ∀ item ∈ items, item.Written ∧ item.ReadBack) :
    (array items).ReadBack := by
  intro fuel rest _ hfuel
  simp only [render, List.length_cons, List.length_append, List.length_nil] at hfuel
  obtain ⟨fuel, rfl⟩ := Nat.exists_eq_add_of_le' (show 1 ≤ fuel by omega)
  cases items with
  | nil => rfl
  | cons item items =>
      have hopens := (h item List.mem_cons_self).1.opens_items items
      rw [render, List.cons_append, List.append_assoc, value?_array_of_opens (hopens.append _),
        List.singleton_append, items?_render h (List.cons_ne_nil _ _) rest fuel (by omega)]
      rfl

theorem readBack_ofMembers {members : List (String × Json)}
    (h : ∀ m ∈ members, m.2.Written ∧ m.2.ReadBack) : (ofMembers members).ReadBack := by
  intro fuel rest _ hfuel
  simp only [ofMembers, render, List.length_cons, List.length_append, List.length_nil] at hfuel
  obtain ⟨fuel, rfl⟩ := Nat.exists_eq_add_of_le' (show 1 ≤ fuel by omega)
  cases members with
  | nil => rfl
  | cons member members =>
      have hopens : Opens (renderMembers (named (member :: members))) := opens_members _ _ _
      show Reader.value? (fuel + 1) ('\x7b' :: (renderMembers (named (member :: members)) ++ ['\x7d'] ++
        rest)) = some (.object (named (member :: members)), rest)
      rw [List.append_assoc, value?_object_of_opens (hopens.append _), List.singleton_append,
        members?_render h (List.cons_ne_nil _ _) rest fuel (Nat.lt_of_succ_lt_succ hfuel)]
      rfl

theorem readBack_constant {json : Json} {c : Char} {word : List Char} (hrender : json.render = c :: word)
    (hread : ∀ fuel rest, Reader.value? (fuel + 1) (c :: word ++ rest) = some (json, rest)) :
    json.ReadBack := by
  intro fuel rest _ hfuel
  rw [hrender, List.length_cons] at hfuel
  obtain ⟨fuel, rfl⟩ := Nat.exists_eq_add_of_le' (show 1 ≤ fuel by omega)
  rw [hrender, hread]

/-- Every value that writers put together is read back from its text. -/
theorem Written.readBack {json : Json} (h : json.Written) : json.ReadBack := by
  induction h with
  | null => exact readBack_constant rfl fun _ _ => rfl
  | bool value => cases value <;> exact readBack_constant rfl fun _ _ => rfl
  | number h plus => exact readBack_number h plus
  | text text => exact readBack_ofText text
  | array h ih => exact readBack_array fun item hitem => ⟨h item hitem, ih item hitem⟩
  | members h ih => exact readBack_ofMembers fun m hm => ⟨h m hm, ih m hm⟩

/-- A value that writers put together is read back from its whole text. -/
theorem Written.ofText?_text {json : Json} (h : json.Written) : ofText? json.text = some json := by
  have hread := h.readBack (2 * json.render.length + 2) [] Literal.ends_nil (by omega)
  rw [List.append_nil] at hread
  simp only [ofText?, Json.text, String.toList_ofList, h.opens.skipBlanks, hread]
  rfl

end Json

end Chronicle
