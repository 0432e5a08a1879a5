import Chronicle.Enhance.Options
import Chronicle.Proofs.Source.Opening

/-!
# Elements of lists of options

A list of options is cut at its commas into elements, and some elements write settings: a flag, or a
text for a key. An element that writes a setting is read as the option that says it, and only such
elements are.

## Implementation notes

Tokens are cut before anything is known about their elements, so that what a list says can be stated,
and evaluated, without the reader of attributes.
-/

namespace Chronicle

namespace Enhance

open Source

/-! ## Settings -/

/-- What one option says: it sets a flag, or it gives a text to a key. -/
inductive Setting where
  | flag (name : String)
  | text (key value : String)
deriving DecidableEq, Repr

namespace Setting

/-- The name of the flag or of the key. -/
def key : Setting → String
  | .flag name => name
  | .text key _ => key

/-- The text that a setting gives to a key, if it gives one. -/
def textFor? (key : String) : Setting → Option String
  | .text k value => if k = key then some value else none
  | .flag _ => none

/-- The setting that tokens write: a word, or a word, a sign of equality and a text literal. -/
def ofTokens? : Tokens → Option Setting
  | [.word name] => some (.flag name)
  | [.word key, .punct '=' _, .literal literal] => (textValue? literal).map (.text key)
  | _ => none

/-- The setting that an option is, once it has been read. -/
def ofMeta? (option : Meta) : Option Setting :=
  match onlyWord? option.path, option.body with
  | some name, .bare => some (.flag name)
  | some key, .value [.literal literal] => (textValue? literal).map (.text key)
  | _, _ => none

end Setting

/-- The last text that is given to a key. -/
def lastText (key : String) (settings : List Setting) : Option String :=
  (settings.filterMap (Setting.textFor? key)).getLast?

/-! ## Elements -/

/-- How many groups are open after a token. -/
def depthAfter : Nat → Source.Token → Nat
  | depth, .opened _ => depth + 1
  | depth, .closed _ => depth - 1
  | depth, _ => depth

/-- The parts of tokens between the commas that stand in no group, given how many are open. -/
def parts : Nat → Tokens → List Tokens
  | _, [] => [[]]
  | 0, .punct ',' _ :: rest => [] :: parts 0 rest
  | depth, token :: rest => (parts (depthAfter depth token) rest).modifyHead (token :: ·)

/-- The elements of a list: its parts, but not an empty one at the end. -/
def elements (tokens : Tokens) : List Tokens :=
  if (parts 0 tokens).getLast? = some [] then (parts 0 tokens).dropLast else parts 0 tokens

/-- The tokens in the arguments of an attribute, if it has any. -/
def content? (a : Attribute) : Option Tokens :=
  match a.said.body with
  | .arguments _ content => some content
  | _ => none

/-- The elements of all options of entities, if each attribute for them has arguments. -/
def elementSequence? (attributes : List Attribute) : Option (List Tokens) :=
  ((attributes.filter (·.name? = some entityAttribute)).mapM content?).map (·.flatMap elements)

/-- What all options of entities say. -/
def settings? (attributes : List Attribute) : Option (List Setting) :=
  (elementSequence? attributes).bind (·.mapM Setting.ofTokens?)

/-- Whether tokens are one element: they are not empty, close their groups and have no comma outside
of them. -/
def IsElement (tokens : Tokens) : Prop :=
  elements tokens = [tokens] ∧ tokens.foldl depthAfter 0 = 0

/-- The attribute with the given elements. -/
def listed (sequence : List Tokens) : Attribute where
  inner := false
  said :=
    { path := [.word entityAttribute]
      body := .arguments .paren ((operator [',']).intercalate sequence) }

/-- Whether elements are other ones in another order, which keeps those of one key in theirs. -/
inductive Reordered : List Tokens → List Tokens → Prop where
  | refl (sequence : List Tokens) : Reordered sequence sequence
  | swap (before after : List Tokens) {a b : Tokens}
    (h : ∀ x y, Setting.ofTokens? a = some x → Setting.ofTokens? b = some y → x.key ≠ y.key) :
    Reordered (before ++ a :: b :: after) (before ++ b :: a :: after)
  | trans {first second third : List Tokens} :
    Reordered first second → Reordered second third → Reordered first third

/-- Whether nothing or a comma stands at the front. -/
def AtComma (tokens : Tokens) : Prop :=
  tokens = [] ∨ ∃ joined rest, tokens = .punct ',' joined :: rest

theorem parts_ne_nil (depth : Nat) (tokens : Tokens) : parts depth tokens ≠ [] := by
  fun_induction parts depth tokens <;> simp_all

/-- Either there is no comma to cut at, or the first part is what stands before the first one. -/
theorem parts_cases (depth : Nat) (tokens : Tokens) :
    parts depth tokens = [tokens] ∨
      ∃ element joined rest, tokens = element ++ .punct ',' joined :: rest ∧
        parts depth tokens = element :: parts 0 rest := by
  fun_induction parts depth tokens with
  | case1 => exact Or.inl rfl
  | case2 joined rest => exact Or.inr ⟨[], joined, rest, rfl, rfl⟩
  | case3 depth token rest _ ih =>
      rcases ih with hwhole | ⟨element, joined, last, hrest, hparts⟩
      · left
        rw [hwhole]
        rfl
      · refine Or.inr ⟨token :: element, joined, last, ?_, ?_⟩
        · rw [hrest, List.cons_append]
        · rw [hparts]
          rfl

theorem elements_of_parts {first : Tokens} {tokens rest : Tokens}
    (h : parts 0 tokens = first :: parts 0 rest) : elements tokens = first :: elements rest := by
  obtain ⟨part, more, hmore⟩ := List.exists_cons_of_ne_nil (parts_ne_nil 0 rest)
  rw [elements, elements, h, hmore, List.getLast?_cons_cons, List.dropLast_cons_cons]
  split <;> rfl

/-- A comma after closed groups ends the first part. -/
theorem parts_append {depth : Nat} {element : Tokens} (h : parts depth element = [element])
    (hclosed : element.foldl depthAfter depth = 0) (joined : Bool) (rest : Tokens) :
    parts depth (element ++ .punct ',' joined :: rest) = element :: parts 0 rest := by
  fun_induction parts depth element with
  | case1 =>
      cases hclosed
      rfl
  | case2 => cases h
  | case3 depth token element hcomma ih =>
      obtain ⟨first, more, hparts⟩ := List.exists_cons_of_ne_nil (parts_ne_nil _ element)
      rw [hparts, List.modifyHead_cons, List.cons.injEq, List.cons.injEq] at h
      obtain ⟨⟨-, rfl⟩, rfl⟩ := h
      rw [List.cons_append, parts, ih hparts hclosed]
      · rfl
      · exact hcomma

namespace IsElement

variable {element : Tokens}

theorem parts_eq (h : IsElement element) : parts 0 element = [element] := by
  rcases parts_cases 0 element with hwhole | ⟨first, joined, rest, helement, hparts⟩
  · exact hwhole
  · have hfirst := h.1
    rw [elements_of_parts hparts, List.cons.injEq] at hfirst
    have hlength := congrArg List.length helement
    rw [← hfirst.1] at hlength
    simp at hlength

end IsElement

theorem elements_intercalate {sequence : List Tokens} (h : ∀ e ∈ sequence, IsElement e) :
    elements ((operator [',']).intercalate sequence) = sequence := by
  induction sequence with
  | nil => rfl
  | cons element sequence ih =>
      obtain ⟨helement, hsequence⟩ := List.forall_mem_cons.mp h
      cases sequence with
      | nil =>
          rw [List.intercalate_singleton]
          exact helement.1
      | cons next more =>
          rw [List.intercalate_cons_cons, List.append_assoc]
          refine (elements_of_parts (parts_append helement.parts_eq helement.2 false _)).trans ?_
          exact congrArg (element :: ·) (ih hsequence)

/-- A list that is not empty has a first element, which ends at a comma or at the end. -/
theorem elements_first {tokens : Tokens} (h : tokens ≠ []) :
    ∃ element rest, tokens = element ++ rest ∧ AtComma rest ∧
      elements tokens = element :: elements (rest.drop 1) := by
  rcases parts_cases 0 tokens with hwhole | ⟨element, joined, rest, htokens, hparts⟩
  · refine ⟨tokens, [], (List.append_nil _).symm, Or.inl rfl, ?_⟩
    rw [elements, hwhole]
    simp [h, elements, parts]
  · exact ⟨element, _, htokens, Or.inr ⟨joined, rest, rfl⟩, elements_of_parts hparts⟩

/-- What writes a setting contains no comma. -/
theorem elements_setting {written rest : Tokens} {setting : Setting}
    (h : Setting.ofTokens? written = some setting) (hrest : AtComma rest) :
    elements (written ++ rest) = written :: elements (rest.drop 1) := by
  unfold Setting.ofTokens? at h
  split at h
  · rcases hrest with rfl | ⟨joined, rest, rfl⟩
    · rfl
    · exact elements_of_parts rfl
  · rcases hrest with rfl | ⟨joined, rest, rfl⟩
    · rfl
    · exact elements_of_parts rfl
  · cases h

/-! ## Attributes -/

theorem elementSequence?_cons {a : Attribute} (h : a.name? = some entityAttribute)
    (attributes : List Attribute) :
    elementSequence? (a :: attributes) =
      (content? a).bind fun content =>
        (elementSequence? attributes).map (elements content ++ ·) := by
  rw [elementSequence?, elementSequence?, List.filter_cons_of_pos (by simp [h]), List.mapM_cons]
  cases content? a with
  | none => rfl
  | some content =>
      cases (attributes.filter (·.name? = some entityAttribute)).mapM content? <;> rfl

theorem elementSequence?_other {a : Attribute} (h : a.name? ≠ some entityAttribute)
    (attributes : List Attribute) :
    elementSequence? (a :: attributes) = elementSequence? attributes := by
  rw [elementSequence?, elementSequence?, List.filter_cons_of_neg (by simp [h])]

theorem elementSequence?_append (before after : List Attribute) :
    elementSequence? (before ++ after) =
      (elementSequence? before).bind fun sequence =>
        (elementSequence? after).map (sequence ++ ·) := by
  rw [elementSequence?, elementSequence?, elementSequence?, List.filter_append, List.mapM_append]
  cases (before.filter (·.name? = some entityAttribute)).mapM content? with
  | none => rfl
  | some front =>
      cases (after.filter (·.name? = some entityAttribute)).mapM content? with
      | none => rfl
      | some back => exact congrArg some List.flatMap_append

theorem elementSequence?_listed {sequence : List Tokens} (h : ∀ e ∈ sequence, IsElement e)
    (attributes : List Attribute) :
    elementSequence? (listed sequence :: attributes) =
      (elementSequence? attributes).map (sequence ++ ·) := by
  have hcontent : content? (listed sequence) = some ((operator [',']).intercalate sequence) := rfl
  rw [elementSequence?_cons (a := listed sequence) rfl, hcontent, Option.bind_some,
    elements_intercalate h]

theorem ofAttributes_cons {a : Attribute} (h : a.name? = some entityAttribute)
    (attributes : List Attribute) :
    OptionList.ofAttributes entityAttribute (a :: attributes) = do
      return (← OptionList.ofMeta entityAttribute a.said) ++
        (← OptionList.ofAttributes entityAttribute attributes) := by
  rw [OptionList.ofAttributes, OptionList.ofAttributes, List.filter_cons_of_pos (by simp [h]),
    List.mapM_cons]
  cases OptionList.ofMeta entityAttribute a.said with
  | error cause => rfl
  | ok options =>
      cases (attributes.filter (·.name? = some entityAttribute)).mapM fun a =>
          OptionList.ofMeta entityAttribute a.said with
      | error cause => rfl
      | ok lists => rfl

theorem ofAttributes_other {a : Attribute} (h : a.name? ≠ some entityAttribute)
    (attributes : List Attribute) :
    OptionList.ofAttributes entityAttribute (a :: attributes) =
      OptionList.ofAttributes entityAttribute attributes := by
  rw [OptionList.ofAttributes, OptionList.ofAttributes, List.filter_cons_of_neg (by simp [h])]

/-! ## Reading one option -/

section Read

variable {size : Nat} {tokens rest : Tokens}

/-- An operator of one character is read whether or not it is joined to the next token. -/
theorem punct_of_op {text : String} {c : Char} {written : Tokens} (htext : text.toList = [c])
    (h : Terminal.read? (.op text) tokens = some (written, rest)) :
    ∃ joined, tokens = .punct c joined :: rest := by
  obtain ⟨last, hlast, hstep⟩ := Option.map_eq_some_iff.mp h
  cases hstep
  rw [htext] at hlast
  cases tokens with
  | nil => cases hlast
  | cons token more =>
      cases token with
      | punct d joined =>
          rw [Terminal.operator?] at hlast
          split_ifs at hlast with hchar
          cases hlast
          exact ⟨joined, by rw [hchar]⟩
      | _ => cases hlast

theorem eq_of_onlyWord? {path : Tokens} {name : String} (h : onlyWord? path = some name) :
    path = [.word name] := by
  unfold onlyWord? at h
  split at h
  · cases h
    rfl
  · cases h

theorem word_of_readPath {name : String}
    (h : Meta.readPath (meaning size) tokens = some ([.word name], rest)) :
    tokens = .word name :: rest := by
  rw [Meta.readPath, Reading.sees_bind] at h
  split at h
  · have hfits : Opening.lone.Fits .word tokens ([.word name], rest) := Terminal.read?_fits .word h
    exact hfits.2 _ rfl rfl
  · exact word_of_wordPath h

/-- A number with its sign is no text literal. -/
theorem textValue?_signed {literal : String}
    (h : Terminal.signedNumber.read? tokens = some ([.literal literal], rest)) :
    textValue? literal = none := by
  unfold Terminal.read? at h
  split at h
  case h_6 =>
    split_ifs at h
    cases h
    rw [textValue?, String.toList_append]
    rfl
  all_goals contradiction

/-- A value that is a text literal was written as that literal. -/
theorem literal_of_readValue {literal value : String}
    (h : Meta.readValue (meaning size) tokens = some ([.literal literal], rest))
    (htext : textValue? literal = some value) : tokens = .literal literal :: rest := by
  rw [Meta.readValue, Reading.sees_bind] at h
  split at h
  · rw [Meta.readLiteral, Reading.sees_bind] at h
    split at h
    · rw [textValue?_signed h] at htext
      cases htext
    · rw [Reading.sees_bind] at h
      split at h
      · have hfits : Opening.lone.Fits .literal tokens ([.literal literal], rest) :=
          Terminal.read?_fits .literal h
        exact hfits.2 _ rfl rfl
      · have hfits : Opening.other.Fits .literal tokens ([.literal literal], rest) :=
          Terminal.read?_fits .literal h
        obtain ⟨_, _, hwritten, hkind⟩ := hfits
        cases hwritten
        cases hkind
  · rw [Reading.sees_bind] at h
    split at h
    · cases h
    · exact literal_of_expression h

/-- What follows a path is nothing, arguments, or a sign of equality and a value. -/
theorem readBody_cases {body : MetaBody}
    (h : Meta.readBody (meaning size) tokens = some (body, rest)) :
    (body = .bare ∧ tokens = rest) ∨ (∃ delimiter content, body = .arguments delimiter content) ∨
      ∃ joined more value, tokens = .punct '=' joined :: more ∧ body = .value value ∧
        Meta.readValue (meaning size) more = some (value, rest) := by
  obtain ⟨delimiter?, between, hdelimiter, h⟩ := Reading.bind_eq_some.mp h
  have hbetween : between = tokens := by
    unfold Meta.delimiter? at hdelimiter
    split at hdelimiter <;> cases hdelimiter <;> rfl
  subst hbetween
  cases delimiter? with
  | some delimiter =>
      obtain ⟨content, _, _, h⟩ := Reading.bind_eq_some.mp h
      exact Or.inr (Or.inl ⟨delimiter, content, (Reading.pure_eq_some.mp h).1.symm⟩)
  | none =>
      change (Reading.sees (.op "=") >>= _) between = _ at h
      rw [Reading.sees_bind] at h
      split at h
      · obtain ⟨mark, more, hmark, h⟩ := Reading.bind_eq_some.mp h
        obtain ⟨value, _, hvalue, h⟩ := Reading.bind_eq_some.mp h
        obtain ⟨rfl, rfl⟩ := Reading.pure_eq_some.mp h
        obtain ⟨joined, hjoined⟩ := punct_of_op rfl hmark
        exact Or.inr (Or.inr ⟨joined, more, value, hjoined, rfl, hvalue⟩)
      · obtain ⟨rfl, rfl⟩ := Reading.pure_eq_some.mp h
        exact Or.inl ⟨rfl, rfl⟩

/-- An option that says something is written as what it says. -/
theorem ofTokens?_of_read {option : Meta} {setting : Setting}
    (h : Meta.read (meaning size) tokens = some (option, rest))
    (hmeans : Setting.ofMeta? option = some setting) :
    ∃ written, tokens = written ++ rest ∧ Setting.ofTokens? written = some setting := by
  obtain ⟨path, between, hpath, h⟩ := Reading.bind_eq_some.mp h
  obtain ⟨body, last, hbody, h⟩ := Reading.bind_eq_some.mp h
  obtain ⟨rfl, rfl⟩ := Reading.pure_eq_some.mp h
  unfold Setting.ofMeta? at hmeans
  split at hmeans
  case h_1 name hname hbare =>
    cases hbare
    cases eq_of_onlyWord? hname
    rcases readBody_cases hbody with ⟨-, rfl⟩ | ⟨_, _, hother⟩ | ⟨_, _, _, _, hother, _⟩
    · exact ⟨[.word name], word_of_readPath hpath, hmeans⟩
    · cases hother
    · cases hother
  case h_2 key literal hname hvalue =>
    cases hvalue
    cases eq_of_onlyWord? hname
    rcases readBody_cases hbody with
      ⟨hother, -⟩ | ⟨_, _, hother⟩ | ⟨joined, more, value, hmore, hvalue, hread⟩
    · cases hother
    · cases hother
    · cases hvalue
      obtain ⟨text, htext, hsetting⟩ := Option.map_eq_some_iff.mp hmeans
      refine ⟨[.word key, .punct '=' joined, .literal literal], ?_, hmeans⟩
      rw [word_of_readPath hpath, hmore, literal_of_readValue hread htext]
      rfl
  case h_3 => cases hmeans

/-- A word that may name something is a path of one word if no further segment follows. -/
theorem follow_wordPath {limit : Nat} {calls : Meaning} {name : String} (hname : name ∉ keywords)
    (h : (Look.op "::").holds rest = false) :
    Rules.wordPath.follow (limit + 1) calls (.word name :: rest) = some ([.word name], rest) := by
  have hcolons : (Look.op "::").holds (.word name :: rest) = false := rfl
  have hplain : Rules.plainWord.follow (limit + 1) calls (.word name :: rest) =
      some ([.word name], rest) := by
    simp [Rules.plainWord, Rule.follow, Look.holds, Look.follows, Terminal.read?, hname]
  simp [Rules.wordPath, Rule.all, Rule.optOp, Rule.opt, Rule.follow, Rule.iterate, hcolons, hplain,
    h]

theorem readPath_word {name : String} (hname : name ∉ keywords)
    (h : (Look.op "::").holds rest = false) :
    Meta.readPath (meaning size) (.word name :: rest) = some ([.word name], rest) := by
  have hunsafe : (Look.word "unsafe").holds (.word name :: rest) = false := by
    have hne : name ≠ "unsafe" := by
      rintro rfl
      exact hname (by decide)
    simp [Look.word, Look.holds, Look.follows, Terminal.read?, hne]
  have hpath : meaning size .wordPath (.word name :: rest) = some ([.word name], rest) := by
    obtain ⟨fuel, hfuel⟩ : ∃ fuel, 32 * (size + 4) = fuel + 2 := ⟨32 * size + 126, by omega⟩
    rw [meaning, hfuel]
    exact follow_wordPath hname h
  rw [Meta.readPath, Reading.sees_bind, hunsafe]
  exact hpath

theorem readBody_bare (h : AtComma tokens) :
    Meta.readBody (meaning size) tokens = some (.bare, tokens) := by
  rcases h with rfl | ⟨joined, rest, rfl⟩
  · rfl
  · rfl

theorem readBody_literal {literal : String} {joined : Bool} (h : AtComma rest) :
    Meta.readBody (meaning size) (.punct '=' joined :: .literal literal :: rest) =
      some (.value [.literal literal], rest) := by
  rcases h with rfl | ⟨joined, rest, rfl⟩
  · rfl
  · cases joined <;> rfl

/-- What is written as a setting is read as an option that says it. -/
theorem read_of_ofTokens? (size : Nat) {written : Tokens} {setting : Setting}
    (h : Setting.ofTokens? written = some setting) (hkey : setting.key ∉ keywords)
    (hrest : AtComma rest) :
    ∃ option, Meta.read (meaning size) (written ++ rest) = some (option, rest) ∧
      Setting.ofMeta? option = some setting := by
  have hcolons : (Look.op "::").holds rest = false := by
    rcases hrest with rfl | ⟨joined, more, rfl⟩
    · rfl
    · cases joined <;> rfl
  unfold Setting.ofTokens? at h
  split at h
  case h_1 name =>
    cases h
    refine ⟨{ path := [.word name], body := .bare }, ?_, rfl⟩
    apply Reading.bind_eq_some.mpr
    refine ⟨[.word name], rest, readPath_word hkey hcolons, ?_⟩
    apply Reading.bind_eq_some.mpr
    exact ⟨.bare, rest, readBody_bare hrest, rfl⟩
  case h_2 key joined literal =>
    have hsign : (Look.op "::").holds (.punct '=' joined :: .literal literal :: rest) = false := by
      cases joined <;> rfl
    obtain ⟨text, htext, rfl⟩ := Option.map_eq_some_iff.mp h
    refine ⟨{ path := [.word key], body := .value [.literal literal] }, ?_, h⟩
    apply Reading.bind_eq_some.mpr
    refine ⟨[.word key], _, readPath_word hkey hsign, ?_⟩
    apply Reading.bind_eq_some.mpr
    exact ⟨.value [.literal literal], rest, readBody_literal hrest, rfl⟩
  case h_3 => cases h

end Read

end Enhance

end Chronicle
