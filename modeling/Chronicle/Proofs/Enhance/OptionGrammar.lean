import Chronicle.Proofs.Enhance.OptionElements

/-!
# The grammar of options

The attributes of a struct and of a field are read exactly if all elements of their lists are options
that are known. Which attribute an element stands in does not matter, nor does the order of elements
with different keys.

## Implementation notes

Structs and fields differ in the options that they know and in what these amount to. What is proved of
their readers is proved once, of options that are added one by one.
-/

namespace Chronicle

namespace Enhance

open Source

/-! ## Reading all options -/

/-- The options that are known somewhere, and what they amount to. -/
structure OptionRules (Options : Type) where
  flags : List String
  keys : List String
  ofSettings : List Setting → Options
  /-- No keyword is the name of an option. -/
  plain : ∀ name ∈ flags ++ keys, name ∉ keywords
  /-- The order of settings with different keys does not matter. -/
  exchange : ∀ (before after : List Setting) (x y : Setting), x.key ≠ y.key →
    ofSettings (before ++ x :: y :: after) = ofSettings (before ++ y :: x :: after)

namespace OptionRules

variable {Options : Type} (rules : OptionRules Options)

/-- Whether a setting is one of a known option. -/
def allows : Setting → Bool
  | .flag name => rules.flags.contains name
  | .text key _ => rules.keys.contains key

/-- The known setting that tokens write. -/
def ofTokens? (tokens : Tokens) : Option Setting := (Setting.ofTokens? tokens).filter rules.allows

/-- The known setting that an option is. -/
def ofMeta? (option : Meta) : Option Setting := (Setting.ofMeta? option).filter rules.allows

variable {rules}

theorem key_of_allows {setting : Setting} (h : rules.allows setting = true) :
    setting.key ∉ keywords := by
  apply rules.plain
  cases setting with
  | flag name => exact List.mem_append_left _ (List.contains_iff_mem.mp h)
  | text key value => exact List.mem_append_right _ (List.contains_iff_mem.mp h)

theorem ofTokens?_eq_some {tokens : Tokens} {setting : Setting} :
    rules.ofTokens? tokens = some setting ↔
      Setting.ofTokens? tokens = some setting ∧ rules.allows setting = true :=
  Option.filter_eq_some_iff

theorem ofMeta?_eq_some {option : Meta} {setting : Setting} :
    rules.ofMeta? option = some setting ↔
      Setting.ofMeta? option = some setting ∧ rules.allows setting = true :=
  Option.filter_eq_some_iff

variable (rules)

/-- The settings that options are, if all of them are known. -/
def settingsOf? (options : Except OptionError (List Meta)) : Option (List Setting) :=
  options.toOption.bind (·.mapM rules.ofMeta?)

theorem settingsOf?_cons (option : Meta) (options : Except OptionError (List Meta)) :
    rules.settingsOf? (options.map (option :: ·)) =
      (rules.ofMeta? option).bind fun setting =>
        (rules.settingsOf? options).map (setting :: ·) := by
  cases options with
  | error cause => cases rules.ofMeta? option <;> rfl
  | ok options =>
      change (option :: options).mapM rules.ofMeta? = _
      rw [List.mapM_cons]
      cases rules.ofMeta? option with
      | none => rfl
      | some setting => exact (Option.map_eq_bind ..).symm

theorem readFrom_nil (meaning : Meaning) (fuel : Nat) :
    OptionList.readFrom meaning fuel [] = .ok [] := by
  cases fuel <;> rfl

theorem readFrom_succ {meaning : Meaning} {fuel : Nat} {tokens : Tokens} (h : tokens ≠ []) :
    OptionList.readFrom meaning (fuel + 1) tokens =
      match Meta.read meaning tokens with
      | none => .error (OptionList.blame meaning tokens)
      | some (option, []) => .ok [option]
      | some (option, rest) =>
        match Terminal.read? (.op ",") rest with
        | none => .error .commaExpected
        | some (_, rest) => (OptionList.readFrom meaning fuel rest).map (option :: ·) := by
  cases tokens with
  | nil => exact absurd rfl h
  | cons token more => rfl

/-- After an option that has been read, the rest of the list is read behind a comma. -/
theorem settingsOf?_of_read {size : Nat} (fuel : Nat) {tokens rest : Tokens} {option : Meta}
    (htokens : tokens ≠ []) (hread : Meta.read (meaning size) tokens = some (option, rest)) :
    (AtComma rest ∧
      rules.settingsOf? (OptionList.readFrom (meaning size) (fuel + 1) tokens) =
        (rules.ofMeta? option).bind fun setting =>
          (rules.settingsOf? (OptionList.readFrom (meaning size) fuel (rest.drop 1))).map
            (setting :: ·)) ∨
    (¬AtComma rest ∧
      rules.settingsOf? (OptionList.readFrom (meaning size) (fuel + 1) tokens) = none) := by
  rw [readFrom_succ htokens, hread]
  cases rest with
  | nil =>
      refine Or.inl ⟨Or.inl rfl, ?_⟩
      rw [← settingsOf?_cons, List.drop_nil, readFrom_nil]
      rfl
  | cons token more =>
      cases hcomma : Terminal.read? (.op ",") (token :: more) with
      | none =>
          refine Or.inr ⟨?_, ?_⟩
          · rintro (hnil | ⟨joined, last, hlast⟩)
            · cases hnil
            · cases hlast
              cases hcomma
          · simp only [hcomma]
            rfl
      | some step =>
          obtain ⟨written, last⟩ := step
          obtain ⟨joined, hjoined⟩ := punct_of_op rfl hcomma
          cases hjoined
          refine Or.inl ⟨Or.inr ⟨joined, _, rfl⟩, ?_⟩
          rw [← settingsOf?_cons]
          simp only [hcomma]
          rfl

/-- A list is read into the settings that its elements write. -/
theorem settingsOf?_readFrom {size fuel : Nat} {tokens : Tokens} (hfuel : tokens.length < fuel) :
    rules.settingsOf? (OptionList.readFrom (meaning size) fuel tokens) =
      (elements tokens).mapM rules.ofTokens? := by
  induction fuel generalizing tokens with
  | zero => exact absurd hfuel (Nat.not_lt_zero _)
  | succ fuel ih =>
      by_cases htokens : tokens = []
      · subst htokens
        rfl
      obtain ⟨element, rest, hwritten, hrest, helements⟩ := elements_first htokens
      rw [helements, List.mapM_cons]
      cases helement : rules.ofTokens? element with
      | some setting =>
          obtain ⟨hsetting, hallowed⟩ := ofTokens?_eq_some.mp helement
          obtain ⟨option, hread, hmeans⟩ :=
            read_of_ofTokens? size hsetting (key_of_allows hallowed) hrest
          have hlength : (rest.drop 1).length < fuel := by
            have := List.length_pos_iff.mpr htokens
            rw [hwritten, List.length_append] at hfuel this
            rw [List.length_drop]
            omega
          rw [← hwritten] at hread
          rcases rules.settingsOf?_of_read fuel htokens hread with ⟨-, hrun⟩ | ⟨hno, -⟩
          · rw [hrun, ofMeta?_eq_some.mpr ⟨hmeans, hallowed⟩, ih hlength]
            exact Option.map_eq_bind ..
          · exact absurd hrest hno
      | none =>
          cases hread : Meta.read (meaning size) tokens with
          | none =>
              rw [readFrom_succ htokens, hread]
              rfl
          | some step =>
              obtain ⟨option, last⟩ := step
              rcases rules.settingsOf?_of_read fuel htokens hread with
                ⟨hlast, hrun⟩ | ⟨-, hrun⟩
              · rw [hrun]
                cases hoption : rules.ofMeta? option with
                | none => rfl
                | some setting =>
                    obtain ⟨hmeans, hallowed⟩ := ofMeta?_eq_some.mp hoption
                    obtain ⟨written, hw, hsetting⟩ := ofTokens?_of_read hread hmeans
                    rw [hw, elements_setting hsetting hlast, List.cons.injEq] at helements
                    rw [← helements.1, ofTokens?_eq_some.mpr ⟨hsetting, hallowed⟩] at helement
                    cases helement
              · exact hrun

theorem settingsOf?_ofMeta (a : Attribute) :
    rules.settingsOf? (OptionList.ofMeta entityAttribute a.said) =
      (content? a).bind fun content => (elements content).mapM rules.ofTokens? := by
  unfold content? OptionList.ofMeta
  cases a.said.body with
  | bare => rfl
  | value written => rfl
  | arguments delimiter content => exact rules.settingsOf?_readFrom (Nat.lt_succ_self _)

theorem settingsOf?_append (first second : Except OptionError (List Meta)) :
    rules.settingsOf? (do return (← first) ++ (← second)) =
      (rules.settingsOf? first).bind fun settings =>
        (rules.settingsOf? second).map (settings ++ ·) := by
  cases first with
  | error cause => rfl
  | ok options =>
      cases second with
      | error cause => cases rules.settingsOf? (.ok options) <;> rfl
      | ok more =>
          change (options ++ more).mapM rules.ofMeta? = _
          rw [List.mapM_append]
          cases hfirst : options.mapM rules.ofMeta? with
          | none => simp [settingsOf?, Except.toOption, hfirst]
          | some settings =>
              simp only [settingsOf?, Except.toOption, Option.bind_some, hfirst]
              exact (Option.map_eq_bind ..).symm

/-- Attributes are read into the settings that the elements of their lists write. -/
theorem settingsOf?_ofAttributes (attributes : List Attribute) :
    rules.settingsOf? (OptionList.ofAttributes entityAttribute attributes) =
      (elementSequence? attributes).bind (·.mapM rules.ofTokens?) := by
  induction attributes with
  | nil => rfl
  | cons a attributes ih =>
      by_cases hname : a.name? = some entityAttribute
      · rw [ofAttributes_cons hname, settingsOf?_append, ih, elementSequence?_cons hname,
          settingsOf?_ofMeta]
        cases content? a with
        | none => rfl
        | some content =>
            cases elementSequence? attributes with
            | none => simp
            | some others =>
                simp only [Option.bind_some, Option.map_some, List.mapM_append]
                cases (elements content).mapM rules.ofTokens? with
                | none => rfl
                | some settings => exact Option.map_eq_bind ..
      · rw [ofAttributes_other hname, elementSequence?_other hname, ih]

/-- Options are added one by one to what the settings before them amount to. -/
theorem foldlM_add {add : Options → Meta → Except OptionError Options}
    (hadd : ∀ settings option, (add (rules.ofSettings settings) option).toOption =
      (rules.ofMeta? option).map fun setting => rules.ofSettings (settings ++ [setting]))
    (options : List Meta) (settings : List Setting) :
    (options.foldlM add (rules.ofSettings settings)).toOption =
      (options.mapM rules.ofMeta?).map fun more => rules.ofSettings (settings ++ more) := by
  induction options generalizing settings with
  | nil => simp [Except.toOption, pure, Except.pure]
  | cons option options ih =>
      rw [List.foldlM_cons, List.mapM_cons]
      have hfirst := hadd settings option
      cases hsetting : rules.ofMeta? option with
      | none =>
          rw [hsetting] at hfirst
          cases hresult : add (rules.ofSettings settings) option with
          | error cause => rfl
          | ok result =>
              rw [hresult] at hfirst
              cases hfirst
      | some setting =>
          rw [hsetting] at hfirst
          cases hresult : add (rules.ofSettings settings) option with
          | error cause =>
              rw [hresult] at hfirst
              cases hfirst
          | ok result =>
              rw [hresult] at hfirst
              cases hfirst
              refine (ih (settings ++ [setting])).trans ?_
              cases options.mapM rules.ofMeta? with
              | none => rfl
              | some more => simp

/-- What attributes amount to is told by the elements of their lists. -/
theorem toOption_read {add : Options → Meta → Except OptionError Options}
    (hadd : ∀ settings option, (add (rules.ofSettings settings) option).toOption =
      (rules.ofMeta? option).map fun setting => rules.ofSettings (settings ++ [setting]))
    (attributes : List Attribute) :
    ((OptionList.ofAttributes entityAttribute attributes).bind
        (·.foldlM add (rules.ofSettings []))).toOption =
      ((elementSequence? attributes).bind (·.mapM rules.ofTokens?)).map rules.ofSettings := by
  rw [← settingsOf?_ofAttributes]
  cases OptionList.ofAttributes entityAttribute attributes with
  | error cause => rfl
  | ok options => exact rules.foldlM_add hadd options []

end OptionRules

/-! ## Options of structs and of fields -/

theorem lastText_append (key : String) (settings : List Setting) (setting : Setting) :
    lastText key (settings ++ [setting]) = (setting.textFor? key).or (lastText key settings) := by
  rw [lastText, lastText, List.filterMap_append]
  cases h : setting.textFor? key with
  | none => simp [h]
  | some value => simp [h]

theorem key_of_textFor? {key value : String} {setting : Setting}
    (h : setting.textFor? key = some value) : setting.key = key := by
  cases setting with
  | flag name => cases h
  | text k given =>
      rw [Setting.textFor?] at h
      split_ifs at h with hkey
      exact hkey

theorem lastText_exchange (key : String) (before after : List Setting) {x y : Setting}
    (h : x.key ≠ y.key) :
    lastText key (before ++ x :: y :: after) = lastText key (before ++ y :: x :: after) := by
  rw [lastText, lastText]
  simp only [List.filterMap_append, List.filterMap_cons]
  cases hx : x.textFor? key with
  | none => rfl
  | some value =>
      cases hy : y.textFor? key with
      | none => rfl
      | some other => exact absurd ((key_of_textFor? hx).trans (key_of_textFor? hy).symm) h

theorem contains_exchange (setting : Setting) (before after : List Setting) (x y : Setting) :
    (before ++ x :: y :: after).contains setting =
      (before ++ y :: x :: after).contains setting := by
  have hperm : (before ++ x :: y :: after).Perm (before ++ y :: x :: after) :=
    (List.Perm.swap y x after).append_left before
  rw [Bool.eq_iff_iff, List.contains_iff_mem, List.contains_iff_mem]
  exact hperm.mem_iff

/-- What settings say about a struct. -/
def StructOptions.ofSettings (settings : List Setting) : StructOptions where
  name := lastText "name" settings
  replaces := lastText "replaces" settings
  embeddable := settings.contains (.flag "embeddable")
  softDelete := lastText "soft_delete" settings
  annotatedOnly := settings.contains (.flag "annotated_only")
  settersEnhanced := settings.contains (.flag enhancedOption)

/-- What settings say about a field. -/
def FieldOptions.ofSettings (settings : List Setting) : FieldOptions where
  entry := settings.contains (.flag "entry")
  id := settings.contains (.flag "id")
  transient := settings.contains (.flag "transient")
  readOnly := settings.contains (.flag "read_only")
  reference := settings.contains (.flag "reference")
  collection := settings.contains (.flag "collection")
  embedded := settings.contains (.flag "embedded")
  property := settings.contains (.flag "property")

/-- The options of structs. -/
def structRules : OptionRules StructOptions where
  flags := ["embeddable", "annotated_only", enhancedOption]
  keys := ["name", "replaces", "soft_delete"]
  ofSettings := StructOptions.ofSettings
  plain := by decide
  exchange before after x y h := by
    simp only [StructOptions.ofSettings, lastText_exchange _ before after h,
      contains_exchange _ before after x y]

/-- The options of fields. -/
def fieldRules : OptionRules FieldOptions where
  flags :=
    ["entry", "id", "transient", "read_only", "reference", "collection", "embedded", "property"]
  keys := []
  ofSettings := FieldOptions.ofSettings
  plain := by decide
  exchange before after x y _ := by
    simp only [FieldOptions.ofSettings, contains_exchange _ before after x y]

section Add

variable {Options : Type} (rules : OptionRules Options) (path : Tokens)

theorem ofMeta?_bare :
    rules.ofMeta? ⟨path, .bare⟩ =
      (onlyWord? path).bind fun name =>
        if name ∈ rules.flags then some (.flag name) else none := by
  rw [OptionRules.ofMeta?, Setting.ofMeta?]
  cases onlyWord? path with
  | none => rfl
  | some name => simp [OptionRules.allows, Option.filter_some]

theorem ofMeta?_value (written : Tokens) :
    rules.ofMeta? ⟨path, .value written⟩ =
      (OptionList.text written).toOption.bind fun value =>
        (onlyWord? path).bind fun key =>
          if key ∈ rules.keys then some (.text key value) else none := by
  by_cases hliteral : ∃ literal, written = [.literal literal]
  · obtain ⟨literal, rfl⟩ := hliteral
    rw [OptionRules.ofMeta?, Setting.ofMeta?, OptionList.text]
    cases onlyWord? path with
    | none => simp
    | some key =>
        cases hvalue : textValue? literal with
        | none => simp [hvalue, Except.toOption]
        | some value => simp [hvalue, OptionRules.allows, Option.filter_some, Except.toOption]
  · have htext : OptionList.text written = .error .textExpected := by
      unfold OptionList.text
      split
      · exact absurd ⟨_, rfl⟩ hliteral
      · rfl
    rw [htext, OptionRules.ofMeta?, Setting.ofMeta?]
    split
    case h_1 hbare => cases hbare
    case h_2 hvalue =>
      cases hvalue
      exact absurd ⟨_, rfl⟩ hliteral
    case h_3 => rfl

theorem ofMeta?_arguments (delimiter : Delimiter) (content : Tokens) :
    rules.ofMeta? ⟨path, .arguments delimiter content⟩ = none := by
  rw [OptionRules.ofMeta?, Setting.ofMeta?]
  cases onlyWord? path <;> rfl

end Add

theorem structOptions_add (settings : List Setting) (option : Meta) :
    (StructOptions.add (structRules.ofSettings settings) option).toOption =
      (structRules.ofMeta? option).map fun setting =>
        structRules.ofSettings (settings ++ [setting]) := by
  obtain ⟨path, body⟩ := option
  cases body with
  | bare =>
      rw [ofMeta?_bare]
      simp only [StructOptions.add, OptionList.key]
      cases onlyWord? path with
      | none => rfl
      | some name =>
          simp only [structRules, Option.getD_some, Option.bind_some, List.mem_cons,
            List.not_mem_nil, or_false]
          split_ifs with hflag
          · rcases hflag with rfl | rfl | rfl <;>
              simp [StructOptions.ofSettings, lastText_append, Setting.textFor?, Except.toOption,
                enhancedOption]
          · rw [enhancedOption] at hflag
            split <;> simp_all [Except.toOption]
  | value written =>
      rw [ofMeta?_value]
      simp only [StructOptions.add, OptionList.key]
      cases OptionList.text written with
      | error cause => rfl
      | ok value =>
          cases onlyWord? path with
          | none => rfl
          | some key =>
              simp only [structRules, Option.getD_some, Option.bind_some, List.mem_cons,
                List.not_mem_nil, or_false, Except.toOption]
              split_ifs with hkey
              · rcases hkey with rfl | rfl | rfl <;>
                  simp [StructOptions.ofSettings, lastText_append, Setting.textFor?, bind,
                    Except.bind]
              · simp only [bind, Except.bind]
                split <;> simp_all
  | arguments delimiter content =>
      rw [ofMeta?_arguments]
      rfl

theorem fieldOptions_add (settings : List Setting) (option : Meta) :
    (FieldOptions.add (fieldRules.ofSettings settings) option).toOption =
      (fieldRules.ofMeta? option).map fun setting =>
        fieldRules.ofSettings (settings ++ [setting]) := by
  obtain ⟨path, body⟩ := option
  cases body with
  | bare =>
      rw [ofMeta?_bare]
      simp only [FieldOptions.add, OptionList.key]
      cases onlyWord? path with
      | none => rfl
      | some name =>
          simp only [fieldRules, Option.getD_some, Option.bind_some, List.mem_cons,
            List.not_mem_nil, or_false]
          split_ifs with hflag
          · rcases hflag with rfl | rfl | rfl | rfl | rfl | rfl | rfl | rfl <;>
              simp [FieldOptions.ofSettings, Except.toOption]
          · split <;> simp_all [Except.toOption]
  | value written =>
      rw [ofMeta?_value]
      simp [FieldOptions.add, fieldRules, Except.toOption]
  | arguments delimiter content =>
      rw [ofMeta?_arguments]
      rfl

/-! ## What is read -/

/-- Whether a function reads attributes by rules: it accepts those that only have known options in
their lists, with what these amount to, and all else about the attributes makes no difference. -/
structure ReadsOptions {Options : Type} (rules : OptionRules Options)
    (read : List Attribute → Except OptionError Options) : Prop where
  accepts (attributes : List Attribute) (options : Options) :
    read attributes = .ok options ↔
      ∃ settings, settings? attributes = some settings ∧
        (∀ setting ∈ settings, rules.allows setting = true) ∧ options = rules.ofSettings settings
  /-- Only the sequence of all elements matters. -/
  grouping (attributes others : List Attribute) :
    elementSequence? attributes = elementSequence? others →
      (read attributes).toOption = (read others).toOption
  splitting (before after : List Attribute) (front back : List Tokens) :
    (∀ element ∈ front ++ back, IsElement element) →
      (read (before ++ listed (front ++ back) :: after)).toOption =
        (read (before ++ listed front :: listed back :: after)).toOption
  interleaving (before after : List Attribute) (a : Attribute) :
    a.name? ≠ some entityAttribute → read (before ++ a :: after) = read (before ++ after)
  reordering (attributes others : List Attribute) (sequence reordered : List Tokens) :
    elementSequence? attributes = some sequence → elementSequence? others = some reordered →
      Reordered sequence reordered → (read attributes).toOption = (read others).toOption

theorem toOption_eq_some {ε α : Type} {run : Except ε α} {result : α} :
    run.toOption = some result ↔ run = .ok result := by
  cases run <;> simp [Except.toOption]

namespace OptionRules

variable {Options : Type} (rules : OptionRules Options)

theorem mapM_ofTokens? {sequence : List Tokens} {settings : List Setting} :
    sequence.mapM rules.ofTokens? = some settings ↔
      sequence.mapM Setting.ofTokens? = some settings ∧
        ∀ setting ∈ settings, rules.allows setting = true := by
  induction sequence generalizing settings with
  | nil => cases settings <;> simp
  | cons element sequence ih =>
      simp only [List.mapM_cons, Option.bind_eq_bind, Option.bind_eq_some_iff, Option.pure_def,
        Option.some.injEq, ofTokens?_eq_some, ih]
      constructor
      · rintro ⟨setting, ⟨hsetting, hallowed⟩, more, ⟨hmore, hall⟩, rfl⟩
        exact ⟨⟨setting, hsetting, more, hmore, rfl⟩, List.forall_mem_cons.mpr ⟨hallowed, hall⟩⟩
      · rintro ⟨⟨setting, hsetting, more, hmore, rfl⟩, hall⟩
        obtain ⟨hallowed, hall⟩ := List.forall_mem_cons.mp hall
        exact ⟨setting, ⟨hsetting, hallowed⟩, more, ⟨hmore, hall⟩, rfl⟩

theorem reordered {sequence others : List Tokens} (h : Reordered sequence others) :
    (sequence.mapM rules.ofTokens?).map rules.ofSettings =
      (others.mapM rules.ofTokens?).map rules.ofSettings := by
  induction h with
  | refl => rfl
  | @swap before after a b h =>
      simp only [List.mapM_append, List.mapM_cons]
      cases ha : rules.ofTokens? a with
      | none => cases before.mapM rules.ofTokens? <;> cases rules.ofTokens? b <;> rfl
      | some x =>
          cases hb : rules.ofTokens? b with
          | none => cases before.mapM rules.ofTokens? <;> rfl
          | some y =>
              have hkeys := h x y (ofTokens?_eq_some.mp ha).1 (ofTokens?_eq_some.mp hb).1
              cases before.mapM rules.ofTokens? with
              | none => rfl
              | some front =>
                  cases after.mapM rules.ofTokens? with
                  | none => rfl
                  | some back => exact congrArg some (rules.exchange front back x y hkeys)
  | trans _ _ ihfirst ihsecond => exact ihfirst.trans ihsecond

/-- Options that are added one by one are read by the rules that each step follows. -/
theorem readsOptions {add : Options → Meta → Except OptionError Options}
    {read : List Attribute → Except OptionError Options}
    (hadd : ∀ settings option, (add (rules.ofSettings settings) option).toOption =
      (rules.ofMeta? option).map fun setting => rules.ofSettings (settings ++ [setting]))
    (hread : ∀ attributes, read attributes =
      (OptionList.ofAttributes entityAttribute attributes).bind
        (·.foldlM add (rules.ofSettings []))) :
    ReadsOptions rules read where
  accepts attributes options := by
    rw [← toOption_eq_some, hread, rules.toOption_read hadd, Option.map_eq_some_iff, settings?]
    cases elementSequence? attributes with
    | none => simp
    | some sequence =>
        simp only [Option.bind_some, mapM_ofTokens?, and_assoc, eq_comm (a := options)]
  grouping attributes others h := by
    rw [hread, hread, rules.toOption_read hadd, rules.toOption_read hadd, h]
  splitting before after front back h := by
    obtain ⟨hfront, hback⟩ := List.forall_mem_append.mp h
    have hsame : elementSequence? (before ++ listed (front ++ back) :: after) =
        elementSequence? (before ++ listed front :: listed back :: after) := by
      rw [elementSequence?_append, elementSequence?_append, elementSequence?_listed h,
        elementSequence?_listed hfront, elementSequence?_listed hback, Option.map_map]
      simp only [List.append_assoc, Function.comp_def]
    rw [hread, hread, rules.toOption_read hadd, rules.toOption_read hadd, hsame]
  interleaving before after a h := by
    have hsame : OptionList.ofAttributes entityAttribute (before ++ a :: after) =
        OptionList.ofAttributes entityAttribute (before ++ after) := by
      rw [OptionList.ofAttributes, OptionList.ofAttributes, List.filter_append, List.filter_append,
        List.filter_cons_of_neg (by simp [h])]
    rw [hread, hread, hsame]
  reordering attributes others sequence reordered hattributes hothers h := by
    rw [hread, hread, rules.toOption_read hadd, rules.toOption_read hadd, hattributes, hothers]
    exact rules.reordered h

end OptionRules

/-- The attributes of a struct are read by the rules for structs, and those of a field by the rules for
fields. -/
theorem options_follow_grammar :
    ReadsOptions structRules StructOptions.ofAttributes ∧
    ReadsOptions fieldRules FieldOptions.ofAttributes :=
  ⟨structRules.readsOptions structOptions_add fun _ => rfl,
    fieldRules.readsOptions fieldOptions_add fun _ => rfl⟩

example :
    (settings? [listed [[.word "name", .punct '=' false, .literal "\"Client\""]],
        listed [[.word "name", .punct '=' false, .literal "\"Customer\""], [.word "embeddable"]]]).map
          structRules.ofSettings =
      some { name := some "Customer", embeddable := true } := by
  decide +kernel

end Enhance

end Chronicle
