import Chronicle.Proofs.Entity.World

/-!
# Comparing values

The comparison by which a change is told from no change is transitive on the sound values of a world,
and every value without NaN is the same as itself.

## Implementation notes

Embedded objects are compared property by property, with look-ups in a list of fields. The look-up
`Value.propertyAt?` is the one that follows the list, and agrees with `Value.propertyOf?` as far as
fields have distinct names.
-/

namespace Chronicle

namespace Number.Double

theorem sameNumber_self {x : Double} (h : x.isNaN = false) : x.sameNumber x = true := by
  simp [sameNumber, h]

theorem sameNumber_trans {x y z : Double} (hxy : x.sameNumber y = true)
    (hyz : y.sameNumber z = true) : x.sameNumber z = true := by
  simp only [sameNumber, Bool.and_eq_true, Bool.or_eq_true, beq_iff_eq, Bool.not_eq_true'] at *
  obtain ⟨⟨hx, -⟩, hxy⟩ := hxy
  obtain ⟨⟨-, hz⟩, hyz⟩ := hyz
  refine ⟨⟨hx, hz⟩, ?_⟩
  rcases hxy with rfl | ⟨hx, hy⟩
  · exact hyz
  · rcases hyz with rfl | ⟨-, hz⟩
    · exact Or.inr ⟨hx, hy⟩
    · exact Or.inr ⟨hx, hz⟩

end Number.Double

namespace Scalar

theorem same_self {s : Scalar} (h : s.isNaN = false) : s.same s = true := by
  cases s with
  | float value => exact Number.Double.sameNumber_self h
  | _ => exact beq_self_eq_true _

theorem same_trans {a b c : Scalar} (hab : a.same b = true) (hbc : b.same c = true) :
    a.same c = true := by
  cases b with
  | float y =>
      cases a with
      | float x =>
          cases c with
          | float z => exact Number.Double.sameNumber_trans hab hbc
          | _ => cases hbc
      | _ => cases hab
  | _ =>
      have hac : a = c := by
        cases a <;> cases c <;> simp_all [same]
      subst hac
      cases a <;> simp_all [same]

end Scalar

variable {w : World}

namespace Ref

theorem same_self (r : Ref) : r.same r = true := by simp [same]

theorem same_of_token {a b : Ref} {token : Token} (ha : a.token? = some token)
    (hb : b.token? = some token) : a.same b = true := by
  simp [same, ha, hb]

theorem same_trans {a b c : Ref} (ha : a.Sound w) (hb : b.Sound w) (hc : c.Sound w)
    (hab : a.same b = true) (hbc : b.same c = true) : a.same c = true := by
  -- objects of one identity have one token, so that each step keeps the identity or the token
  have step : ∀ x y : Ref, x.same y = true →
      x.identity = y.identity ∨ ∃ token, x.token? = some token ∧ y.token? = some token := by
    intro x y hxy
    rw [same, Bool.or_eq_true, beq_iff_eq] at hxy
    rcases hxy with hid | htoken
    · exact Or.inl hid
    · cases hx : x.token? with
      | none => simp [hx] at htoken
      | some t =>
          cases hy : y.token? with
          | none => simp [hx, hy] at htoken
          | some u =>
              rw [hx, hy, beq_iff_eq] at htoken
              exact Or.inr ⟨t, rfl, by rw [htoken]⟩
  have htoken : ∀ x y : Ref, x.Sound w → y.Sound w → x.identity = y.identity →
      x.token? = y.token? := by
    intro x y hx hy hid
    rw [hx, hy, hid]
  rcases step a b hab with hid | ⟨t, hat, hbt⟩
  · rcases step b c hbc with hid' | ⟨u, hbu, hcu⟩
    · simp [same, hid, hid']
    · exact same_of_token ((htoken a b ha hb hid).trans hbu) hcu
  · rcases step b c hbc with hid' | ⟨u, hbu, hcu⟩
    · exact same_of_token hat ((htoken b c hb hc hid').symm.trans hbt)
    · rw [hbt, Option.some.injEq] at hbu
      subst hbu
      exact same_of_token hat hcu

end Ref

namespace Value

/-- Whether a value is an embedded object. -/
def IsEmbedded : Value → Prop
  | .embedded .. => True
  | _ => False

theorem IsEmbedded.exists_eq {value : Value} (h : value.IsEmbedded) :
    ∃ type values, value = .embedded type values := by
  cases value with
  | embedded type values => exact ⟨type, values, rfl⟩
  | _ => cases h

/-- Induction on values in which an embedded object may use what holds of its values. -/
@[elab_as_elim]
theorem inductionOnParts {motive : Value → Prop} (flat : ∀ value, ¬ value.IsEmbedded → motive value)
    (embedded : ∀ type values, (∀ value ∈ values, motive value) → motive (.embedded type values))
    (value : Value) : motive value := by
  match value with
  | .embedded type values =>
    exact embedded type values fun part _ => inductionOnParts flat embedded part
  | .null => exact flat _ id
  | .scalar _ => exact flat _ id
  | .reference _ => exact flat _ id
  | .collection .. => exact flat _ id
termination_by sizeOf value

/-- Whether no part of a value is a NaN. -/
inductive NaNFree : Value → Prop where
  | null : NaNFree .null
  | scalar {value : Scalar} : value.isNaN = false → NaNFree (.scalar value)
  | reference {target : Ref} : NaNFree (.reference target)
  | collection {kind : CollectionKind} {items : List Ref} : NaNFree (.collection kind items)
  | embedded {type : EntityType} {values : List Value} :
    (∀ value ∈ values, NaNFree value) → NaNFree (.embedded type values)

/-! ## Collections -/

theorem sameItems_self (kind : CollectionKind) (items : List Ref) :
    sameItems kind items items = true := by
  cases kind with
  | list =>
      rw [sameItems, List.all_eq_true]
      intro pair hpair
      obtain ⟨i, hi, rfl⟩ := List.mem_iff_getElem.mp hpair
      rw [List.getElem_zip]
      exact Ref.same_self _
  | set =>
      rw [sameItems, List.all_eq_true]
      intro r hr
      exact List.any_eq_true.mpr ⟨r, hr, r.same_self⟩

theorem sameItems_list_iff {xs ys : List Ref} (h : xs.length = ys.length) :
    sameItems .list xs ys = true ↔ List.Forall₂ (fun x y => x.same y = true) xs ys := by
  induction xs generalizing ys with
  | nil =>
      cases ys with
      | nil => simp [sameItems]
      | cons y ys => cases h
  | cons x xs ih =>
      cases ys with
      | nil => cases h
      | cons y ys =>
          rw [List.forall₂_cons, ← ih (Nat.succ.inj h)]
          simp [sameItems]

theorem sameItems_trans {kind : CollectionKind} {xs ys zs : List Ref}
    (hx : ∀ r ∈ xs, r.Sound w) (hy : ∀ r ∈ ys, r.Sound w) (hz : ∀ r ∈ zs, r.Sound w)
    (hxy : xs.length = ys.length) (hyz : ys.length = zs.length)
    (h : sameItems kind xs ys = true) (h' : sameItems kind ys zs = true) :
    sameItems kind xs zs = true := by
  cases kind with
  | list =>
      rw [sameItems_list_iff (hxy.trans hyz)]
      rw [sameItems_list_iff hxy] at h
      rw [sameItems_list_iff hyz] at h'
      clear hxy hyz
      induction h generalizing zs with
      | nil =>
          cases h'
          exact .nil
      | @cons x y xs ys hfirst hrest ih =>
          cases h' with
          | @cons _ z _ zs hfirst' hrest' =>
              rw [List.forall_mem_cons] at hx hy hz
              exact .cons (Ref.same_trans hx.1 hy.1 hz.1 hfirst hfirst')
                (ih hx.2 hy.2 hz.2 hrest')
  | set =>
      rw [sameItems, List.all_eq_true] at *
      intro x hmem
      obtain ⟨y, hymem, hsame⟩ := List.any_eq_true.mp (h x hmem)
      obtain ⟨z, hzmem, hsame'⟩ := List.any_eq_true.mp (h' y hymem)
      exact List.any_eq_true.mpr
        ⟨z, hzmem, Ref.same_trans (hx x hmem) (hy y hymem) (hz z hzmem) hsame hsame'⟩

/-! ## Properties -/

/-- The value of the property with a given name, looked up in a list of fields. -/
def propertyAt? (name : String) : List Field → List Value → Option Value
  | field :: fields, value :: values =>
    if field.name = name then (if field.isProperty then some value else none)
    else propertyAt? name fields values
  | _, _ => none

theorem propertyAt?_eq_none {name : String} {fields : List Field} (values : List Value)
    (h : name ∉ fields.map Field.name) : propertyAt? name fields values = none := by
  induction fields generalizing values with
  | nil => cases values <;> rfl
  | cons field fields ih =>
      cases values with
      | nil => rfl
      | cons value values =>
          rw [List.map_cons, List.mem_cons, not_or] at h
          rw [propertyAt?, if_neg (Ne.symm h.1)]
          exact ih values h.2

theorem mem_of_propertyAt? {name : String} {fields : List Field} {values : List Value} {value : Value}
    (h : propertyAt? name fields values = some value) : value ∈ values := by
  induction fields generalizing values with
  | nil => cases values <;> cases h
  | cons field fields ih =>
      cases values with
      | nil => cases h
      | cons first values =>
          unfold propertyAt? at h
          split_ifs at h
          · cases h
            exact List.mem_cons_self
          · exact List.mem_cons_of_mem first (ih h)

theorem propertyOf?_eq {type : EntityType} (h : (type.fields.map Field.name).Nodup)
    (values : List Value) (name : String) :
    propertyOf? type values name = propertyAt? name type.fields values := by
  unfold propertyOf? EntityType.property? EntityType.properties
  generalize type.fields = fields at h
  induction fields generalizing values with
  | nil => cases values <;> rfl
  | cons field fields ih =>
      obtain ⟨hfield, hrest⟩ := List.nodup_cons.mp h
      cases values with
      | nil => simp [valueAt?, propertyAt?]
      | cons value values =>
          rw [propertyAt?, valueAt?]
          by_cases hname : field.name = name
          · by_cases hproperty : field.isProperty = true
            · simp [hname, hproperty]
            · have hnone : (fields.filter (·.isProperty)).find? (·.name = name) = none := by
                rw [List.find?_eq_none]
                intro other hother hsame
                rw [decide_eq_true_eq] at hsame
                exact hfield (hname ▸ hsame ▸ List.mem_map_of_mem (List.mem_filter.mp hother).1)
              simp [hproperty, hname, hnone]
          · rw [if_neg hname, if_neg hname, ← ih values hrest]
            by_cases hproperty : field.isProperty = true <;> simp [hproperty, hname]

theorem sameProperties_iff {fields : List Field} (h : (fields.map Field.name).Nodup)
    (values : List Value) (other : String → Option Value) :
    sameProperties fields values other = true ↔
      ∀ name value, propertyAt? name fields values = some value →
        ∃ counterpart, other name = some counterpart ∧ value.same counterpart = true := by
  induction fields generalizing values with
  | nil => cases values <;> simp [sameProperties, propertyAt?]
  | cons field fields ih =>
      obtain ⟨hfield, hrest⟩ := List.nodup_cons.mp h
      cases values with
      | nil => simp [sameProperties, propertyAt?]
      | cons first values =>
          rw [sameProperties, Bool.and_eq_true, ih hrest]
          constructor
          · rintro ⟨hfirst, hothers⟩ name value hvalue
            unfold propertyAt? at hvalue
            split_ifs at hvalue with hname hproperty
            · subst hname
              cases hvalue
              cases hother : other field.name with
              | none => simp [hproperty, hother] at hfirst
              | some counterpart =>
                  refine ⟨counterpart, rfl, ?_⟩
                  simpa [hproperty, hother] using hfirst
            · exact hothers name value hvalue
          · intro hall
            constructor
            · by_cases hproperty : field.isProperty = true
              · obtain ⟨counterpart, hother, hsame⟩ :=
                  hall field.name first (by simp [propertyAt?, hproperty])
                simp [hother, hsame]
              · simp [hproperty]
            · intro name value hvalue
              have hname : field.name ≠ name := by
                rintro rfl
                rw [propertyAt?_eq_none values hfield] at hvalue
                cases hvalue
              exact hall name value (by rw [propertyAt?, if_neg hname]; exact hvalue)

/-- Two embedded objects are the same if their types share a name and each property is the same. -/
theorem same_embedded_iff {type other : EntityType} (h : type.WellNamed) (values others : List Value) :
    (embedded type values).same (embedded other others) = true ↔
      type.name = other.name ∧ ∀ name value, propertyOf? type values name = some value →
        ∃ counterpart, propertyOf? other others name = some counterpart ∧
          value.same counterpart = true := by
  rw [same, Bool.and_eq_true, beq_iff_eq, sameProperties_iff h.1]
  simp only [propertyOf?_eq h.1]

theorem mem_of_propertyOf? {type : EntityType} (h : type.WellNamed) {values : List Value}
    {name : String} {value : Value} (hvalue : propertyOf? type values name = some value) :
    value ∈ values :=
  mem_of_propertyAt? (propertyOf?_eq h.1 values name ▸ hvalue)

/-! ## Values of one type -/

theorem Fits.alike {type : FieldType} {a b : Value} (ha : a.Fits type) (hb : b.Fits type)
    (hsa : a.Sound w) (hsb : b.Sound w) : a.Alike b := by
  cases a with
  | embedded s values =>
      cases b with
      | embedded t others =>
          have hname : s.structName = t.structName :=
            FieldType.embedded.inj (Eq.trans (Eq.symm ha) hb)
          change s = t
          rw [hsa.1, hsb.1, hname]
      | _ => trivial
  | _ => trivial

theorem SoundFields.propertyAt? {fields : List Field} (hnodup : (fields.map Field.name).Nodup)
    {values others : List Value} (h : SoundFields w fields values)
    (h' : SoundFields w fields others) {name : String} {value : Value}
    (hvalue : Value.propertyAt? name fields values = some value) :
    ∃ other, Value.propertyAt? name fields others = some other ∧ value.Alike other := by
  induction fields generalizing values others with
  | nil => cases values <;> cases hvalue
  | cons field fields ih =>
      cases values with
      | nil => cases hvalue
      | cons first values =>
          cases others with
          | nil => exact absurd h' id
          | cons second others =>
              obtain ⟨hfits, hsound, hrest⟩ := h
              obtain ⟨hfits', hsound', hrest'⟩ := h'
              unfold Value.propertyAt? at hvalue ⊢
              split_ifs at hvalue with hname hproperty
              · cases hvalue
                exact ⟨second, by rw [if_pos hname, if_pos hproperty],
                  hfits.alike hfits' hsound hsound'⟩
              · rw [if_neg hname]
                exact ih (List.nodup_cons.mp hnodup).2 hrest hrest' hvalue

/-- What two objects of one type hold in one property is of one type. -/
theorem SoundFields.counterpart {type : EntityType} (hwell : type.WellNamed)
    {values others : List Value} (h : SoundFields w type.fields values)
    (h' : SoundFields w type.fields others) {name : String} {value : Value}
    (hvalue : Value.propertyOf? type values name = some value) :
    ∃ other, Value.propertyOf? type others name = some other ∧ value.Alike other := by
  rw [propertyOf?_eq hwell.1] at hvalue ⊢
  exact h.propertyAt? hwell.1 h' hvalue

/-- What is no property of an object is none of the other objects of its type. -/
theorem SoundFields.propertyOf?_eq_none {type : EntityType} (hwell : type.WellNamed)
    {values others : List Value} (h : SoundFields w type.fields others) {name : String}
    (h' : SoundFields w type.fields values) (hnone : Value.propertyOf? type values name = none) :
    Value.propertyOf? type others name = none := by
  by_contra hsome
  obtain ⟨other, hother⟩ := Option.ne_none_iff_exists'.mp hsome
  obtain ⟨value, hvalue, -⟩ := h.counterpart hwell h' hother
  rw [hnone] at hvalue
  cases hvalue

/-! ## Laws -/

theorem same_self {value : Value} (hsound : value.Sound w) (hnan : value.NaNFree) :
    value.same value = true := by
  induction value using inductionOnParts with
  | flat value hflat =>
      cases hnan with
      | null => rfl
      | scalar h => exact Scalar.same_self h
      | reference => exact Ref.same_self _
      | collection => simp [same, sameItems_self]
      | embedded h => exact absurd trivial hflat
  | embedded type values ih =>
      cases hnan with
      | embedded hnan =>
          rw [same_embedded_iff hsound.wellNamed]
          refine ⟨rfl, fun name part hpart => ⟨part, hpart, ?_⟩⟩
          have hmem := mem_of_propertyOf? hsound.wellNamed hpart
          exact ih part hmem (hsound.2.propertyOf? hpart) (hnan part hmem)

theorem same_trans {a b c : Value} (ha : a.Sound w) (hb : b.Sound w) (hc : c.Sound w)
    (hab : a.same b = true) (hbc : b.same c = true) : a.same c = true := by
  induction a using inductionOnParts generalizing b c with
  | flat a hflat =>
      cases a with
      | null =>
          cases b with
          | null => exact hbc
          | _ => cases hab
      | scalar x =>
          cases b with
          | scalar y =>
              cases c with
              | scalar z => exact Scalar.same_trans hab hbc
              | _ => cases hbc
          | _ => cases hab
      | reference x =>
          cases b with
          | reference y =>
              cases c with
              | reference z => exact Ref.same_trans ha hb hc hab hbc
              | _ => cases hbc
          | _ => cases hab
      | collection kind xs =>
          cases b with
          | collection kind' ys =>
              cases c with
              | collection kind'' zs =>
                  simp only [same, Bool.and_eq_true, beq_iff_eq] at hab hbc ⊢
                  obtain ⟨⟨rfl, hxy⟩, hab⟩ := hab
                  obtain ⟨⟨rfl, hyz⟩, hbc⟩ := hbc
                  exact ⟨⟨rfl, hxy.trans hyz⟩, sameItems_trans ha hb hc hxy hyz hab hbc⟩
              | _ => cases hbc
          | _ => cases hab
      | embedded type values => exact absurd trivial hflat
  | embedded type values ih =>
      cases b with
      | embedded type' values' =>
          cases c with
          | embedded type'' values'' =>
              rw [same_embedded_iff ha.wellNamed] at hab ⊢
              rw [same_embedded_iff hb.wellNamed] at hbc
              refine ⟨hab.1.trans hbc.1, fun name x hx => ?_⟩
              obtain ⟨y, hy, hxy⟩ := hab.2 name x hx
              obtain ⟨z, hz, hyz⟩ := hbc.2 name y hy
              refine ⟨z, hz, ih x (mem_of_propertyOf? ha.wellNamed hx) ?_ ?_ ?_ hxy hyz⟩
              · exact ha.2.propertyOf? hx
              · exact hb.2.propertyOf? hy
              · exact hc.2.propertyOf? hz
          | _ => cases hbc
      | _ => cases hab

end Value

/-- What one field holds in two objects of an entity is of one type. -/
theorem Entity.read_alike {id : EntityId} {o other : Object} (h : o.Sound w id)
    (h' : other.Sound w id) (attr : String) :
    (Entity.read o attr).Alike (Entity.read other attr) := by
  unfold Entity.read Object.field?
  cases hvalue : Value.valueAt? attr o.type.fields o.values with
  | none => trivial
  | some value =>
      cases hvalue' : Value.valueAt? attr other.type.fields other.values with
      | none => cases value <;> trivial
      | some value' =>
          obtain ⟨field, hfield, hname, hfits, hsound⟩ := h.2.valueAt? hvalue
          obtain ⟨field', hfield', hname', hfits', hsound'⟩ := h'.2.valueAt? hvalue'
          rw [h.1] at hfield
          rw [h'.1] at hfield'
          have hsame : field = field' :=
            List.inj_on_of_nodup_map (w.wellNamed_entity id).1 hfield hfield'
              (hname.trans hname'.symm)
          subst hsame
          exact hfits.alike hfits' hsound hsound'

end Chronicle
