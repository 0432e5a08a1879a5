import Chronicle.Proofs.Tracking.Session
import Chronicle.Sample.Setters

/-!
# The world of the sample types

The sample types have distinct field names without dots, and all their setters keep objects sound: also
those that do something other than to assign their argument. A person of this world is created, gets
another creator, and is removed.
-/

namespace Chronicle

instance (name : String) : Decidable (Dotless name) := inferInstanceAs (Decidable (¬ _))

instance (type : EntityType) : Decidable type.WellNamed := inferInstanceAs (Decidable (_ ∧ _))

namespace Sample

theorem wellNamed_types : ∀ type ∈ types, type.WellNamed := by decide +kernel

/-- A world without keys in which all entities are persons. -/
def world : World where
  token := fun _ => none
  embeddable := fun name => (typeNamed? name).getD { structName := name, fields := [] }
  entity := fun _ => person
  structName_embeddable := by
    intro name
    cases htype : typeNamed? name with
    | none => rfl
    | some type => simpa using List.find?_some htype
  wellNamed_embeddable := by
    intro name
    cases htype : typeNamed? name with
    | none => exact ⟨List.nodup_nil, by simp⟩
    | some type => exact wellNamed_types type (List.mem_of_find?_eq_some htype)
  wellNamed_entity := fun _ => wellNamed_types person (by simp [types])

variable {w : World} {id : EntityId}

theorem assignNickname_assigns (o : Object) (value : Value) :
    ∃ new, (new = value ∨ ∃ scalar, new = .scalar scalar) ∧
      assignNickname o value = o.assign "nickname" new := by
  unfold assignNickname
  split
  · exact ⟨_, Or.inr ⟨_, rfl⟩, rfl⟩
  · exact ⟨value, Or.inl rfl, rfl⟩

theorem assignAge_assigns (o : Object) (value : Value) :
    assignAge o value = o ∨
      ∃ new, (new = value ∨ ∃ scalar, new = .scalar scalar) ∧
        assignAge o value = o.assign "age" new := by
  unfold assignAge
  split
  · split_ifs
    · exact Or.inl rfl
    · exact Or.inr ⟨_, Or.inr ⟨_, rfl⟩, rfl⟩
  · exact Or.inr ⟨value, Or.inl rfl, rfl⟩

/-- A setter of a sample type reads its field, and leaves the object as it is or assigns the argument or a
scalar to the field. -/
theorem setters_body {type : EntityType} {setter : Setter} (h : setter ∈ setters type) :
    ∃ field ∈ type.fields, setter.attr = field.name ∧ setter.argument = field.type ∧
      setter.getter = (Entity.read · field.name) ∧
      ∀ o value, setter.body o value = o ∨
        ∃ new, (new = value ∨ ∃ scalar, new = .scalar scalar) ∧
          setter.body o value = o.assign field.name new := by
  obtain ⟨field, hfield, hsetter⟩ := List.mem_filterMap.mp h
  dsimp only at hsetter
  split_ifs at hsetter
  cases hsetter
  refine ⟨field, hfield, rfl, rfl, rfl, fun o value => ?_⟩
  cases hbody : bodyOf? type.structName field.name with
  | none => exact Or.inr ⟨value, Or.inl rfl, rfl⟩
  | some body =>
      unfold bodyOf? at hbody
      split at hbody
      · rename_i hname
        cases hbody
        exact Or.inr (hname ▸ assignNickname_assigns o value)
      · rename_i hname
        cases hbody
        exact hname ▸ assignAge_assigns o value
      · cases hbody

/-- Every setter of a sample type keeps the objects of the type sound. -/
theorem setters_sound {setter : Setter} (h : setter ∈ setters (w.entity id)) : setter.Sound w id := by
  obtain ⟨field, hfield, hattr, hargument, hgetter, hbody⟩ := setters_body h
  refine ⟨fun o value ho hv hfits => ?_, hattr ▸ List.mem_map_of_mem hfield, ?_, ?_⟩
  rotate_left
  · rw [hgetter]
    exact fun o ho => Entity.read_sound ho field.name
  · rw [hgetter]
    exact fun o other ho hother => Entity.read_alike ho hother field.name
  rcases hbody o value with hkeeps | ⟨new, hnew, hassigns⟩
  · rw [hkeeps]
    exact ho
  · have hassign : new.Sound w → new.Fits field.type → (o.assign field.name new).Sound w id :=
      ho.assign (ho.1 ▸ hfield)
    rw [hassigns]
    rcases hnew with rfl | ⟨scalar, rfl⟩
    · exact hassign hv (hargument ▸ hfits)
    · exact hassign trivial trivial

/-- Every setter of a sample type writes its own attribute alone. -/
theorem setters_local {type : EntityType} {setter : Setter} (h : setter ∈ setters type) :
    setter.Local := by
  obtain ⟨field, -, hfield, -, -, hbody⟩ := setters_body h
  intro o value attr hattr
  rcases hbody o value with hkeeps | ⟨new, -, hassigns⟩
  · rw [hkeeps]
  · rw [hassigns]
    exact Entity.read_assign_of_ne o (hfield ▸ hattr) new

/-- A person with a name and a creator. -/
def ann : Entity where
  object := ((Object.fresh person).assign "name" (.scalar (.text "Ann"))).assign "created_by"
    (.scalar (.text "eve"))

theorem ann_sound (id : EntityId) : ann.Sound world id where
  object := by
    have hfresh : (Object.fresh person).Sound world id := Object.fresh_sound
    have hname : ((Object.fresh person).assign "name" (.scalar (.text "Ann"))).Sound world id :=
      hfresh.assign (show plain "name" (maybe .text) ∈ person.fields by decide +kernel)
        trivial trivial
    exact hname.assign (show readOnly "created_by" (maybe .text) ∈ person.fields by decide +kernel)
      trivial trivial
  listener := by simp [ann]

/-- An address in a city, with nothing else assigned. -/
def addressIn (city : String) : Value :=
  ((Object.fresh address).assign "city" (.scalar (.text city))).toValue

theorem addressIn_sound (city : String) : (addressIn city).Sound world := by
  have hfresh : Value.SoundFields world address.fields (Object.fresh address).values :=
    Value.soundFields_initial address.fields
  have hcity : Value.SoundFields world address.fields
      (Object.replaceAt "city" (.scalar (.text city)) address.fields (Object.fresh address).values) :=
    hfresh.replaceAt trivial fun _ _ _ => trivial
  exact ⟨rfl, hcity⟩

/-- A person with a name and an address. -/
def resident : Entity where
  object := ((Object.fresh person).assign "name" (.scalar (.text "Ann"))).assign "address"
    (addressIn "Paris")

theorem resident_sound (id : EntityId) : resident.Sound world id where
  object := by
    have hfresh : (Object.fresh person).Sound world id := Object.fresh_sound
    have hname : ((Object.fresh person).assign "name" (.scalar (.text "Ann"))).Sound world id :=
      hfresh.assign (show plain "name" (maybe .text) ∈ person.fields by decide +kernel)
        trivial trivial
    exact hname.assign
      (show plain "address" (maybe (.embedded "Address")) ∈ person.fields by decide +kernel)
      (addressIn_sound "Paris") rfl
  listener := by simp [resident]

/-- The setter of the address of a person. -/
def setAddress : Setter :=
  .assigning "set_address" (plain "address" (maybe (.embedded "Address"))) true

/-- What is done to a person who moves twice. -/
def relocation : List Step :=
  [.attach 0, .call 0 setAddress (addressIn "Rome"), .flush, .call 0 setAddress (addressIn "Oslo"),
    .flush]

/-- A person who has moved once more since the first flush. -/
def moving : Session := (Session.start [resident]).run (relocation.take 4)

theorem setAddress_mem : setAddress ∈ setters (world.entity 0) :=
  List.mem_of_find?_eq_some (show setterNamed? (world.entity 0) "set_address" = _ from rfl)

theorem relocation_sound : ∀ step ∈ relocation, step.Sound world := by
  have haddress : setAddress.Sound world 0 := setters_sound setAddress_mem
  have hfits : ∀ city, (addressIn city).Fits setAddress.argument := fun _ => rfl
  simp [relocation, Step.Sound, haddress, hfits, addressIn_sound]

/-- The setter of the creator of a person, who cannot be written by name. -/
def setCreator : Setter := .assigning "set_created_by" (readOnly "created_by" (maybe .text)) true

/-- What is done to a person who gets another creator. -/
def recreation : List Step :=
  [.attach 0, .call 0 setCreator (.scalar (.text "mallory")), .flush]

theorem setCreator_mem : setCreator ∈ setters (world.entity 0) :=
  List.mem_of_find?_eq_some (show setterNamed? (world.entity 0) "set_created_by" = _ from rfl)

theorem recreation_sound : ∀ step ∈ recreation, step.Sound world := by
  have hcreator : setCreator.Sound world 0 := setters_sound setCreator_mem
  simpa [recreation, Step.Sound, Value.Sound, Value.Fits] using hcreator

/-- What is done to a new person who gets another creator after the first flush. -/
def creation : List Step :=
  [.persist 0, .flush, .call 0 setCreator (.scalar (.text "mallory")), .flush]

/-- What is done to two new persons, of whom the second one comes first and leaves again. -/
def departure : List Step := [.persist 1, .persist 0, .flush, .remove 1]

/-- What is done to a person who is removed. -/
def removal : List Step := [.attach 0, .remove 0]

theorem removal_sound : ∀ step ∈ removal, step.Sound world := by simp [removal, Step.Sound]

theorem start_sound_of {e : Entity} (h : e.Sound world 0) : (Session.start [e]).Sound world := by
  apply Session.sound_start
  intro id known hknown
  cases id with
  | zero =>
      cases hknown
      exact h
  | succ n => cases hknown

theorem start_sound : (Session.start [ann]).Sound world := start_sound_of (ann_sound 0)

end Sample

end Chronicle
