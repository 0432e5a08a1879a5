import Chronicle.Proofs.Sample.World
import Mathlib.Data.Finset.Card

/-!
# Equal values

The comparison of values is reflexive on values without NaN, transitive, and symmetric from every value
in whose sets no identity is repeated. Two sets are the same if they hold as many items and the first
one holds no identity that the second one lacks; without repeated identities this is to hold the same
identities, and a setter that replaces a set by one with others is heard.

## Implementation notes

`Ref.knownBy` is what two references share if and only if they are the same. A set that holds two objects
with one token has fewer identities than items, so that one of its identities may stand for two, and a set
of as many items may hold an identity besides.
-/

namespace Chronicle

variable {w : World}

/-- Whether the name of an embeddable type tells it from all others. -/
def World.NamesTypes (w : World) : Prop :=
  ∀ m n, (w.embeddable m).name = (w.embeddable n).name → w.embeddable m = w.embeddable n

theorem Number.Double.sameNumber_comm (x y : Number.Double) : x.sameNumber y = y.sameNumber x := by
  unfold sameNumber
  rw [Bool.eq_iff_iff]
  simp only [Bool.and_eq_true, Bool.or_eq_true, Bool.not_eq_true', beq_iff_eq]
  constructor
  · rintro ⟨⟨hx, hy⟩, h⟩
    exact ⟨⟨hy, hx⟩, h.imp Eq.symm And.symm⟩
  · rintro ⟨⟨hx, hy⟩, h⟩
    exact ⟨⟨hy, hx⟩, h.imp Eq.symm And.symm⟩

theorem Scalar.same_comm (a b : Scalar) : a.same b = b.same a := by
  cases a <;> cases b <;> simp [same, Number.Double.sameNumber_comm, Bool.beq_comm]

namespace Ref

/-- What a reference is known by: the token, or the object itself if it has no key. -/
def knownBy (r : Ref) : Token ⊕ Nat := r.token?.elim (.inr r.identity) .inl

theorem same_iff {a b : Ref} (ha : a.Sound w) (hb : b.Sound w) :
    a.same b = true ↔ a.knownBy = b.knownBy := by
  unfold same knownBy
  rw [Bool.or_eq_true, beq_iff_eq]
  cases hat : a.token? with
  | none =>
      cases hbt : b.token? with
      | none => simp
      | some t =>
          have hne : a.identity ≠ b.identity := by
            intro hid
            rw [ha, hid, ← hb, hbt] at hat
            cases hat
          simp [hne]
  | some t =>
      cases hbt : b.token? with
      | none =>
          have hne : a.identity ≠ b.identity := by
            intro hid
            rw [ha, hid, ← hb, hbt] at hat
            cases hat
          simp [hne]
      | some u =>
          have htoken : a.identity = b.identity → t = u := by
            intro hid
            rw [ha, hid, ← hb, hbt, Option.some.injEq] at hat
            exact hat.symm
          simpa using htoken

/-- Whether all items of a list are known in another list. -/
def Within (xs ys : List Ref) : Prop := ∀ x ∈ xs, ∃ y ∈ ys, x.same y = true

/-- Whether no two items of a list are the same. -/
def Distinct (items : List Ref) : Prop := items.Pairwise fun x y => x.same y = false

/-- The identities in a list. -/
def identities (items : List Ref) : Finset (Token ⊕ Nat) := (items.map knownBy).toFinset

variable {xs ys : List Ref}

theorem within_iff (hx : ∀ r ∈ xs, r.Sound w) (hy : ∀ r ∈ ys, r.Sound w) :
    Within xs ys ↔ identities xs ⊆ identities ys := by
  have hsame : ∀ x ∈ xs, ∀ y ∈ ys, (x.same y = true ↔ x.knownBy = y.knownBy) :=
    fun x hxs y hys => same_iff (hx x hxs) (hy y hys)
  constructor
  · intro h known hknown
    simp only [identities, List.mem_toFinset, List.mem_map] at hknown ⊢
    obtain ⟨x, hxs, rfl⟩ := hknown
    obtain ⟨y, hys, hxy⟩ := h x hxs
    exact ⟨y, hys, ((hsame x hxs y hys).mp hxy).symm⟩
  · intro h x hxs
    have hmem : x.knownBy ∈ identities ys :=
      h (by simpa [identities] using ⟨x, hxs, rfl⟩)
    simp only [identities, List.mem_toFinset, List.mem_map] at hmem
    obtain ⟨y, hys, hknown⟩ := hmem
    exact ⟨y, hys, (hsame x hxs y hys).mpr hknown.symm⟩

/-- A list without repeated items has as many identities as items. -/
theorem card_identities (hx : ∀ r ∈ xs, r.Sound w) (hdistinct : Distinct xs) :
    (identities xs).card = xs.length := by
  have hnodup : (xs.map knownBy).Nodup := by
    rw [List.Nodup, List.pairwise_map]
    refine List.Pairwise.imp_of_mem ?_ hdistinct
    intro x y hxs hys hxy hknown
    rw [(same_iff (hx x hxs) (hx y hys)).mpr hknown] at hxy
    cases hxy
  rw [identities, List.toFinset_card_of_nodup hnodup, List.length_map]

theorem card_identities_le (items : List Ref) : (identities items).card ≤ items.length :=
  (List.toFinset_card_le _).trans_eq (List.length_map _)

/-- What holds as many items as a list without repetitions, and all of them, holds nothing else. -/
theorem within_comm_of_distinct (hx : ∀ r ∈ xs, r.Sound w) (hy : ∀ r ∈ ys, r.Sound w)
    (hdistinct : Distinct xs) (hlength : xs.length = ys.length) (h : Within xs ys) : Within ys xs := by
  rw [within_iff hx hy] at h
  have heq : identities xs = identities ys := by
    apply Finset.eq_of_subset_of_card_le h
    rw [card_identities hx hdistinct, hlength]
    exact card_identities_le ys
  rw [within_iff hy hx, heq]

/-- Lists without repetitions that hold the same identities hold as many items. -/
theorem length_eq_of_within (hx : ∀ r ∈ xs, r.Sound w) (hy : ∀ r ∈ ys, r.Sound w)
    (hxs : Distinct xs) (hys : Distinct ys) (h : Within xs ys) (h' : Within ys xs) :
    xs.length = ys.length := by
  rw [within_iff hx hy] at h
  rw [within_iff hy hx] at h'
  rw [← card_identities hx hxs, ← card_identities hy hys, h.antisymm h']

end Ref

namespace Value

/-- Whether no set in a value holds two items that are the same. -/
inductive Unrepeated : Value → Prop where
  | null : Unrepeated .null
  | scalar {value : Scalar} : Unrepeated (.scalar value)
  | reference {target : Ref} : Unrepeated (.reference target)
  | list {items : List Ref} : Unrepeated (.collection .list items)
  | set {items : List Ref} : Ref.Distinct items → Unrepeated (.collection .set items)
  | embedded {type : EntityType} {values : List Value} :
    (∀ value ∈ values, Unrepeated value) → Unrepeated (.embedded type values)

variable {a b c : Value} {xs ys : List Ref}

theorem sameItems_set_iff : sameItems .set xs ys = true ↔ Ref.Within xs ys := by
  simp [sameItems, Ref.Within]

/-- Two sets are the same if they hold as many items, and all of the first one are in the second. -/
theorem same_set_iff : (collection .set xs).same (collection .set ys) = true ↔
    xs.length = ys.length ∧ Ref.Within xs ys := by
  rw [same, Bool.and_eq_true, Bool.and_eq_true, beq_iff_eq, sameItems_set_iff]
  simp

/-- Sets without repeated identities are the same if each holds the identities of the other. -/
theorem same_set_iff_of_distinct (hx : ∀ r ∈ xs, r.Sound w) (hy : ∀ r ∈ ys, r.Sound w)
    (hxs : Ref.Distinct xs) (hys : Ref.Distinct ys) :
    (collection .set xs).same (collection .set ys) = true ↔ Ref.Within xs ys ∧ Ref.Within ys xs := by
  rw [same_set_iff]
  constructor
  · rintro ⟨hlength, h⟩
    exact ⟨h, Ref.within_comm_of_distinct hx hy hxs hlength h⟩
  · rintro ⟨h, h'⟩
    exact ⟨Ref.length_eq_of_within hx hy hxs hys h h', h⟩

theorem same_list_symm (hx : ∀ r ∈ xs, r.Sound w) (hy : ∀ r ∈ ys, r.Sound w)
    (hlength : xs.length = ys.length) (h : sameItems .list xs ys = true) :
    sameItems .list ys xs = true := by
  rw [sameItems_list_iff hlength] at h
  rw [sameItems_list_iff hlength.symm]
  clear hlength
  induction h with
  | nil => exact .nil
  | @cons x y xs ys hfirst hrest ih =>
      rw [List.forall_mem_cons] at hx hy
      have hback : y.same x = true :=
        (Ref.same_iff hy.1 hx.1).mpr ((Ref.same_iff hx.1 hy.1).mp hfirst).symm
      exact .cons hback (ih hx.2 hy.2)

/-- The comparison is symmetric from a value whose sets repeat no identity. -/
theorem same_symm (hnames : w.NamesTypes) (ha : a.Sound w) (hb : b.Sound w) (hunrepeated : a.Unrepeated)
    (hab : a.same b = true) : b.same a = true := by
  induction a using inductionOnParts generalizing b with
  | flat a hflat =>
      cases a with
      | null =>
          cases b with
          | null => rfl
          | _ => cases hab
      | scalar x =>
          cases b with
          | scalar y => exact (Scalar.same_comm y x).trans hab
          | _ => cases hab
      | reference x =>
          cases b with
          | reference y => exact (Ref.same_iff hb ha).mpr ((Ref.same_iff ha hb).mp hab).symm
          | _ => cases hab
      | collection kind xs =>
          cases b with
          | collection other ys =>
              have hkind : kind = other := by
                simp only [same, Bool.and_eq_true, beq_iff_eq] at hab
                exact hab.1.1
              subst hkind
              cases hunrepeated with
              | list =>
                  simp only [same, Bool.and_eq_true, beq_iff_eq] at hab ⊢
                  exact ⟨⟨trivial, hab.1.2.symm⟩, same_list_symm ha hb hab.1.2 hab.2⟩
              | set hdistinct =>
                  rw [same_set_iff] at hab ⊢
                  exact ⟨hab.1.symm, Ref.within_comm_of_distinct ha hb hdistinct hab.1 hab.2⟩
          | _ => cases hab
      | embedded type values => exact absurd trivial hflat
  | embedded type values ih =>
      cases b with
      | embedded other others =>
          rw [same_embedded_iff ha.wellNamed] at hab
          have htype : type = other := by
            rw [ha.1, hb.1]
            apply hnames
            rw [← ha.1, ← hb.1]
            exact hab.1
          subst htype
          cases hunrepeated with
          | embedded hparts =>
              rw [same_embedded_iff hb.wellNamed]
              refine ⟨rfl, fun name y hy => ?_⟩
              obtain ⟨x, hx, -⟩ := hb.2.counterpart ha.wellNamed ha.2 hy
              obtain ⟨counterpart, hcounterpart, hxy⟩ := hab.2 name x hx
              rw [hy, Option.some.injEq] at hcounterpart
              subst hcounterpart
              have hmem := mem_of_propertyOf? ha.wellNamed hx
              exact ⟨x, hx, ih x hmem (ha.2.propertyOf? hx) (hb.2.propertyOf? hy) (hparts x hmem) hxy⟩
      | _ => cases hab

end Value

/-! ## Setters -/

/-- Whether a call of a setter is told to all who listen to the entity, and recorded. -/
structure Entity.Hears (e : Entity) (setter : Setter) (value : Value) : Prop where
  told : (e.call setter value).2 =
    e.recipients.map fun recipient => ⟨recipient, setter.change e.object value⟩
  recorded : ∀ changes, e.changeListener = some (.recording changes) →
    ∃ later, (e.call setter value).1.changeListener = some (.recording later) ∧
      setter.attr ∈ later.names

namespace Entity

variable {e : Entity} {setter : Setter} {value : Value}

/-- Everybody is told of a change, and a change set has an entry for it. -/
theorem hears_of_isChange (hnotifies : setter.notifies = true)
    (hchange : (setter.change e.object value).IsChange)
    (hold : (setter.change e.object value).old.Sound w)
    (hnew : (setter.change e.object value).new.Sound w)
    (halike : (setter.change e.object value).old.Alike (setter.change e.object value).new) :
    e.Hears setter value where
  told := by
    rw [call_of_notifies hnotifies, announce, if_neg (by rw [hchange]; exact Bool.false_ne_true)]
    rfl
  recorded := by
    intro changes hlistener
    rw [call_fst]
    refine ⟨_, ?_, (ChangeSet.mem_names_record changes setter.attr hold hnew halike setter.attr).mpr
      (Or.inr ⟨rfl, hchange⟩)⟩
    rw [if_pos ⟨hnotifies, hchange⟩, hlistener]
    rfl

/-- A setter that replaces a set without repeated identities by one with other identities is heard. -/
theorem hears_of_other_identities (hnotifies : setter.notifies = true) {xs ys : List Ref}
    (hx : ∀ r ∈ xs, r.Sound w) (hy : ∀ r ∈ ys, r.Sound w)
    (hold : setter.getter e.object = .collection .set xs)
    (hnew : setter.getter (setter.body e.object value) = .collection .set ys)
    (hxs : Ref.Distinct xs) (hother : ¬ (Ref.Within xs ys ∧ Ref.Within ys xs)) :
    e.Hears setter value := by
  have hchange : (setter.change e.object value).IsChange := by
    unfold PropertyChange.IsChange Setter.change
    rw [hold, hnew, Bool.eq_false_iff, ne_eq, Value.same_set_iff]
    rintro ⟨hlength, hwithin⟩
    exact hother ⟨hwithin, Ref.within_comm_of_distinct hx hy hxs hlength hwithin⟩
  apply hears_of_isChange (w := w) hnotifies hchange
  · simp only [Setter.change, hold]
    exact hx
  · simp only [Setter.change, hnew]
    exact hy
  · simp only [Setter.change, hold, hnew]
    trivial

end Entity

/-- The comparison of values is reflexive without NaN, symmetric from a value whose sets repeat no
identity (if names tell embeddable types apart), and transitive. Two sets are always compared by their
sizes and by the items of the first one; if neither repeats an identity, they are the same exactly if each
item of either is in the other. A setter that replaces a set without repeated identities by one with other
identities is heard. -/
theorem comparison_laws {a b c : Value} (ha : a.Sound w) (hb : b.Sound w) (hc : c.Sound w) :
    (a.NaNFree → a.same a = true) ∧
      (w.NamesTypes → a.Unrepeated → a.same b = true → b.same a = true) ∧
      (a.same b = true → b.same c = true → a.same c = true) ∧
      (∀ xs ys : List Ref, (∀ r ∈ xs, r.Sound w) → (∀ r ∈ ys, r.Sound w) →
        ((Value.collection .set xs).same (.collection .set ys) = true ↔
          xs.length = ys.length ∧ Ref.Within xs ys) ∧
        (Ref.Distinct xs → Ref.Distinct ys →
          ((Value.collection .set xs).same (.collection .set ys) = true ↔
            Ref.Within xs ys ∧ Ref.Within ys xs)) ∧
        ∀ (e : Entity) (setter : Setter) (value : Value), setter.notifies = true →
          setter.getter e.object = .collection .set xs →
          setter.getter (setter.body e.object value) = .collection .set ys →
          Ref.Distinct xs → ¬ (Ref.Within xs ys ∧ Ref.Within ys xs) → e.Hears setter value) := by
  refine ⟨Value.same_self ha, fun hnames => Value.same_symm hnames ha hb, Value.same_trans ha hb hc, ?_⟩
  intro xs ys hx hy
  refine ⟨Value.same_set_iff, Value.same_set_iff_of_distinct hx hy, ?_⟩
  intro e setter value hnotifies hold hnew hxs hother
  exact Entity.hears_of_other_identities hnotifies hx hy hold hnew hxs hother

namespace Sample

/-- A world of households in which the objects come in twins with one key. -/
def twinWorld : World where
  token := fun identity => some ⟨"Pet", .int (.ofNat (identity / 2))⟩
  embeddable := fun name => { structName := name, fields := [] }
  entity := fun _ => household
  structName_embeddable := fun _ => rfl
  wellNamed_embeddable := fun _ => ⟨List.nodup_nil, by simp⟩
  wellNamed_entity := fun _ => wellNamed_types household (by simp [types])

theorem twinWorld_namesTypes : twinWorld.NamesTypes := by
  intro m n hname
  change m = n at hname
  rw [hname]

/-- A pet, which has the key of its twin. -/
def petRef (identity : Nat) : Ref where
  identity := identity
  type := pet
  key := some (.int (.ofNat (identity / 2)))
  portrait := ""

theorem petRef_sound (identities : List Nat) : ∀ r ∈ identities.map petRef, r.Sound twinWorld := by
  intro r hr
  obtain ⟨identity, -, rfl⟩ := List.mem_map.mp hr
  rfl

/-- A household with pets, to which somebody listens and which is tracked. -/
def householdOf (identities : List Nat) : Entity where
  object := (Object.fresh household).assign "pets" (.collection .set (identities.map petRef))
  listeners := ["audit"]
  changeListener := some .fresh

/-- The setter of the pets of a household. -/
def setPets : Setter := .assigning "set_pets" (plain "pets" (.set "Pet")) true

end Sample

open Sample in
/-- Sets of twins of each other's items are the same both ways, and a household that gets another pet is
heard. -/
theorem twins_same :
    (Value.collection .set ([5, 3].map petRef)).same (.collection .set ([2, 4].map petRef)) = true ∧
      (householdOf [2]).Hears setPets (.collection .set ([4].map petRef)) := by
  have hdistinct : Ref.Distinct ([2, 4].map petRef) := by
    simp only [List.map_cons, List.map_nil, Ref.Distinct]
    decide +kernel
  obtain ⟨-, hsymm, -, -⟩ := comparison_laws (w := twinWorld)
    (a := .collection .set ([2, 4].map petRef)) (b := .collection .set ([5, 3].map petRef))
    (c := .null) (petRef_sound _) (petRef_sound _) trivial
  obtain ⟨-, -, -, hsets⟩ := comparison_laws (w := twinWorld) (a := .null) (b := .null) (c := .null)
    trivial trivial trivial
  refine ⟨hsymm twinWorld_namesTypes (.set hdistinct) (by decide +kernel), ?_⟩
  obtain ⟨-, -, hheard⟩ := hsets ([2].map petRef) ([4].map petRef) (petRef_sound _) (petRef_sound _)
  refine hheard (householdOf [2]) setPets _ rfl rfl rfl (List.pairwise_singleton _ _) ?_
  rintro ⟨hwithin, -⟩
  rw [← Value.sameItems_set_iff] at hwithin
  revert hwithin
  decide +kernel

open Sample in
/-- A set of twins is the same as a set in which another pet stands for one of the two, and not the other
way round; a household whose pets are replaced so hears nothing of it. A set of twins is not the same as
the set of one of them. -/
theorem replaced_twin_unheard :
    (Value.collection .set ([2, 3].map petRef)).same (.collection .set ([2, 4].map petRef)) = true ∧
      (Value.collection .set ([2, 4].map petRef)).same (.collection .set ([2, 3].map petRef)) = false ∧
      ((householdOf [2, 3]).call setPets (.collection .set ([2, 4].map petRef))).2 = [] ∧
      ((householdOf [2, 3]).call setPets (.collection .set ([2, 4].map petRef))).1.changeListener =
        some .fresh ∧
      Ref.Within ([2, 3].map petRef) ([2].map petRef) ∧ Ref.Within ([2].map petRef) ([2, 3].map petRef) ∧
      (Value.collection .set ([2, 3].map petRef)).same (.collection .set ([2].map petRef)) = false := by
  refine ⟨?_, ?_, ?_, ?_, ?_, ?_, ?_⟩
  · decide +kernel
  · decide +kernel
  · rfl
  · rfl
  · exact Value.sameItems_set_iff.mp (by decide +kernel)
  · exact Value.sameItems_set_iff.mp (by decide +kernel)
  · decide +kernel

end Chronicle
