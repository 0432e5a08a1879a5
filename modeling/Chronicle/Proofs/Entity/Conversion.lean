import Chronicle.Proofs.Entity.World
import Chronicle.Proofs.Number.Rounding

/-!
# Conversion to field types

Which values the type of a field takes and what the field then holds: integers of either signedness are
taken if they fit, and held as the same integer; collections of either kind become one of the type's kind.
What a field holds it also takes, and holds again as it is.

## Implementation notes

`FieldType.Converts` is the relation that `FieldType.accept?` computes, with one constructor for each
kind of field. `FieldType.Holds` says what fields can hold at all: a number of 32 bits is one that was
narrowed, and a set has no object twice.
-/

namespace Chronicle

open Number (Double)

/-- Whether a value is an integer, of either signedness. -/
inductive Value.IsInteger : Value → Int → Prop where
  | int (n : Int64) : IsInteger (.scalar (.int n)) n.toInt
  | uint (n : UInt64) : IsInteger (.scalar (.uint n)) n.toNat

/-- The objects of a list, of one that is there more than once the first occurrence. -/
def EntitySet.distinct (items : List Ref) : List Ref :=
  items.eraseDupsBy fun a b => b.identity = a.identity

namespace FieldType

/-- Whether a signed integer of a width has a value. -/
def SignedRange (width : Width) (n : Int) : Prop :=
  -2 ^ (width.bits - 1) ≤ n ∧ n < 2 ^ (width.bits - 1)

/-- Whether an unsigned integer of a width has a value. -/
def UnsignedRange (width : Width) (n : Int) : Prop := 0 ≤ n ∧ n < 2 ^ width.bits

instance (width : Width) (n : Int) : Decidable (SignedRange width n) :=
  inferInstanceAs (Decidable (_ ∧ _))

instance (width : Width) (n : Int) : Decidable (UnsignedRange width n) :=
  inferInstanceAs (Decidable (_ ∧ _))

/-- Whether a field of a type takes a value and then holds another one. -/
inductive Converts : FieldType → Value → Value → Prop where
  | signed {width : Width} {value : Value} {n : Int} {stored : Int64} : value.IsInteger n →
      SignedRange width n → stored.toInt = n → Converts (.signed width) value (.scalar (.int stored))
  | unsigned {width : Width} {value : Value} {n : Int} {stored : UInt64} : value.IsInteger n →
      UnsignedRange width n → stored.toNat = n →
      Converts (.unsigned width) value (.scalar (.uint stored))
  | single (x : Double) : Converts .single (.scalar (.float x)) (.scalar (.float x.toSingle))
  | double (x : Double) : Converts .double (.scalar (.float x)) (.scalar (.float x))
  | bool (b : Bool) : Converts .bool (.scalar (.bool b)) (.scalar (.bool b))
  | text (s : String) : Converts .text (.scalar (.text s)) (.scalar (.text s))
  | uuid (u : Uuid) : Converts .uuid (.scalar (.uuid u)) (.scalar (.uuid u))
  | instant (t : Time.Instant) : Converts .instant (.scalar (.instant t)) (.scalar (.instant t))
  | reference {target : String} {r : Ref} : r.type.structName = target →
      Converts (.reference target) (.reference r) (.reference r)
  | list {target : String} {kind : CollectionKind} {items : List Ref} :
      (∀ r ∈ items, r.type.structName = target) →
      Converts (.list target) (.collection kind items) (.collection .list items)
  | set {target : String} {kind : CollectionKind} {items : List Ref} :
      (∀ r ∈ items, r.type.structName = target) →
      Converts (.set target) (.collection kind items) (.collection .set (EntitySet.distinct items))
  | embedded {target : String} {type : EntityType} {values : List Value} : type.structName = target →
      Converts (.embedded target) (.embedded type values) (.embedded type values)
  | null (inner : FieldType) : Converts (.optional inner) .null .null
  | present {inner : FieldType} {value stored : Value} : value.isNull = false →
      Converts inner value stored → Converts (.optional inner) value stored

/-- Whether a field of a type can hold a value. -/
inductive Holds : FieldType → Value → Prop where
  | signed {width : Width} {n : Int64} : SignedRange width n.toInt →
      Holds (.signed width) (.scalar (.int n))
  | unsigned {width : Width} {n : UInt64} : UnsignedRange width n.toNat →
      Holds (.unsigned width) (.scalar (.uint n))
  | single (x : Double) : Holds .single (.scalar (.float x.toSingle))
  | double (x : Double) : Holds .double (.scalar (.float x))
  | bool (b : Bool) : Holds .bool (.scalar (.bool b))
  | text (s : String) : Holds .text (.scalar (.text s))
  | uuid (u : Uuid) : Holds .uuid (.scalar (.uuid u))
  | instant (t : Time.Instant) : Holds .instant (.scalar (.instant t))
  | reference {target : String} {r : Ref} : r.type.structName = target →
      Holds (.reference target) (.reference r)
  | list {target : String} {items : List Ref} : (∀ r ∈ items, r.type.structName = target) →
      Holds (.list target) (.collection .list items)
  | set {target : String} {items : List Ref} : (∀ r ∈ items, r.type.structName = target) →
      (items.map Ref.identity).Nodup → Holds (.set target) (.collection .set items)
  | embedded {target : String} {type : EntityType} {values : List Value} : type.structName = target →
      Holds (.embedded target) (.embedded type values)
  | null (inner : FieldType) : Holds (.optional inner) .null
  | present {inner : FieldType} {value : Value} : Holds inner value → Holds (.optional inner) value

end FieldType

/-! ## Integers -/

theorem Value.IsInteger.unique {value : Value} {m n : Int} (hm : value.IsInteger m)
    (hn : value.IsInteger n) : m = n := by
  cases hm <;> cases hn <;> rfl

namespace FieldType

theorem integer?_eq_some_iff {value : Value} {n : Int} :
    integer? value = some n ↔ value.IsInteger n := by
  constructor
  · intro h
    cases value with
    | scalar scalar =>
        cases scalar with
        | int i =>
            cases h
            exact .int i
        | uint u =>
            cases h
            exact .uint u
        | _ => cases h
    | _ => cases h
  · rintro (i | u) <;> rfl

theorem SignedRange.toInt_ofInt {width : Width} {n : Int} (h : SignedRange width n) :
    (Int64.ofInt n).toInt = n := by
  obtain ⟨hlow, hhigh⟩ := h
  apply Int64.toInt_ofInt_of_le <;> cases width <;> simp only [Width.bits] at hlow hhigh <;> omega

theorem UnsignedRange.toNat_ofNat {width : Width} {n : Int} (h : UnsignedRange width n) :
    ((UInt64.ofNat n.toNat).toNat : Int) = n := by
  obtain ⟨hlow, hhigh⟩ := h
  have hsize : n.toNat < UInt64.size := by
    cases width <;> simp only [Width.bits] at hhigh <;> simp only [UInt64.size] <;> omega
  rw [UInt64.toNat_ofNat_of_lt' hsize, Int.toNat_of_nonneg hlow]

theorem signedIn?_eq_some_iff {width : Width} {n : Int} {accepted : Value} :
    signedIn? width n = some accepted ↔
      SignedRange width n ∧ ∃ stored : Int64, stored.toInt = n ∧ .scalar (.int stored) = accepted := by
  simp only [signedIn?, Int.pow_eq, Option.ite_none_right_eq_some, Option.some.injEq]
  refine and_congr_right fun (hrange : SignedRange width n) =>
    ⟨fun h => ⟨Int64.ofInt n, hrange.toInt_ofInt, h⟩, ?_⟩
  rintro ⟨stored, hn, h⟩
  rw [← h, Int64.toInt_inj.mp (hn.trans hrange.toInt_ofInt.symm)]

theorem unsignedIn?_eq_some_iff {width : Width} {n : Int} {accepted : Value} :
    unsignedIn? width n = some accepted ↔
      UnsignedRange width n ∧
        ∃ stored : UInt64, stored.toNat = n ∧ .scalar (.uint stored) = accepted := by
  simp only [unsignedIn?, Int.pow_eq, Option.ite_none_right_eq_some, Option.some.injEq]
  refine and_congr_right fun (hrange : UnsignedRange width n) =>
    ⟨fun h => ⟨UInt64.ofNat n.toNat, hrange.toNat_ofNat, h⟩, ?_⟩
  rintro ⟨stored, hn, h⟩
  rw [← h, UInt64.toNat_inj.mp (Int.ofNat_inj.mp (hn.trans hrange.toNat_ofNat.symm))]

end FieldType

/-! ## Sets -/

namespace EntitySet

theorem items_insert (set : EntitySet) (r : Ref) : (set.insert r).1.items =
    if set.items.any (fun a => a.identity = r.identity) then set.items else set.items ++ [r] := by
  unfold insert contains
  split_ifs <;> rfl

theorem items_ofList (items : List Ref) : (ofList items).items = distinct items := by
  let put (known : List Ref) (r : Ref) : List Ref :=
    if known.any (fun a => a.identity = r.identity) then known else known ++ [r]
  have hfold : (ofList items).items = items.foldl put [] :=
    (List.foldl_hom EntitySet.items fun set r => (items_insert set r).symm).symm
  exact hfold.trans (foldl_unless_like_nil (fun r a => decide (a.identity = r.identity)) items)

theorem mem_of_mem_distinct {items : List Ref} {r : Ref} (h : r ∈ distinct items) : r ∈ items :=
  mem_ofList ((items_ofList items).symm ▸ h)

theorem distinct_cons (r : Ref) (items : List Ref) :
    distinct (r :: items) = r :: distinct (items.filter fun a => decide (r.identity ≠ a.identity)) := by
  simp [distinct, List.eraseDupsBy_cons]

theorem nodup_insert {set : EntitySet} (h : (set.items.map Ref.identity).Nodup) (r : Ref) :
    ((set.insert r).1.items.map Ref.identity).Nodup := by
  rw [items_insert]
  split_ifs with hknown
  · exact h
  · have hnew : r.identity ∉ set.items.map Ref.identity := by
      simpa using hknown
    rw [List.map_append, List.map_singleton, ← List.concat_eq_append]
    exact h.concat hnew

/-- A set holds no object twice. -/
theorem nodup_distinct (items : List Ref) : ((distinct items).map Ref.identity).Nodup := by
  have key : ∀ (rest : List Ref) (set : EntitySet), (set.items.map Ref.identity).Nodup →
      ((rest.foldl (fun set r => (set.insert r).1) set).items.map Ref.identity).Nodup := by
    intro rest
    induction rest with
    | nil => exact fun set h => h
    | cons r rest ih => exact fun set h => ih (set.insert r).1 (nodup_insert h r)
  rw [← items_ofList]
  exact key items {} List.nodup_nil

/-- What is a set already stays as it is. -/
theorem distinct_eq_self {items : List Ref} (h : (items.map Ref.identity).Nodup) :
    distinct items = items := by
  induction items with
  | nil => rfl
  | cons r items ih =>
      obtain ⟨hr, hitems⟩ := List.nodup_cons.mp h
      have hall : items.filter (fun a => decide (r.identity ≠ a.identity)) = items :=
        List.filter_eq_self.mpr fun a ha =>
          decide_eq_true fun hsame => hr (hsame ▸ List.mem_map_of_mem ha)
      rw [distinct_cons, hall, ih hitems]

end EntitySet

namespace FieldType

/-! ## Conversion -/

theorem accept?_optional {inner : FieldType} {value : Value} (h : value.isNull = false) :
    (optional inner).accept? value = inner.accept? value := by
  cases value with
  | null => cases h
  | _ => rfl

theorem all_structName_iff {target : String} {items : List Ref} :
    items.all (·.type.structName = target) = true ↔ ∀ r ∈ items, r.type.structName = target := by
  simp

theorem Converts.accept?_eq {type : FieldType} {value stored : Value} (h : Converts type value stored) :
    type.accept? value = some stored := by
  induction h with
  | signed hvalue hrange hstored =>
      exact Option.bind_eq_some_iff.mpr
        ⟨_, integer?_eq_some_iff.mpr hvalue, signedIn?_eq_some_iff.mpr ⟨hrange, _, hstored, rfl⟩⟩
  | unsigned hvalue hrange hstored =>
      exact Option.bind_eq_some_iff.mpr
        ⟨_, integer?_eq_some_iff.mpr hvalue, unsignedIn?_eq_some_iff.mpr ⟨hrange, _, hstored, rfl⟩⟩
  | reference htarget => exact if_pos htarget
  | list htarget => exact if_pos (all_structName_iff.mpr htarget)
  | @set target kind items htarget =>
      rw [accept?, if_pos (all_structName_iff.mpr htarget), EntitySet.toValue, EntitySet.items_ofList]
  | embedded htarget => exact if_pos htarget
  | present hvalue _ ih => exact (accept?_optional hvalue).trans ih
  | _ => rfl

theorem converts_of_accept? {type : FieldType} {value stored : Value}
    (h : type.accept? value = some stored) : Converts type value stored := by
  induction type with
  | optional inner ih =>
      cases hnull : value.isNull with
      | true =>
          cases value with
          | null =>
              cases h
              exact .null inner
          | _ => cases hnull
      | false => exact .present hnull (ih ((accept?_optional hnull).symm.trans h))
  | signed width =>
      obtain ⟨n, hvalue, h⟩ := Option.bind_eq_some_iff.mp h
      obtain ⟨hrange, i, hi, rfl⟩ := signedIn?_eq_some_iff.mp h
      exact .signed (integer?_eq_some_iff.mp hvalue) hrange hi
  | unsigned width =>
      obtain ⟨n, hvalue, h⟩ := Option.bind_eq_some_iff.mp h
      obtain ⟨hrange, i, hi, rfl⟩ := unsignedIn?_eq_some_iff.mp h
      exact .unsigned (integer?_eq_some_iff.mp hvalue) hrange hi
  | reference target =>
      cases value with
      | reference r =>
          obtain ⟨htarget, h⟩ := Option.ite_none_right_eq_some.mp h
          cases h
          exact .reference htarget
      | _ => cases h
  | list target =>
      cases value with
      | collection kind items =>
          obtain ⟨htarget, h⟩ := Option.ite_none_right_eq_some.mp h
          cases h
          exact .list (all_structName_iff.mp htarget)
      | _ => cases h
  | set target =>
      cases value with
      | collection kind items =>
          obtain ⟨htarget, h⟩ := Option.ite_none_right_eq_some.mp h
          cases h
          rw [EntitySet.toValue, EntitySet.items_ofList]
          exact .set (all_structName_iff.mp htarget)
      | _ => cases h
  | embedded target =>
      cases value with
      | embedded type values =>
          obtain ⟨htarget, h⟩ := Option.ite_none_right_eq_some.mp h
          cases h
          exact .embedded htarget
      | _ => cases h
  | _ =>
      cases value with
      | scalar scalar =>
          cases scalar <;> cases h
          constructor
      | _ => cases h

/-- A field takes a value exactly if the value converts to its type, and holds the converted value. -/
theorem accept?_eq_some_iff {type : FieldType} {value stored : Value} :
    type.accept? value = some stored ↔ Converts type value stored :=
  ⟨converts_of_accept?, Converts.accept?_eq⟩

theorem accept?_eq_none_iff {type : FieldType} {value : Value} :
    type.accept? value = none ↔ ¬ ∃ stored, Converts type value stored := by
  simp only [← accept?_eq_some_iff, ← Option.isSome_iff_exists, Option.not_isSome_iff_eq_none]

/-- What a field takes it can hold. -/
theorem Converts.holds {type : FieldType} {value stored : Value} (h : Converts type value stored) :
    Holds type stored := by
  induction h with
  | signed _ hrange hstored => exact .signed (hstored.symm ▸ hrange)
  | unsigned _ hrange hstored => exact .unsigned (hstored.symm ▸ hrange)
  | reference htarget => exact .reference htarget
  | list htarget => exact .list htarget
  | set htarget =>
      exact .set (fun r hr => htarget r (EntitySet.mem_of_mem_distinct hr)) (EntitySet.nodup_distinct _)
  | embedded htarget => exact .embedded htarget
  | present _ _ ih => exact .present ih
  | _ => constructor

/-- What a field holds it takes, and holds again as it is. -/
theorem Holds.converts {type : FieldType} {value : Value} (h : Holds type value) :
    Converts type value value := by
  induction h with
  | signed hrange => exact .signed (.int _) hrange rfl
  | unsigned hrange => exact .unsigned (.uint _) hrange rfl
  | single x =>
      have hsingle := Converts.single x.toSingle
      rwa [Number.Double.toSingle_toSingle] at hsingle
  | reference htarget => exact .reference htarget
  | list htarget => exact .list htarget
  | @set target items htarget hnodup =>
      have hset : Converts (.set target) (.collection .set items) _ := .set htarget
      rwa [EntitySet.distinct_eq_self hnodup] at hset
  | embedded htarget => exact .embedded htarget
  | @present inner value hinner ih =>
      cases hnull : value.isNull with
      | true =>
          cases value with
          | null => exact .null inner
          | _ => cases hnull
      | false => exact .present hnull ih
  | _ => constructor

/-! ## Integers in fields -/

/-- Whether a type has a value that is an integer. -/
def HasInteger (type : FieldType) (n : Int) : Prop :=
  match type.base with
  | .signed width => SignedRange width n
  | .unsigned width => UnsignedRange width n
  | _ => False

/-- A field that takes an integer has it among its values and holds it. -/
theorem Converts.integer {type : FieldType} {value stored : Value} {n : Int}
    (h : Converts type value stored) (hvalue : value.IsInteger n) :
    HasInteger type n ∧ stored.IsInteger n := by
  induction h with
  | @signed width value m stored hm hrange hstored =>
      obtain rfl := hvalue.unique hm
      exact ⟨hrange, hstored ▸ .int stored⟩
  | @unsigned width value m stored hm hrange hstored =>
      obtain rfl := hvalue.unique hm
      exact ⟨hrange, hstored ▸ .uint stored⟩
  | present _ _ ih => exact ih hvalue
  | _ => cases hvalue

theorem HasInteger.converts {type : FieldType} {value : Value} {n : Int} (h : HasInteger type n)
    (hvalue : value.IsInteger n) : ∃ stored, Converts type value stored := by
  induction type with
  | signed width =>
      have hrange : SignedRange width n := h
      exact ⟨_, .signed hvalue hrange hrange.toInt_ofInt⟩
  | unsigned width =>
      have hrange : UnsignedRange width n := h
      exact ⟨_, .unsigned hvalue hrange hrange.toNat_ofNat⟩
  | optional inner ih =>
      have hnull : value.isNull = false := by
        cases hvalue <;> rfl
      obtain ⟨stored, hstored⟩ := ih h
      exact ⟨stored, .present hnull hstored⟩
  | _ => cases h

/-- An integer converts exactly if it is among the integers of a type. -/
theorem converts_iff_hasInteger {type : FieldType} {value : Value} {n : Int}
    (hvalue : value.IsInteger n) : (∃ stored, Converts type value stored) ↔ HasInteger type n :=
  ⟨fun ⟨_, h⟩ => (h.integer hvalue).1, fun h => h.converts hvalue⟩

end FieldType

end Chronicle
