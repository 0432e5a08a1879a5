import Chronicle.Diff.Json
import Chronicle.Proofs.Entity.Scalar
import Mathlib.Tactic.Common

/-!
# Diffs are read back

The JSON form of a diff is read as the same diff, with the order of its changes, the order of ids and
the kind of each collection, as long as the diff is not nested deeper than the reader goes. Where it
has values that do not survive as JSON, it is read as a diff of the same names if every value is read, and
not at all otherwise.

## Implementation notes

A diff need not be proper to be read back: changes may repeat a name. Only the nested diffs must stand in
the strict order of their names, because the reader puts them there.
-/

namespace Chronicle

open Json (ReadsBack ReadsTo Written)

/-! ## Old values -/

theorem CollectionKind.ofJson?_name (kind : CollectionKind) (levels : Nat) :
    CollectionKind.ofJson? levels (.ofText kind.name) = some kind := by
  cases kind <;> rfl

namespace OldValue

/-- Whether an old value survives as JSON. -/
def Portable : OldValue → Prop
  | .scalar value => value.Portable
  | _ => True

theorem written_toJson (old : OldValue) : old.toJson.Written := by
  cases old with
  | null => exact .text _
  | scalar value => exact .single value.written_toJson
  | reference token => exact .single token.written_toJson
  | collection kind tokens =>
      have htokens : (Json.array (tokens.map Token.toJson)).Written :=
        .array (List.forall_mem_map.mpr fun token _ => token.written_toJson)
      exact .single (.pair (.text _) htokens)

/-- What the JSON form of an old value is read as, if it is read. -/
def received? : OldValue → Option OldValue
  | .scalar value => value.received?.map .scalar
  | old => some old

theorem readsTo (old : OldValue) : ReadsTo OldValue.ofJson? old.toJson old.received? := by
  cases old with
  | null => exact fun levels => (if_pos levels.zero_le).symm
  | scalar value =>
      refine fun _ => Json.variant?_bind fun inner _ => ?_
      simp only [value.readsTo inner, received?]
      split <;> rfl
  | reference token =>
      refine fun _ => Json.variant?_bind fun inner _ => ?_
      simp only [token.readsBack inner, received?, Option.map_if]
  | collection kind tokens =>
      refine fun _ => Json.variant?_bind fun _ _ => Json.record?_bind (by simp) fun inner _ => ?_
      simp only [List.lookup_cons, BEq.rfl, String.reduceBEq, Option.bind_eq_bind, Option.bind_some,
        CollectionKind.ofJson?_name, List.mem_cons, List.not_mem_nil, or_false, forall_eq_or_imp,
        Json.depth_ofText, zero_le, forall_eq, true_and]
      refine Json.items?_bind fun inner _ => ?_
      have htokens := Json.mapM_readsBack (fun token (_ : token ∈ tokens) => token.readsBack) inner
      simp only [htokens, Json.bind_ite, received?]

theorem Portable.received?_eq {old : OldValue} (h : old.Portable) : old.received? = some old := by
  cases old with
  | scalar value => rw [received?, Scalar.Portable.received?_eq h, Option.map_some]
  | _ => rfl

theorem Portable.readsBack {old : OldValue} (h : old.Portable) :
    ReadsBack OldValue.ofJson? old.toJson old :=
  fun levels => h.received?_eq ▸ old.readsTo levels

/-- Whether an old value is read from its JSON form. -/
def Readable : OldValue → Prop
  | .scalar value => value.Readable
  | _ => True

theorem isSome_received? (old : OldValue) : old.received?.isSome = true ↔ old.Readable := by
  cases old with
  | scalar value => rw [received?, Option.isSome_map]; exact value.isSome_received?
  | _ => exact iff_of_true rfl trivial

theorem depth_toJson_le (old : OldValue) : old.toJson.depth ≤ 5 := by
  cases old with
  | null => exact Nat.zero_le 5
  | scalar value =>
      refine Json.depth_ofMembers_le_succ.mpr ?_
      simpa using value.depth_toJson_le.trans (by decide)
  | reference token =>
      refine Json.depth_ofMembers_le_succ.mpr ?_
      simpa using token.depth_toJson_le.trans (by decide)
  | collection kind tokens =>
      have htokens : (Json.array (tokens.map Token.toJson)).depth ≤ 3 :=
        Json.depth_array_le_succ.mpr (List.forall_mem_map.mpr fun token _ => token.depth_toJson_le)
      have hrecord : (Json.ofMembers [("kind", .ofText kind.name),
          ("ids", .array (tokens.map Token.toJson))]).depth ≤ 4 :=
        Json.depth_ofMembers_le_succ.mpr (by simpa using htokens)
      exact Json.depth_ofMembers_le_succ.mpr (by simpa using hrecord)

end OldValue

/-! ## Changes -/

namespace Change

theorem written_toJson (change : Change) : change.toJson.Written :=
  .pair (.text _) change.old.written_toJson

/-- What the JSON form of a change is read as, if it is read. -/
def received? (change : Change) : Option Change :=
  change.old.received?.map (Change.mk change.name)

theorem readsTo (change : Change) : ReadsTo Change.ofJson? change.toJson change.received? := by
  refine fun _ => Json.record?_bind (by simp) fun inner _ => ?_
  simp [List.lookup_cons, Json.text?_ofText, change.old.readsTo inner, Json.bind_if, received?,
    Option.map_eq_bind]

theorem received?_eq {change : Change} (h : change.old.Portable) : change.received? = some change := by
  rw [received?, h.received?_eq, Option.map_some]

theorem isSome_received? (change : Change) : change.received?.isSome = true ↔ change.old.Readable := by
  rw [received?, Option.isSome_map]
  exact change.old.isSome_received?

theorem name_of_received? {change received : Change} (h : change.received? = some received) :
    received.name = change.name := by
  obtain ⟨old, -, rfl⟩ := Option.map_eq_some_iff.mp h
  rfl

theorem depth_toJson_le (change : Change) : change.toJson.depth ≤ 6 := by
  refine Json.depth_ofMembers_le_succ.mpr ?_
  simpa using change.old.depth_toJson_le

end Change

/-! ## Diffs -/

namespace Diff

/-- Whether the nested diffs of every level stand in the strict order of their names. -/
def Keyed : Diff → Prop
  | .plain _ => True
  | .nest name nested rest =>
    nested.Keyed ∧ (∀ key ∈ rest.embedded.map Prod.fst, name < key) ∧ rest.Keyed

/-- Whether every old value of a diff survives as JSON. -/
def Portable : Diff → Prop
  | .plain changes => ∀ change ∈ changes, change.old.Portable
  | .nest _ nested rest => nested.Portable ∧ rest.Portable

theorem Keyed.embedded {d : Diff} (h : d.Keyed) : ∀ m ∈ d.embedded, m.2.Keyed := by
  induction d with
  | plain changes => simp [Diff.embedded]
  | nest name nested rest _ ih =>
      obtain ⟨hnested, -, hrest⟩ := h
      exact List.forall_mem_cons.mpr ⟨hnested, ih hrest⟩

theorem jsonNested_eq (d : Diff) :
    d.jsonNested = d.embedded.map fun (name, nested) => (name, nested.toJson) := by
  induction d with
  | plain changes => rfl
  | nest name nested rest _ ih =>
      rw [jsonNested, ih]
      rfl

theorem written_jsonWith (changes : List Change) {nested : List (String × Json)}
    (hnested : ∀ m ∈ nested, m.2.Written) : (jsonWith changes nested).Written :=
  .pair (.array (List.forall_mem_map.mpr fun change _ => change.written_toJson)) (.members hnested)

theorem written_jsonNested (d : Diff) : ∀ m ∈ d.jsonNested, m.2.Written := by
  induction d with
  | plain changes => simp [jsonNested]
  | nest name nested rest ihNested ihRest =>
      exact List.forall_mem_cons.mpr ⟨written_jsonWith nested.changes ihNested, ihRest⟩

theorem written_toJson (d : Diff) : d.toJson.Written :=
  written_jsonWith d.changes d.written_jsonNested

/-- Nested diffs around plain changes. -/
def around (changes : List Change) (nested : List (String × Diff)) : Diff :=
  nested.foldr (fun (name, inner) rest => .nest name inner rest) (.plain changes)

/-- A nested diff with the last of all names is put behind the others. -/
theorem upsert_around {changes : List Change} {nested : List (String × Diff)} {name : String}
    (h : ∀ key ∈ nested.map Prod.fst, key < name) (present : Diff → Diff) (absent : Diff) :
    (around changes nested).upsert name present absent = around changes (nested ++ [(name, absent)]) := by
  induction nested with
  | nil => rfl
  | cons m nested ih =>
      obtain ⟨other, inner⟩ := m
      obtain ⟨hother, hrest⟩ := List.forall_mem_cons.mp h
      have hne : other ≠ name := fun heq => String.lt_irrefl name (heq ▸ hother)
      have hlt : ¬name < other := fun hlt => String.lt_irrefl name (String.lt_trans hlt hother)
      show (Diff.nest other inner (around changes nested)).upsert name present absent = _
      rw [upsert, if_neg hne, if_neg hlt, ih hrest]
      rfl

theorem foldl_upsert_around (changes : List Change) {done nested : List (String × Diff)}
    (h : ((done ++ nested).map Prod.fst).Pairwise (· < ·)) :
    nested.foldl (fun diff (name, inner) => diff.upsert name (fun _ => inner) inner)
      (around changes done) = around changes (done ++ nested) := by
  induction nested generalizing done with
  | nil => rw [List.foldl_nil, List.append_nil]
  | cons m nested ih =>
      obtain ⟨name, inner⟩ := m
      have hlast : ∀ key ∈ done.map Prod.fst, key < name := by
        rw [List.map_append, List.pairwise_append] at h
        exact fun key hkey => h.2.2 key hkey name List.mem_cons_self
      have hsplit : done ++ (name, inner) :: nested = done ++ [(name, inner)] ++ nested := by simp
      rw [hsplit] at h ⊢
      rw [List.foldl_cons]
      show nested.foldl _ ((around changes done).upsert name (fun _ => inner) inner) = _
      rw [upsert_around hlast, ih h]

theorem Keyed.pairwise {d : Diff} (h : d.Keyed) : (d.embedded.map Prod.fst).Pairwise (· < ·) := by
  induction d with
  | plain changes => exact List.Pairwise.nil
  | nest name nested rest _ ih =>
      obtain ⟨-, hkeys, hrest⟩ := h
      exact List.pairwise_cons.mpr ⟨hkeys, ih hrest⟩

/-- Reads a nested diff with its name. -/
def readMember? (depth levels : Nat) (m : String × Json) : Option (String × Diff) :=
  (readJson? depth levels m.2).map (m.1, ·)

theorem readJson?_succ (depth levels : Nat) (json : Json) :
    readJson? (depth + 1) levels json =
      (json.record? ["changes", "embedded"] levels).bind fun (levels, fields) =>
        (fields "changes").bind fun changes => (changes.items? levels).bind fun (inner, items) =>
          (items.mapM (Change.ofJson? inner)).bind fun changes =>
            (fields "embedded").bind fun embedded => (embedded.members? levels).bind
              fun (inner, members) => (members.mapM (readMember? depth inner)).bind
                fun nested => some (ofParts changes nested) := rfl

/-- What the JSON form of a diff is read as, if it is read. -/
def received? : Diff → Option Diff
  | .plain changes => (changes.mapM Change.received?).map .plain
  | .nest name nested rest => nested.received?.bind fun nested =>
      rest.received?.map (Diff.nest name nested)

/-- What a nested diff is read as, with its name. -/
def receivedMember? (m : String × Diff) : Option (String × Diff) := m.2.received?.map (m.1, ·)

theorem name_of_receivedMember? {m received : String × Diff} (h : receivedMember? m = some received) :
    received.1 = m.1 := by
  obtain ⟨inner, -, rfl⟩ := Option.map_eq_some_iff.mp h
  rfl

/-- The parts of what a diff is read as are read from the parts of the diff. -/
theorem received?_eq (d : Diff) :
    d.received? = (d.changes.mapM Change.received?).bind fun changes =>
      (d.embedded.mapM receivedMember?).map (around changes) := by
  induction d with
  | plain changes => simp [received?, Diff.changes, Diff.embedded, around, Option.map_eq_bind]
  | nest name nested rest _ ih =>
      rw [received?, ih, Diff.embedded, List.mapM_cons, receivedMember?, Diff.changes]
      cases nested.received? with
      | none => cases rest.changes.mapM Change.received? <;> rfl
      | some inner =>
          cases rest.changes.mapM Change.received? with
          | none => rfl
          | some changes => cases rest.embedded.mapM receivedMember? <;> rfl

/-- The parts of a diff are read as the parts of what the diff is read as. -/
theorem Keyed.ofParts_received? {d : Diff} (h : d.Keyed) :
    ((d.changes.mapM Change.received?).bind fun changes =>
      (d.embedded.mapM receivedMember?).bind fun nested => some (ofParts changes nested)) =
        d.received? := by
  rw [received?_eq]
  refine Option.bind_congr fun changes _ => ?_
  cases hmembers : d.embedded.mapM receivedMember? with
  | none => rfl
  | some nested =>
      have hnames : nested.map Prod.fst = d.embedded.map Prod.fst :=
        Json.map_eq_of_mapM (fun _ _ hread => name_of_receivedMember? hread) hmembers
      have hkeys : (([] ++ nested).map Prod.fst).Pairwise (· < ·) := hnames ▸ h.pairwise
      exact congrArg some (foldl_upsert_around changes hkeys)

theorem mapM_readMember? {depth inner : Nat} {d : Diff}
    (h : ∀ m ∈ d.embedded, readJson? depth (inner + 1) m.2.toJson =
      if m.2.toJson.depth ≤ inner then m.2.received? else none) :
    d.jsonNested.mapM (readMember? depth (inner + 1)) =
      if ∀ m ∈ d.jsonNested, m.2.depth ≤ inner then d.embedded.mapM receivedMember? else none := by
  have hmember : ∀ m ∈ d.embedded, readMember? depth (inner + 1) (m.1, m.2.toJson) =
      if m.2.toJson.depth ≤ inner then receivedMember? m else none := by
    intro m hm
    rw [readMember?, h m hm]
    split <;> rfl
  rw [jsonNested_eq, List.mapM_map]
  simp only [List.forall_mem_map]
  exact Json.mapM_if hmember

/-- The bound on the recursion covers the levels: a nested diff is two levels further in, and one
step of the recursion. -/
theorem readJson?_toJson {depth levels : Nat} {d : Diff} (hkeyed : d.Keyed) (h : levels < depth) :
    readJson? depth (levels + 1) d.toJson =
      if d.toJson.depth ≤ levels then d.received? else none := by
  induction depth generalizing levels d with
  | zero => exact absurd h (Nat.not_lt_zero _)
  | succ depth ih =>
      have hchange : ∀ c ∈ d.changes, ReadsTo Change.ofJson? c.toJson c.received? :=
        fun c _ => c.readsTo
      have hembedded : ∀ inner ≤ levels, ∀ changes,
          ((Json.ofMembers d.jsonNested).members? (inner + 1)).bind (fun (inner, members) =>
            (members.mapM (readMember? depth inner)).bind fun nested => some (ofParts changes nested)) =
            if (Json.ofMembers d.jsonNested).depth ≤ inner then
              (d.embedded.mapM receivedMember?).bind fun nested => some (ofParts changes nested)
            else none := by
        intro inner hinner changes
        refine Json.members?_bind fun innermost hlt => ?_
        have hnested := @mapM_readMember? depth innermost d fun m hm =>
          ih (hkeyed.embedded m hm) (by omega)
        simp only [hnested, Json.bind_if]
      rw [readJson?_succ, ← hkeyed.ofParts_received?]
      refine Json.record?_bind (by simp) fun inner hinner => ?_
      simp only [List.lookup_cons_self, List.lookup_cons, String.reduceBEq, Option.bind_some,
        List.mem_cons, List.not_mem_nil, or_false, forall_eq_or_imp, forall_eq, ite_and]
      refine Json.items?_bind fun innermost _ => ?_
      simp only [Json.mapM_readsTo hchange, Json.bind_if]
      refine if_congr Iff.rfl ?_ rfl
      refine (Option.bind_congr fun changes _ => hembedded inner hinner.le changes).trans ?_
      split
      · rfl
      · exact Option.bind_fun_none _

/-- A diff is read as far as the values in it are, if its text is not nested too deep. -/
theorem Keyed.readsTo {d : Diff} (h : d.Keyed) : ReadsTo Diff.ofJson? d.toJson d.received? :=
  fun levels => readJson?_toJson h levels.lt_succ_self

theorem Portable.received?_eq {d : Diff} (h : d.Portable) : d.received? = some d := by
  induction d with
  | plain changes =>
      have hchanges := Json.mapM_eq_self fun change hchange => Change.received?_eq (h change hchange)
      rw [received?, hchanges, Option.map_some]
  | nest name nested rest ihNested ihRest =>
      rw [received?, ihNested h.1, ihRest h.2, Option.bind_some, Option.map_some]

/-- A diff is read back if its text is not nested too deep. -/
theorem readsBack {d : Diff} (hkeyed : d.Keyed) (hportable : d.Portable) :
    ReadsBack Diff.ofJson? d.toJson d :=
  fun levels => hportable.received?_eq ▸ hkeyed.readsTo levels

/-! ## What is read -/

/-- Whether every old value of a diff is read from its JSON form. -/
def Readable : Diff → Prop
  | .plain changes => ∀ change ∈ changes, change.old.Readable
  | .nest _ nested rest => nested.Readable ∧ rest.Readable

theorem isSome_received? (d : Diff) : d.received?.isSome = true ↔ d.Readable := by
  induction d with
  | plain changes =>
      rw [received?, Option.isSome_map, Json.isSome_mapM]
      exact forall₂_congr fun change _ => change.isSome_received?
  | nest name nested rest ihNested ihRest =>
      rw [received?, Readable, ← ihNested, ← ihRest]
      cases nested.received? <;> simp

/-- What a diff is read as has the names of the diff, at the top and in every nested diff. -/
theorem names_of_received? {d received : Diff} (h : d.received? = some received) :
    received.changes.map Change.name = d.changes.map Change.name ∧
      received.embedded.map Prod.fst = d.embedded.map Prod.fst ∧
      received.nestedPaths = d.nestedPaths := by
  induction d generalizing received with
  | plain changes =>
      obtain ⟨read, hread, rfl⟩ := Option.map_eq_some_iff.mp h
      exact ⟨Json.map_eq_of_mapM (fun _ _ hchange => Change.name_of_received? hchange) hread, rfl, rfl⟩
  | nest name nested rest ihNested ihRest =>
      obtain ⟨readNested, hnested, h⟩ := Option.bind_eq_some_iff.mp h
      obtain ⟨readRest, hrest, rfl⟩ := Option.map_eq_some_iff.mp h
      obtain ⟨hchanges, -, hpaths⟩ := ihNested hnested
      obtain ⟨hrestChanges, hrestNames, hrestPaths⟩ := ihRest hrest
      refine ⟨hrestChanges, congrArg (name :: ·) hrestNames, ?_⟩
      rw [nestedPaths, nestedPaths, hchanges, hpaths, hrestPaths]

/-! ## Nesting and depth -/

/-- The number of nested diffs around the innermost part of a diff. -/
def nesting : Diff → Nat
  | .plain _ => 0
  | .nest _ nested rest => max (nested.nesting + 1) rest.nesting

theorem nesting_le_zero {d : Diff} : d.nesting ≤ 0 ↔ d.embedded = [] := by
  cases d with
  | plain changes => simp [nesting, Diff.embedded]
  | nest name nested rest => simp [nesting, Diff.embedded]

theorem nesting_le_succ {d : Diff} {n : Nat} :
    d.nesting ≤ n + 1 ↔ ∀ m ∈ d.embedded, m.2.nesting ≤ n := by
  induction d with
  | plain changes => simp [nesting, Diff.embedded]
  | nest name nested rest _ ih =>
      rw [nesting, Nat.max_le, ih, Diff.embedded, List.forall_mem_cons, Nat.add_le_add_iff_right]

/-- The text of a diff is two levels deeper than what the diff holds. -/
theorem depth_toJson_le_add_two {d : Diff} {levels : Nat} :
    d.toJson.depth ≤ levels + 2 ↔
      (∀ c ∈ d.changes, c.toJson.depth ≤ levels) ∧ ∀ m ∈ d.embedded, m.2.toJson.depth ≤ levels := by
  rw [toJson, jsonWith, Json.depth_ofMembers_le_succ, List.forall_mem_cons, List.forall_mem_singleton,
    Json.depth_array_le_succ, Json.depth_ofMembers_le_succ, List.forall_mem_map, jsonNested_eq,
    List.forall_mem_map]

theorem two_le_depth_toJson (d : Diff) : 2 ≤ d.toJson.depth := by
  by_contra hlt
  have hmembers := Json.depth_ofMembers_le_succ.mp (Nat.le_of_lt_succ (Nat.not_le.mp hlt))
  exact Json.not_depth_array_le_zero _ (hmembers ("changes", _) List.mem_cons_self)

/-- A diff that is nested less deep has a text that is less deep. -/
theorem depth_toJson_le {d : Diff} {n : Nat} (hn : d.nesting ≤ n) : d.toJson.depth ≤ 2 * n + 8 := by
  induction n generalizing d with
  | zero =>
      refine depth_toJson_le_add_two.mpr ⟨fun c _ => c.depth_toJson_le, ?_⟩
      rw [nesting_le_zero.mp hn]
      exact List.forall_mem_nil _
  | succ n ih =>
      refine depth_toJson_le_add_two.mpr ⟨fun c _ => ?_, fun m hm => ?_⟩
      · exact c.depth_toJson_le.trans (by omega)
      · exact ih (nesting_le_succ.mp hn m hm)

/-- The nesting of a diff is bounded by the depth of its text. -/
theorem nesting_le {d : Diff} {n : Nat} (h : d.toJson.depth ≤ 2 * n + 3) : d.nesting ≤ n := by
  induction n generalizing d with
  | zero =>
      obtain ⟨-, hembedded⟩ := depth_toJson_le_add_two.mp h
      refine nesting_le_zero.mpr (List.eq_nil_iff_forall_not_mem.mpr fun m hm => ?_)
      exact absurd ((two_le_depth_toJson m.2).trans (hembedded m hm)) (by decide)
  | succ n ih =>
      obtain ⟨-, hembedded⟩ := depth_toJson_le_add_two.mp h
      exact nesting_le_succ.mpr fun m hm => ih (hembedded m hm)

end Diff

end Chronicle
