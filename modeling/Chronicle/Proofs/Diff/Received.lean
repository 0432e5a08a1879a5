import Chronicle.Proofs.Diff.Algebra
import Chronicle.Proofs.Event.Json

/-!
# Diffs that are received

A reader puts the nested diffs of every level into the strict order of their names, whatever the text is.
The plain changes of a level it keeps as they are written. So a received diff is one that the operations
build exactly if no level of the text names a change twice, and then every law of such diffs holds of
it; otherwise the names come twice out of it, and the first old value answers for a name, where adding
the changes one after another would have let the last one answer.

## Implementation notes

Of the nested members with one name a reader keeps the last, so only that one has to name its changes
once. What is read of one level is separated from the recursion, and the condition on texts follows the
recursion of the reader.
-/

namespace Chronicle

namespace Diff

/-! ## One level of a text -/

/-- The outermost level of the JSON form of a diff: its plain changes, and its nested members with the
levels that remain inside them. -/
def readLevel? (levels : Nat) (json : Json) : Option (List Change × Nat × List (String × Json)) := do
  let (levels, fields) ← json.record? ["changes", "embedded"] levels
  let (inner, items) ← (← fields "changes").items? levels
  let changes ← items.mapM (Change.ofJson? inner)
  let (inner, members) ← (← fields "embedded").members? levels
  some (changes, inner, members)

theorem readJson?_eq_readLevel? (depth levels : Nat) (json : Json) :
    readJson? (depth + 1) levels json = (readLevel? levels json).bind fun (changes, inner, members) =>
      (members.mapM (readMember? depth inner)).bind fun nested => some (ofParts changes nested) := by
  simp only [readJson?_succ, readLevel?, Option.bind_eq_bind, Option.bind_assoc, Option.bind_some]

/-- What stands last under a name. -/
def lastOf? {α : Type} (name : String) : List (String × α) → Option α
  | [] => none
  | (key, value) :: rest => (lastOf? name rest).or (if key = name then some value else none)

/-- Whether no level of the JSON form of a diff names a change twice, in the nested diffs that a reader
keeps. -/
def NamesOnce : Nat → Nat → Json → Prop
  | 0, _, _ => True
  | depth + 1, levels, json =>
    ∀ changes inner members, readLevel? levels json = some (changes, inner, members) →
      (changes.map Change.name).Nodup ∧
        ∀ name value, lastOf? name members = some value → NamesOnce depth inner value

/-- Whether no level of a text names a change twice, in the nested diffs that a reader keeps. -/
def NamesOnceIn (text : String) : Prop :=
  ∀ json, Json.ofText? text = some json → NamesOnce Json.nestingLimit Json.nestingLimit json

/-! ## Nested diffs around plain changes -/

theorem Keyed.upsert {d inner : Diff} (h : d.Keyed) (hinner : inner.Keyed) (name : String) :
    (d.upsert name (fun _ => inner) inner).Keyed := by
  induction d with
  | plain changes => exact ⟨hinner, List.forall_mem_nil _, trivial⟩
  | nest n nested rest _ ih =>
      obtain ⟨hnested, hkeys, hrest⟩ := h
      unfold Diff.upsert
      split_ifs with heq hlt
      · exact ⟨hinner, hkeys, hrest⟩
      · refine ⟨hinner, ?_, hnested, hkeys, hrest⟩
        exact List.forall_mem_cons.mpr ⟨hlt, fun key hkey => String.lt_trans hlt (hkeys key hkey)⟩
      · refine ⟨hnested, ?_, ih hrest⟩
        intro key hkey
        rcases (mem_keys_upsert rest name _ inner key).mp hkey with rfl | hkey
        · by_contra hge
          exact heq (String.le_antisymm (String.not_lt.mp hlt) (String.not_lt.mp hge))
        · exact hkeys key hkey

theorem nested?_upsert_const (d inner : Diff) (name key : String) :
    (d.upsert name (fun _ => inner) inner).nested? key =
      if name = key then some inner else d.nested? key := by
  induction d with
  | plain changes => rfl
  | nest n nested rest _ ih =>
      by_cases hn : n = name
      · subst hn
        by_cases hkey : n = key <;> simp [upsert, nested?, hkey]
      · by_cases hlt : name < n
        · rw [upsert, if_neg hn, if_pos hlt, nested?]
        · simp only [upsert, if_neg hn, if_neg hlt, nested?, ih]
          by_cases hkey : name = key
          · subst hkey
            rw [if_neg hn, if_pos rfl, if_pos rfl]
          · rw [if_neg hkey, if_neg hkey]

section OfParts

variable {changes : List Change} {nested : List (String × Diff)}

@[simp] theorem changes_foldl_upsert (d : Diff) (nested : List (String × Diff)) :
    (nested.foldl (fun diff (name, inner) => diff.upsert name (fun _ => inner) inner) d).changes =
      d.changes := by
  induction nested generalizing d with
  | nil => rfl
  | cons m nested ih => exact (ih _).trans (changes_upsert d m.1 _ m.2)

theorem changes_ofParts : (ofParts changes nested).changes = changes :=
  changes_foldl_upsert (.plain changes) nested

theorem nested?_foldl_upsert (d : Diff) (key : String) :
    (nested.foldl (fun diff (name, inner) => diff.upsert name (fun _ => inner) inner) d).nested? key =
      (lastOf? key nested).or (d.nested? key) := by
  induction nested generalizing d with
  | nil => rfl
  | cons m nested ih =>
      rw [List.foldl_cons, ih, nested?_upsert_const, lastOf?, Option.or_assoc]
      by_cases hkey : m.1 = key
      · rw [if_pos hkey, if_pos hkey, Option.some_or]
      · rw [if_neg hkey, if_neg hkey, Option.none_or]

/-- Of the nested diffs with one name the last is kept. -/
theorem nested?_ofParts (key : String) : (ofParts changes nested).nested? key = lastOf? key nested :=
  (nested?_foldl_upsert (.plain changes) key).trans Option.or_none

theorem keyed_foldl_upsert {d : Diff} (h : d.Keyed) (hnested : ∀ m ∈ nested, m.2.Keyed) :
    (nested.foldl (fun diff (name, inner) => diff.upsert name (fun _ => inner) inner) d).Keyed := by
  induction nested generalizing d with
  | nil => exact h
  | cons m nested ih =>
      obtain ⟨hm, hrest⟩ := List.forall_mem_cons.mp hnested
      exact ih (h.upsert hm m.1) hrest

theorem keyed_ofParts (h : ∀ m ∈ nested, m.2.Keyed) : (ofParts changes nested).Keyed :=
  keyed_foldl_upsert trivial h

end OfParts

/-! ## Orderly diffs, level by level -/

theorem Proper.keyed {legal : String → Prop} {d : Diff} (h : d.Proper legal) : d.Keyed := by
  induction d with
  | plain changes => trivial
  | nest name nested rest ihNested ihRest =>
      obtain ⟨-, hnested, hkeys, hrest⟩ := h
      exact ⟨ihNested hnested, hkeys, ihRest hrest⟩

theorem Proper.orderly {legal : String → Prop} {d : Diff} (h : d.Proper legal) : d.Orderly := by
  induction d with
  | plain changes => exact ⟨h.1, fun _ _ => trivial⟩
  | nest name nested rest ihNested ihRest =>
      obtain ⟨-, hnested, hkeys, hrest⟩ := h
      exact ⟨trivial, ihNested hnested, hkeys, ihRest hrest⟩

theorem Keyed.orderly_iff {d : Diff} (h : d.Keyed) :
    d.Orderly ↔
      (d.changes.map Change.name).Nodup ∧ ∀ key inner, d.nested? key = some inner → inner.Orderly := by
  constructor
  · intro horderly
    exact ⟨horderly.nodup, fun key inner hinner => (horderly.nested hinner).2⟩
  · rintro ⟨hnodup, hinner⟩
    induction d with
    | plain changes => exact ⟨hnodup, fun _ _ => trivial⟩
    | nest name nested rest _ ih =>
        obtain ⟨-, hkeys, hrest⟩ := h
        refine ⟨trivial, hinner name nested (if_pos rfl), hkeys, ih hrest hnodup fun key inner hkey => ?_⟩
        have hmem : key ∈ rest.embedded.map Prod.fst :=
          (nested?_isSome_iff rest key).mp (Option.isSome_of_eq_some hkey)
        have hne : name ≠ key := fun heq => String.lt_irrefl key (heq ▸ hkeys key hmem)
        exact hinner key inner ((if_neg hne).trans hkey)

/-! ## What a reader gives -/

variable {depth levels : Nat} {json : Json} {d : Diff}

/-- A reader gives the plain changes as they are written, around the nested diffs that it has read. -/
theorem readJson?_eq_some (h : readJson? (depth + 1) levels json = some d) :
    ∃ changes inner members nested, readLevel? levels json = some (changes, inner, members) ∧
      List.Forall₂ (fun m n => readMember? depth inner m = some n) members nested ∧
      d = ofParts changes nested := by
  rw [readJson?_eq_readLevel?, Option.bind_eq_some_iff] at h
  obtain ⟨⟨changes, inner, members⟩, hlevel, h⟩ := h
  obtain ⟨nested, hnested, h⟩ := Option.bind_eq_some_iff.mp h
  exact ⟨changes, inner, members, nested, hlevel, Json.forall₂_of_mapM hnested, (Option.some.inj h).symm⟩

theorem readMember?_eq_some {inner : Nat} {m : String × Json} {n : String × Diff}
    (h : readMember? depth inner m = some n) : m.1 = n.1 ∧ readJson? depth inner m.2 = some n.2 := by
  obtain ⟨nested, hnested, rfl⟩ := Option.map_eq_some_iff.mp h
  exact ⟨rfl, hnested⟩

/-- What stands last under a name was read from what stood last under it. -/
theorem lastOf?_rel {inner : Nat} {members : List (String × Json)} {nested : List (String × Diff)}
    (h : List.Forall₂ (fun m n => readMember? depth inner m = some n) members nested) (key : String) :
    Option.Rel (fun value nested => readJson? depth inner value = some nested)
      (lastOf? key members) (lastOf? key nested) := by
  induction h with
  | nil => exact .none
  | @cons m n members nested hread _ ih =>
      obtain ⟨hname, hvalue⟩ := readMember?_eq_some hread
      rw [lastOf?, lastOf?]
      generalize lastOf? key members = lastMember at ih ⊢
      generalize lastOf? key nested = lastNested at ih ⊢
      cases ih with
      | some hlast => exact .some hlast
      | none =>
          rw [hname]
          by_cases hkey : n.1 = key
          · rw [if_pos hkey, if_pos hkey]
            exact .some hvalue
          · rw [if_neg hkey, if_neg hkey]
            exact .none

/-- The nested diffs of every level come in the strict order of their names. -/
theorem keyed_of_readJson? (h : readJson? depth levels json = some d) : d.Keyed := by
  induction depth generalizing levels json d with
  | zero => cases h
  | succ depth ih =>
      obtain ⟨changes, inner, members, nested, -, hnested, rfl⟩ := readJson?_eq_some h
      have hkeyed : List.Forall₂ (fun n m => n.2.Keyed ∧ readMember? depth inner m = some n)
          nested members :=
        .flip (hnested.imp fun _ _ hread => ⟨ih (readMember?_eq_some hread).2, hread⟩)
      exact keyed_ofParts ((List.forall₂_and_left _ _).mp hkeyed).1

/-- A diff that was read is orderly exactly if no level of its text names a change twice. -/
theorem orderly_iff_namesOnce (h : readJson? depth levels json = some d) :
    d.Orderly ↔ NamesOnce depth levels json := by
  induction depth generalizing levels json d with
  | zero => cases h
  | succ depth ih =>
      have hkeyed := keyed_of_readJson? h
      obtain ⟨changes, inner, members, nested, hlevel, hnested, rfl⟩ := readJson?_eq_some h
      rw [hkeyed.orderly_iff, changes_ofParts]
      constructor
      · rintro ⟨hnodup, horderly⟩ _ _ _ hsame
        cases hlevel.symm.trans hsame
        refine ⟨hnodup, fun key value hvalue => ?_⟩
        have hrel := lastOf?_rel hnested key
        rw [hvalue] at hrel
        cases hlast : lastOf? key nested with
        | none => rw [hlast] at hrel; cases hrel
        | some last =>
            rw [hlast] at hrel
            obtain ⟨hread⟩ := hrel
            exact (ih hread).mp (horderly key last ((nested?_ofParts key).trans hlast))
      · intro honce
        obtain ⟨hnodup, hmembers⟩ := honce changes inner members hlevel
        refine ⟨hnodup, fun key last hlast => ?_⟩
        have hrel := lastOf?_rel hnested key
        rw [(nested?_ofParts key).symm.trans hlast] at hrel
        cases hvalue : lastOf? key members with
        | none => rw [hvalue] at hrel; cases hrel
        | some value =>
            rw [hvalue] at hrel
            obtain ⟨hread⟩ := hrel
            exact (ih hread).mpr (hmembers key value hvalue)

/-! ## The same changes, added one after another -/

/-- What adding the changes and the nested diffs one after another makes of a diff. -/
def rebuilt : Diff → Diff
  | .plain changes => ofChanges changes
  | .nest name nested rest => rest.rebuilt.addEmbedded name nested.rebuilt

theorem built_rebuilt (d : Diff) : d.rebuilt.Built fun _ => True := by
  induction d with
  | plain changes => exact .ofChanges fun _ _ => trivial
  | nest name nested rest ihNested ihRest => exact .addEmbedded ihRest trivial ihNested

theorem Proper.rebuilt_eq {legal : String → Prop} {d : Diff} (h : d.Proper legal) : d.rebuilt = d := by
  induction d with
  | plain changes => exact ofChanges_eq h.1
  | nest name nested rest ihNested ihRest =>
      obtain ⟨-, hnested, hkeys, hrest⟩ := h
      rw [rebuilt, ihNested hnested, ihRest hrest, addEmbedded_of_lt hkeys]

theorem rebuilt_eq_iff (d : Diff) : d.rebuilt = d ↔ d.Orderly :=
  ⟨fun h => h ▸ d.built_rebuilt.proper, Proper.rebuilt_eq⟩

/-! ## Texts -/

theorem keyed_of_ofJsonText? {text : String} (h : ofJsonText? text = some d) : d.Keyed := by
  obtain ⟨json, -, hread⟩ := Option.bind_eq_some_iff.mp h
  exact keyed_of_readJson? hread

theorem orderly_iff_namesOnceIn {text : String} (h : ofJsonText? text = some d) :
    d.Orderly ↔ NamesOnceIn text := by
  obtain ⟨json, hjson, hread⟩ := Option.bind_eq_some_iff.mp h
  rw [orderly_iff_namesOnce hread]
  constructor
  · intro honce other hother
    cases hjson.symm.trans hother
    exact honce
  · exact fun honce => honce json hjson

end Diff

namespace Payload

/-- The JSON form of the diff in the JSON form of an event, with the levels that remain for it. -/
def readDiff? (levels : Nat) (json : Json) : Option (Nat × Json) := do
  let (levels, fields) ← json.record? ["entity_name", "entity_id", "change_type", "changes"] levels
  some (levels, ← fields "changes")

/-- Whether no level of the diff in the text of an event names a change twice, in the nested diffs that a
reader keeps. -/
def NamesOnceIn (text : String) : Prop :=
  ∀ json levels diff, Json.ofText? text = some json →
    readDiff? Json.nestingLimit json = some (levels, diff) → Diff.NamesOnce levels levels diff

theorem ofJson?_eq_some {levels : Nat} {json : Json} {p : Payload}
    (h : Payload.ofJson? levels json = some p) :
    ∃ inner diff, readDiff? levels json = some (inner, diff) ∧ Diff.ofJson? inner diff = some p.diff := by
  simp only [Payload.ofJson?, Option.bind_eq_bind, Option.bind_eq_some_iff] at h
  obtain ⟨⟨inner, fields⟩, hrecord, _, -, _, -, _, -, _, -, _, -, changes, hchanges, diff, hdiff, hp⟩ := h
  cases hp
  have hfield : fields "changes" = some changes := hchanges
  exact ⟨inner, changes, by simp [readDiff?, hrecord, hfield], hdiff⟩

variable {text : String} {p : Payload}

theorem keyed_of_ofJsonText? (h : Payload.ofJsonText? text = some p) : p.diff.Keyed := by
  obtain ⟨json, -, hread⟩ := Option.bind_eq_some_iff.mp h
  obtain ⟨inner, diff, -, hdiff⟩ := ofJson?_eq_some hread
  exact Diff.keyed_of_readJson? hdiff

theorem orderly_iff_namesOnceIn (h : Payload.ofJsonText? text = some p) :
    p.diff.Orderly ↔ NamesOnceIn text := by
  obtain ⟨json, hjson, hread⟩ := Option.bind_eq_some_iff.mp h
  obtain ⟨inner, diff, hlevel, hdiff⟩ := ofJson?_eq_some hread
  rw [Diff.orderly_iff_namesOnce hdiff]
  constructor
  · intro honce other levels value hother hvalue
    cases hjson.symm.trans hother
    cases hlevel.symm.trans hvalue
    exact honce
  · exact fun honce => honce json inner diff hjson hlevel

end Payload

/-- Every diff that is received, alone or in an event, has its nested diffs in the strict order of their
names at every level. Its plain changes have distinct names at every level exactly if no level of the text
names a change twice; it is then a diff that the operations build, and exactly then the one that adding its
parts one after another makes. Every diff with ordered nested diffs is received from its own text as it is,
also where it names a change twice. -/
theorem received_orderly_iff (text : String) (d : Diff) (p : Payload) :
    (Diff.ofJsonText? text = some d →
      d.Keyed ∧ (d.Orderly ↔ Diff.NamesOnceIn text) ∧
        (Diff.NamesOnceIn text → d.Built fun _ => True) ∧ (d.rebuilt = d ↔ Diff.NamesOnceIn text)) ∧
    (Payload.ofJsonText? text = some p →
      p.diff.Keyed ∧ (p.diff.Orderly ↔ Payload.NamesOnceIn text) ∧
        (Payload.NamesOnceIn text → p.diff.Built fun _ => True) ∧
        (p.diff.rebuilt = p.diff ↔ Payload.NamesOnceIn text)) ∧
    (d.Keyed → d.Portable → d.toJson.depth < Json.nestingLimit →
      Diff.ofJsonText? d.toJson.text = some d) := by
  refine ⟨fun h => ?_, fun h => ?_, fun hkeyed hportable hdepth => ?_⟩
  · have honce := Diff.orderly_iff_namesOnceIn h
    exact ⟨Diff.keyed_of_ofJsonText? h, honce, fun hnames => d.built_iff_proper.mpr (honce.mpr hnames),
      d.rebuilt_eq_iff.trans honce⟩
  · have honce := Payload.orderly_iff_namesOnceIn h
    exact ⟨Payload.keyed_of_ofJsonText? h, honce,
      fun hnames => p.diff.built_iff_proper.mpr (honce.mpr hnames), p.diff.rebuilt_eq_iff.trans honce⟩
  · exact (Diff.ofJsonText?_text hkeyed hportable).trans (if_pos hdepth)

namespace Sample

theorem naming_keyed : naming.Keyed := naming_built.proper.keyed

theorem naming_portable : naming.Portable :=
  ⟨List.forall_mem_singleton.mpr trivial,
    List.forall_mem_cons.mpr ⟨trivial, List.forall_mem_singleton.mpr trivial⟩⟩

/-- The content of the event in which it was reported. -/
def created : Payload := ⟨"Owner", none, .created, naming⟩

/-- One attribute that is reported twice, with different old values. -/
def repeated : Diff := .plain [⟨"a", .null⟩, ⟨"a", .scalar (.int 1)⟩]

end Sample

open Sample in
/-- What was reported of someone is received as it was built, from texts that name nothing twice. -/
theorem naming_received :
    (naming.Keyed ∧ naming.Portable ∧ naming.toJson.depth < Json.nestingLimit) ∧
      Diff.ofJsonText? naming.toJson.text = some naming ∧
      Payload.ofJsonText? created.toJson.text = some created ∧
      Diff.NamesOnceIn naming.toJson.text ∧ Payload.NamesOnceIn created.toJson.text ∧
      naming.Built (fun _ => True) := by
  have hdepth : naming.toJson.depth < Json.nestingLimit := by decide
  have hpayload : Payload.ofJsonText? created.toJson.text = some created :=
    ((Payload.readsBack naming_keyed naming_portable).decode?_text
      created.written_toJson).trans (if_pos (by decide))
  have horderly : naming.Orderly := naming_built.proper.orderly
  obtain ⟨hdiff, -, hreceived⟩ := received_orderly_iff naming.toJson.text naming created
  obtain ⟨-, hevent, -⟩ := received_orderly_iff created.toJson.text naming created
  have hsent := hreceived naming_keyed naming_portable hdepth
  obtain ⟨-, honce, hbuilt, -⟩ := hdiff hsent
  have hnames := honce.mp horderly
  exact ⟨⟨naming_keyed, naming_portable, hdepth⟩, hsent, hpayload, hnames,
    (hevent hpayload).2.1.mp horderly, hbuilt hnames⟩

open Sample in
/-- A text that names an attribute twice is received with both changes: the first old value answers for the
name, where adding one after the other lets the last one answer. -/
theorem repeated_name_received :
    Diff.ofJsonText? repeated.toJson.text = some repeated ∧
      Payload.ofJsonText? (Payload.mk "Owner" none .updated repeated).toJson.text =
        some ⟨"Owner", none, .updated, repeated⟩ ∧
      ¬repeated.Orderly ∧ repeated.attributes = ["a", "a"] ∧
      repeated.oldValue? "a" = some .null ∧
      repeated.rebuilt.oldValue? "a" = some (.scalar (.int 1)) := by
  have hportable : repeated.Portable :=
    List.forall_mem_cons.mpr ⟨trivial, List.forall_mem_singleton.mpr trivial⟩
  have hkeyed : repeated.Keyed := trivial
  refine ⟨(Diff.ofJsonText?_text hkeyed hportable).trans (if_pos (by decide)), ?_, ?_, rfl, by decide,
    by decide⟩
  · exact ((Payload.readsBack hkeyed hportable).decode?_text (Payload.written_toJson _)).trans
      (if_pos (by decide))
  · exact fun horderly => absurd horderly.nodup (by decide)

end Chronicle
