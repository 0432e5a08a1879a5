import Chronicle.Proofs.Diff.Received
import Chronicle.Proofs.Sample.World
import Chronicle.Proofs.Tracking.Collection

/-!
# Which events can be read

Every event has a text, but not every text of an event is read. A floating-point number that is not
finite is written as null, which no reader takes for a number, and a text that nests too deep is refused
as a whole. Nothing else stands between the writer of an event and its reader: of every event that is
collected or committed, the text is read exactly if the floating-point numbers and the instants in its
diff are, and if it does not nest too deep. What is read is then of the same entity, of the same type and
about the same attributes.

## Implementation notes

The numbers and instants that are read need not be the ones that were written, so what is read is
compared by its names and not as a whole.
-/

namespace Chronicle

namespace Payload

/-- Whether the content of two events is of one entity and one type, and about the same attributes. -/
structure Agrees (q p : Payload) : Prop where
  name : q.name = p.name
  token : q.token = p.token
  type : q.type = p.type
  topNames : q.diff.topNames = p.diff.topNames
  attributes : q.diff.attributes = p.diff.attributes

theorem agrees_of_received? {p q : Payload} (h : p.received? = some q) : q.Agrees p := by
  obtain ⟨diff, hdiff, rfl⟩ := Option.map_eq_some_iff.mp h
  obtain ⟨hchanges, hembedded, hpaths⟩ := Diff.names_of_received? hdiff
  refine ⟨rfl, rfl, rfl, ?_, ?_⟩
  · simp only [Diff.topNames, hchanges, hembedded]
  · simp only [Diff.attributes, hchanges, hpaths]

theorem isSome_received? (p : Payload) : p.received?.isSome = true ↔ p.diff.Readable := by
  rw [received?, Option.isSome_map]
  exact p.diff.isSome_received?

/-- The text of the content of an event is one level deeper than that of its diff: no token is deeper
than any diff. -/
theorem depth_toJson_le_succ {p : Payload} {levels : Nat} :
    p.toJson.depth ≤ levels + 1 ↔ p.diff.toJson.depth ≤ levels := by
  have htoken : ((p.token.map Token.toJson).getD .null).depth ≤ 2 := by
    cases p.token with
    | none => exact Nat.zero_le 2
    | some token => exact token.depth_toJson_le
  simp only [toJson, Json.depth_ofMembers_le_succ, List.forall_mem_cons, Json.depth_ofText, Nat.zero_le,
    true_and, List.not_mem_nil, false_implies, implies_true, and_true, and_iff_right_iff_imp]
  exact fun hdiff => htoken.trans (p.diff.two_le_depth_toJson.trans hdiff)

theorem depth_toJson_lt {p : Payload} (h : p.diff.nesting ≤ 59) : p.toJson.depth < Json.nestingLimit :=
  Nat.lt_succ_of_le (depth_toJson_le_succ.mpr (Diff.depth_toJson_le h))

theorem ofJsonText?_text {p : Payload} (hkeyed : p.diff.Keyed) :
    ofJsonText? p.toJson.text = if p.toJson.depth < Json.nestingLimit then p.received? else none :=
  (readsTo hkeyed).decode?_text p.written_toJson

/-- The text of the content of an event is read exactly if all values in the diff are and the text does
not nest too deep, which at most 59 nested diffs around each other never do; and what is read agrees with
what was written. -/
structure ReadIff (p : Payload) : Prop where
  read_iff : (∃ q, ofJsonText? p.toJson.text = some q) ↔
    p.diff.Readable ∧ p.toJson.depth < Json.nestingLimit
  shallow : p.diff.nesting ≤ 59 → p.toJson.depth < Json.nestingLimit
  agrees : ∀ q, ofJsonText? p.toJson.text = some q → q.Agrees p

theorem readIff {p : Payload} (hkeyed : p.diff.Keyed) : p.ReadIff where
  read_iff := by
    rw [ofJsonText?_text hkeyed, ← p.isSome_received?, ← Option.isSome_iff_exists]
    split_ifs with hdepth <;> simp [hdepth]
  shallow := depth_toJson_lt
  agrees := by
    intro q hq
    rw [ofJsonText?_text hkeyed] at hq
    split_ifs at hq
    exact agrees_of_received? hq

end Payload

/-- The text of every event, of what is collected for any entities and of a commit, is read exactly if
the floating-point numbers in its diff are finite, the instants in it are in range, and it does not nest
too deep. What is read has the name, the token and the type of the event and the attributes of its diff. -/
theorem event_read_iff {s : Session} (h : s.work.transaction.Reachable) (steps : List Step) :
    (∀ (m : Manager) (store : Store) (ids : List EntityId) (next : Transaction)
        (records : List ChangeRecord),
      m.collect store (s.run steps).work.transaction ids = .ok (next, records) →
        ∀ r ∈ records, ∀ after : Store, (r.toEvent after).payload.ReadIff) ∧
    ∀ events, ((s.run steps).work.commit (s.run steps).store).result = .ok events →
      ∀ event ∈ events, event.payload.ReadIff := by
  have hreachable := Session.reachable_run h steps
  have hcollected : ∀ (m : Manager) (store : Store) (ids : List EntityId) (next : Transaction)
      (records : List ChangeRecord),
      m.collect store (s.run steps).work.transaction ids = .ok (next, records) →
        ∀ r ∈ records, ∀ after : Store, (r.toEvent after).payload.ReadIff := by
    intro m store ids next records hcollect r hr after
    have horderly : ∀ r ∈ records, r.diff.Orderly :=
      hreachable.forall_collected (fun _ _ => ChangeRecord.proper_merge) Manager.records_orderly hcollect
    exact Payload.readIff (horderly r hr).keyed
  refine ⟨hcollected, fun events hcommit event hevent => ?_⟩
  obtain ⟨next, records, hcollect, rfl⟩ := UnitOfWork.commit_ok hcommit
  obtain ⟨record, hrecord, rfl⟩ := List.mem_map.mp hevent
  exact hcollected _ _ _ _ _ hcollect record hrecord _

namespace Sample

/-- A measurement: numbers with a key and one floating-point number. -/
def measured (x : Number.Double) : Entity where
  object := ((Object.fresh numbers).assign "id" (.scalar (.uint 1))).assign "f8" (.scalar (.float x))

/-- The setter of the floating-point number of a measurement. -/
def setF8 : Setter := .assigning "set_f8" (plain "f8" (maybe .double)) true

theorem setF8_mem : setF8 ∈ setters numbers :=
  List.mem_of_find?_eq_some (show setterNamed? numbers "set_f8" = _ from rfl)

/-- A session in which the number of a measurement is taken back. -/
def retraction (x : Number.Double) : Session :=
  (Session.start [measured x]).run [.attach 0, .call 0 setF8 .null]

/-- What is then published. -/
def retracted (x : Number.Double) : Payload :=
  ⟨"Numbers", some ⟨"Numbers", .uint 1⟩, .updated, .plain [⟨"f8", .scalar (.float x)⟩]⟩

theorem commit_retraction (x : Number.Double) :
    ((retraction x).work.commit (retraction x).store).result = .ok [⟨0, retracted x⟩] := rfl

/-- The text of what is published for no number. -/
def nanText : String :=
  "\x7b\"entity_name\":\"Numbers\",\"entity_id\":\x7b\"entity_name\":\"Numbers\"," ++
    "\"key\":\x7b\"UInt\":1\x7d\x7d,\"change_type\":\"Updated\",\"changes\":\x7b\"changes\":[" ++
    "\x7b\"name\":\"f8\",\"old_value\":\x7b\"Scalar\":\x7b\"Float\":null\x7d\x7d\x7d]," ++
    "\"embedded\":\x7b\x7d\x7d\x7d"

theorem readable_retracted (x : Number.Double) :
    (retracted x).diff.Readable ↔ x.isFinite = true := List.forall_mem_singleton

/-- What is published is read for the finite numbers, and for no others. -/
theorem retracted_read_iff (x : Number.Double) :
    (∃ q, Payload.ofJsonText? (retracted x).toJson.text = some q) ↔ x.isFinite = true := by
  have hread : (retracted x).ReadIff := Payload.readIff trivial
  rw [hread.read_iff, readable_retracted]
  exact and_iff_left (hread.shallow (Nat.zero_le 59))

/-- The greatest finite number. -/
def greatest : Number.Double := ⟨0x7fefffffffffffff⟩

end Sample

open Sample in
/-- The retraction of the greatest finite number is published with a text that is read, about the same
attribute of the same measurement. -/
theorem greatest_number_read :
    ((retraction greatest).work.commit (retraction greatest).store).result =
        .ok [⟨0, retracted greatest⟩] ∧
      ∃ q, Payload.ofJsonText? (retracted greatest).toJson.text = some q ∧
        q.Agrees (retracted greatest) := by
  have hstart : (Session.start [measured greatest]).work.transaction.Reachable := .start
  have hread : (retracted greatest).ReadIff :=
    (event_read_iff hstart [.attach 0, .call 0 setF8 .null]).2 _ (commit_retraction greatest) _
      List.mem_cons_self
  have hreadable : (retracted greatest).diff.Readable :=
    (readable_retracted greatest).mpr (by decide +kernel)
  obtain ⟨q, hq⟩ := hread.read_iff.mpr ⟨hreadable, hread.shallow (by decide)⟩
  exact ⟨commit_retraction greatest, q, hq, hread.agrees q hq⟩

open Sample in
/-- The retraction of what is no number is published with a text that no reader takes. -/
theorem nan_refused :
    setF8 ∈ setters numbers ∧
      ((retraction .nan).work.commit (retraction .nan).store).result = .ok [⟨0, retracted .nan⟩] ∧
      (retracted .nan).toJson.text = nanText ∧ Payload.ofJsonText? nanText = none := by
  have htext : (retracted .nan).toJson.text = nanText := by decide +kernel
  refine ⟨setF8_mem, commit_retraction .nan, htext, Option.eq_none_iff_forall_ne_some.mpr fun q hq => ?_⟩
  have hfinite : Number.Double.isFinite .nan = true := (retracted_read_iff .nan).mp ⟨q, htext ▸ hq⟩
  exact absurd hfinite (by decide +kernel)

end Chronicle
