import Chronicle.Event.Event
import Chronicle.Proofs.Diff.Json

/-!
# What is sent as JSON is received

Scalars, keys, tokens, old values, diffs and the content of events are read back from their JSON texts.

## Implementation notes

Keys, tokens, scalars and old values have a bounded depth, which every reader reaches. A diff can be
nested without bound, and one that is nested too deep can be sent but not received.
-/

namespace Chronicle

open Json (ReadsBack ReadsTo Written)

namespace Json

variable {α : Type} {read : Nat → Json → Option α} {json : Json} {a : α}

/-- Reads a value from a whole text, with all levels of nesting. -/
def decode? (read : Nat → Json → Option α) (text : String) : Option α :=
  (ofText? text).bind (read nestingLimit)

/-- What a whole text is read as is what its value is read as, if it is not deeper than readers go. -/
theorem ReadsTo.decode?_text {result : Option α} (h : ReadsTo read json result) (hwritten : json.Written) :
    decode? read json.text = if json.depth < nestingLimit then result else none := by
  rw [decode?, hwritten.ofText?_text, Option.bind_some]
  exact (h 127).trans (if_congr Nat.lt_succ_iff.symm rfl rfl)

/-- A value is received from its text, exactly if it is not deeper than readers go. -/
theorem ReadsBack.decode?_text (h : ReadsBack read json a) (hwritten : json.Written) :
    decode? read json.text = if json.depth < nestingLimit then some a else none :=
  ReadsTo.decode?_text h hwritten

end Json

/-! ## Events -/

theorem ChangeType.ofJson?_name (type : ChangeType) (levels : Nat) :
    ChangeType.ofJson? levels (.ofText type.name) = some type := by
  cases type <;> rfl

namespace Payload

theorem written_toJson (p : Payload) : p.toJson.Written := by
  have htoken : ((p.token.map Token.toJson).getD .null).Written := by
    cases p.token with
    | none => exact .null
    | some token => exact token.written_toJson
  exact .members (List.forall_mem_cons.mpr ⟨.text _, List.forall_mem_cons.mpr ⟨htoken,
    List.forall_mem_cons.mpr ⟨.text _, List.forall_mem_singleton.mpr p.diff.written_toJson⟩⟩⟩)

theorem tokenOfJson?_toJson (token : Option Token) (levels : Nat) :
    tokenOfJson? (levels + 1) (some ((token.map Token.toJson).getD .null)) =
      if ((token.map Token.toJson).getD .null).depth ≤ levels then some token else none := by
  cases token with
  | none => exact (if_pos levels.zero_le).symm
  | some token =>
      show (Token.ofJson? (levels + 1) token.toJson).map some = _
      rw [token.readsBack levels, Option.map_if]
      rfl

/-- What the JSON form of the content of an event is read as, if it is read. -/
def received? (p : Payload) : Option Payload :=
  p.diff.received?.map fun diff => { p with diff := diff }

theorem readsTo {p : Payload} (hkeyed : p.diff.Keyed) :
    ReadsTo Payload.ofJson? p.toJson p.received? := by
  have hreceived : p.received? = p.diff.received?.bind fun diff => some { p with diff := diff } :=
    Option.map_eq_bind
  rw [hreceived]
  refine fun _ => Json.record?_bind (by simp) fun inner _ => ?_
  simp [List.lookup_cons, Json.text?_ofText, tokenOfJson?_toJson, ChangeType.ofJson?_name,
    hkeyed.readsTo inner, Json.bind_if, ite_and]

theorem readsBack {p : Payload} (hkeyed : p.diff.Keyed) (hportable : p.diff.Portable) :
    ReadsBack Payload.ofJson? p.toJson p := by
  have hreceived : p.received? = some p := by rw [received?, hportable.received?_eq, Option.map_some]
  exact fun levels => hreceived ▸ readsTo hkeyed levels

end Payload

/-! ## Round trips -/

namespace Diff

/-- A diff is received from its text, exactly if the text is not deeper than readers go. -/
theorem ofJsonText?_text {d : Diff} (hkeyed : d.Keyed) (hportable : d.Portable) :
    Diff.ofJsonText? d.toJson.text = if d.toJson.depth < Json.nestingLimit then some d else none :=
  (readsBack hkeyed hportable).decode?_text d.written_toJson

/-- A diff with more than 62 nested diffs around each other is refused. -/
theorem ofJsonText?_of_lt_nesting {d : Diff} (hkeyed : d.Keyed) (hportable : d.Portable)
    (h : 62 < d.nesting) : Diff.ofJsonText? d.toJson.text = none := by
  refine (ofJsonText?_text hkeyed hportable).trans (if_neg fun hlt => ?_)
  exact Nat.not_le.mpr h (nesting_le (Nat.le_of_lt_succ hlt))

/-- Nested diffs around each other, and nothing else. -/
def deep : Nat → Diff
  | 0 => empty
  | n + 1 => .nest "a" (deep n) empty

theorem keyed_deep (n : Nat) : (deep n).Keyed := by
  induction n with
  | zero => trivial
  | succ n ih => exact ⟨ih, List.forall_mem_nil _, trivial⟩

theorem portable_deep (n : Nat) : (deep n).Portable := by
  induction n with
  | zero => exact List.forall_mem_nil _
  | succ n ih => exact ⟨ih, List.forall_mem_nil _⟩

theorem nesting_deep (n : Nat) : (deep n).nesting = n := by
  induction n with
  | zero => rfl
  | succ n ih => rw [deep, nesting, ih, empty, nesting, Nat.max_eq_left (Nat.zero_le _)]

end Diff

/-- Every key, token, portable scalar and portable old value is read back from its JSON text. So is every
diff, and the content of every event, whose text nests fewer arrays and objects than the limit; deeper
ones are refused. -/
theorem sent_received :
    (∀ scalar : Scalar, scalar.Portable →
      Json.decode? Scalar.ofJson? scalar.toJson.text = some scalar) ∧
    (∀ key : Key, Json.decode? Key.ofJson? key.toJson.text = some key) ∧
    (∀ token : Token, Json.decode? Token.ofJson? token.toJson.text = some token) ∧
    (∀ old : OldValue, old.Portable → Json.decode? OldValue.ofJson? old.toJson.text = some old) ∧
    (∀ d : Diff, d.Keyed → d.Portable → Diff.ofJsonText? d.toJson.text =
      if d.toJson.depth < Json.nestingLimit then some d else none) ∧
    (∀ p : Payload, p.diff.Keyed → p.diff.Portable → Payload.ofJsonText? p.toJson.text =
      if p.toJson.depth < Json.nestingLimit then some p else none) := by
  refine ⟨fun scalar h => ?_, fun key => ?_, fun token => ?_, fun old h => ?_,
    fun d hkeyed hportable => ?_, fun p hkeyed hportable => ?_⟩
  · exact (h.readsBack.decode?_text scalar.written_toJson).trans
      (if_pos (scalar.depth_toJson_le.trans_lt (by decide)))
  · exact (key.readsBack.decode?_text key.written_toJson).trans
      (if_pos (key.depth_toJson_le.trans_lt (by decide)))
  · exact (token.readsBack.decode?_text token.written_toJson).trans
      (if_pos (token.depth_toJson_le.trans_lt (by decide)))
  · exact (h.readsBack.decode?_text old.written_toJson).trans
      (if_pos (old.depth_toJson_le.trans_lt (by decide)))
  · exact Diff.ofJsonText?_text hkeyed hportable
  · exact (Payload.readsBack hkeyed hportable).decode?_text p.written_toJson

/-- A leap second in a diff inside another, with names and texts that need escapes. -/
def leapDiff : Diff :=
  .nest "café" (.plain [⟨"at\n", .scalar (.instant ⟨1483228799, 1500000000⟩)⟩])
    (.plain [⟨"least", .scalar (.int Int64.minValue)⟩,
      ⟨"pets", .collection .set [⟨"Pet", .uint 7⟩, ⟨"Pet", .text "7\x01"⟩]⟩])

theorem leap_second_received :
    Scalar.Portable (.instant ⟨1483228799, 1500000000⟩) ∧ leapDiff.Keyed ∧ leapDiff.Portable ∧
      Json.decode? Scalar.ofJson? (Scalar.instant ⟨1483228799, 1500000000⟩).toJson.text =
        some (.instant ⟨1483228799, 1500000000⟩) ∧
      Json.decode? OldValue.ofJson?
          (OldValue.scalar (.instant ⟨1483228799, 1500000000⟩)).toJson.text =
        some (.scalar (.instant ⟨1483228799, 1500000000⟩)) ∧
      Diff.ofJsonText? leapDiff.toJson.text = some leapDiff ∧
      Payload.ofJsonText? (Payload.mk "Owner" none .updated leapDiff).toJson.text =
        some ⟨"Owner", none, .updated, leapDiff⟩ := by
  obtain ⟨hscalar, -, -, hold, hdiff, hpayload⟩ := sent_received
  have hleap : Scalar.Portable (.instant ⟨1483228799, 1500000000⟩) :=
    ⟨by decide, by decide, by decide, fun _ => by decide⟩
  have hkeyed : leapDiff.Keyed := ⟨trivial, List.forall_mem_nil _, trivial⟩
  have hportable : leapDiff.Portable :=
    ⟨List.forall_mem_singleton.mpr hleap,
      List.forall_mem_cons.mpr ⟨trivial, List.forall_mem_singleton.mpr trivial⟩⟩
  refine ⟨hleap, hkeyed, hportable, hscalar _ hleap, hold _ hleap, ?_, ?_⟩
  · exact (hdiff leapDiff hkeyed hportable).trans (if_pos (by decide))
  · exact (hpayload ⟨"Owner", none, .updated, leapDiff⟩ hkeyed hportable).trans (if_pos (by decide))

/-- A diff can be nested so deep that its own text is refused, and a leap second before the end of a minute
is read back as another instant. -/
theorem deep_diff_refused :
    (Diff.deep 63).Keyed ∧ (Diff.deep 63).Portable ∧
      Diff.ofJsonText? (Diff.deep 63).toJson.text = none ∧
      Json.decode? Scalar.ofJson? (Scalar.instant ⟨30, 1500000000⟩).toJson.text =
        some (.instant ⟨31, 500000000⟩) := by
  have hkeyed := Diff.keyed_deep 63
  have hportable := Diff.portable_deep 63
  have hdeep : 62 < (Diff.deep 63).nesting := by rw [Diff.nesting_deep]; decide
  have hnamed : Time.Instant.ofText? (Time.Instant.text .letter ⟨30, 1500000000⟩) =
      some ⟨31, 500000000⟩ := by
    rw [Time.Instant.text_letter]
    exact Time.Instant.ofText?_clockText (by decide) (by decide) (by decide) (by decide) (by decide)
      (by decide)
  refine ⟨hkeyed, hportable, Diff.ofJsonText?_of_lt_nesting hkeyed hportable hdeep, ?_⟩
  exact ((Scalar.readsBack_instant hnamed).decode?_text (.single (.text _))).trans (if_pos (by decide))

end Chronicle
