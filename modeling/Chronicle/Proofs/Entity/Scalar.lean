import Chronicle.Entity.Scalar
import Chronicle.Proofs.Identity.Uuid
import Chronicle.Proofs.Json.Number
import Chronicle.Proofs.Time.Instant

/-!
# Keys, tokens and scalars are read back

The JSON form of a key, a token or a scalar is read as the same value, with its variant. A floating-point
number is read as a number if it is finite; otherwise its JSON form is read as nothing at all.

## Implementation notes

That a finite number is read does not tell which number it is read as: reading rounds more than once. The
readers of 64-bit integers take every number in range, so that both ends of the range are read back.
-/

namespace Chronicle

open Json (ReadsBack ReadsTo Written)

/-! ## Integers of 64 bits -/

theorem int64?_toInt (value : Int64) : (Json.ofInt value.toInt).integer?.bind int64? = some value := by
  rw [Json.integer?_ofInt value.le_toInt (lt_trans value.toInt_lt (by decide)), Option.bind_some,
    int64?, if_pos ⟨value.le_toInt, value.toInt_lt⟩, Int64.ofInt_toInt]

theorem uint64?_toNat (value : UInt64) :
    (Json.ofInt value.toNat).integer?.bind uint64? = some value := by
  have hmin : (0 : Int) ≤ value.toNat := Int.natCast_nonneg _
  have hmax : (value.toNat : Int) < Int.pow 2 64 := Int.ofNat_lt.mpr value.toNat_lt
  rw [Json.integer?_ofInt (le_trans (by decide) hmin) hmax, Option.bind_some, uint64?,
    if_pos ⟨hmin, hmax⟩, Int.toNat_natCast, UInt64.ofNat_toNat]

/-! ## Keys and tokens -/

theorem Key.written_toJson (key : Key) : key.toJson.Written := by
  cases key with
  | int value => exact .single (.int _)
  | uint value => exact .single (.int _)
  | text value => exact .single (.text _)
  | uuid value => exact .single (.text _)

theorem Key.readsBack (key : Key) : ReadsBack Key.ofJson? key.toJson key := by
  cases key with
  | int value =>
      refine fun _ => Json.variant?_bind_constant (Json.depth_ofInt _) fun _ => ?_
      simp only [Option.bind_eq_bind, Option.bind_some, int64?_toInt, Option.map_some]
  | uint value =>
      refine fun _ => Json.variant?_bind_constant (Json.depth_ofInt _) fun _ => ?_
      simp only [Option.bind_eq_bind, Option.bind_some, uint64?_toNat, Option.map_some]
  | text value =>
      refine fun _ => Json.variant?_bind_constant (Json.depth_ofText _) fun _ => ?_
      simp only [Option.bind_eq_bind, Option.bind_some, Json.text?_ofText, Option.map_some]
  | uuid value =>
      refine fun _ => Json.variant?_bind_constant (Json.depth_ofText _) fun _ => ?_
      simp only [Option.bind_eq_bind, Option.bind_some, Json.text?_ofText, Uuid.ofText?_text,
        Option.map_some]

theorem Token.written_toJson (token : Token) : token.toJson.Written :=
  .pair (.text _) token.key.written_toJson

theorem Token.readsBack (token : Token) : ReadsBack Token.ofJson? token.toJson token := by
  refine fun _ => Json.record?_bind (by simp) fun inner _ => ?_
  simp [List.lookup_cons, Json.text?_ofText, token.key.readsBack inner, Json.bind_ite]

theorem Key.depth_toJson_le (key : Key) : key.toJson.depth ≤ 1 := by
  cases key <;> exact le_rfl

theorem Token.depth_toJson_le (token : Token) : token.toJson.depth ≤ 2 := by
  refine Json.depth_ofMembers_le_succ.mpr ?_
  simpa using token.key.depth_toJson_le

/-! ## Scalars -/

namespace Scalar

/-- Whether a scalar survives as JSON: it is no floating-point number, and an instant is named by its
text. -/
def Portable : Scalar → Prop
  | .float _ => False
  | .instant value => value.Portable
  | _ => True

theorem written_toJson (scalar : Scalar) : scalar.toJson.Written := by
  cases scalar with
  | bool value => exact .single (.bool _)
  | int value => exact .single (.int _)
  | uint value => exact .single (.int _)
  | float value => exact .single (.double _)
  | text value => exact .single (.text _)
  | uuid value => exact .single (.text _)
  | instant value => exact .single (.text _)

/-- An instant is read back as the instant that its text names. -/
theorem readsBack_instant {value named : Time.Instant}
    (h : Time.Instant.ofText? (value.text .letter) = some named) :
    ReadsBack Scalar.ofJson? (Scalar.instant value).toJson (.instant named) := by
  refine fun _ => Json.variant?_bind_constant (Json.depth_ofText _) fun _ => ?_
  simp only [Option.bind_eq_bind, Option.bind_some, Json.text?_ofText, h, Option.map_some]

theorem Portable.readsBack {scalar : Scalar} (h : scalar.Portable) :
    ReadsBack Scalar.ofJson? scalar.toJson scalar := by
  cases scalar with
  | bool value =>
      refine fun _ => Json.variant?_bind_constant (Json.depth_bool _) fun _ => ?_
      simp only [Option.bind_eq_bind, Option.bind_some, Json.bool?, Option.map_some]
  | int value =>
      refine fun _ => Json.variant?_bind_constant (Json.depth_ofInt _) fun _ => ?_
      simp only [Option.bind_eq_bind, Option.bind_some, int64?_toInt, Option.map_some]
  | uint value =>
      refine fun _ => Json.variant?_bind_constant (Json.depth_ofInt _) fun _ => ?_
      simp only [Option.bind_eq_bind, Option.bind_some, uint64?_toNat, Option.map_some]
  | float value => exact h.elim
  | text value =>
      refine fun _ => Json.variant?_bind_constant (Json.depth_ofText _) fun _ => ?_
      simp only [Option.bind_eq_bind, Option.bind_some, Json.text?_ofText, Option.map_some]
  | uuid value =>
      refine fun _ => Json.variant?_bind_constant (Json.depth_ofText _) fun _ => ?_
      simp only [Option.bind_eq_bind, Option.bind_some, Json.text?_ofText, Uuid.ofText?_text,
        Option.map_some]
  | instant value => exact readsBack_instant (Time.Instant.Portable.ofText?_text h)

/-- What the JSON form of a scalar is read as, if it is read. -/
def received? : Scalar → Option Scalar
  | .float value => (Json.ofDouble value).double?.map .float
  | .instant value => (Time.Instant.ofText? (value.text .letter)).map .instant
  | scalar => some scalar

theorem readsTo (scalar : Scalar) : ReadsTo Scalar.ofJson? scalar.toJson scalar.received? := by
  cases scalar with
  | float value =>
      refine fun _ => Json.variant?_bind_constant (Json.depth_ofDouble _) fun _ => ?_
      simp only [Option.bind_eq_bind, Option.bind_some, received?]
  | instant value =>
      refine fun _ => Json.variant?_bind_constant (Json.depth_ofText _) fun _ => ?_
      simp only [Option.bind_eq_bind, Option.bind_some, Json.text?_ofText, received?]
  | bool value => exact Portable.readsBack trivial
  | int value => exact Portable.readsBack trivial
  | uint value => exact Portable.readsBack trivial
  | text value => exact Portable.readsBack trivial
  | uuid value => exact Portable.readsBack trivial

theorem Portable.received?_eq {scalar : Scalar} (h : scalar.Portable) :
    scalar.received? = some scalar := by
  cases scalar with
  | float value => exact h.elim
  | instant value => rw [received?, Time.Instant.Portable.ofText?_text h, Option.map_some]
  | _ => rfl

/-- Whether a scalar is read from its JSON form: a floating-point number is finite, and an instant lies in
the range of instants. -/
def Readable : Scalar → Prop
  | .float value => value.isFinite = true
  | .instant value => value.InRange
  | _ => True

theorem isSome_received? (scalar : Scalar) : scalar.received?.isSome = true ↔ scalar.Readable := by
  cases scalar with
  | float value => rw [received?, Option.isSome_map, Json.isSome_double?_ofDouble]; rfl
  | instant value => rw [received?, Option.isSome_map, Time.Instant.isSome_ofText?_text]; rfl
  | _ => exact iff_of_true rfl trivial

theorem depth_toJson_le (scalar : Scalar) : scalar.toJson.depth ≤ 1 := by
  cases scalar
  case float value => exact Json.depth_ofMembers_le_succ.mpr (by simp [Json.depth_ofDouble])
  all_goals exact le_rfl

end Scalar

end Chronicle
