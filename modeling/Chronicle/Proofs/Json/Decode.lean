import Chronicle.Json.Decode
import Chronicle.Proofs.Json.Text
import Mathlib.Data.List.Forall2
import Mathlib.Data.List.Nodup

/-!
# Decoding what was encoded

The pieces of readers, applied to the pieces of writers: integers, records with named fields and choices
between named variants are found again, as long as there are levels of nesting left to enter them.

## Implementation notes

A reader is told exactly, by the depth of the value that it reads: it succeeds if the levels reach below
that depth, and fails otherwise. The readers of larger values then follow from those of smaller ones
without a separate argument for failure.
-/

namespace Chronicle

namespace Json

/-! ## Depth -/

mutual

/-- The number of arrays and objects around the innermost part of a value. -/
def depth : Json → Nat
  | .array items => depthItems items + 1
  | .object members => depthMembers members + 1
  | _ => 0

/-- The depth of the deepest item. -/
def depthItems : List Json → Nat
  | [] => 0
  | item :: rest => max item.depth (depthItems rest)

/-- The depth of the deepest member. -/
def depthMembers : List (Option String × Json) → Nat
  | [] => 0
  | (_, value) :: rest => max value.depth (depthMembers rest)

end

@[simp] theorem depth_bool (value : Bool) : (bool value).depth = 0 := rfl

@[simp] theorem depth_ofText (text : String) : (ofText text).depth = 0 := rfl

@[simp] theorem depth_ofInt (n : Int) : (ofInt n).depth = 0 := rfl

theorem not_depth_array_le_zero (items : List Json) : ¬(array items).depth ≤ 0 := by
  rw [depth]
  omega

theorem depth_array_le_succ {items : List Json} {levels : Nat} :
    (array items).depth ≤ levels + 1 ↔ ∀ item ∈ items, item.depth ≤ levels := by
  rw [depth, Nat.add_le_add_iff_right]
  induction items with
  | nil => simp [depthItems]
  | cons item items ih => rw [depthItems, Nat.max_le, ih, List.forall_mem_cons]

theorem not_depth_ofMembers_le_zero (members : List (String × Json)) :
    ¬(ofMembers members).depth ≤ 0 := by
  rw [ofMembers, depth]
  omega

theorem depth_ofMembers_le_succ {members : List (String × Json)} {levels : Nat} :
    (ofMembers members).depth ≤ levels + 1 ↔ ∀ m ∈ members, m.2.depth ≤ levels := by
  rw [ofMembers, depth, Nat.add_le_add_iff_right]
  induction members with
  | nil => simp [depthMembers]
  | cons member members ih =>
      rw [List.map_cons, depthMembers, Nat.max_le, ih, List.forall_mem_cons]

/-- Whether a reader gives back what a value was written for, exactly if the value is not deeper than the
levels that the reader may use up. -/
def ReadsBack {α : Type} (read : Nat → Json → Option α) (json : Json) (a : α) : Prop :=
  ∀ levels, read (levels + 1) json = if json.depth ≤ levels then some a else none

/-- Whether a reader gives a result for a value, exactly if the value is not deeper than the levels that
the reader may use up. -/
def ReadsTo {α : Type} (read : Nat → Json → Option α) (json : Json) (result : Option α) : Prop :=
  ∀ levels, read (levels + 1) json = if json.depth ≤ levels then result else none

theorem bind_if {α β : Type} {p : Prop} [Decidable p] (result : Option α) (f : α → Option β) :
    (if p then result else none).bind f = if p then result.bind f else none := by
  split <;> rfl

theorem bind_ite {α β : Type} {p : Prop} [Decidable p] (a : α) (f : α → Option β) :
    (if p then some a else none).bind f = if p then f a else none :=
  bind_if (some a) f

/-! ## Arrays and objects -/

theorem enter?_succ (levels : Nat) :
    enter? (levels + 1) = if 0 < levels then some levels else none := by
  cases levels with
  | zero => rfl
  | succ levels => rfl

theorem items?_array (levels : Nat) (items : List Json) :
    (array items).items? (levels + 1) = if 0 < levels then some (levels, items) else none := by
  rw [items?, enter?_succ]
  split <;> rfl

theorem mapM_names (members : List (String × Json)) :
    (members.map fun m => (some m.1, m.2)).mapM (fun m => m.1.map (·, m.2)) = some members := by
  induction members with
  | nil => rfl
  | cons m members ih => simp [ih]

theorem members?_ofMembers (levels : Nat) (members : List (String × Json)) :
    (ofMembers members).members? (levels + 1) =
      if 0 < levels then some (levels, members) else none := by
  rw [ofMembers, members?, enter?_succ]
  split
  · exact congrArg (Option.bind · fun members => some (levels, members)) (mapM_names members)
  · rfl

/-- A record is found with its fields under their names. -/
theorem record?_ofMembers (names : List String) (levels : Nat) {members : List (String × Json)}
    (h : (members.map Prod.fst).Nodup) :
    record? names (levels + 1) (ofMembers members) =
      if 0 < levels then some (levels, fun name => members.lookup name) else none := by
  have honce : ∀ name ∈ names, (members.filter (·.1 == name)).length ≤ 1 := by
    intro name _
    have hcount := List.nodup_iff_count_le_one.mp h name
    rwa [List.count_eq_countP, List.countP_map, List.countP_eq_length_filter] at hcount
  have hall : (names.all fun name => (members.filter (·.1 == name)).length ≤ 1) = true := by
    simpa using honce
  show ((ofMembers members).members? (levels + 1)).bind _ = _
  rw [members?_ofMembers]
  split
  · exact if_pos hall
  · rfl

/-- A variant that carries something is found with its content. -/
theorem variant?_ofMembers (levels : Nat) (name : String) (content : Json) :
    variant? (levels + 1) (ofMembers [(name, content)]) =
      if 0 < levels then some ⟨name, some content, levels⟩ else none := by
  show ((ofMembers [(name, content)]).members? (levels + 1)).bind _ = _
  rw [members?_ofMembers]
  split <;> rfl

section Readers

variable {α β : Type} {result : Option α}

/-- What is inside an array or an object is read back if there are levels left to enter it and to read
what it holds. -/
theorem enter_bind {json : Json} (inside : Nat → β) {fits : Nat → Prop} [DecidablePred fits]
    {read : β → Option α} (hzero : ¬json.depth ≤ 0)
    (hsucc : ∀ inner, json.depth ≤ inner + 1 ↔ fits inner) {levels : Nat}
    (h : ∀ inner < levels, read (inside (inner + 1)) = if fits inner then result else none) :
    (if 0 < levels then some (inside levels) else none).bind read =
      if json.depth ≤ levels then result else none := by
  cases levels with
  | zero => rw [if_neg (Nat.lt_irrefl 0), if_neg hzero, Option.bind_none]
  | succ inner =>
      rw [if_pos inner.succ_pos, Option.bind_some, h inner inner.lt_succ_self,
        if_congr (hsucc inner) rfl rfl]

theorem items?_bind {items : List Json} {read : Nat × List Json → Option α} {levels : Nat}
    (h : ∀ inner < levels, read (inner + 1, items) =
      if ∀ item ∈ items, item.depth ≤ inner then result else none) :
    ((array items).items? (levels + 1)).bind read =
      if (array items).depth ≤ levels then result else none := by
  rw [items?_array]
  exact enter_bind (·, items) (not_depth_array_le_zero _) (fun _ => depth_array_le_succ) h

theorem members?_bind {members : List (String × Json)}
    {read : Nat × List (String × Json) → Option α} {levels : Nat}
    (h : ∀ inner < levels, read (inner + 1, members) =
      if ∀ m ∈ members, m.2.depth ≤ inner then result else none) :
    ((ofMembers members).members? (levels + 1)).bind read =
      if (ofMembers members).depth ≤ levels then result else none := by
  rw [members?_ofMembers]
  exact enter_bind (·, members) (not_depth_ofMembers_le_zero _) (fun _ => depth_ofMembers_le_succ) h

/-- A record is read back if its fields are. -/
theorem record?_bind {names : List String} {members : List (String × Json)}
    {read : Nat × Fields → Option α} {levels : Nat} (hnames : (members.map Prod.fst).Nodup)
    (h : ∀ inner < levels, read (inner + 1, fun name => members.lookup name) =
      if ∀ m ∈ members, m.2.depth ≤ inner then result else none) :
    (record? names (levels + 1) (ofMembers members)).bind read =
      if (ofMembers members).depth ≤ levels then result else none := by
  rw [record?_ofMembers names levels hnames]
  exact enter_bind (·, fun name => members.lookup name) (not_depth_ofMembers_le_zero _)
    (fun _ => depth_ofMembers_le_succ) h

/-- A variant is read back if its content is. -/
theorem variant?_bind {name : String} {content : Json} {read : Variant → Option α} {levels : Nat}
    (h : ∀ inner < levels, read ⟨name, some content, inner + 1⟩ =
      if content.depth ≤ inner then result else none) :
    (variant? (levels + 1) (ofMembers [(name, content)])).bind read =
      if (ofMembers [(name, content)]).depth ≤ levels then result else none := by
  rw [variant?_ofMembers]
  refine enter_bind (Variant.mk name (some content)) (not_depth_ofMembers_le_zero _) (fun inner => ?_) h
  rw [depth_ofMembers_le_succ, List.forall_mem_singleton]

/-- A variant that carries a constant is read back as soon as it can be entered. -/
theorem variant?_bind_constant {name : String} {content : Json} {read : Variant → Option α}
    {levels : Nat} (hdepth : content.depth = 0)
    (h : ∀ inner, read ⟨name, some content, inner + 1⟩ = result) :
    (variant? (levels + 1) (ofMembers [(name, content)])).bind read =
      if (ofMembers [(name, content)]).depth ≤ levels then result else none :=
  variant?_bind fun inner _ => (h inner).trans (if_pos (hdepth ▸ inner.zero_le)).symm

end Readers

/-- Items are read if each of them is, and none of them is too deep. -/
theorem mapM_if {α γ : Type} {items : List γ} {read result : γ → Option α} {fits : γ → Prop}
    [DecidablePred fits] (h : ∀ item ∈ items, read item = if fits item then result item else none) :
    items.mapM read = if ∀ item ∈ items, fits item then items.mapM result else none := by
  induction items with
  | nil => rfl
  | cons item items ih =>
      have hitems := ih fun i hi => h i (List.mem_cons_of_mem _ hi)
      rw [List.mapM_cons, List.mapM_cons, h item List.mem_cons_self, hitems]
      by_cases hfits : fits item
      · by_cases hrest : ∀ i ∈ items, fits i
        · rw [if_pos hfits, if_pos hrest, if_pos (List.forall_mem_cons.mpr ⟨hfits, hrest⟩)]
        · rw [if_pos hfits, if_neg hrest, if_neg fun hall => hrest (List.forall_mem_cons.mp hall).2]
          cases result item <;> rfl
      · rw [if_neg hfits, if_neg fun hall => hfits (List.forall_mem_cons.mp hall).1]
        rfl

/-- Values that were written one after another are read if each of them is. -/
theorem mapM_readsTo {α β : Type} {as : List α} {read : Nat → Json → Option β} {write : α → Json}
    {result : α → Option β} (h : ∀ a ∈ as, ReadsTo read (write a) (result a)) (levels : Nat) :
    (as.map write).mapM (read (levels + 1)) =
      if ∀ item ∈ as.map write, item.depth ≤ levels then as.mapM result else none := by
  have hread : ∀ a ∈ as, (read (levels + 1) ∘ write) a =
      if (write a).depth ≤ levels then result a else none := fun a ha => h a ha levels
  rw [List.mapM_map, mapM_if hread]
  simp only [List.forall_mem_map]

/-- What is read of items is read of one item after another. -/
theorem forall₂_of_mapM {α β : Type} {f : α → Option β} {as : List α} {bs : List β}
    (h : as.mapM f = some bs) : List.Forall₂ (fun a b => f a = some b) as bs := by
  induction as generalizing bs with
  | nil => cases h; exact .nil
  | cons a as ih =>
      rw [List.mapM_cons, Option.bind_eq_bind, Option.bind_eq_some_iff] at h
      obtain ⟨b, hb, h⟩ := h
      rw [Option.bind_eq_bind, Option.bind_eq_some_iff] at h
      obtain ⟨rest, hrest, h⟩ := h
      cases h
      exact .cons hb (ih hrest)

theorem isSome_mapM {α β : Type} (f : α → Option β) (as : List α) :
    (as.mapM f).isSome = true ↔ ∀ a ∈ as, (f a).isSome = true := by
  induction as with
  | nil => exact iff_of_true rfl (List.forall_mem_nil _)
  | cons a as ih =>
      rw [List.forall_mem_cons, ← ih, List.mapM_cons]
      cases f a with
      | none => simp
      | some b => cases as.mapM f <;> simp

/-- What is read of items agrees with them in everything in which each item agrees with its reading. -/
theorem map_eq_of_mapM {α β γ : Type} {f : α → Option β} {g : α → γ} {g' : β → γ}
    (hf : ∀ a b, f a = some b → g' b = g a) {as : List α} {bs : List β} (h : as.mapM f = some bs) :
    bs.map g' = as.map g := by
  have hread := forall₂_of_mapM h
  clear h
  induction hread with
  | nil => rfl
  | cons hab _ ih => rw [List.map_cons, List.map_cons, hf _ _ hab, ih]

theorem mapM_eq_self {α : Type} {as : List α} {f : α → Option α} (h : ∀ a ∈ as, f a = some a) :
    as.mapM f = some as := by
  induction as with
  | nil => rfl
  | cons a as ih =>
      obtain ⟨ha, has⟩ := List.forall_mem_cons.mp h
      rw [List.mapM_cons, ha, ih has]
      rfl

/-- Values that were written one after another are read back if each of them is. -/
theorem mapM_readsBack {α : Type} {as : List α} {read : Nat → Json → Option α} {write : α → Json}
    (h : ∀ a ∈ as, ReadsBack read (write a) a) (levels : Nat) :
    (as.map write).mapM (read (levels + 1)) =
      if ∀ item ∈ as.map write, item.depth ≤ levels then some as else none := by
  have hread : ∀ a ∈ as, ReadsTo read (write a) (some a) := h
  rw [mapM_readsTo hread, mapM_eq_self fun _ _ => rfl]

/-! ## Constants -/

theorem text?_ofText (text : String) : (ofText text).text? = some text := rfl

/-- The number of a literal is found from its characters. -/
theorem Literal.WellFormed.numeric?_spelling {l : Literal} (h : l.WellFormed) (plus : Bool) :
    Json.numeric? (l.spelling plus) = l.numeric? := by
  have hread := h.read?_spelling plus Literal.ends_nil
  rw [List.append_nil] at hread
  rw [Json.numeric?, hread]

/-- An integer of at most 64 bits is read back. -/
theorem integer?_ofInt {n : Int} (hmin : -Int.pow 2 63 ≤ n) (hmax : n < Int.pow 2 64) :
    (ofInt n).integer? = some n := by
  have hvalue := Text.decimalValue_toDigits n.natAbs
  have hnumeric : (Literal.ofInt n).numeric? = some (.integer n) := by
    simp only [Literal.numeric?, Literal.ofInt, hvalue, List.isEmpty_nil, Option.isNone_none,
      Bool.and_self, if_true]
    by_cases hneg : n < 0
    · have hsize : n.natAbs ≠ 0 ∧ n.natAbs ≤ Nat.pow 2 63 := by
        have hpow : Int.pow 2 63 = (Nat.pow 2 63 : Nat) := rfl
        omega
      have hvalue : -(n.natAbs : Int) = n := by omega
      rw [if_pos (decide_eq_true hneg), if_pos hsize, hvalue]
    · have hsize : n.natAbs < wordBound := by
        have hpow : Int.pow 2 64 = (wordBound : Nat) := rfl
        omega
      have hvalue : (n.natAbs : Int) = n := by omega
      rw [if_neg (by simpa using hneg), if_pos hsize, hvalue]
  rw [ofInt_eq, integer?, (Literal.wellFormed_ofInt n).numeric?_spelling, hnumeric]

end Json

end Chronicle
