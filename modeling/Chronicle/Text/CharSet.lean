/-!
# Sets of characters

A character class of a text format, given by the spans of code points that belong to it.

## Implementation notes

Spans are inclusive at both ends and listed in increasing order. Membership only asks whether some
span holds the code point, so no statement depends on the order.
-/

namespace Chronicle

namespace Text

/-- A set of characters, as a list of inclusive spans of code points. -/
structure CharSet where
  /-- The first and the last code point of each span. -/
  spans : List (Nat × Nat)

namespace CharSet

/-- Whether a character belongs to the set. -/
def contains (set : CharSet) (c : Char) : Bool :=
  set.spans.any fun span => span.1 ≤ c.toNat && c.toNat ≤ span.2

/-- The characters that belong to either of two sets. -/
def union (first second : CharSet) : CharSet :=
  ⟨first.spans ++ second.spans⟩

theorem contains_iff {set : CharSet} {c : Char} :
    set.contains c = true ↔ ∃ span ∈ set.spans, span.1 ≤ c.toNat ∧ c.toNat ≤ span.2 := by
  simp [contains]

@[simp]
theorem contains_union (first second : CharSet) (c : Char) :
    (first.union second).contains c = (first.contains c || second.contains c) := by
  simp [contains, union]

end CharSet

end Text

end Chronicle
