import Chronicle.Tracking.Entity

/-!
# Stores

The entities that a program shares, each known by the place where it was put.
-/

namespace Chronicle

/-- What tells an entity from all others, whatever their keys are. -/
abbrev EntityId := Nat

/-- The shared entities. -/
structure Store where
  entities : List Entity := []

namespace Store

/-- The entity at a place. -/
def get? (s : Store) (id : EntityId) : Option Entity := s.entities[id]?

/-- The store with another entity, and its place. -/
def add (s : Store) (e : Entity) : Store × EntityId := (⟨s.entities ++ [e]⟩, s.entities.length)

/-- The store with the entity at a place changed. -/
def modify (s : Store) (id : EntityId) (f : Entity → Entity) : Store := ⟨s.entities.modify id f⟩

end Store

end Chronicle
