/-!
Indices, of which there are `2 ^ 64`. A table with an entry for an index is longer
than the index, so no table has one for the last index.
-/

namespace JourneyPlanner.Index

def count : Nat := Nat.pow 2 64

/-- Whether a table can have an entry for the index. -/
def hasEntry (index : Nat) : Bool :=
  decide (index + 1 < count)

end JourneyPlanner.Index
