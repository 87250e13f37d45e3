/-!
Rows of different lengths, packed one after the other into one array. Reading a
row gives back the list it was made from.
-/

namespace JourneyPlanner

structure Rows (α : Type) where
  items : Array α := #[]
  /-- Start and length of each row. -/
  bounds : Array (Nat × Nat) := #[]

namespace Rows

variable {α : Type}

def boundsFrom (start : Nat) : List (List α) → List (Nat × Nat)
  | [] => []
  | row :: rows => (start, row.length) :: boundsFrom (start + row.length) rows

def ofLists (rows : List (List α)) : Rows α where
  items := rows.flatten.toArray
  bounds := (boundsFrom 0 rows).toArray

/-- A row beyond the last is empty. -/
def row (r : Rows α) (i : Nat) : List α :=
  match r.bounds[i]? with
  | some (start, length) => (r.items.toList.drop start).take length
  | none => []

theorem getElem?_boundsFrom (start : Nat) (rows : List (List α)) (i : Nat) :
    (boundsFrom start rows)[i]? =
      rows[i]?.map fun row => (start + (rows.take i).flatten.length, row.length) := by
  induction rows generalizing start i with
  | nil => simp [boundsFrom]
  | cons row rows ih =>
      cases i with
      | zero => simp [boundsFrom]
      | succ i => simp [boundsFrom, ih, Nat.add_assoc]

theorem take_drop_flatten (rows : List (List α)) (i : Nat) (row : List α)
    (h : rows[i]? = some row) :
    (rows.flatten.drop (rows.take i).flatten.length).take row.length = row := by
  induction rows generalizing i with
  | nil => simp at h
  | cons first rows ih =>
      cases i with
      | zero =>
          simp only [List.getElem?_cons_zero, Option.some.injEq] at h
          subst h
          simp
      | succ i =>
          simp only [List.getElem?_cons_succ] at h
          rw [List.take_succ_cons, List.flatten_cons, List.flatten_cons, List.length_append,
            List.drop_append, List.drop_eq_nil_of_le (Nat.le_add_right ..), List.nil_append,
            Nat.add_sub_cancel_left]
          exact ih i h

theorem row_ofLists (rows : List (List α)) (i : Nat) :
    (ofLists rows).row i = rows[i]?.getD [] := by
  simp only [row, ofLists, List.getElem?_toArray, getElem?_boundsFrom]
  cases h : rows[i]? with
  | none => simp
  | some r => simpa using take_drop_flatten rows i r h

end Rows
end JourneyPlanner
