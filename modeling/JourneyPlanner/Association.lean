/-!
Finite maps as lists of pairs, read from the front. Changing an entry keeps its
place, and a new entry goes to the end.
-/

namespace JourneyPlanner.Association

variable {κ ν : Type} [DecidableEq κ]

def find? (k : κ) : List (κ × ν) → Option ν
  | [] => none
  | (k', v) :: rest => if k' = k then some v else find? k rest

/-- Gives `k` the value `f` makes of its old one. -/
def alter (k : κ) (f : Option ν → ν) : List (κ × ν) → List (κ × ν)
  | [] => [(k, f none)]
  | (k', v) :: rest => if k' = k then (k', f (some v)) :: rest else (k', v) :: alter k f rest

/-- Changes the value of `k` if it has one. -/
def adjust (k : κ) (f : ν → ν) : List (κ × ν) → List (κ × ν)
  | [] => []
  | (k', v) :: rest => if k' = k then (k', f v) :: rest else (k', v) :: adjust k f rest

def put (k : κ) (v : ν) (m : List (κ × ν)) : List (κ × ν) :=
  alter k (fun _ => v) m

def erase (k : κ) (m : List (κ × ν)) : List (κ × ν) :=
  m.filter fun e => decide (e.1 ≠ k)

theorem mem_of_find? {k : κ} {v : ν} {m : List (κ × ν)} (h : find? k m = some v) : (k, v) ∈ m := by
  induction m with
  | nil => simp [find?] at h
  | cons e rest ih => grind [find?]

theorem find?_isSome_of_mem {k : κ} {v : ν} {m : List (κ × ν)} (h : (k, v) ∈ m) :
    (find? k m).isSome = true := by
  induction m with
  | nil => simp at h
  | cons e rest ih => grind [find?]

theorem find?_alter (k k' : κ) (f : Option ν → ν) (m : List (κ × ν)) :
    find? k' (alter k f m) = if k = k' then some (f (find? k m)) else find? k' m := by
  induction m with
  | nil => simp [alter, find?]
  | cons e rest ih => grind [alter, find?]

theorem find?_put (k k' : κ) (v : ν) (m : List (κ × ν)) :
    find? k' (put k v m) = if k = k' then some v else find? k' m :=
  find?_alter k k' (fun _ => v) m

theorem find?_adjust (k k' : κ) (f : ν → ν) (m : List (κ × ν)) :
    find? k' (adjust k f m) = if k = k' then (find? k m).map f else find? k' m := by
  induction m with
  | nil => simp [adjust, find?]
  | cons e rest ih => grind [adjust, find?]

theorem find?_erase (k k' : κ) (m : List (κ × ν)) :
    find? k' (erase k m) = if k = k' then none else find? k' m := by
  induction m with
  | nil => simp [erase, find?]
  | cons e rest ih => grind [erase, find?]

end JourneyPlanner.Association
