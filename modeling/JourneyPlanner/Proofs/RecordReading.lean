import JourneyPlanner.Proofs.Fallible
import JourneyPlanner.Json.Record

/-!
Reading back what was written. A way to read and a way to write belong together on the values
that fit: what fits is read back as itself, and what is read fits. Lists, optional values and
the fields of records keep that up.
-/

namespace JourneyPlanner

variable {α β : Type}

namespace Field

/-- A field gives nothing but values of this kind. -/
def All (P : α → Prop) (x : Field α) : Prop :=
  ∀ a, x = .given a → P a

@[simp]
theorem map_given (f : α → β) (a : α) : f <$> Field.given a = .given (f a) :=
  rfl

@[simp]
theorem seq_given (f : α → β) (a : α) : Field.given f <*> Field.given a = .given (f a) :=
  rfl

@[simp]
theorem ofReading_ok (position : Nat) (a : α) : ofReading position (.ok a) = .given a :=
  rfl

theorem All.map {P : β → Prop} {Q : α → Prop} {x : Field α} (hx : x.All Q) {f : α → β}
    (hf : ∀ a, Q a → P (f a)) : (f <$> x).All P := by
  intro b hb
  cases x with
  | given a =>
      obtain rfl := Field.given.inj hb
      exact hf a (hx a rfl)
  | faulty i e => exact absurd hb nofun

theorem All.seq {P : β → Prop} {Q : α → Prop} {f : Field (α → β)} {x : Field α}
    (hf : f.All fun g => ∀ a, Q a → P (g a)) (hx : x.All Q) : (f <*> x).All P := by
  intro b hb
  cases f with
  | given g =>
      cases x with
      | given a =>
          obtain rfl := Field.given.inj hb
          exact hf g rfl a (hx a rfl)
      | faulty i e => exact absurd hb nofun
  | faulty i e =>
      cases x with
      | given a => exact absurd hb nofun
      | faulty j d =>
          change (if j < i then Field.faulty j d else .faulty i e) = _ at hb
          split at hb <;> exact absurd hb nofun

theorem all_ofReading {P : α → Prop} {reading : Reading α} (h : ∀ a, reading = .ok a → P a)
    (position : Nat) : (ofReading position reading).All P := by
  intro a ha
  cases reading with
  | ok a' =>
      obtain rfl := Field.given.inj ha
      exact h a' rfl
  | error e => exact absurd ha nofun

end Field

namespace Json

/-- What fits is read back after it was written, and what is read fits. -/
structure ReadsBack (write : α → Json) (read : Json → Reading α) (Fits : α → Prop) : Prop where
  back : ∀ {a}, Fits a → read (write a) = .ok a
  fits : ∀ {j a}, read j = .ok a → Fits a

section Values

variable {write : α → Json} {read : Json → Reading α} {Fits : α → Prop}

theorem readsBack_string : ReadsBack .str readString fun _ => True where
  back _ := rfl
  fits _ := trivial

theorem readsBack_bool : ReadsBack .bool readBool fun _ => True where
  back _ := rfl
  fits _ := trivial

theorem readsBack_int (lo hi : Int) :
    ReadsBack .int (readIntWithin lo hi) fun n => lo ≤ n ∧ n ≤ hi where
  back h := if_pos h
  fits {j n} h := by
    cases j with
    | int m =>
        simp only [readIntWithin] at h
        split at h
        case isTrue hm => exact Except.ok.inj h ▸ hm
        case isFalse => exact absurd h nofun
    | _ => exact absurd h nofun

theorem readsBack_nat (hi : Nat) :
    ReadsBack (fun n : Nat => .int n) (readNatUpTo hi) fun n => n ≤ hi where
  back {n} h := if_pos ⟨Int.natCast_nonneg n, Int.ofNat_le.mpr h⟩
  fits {j n} h := by
    cases j with
    | int m =>
        simp only [readNatUpTo] at h
        split at h
        case isTrue hm =>
          obtain rfl := Except.ok.inj h
          omega
        case isFalse => exact absurd h nofun
    | _ => exact absurd h nofun

theorem ReadsBack.list (h : ReadsBack write read Fits) :
    ReadsBack (fun as => .arr (as.map write)) (readList read) fun as => ∀ a ∈ as, Fits a where
  back {as} hfits := by
    change readItems read (as.map write) = .ok as
    induction as with
    | nil => rfl
    | cons a as ih =>
        rw [List.map_cons, readItems, h.back (hfits a List.mem_cons_self),
          ih fun a ha => hfits a (List.mem_cons_of_mem _ ha)]
  fits {j as} hread := by
    cases j with
    | arr items =>
        change readItems read items = .ok as at hread
        induction items generalizing as with
        | nil =>
            obtain rfl := Except.ok.inj hread
            exact fun a ha => absurd ha List.not_mem_nil
        | cons item items ih =>
            rw [readItems] at hread
            split at hread
            case h_1 => exact absurd hread nofun
            case h_2 a ha =>
              split at hread
              case h_1 => exact absurd hread nofun
              case h_2 as' has =>
                obtain rfl := Except.ok.inj hread
                exact List.forall_mem_cons.mpr ⟨h.fits ha, ih has⟩
    | _ => exact absurd hread nofun

/-- Reads null as nothing. -/
def readNullable (read : Json → Reading α) : Json → Reading (Option α)
  | .null => .ok none
  | j => (read j).map some

theorem readNullable_of_ne {j : Json} (h : j ≠ .null) :
    readNullable read j = (read j).map some := by
  cases j <;> first | rfl | exact absurd rfl h

/-- Nothing is written as null, and what is written otherwise is not null. -/
theorem ReadsBack.nullable (h : ReadsBack write read Fits) (hnull : ∀ a, write a ≠ .null) :
    ReadsBack (nullable write) (readNullable read) fun o => ∀ a, o = some a → Fits a where
  back {o} hfits := by
    cases o with
    | none => rfl
    | some a =>
        rw [Json.nullable, readNullable_of_ne (hnull a), h.back (hfits a rfl)]
        rfl
  fits {j o} hread := by
    rintro a rfl
    by_cases hj : j = .null
    · subst hj
      exact absurd hread nofun
    · rw [readNullable_of_ne hj, Fallible.map_eq_ok] at hread
      obtain ⟨a', ha', heq⟩ := hread
      exact Option.some.inj heq ▸ h.fits ha'

/-- A name out of a choice in which every name stands for one value. -/
theorem readsBack_choice {choices : List (String × α)} {name : α → String}
    (h : ∀ a, choices.lookup (name a) = some a) :
    ReadsBack (fun a => .str (name a)) (readChoice choices) fun _ => True where
  back {a} _ := by rw [readChoice, h a]
  fits _ := trivial

end Values

section Tags

variable {tag value : String} {members : List (String × Json)}

theorem readTagged_cons (h : tag ∉ members.map Prod.fst) :
    readTagged tag (.obj ((tag, .str value) :: members)) = .ok (value, .obj members) := by
  have hnone : ∀ m ∈ members, m.1 ≠ tag := fun m hm heq => h (heq ▸ List.mem_map_of_mem hm)
  have hbeside : members.filter (fun m => m.1 == tag) = [] :=
    List.filter_eq_nil_iff.mpr fun m hm => by simpa using hnone m hm
  have hrest : members.filter (fun m => m.1 != tag) = members :=
    List.filter_eq_self.mpr fun m hm => by simpa using hnone m hm
  simp [readTagged, hbeside, hrest]

/-- Reading goes on beside the tag. -/
theorem bind_tagged {f : String × Json → Reading α} {a : α} (h : tag ∉ members.map Prod.fst)
    (hrest : f (value, .obj members) = .ok a) :
    readTagged tag (.obj ((tag, .str value) :: members)) >>= f = .ok a :=
  Fallible.bind_eq_ok.mpr ⟨_, readTagged_cons h, hrest⟩

end Tags

end Json

namespace Record

variable {members : List (String × Json)} {names : List String} {r : Record} {name : String}
  {write : α → Json} {read : Json → Reading α} {Fits : α → Prop}

/-- The record of members that were written, each of them once. -/
def written (members : List (String × Json)) : Record :=
  ⟨members, false, none⟩

theorem repeated?_eq_none {seen : List String} (h : (members.map Prod.fst).Nodup)
    (hseen : ∀ m ∈ members, m.1 ∉ seen) (i : Nat) : repeated? names i seen members = none := by
  induction members generalizing seen i with
  | nil => rfl
  | cons m members ih =>
      rw [List.map_cons, List.nodup_cons] at h
      have hnew : seen.contains m.1 = false := by
        simpa using hseen m List.mem_cons_self
      rw [repeated?, hnew, if_neg (by decide)]
      refine ih h.2 (fun m' hm' => ?_) _
      have hother : m'.1 ≠ m.1 := fun heq => h.1 (heq ▸ List.mem_map_of_mem hm')
      have hfresh := hseen m' (List.mem_cons_of_mem _ hm')
      split
      · simp [hother, hfresh]
      · exact hfresh

theorem ofJson_written (hnames : members.map Prod.fst = names) (hnodup : names.Nodup) :
    Record.ofJson names (.obj members) = .ok (written members) := by
  have hnone : repeated? names 0 [] members = none :=
    repeated?_eq_none (hnames ▸ hnodup) (fun _ _ => List.not_mem_nil) 0
  simp only [Record.ofJson, ofMembers, hnone, written]

/-- Reading goes on with the members that were written. -/
theorem bind_written {f : Record → Reading α} {a : α} (hnames : members.map Prod.fst = names)
    (hnodup : names.Nodup) (h : f (written members) = .ok a) :
    Record.ofJson names (.obj members) >>= f = .ok a :=
  Fallible.bind_eq_ok.mpr ⟨_, ofJson_written hnames hnodup, h⟩

theorem given_of_finish {x : Field α} {a : α} (h : r.finish x = .ok a) : x = .given a := by
  unfold finish at h
  split at h
  · exact congrArg _ (Except.ok.inj h)
  · exact absurd h nofun
  · exact absurd h nofun
  · split at h <;> exact absurd h nofun

/-- What all fields together give is what is read. -/
theorem fits_of_bind {j : Json} {x : Record → Field α} {a : α} (hx : ∀ r, (x r).All Fits)
    (h : (Record.ofJson names j >>= fun r => r.finish (x r)) = .ok a) : Fits a := by
  obtain ⟨r, -, hfinish⟩ := Fallible.bind_eq_ok.mp h
  exact hx r a (given_of_finish hfinish)

section Fields

@[simp]
theorem finish_written (a : α) : (written members).finish (.given a) = .ok a :=
  rfl

@[simp]
theorem required_written : (written members).required name read =
    ((find? name 0 members).map fun p => Field.ofReading p.1 (read p.2)).getD
      (written members).missing := by
  simp only [required, field, written]
  cases find? name 0 members <;> rfl

@[simp]
theorem withDefault_written (a : α) : (written members).withDefault name a read =
    ((find? name 0 members).map fun p => Field.ofReading p.1 (read p.2)).getD (.given a) := by
  simp only [withDefault, field, written]
  cases find? name 0 members <;> rfl

@[simp]
theorem optional_written : (written members).optional name read =
    ((find? name 0 members).map fun p => Field.ofReading p.1 (Json.readNullable read p.2)).getD
      (.given none) := by
  simp only [optional, field, written]
  cases find? name 0 members <;> rfl

@[simp]
theorem nullable_written : (written members).nullable name read =
    ((find? name 0 members).map fun p => Field.ofReading p.1 (Json.readNullable read p.2)).getD
      (.given none) := by
  simp only [nullable, field, written]
  cases find? name 0 members <;> rfl

theorem all_field {otherwise : Field α} (h : Json.ReadsBack write read Fits)
    (hotherwise : otherwise.All Fits) : (r.field name read otherwise).All Fits := by
  unfold field
  split
  · exact Field.all_ofReading (fun _ => h.fits) _
  · exact hotherwise

theorem all_required (h : Json.ReadsBack write read Fits) : (r.required name read).All Fits :=
  all_field h fun _ ha => absurd ha nofun

theorem all_withDefault (h : Json.ReadsBack write read Fits) {a : α} (ha : Fits a) :
    (r.withDefault name a read).All Fits :=
  all_field h fun _ heq => Field.given.inj heq ▸ ha

theorem all_optional (h : Json.ReadsBack write read Fits) (hnull : ∀ a, write a ≠ .null) :
    (r.optional name read).All fun o => ∀ a, o = some a → Fits a :=
  all_field (h.nullable hnull) fun _ heq => Field.given.inj heq ▸ nofun

theorem all_nullable (h : Json.ReadsBack write read Fits) (hnull : ∀ a, write a ≠ .null) :
    (r.nullable name read).All fun o => ∀ a, o = some a → Fits a := by
  refine all_field (h.nullable hnull) fun o heq => ?_
  split at heq
  · exact absurd heq nofun
  · exact Field.given.inj heq ▸ nofun

end Fields

end Record
end JourneyPlanner
