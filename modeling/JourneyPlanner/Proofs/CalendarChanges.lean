import JourneyPlanner.Proofs.Admission
import JourneyPlanner.Proofs.ServicePeriod

/-!
What a calendar says after any changes. For each service and date the last change that
concerns both decides, no matter what happened to others in between. Services keep the codes
that they got, and the codes in use are the first natural numbers.
-/

namespace JourneyPlanner
namespace ServiceCalendar

/-- Whether a change puts a service on a date or takes it off; no value if it does neither. -/
def Change.puts? (code : Nat) (date : Date) : Change → Option Bool
  | .register _ => none
  | .add c d => if c = code ∧ d = date then some true else none
  | .remove c d => if c = code ∧ d = date then some false else none

/-- The services registered in the course of some changes, with the codes they got. -/
def registrations (c : ServiceCalendar) : List Change → List (String × Nat)
  | [] => []
  | .register serviceId :: changes =>
    (serviceId, (c.register serviceId).1) :: registrations (c.register serviceId).2 changes
  | x :: changes => registrations (c.change x) changes

/-- A calendar that tells what some changes have made of it. -/
structure Tells (changes : List Change) (c : ServiceCalendar) : Prop where
  active : ∀ code date, c.isActive code date = true ↔
    (changes.filterMap (Change.puts? code date)).getLast? = some true
  named : ∀ r ∈ registrations empty changes, c.serviceId? r.2 = some r.1
  unique : ∀ r ∈ registrations empty changes, ∀ r' ∈ registrations empty changes,
    r.1 = r'.1 ↔ r.2 = r'.2
  codes : ∀ code,
    code < c.numServices ↔ ∃ serviceId, (serviceId, code) ∈ registrations empty changes
  within : ∀ code date, c.isActive code date = true →
    ∃ first last, c.period = some (first, last) ∧ first ≤ date ∧ date ≤ last
  none : c.period = none ↔ ∀ code date, Change.add code date ∉ changes

variable {c : ServiceCalendar} {changes : List Change} {code : Nat} {date : Date}

/-- A change decides for the service and date it concerns, and leaves all others as they are. -/
theorem isActive_eq (c : ServiceCalendar) (x : Change) (code : Nat) (date : Date) :
    (c.change x).isActive code date = (x.puts? code date).getD (c.isActive code date) := by
  cases x with
  | register serviceId => simp [change, isActive, running_register, Change.puts?]
  | add code' date' =>
      simp only [change, isActive, addDate, Association.find?_alter, Change.puts?]
      by_cases hdate : date' = date
      · subst hdate
        cases hfind : Association.find? date' c.running <;> grind
      · simp [hdate]
  | remove code' date' =>
      simp only [change, isActive, removeDate, Association.find?_adjust, Change.puts?]
      by_cases hdate : date' = date
      · subst hdate
        cases hfind : Association.find? date' c.running <;> grind
      · simp [hdate]

theorem isActive_foldl (changes : List Change) (c : ServiceCalendar) (code : Nat) (date : Date) :
    (changes.foldl change c).isActive code date =
      (changes.filterMap (Change.puts? code date)).getLast?.getD (c.isActive code date) := by
  induction changes generalizing c with
  | nil => rfl
  | cons x changes ih =>
      rw [List.foldl_cons, ih, isActive_eq, List.filterMap_cons]
      cases x.puts? code date with
      | none => rfl
      | some b => rw [List.getLast?_cons, Option.getD_some, Option.getD_some]

/-- The last change that concerns a service and a date decides whether it is active then. -/
theorem isActive_ofChanges (changes : List Change) (code : Nat) (date : Date) :
    (ofChanges changes).isActive code date = true ↔
      (changes.filterMap (Change.puts? code date)).getLast? = some true := by
  have hnever : ({} : ServiceCalendar).isActive code date = false := rfl
  rw [ofChanges, isActive_foldl, hnever]
  cases (changes.filterMap (Change.puts? code date)).getLast? <;> simp

section Codes

/-- Services are only ever added at the end, and each of them once. -/
theorem longer_change (c : ServiceCalendar) (x : Change) :
    c.serviceIds <+: (c.change x).serviceIds := by
  cases x with
  | register serviceId => exact longer_register
  | add code date => exact List.prefix_refl _
  | remove code date => exact List.prefix_refl _

theorem longer_foldl (changes : List Change) (c : ServiceCalendar) :
    c.serviceIds <+: (changes.foldl change c).serviceIds := by
  induction changes generalizing c with
  | nil => exact List.prefix_refl _
  | cons x changes ih => exact (c.longer_change x).trans (ih (c.change x))

theorem nodup_change (h : c.serviceIds.Nodup) (x : Change) : (c.change x).serviceIds.Nodup := by
  cases x with
  | register serviceId =>
      by_cases hmem : serviceId ∈ c.serviceIds
      · rwa [change, register_of_mem hmem]
      · have hfind : c.serviceIds.findIdx? (· == serviceId) = none :=
          List.findIdx?_eq_none_iff.mpr fun id hid => by
            simpa using fun heq : id = serviceId => hmem (heq ▸ hid)
        simp only [change, register, hfind]
        exact List.nodup_append.mpr ⟨h, List.nodup_singleton _, fun id hid id' hid' => by
          rintro rfl
          exact hmem (List.mem_singleton.mp hid' ▸ hid)⟩
  | add code date => exact h
  | remove code date => exact h

theorem nodup_foldl (h : c.serviceIds.Nodup) (changes : List Change) :
    (changes.foldl change c).serviceIds.Nodup :=
  List.foldlRecOn changes change (motive := fun c => c.serviceIds.Nodup) h
    fun _ hc x _ => nodup_change hc x

/-- Whoever asked for the code of a service can still find the service by it. -/
theorem serviceId?_of_mem_registrations {r : String × Nat} (hr : r ∈ registrations c changes) :
    (changes.foldl change c).serviceId? r.2 = some r.1 := by
  induction changes generalizing c with
  | nil => simp [registrations] at hr
  | cons x changes ih =>
      cases x with
      | register serviceId =>
          rcases List.mem_cons.mp hr with rfl | hr
          · have hmem : serviceId ∈ (c.register serviceId).2.serviceIds := mem_register
            have hnow := serviceId?_register hmem
            rw [code_register] at hnow
            have hlt := (List.getElem?_eq_some_iff.mp hnow).1
            obtain ⟨later, hlater⟩ := longer_foldl changes (c.register serviceId).2
            have hkept : (changes.foldl change (c.register serviceId).2).serviceIds[
                (c.register serviceId).1]? = some serviceId := by
              rw [← hlater, List.getElem?_append_left hlt]
              exact hnow
            exact hkept
          · exact ih hr
      | add code date => exact ih hr
      | remove code date => exact ih hr

/-- Every service was there from the beginning or was registered. -/
theorem mem_serviceIds_foldl {serviceId : String}
    (h : serviceId ∈ (changes.foldl change c).serviceIds) :
    serviceId ∈ c.serviceIds ∨ ∃ code, (serviceId, code) ∈ registrations c changes := by
  induction changes generalizing c with
  | nil => exact Or.inl h
  | cons x changes ih =>
      cases x with
      | register id =>
          rcases ih h with hknown | ⟨code, hcode⟩
          · by_cases hid : serviceId = id
            · subst hid
              exact Or.inr ⟨_, List.mem_cons_self ..⟩
            · refine Or.inl ?_
              simp only [change, register] at hknown
              split at hknown
              · exact hknown
              · simpa [hid] using hknown
          · exact Or.inr ⟨code, List.mem_cons_of_mem _ hcode⟩
      | add code date => exact ih h
      | remove code date => exact ih h

/-- Codes and services stand for each other. -/
theorem serviceId?_inj (h : c.serviceIds.Nodup) {code' : Nat} {serviceId : String}
    (hcode : c.serviceId? code = some serviceId) (hcode' : c.serviceId? code' = some serviceId) :
    code = code' := by
  have hlt := (List.getElem?_eq_some_iff.mp hcode).1
  exact (List.getElem?_inj hlt h).mp (hcode.trans hcode'.symm)

/-- The codes in use are those that were given away. -/
theorem lt_numServices_iff (changes : List Change) (code : Nat) :
    code < (ofChanges changes).numServices ↔
      ∃ serviceId, (serviceId, code) ∈ registrations empty changes := by
  constructor
  · intro hlt
    have hmem := List.getElem_mem hlt
    obtain ⟨code', hcode'⟩ := (mem_serviceIds_foldl hmem).resolve_left (by simp)
    have hcode : (ofChanges changes).serviceId? code = some _ := List.getElem?_eq_getElem hlt
    have hnodup : (ofChanges changes).serviceIds.Nodup := nodup_foldl List.nodup_nil changes
    obtain rfl := serviceId?_inj hnodup hcode (serviceId?_of_mem_registrations hcode')
    exact ⟨_, hcode'⟩
  · rintro ⟨serviceId, hr⟩
    exact (List.getElem?_eq_some_iff.mp (serviceId?_of_mem_registrations hr)).1

end Codes

section Period

theorem addedDates_eq_nil_iff :
    addedDates changes = [] ↔ ∀ code date, Change.add code date ∉ changes := by
  rw [addedDates, List.filterMap_eq_nil_iff]
  constructor
  · intro h code date hmem
    exact absurd (h _ hmem) (by simp [Change.added?])
  · intro h x hx
    cases x with
    | add code date => exact absurd hx (h code date)
    | register serviceId | remove code date => rfl

/-- Without a period nothing was ever added. -/
theorem period_eq_none_iff :
    (ofChanges changes).period = none ↔ ∀ code date, Change.add code date ∉ changes := by
  have hperiod := isPeriod_ofChanges changes
  rw [← addedDates_eq_nil_iff]
  cases hcase : (ofChanges changes).period with
  | none =>
      rw [hcase] at hperiod
      exact iff_of_true rfl hperiod
  | some period =>
      rw [hcase] at hperiod
      exact iff_of_false (by simp) (List.ne_nil_of_mem hperiod.1)

/-- Services are active in the period only. -/
theorem period_of_isActive (h : (ofChanges changes).isActive code date = true) :
    ∃ first last, (ofChanges changes).period = some (first, last)
      ∧ first ≤ date ∧ date ≤ last := by
  have hadded := added_of_isActive h
  have hperiod := isPeriod_ofChanges changes
  cases hcase : (ofChanges changes).period with
  | none =>
      rw [hcase] at hperiod
      simp [show addedDates changes = [] from hperiod] at hadded
  | some period =>
      rw [hcase] at hperiod
      exact ⟨period.1, period.2, rfl, hperiod.2.2 date hadded⟩

end Period

/-- After any changes, in whatever order, a calendar tells what they have made of it. -/
theorem tells_ofChanges (changes : List Change) : Tells changes (ofChanges changes) := by
  have hnamed : ∀ r ∈ registrations empty changes, (ofChanges changes).serviceId? r.2 = some r.1 :=
    fun r hr => serviceId?_of_mem_registrations hr
  refine ⟨isActive_ofChanges changes, hnamed, ?unique, lt_numServices_iff changes,
    fun _ _ => period_of_isActive, period_eq_none_iff⟩
  case unique =>
    intro r hr r' hr'
    have hname := hnamed r hr
    have hname' := hnamed r' hr'
    constructor
    · intro hid
      exact serviceId?_inj (nodup_foldl List.nodup_nil changes) hname (hid ▸ hname')
    · intro hcode
      rw [hcode, hname'] at hname
      exact (Option.some.inj hname).symm

end ServiceCalendar
end JourneyPlanner
