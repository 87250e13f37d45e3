import JourneyPlanner.Proofs.Chart
import JourneyPlanner.Proofs.Fallible

/-!
The ways that a table of arrivals stands for. An arrival is followed only by
arrivals with greater ids, so the way back from it ends, and later arrivals do
not change it.
-/

namespace JourneyPlanner

namespace StopTable

/-- Arrivals follow arrivals with smaller ids. -/
def IsLinked (t : StopTable) : Prop :=
  ∀ (id : Nat) (a : StopArrival), t.arrivals[id]? = some a →
    ∀ previous, a.previous = some previous → previous < id

/-- Nothing that was accepted is lost or changed. -/
structure Extends (t t' : StopTable) : Prop where
  iteration : t'.iteration = t.iteration
  arrivals : ∀ {id : Nat} {a : StopArrival}, t.arrivals[id]? = some a → t'.arrivals[id]? = some a

/-- The arrivals on the way to an accepted one, itself included. -/
def arrivalsTo (t : StopTable) (id : Nat) : List StopArrival :=
  ((t.chain id).toOption.getD []).map StopArrival.unlinked

def wayOf (t : StopTable) (a : StopArrival) : Way where
  arrival := a.unlinked
  earlier := (a.previous.map t.arrivalsTo).getD []

/-- A new arrival goes on from an accepted one, if from any. -/
def Supports (t : StopTable) (a : StopArrival) : Prop :=
  ∀ previous, a.previous = some previous → ∃ b, t.arrivals[previous]? = some b

theorem Extends.refl (t : StopTable) : t.Extends t :=
  ⟨rfl, id⟩

theorem Extends.trans {t t' t'' : StopTable} (h : t.Extends t') (h' : t'.Extends t'') :
    t.Extends t'' :=
  ⟨h'.iteration.trans h.iteration, fun hid => h'.arrivals (h.arrivals hid)⟩

theorem Extends.supports {t t' : StopTable} (h : t.Extends t') {a : StopArrival}
    (ha : t.Supports a) : t'.Supports a := by
  intro previous hprevious
  obtain ⟨b, hb⟩ := ha previous hprevious
  exact ⟨b, h.arrivals hb⟩

theorem IsLinked.supports {t : StopTable} (h : t.IsLinked) {id : Nat} {a : StopArrival}
    (ha : t.arrivals[id]? = some a) : t.Supports a := by
  intro previous hprevious
  have hlt := h id a ha previous hprevious
  have hid := (Array.getElem?_eq_some_iff.mp ha).1
  exact ⟨t.arrivals[previous], Array.getElem?_eq_getElem (by omega)⟩

theorem supports_of_previous {t : StopTable} {a b : StopArrival} {id : Nat}
    (ha : a.previous = some id) (hb : t.arrivals[id]? = some b) : t.Supports a := by
  intro previous hprevious
  obtain rfl : id = previous := Option.some.inj (ha.symm.trans hprevious)
  exact ⟨b, hb⟩

/-- The way back from an arrival is found with any fuel above its id, also after
more arrivals were accepted. -/
theorem chainFrom_eq_of_extends {t t' : StopTable} (h : t.IsLinked) (ht : t.Extends t')
    (id fuel fuel' : Nat) (a : StopArrival) (ha : t.arrivals[id]? = some a)
    (hfuel : id < fuel) (hfuel' : id < fuel') :
    ∃ rest, t.chainFrom fuel id = .ok (a :: rest) ∧ t'.chainFrom fuel' id = .ok (a :: rest) := by
  induction fuel generalizing id fuel' a with
  | zero => omega
  | succ fuel ih =>
      obtain ⟨fuel', rfl⟩ : ∃ n, fuel' = n + 1 := ⟨fuel' - 1, by omega⟩
      cases hp : a.previous with
      | none => exact ⟨[], by simp [chainFrom, ha, hp], by simp [chainFrom, ht.arrivals ha, hp]⟩
      | some previous =>
          have hlt := h id a ha previous hp
          obtain ⟨b, hb⟩ := h.supports ha previous hp
          obtain ⟨rest, hr, hr'⟩ := ih previous fuel' b hb (by omega) (by omega)
          refine ⟨b :: rest, ?_, ?_⟩
          · simp only [chainFrom, ha, hp, hr, bind, Except.bind, pure, Except.pure]
          · simp only [chainFrom, ht.arrivals ha, hp, hr', bind, Except.bind, pure, Except.pure]

theorem chain_eq_of_extends {t t' : StopTable} (h : t.IsLinked) (ht : t.Extends t') {id : Nat}
    {a : StopArrival} (ha : t.arrivals[id]? = some a) :
    ∃ rest, t.chain id = .ok (a :: rest) ∧ t'.chain id = .ok (a :: rest) :=
  chainFrom_eq_of_extends h ht id _ _ a ha (Array.getElem?_eq_some_iff.mp ha).1
    (Array.getElem?_eq_some_iff.mp (ht.arrivals ha)).1

theorem arrivalsTo_of_extends {t t' : StopTable} (h : t.IsLinked) (ht : t.Extends t') {id : Nat}
    {a : StopArrival} (ha : t.arrivals[id]? = some a) : t'.arrivalsTo id = t.arrivalsTo id := by
  obtain ⟨rest, hr, hr'⟩ := chain_eq_of_extends h ht ha
  simp only [arrivalsTo, hr, hr']

theorem wayOf_of_extends {t t' : StopTable} (h : t.IsLinked) (ht : t.Extends t')
    {a : StopArrival} (ha : t.Supports a) : t'.wayOf a = t.wayOf a := by
  cases hp : a.previous with
  | none => simp [wayOf, hp]
  | some previous =>
      obtain ⟨b, hb⟩ := ha previous hp
      simp [wayOf, hp, arrivalsTo_of_extends h ht hb]

/-- The way to an accepted arrival ends with it. -/
theorem arrivalsTo_eq {t : StopTable} (h : t.IsLinked) {id : Nat} {a : StopArrival}
    (ha : t.arrivals[id]? = some a) : t.arrivalsTo id = (t.wayOf a).arrivals := by
  obtain ⟨fuel, hfuel⟩ : ∃ n, t.arrivals.size = n + 1 := by
    have hid := (Array.getElem?_eq_some_iff.mp ha).1
    exact ⟨t.arrivals.size - 1, by omega⟩
  cases hp : a.previous with
  | none => simp [arrivalsTo, chain, chainFrom, hfuel, ha, hp, wayOf, Way.arrivals, Except.toOption]
  | some previous =>
      obtain ⟨b, hb⟩ := h.supports ha previous hp
      have hlt := h id a ha previous hp
      have hid := (Array.getElem?_eq_some_iff.mp ha).1
      obtain ⟨rest, hr, hr'⟩ := chainFrom_eq_of_extends h (.refl t) previous fuel (fuel + 1) b hb
        (by omega) (by omega)
      simp [arrivalsTo, chain, chainFrom, hfuel, ha, hp, hr, hr', wayOf, Way.arrivals,
        Except.toOption, bind, Except.bind, pure, Except.pure]

theorem wayOf_eq_extend {t : StopTable} (h : t.IsLinked) {id : Nat} {a b : StopArrival}
    (ha : t.arrivals[id]? = some a) (hb : b.previous = some id) :
    t.wayOf b = (t.wayOf a).extend b := by
  simp [wayOf, Way.extend, hb, arrivalsTo_eq h ha]

theorem arrivalsTo_startIteration (t : StopTable) (id : Nat) :
    t.startIteration.arrivalsTo id = t.arrivalsTo id := by
  have hchain : ∀ fuel id, t.startIteration.chainFrom fuel id = t.chainFrom fuel id := by
    intro fuel
    induction fuel with
    | zero =>
        intro id
        unfold chainFrom
        rfl
    | succ fuel ih =>
        intro id
        have harrivals : t.startIteration.arrivals[id]? = t.arrivals[id]? := rfl
        rw [chainFrom, chainFrom, harrivals]
        cases t.arrivals[id]? with
        | none => rfl
        | some a => cases hp : a.previous <;> simp only [hp, ih]
  simp only [arrivalsTo, chain, hchain]
  rfl

theorem wayOf_startIteration (t : StopTable) (a : StopArrival) :
    t.startIteration.wayOf a = t.wayOf a := by
  unfold wayOf
  exact congrArg _ (by simp only [funext (arrivalsTo_startIteration t)])

end StopTable
end JourneyPlanner
