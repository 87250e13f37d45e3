import JourneyPlanner.Fault
import Mathlib.Data.List.Forall2

/-!
Reading back computations that may fail: when a sequence of steps succeeds, every
step of it did, and what each step keeps the whole sequence keeps.
-/

namespace JourneyPlanner

/-- Two runs over the same list. -/
theorem foldl_both {σ τ α : Type} {R : σ → τ → Prop} {f : σ → α → σ} {g : τ → α → τ}
    (xs : List α) (both : ∀ x ∈ xs, ∀ c d, R c d → R (f c x) (g d x)) {c : σ} {d : τ} (h : R c d) :
    R (xs.foldl f c) (xs.foldl g d) := by
  induction xs generalizing c d with
  | nil => exact h
  | cons x xs ih =>
      rw [List.foldl_cons, List.foldl_cons]
      exact ih (fun z hz => both z (List.mem_cons_of_mem _ hz))
        (both x (List.mem_cons_self ..) c d h)

namespace Fallible

variable {ε α β σ : Type}

theorem bind_eq_ok {x : Except ε α} {f : α → Except ε β} {b : β} :
    x >>= f = .ok b ↔ ∃ a, x = .ok a ∧ f a = .ok b := by
  cases x with
  | error e => simp [bind, Except.bind]
  | ok a => simp [bind, Except.bind]

theorem map_eq_ok {x : Except ε α} {f : α → β} {b : β} :
    x.map f = .ok b ↔ ∃ a, x = .ok a ∧ f a = b := by
  cases x with
  | error e => simp [Except.map]
  | ok a => simp [Except.map]

theorem toOption_eq_some {x : Except ε α} {a : α} : x.toOption = some a ↔ x = .ok a := by
  cases x <;> simp [Except.toOption]

theorem any_toOption {x : Except ε α} {p : α → Bool} :
    x.toOption.any p = true ↔ ∃ a, x = .ok a ∧ p a = true := by
  simp only [Option.any_eq_true, toOption_eq_some]

theorem pure_eq_ok {a b : α} : (pure a : Except ε α) = .ok b ↔ a = b := by
  simp [pure, Except.pure]

theorem foldlM_cons_eq_ok {f : σ → α → Except ε σ} {x : α} {xs : List α} {p q : σ} :
    (x :: xs).foldlM f p = .ok q ↔ ∃ p', f p x = .ok p' ∧ xs.foldlM f p' = .ok q := by
  rw [List.foldlM_cons, bind_eq_ok]

/-- What each step keeps, a run over a list keeps. -/
theorem foldlM_keeps {f : σ → α → Except ε σ} {I : σ → Prop} {xs : List α} {p q : σ}
    (step : ∀ x ∈ xs, ∀ p p', I p → f p x = .ok p' → I p') (hp : I p)
    (h : xs.foldlM f p = .ok q) : I q := by
  induction xs generalizing p with
  | nil =>
      rw [List.foldlM_nil, pure_eq_ok] at h
      exact h ▸ hp
  | cons x xs ih =>
      obtain ⟨p', hx, hxs⟩ := foldlM_cons_eq_ok.mp h
      refine ih ?_ (step x (List.mem_cons_self ..) p p' hp hx) hxs
      intro y hy
      exact step y (List.mem_cons_of_mem _ hy)

/-- A run over a list shows the same run of what its states stand for. -/
theorem foldlM_shows {f : σ → α → Except ε σ} {g : β → α → β} {v : σ → β} {I : σ → Prop}
    {xs : List α} {p q : σ}
    (step : ∀ x ∈ xs, ∀ p p', I p → f p x = .ok p' → I p' ∧ v p' = g (v p) x)
    (hp : I p) (h : xs.foldlM f p = .ok q) : I q ∧ v q = xs.foldl g (v p) := by
  induction xs generalizing p with
  | nil =>
      rw [List.foldlM_nil, pure_eq_ok] at h
      subst h
      exact ⟨hp, rfl⟩
  | cons x xs ih =>
      obtain ⟨p', hx, hxs⟩ := foldlM_cons_eq_ok.mp h
      obtain ⟨hp', hview⟩ := step x (List.mem_cons_self ..) p p' hp hx
      rw [List.foldl_cons, ← hview]
      refine ih ?_ hp' hxs
      intro y hy
      exact step y (List.mem_cons_of_mem _ hy)

/-- If every step that starts well succeeds and ends well, so does the run. -/
theorem foldlM_succeeds {f : σ → α → Except ε σ} {I : σ → Prop} {xs : List α} {p : σ}
    (step : ∀ x ∈ xs, ∀ p, I p → ∃ p', f p x = .ok p' ∧ I p') (hp : I p) :
    ∃ q, xs.foldlM f p = .ok q ∧ I q := by
  induction xs generalizing p with
  | nil => exact ⟨p, rfl, hp⟩
  | cons x xs ih =>
      obtain ⟨p', hx, hp'⟩ := step x (List.mem_cons_self ..) p hp
      obtain ⟨q, hxs, hq⟩ := ih (fun y hy => step y (List.mem_cons_of_mem _ hy)) hp'
      exact ⟨q, foldlM_cons_eq_ok.mpr ⟨p', hx, hxs⟩, hq⟩

/-- Two runs, one of which takes corresponding steps wherever the other one succeeds. -/
theorem foldlM_forall₂ {τ : Type} {R : σ → τ → Prop} {S : α → β → Prop} {f : σ → α → Except ε σ}
    {g : τ → β → Except ε τ} {xs : List α} {ys : List β} {p q : σ} {p' : τ}
    (both : ∀ x y p p' q, S x y → R p p' → f p x = .ok q → ∃ q', g p' y = .ok q' ∧ R q q')
    (hxs : List.Forall₂ S xs ys) (hp : R p p') (h : xs.foldlM f p = .ok q) :
    ∃ q', ys.foldlM g p' = .ok q' ∧ R q q' := by
  induction hxs generalizing p p' with
  | nil =>
      rw [List.foldlM_nil, pure_eq_ok] at h
      exact ⟨p', rfl, h ▸ hp⟩
  | cons hx _ ih =>
      obtain ⟨p₁, hstep, hrest⟩ := foldlM_cons_eq_ok.mp h
      obtain ⟨p₁', hstep', hp₁⟩ := both _ _ p p' p₁ hx hp hstep
      obtain ⟨q', hrest', hq⟩ := ih hp₁ hrest
      exact ⟨q', foldlM_cons_eq_ok.mpr ⟨p₁', hstep', hrest'⟩, hq⟩

/-- Two runs over the same list, one of which succeeds wherever the other one does. -/
theorem foldlM_both {τ : Type} {R : σ → τ → Prop} {f : σ → α → Except ε σ} {g : τ → α → Except ε τ}
    {xs : List α} {p q : σ} {p' : τ}
    (both : ∀ x ∈ xs, ∀ p p' q, R p p' → f p x = .ok q → ∃ q', g p' x = .ok q' ∧ R q q')
    (hp : R p p') (h : xs.foldlM f p = .ok q) : ∃ q', xs.foldlM g p' = .ok q' ∧ R q q' := by
  have hboth : ∀ x y p p' q, y = x ∧ x ∈ xs → R p p' → f p x = .ok q →
      ∃ q', g p' y = .ok q' ∧ R q q' := by
    rintro x _ p p' q ⟨rfl, hx⟩
    exact both _ hx p p' q
  exact foldlM_forall₂ hboth (List.forall₂_same.mpr fun x hx => ⟨rfl, hx⟩) hp h

/-- Elements that change nothing can be left out. -/
theorem foldlM_filter {f : σ → α → Except ε σ} {keep : α → Bool} {xs : List α}
    (h : ∀ x ∈ xs, keep x = false → ∀ p, f p x = .ok p) (p : σ) :
    xs.foldlM f p = (xs.filter keep).foldlM f p := by
  induction xs generalizing p with
  | nil => rfl
  | cons x xs ih =>
      have hrest := ih fun y hy => h y (List.mem_cons_of_mem _ hy)
      cases hx : keep x with
      | true =>
          rw [List.filter_cons_of_pos hx, List.foldlM_cons, List.foldlM_cons]
          exact bind_congr hrest
      | false =>
          rw [List.filter_cons_of_neg (by simp [hx]), List.foldlM_cons,
            h x (List.mem_cons_self ..) hx, ← hrest]
          rfl

theorem mapM_cons_eq_ok {f : α → Except ε β} {x : α} {xs : List α} {ys : List β} :
    (x :: xs).mapM f = .ok ys ↔ ∃ y rest, f x = .ok y ∧ xs.mapM f = .ok rest ∧ ys = y :: rest := by
  simp only [List.mapM_cons, bind_eq_ok, pure_eq_ok]
  constructor
  · rintro ⟨y, hy, rest, hrest, rfl⟩
    exact ⟨y, rest, hy, hrest, rfl⟩
  · rintro ⟨y, rest, hy, hrest, rfl⟩
    exact ⟨y, hy, rest, hrest, rfl⟩

/-- If every element has a result, so does the list. -/
theorem mapM_succeeds {f : α → Except ε β} {xs : List α} (h : ∀ x ∈ xs, ∃ y, f x = .ok y) :
    ∃ ys, xs.mapM f = .ok ys := by
  induction xs with
  | nil => exact ⟨[], rfl⟩
  | cons x xs ih =>
      obtain ⟨y, hy⟩ := h x (List.mem_cons_self ..)
      obtain ⟨ys, hys⟩ := ih fun z hz => h z (List.mem_cons_of_mem _ hz)
      exact ⟨y :: ys, mapM_cons_eq_ok.mpr ⟨y, ys, hy, hys, rfl⟩⟩

theorem mapM_succeeds_iff {f : α → Except ε β} {xs : List α} :
    (∃ ys, xs.mapM f = .ok ys) ↔ ∀ x ∈ xs, ∃ y, f x = .ok y := by
  refine ⟨?_, mapM_succeeds⟩
  induction xs with
  | nil => simp
  | cons x xs ih =>
      rintro ⟨ys, hys⟩
      obtain ⟨y, rest, hy, hrest, -⟩ := mapM_cons_eq_ok.mp hys
      exact List.forall_mem_cons.mpr ⟨⟨y, hy⟩, ih ⟨rest, hrest⟩⟩

/-- Where results correspond for each element, they do for the list. -/
theorem mapM_both {γ : Type} {f : α → Except ε β} {g : α → Except ε γ} {k : β → γ} {xs : List α}
    {ys : List β} (both : ∀ x ∈ xs, ∀ y, f x = .ok y → g x = .ok (k y)) (h : xs.mapM f = .ok ys) :
    xs.mapM g = .ok (ys.map k) := by
  induction xs generalizing ys with
  | nil =>
      rw [List.mapM_nil, pure_eq_ok] at h
      exact h ▸ rfl
  | cons x xs ih =>
      obtain ⟨y, rest, hy, hrest, rfl⟩ := mapM_cons_eq_ok.mp h
      exact mapM_cons_eq_ok.mpr ⟨k y, rest.map k, both x (List.mem_cons_self ..) y hy,
        ih (fun z hz => both z (List.mem_cons_of_mem _ hz)) hrest, rfl⟩

theorem mapM_congr {f g : α → Except ε β} {xs : List α} (h : ∀ x ∈ xs, f x = g x) :
    xs.mapM f = xs.mapM g := by
  induction xs with
  | nil => rfl
  | cons x xs ih =>
      rw [List.mapM_cons, List.mapM_cons, h x (List.mem_cons_self ..),
        ih fun y hy => h y (List.mem_cons_of_mem _ hy)]

theorem mem_mapM {f : α → Except ε β} {xs : List α} {ys : List β} (h : xs.mapM f = .ok ys) {y : β} :
    y ∈ ys ↔ ∃ x ∈ xs, f x = .ok y := by
  induction xs generalizing ys with
  | nil =>
      rw [List.mapM_nil, pure_eq_ok] at h
      simp [← h]
  | cons x xs ih =>
      obtain ⟨z, rest, hz, hrest, rfl⟩ := mapM_cons_eq_ok.mp h
      simp only [List.mem_cons, ih hrest, exists_eq_or_imp, hz, Except.ok.injEq, eq_comm (a := y)]

/-- Elements can be left out, or their results. -/
theorem filter_mapM {f : α → Except ε β} {P : α → Bool} {Q : β → Bool} {xs : List α} {ys : List β}
    (h : xs.mapM f = .ok ys) (hPQ : ∀ x ∈ xs, ∀ y, f x = .ok y → Q y = P x) :
    (xs.filter P).mapM f = .ok (ys.filter Q) := by
  induction xs generalizing ys with
  | nil =>
      rw [List.mapM_nil, pure_eq_ok] at h
      exact h ▸ rfl
  | cons x xs ih =>
      obtain ⟨y, rest, hy, hrest, rfl⟩ := mapM_cons_eq_ok.mp h
      have ih := ih hrest fun z hz => hPQ z (List.mem_cons_of_mem _ hz)
      have hQ := hPQ x (List.mem_cons_self ..) y hy
      cases hx : P x with
      | true =>
          rw [List.filter_cons_of_pos hx, List.filter_cons_of_pos (hQ.trans hx)]
          exact mapM_cons_eq_ok.mpr ⟨y, _, hy, ih, rfl⟩
      | false =>
          rw [List.filter_cons_of_neg (by simp [hx]), List.filter_cons_of_neg (by simp [hQ, hx])]
          exact ih

/-- What holds of any two elements of a list in their order, results hold of in theirs. -/
theorem pairwise_mapM {f : α → Except ε β} {R : α → α → Prop} {S : β → β → Prop} {xs : List α}
    {ys : List β} (h : xs.mapM f = .ok ys) (hR : xs.Pairwise R)
    (hS : ∀ x ∈ xs, ∀ x' ∈ xs, ∀ y y', f x = .ok y → f x' = .ok y' → R x x' → S y y') :
    ys.Pairwise S := by
  induction xs generalizing ys with
  | nil =>
      rw [List.mapM_nil, pure_eq_ok] at h
      exact h ▸ .nil
  | cons x xs ih =>
      obtain ⟨y, rest, hy, hrest, rfl⟩ := mapM_cons_eq_ok.mp h
      obtain ⟨hfirst, hR⟩ := List.pairwise_cons.mp hR
      refine List.pairwise_cons.mpr ⟨fun y' hy' => ?_, ih hrest hR ?_⟩
      · obtain ⟨x', hx', hok⟩ := (mem_mapM hrest).mp hy'
        exact hS x (List.mem_cons_self ..) x' (List.mem_cons_of_mem _ hx') y y' hy hok
          (hfirst x' hx')
      · intro z hz z' hz'
        exact hS z (List.mem_cons_of_mem _ hz) z' (List.mem_cons_of_mem _ hz')

end Fallible
end JourneyPlanner
