import JourneyPlanner.Timetable.Builder
import Mathlib.Data.List.Nodup

/-!
Tables of walks. Every walk in a table was given, and for every walk that was
given the table has one between the same stops that takes no longer. What leaves
a stop and what reaches another are the same walks seen from both ends.
-/

namespace JourneyPlanner

namespace Association

variable {κ ν : Type} [DecidableEq κ]

theorem mem_alter {k : κ} {f : Option ν → ν} {m : List (κ × ν)} {e : κ × ν}
    (h : e ∈ alter k f m) : e ∈ m ∨ e = (k, f none) ∨ ∃ v, (k, v) ∈ m ∧ e = (k, f (some v)) := by
  induction m with
  | nil =>
      rw [alter, List.mem_singleton] at h
      exact Or.inr (Or.inl h)
  | cons e' rest ih =>
      rw [alter] at h
      split at h
      case isTrue hk =>
        cases h with
        | head => exact Or.inr (Or.inr ⟨e'.2, hk ▸ List.mem_cons_self .., by rw [hk]⟩)
        | tail _ h => exact Or.inl (List.mem_cons_of_mem _ h)
      case isFalse =>
        cases h with
        | head => exact Or.inl (List.mem_cons_self ..)
        | tail _ h =>
            rcases ih h with h | h | ⟨v, hv, rfl⟩
            · exact Or.inl (List.mem_cons_of_mem _ h)
            · exact Or.inr (Or.inl h)
            · exact Or.inr (Or.inr ⟨v, List.mem_cons_of_mem _ hv, rfl⟩)

theorem exists_mem_alter {p : ν → Prop} {f : Option ν → ν} (hf : ∀ old, p (f old)) (k : κ)
    (m : List (κ × ν)) : ∃ v, p v ∧ (k, v) ∈ alter k f m := by
  induction m with
  | nil => exact ⟨f none, hf none, List.mem_singleton.mpr rfl⟩
  | cons e rest ih =>
      rw [alter]
      split
      case isTrue hk => exact ⟨f (some e.2), hf _, by rw [hk]; exact List.mem_cons_self ..⟩
      case isFalse =>
        obtain ⟨v, hv, hmem⟩ := ih
        exact ⟨v, hv, List.mem_cons_of_mem _ hmem⟩

theorem mem_alter_of_mem {k k' : κ} {f : Option ν → ν} {m : List (κ × ν)} {v : ν}
    (h : (k', v) ∈ m) : (k', v) ∈ alter k f m ∨ (k' = k ∧ (k, f (some v)) ∈ alter k f m) := by
  induction m with
  | nil => simp at h
  | cons e rest ih =>
      rw [alter]
      cases h with
      | head =>
          split
          case isTrue hk =>
            simp only at hk
            subst hk
            exact Or.inr ⟨rfl, List.mem_cons_self ..⟩
          case isFalse => exact Or.inl (List.mem_cons_self ..)
      | tail _ h =>
          split
          case isTrue => exact Or.inl (List.mem_cons_of_mem _ h)
          case isFalse =>
            exact (ih h).imp (List.mem_cons_of_mem _) fun h => ⟨h.1, List.mem_cons_of_mem _ h.2⟩

theorem keys_alter (k : κ) (f : Option ν → ν) (m : List (κ × ν)) :
    (alter k f m).map Prod.fst
      = if k ∈ m.map Prod.fst then m.map Prod.fst else m.map Prod.fst ++ [k] := by
  induction m with
  | nil => rfl
  | cons e rest ih =>
      rw [alter]
      by_cases hk : e.1 = k
      · simp [hk]
      · rw [if_neg hk, List.map_cons, ih]
        by_cases hmem : k ∈ rest.map Prod.fst
        · rw [if_pos hmem, if_pos (by simp [hmem]), List.map_cons]
        · rw [if_neg hmem, if_neg (by simpa [eq_comm (a := k), hk] using hmem), List.map_cons,
            List.cons_append]

theorem nodup_keys_alter {k : κ} {f : Option ν → ν} {m : List (κ × ν)}
    (h : (m.map Prod.fst).Nodup) : ((alter k f m).map Prod.fst).Nodup := by
  rw [keys_alter]
  split
  case isTrue => exact h
  case isFalse hk =>
    refine List.nodup_append.mpr ⟨h, by simp, fun a ha b hb => ?_⟩
    rw [List.mem_singleton.mp hb]
    exact fun heq => hk (heq ▸ ha)

end Association

namespace Walks

/-- Walks of a table are among the given ones, none from a stop to itself. -/
theorem given_of_mem_shortest {walks : List Walk} {table : List ((Nat × Nat) × Time)}
    {e : (Nat × Nat) × Time} (h : e ∈ walks.foldl keepShortest table) :
    e ∈ table ∨ (e.1.1 ≠ e.1.2 ∧ (⟨e.1.1, e.1.2, e.2⟩ : Walk) ∈ walks) := by
  induction walks generalizing table with
  | nil => exact Or.inl h
  | cons w walks ih =>
      rcases ih h with h | ⟨hne, h⟩
      · unfold keepShortest at h
        split at h
        case isTrue => exact Or.inl h
        case isFalse hne =>
          rcases Association.mem_alter h with h | rfl | ⟨d, hd, rfl⟩
          · exact Or.inl h
          · exact Or.inr ⟨hne, List.mem_cons_self ..⟩
          · cases Int.le_total d w.duration with
            | inl hle =>
                simp only [Int.min_eq_left hle]
                exact Or.inl hd
            | inr hle =>
                simp only [Int.min_eq_right hle]
                exact Or.inr ⟨hne, List.mem_cons_self ..⟩
      · exact Or.inr ⟨hne, List.mem_cons_of_mem _ h⟩

/-- A walk between two stops in no more than the given time. -/
def Covers (table : List ((Nat × Nat) × Time)) (source target : Nat) (duration : Time) : Prop :=
  ∃ d ≤ duration, ((source, target), d) ∈ table

theorem covers_keepShortest {table : List ((Nat × Nat) × Time)} {w : Walk} {source target : Nat}
    {duration : Time} (h : Covers table source target duration) :
    Covers (keepShortest table w) source target duration := by
  obtain ⟨d, hd, hmem⟩ := h
  unfold keepShortest
  split
  case isTrue => exact ⟨d, hd, hmem⟩
  case isFalse =>
    rcases Association.mem_alter_of_mem hmem with h | ⟨hkey, h⟩
    · exact ⟨d, hd, h⟩
    · rw [← hkey] at h ⊢
      exact ⟨_, Int.le_trans (Int.min_le_left d w.duration) hd, h⟩

theorem covers_of_given {walks : List Walk} {table : List ((Nat × Nat) × Time)} {w : Walk}
    (hw : w ∈ walks) (hne : w.source ≠ w.target) :
    Covers (walks.foldl keepShortest table) w.source w.target w.duration := by
  have hkeep : ∀ {rest : List Walk} {table : List ((Nat × Nat) × Time)},
      Covers table w.source w.target w.duration →
        Covers (rest.foldl keepShortest table) w.source w.target w.duration := by
    intro rest table h
    exact List.foldlRecOn rest _ (motive := fun table => Covers table w.source w.target w.duration)
      h fun _ h _ _ => covers_keepShortest h
  induction walks generalizing table with
  | nil => simp at hw
  | cons v walks ih =>
      cases hw with
      | head =>
          rw [List.foldl_cons]
          refine hkeep ?_
          unfold keepShortest
          rw [if_neg hne]
          refine Association.exists_mem_alter (p := (· ≤ w.duration)) (fun old => ?_) ..
          cases old with
          | none => exact Int.le_refl _
          | some d => exact Int.min_le_right d w.duration
      | tail _ hw => exact ih hw

/-- A table has at most one walk from a stop to another one. -/
theorem nodup_keys_shortest (walks : List Walk) : ((shortest walks).map Prod.fst).Nodup := by
  have hempty : (([] : List ((Nat × Nat) × Time)).map Prod.fst).Nodup := .nil
  refine List.foldlRecOn walks _ (motive := fun table => (List.map Prod.fst table).Nodup) hempty ?_
  intro table h w _
  unfold keepShortest
  split
  case isTrue => exact h
  case isFalse => exact Association.nodup_keys_alter h

/-- Of the walks from a stop to another one the table has the shortest. -/
theorem mem_shortest {walks : List Walk} {source target : Nat} {duration : Time} :
    ((source, target), duration) ∈ shortest walks ↔ source ≠ target
      ∧ ⟨source, target, duration⟩ ∈ walks
      ∧ ∀ w ∈ walks, w.source = source → w.target = target → duration ≤ w.duration := by
  constructor
  · intro h
    obtain ⟨hne, hgiven⟩ := (given_of_mem_shortest h).resolve_left List.not_mem_nil
    refine ⟨hne, hgiven, ?_⟩
    rintro w hw rfl rfl
    obtain ⟨d, hd, hmem⟩ : Covers (shortest walks) w.source w.target w.duration :=
      covers_of_given hw hne
    have hsame := List.inj_on_of_nodup_map (nodup_keys_shortest walks) h hmem rfl
    exact (Prod.mk.inj hsame).2 ▸ hd
  · rintro ⟨hne, hgiven, hleast⟩
    obtain ⟨d, hd, hmem⟩ : Covers (shortest walks) source target duration :=
      covers_of_given hgiven hne
    obtain ⟨-, hgiven'⟩ := (given_of_mem_shortest hmem).resolve_left List.not_mem_nil
    obtain rfl : d = duration := Int.le_antisymm hd (hleast _ hgiven' rfl rfl)
    exact hmem

/-- What leaves a stop according to a table. -/
theorem mem_outgoing {table : List ((Nat × Nat) × Time)} {numStops stop : Nat} {w : Transfer} :
    w ∈ (outgoing table numStops).row stop ↔
      stop < numStops ∧ ((stop, w.target), w.duration) ∈ table := by
  rw [outgoing, Rows.row_ofLists, List.getElem?_map]
  by_cases hlt : stop < numStops
  · simp only [List.getElem?_range hlt, Option.map_some, Option.getD_some, Ordered.mem_sort,
      List.mem_map, List.mem_filter, beq_iff_eq, hlt, true_and]
    constructor
    · rintro ⟨⟨⟨a, b⟩, d⟩, ⟨hmem, rfl⟩, rfl⟩
      exact hmem
    · intro hmem
      exact ⟨_, ⟨hmem, rfl⟩, rfl⟩
  · simp [hlt]

/-- What reaches a stop according to a table. -/
theorem mem_incoming {table : List ((Nat × Nat) × Time)} {numStops stop : Nat} {w : Transfer} :
    w ∈ (incoming table numStops).row stop ↔
      stop < numStops ∧ ((w.target, stop), w.duration) ∈ table := by
  rw [incoming, Rows.row_ofLists, List.getElem?_map]
  by_cases hlt : stop < numStops
  · simp only [List.getElem?_range hlt, Option.map_some, Option.getD_some, Ordered.mem_sort,
      List.mem_map, List.mem_filter, beq_iff_eq, hlt, true_and]
    constructor
    · rintro ⟨⟨⟨a, b⟩, d⟩, ⟨hmem, rfl⟩, rfl⟩
      exact hmem
    · intro hmem
      exact ⟨_, ⟨hmem, rfl⟩, rfl⟩
  · simp [hlt]

end Walks
end JourneyPlanner
