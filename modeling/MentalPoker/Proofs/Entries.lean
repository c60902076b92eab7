/-
Entries of a list, found by place or by name. Where nothing is repeated, an entry has one place, and a name finds the
one entry that has it. Where one entry is appended or replaced, all others are where they were.
-/
import Mathlib.Data.List.Nodup
import Mathlib.Tactic.Common

namespace MentalPoker

/-- In a list without repetitions an entry has one place. -/
theorem getElem?_eq_some_iff_idxOf {β : Type} [DecidableEq β] {xs : List β} (nodup : xs.Nodup) {i : ℕ} {x : β}
    (member : x ∈ xs) : xs[i]? = some x ↔ i = xs.idxOf x := by
  have place : xs[xs.idxOf x]? = some x := by
    rw [List.getElem?_eq_getElem (List.idxOf_lt_length_of_mem member), List.getElem_idxOf]
  constructor
  · intro found
    obtain ⟨inside, rfl⟩ := List.getElem?_eq_some_iff.1 found
    exact (nodup.idxOf_getElem i inside).symm
  · rintro rfl
    exact place

/-- Where no two entries have the same name, an entry is found by its name. -/
theorem find?_eq_some_iff_of_nodup {α β : Type} [DecidableEq β] {name : α → β} {xs : List α}
    (nodup : (xs.map name).Nodup) {x : α} (member : x ∈ xs) {y : β} : xs.find? (name · = y) = some x ↔ name x = y := by
  constructor
  · intro found
    simpa using List.find?_some found
  · rintro rfl
    cases found : xs.find? (name · = name x) with
    | none => simpa using List.find?_eq_none.1 found x member
    | some z =>
      have same : name z = name x := by simpa using List.find?_some found
      rw [List.inj_on_of_nodup_map nodup (List.mem_of_find?_eq_some found) member same]

/-- Where no two entries have the same name, none of the others has the name of the one between them. -/
theorem name_ne_of_mem_others {α β : Type} {name : α → β} {front back : List α} {x y : α}
    (nodup : ((front ++ x :: back).map name).Nodup) (other : y ∈ front ++ back) : name y ≠ name x := by
  intro same
  rw [List.map_append, List.map_cons, List.nodup_middle, ← List.map_append] at nodup
  exact (List.nodup_cons.1 nodup).1 (same ▸ List.mem_map_of_mem other)

/-- Where an entry has been appended, it has the last place, and every other place has what it had. -/
theorem getElem?_append_singleton_eq_some_iff {α : Type} {xs : List α} {i : ℕ} {x y : α} :
    (xs ++ [x])[i]? = some y ↔ xs[i]? = some y ∨ i = xs.length ∧ y = x := by
  rcases Nat.lt_trichotomy i xs.length with inside | rfl | outside
  · rw [List.getElem?_append_left inside]
    exact ⟨.inl, fun h => h.resolve_right fun last => absurd last.1 (Nat.ne_of_lt inside)⟩
  · simp [eq_comm]
  · simp [List.getElem?_append, Nat.lt_asymm outside, Nat.ne_of_gt outside, Nat.sub_ne_zero_of_lt outside]

/-- Where an entry has been replaced, every entry is the new one or one of the others. -/
theorem mem_replaced {α : Type} {front back : List α} (old : α) {new x : α} (member : x ∈ front ++ new :: back) :
    x = new ∨ x ∈ front ++ back ∧ x ∈ front ++ old :: back := by
  simp only [List.mem_append, List.mem_cons] at member ⊢
  tauto

end MentalPoker
