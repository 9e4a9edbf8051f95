/-
**Numbers in the order of arrival.**

Items come in any order and any number of times, and each of them is given a number, which it keeps.
The number `0` belongs to one item that is known beforehand, whenever it comes, if it comes at all;
the others are numbered from `1` on in the order in which they come first.

Main definitions:

* `Roster` — the items that have come, without repetition;
* `Roster.add` — an item comes;
* `Roster.item?` — the item with a number.

Main results:

* `Roster.item?_injective` — **an item has one number**;
* `Roster.item?_add` — a number that is given stays;
* `Roster.exists_item?_add_iff`, `Roster.item?_add_of_ne` — what changes when an item comes.
-/

import Mathlib.Data.List.Nodup

set_option relaxedAutoImplicit false
set_option autoImplicit false

variable {α : Type*} {z : α}

/-- **The items in the order in which they came first**, and whether `z` has come. -/
structure Roster {α : Type*} (z : α) where
  order : List α
  firstSeen : Bool
  nodup : order.Nodup
  not_mem : z ∉ order

namespace Roster

/-- Nothing has come. -/
def empty (z : α) : Roster z := ⟨[], false, List.nodup_nil, List.not_mem_nil⟩

/-- The item with a number. -/
def item? (N : Roster z) : ℕ → Option α
  | 0 => if N.firstSeen then some z else none
  | i + 1 => N.order[i]?

/-- Only `z` has the number 0. -/
theorem item?_zero_eq_some {N : Roster z} {a : α} (h : N.item? 0 = some a) : a = z := by
  rw [item?] at h
  split at h
  · exact (Option.some.inj h).symm
  · cases h

theorem mem_of_item?_succ {N : Roster z} {i : ℕ} {a : α} (h : N.item? (i + 1) = some a) :
    a ∈ N.order := List.mem_of_getElem? h

/-- **An item has one number.** -/
theorem item?_injective {N : Roster z} {i j : ℕ} {a : α} (hi : N.item? i = some a)
    (hj : N.item? j = some a) : i = j := by
  cases i with
  | zero =>
      cases j with
      | zero => rfl
      | succ j =>
          obtain rfl := item?_zero_eq_some hi
          exact absurd (mem_of_item?_succ hj) N.not_mem
  | succ i =>
      cases j with
      | zero =>
          obtain rfl := item?_zero_eq_some hj
          exact absurd (mem_of_item?_succ hi) N.not_mem
      | succ j =>
          have hlt : i < N.order.length := (List.getElem?_eq_some_iff.1 hi).1
          exact congrArg Nat.succ ((List.getElem?_inj hlt N.nodup).1 (hi.trans hj.symm))

/-- What has a number. -/
theorem exists_item?_iff (N : Roster z) (a : α) :
    (∃ i, N.item? i = some a) ↔ (N.firstSeen = true ∧ a = z) ∨ a ∈ N.order := by
  constructor
  · rintro ⟨i, hi⟩
    cases i with
    | zero =>
        rw [item?] at hi
        split at hi
        · next hseen => exact .inl ⟨hseen, (Option.some.inj hi).symm⟩
        · cases hi
    | succ i => exact .inr (mem_of_item?_succ hi)
  · rintro (⟨hseen, rfl⟩ | hmem)
    · exact ⟨0, if_pos hseen⟩
    · obtain ⟨i, hi⟩ := List.mem_iff_getElem?.1 hmem
      exact ⟨i + 1, hi⟩

section Add

variable [DecidableEq α]

/-- An item comes. -/
def add (N : Roster z) (a : α) : Roster z :=
  if hz : a = z then { N with firstSeen := true }
  else if hmem : a ∈ N.order then N
  else
    { N with
      order := N.order ++ [a]
      nodup := N.nodup.append (List.nodup_singleton a) (by simpa using hmem)
      not_mem := by simpa [N.not_mem] using fun h => hz h.symm }

theorem add_self (N : Roster z) : N.add z = { N with firstSeen := true } := dif_pos rfl

theorem add_of_mem {N : Roster z} {a : α} (hmem : a ∈ N.order) : N.add a = N := by
  have hz : a ≠ z := fun h => N.not_mem (h ▸ hmem)
  rw [add, dif_neg hz, dif_pos hmem]

theorem order_add_of_not_mem {N : Roster z} {a : α} (hz : a ≠ z) (hmem : a ∉ N.order) :
    (N.add a).order = N.order ++ [a] ∧ (N.add a).firstSeen = N.firstSeen := by
  rw [add, dif_neg hz, dif_neg hmem]
  exact ⟨rfl, rfl⟩

/-- A number that is given stays. -/
theorem item?_add {N : Roster z} {i : ℕ} {a : α} (h : N.item? i = some a) (b : α) :
    (N.add b).item? i = some a := by
  by_cases hz : b = z
  · subst hz
    rw [add_self]
    cases i with
    | zero =>
        obtain rfl := item?_zero_eq_some h
        rfl
    | succ i => exact h
  · by_cases hmem : b ∈ N.order
    · rwa [add_of_mem hmem]
    · obtain ⟨horder, hseen⟩ := order_add_of_not_mem hz hmem
      cases i with
      | zero =>
          rw [item?, hseen]
          exact h
      | succ i =>
          have hlt : i < N.order.length := (List.getElem?_eq_some_iff.1 h).1
          rw [item?, horder, List.getElem?_append_left hlt]
          exact h

theorem exists_item?_add_iff (N : Roster z) (a b : α) :
    (∃ i, (N.add a).item? i = some b) ↔ b = a ∨ ∃ i, N.item? i = some b := by
  rw [exists_item?_iff, exists_item?_iff]
  by_cases hz : a = z
  · subst hz
    rw [add_self]
    constructor
    · rintro (⟨-, rfl⟩ | hmem)
      · exact .inl rfl
      · exact .inr (.inr hmem)
    · rintro (rfl | ⟨-, rfl⟩ | hmem)
      · exact .inl ⟨rfl, rfl⟩
      · exact .inl ⟨rfl, rfl⟩
      · exact .inr hmem
  · by_cases hmem : a ∈ N.order
    · rw [add_of_mem hmem]
      constructor
      · exact .inr
      · rintro (rfl | h)
        · exact .inr hmem
        · exact h
    · obtain ⟨horder, hseen⟩ := order_add_of_not_mem hz hmem
      rw [horder, hseen, List.mem_append, List.mem_singleton]
      tauto

/-- The number of the item that comes is the only one that changes. -/
theorem item?_add_of_ne {N : Roster z} {a : α} {i j : ℕ} (hi : (N.add a).item? i = some a)
    (hj : j ≠ i) : (N.add a).item? j = N.item? j := by
  cases hcase : N.item? j with
  | some b => exact item?_add hcase a
  | none =>
      cases hafter : (N.add a).item? j with
      | none => rfl
      | some b =>
          rcases (exists_item?_add_iff N a b).1 ⟨j, hafter⟩ with rfl | ⟨k, hk⟩
          · exact absurd (item?_injective hafter hi) hj
          · obtain rfl := item?_injective hafter (item?_add hk a)
            rw [hk] at hcase
            cases hcase

/-- The numbers are in a row. -/
theorem le_length_add_iff {N : Roster z} {a : α} {i : ℕ} (hi : (N.add a).item? i = some a)
    (j : ℕ) : j ≤ (N.add a).order.length ↔ j = i ∨ j ≤ N.order.length := by
  have hle : i ≤ (N.add a).order.length := by
    cases i with
    | zero => exact Nat.zero_le _
    | succ i => exact (List.getElem?_eq_some_iff.1 hi).1
  by_cases hz : a = z
  · subst hz
    rw [add_self] at hle ⊢
    dsimp only at hle ⊢
    omega
  · by_cases hmem : a ∈ N.order
    · rw [add_of_mem hmem] at hle ⊢
      omega
    · obtain ⟨horder, -⟩ := order_add_of_not_mem hz hmem
      have hlast : (N.add a).item? (N.order.length + 1) = some a := by
        rw [item?, horder, List.getElem?_concat_length]
      obtain rfl := item?_injective hi hlast
      rw [horder, List.length_append, List.length_singleton]
      omega

/-- At most one number is new. -/
theorem count_add_le (N : Roster z) (a : α) :
    (N.add a).order.length + (N.add a).firstSeen.toNat ≤
      N.order.length + N.firstSeen.toNat + 1 := by
  by_cases hz : a = z
  · subst hz
    rw [add_self]
    simp
  · by_cases hmem : a ∈ N.order
    · rw [add_of_mem hmem]
      exact Nat.le_succ _
    · obtain ⟨horder, hseen⟩ := order_add_of_not_mem hz hmem
      rw [horder, hseen, List.length_append, List.length_singleton]
      omega

theorem firstSeen_add (N : Roster z) (a : α) :
    (N.add a).firstSeen = (N.firstSeen || decide (a = z)) := by
  by_cases hz : a = z
  · subst hz
    rw [add_self]
    simp
  · by_cases hmem : a ∈ N.order
    · rw [add_of_mem hmem]
      simp [hz]
    · rw [(order_add_of_not_mem hz hmem).2]
      simp [hz]

end Add

end Roster
