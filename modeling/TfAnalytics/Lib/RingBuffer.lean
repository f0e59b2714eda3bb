import Mathlib.Data.List.Basic

/-!
# RingBuffer buffers

A list of at most `m` slots and the slot that is written next. The slots are appended
one by one and written over in turn once there are `m` of them, so that they hold the
last `m` values.

* `Holds.push` — a value more;
* `Holds.slot` — the slot of each of the last `m` values, counted from the next one to
  be written.
-/

namespace TfAnalytics.Lib

variable {β : Type}

structure RingBuffer (β : Type) where
  slots : List β
  next : Nat

namespace RingBuffer

/-- The value is written to the next slot, which is there already or is appended. -/
def push (m : Nat) (r : RingBuffer β) (x : β) : RingBuffer β where
  slots := if r.slots.length ≤ r.next then r.slots ++ [x] else r.slots.set r.next x
  next := (r.next + 1) % m

/-- The ring after all values of `history`, the first one first. -/
structure Holds (m : Nat) (history : List β) (r : RingBuffer β) : Prop where
  length : r.slots.length = min history.length m
  next : r.next = history.length % m
  value : ∀ j < history.length, history.length ≤ j + m → r.slots[j % m]? = history[j]?

theorem holds_empty (m : Nat) : Holds m [] (⟨[], 0⟩ : RingBuffer β) where
  length := by simp
  next := by simp
  value _ hj := absurd hj (Nat.not_lt_zero _)

/-- Two of `m` consecutive positions are not in one slot. -/
theorem mod_ne_of_lt {m n j : Nat} (hlt : j < n) (hnear : n < j + m) : j % m ≠ n % m := by
  intro h
  have hdvd : m ∣ n - j := Nat.dvd_of_mod_eq_zero (Nat.sub_mod_eq_zero_of_mod_eq h.symm)
  have hle := Nat.le_of_dvd (by omega) hdvd
  omega

theorem Holds.push {m : Nat} {history : List β} {r : RingBuffer β} (h : Holds m history r) (hm : 0 < m)
    (x : β) : Holds m (history ++ [x]) (r.push m x) := by
  have hlen := h.length
  have hnext := h.next
  have hold : ∀ j < history.length, history.length + 1 ≤ j + m → j % m ≠ r.next := by
    intro j hj hnear
    rw [hnext]
    exact mod_ne_of_lt hj hnear
  by_cases hfull : r.slots.length ≤ r.next
  · -- the ring is not full yet, and the next slot is the one behind its last
    have hmod : history.length % m < m := Nat.mod_lt _ hm
    have hshort : history.length < m := by omega
    have hsame : history.length % m = history.length := Nat.mod_eq_of_lt hshort
    have hslots : (r.push m x).slots = r.slots ++ [x] := if_pos hfull
    constructor
    · rw [hslots, List.length_append, List.length_append, List.length_singleton]
      omega
    · show (r.next + 1) % m = (history ++ [x]).length % m
      rw [hnext, hsame, List.length_append, List.length_singleton]
    · intro j hj hnear
      rw [List.length_append, List.length_singleton] at hj hnear
      rw [hslots, Nat.mod_eq_of_lt (by omega : j < m)]
      rcases Nat.lt_or_eq_of_le (Nat.le_of_lt_succ hj) with hlt | rfl
      · rw [List.getElem?_append_left (by omega), List.getElem?_append_left hlt]
        have hvalue := h.value j hlt (by omega)
        rwa [Nat.mod_eq_of_lt (by omega : j < m)] at hvalue
      · rw [List.getElem?_append_right (by omega), List.getElem?_append_right (Nat.le_refl _)]
        have hzero : history.length - r.slots.length = 0 := by omega
        rw [hzero, Nat.sub_self]
  · have hmod : history.length % m < m := Nat.mod_lt _ hm
    have hslots : (r.push m x).slots = r.slots.set r.next x := if_neg hfull
    have hlong : m ≤ history.length := by
      by_contra hshort
      rw [Nat.mod_eq_of_lt (by omega : history.length < m)] at hnext
      omega
    constructor
    · rw [hslots, List.length_set, List.length_append, List.length_singleton]
      omega
    · show (r.next + 1) % m = (history ++ [x]).length % m
      rw [hnext, List.length_append, List.length_singleton, Nat.mod_add_mod]
    · intro j hj hnear
      rw [List.length_append, List.length_singleton] at hj hnear
      rw [hslots]
      rcases Nat.lt_or_eq_of_le (Nat.le_of_lt_succ hj) with hlt | rfl
      · rw [List.getElem?_set_ne (hold j hlt hnear).symm, List.getElem?_append_left hlt]
        exact h.value j hlt (by omega)
      · rw [← hnext, List.getElem?_set_self (by omega), List.getElem?_append_right (Nat.le_refl _),
          Nat.sub_self]
        rfl

/-- In a full ring the next slot has the oldest value, the one behind it the second
oldest, and so on around the ring. -/
theorem Holds.slot {m : Nat} {history : List β} {r : RingBuffer β} (h : Holds m history r)
    (hfull : m ≤ history.length) {k : Nat} (hk : k < m) :
    r.slots[(r.next + k) % m]? = history[history.length - m + k]? := by
  rw [← h.value (history.length - m + k) (by omega) (by omega), h.next, Nat.mod_add_mod]
  have hsum : history.length + k = history.length - m + k + m := by omega
  rw [hsum, Nat.add_mod_right]

end RingBuffer

end TfAnalytics.Lib
