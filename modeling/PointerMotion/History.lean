/-
A bounded history of movements in a ring of slots: `head` is the slot of the
newest movement and `count` the number of slots in use.
-/
import PointerMotion.Movement

namespace PointerMotion

namespace Ring

/-- The slot that lies `age` slots before the head of a ring. -/
def slot (size head age : Nat) : Nat :=
  (head + size - age) % size

theorem slot_lt {size : Nat} (h : 0 < size) (head age : Nat) :
    slot size head age < size :=
  Nat.mod_lt _ h

theorem slot_zero {size head : Nat} (h : head < size) :
    slot size head 0 = head := by
  rw [slot, Nat.sub_zero, Nat.add_mod_right]
  exact Nat.mod_eq_of_lt h

/-- An earlier slot is not the head before a whole turn. -/
theorem slot_ne_head {size head age : Nat} (hhead : head < size)
    (hpos : 0 < age) (hage : age < size) : slot size head age ≠ head := by
  rw [slot]
  by_cases hover : age ≤ head
  · have he : head + size - age = (head - age) + size := by omega
    rw [he, Nat.add_mod_right, Nat.mod_eq_of_lt (by omega)]
    omega
  · rw [Nat.mod_eq_of_lt (by omega)]
    omega

/-- When the head moves on, what was there is one slot further back. -/
theorem slot_next_succ {size head age : Nat} (hhead : head < size)
    (hage : age + 1 < size) :
    slot size ((head + 1) % size) (age + 1) = slot size head age := by
  rw [slot, slot]
  by_cases hwrap : head + 1 = size
  · rw [hwrap, Nat.mod_self]
    have he : head + size - age = (0 + size - (age + 1)) + size := by omega
    rw [he, Nat.add_mod_right]
  · rw [Nat.mod_eq_of_lt (by omega : head + 1 < size)]
    congr 1
    omega

end Ring

/-- A ring of movements with at least one slot. -/
structure History (α : Type) where
  slots : Array (Option (Movement α))
  head : Nat
  count : Nat
  head_lt : head < slots.size
  count_le : count ≤ slots.size
  /-- the slots in use hold movements -/
  filled : ∀ age, age < count →
    slots[Ring.slot slots.size head age]?.join.isSome = true

structure CapacityError where
  capacity : Int
  deriving Repr, DecidableEq

def CapacityError.message (e : CapacityError) : String :=
  "History capacity must be positive, got " ++ Decimal.intText e.capacity

namespace History

variable {α : Type}

def capacity (h : History α) : Nat :=
  h.slots.size

theorem capacity_pos (h : History α) : 0 < h.capacity :=
  Nat.lt_of_le_of_lt (Nat.zero_le _) h.head_lt

def ofCapacity (capacity : Nat) (h : 0 < capacity) : History α :=
  { slots := Array.replicate capacity none
    head := capacity - 1
    count := 0
    head_lt := by rw [Array.size_replicate]; exact Nat.sub_lt h Nat.one_pos
    count_le := Nat.zero_le _
    filled := fun _ hage => absurd hage (Nat.not_lt_zero _) }

/-- A history of a given capacity, which must be positive. -/
def ofCapacity? (capacity : Int) : Except CapacityError (History α) :=
  if h : 0 < capacity.toNat then .ok (ofCapacity capacity.toNat h)
  else .error ⟨capacity⟩

def clear (h : History α) : History α :=
  ofCapacity h.capacity h.capacity_pos

/-- The slot of the movement that `age` others are newer than. -/
def slot (h : History α) (age : Nat) : Nat :=
  Ring.slot h.capacity h.head age

theorem slot_lt (h : History α) (age : Nat) : h.slot age < h.slots.size :=
  Ring.slot_lt h.capacity_pos h.head age

/-- The movements from newest to oldest; a slot that holds none would be passed
over. -/
def newestFirst (h : History α) : List (Movement α) :=
  (List.range h.count).filterMap fun age =>
    have := h.slot_lt age
    h.slots[h.slot age]

def toList (h : History α) : List (Movement α) :=
  h.newestFirst.reverse

def newest? (h : History α) : Option (Movement α) :=
  if h.count = 0 then none else h.slots[h.head]?.join

def next (h : History α) : Nat :=
  (h.head + 1) % h.capacity

theorem next_lt (h : History α) : h.next < h.slots.size :=
  Nat.mod_lt _ h.capacity_pos

theorem filled_setIfInBounds_next (h : History α) (m : Movement α) (age : Nat)
    (hage : age < min (h.count + 1) h.capacity) :
    (h.slots.setIfInBounds h.next (some m))[
        Ring.slot h.slots.size h.next age]?.join.isSome = true := by
  cases age with
  | zero =>
      rw [Ring.slot_zero h.next_lt, Array.getElem?_setIfInBounds_self,
        if_pos h.next_lt]
      rfl
  | succ age =>
      have hlt : age + 1 < h.slots.size :=
        Nat.lt_of_lt_of_le hage (Nat.min_le_right _ _)
      have hne := Ring.slot_ne_head h.next_lt (Nat.succ_pos age) hlt
      rw [Array.getElem?_setIfInBounds_ne hne.symm, next, capacity,
        Ring.slot_next_succ h.head_lt hlt]
      apply h.filled age
      omega

/-- Stores a movement in the slot after the head. -/
def append (h : History α) (m : Movement α) : History α :=
  { slots := h.slots.setIfInBounds h.next (some m)
    head := h.next
    count := min (h.count + 1) h.capacity
    head_lt := by simpa using h.next_lt
    count_le := by rw [Array.size_setIfInBounds]; exact Nat.min_le_right _ _
    filled := by
      rw [Array.size_setIfInBounds]
      exact h.filled_setIfInBounds_next m }

theorem filled_setIfInBounds_head (h : History α) (m : Movement α) (age : Nat)
    (hage : age < h.count) :
    (h.slots.setIfInBounds h.head (some m))[
        Ring.slot h.slots.size h.head age]?.join.isSome = true := by
  cases age with
  | zero =>
      rw [Ring.slot_zero h.head_lt, Array.getElem?_setIfInBounds_self,
        if_pos h.head_lt]
      rfl
  | succ age =>
      have hlt : age + 1 < h.slots.size := Nat.lt_of_lt_of_le hage h.count_le
      have hne := Ring.slot_ne_head h.head_lt (Nat.succ_pos age) hlt
      rw [Array.getElem?_setIfInBounds_ne hne.symm]
      exact h.filled (age + 1) hage

def replaceNewest (h : History α) (m : Movement α) : History α :=
  if h.count = 0 then h.append m
  else
    { slots := h.slots.setIfInBounds h.head (some m)
      head := h.head
      count := h.count
      head_lt := by simpa using h.head_lt
      count_le := by simpa using h.count_le
      filled := by
        rw [Array.size_setIfInBounds]
        exact h.filled_setIfInBounds_head m }

def removePointers (h : History α) (gone : PointerSet) : History α :=
  { slots := h.slots.map fun slot => slot.map (·.without gone)
    head := h.head
    count := h.count
    head_lt := by simpa using h.head_lt
    count_le := by simpa using h.count_le
    filled := by
      intro age hage
      have hfilled := h.filled age hage
      rw [Array.size_map, Array.getElem?_map]
      cases hslot : h.slots[Ring.slot h.slots.size h.head age]? with
      | none => simp [hslot] at hfilled
      | some slot => simpa [hslot] using hfilled }

end History

end PointerMotion
