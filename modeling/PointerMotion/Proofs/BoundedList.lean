/-
A history is a bounded list.  The reference keeps the newest movements, oldest
first, and counts those put behind the others since the last clearing: the
count says where the head of the ring is.
-/
import Mathlib.Data.List.DropRight
import PointerMotion.History.Lemmas

namespace PointerMotion

variable {α : Type}

/-- An operation of a history. -/
inductive Edit (α : Type) where
  | append (m : Movement α)
  | replaceNewest (m : Movement α)
  | removePointers (gone : PointerSet)
  | clear

/-- Movements, oldest first, and how many were put behind the others since the
last clear. -/
structure BoundedList (α : Type) where
  movements : List (Movement α)
  appended : Nat

namespace BoundedList

def empty : BoundedList α :=
  ⟨[], 0⟩

/-- Performs an operation; a list never keeps more than the newest `capacity`
movements. -/
def edit (capacity : Nat) (l : BoundedList α) : Edit α → BoundedList α
  | .append m => ⟨(l.movements ++ [m]).rtake capacity, l.appended + 1⟩
  | .replaceNewest m =>
      if l.movements.isEmpty then ⟨[m], l.appended + 1⟩
      else ⟨l.movements.dropLast ++ [m], l.appended⟩
  | .removePointers gone => ⟨l.movements.map (·.without gone), l.appended⟩
  | .clear => empty

def after (capacity : Nat) (l : BoundedList α) (edits : List (Edit α)) :
    BoundedList α :=
  edits.foldl (edit capacity) l

end BoundedList

namespace History

def edit (h : History α) : Edit α → History α
  | .append m => h.append m
  | .replaceNewest m => h.replaceNewest m
  | .removePointers gone => h.removePointers gone
  | .clear => h.clear

def after (h : History α) (edits : List (Edit α)) : History α :=
  edits.foldl edit h

theorem toList_append (h : History α) (m : Movement α) :
    (h.append m).toList = (h.toList ++ [m]).rtake h.capacity := by
  rw [toList, newestFirst_append, List.rtake_eq_reverse_take_reverse, toList,
    List.reverse_append, List.reverse_reverse]
  rfl

theorem toList_replaceNewest (h : History α) (m : Movement α) :
    (h.replaceNewest m).toList = h.toList.dropLast ++ [m] := by
  rw [toList, newestFirst_replaceNewest, List.reverse_cons, toList,
    List.dropLast_reverse]

theorem toList_removePointers (h : History α) (gone : PointerSet) :
    (h.removePointers gone).toList = h.toList.map (·.without gone) := by
  rw [toList, newestFirst_removePointers, ← List.map_reverse, toList]

@[simp] theorem toList_clear (h : History α) : h.clear.toList = [] := by
  simp [toList]

theorem length_toList (h : History α) : h.toList.length = h.count := by
  simp [toList]

theorem newest?_eq_getLast? (h : History α) :
    h.newest? = h.toList.getLast? := by
  rw [newest?_eq_head?, toList, List.getLast?_reverse]

theorem head_append (h : History α) (m : Movement α) :
    ((h.append m).head : Int) = (h.head + 1) % h.capacity := by
  have hhead : (h.append m).head = (h.head + 1) % h.capacity := rfl
  rw [hhead]
  push_cast
  rfl

/-- The newest movement stands at the head. -/
theorem slots_head_of_newest? {h : History α} {m : Movement α}
    (hnewest : h.newest? = some m) :
    h.slots[h.head]? = some (some m) := by
  rw [newest?] at hnewest
  split at hnewest
  · cases hnewest
  · exact Option.join_eq_some_iff.mp hnewest

/-- A slot in use holds the movement of its age. -/
theorem slots_slot (h : History α) {age : Nat} (hage : age < h.count) :
    h.slots[h.slot age]? = some h.newestFirst[age]? := by
  obtain ⟨m, hm⟩ := Option.isSome_iff_exists.mp (h.filled age hage)
  have hslot : h.slots[h.slot age]? = some (some m) :=
    Option.join_eq_some_iff.mp hm
  rw [getElem?_newestFirst, if_pos hage, hslot]
  rfl

/-- Looking one movement further back is looking one slot further back, around
the ring. -/
theorem slot_eq_emod (h : History α) {age : Nat} (hage : age ≤ h.capacity) :
    (h.slot age : Int) = (h.head - age) % h.capacity := by
  rw [slot, Ring.slot, Int.natCast_emod,
    Int.natCast_sub (Nat.le_add_left_of_le hage), Int.natCast_add]
  have hturn : (h.head + h.capacity - age : Int) =
      h.head - age + h.capacity := by omega
  rw [hturn, Int.add_emod_right]

/-- A history of some capacity whose movements are those of a list and whose
head goes along. -/
structure Refines (capacity : Nat) (h : History α)
    (l : BoundedList α) : Prop where
  capacity_eq : h.capacity = capacity
  toList_eq : h.toList = l.movements
  head_eq : (h.head : Int) = (l.appended - 1) % capacity

theorem refines_ofCapacity {capacity : Nat} (hcapacity : 0 < capacity) :
    Refines capacity (ofCapacity capacity hcapacity : History α) .empty where
  capacity_eq := capacity_ofCapacity capacity hcapacity
  toList_eq := by simp [toList, BoundedList.empty]
  head_eq := by
    have hhead : (ofCapacity capacity hcapacity : History α).head =
        capacity - 1 := rfl
    have hlast : (((0 : Nat) : Int) - 1) % capacity = capacity - 1 := by
      rw [← Int.add_emod_right]
      exact Int.emod_eq_of_lt (by omega) (by omega)
    rw [hhead, BoundedList.empty, hlast]
    omega

namespace Refines

variable {capacity : Nat} {h : History α} {l : BoundedList α}

/-- One operation keeps a history and its list together. -/
theorem edit (hl : Refines capacity h l) (e : Edit α) :
    Refines capacity (h.edit e) (l.edit capacity e) := by
  obtain ⟨rfl, htoList, hhead⟩ := hl
  have hnext : ∀ m, ((h.append m).head : Int) = ((l.appended + 1 : Nat) - 1) %
      h.capacity := by
    intro m
    rw [head_append, hhead, Int.emod_add_emod]
    congr 1
    omega
  cases e with
  | append m =>
      refine ⟨capacity_append h m, ?_, hnext m⟩
      rw [History.edit, toList_append, htoList]
      rfl
  | replaceNewest m =>
      have hcapacity := capacity_replaceNewest h m
      have hreplaced := toList_replaceNewest h m
      rw [htoList] at hreplaced
      rw [History.edit, BoundedList.edit]
      by_cases hempty : h.count = 0
      -- where there is no newest movement, the new one goes behind the head
      · have hnil : l.movements = [] := by
          rw [← htoList, ← List.length_eq_zero_iff, length_toList, hempty]
        rw [hnil] at hreplaced ⊢
        refine ⟨hcapacity, hreplaced, ?_⟩
        rw [replaceNewest, if_pos hempty]
        exact hnext m
      · have hcons : l.movements.isEmpty = false := by
          rw [← htoList, List.isEmpty_eq_false_iff, ← List.length_pos_iff,
            length_toList]
          exact Nat.pos_of_ne_zero hempty
        rw [hcons]
        refine ⟨hcapacity, hreplaced, ?_⟩
        rw [replaceNewest, if_neg hempty]
        exact hhead
  | removePointers gone =>
      refine ⟨capacity_removePointers h gone, ?_, hhead⟩
      rw [History.edit, toList_removePointers, htoList]
      rfl
  | clear => exact refines_ofCapacity h.capacity_pos

/-- A run of operations keeps a history and its list together. -/
theorem after (hl : Refines capacity h l) (edits : List (Edit α)) :
    Refines capacity (h.after edits) (l.after capacity edits) := by
  induction edits generalizing h l with
  | nil => exact hl
  | cons e rest ih => exact ih (hl.edit e)

end Refines

/-- After any operations the ring holds the movements of the bounded list.
Every slot in use is read on the way back from the head, which is the slot of
the newest movement and lies as many slots on as movements were put there. -/
theorem toList_after (capacity : Nat) (hcapacity : 0 < capacity)
    (edits : List (Edit α)) :
    let h := (ofCapacity capacity hcapacity).after edits
    let l := BoundedList.empty.after capacity edits
    h.toList = l.movements ∧
      (h.count = l.movements.length ∧ h.count ≤ capacity) ∧
      (h.newest? = l.movements.getLast? ∧
      (h.newest? = none ↔ l.movements = [])) ∧
      (h.newestFirst = l.movements.reverse ∧
        ∀ age < h.count, h.slots[h.slot age]? = some l.movements.reverse[age]? ∧
          (h.slot age : Int) = (h.head - age) % capacity) ∧
      (∀ m, h.newest? = some m → h.slots[h.head]? = some (some m)) ∧
      (h.head : Int) = (l.appended - 1) % capacity := by
  intro h l
  have hl : Refines capacity h l := (refines_ofCapacity hcapacity).after edits
  have hcount : h.count = l.movements.length := by
    rw [← length_toList, hl.toList_eq]
  have hle : h.count ≤ capacity := hl.capacity_eq ▸ h.count_le
  have hnewest : h.newest? = l.movements.getLast? := by
    rw [newest?_eq_getLast?, hl.toList_eq]
  have hreverse : h.newestFirst = l.movements.reverse := by
    rw [← hl.toList_eq, toList, List.reverse_reverse]
  refine ⟨hl.toList_eq, ⟨hcount, hle⟩, ⟨hnewest, ?_⟩, ⟨hreverse, ?_⟩,
    ?_, hl.head_eq⟩
  · rw [hnewest, List.getLast?_eq_none_iff]
  · intro age hage
    constructor
    · rw [← hreverse]
      exact slots_slot h hage
    · rw [slot_eq_emod h (Nat.le_trans (Nat.le_of_lt hage) h.count_le),
        hl.capacity_eq]
  · intro m hm
    exact slots_head_of_newest? hm

/-- Operations that go once around a ring of two slots, start over, and go
around again. -/
def wrappingEdits : List (Edit Nat) :=
  [.append ⟨10, {1}, [⟨0, 0⟩], by decide⟩,
    .append ⟨20, {1}, [⟨1, 2⟩], by decide⟩,
    .append ⟨30, {1}, [⟨3, 4⟩], by decide⟩, .clear,
    .replaceNewest ⟨40, {2}, [⟨5, 6⟩], by decide⟩,
    .append ⟨50, {2}, [⟨7, 8⟩], by decide⟩,
    .append ⟨60, .ofList [1, 2], [⟨9, 9⟩, ⟨8, 8⟩], by decide⟩,
    .removePointers {1}, .replaceNewest ⟨60, {3}, [⟨4, 2⟩], by decide⟩]

theorem toList_after_wrappingEdits :
    ((ofCapacity 2 Nat.two_pos).after wrappingEdits).toList =
        [⟨50, {2}, [⟨7, 8⟩], by decide⟩, ⟨60, {3}, [⟨4, 2⟩], by decide⟩] ∧
      ((ofCapacity 2 Nat.two_pos).after wrappingEdits).head = 0 := by
  obtain ⟨hlist, -, -, -, -, hhead⟩ := toList_after 2 Nat.two_pos wrappingEdits
  have hmovements : (BoundedList.empty.after 2 wrappingEdits).movements =
      [⟨50, {2}, [⟨7, 8⟩], by decide⟩, ⟨60, {3}, [⟨4, 2⟩], by decide⟩] := by
    decide +kernel
  have happended : (BoundedList.empty.after 2 wrappingEdits).appended = 3 := by
    decide +kernel
  rw [happended] at hhead
  exact ⟨hlist.trans hmovements, Int.ofNat_inj.mp hhead⟩

end History

end PointerMotion
