/-
What each operation of a history does to its movements, newest first: through
`newestFirst` a ring of slots is a list.
-/
import PointerMotion.History

namespace PointerMotion

namespace History

variable {α : Type}

theorem map_some_filterMap {β γ : Type} {f : β → Option γ} {l : List β}
    (h : ∀ b ∈ l, (f b).isSome = true) :
    (l.filterMap f).map some = l.map f := by
  induction l with
  | nil => rfl
  | cons b rest ih =>
      obtain ⟨c, hc⟩ := Option.isSome_iff_exists.mp (h b List.mem_cons_self)
      rw [List.filterMap_cons_some hc, List.map_cons, List.map_cons, hc,
        ih fun b hb => h b (List.mem_cons_of_mem _ hb)]

/-- No slot in use is passed over. -/
theorem map_some_newestFirst (h : History α) :
    h.newestFirst.map some = (List.range h.count).map fun age =>
      h.slots[h.slot age]?.join := by
  have hread : h.newestFirst =
      (List.range h.count).filterMap fun age => h.slots[h.slot age]?.join := by
    rw [newestFirst]
    congr 1
    funext age
    simp [h.slot_lt age]
  rw [hread, map_some_filterMap]
  intro age hage
  exact h.filled age (List.mem_range.mp hage)

@[simp] theorem length_newestFirst (h : History α) :
    h.newestFirst.length = h.count := by
  simpa using congrArg List.length h.map_some_newestFirst

theorem getElem?_newestFirst (h : History α) (age : Nat) :
    h.newestFirst[age]? = if age < h.count then h.slots[h.slot age]?.join
      else none := by
  by_cases hage : age < h.count
  · have hget := congrArg (fun movements => movements[age]?)
      h.map_some_newestFirst
    simp only [List.getElem?_map, List.getElem?_range hage, Option.map_some,
      Option.map_eq_some_iff] at hget
    obtain ⟨m, hm, hslot⟩ := hget
    rw [if_pos hage, hm, hslot]
  · rw [if_neg hage, List.getElem?_eq_none (by simpa using hage)]

@[simp] theorem capacity_ofCapacity (capacity : Nat) (h : 0 < capacity) :
    (ofCapacity capacity h : History α).capacity = capacity := by
  simp [ofCapacity, History.capacity]

@[simp] theorem newestFirst_ofCapacity (capacity : Nat) (h : 0 < capacity) :
    (ofCapacity capacity h : History α).newestFirst = [] := by
  simp [newestFirst, ofCapacity]

@[simp] theorem newestFirst_clear (h : History α) : h.clear.newestFirst = [] :=
  newestFirst_ofCapacity _ _

@[simp] theorem capacity_clear (h : History α) :
    h.clear.capacity = h.capacity :=
  capacity_ofCapacity _ _

@[simp] theorem capacity_append (h : History α) (m : Movement α) :
    (h.append m).capacity = h.capacity := by
  simp [append, capacity]

@[simp] theorem capacity_replaceNewest (h : History α) (m : Movement α) :
    (h.replaceNewest m).capacity = h.capacity := by
  rw [replaceNewest]
  split
  · exact capacity_append h m
  · simp [capacity]

@[simp] theorem capacity_removePointers (h : History α) (gone : PointerSet) :
    (h.removePointers gone).capacity = h.capacity := by
  simp [removePointers, capacity]

theorem slot_zero (h : History α) : h.slot 0 = h.head :=
  Ring.slot_zero h.head_lt

theorem slot_ne_head (h : History α) {age : Nat} (hpos : 0 < age)
    (hage : age < h.capacity) :
    h.slot age ≠ h.head :=
  Ring.slot_ne_head h.head_lt hpos hage

theorem slot_append_succ (h : History α) (m : Movement α) {age : Nat}
    (hage : age + 1 < h.capacity) :
    (h.append m).slot (age + 1) = h.slot age := by
  rw [slot, capacity_append]
  exact Ring.slot_next_succ h.head_lt hage

@[simp] theorem newestFirst_removePointers (h : History α) (gone : PointerSet) :
    (h.removePointers gone).newestFirst =
      h.newestFirst.map (·.without gone) := by
  have hcount : (h.removePointers gone).count = h.count := rfl
  have hslot : ∀ age, (h.removePointers gone).slot age = h.slot age := by
    intro age
    rw [slot, capacity_removePointers]
    rfl
  apply List.ext_getElem?
  intro age
  rw [List.getElem?_map, getElem?_newestFirst, getElem?_newestFirst,
    hcount, hslot]
  split
  · rw [removePointers, Array.getElem?_map]
    cases h.slots[h.slot age]? <;> rfl
  · rfl

theorem newestFirst_append (h : History α) (m : Movement α) :
    (h.append m).newestFirst = (m :: h.newestFirst).take h.capacity := by
  have hcap := h.capacity_pos
  have hcount : (h.append m).count = min (h.count + 1) h.capacity := rfl
  have hslots : (h.append m).slots = h.slots.setIfInBounds (h.append m).head
      (some m) := rfl
  have hhead : (h.append m).head < h.slots.size := h.next_lt
  apply List.ext_getElem?
  intro age
  rw [getElem?_newestFirst, List.getElem?_take, hcount, hslots]
  by_cases hage : age < h.capacity
  · rw [if_pos hage]
    cases age with
    | zero =>
        rw [slot_zero, if_pos (by omega), List.getElem?_cons_zero,
          Array.getElem?_setIfInBounds_self, if_pos hhead]
        rfl
    | succ age =>
        have hne := (h.append m).slot_ne_head (Nat.succ_pos age)
          (by simpa using hage)
        rw [List.getElem?_cons_succ, getElem?_newestFirst,
          Array.getElem?_setIfInBounds_ne (Ne.symm hne),
          slot_append_succ h m hage]
        by_cases hin : age < h.count
        · rw [if_pos (by omega), if_pos hin]
        · rw [if_neg (by omega), if_neg hin]
  · rw [if_neg hage, if_neg (by omega)]

theorem newest?_eq_head? (h : History α) : h.newest? = h.newestFirst.head? := by
  rw [List.head?_eq_getElem?, getElem?_newestFirst, slot_zero, newest?]
  by_cases hcount : h.count = 0
  · simp [hcount]
  · simp [hcount, Nat.pos_of_ne_zero hcount]

theorem newestFirst_replaceNewest (h : History α) (m : Movement α) :
    (h.replaceNewest m).newestFirst = m :: h.newestFirst.tail := by
  by_cases hcount : h.count = 0
  · have hnil : h.newestFirst = [] :=
      List.eq_nil_of_length_eq_zero (by simp [hcount])
    rw [replaceNewest, if_pos hcount, newestFirst_append, hnil]
    exact List.take_of_length_le h.capacity_pos
  · have hcap : h.count ≤ h.capacity := h.count_le
    have hcount' : (h.replaceNewest m).count = h.count := by
      rw [replaceNewest, if_neg hcount]
    have hslots : (h.replaceNewest m).slots =
        h.slots.setIfInBounds h.head (some m) := by
      rw [replaceNewest, if_neg hcount]
    have hslot : ∀ age, (h.replaceNewest m).slot age = h.slot age := by
      intro age
      simp [slot, capacity, replaceNewest, if_neg hcount]
    apply List.ext_getElem?
    intro age
    rw [getElem?_newestFirst, hcount', hslots, hslot]
    cases age with
    | zero =>
        rw [slot_zero, List.getElem?_cons_zero,
          if_pos (Nat.pos_of_ne_zero hcount), Array.getElem?_setIfInBounds_self,
          if_pos h.head_lt]
        rfl
    | succ age =>
        rw [List.getElem?_cons_succ, List.getElem?_tail, getElem?_newestFirst]
        by_cases hin : age + 1 < h.count
        · have hne := h.slot_ne_head (Nat.succ_pos age) (by omega)
          rw [if_pos hin, if_pos hin,
            Array.getElem?_setIfInBounds_ne (Ne.symm hne)]
        · rw [if_neg hin, if_neg hin]

end History

end PointerMotion
