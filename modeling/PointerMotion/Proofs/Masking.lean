/-
Strategies that are alike but for the positions of some pointers.  Once these
are removed nothing is left to differ.
-/
import PointerMotion.Proofs.Correspondence

namespace PointerMotion

variable {α : Type}

namespace Movement

/-- Movements that are alike but for the positions of the masked pointers. -/
structure AlikeOff (masked : PointerSet) (m n : Movement α) : Prop where
  time : m.time = n.time
  ids : m.ids = n.ids
  position? : ∀ id, id ∉ masked → m.position? id = n.position? id

theorem AlikeOff.lowest {masked : PointerSet} {m n : Movement α}
    (h : m.AlikeOff masked n) (count : Nat) :
    (m.lowest count).AlikeOff masked (n.lowest count) where
  time := h.time
  ids := congrArg (PointerSet.lowest count) h.ids
  position? := by
    intro id hid
    rw [position?_lowest, position?_lowest, h.ids, h.position? id hid]

end Movement

namespace Filter

/-- Tables that are alike but for the positions and the motion of the masked
pointers. -/
structure Table.AlikeOff (masked : PointerSet)
    (left right : Table α) : Prop where
  time : ∀ id, (left.motion? id).map Motion.time =
    (right.motion? id).map Motion.time
  motion? : ∀ id, id ∉ masked → left.motion? id = right.motion? id

namespace Table

variable {masked : PointerSet} {left right : Table α}

theorem alike_withKnown_empty :
    (left.withKnown ∅).AlikeOff masked (right.withKnown ∅) := by
  constructor <;> intro id <;> simp [motion?_withKnown]

/-- Tables with some of the masked pointers dropped differ in the others
alone. -/
theorem AlikeOff.drop (h : left.AlikeOff masked right) (gone : PointerSet) :
    (left.withKnown (left.known \ gone)).AlikeOff (masked \ gone)
      (right.withKnown (right.known \ gone)) where
  time := by
    intro id
    rw [motion?_withKnown_sdiff, motion?_withKnown_sdiff]
    split
    · rfl
    · exact h.time id
  motion? := by
    intro id hid
    rw [motion?_withKnown_sdiff, motion?_withKnown_sdiff]
    split
    · rfl
    next hkept =>
      exact h.motion? id fun hmasked =>
        hid (PointerSet.mem_sdiff.mpr ⟨hmasked, hkept⟩)

end Table

end Filter

section Masking

variable [Scalar α] {masked : PointerSet}

/-- What corresponds is the same unless it is that of a masked pointer; the
times are the same. -/
def Correspondence.masking (masked : PointerSet) : Correspondence α where
  delay := 0
  position := fun id p q => id ∉ masked → p = q
  motion := fun id m n => m.time = n.time ∧ (id ∉ masked → m = n)
  time := fun h => h.1.symm.trans (Int.add_zero _).symm
  resting := by
    intro id p q hp time
    refine ⟨(Int.add_zero time).symm, ?_⟩
    intro hid
    rw [hp hid, Int.add_zero]
  placed := by
    intro id m n p q hmotion hp
    refine ⟨hmotion.1, ?_⟩
    intro hid
    rw [hmotion.2 hid, hp hid]
  advance := by
    intro id m n p q hmotion hp order time
    refine ⟨(Int.add_zero time).symm, ?_⟩
    intro hid
    rw [hmotion.2 hid, hp hid, Int.add_zero]

theorem Movement.AlikeOff.matched {m n : Movement α} (h : m.AlikeOff masked n) :
    m.Matched (.masking masked) n where
  time := h.time.symm.trans (Int.add_zero _).symm
  ids := h.ids.symm
  position? := by
    intro id
    cases hm : m.position? id with
    | none =>
        have hn : n.position? id = none := by
          rw [position?_eq_none_iff, ← h.ids]
          exact position?_eq_none_iff.mp hm
        rw [hn]
        exact .none
    | some p =>
        have hid : id ∈ n.ids := h.ids ▸ isSome_position?.mp (by rw [hm]; rfl)
        obtain ⟨q, hq⟩ := Option.isSome_iff_exists.mp (isSome_position?.mpr hid)
        rw [hq]
        refine .some fun hmasked => ?_
        have hsame := h.position? id hmasked
        rw [hm, hq] at hsame
        exact Option.some.inj hsame

namespace Filter

theorem Table.matched_masking_iff {left right : Table α} :
    left.Matched (.masking masked) right ↔ left.AlikeOff masked right := by
  constructor
  · intro h
    constructor <;> intro id <;> have hmotion := h id <;>
      generalize left.motion? id = known?,
        right.motion? id = known?' at hmotion ⊢
    · cases hmotion with
      | none => rfl
      | some hmn => exact congrArg some hmn.1
    · intro hid
      cases hmotion with
      | none => rfl
      | some hmn => exact congrArg some (hmn.2 hid)
  · intro h id
    have htime := h.time id
    have hsame := h.motion? id
    generalize left.motion? id = known?,
      right.motion? id = known?' at htime hsame
    cases known? with
    | none =>
        cases known?' with
        | none => exact .none
        | some n => cases htime
    | some m =>
        cases known?' with
        | none => cases htime
        | some n =>
            exact .some ⟨Option.some.inj htime,
              fun hid => Option.some.inj (hsame hid)⟩

/-- Alike movements are taken or refused together, and leave alike tables. -/
theorem alike_addMovement {left right : Table α}
    (h : left.AlikeOff masked right) (order : Order) {m n : Movement α}
    (hmovement : m.AlikeOff masked n) :
    Outcome.Alike (Table.AlikeOff masked) (addMovement order m left)
      (addMovement order n right) :=
  have halike :=
    alike_addMovement_of_matched (Table.matched_masking_iff.mpr h) order
    hmovement.matched (congrArg fitsWord (Int.add_zero m.time))
  ⟨Table.matched_masking_iff.mp halike.state, halike.error⟩

end Filter

end Masking

namespace History

def times (h : History α) : List Int :=
  h.newestFirst.map Movement.time

/-- Histories that are alike but for the positions of the masked pointers. -/
structure AlikeOff (masked : PointerSet) (left right : History α) : Prop where
  capacity : left.capacity = right.capacity
  times : left.times = right.times
  glimpses : ∀ id, id ∉ masked → left.glimpses id = right.glimpses id

@[simp] theorem times_removePointers (h : History α) (gone : PointerSet) :
    (h.removePointers gone).times = h.times := by
  rw [times, times, newestFirst_removePointers, List.map_map]
  rfl

theorem head?_times (h : History α) :
    h.times.head? = h.newest?.map Movement.time := by
  rw [times, List.head?_map, newest?_eq_head?]

/-- Of removed pointers only the times of the movements are left. -/
theorem glimpses_removePointers_eq_map_times (h : History α) (gone : PointerSet)
    (id : PointerId) :
    (h.removePointers gone).glimpses id =
      if id ∈ gone then h.times.map fun time => ⟨time, none⟩
      else h.glimpses id := by
  rw [glimpses_removePointers, times, List.map_map]
  rfl

theorem AlikeOff.clear {masked : PointerSet} {left right : History α}
    (h : left.AlikeOff masked right) :
    left.clear.AlikeOff masked right.clear where
  capacity := by simpa using h.capacity
  times := by simp [History.times]
  glimpses := fun id _ => by simp

/-- Histories with some of the masked pointers removed differ in the others
alone. -/
theorem AlikeOff.removePointers {masked : PointerSet} {left right : History α}
    (h : left.AlikeOff masked right) (gone : PointerSet) :
    (left.removePointers gone).AlikeOff (masked \ gone)
      (right.removePointers gone) where
  capacity := by simpa using h.capacity
  times := by simpa using h.times
  glimpses := by
    intro id hid
    rw [glimpses_removePointers_eq_map_times,
      glimpses_removePointers_eq_map_times, h.times]
    split
    · rfl
    next hkept =>
      exact h.glimpses id fun hmasked =>
        hid (PointerSet.mem_sdiff.mpr ⟨hmasked, hkept⟩)

/-- The times after one more movement depend on the times before and on its
own. -/
theorem times_record (plan : TrackPlan) (h : History α) (m : Movement α) :
    (Strategy.record plan h m).state.times =
      if plan.mergesEqualTimes ∧ h.times.head? = some m.time then
        m.time :: h.times.tail
      else (m.time :: h.times).take h.capacity := by
  rw [Strategy.state_record, head?_times]
  split
  · rw [times, times, newestFirst_replaceNewest, List.map_cons, List.map_tail]
  · rw [times, times, newestFirst_append, List.map_take, List.map_cons]

theorem AlikeOff.record {masked : PointerSet} {left right : History α}
    (h : left.AlikeOff masked right) (plan : TrackPlan) {m n : Movement α}
    (hmovement : m.AlikeOff masked n) :
    (Strategy.record plan left m).state.AlikeOff masked
      (Strategy.record plan right n).state where
  capacity := by simpa using h.capacity
  times := by rw [times_record, times_record, h.times, h.capacity,
    hmovement.time]
  glimpses := by
    intro id hid
    rw [Strategy.glimpses_record, Strategy.glimpses_record, h.capacity,
      h.glimpses id hid, Movement.glimpse, Movement.glimpse, hmovement.time,
      hmovement.position? id hid]

end History

namespace Strategy

/-- Strategies that are alike but for the positions of the masked pointers. -/
inductive AlikeOff (masked : PointerSet) : Strategy α → Strategy α → Prop where
  | ofTrack {plan : TrackPlan} {left right : History α}
    (h : left.AlikeOff masked right) :
      AlikeOff masked (ofTrack plan left) (ofTrack plan right)
  | filter {order : Filter.Order} {left right : Filter.Table α}
    (h : left.AlikeOff masked right) :
      AlikeOff masked (filter order left) (filter order right)

variable {masked : PointerSet} {left right : Strategy α}

theorem AlikeOff.refl (masked : PointerSet) (s : Strategy α) :
    s.AlikeOff masked s := by
  cases s with
  | ofTrack plan history => exact .ofTrack ⟨rfl, rfl, fun _ _ => rfl⟩
  | filter order table => exact .filter ⟨fun _ => rfl, fun _ _ => rfl⟩

theorem AlikeOff.mono (h : left.AlikeOff masked right) {masked' : PointerSet}
    (hsub : ∀ id, id ∈ masked → id ∈ masked') :
    left.AlikeOff masked' right := by
  cases h with
  | ofTrack h =>
      exact .ofTrack ⟨h.capacity, h.times,
        fun id hid => h.glimpses id fun hm => hid (hsub id hm)⟩
  | filter h =>
      exact .filter ⟨h.time,
        fun id hid => h.motion? id fun hm => hid (hsub id hm)⟩

theorem AlikeOff.sight_eq (h : left.AlikeOff masked right) {id : PointerId}
    (hid : id ∉ masked) :
    left.sight id = right.sight id := by
  cases h with
  | ofTrack h => rw [sight, sight, h.capacity, h.glimpses id hid]
  | filter h => rw [sight, sight, h.motion? id hid]

theorem AlikeOff.clear (h : left.AlikeOff masked right) :
    left.clear.AlikeOff masked right.clear := by
  cases h with
  | ofTrack h => exact .ofTrack h.clear
  | filter h => exact .filter Filter.Table.alike_withKnown_empty

theorem AlikeOff.clear_if (h : left.AlikeOff masked right) (stopped : Bool) :
    (if stopped then left.clear else left).AlikeOff masked
      (if stopped then right.clear else right) := by
  split
  · exact h.clear
  · exact h

/-- With some of the masked pointers removed, strategies differ in the others
alone. -/
theorem AlikeOff.clearPointers (h : left.AlikeOff masked right)
    (gone : PointerSet) :
    (left.clearPointers gone).AlikeOff (masked \ gone)
      (right.clearPointers gone) := by
  cases h with
  | ofTrack h => exact .ofTrack (h.removePointers gone)
  | filter h => exact .filter (h.drop gone)

theorem alike_addMovement [Scalar α] (h : left.AlikeOff masked right)
    {m n : Movement α} (hmovement : m.AlikeOff masked n) :
    Outcome.Alike (AlikeOff masked) (left.addMovement m)
      (right.addMovement n) := by
  cases h with
  | @ofTrack plan left right h =>
      rw [addMovement_ofTrack, addMovement_ofTrack]
      have hrecord :
          Outcome.Alike (History.AlikeOff masked) (record plan left m)
          (record plan right n) := ⟨h.record plan hmovement, by simp⟩
      exact hrecord.map fun _ _ => .ofTrack
  | @filter order left right h =>
      rw [addMovement_filter, addMovement_filter]
      exact (Filter.alike_addMovement h order hmovement).map fun _ _ => .filter

end Strategy

end PointerMotion
