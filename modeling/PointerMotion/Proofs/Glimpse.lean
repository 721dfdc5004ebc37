/-
What a history shows of one pointer: glimpses, newest first, each a time and
the position, if any.  Every operation acts on them by a rule that mentions no
other pointer.
-/
import PointerMotion.Strategy
import PointerMotion.History.Lemmas

namespace PointerMotion

variable {α : Type}

/-- What a movement shows of one pointer. -/
structure Glimpse (α : Type) where
  time : Int
  position? : Option (Position α)
  deriving DecidableEq

namespace Movement

def glimpse (m : Movement α) (id : PointerId) : Glimpse α :=
  ⟨m.time, m.position? id⟩

@[simp] theorem glimpse_time (m : Movement α) (id : PointerId) :
    (m.glimpse id).time = m.time :=
  rfl

theorem position?_eq_getElem? {m : Movement α} {id : PointerId}
    (h : id ∈ m.ids) :
    m.position? id = m.positions[m.ids.rank id]? := by
  have hlt : m.ids.rank id < m.positions.length :=
    m.sized ▸ PointerSet.rank_lt_card h
  rw [position?, dif_pos h, List.getElem?_eq_getElem hlt]
  rfl

@[simp] theorem position?_eq_none_iff {m : Movement α} {id : PointerId} :
    m.position? id = none ↔ id ∉ m.ids := by
  simp [position?]

@[simp] theorem isSome_position? {m : Movement α} {id : PointerId} :
    (m.position? id).isSome ↔ id ∈ m.ids := by
  rw [Option.isSome_iff_ne_none, ne_eq, position?_eq_none_iff,
    Decidable.not_not]

/-- The pointers of a movement with their positions, from the smallest id up. -/
def samples (m : Movement α) : List (PointerId × Position α) :=
  m.ids.toList.zip m.positions

theorem map_fst_samples (m : Movement α) :
    m.samples.map Prod.fst = m.ids.toList := by
  have hlength : m.ids.toList.length = m.positions.length := by
    rw [m.sized, PointerSet.card_eq_length_toList]
  exact List.map_fst_zip (Nat.le_of_eq hlength)

theorem nodup_map_fst_samples (m : Movement α) :
    (m.samples.map Prod.fst).Nodup := by
  rw [map_fst_samples]
  exact m.ids.nodup_toList

/-- A position is packed at the rank of its pointer. -/
theorem mem_samples {m : Movement α} {id : PointerId} {p : Position α} :
    (id, p) ∈ m.samples ↔ m.position? id = some p := by
  constructor
  · intro hmem
    obtain ⟨i, hi⟩ := List.mem_iff_getElem?.mp hmem
    obtain ⟨hid, hp⟩ := List.getElem?_zip_eq_some.mp hi
    have hmember : id ∈ m.ids :=
      PointerSet.mem_toList.mp (List.mem_of_getElem? hid)
    have hrank : i = m.ids.rank id := by
      have hlt : i < m.ids.toList.length := (List.getElem?_eq_some_iff.mp hid).1
      apply (List.getElem?_inj hlt m.ids.nodup_toList).mp
      rw [hid, PointerSet.getElem?_toList_rank hmember]
    rw [position?_eq_getElem? hmember, ← hrank, hp]
  · intro hp
    have hmember : id ∈ m.ids := isSome_position?.mp (by rw [hp]; rfl)
    rw [position?_eq_getElem? hmember] at hp
    apply List.mem_of_getElem? (i := m.ids.rank id)
    exact List.getElem?_zip_eq_some.mpr
      ⟨PointerSet.getElem?_toList_rank hmember, hp⟩

/-- Removing pointers leaves the positions of the others in place. -/
theorem position?_without (m : Movement α) (gone : PointerSet)
    (id : PointerId) :
    (m.without gone).position? id = if id ∈
      gone then none else m.position? id := by
  have hids : (m.without gone).ids = m.ids \ gone := rfl
  by_cases hgone : id ∈ gone
  · rw [if_pos hgone, position?_eq_none_iff, hids]
    simp [hgone]
  · by_cases hmember : id ∈ m.ids
    · have hleft : id ∈ m.ids \ gone :=
        PointerSet.mem_sdiff.mpr ⟨hmember, hgone⟩
      rw [if_neg hgone, position?_eq_getElem? (hids ▸ hleft), hids]
      obtain ⟨hlt, hget⟩ :=
        List.getElem?_eq_some_iff.mp (PointerSet.getElem?_toList_rank hleft)
      have hpositions : (m.without gone).positions =
          (m.ids \ gone).toList.attach.map fun id =>
            m.position id.val
            (PointerSet.mem_sdiff.mp
            (PointerSet.mem_toList.mp id.property)).1 := rfl
      rw [hpositions, List.getElem?_map, List.getElem?_attach]
      simp [position?, hmember, hlt, hget]
    · have hnone : id ∉ (m.without gone).ids := by
        rw [hids]
        simp [hmember]
      rw [if_neg hgone, position?_eq_none_iff.mpr hnone,
        position?_eq_none_iff.mpr hmember]

theorem glimpse_without (m : Movement α) (gone : PointerSet) (id : PointerId) :
    (m.without gone).glimpse id =
      ⟨m.time, if id ∈ gone then none else m.position? id⟩ := by
  rw [glimpse, position?_without]
  rfl

end Movement

/-- The latest glimpses with a position, up to the first one without. -/
def streak : List (Glimpse α) → List (TrackPoint α)
  | [] => []
  | ⟨time, some p⟩ :: rest => ⟨time, p⟩ :: streak rest
  | ⟨_, none⟩ :: _ => []

@[simp] theorem streak_cons_some (time : Int) (p : Position α)
    (rest : List (Glimpse α)) :
    streak (⟨time, some p⟩ :: rest) = ⟨time, p⟩ :: streak rest :=
  rfl

@[simp] theorem streak_cons_none (time : Int) (rest : List (Glimpse α)) :
    streak (⟨time, none⟩ :: rest) = [] :=
  rfl

/-- Cutting the glimpses cuts their streak. -/
theorem streak_take (count : Nat) (glimpses : List (Glimpse α)) :
    streak (glimpses.take count) = (streak glimpses).take count := by
  induction glimpses generalizing count with
  | nil => simp [streak]
  | cons g rest ih =>
      obtain ⟨time, _ | p⟩ := g <;> cases count <;> simp [streak, ih]

/-- The points of a streak are those of its glimpses. -/
theorem mem_of_mem_streak {glimpses : List (Glimpse α)} {p : TrackPoint α}
    (h : p ∈ streak glimpses) : ⟨p.time, some p.position⟩ ∈ glimpses := by
  induction glimpses with
  | nil => cases h
  | cons g rest ih =>
      obtain ⟨time, _ | q⟩ := g
      · cases h
      · rcases List.mem_cons.mp h with rfl | hrest
        · exact List.mem_cons_self
        · exact List.mem_cons_of_mem _ (ih hrest)

namespace TrackLimits

/-- The part of a streak behind the time `later` that belongs to one track. -/
def cutBehind (limits : TrackLimits) (newest later : Int) :
    List (TrackPoint α) → List (TrackPoint α)
  | [] => []
  | p :: rest =>
      if newest - p.time ≤ limits.horizon && limits.follows later p.time then
        p :: cutBehind limits newest p.time rest
      else []

/-- The part of a streak that belongs to one track. -/
def cut (limits : TrackLimits) : List (TrackPoint α) → List (TrackPoint α)
  | [] => []
  | p :: rest =>
      if 0 ≤ limits.horizon then p :: limits.cutBehind p.time p.time rest
      else []

end TrackLimits

namespace History

/-- What the movements of a history show of a pointer, newest first. -/
def glimpses (h : History α) (id : PointerId) : List (Glimpse α) :=
  h.newestFirst.map (·.glimpse id)

theorem trackBehind_eq_cutBehind (id : PointerId) (limits : TrackLimits)
    (newest later : Int) (movements : List (Movement α)) :
    trackBehind id limits newest later movements =
      limits.cutBehind newest later
        (streak (movements.map (·.glimpse id))) := by
  induction movements generalizing later with
  | nil => rfl
  | cons m rest ih =>
      rw [trackBehind, List.map_cons, Movement.glimpse]
      cases m.position? id with
      | none => rfl
      | some p => simp only [streak_cons_some, TrackLimits.cutBehind, ih]

/-- A pointer's track is cut from its latest streak. -/
theorem track_eq_cut_streak (h : History α) (id : PointerId)
    (limits : TrackLimits) :
    h.track id limits = limits.cut (streak (h.glimpses id)) := by
  rw [track, glimpses]
  cases h.newestFirst with
  | nil => rfl
  | cons m rest =>
      rw [trackThrough, List.map_cons, Movement.glimpse]
      cases m.position? id with
      | none => rfl
      | some p =>
          simp only [streak_cons_some, TrackLimits.cut,
            trackBehind_eq_cutBehind]

@[simp] theorem glimpses_ofCapacity (capacity : Nat) (h : 0 < capacity)
    (id : PointerId) :
    (ofCapacity capacity h : History α).glimpses id = [] := by
  simp [glimpses]

@[simp] theorem glimpses_clear (h : History α) (id : PointerId) :
    h.clear.glimpses id = [] := by
  simp [glimpses]

theorem glimpses_append (h : History α) (m : Movement α) (id : PointerId) :
    (h.append m).glimpses id = (m.glimpse id :: h.glimpses id).take
      h.capacity := by
  rw [glimpses, newestFirst_append, List.map_take]
  rfl

theorem glimpses_replaceNewest (h : History α) (m : Movement α)
    (id : PointerId) :
    (h.replaceNewest m).glimpses id = m.glimpse id :: (h.glimpses id).tail := by
  rw [glimpses, newestFirst_replaceNewest, List.map_cons, List.map_tail]
  rfl

theorem glimpses_removePointers (h : History α) (gone : PointerSet)
    (id : PointerId) :
    (h.removePointers gone).glimpses id =
      if id ∈ gone then h.newestFirst.map fun m => ⟨m.time, none⟩
      else h.glimpses id := by
  simp only [glimpses, newestFirst_removePointers, List.map_map,
    Function.comp_def, Movement.glimpse_without]
  split <;> rfl

theorem head?_glimpses (h : History α) (id : PointerId) :
    (h.glimpses id).head? = h.newest?.map (·.glimpse id) := by
  rw [glimpses, List.head?_map, newest?_eq_head?]

end History

namespace Strategy

@[simp] theorem error_record (plan : TrackPlan) (h : History α)
    (m : Movement α) :
    (record plan h m).error = none := by
  rw [record]
  split
  · rfl
  · split
    · rfl
    · split <;> rfl

/-- A movement takes the place of the newest one or goes in front of it. -/
theorem state_record (plan : TrackPlan) (h : History α) (m : Movement α) :
    (record plan h m).state =
      if plan.mergesEqualTimes ∧ h.newest?.map Movement.time = some m.time then
        h.replaceNewest m
      else h.append m := by
  rw [record]
  cases h.newest? with
  | none => simp [Outcome.done]
  | some newest =>
      by_cases hmerge : plan.mergesEqualTimes = true ∧ newest.time = m.time
      · simp [hmerge, Outcome.done]
      · have hcond : (plan.mergesEqualTimes && newest.time == m.time) =
            false := by
          simpa using hmerge
        simp only [hcond, Bool.false_eq_true, ↓reduceIte, Option.map_some,
          Option.some.injEq, hmerge]
        split <;> rfl

@[simp] theorem capacity_record (plan : TrackPlan) (h : History α)
    (m : Movement α) :
    (record plan h m).state.capacity = h.capacity := by
  rw [state_record]
  split <;> simp

/-- The glimpses after one more movement, of which `g` is the glimpse. -/
def recordGlimpse (plan : TrackPlan) (capacity : Nat) (g : Glimpse α)
    (glimpses : List (Glimpse α)) : List (Glimpse α) :=
  if plan.mergesEqualTimes ∧ glimpses.head?.map Glimpse.time = some g.time then
    g :: glimpses.tail
  else (g :: glimpses).take capacity

theorem mem_of_mem_recordGlimpse {plan : TrackPlan} {capacity : Nat}
    {g g' : Glimpse α} {glimpses : List (Glimpse α)}
    (h : g' ∈ recordGlimpse plan capacity g glimpses) :
    g' = g ∨ g' ∈ glimpses := by
  rw [recordGlimpse] at h
  split at h
  · exact (List.mem_cons.mp h).imp_right List.mem_of_mem_tail
  · exact List.mem_cons.mp (List.mem_of_mem_take h)

/-- What a pointer sees of a recorded movement depends on nothing but its own
glimpses. -/
theorem glimpses_record (plan : TrackPlan) (h : History α) (m : Movement α)
    (id : PointerId) :
    (record plan h m).state.glimpses id =
      recordGlimpse plan h.capacity (m.glimpse id) (h.glimpses id) := by
  have htime : (h.glimpses id).head?.map Glimpse.time =
      h.newest?.map Movement.time := by
    rw [History.head?_glimpses, Option.map_map]
    rfl
  rw [state_record, recordGlimpse, htime, Movement.glimpse_time]
  split
  · exact h.glimpses_replaceNewest m id
  · exact h.glimpses_append m id

end Strategy

end PointerMotion
