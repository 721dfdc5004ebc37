/-
Positions packed by id.  Ranks change when pointers are removed, what a movement
says of a pointer does not.
-/
import PointerMotion.Proofs.IdList
import PointerMotion.Proofs.Run

namespace PointerMotion

theorem PointerSet.mem_foldl_union {id : PointerId} (sets : List PointerSet)
    (start : PointerSet) :
    id ∈ sets.foldl (· ∪ ·) start ↔ id ∈ start ∨ ∃ set ∈ sets, id ∈ set := by
  induction sets generalizing start with
  | nil => simp
  | cons set rest ih => simp [ih, or_assoc]

namespace Movement

variable {α : Type}

theorem position?_of_mem {m : Movement α} {id : PointerId} (hmem : id ∈ m.ids) :
    m.position? id = some (m.position id hmem) :=
  dif_pos hmem

/-- The positions stand in the order of the members. -/
theorem position?_of_getElem? {m : Movement α} {i : Nat} {id : PointerId}
    (hid : m.ids.toList[i]? = some id) : m.position? id = m.positions[i]? := by
  have hmem : id ∈ m.ids := PointerSet.mem_toList.mp (List.mem_of_getElem? hid)
  rw [position?_eq_getElem? hmem, PointerSet.rank_eq_of_getElem? hid]

/-- A movement is told by its time and the positions of its pointers. -/
theorem eq_of_position? {m n : Movement α} (htime : m.time = n.time)
    (hposition : ∀ id, m.position? id = n.position? id) : m = n := by
  have hids : m.ids = n.ids := by
    apply PointerSet.ext_of_mem
    intro id
    rw [← isSome_position?, ← isSome_position?, hposition]
  have hlength : m.positions.length = n.positions.length := by
    rw [m.sized, n.sized, hids]
  have hpositions : m.positions = n.positions := by
    apply List.ext_getElem?
    intro i
    by_cases hi : i < m.ids.toList.length
    · have hid := List.getElem?_eq_getElem hi
      have hid' : n.ids.toList[i]? = some m.ids.toList[i] := hids ▸ hid
      rw [← position?_of_getElem? hid, ← position?_of_getElem? hid', hposition]
    · rw [← PointerSet.card_eq_length_toList, ← m.sized, Nat.not_lt] at hi
      rw [List.getElem?_eq_none hi, List.getElem?_eq_none (hlength ▸ hi)]
  obtain ⟨time, ids, positions, hsized⟩ := m
  obtain ⟨time', ids', positions', hsized'⟩ := n
  obtain rfl : time = time' := htime
  obtain rfl : ids = ids' := hids
  obtain rfl : positions = positions' := hpositions
  rfl

theorem without_without (m : Movement α) (gone more : PointerSet) :
    (m.without gone).without more = m.without (gone ∪ more) := by
  refine eq_of_position? rfl fun id => ?_
  simp only [position?_without, PointerSet.mem_union]
  by_cases hgone : id ∈ gone <;> by_cases hmore : id ∈ more <;>
    simp [hgone, hmore]

theorem without_comm (m : Movement α) (gone more : PointerSet) :
    (m.without gone).without more = (m.without more).without gone := by
  have hunion : gone ∪ more = more ∪ gone := PointerSet.ext_of_mem fun id => by
    simp [or_comm]
  rw [without_without, without_without, hunion]

/-- Pointers that are not there can be removed without a change. -/
theorem without_of_forall_notMem {m : Movement α} {gone : PointerSet}
    (h : ∀ id ∈ m.ids, id ∉ gone) : m.without gone = m := by
  refine eq_of_position? rfl fun id => ?_
  rw [position?_without]
  split
  next hgone =>
    exact (position?_eq_none_iff.mpr fun hmem => h id hmem hgone).symm
  next => rfl

/-- A pointer that is not removed stays, with its position. -/
theorem exists_position_without {m : Movement α} {gone : PointerSet}
    {id : PointerId} (hmem : id ∈ m.ids) (hgone : id ∉ gone) :
    ∃ hstays : id ∈ (m.without gone).ids,
      (m.without gone).position id hstays = m.position id hmem := by
  have hstays : id ∈ (m.without gone).ids :=
    PointerSet.mem_sdiff.mpr ⟨hmem, hgone⟩
  refine ⟨hstays, Option.some.inj ?_⟩
  rw [← position?_of_mem, ← position?_of_mem, position?_without, if_neg hgone]

/-- The movement without several sets of pointers, which are removed one after
another. -/
def withoutEach (m : Movement α) (removals : List PointerSet) : Movement α :=
  removals.foldl without m

/-- What is removed one after another could be removed at once. -/
theorem withoutEach_eq (m : Movement α) (removals : List PointerSet) :
    m.withoutEach removals = m.without (removals.foldl (· ∪ ·) ∅) := by
  have hfrom : ∀ gone : PointerSet,
      (m.without gone).withoutEach removals =
        m.without (removals.foldl (· ∪ ·) gone) := by
    induction removals with
    | nil => exact fun gone => rfl
    | cons next rest ih =>
        intro gone
        rw [withoutEach, List.foldl_cons, List.foldl_cons, without_without]
        exact ih (gone ∪ next)
  have hnone : m.without ∅ = m := without_of_forall_notMem fun id _ =>
    PointerSet.not_mem_empty id
  rw [← hfrom, hnone]

theorem mem_ids_withoutEach {m : Movement α} {removals : List PointerSet}
    {id : PointerId} :
    id ∈ (m.withoutEach removals).ids ↔ id ∈ m.ids ∧ ∀ gone ∈ removals,
      id ∉ gone := by
  have hids : (m.withoutEach removals).ids =
      m.ids \ removals.foldl (· ∪ ·) ∅ := by
    rw [withoutEach_eq]
    rfl
  rw [hids, PointerSet.mem_sdiff, PointerSet.mem_foldl_union]
  simp

/-- A pointer that is left has the position that it had. -/
theorem position?_withoutEach {m : Movement α} {removals : List PointerSet}
    {id : PointerId} (hmem : id ∈ (m.withoutEach removals).ids) :
    (m.withoutEach removals).position? id = m.position? id := by
  have hkept := (mem_ids_withoutEach.mp hmem).2
  rw [withoutEach_eq, position?_without, if_neg]
  simpa [PointerSet.mem_foldl_union] using hkept

variable [Scalar α]

/-- A pointer has the position that was given in its place. -/
theorem exists_point_of_make? {time : Reading α} {ids : PointerSet}
    {points : List (Point α)} {m : Movement α}
    (hmade : make? time ids points = .ok m) {i : Nat} {id : PointerId}
    (hid : ids.toList[i]? = some id) :
    ∃ (point : Point α) (p : Position α),
      points[i]? = some point ∧ point.toPosition = .ok p ∧
      m.position? id = some p := by
  obtain ⟨-, rfl, hpoints⟩ := make?_eq_ok_iff.mp hmade
  have hread := mapM_eq_ok_iff.mp hpoints
  have hi : i < m.positions.length := by
    rw [m.sized, PointerSet.card_eq_length_toList]
    exact (List.getElem?_eq_some_iff.mp hid).1
  have hi' : i < points.length := hread.length_eq ▸ hi
  refine ⟨points[i], m.positions[i], List.getElem?_eq_getElem hi',
    hread.get hi' hi, ?_⟩
  rw [position?_of_getElem? hid, List.getElem?_eq_getElem hi]

/-- Whatever is removed of a movement, one set of pointers after another, the
positions stay with their pointers.  There are as many as pointers, and each
pointer that is left has the one that was given in its place among all that the
movement was made for.  A further removal takes away just the pointers that it
names, and of two removals neither the order counts nor whether there are
two. -/
theorem positions_stay {time : Reading α} {ids : PointerSet}
    {points : List (Point α)} {m : Movement α}
    (hmade : make? time ids points = .ok m) (removals : List PointerSet) :
    let left := m.withoutEach removals
    left.positions.length = left.ids.card ∧
      (∀ id, id ∈ left.ids ↔ id ∈ ids ∧ ∀ gone ∈ removals, id ∉ gone) ∧
      (∀ (i : Nat) (id : PointerId) (hmem : id ∈ left.ids),
        ids.toList[i]? = some id →
        ∃ point, points[i]? = some point ∧
          point.toPosition = .ok (left.position id hmem)) ∧
      ∀ gone : PointerSet,
        (∀ id, id ∈ (left.without gone).ids ↔ id ∈ left.ids ∧ id ∉ gone) ∧
        (∀ (id : PointerId) (hmem : id ∈ left.ids), id ∉ gone →
          ∃ hstays, (left.without gone).position id hstays =
            left.position id hmem) ∧
        ((∀ id ∈ left.ids, id ∉ gone) → left.without gone = left) ∧
        ∀ more : PointerSet,
          (left.without gone).without more = left.without (gone ∪ more) ∧
          (left.without gone).without more =
            (left.without more).without gone := by
  intro left
  obtain ⟨-, rfl, -⟩ := make?_eq_ok_iff.mp hmade
  refine ⟨left.sized, fun id => mem_ids_withoutEach, ?_,
    fun gone => ⟨?_, ?_, ?_, ?_⟩⟩
  · intro i id hmem hid
    obtain ⟨point, p, hpoint, hread, hp⟩ := exists_point_of_make? hmade hid
    have hleft : left.position? id = m.position? id :=
      position?_withoutEach hmem
    rw [position?_of_mem hmem, hp] at hleft
    rw [Option.some.inj hleft]
    exact ⟨point, hpoint, hread⟩
  · exact fun id => PointerSet.mem_sdiff
  · exact fun id hmem hgone => exists_position_without hmem hgone
  · exact without_of_forall_notMem
  · exact fun more =>
      ⟨left.without_without gone more, left.without_comm gone more⟩

/-- Pointer 9 is the third of four and at last the only one; its position goes
with it. -/
theorem positions_stay_lastLeft :
    let given : List (Position Float) := [⟨2, 0⟩, ⟨5, 0⟩, ⟨9, 1⟩, ⟨30, 0⟩]
    let removals : List PointerSet := [{5}, .ofList [2, 30]]
    ∃ m : Movement Float,
      make? (.whole 70) (.ofList [2, 5, 9, 30]) (given.map Point.ofPosition) =
        .ok m ∧
        (m.withoutEach removals).ids = {9} ∧
        ∃ hmem, (m.withoutEach removals).position 9 hmem = ⟨9, 1⟩ := by
  intro given removals
  let m : Movement Float := ⟨70, .ofList [2, 5, 9, 30], given, by decide⟩
  have hmade : make? (.whole 70) (.ofList [2, 5, 9, 30])
      (given.map Point.ofPosition) = .ok m :=
    make?_delivered m
  obtain ⟨-, -, hgiven, -⟩ := positions_stay hmade removals
  have hids : (m.withoutEach removals).ids = {9} := by decide
  have hmem : 9 ∈ (m.withoutEach removals).ids := by decide
  obtain ⟨point, hpoint, hread⟩ := hgiven 2 9 hmem rfl
  cases hpoint
  exact ⟨m, hmade, hids, hmem, (Except.ok.inj hread).symm⟩

end Movement

end PointerMotion
