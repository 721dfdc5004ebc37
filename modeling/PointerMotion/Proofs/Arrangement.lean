/-
Events and the order in which they list their pointers.  Once the samples are
sorted by id, nothing is left of the list's order.
-/
import Mathlib.Data.List.FinRange
import PointerMotion.Event
import PointerMotion.Proofs.IdList

namespace PointerMotion

variable {α β : Type}

theorem Point.pair?_eq_ok_iff {p q : Point α} :
    p.pair? = .ok q ↔ p.length = 2 ∧ p = q := by
  rw [pair?]
  split
  next h => simp [h]
  next h => simp [h]

/-- Points are read as pairs when they hold two coordinates each. -/
theorem Point.mapM_pair?_eq_ok_iff {points read : List (Point α)} :
    points.mapM pair? = .ok read ↔ (∀ p ∈ points, p.length = 2) ∧
      read = points := by
  rw [mapM_eq_ok_iff]
  simp only [pair?_eq_ok_iff]
  constructor
  · intro h
    induction h with
    | nil => simp
    | cons hp _ ih =>
        obtain ⟨hlength, rfl⟩ := hp
        obtain ⟨hrest, rfl⟩ := ih
        exact ⟨List.forall_mem_cons.mpr ⟨hlength, hrest⟩, rfl⟩
  · rintro ⟨hlength, rfl⟩
    exact List.forall₂_same.mpr fun p hp => ⟨hlength p hp, rfl⟩

section Sorting

variable {entries other : List (Int × β)}

theorem pairwise_mergeSort_fst (entries : List (Int × β)) :
    (entries.mergeSort fun a b => a.1 ≤ b.1).Pairwise fun a b => a.1 ≤ b.1 := by
  have hsorted : (entries.mergeSort fun a b => a.1 ≤ b.1).Pairwise
      fun a b => decide (a.1 ≤ b.1) = true :=
    List.pairwise_mergeSort (by simp only [decide_eq_true_eq]; omega)
      (by simp only [Bool.or_eq_true, decide_eq_true_eq]; omega) entries
  simpa only [decide_eq_true_eq] using hsorted

/-- Entries with distinct numbers are sorted alike in whatever order they
come. -/
theorem mergeSort_fst_eq_of_perm (hperm : entries.Perm other)
    (hnodup : (entries.map Prod.fst).Nodup) :
    (entries.mergeSort fun a b => a.1 ≤ b.1) = other.mergeSort fun a b =>
      a.1 ≤ b.1 := by
  have hleft := List.mergeSort_perm entries fun a b => decide (a.1 ≤ b.1)
  have hright := List.mergeSort_perm other fun a b => decide (a.1 ≤ b.1)
  refine List.Perm.eq_of_pairwise ?_ (pairwise_mergeSort_fst entries)
    (pairwise_mergeSort_fst other) (hleft.trans (hperm.trans hright.symm))
  intro a b ha hb hab hba
  have hbmem : b ∈ entries := hperm.mem_iff.mpr (hright.mem_iff.mp hb)
  exact List.inj_on_of_nodup_map hnodup (hleft.mem_iff.mp ha) hbmem
    (Int.le_antisymm hab hba)

/-- Sorted numbers are determined by what they are. -/
theorem map_fst_mergeSort {numbers : List Int}
    (hperm : (entries.map Prod.fst).Perm numbers)
    (hsorted : numbers.Pairwise (· ≤ ·)) :
    (entries.mergeSort fun a b => a.1 ≤ b.1).map Prod.fst = numbers := by
  have hentries := List.mergeSort_perm entries fun a b => decide (a.1 ≤ b.1)
  refine List.Perm.eq_of_pairwise (fun _ _ _ _ => Int.le_antisymm) ?_ hsorted
    ((hentries.map Prod.fst).trans hperm)
  exact List.pairwise_map.mpr (pairwise_mergeSort_fst entries)

end Sorting

namespace MotionEvent

/-- The samples that the event carries, as they were given: the older ones, then
the final one. -/
def carried (e : MotionEvent α) : List (EventSample α) :=
  e.history ++ [e.final]

/-- An event whose parts fit together. -/
structure Fits (e : MotionEvent α) : Prop where
  nodup : e.ids.Nodup
  sized : ∀ s ∈ e.carried, s.points.length = e.ids.length
  index : e.ids ≠ [] → 0 ≤ e.actionIndex ∧ e.actionIndex < e.ids.length

theorem sized_iff {e : MotionEvent α} :
    e.sized = true ↔ ∀ s ∈ e.carried, s.points.length = e.ids.length := by
  simp [sized, carried, or_imp, forall_and, and_comm]

/-- An event passes the check, and is left as it is, when its parts fit
together. -/
theorem check_eq_ok_iff {e checked : MotionEvent α} :
    e.check = .ok checked ↔ e = checked ∧ e.Fits := by
  constructor
  · intro h
    rw [check] at h
    split at h
    · cases h
    next hnodup =>
      split at h
      · cases h
      next hsized =>
        split at h
        · cases h
        next hindex =>
          refine ⟨Except.ok.inj h, not_not.mp hnodup,
            sized_iff.mp (not_not.mp hsized), ?_⟩
          exact fun hne => not_not.mp fun hbad => hindex ⟨hne, hbad⟩
  · rintro ⟨rfl, h⟩
    rw [check, if_neg (not_not.mpr h.nodup),
      if_neg (not_not.mpr (sized_iff.mpr h.sized)), if_neg fun hbad =>
        hbad.2 (h.index hbad.1)]

variable [Scalar α]

/-- An older sample is taken when it has a pair for each pointer and its time
can be read. -/
theorem addHistorical_eq_ok_iff {e extended : MotionEvent α}
    {s : EventSample α} :
    e.addHistorical s = .ok extended ↔
      s.points.length = e.ids.length ∧ (∀ p ∈ s.points, p.length = 2) ∧
        ∃ time, s.time.toInt = .ok time ∧
          extended = { e with history := e.history ++
              [⟨.whole time, s.points⟩] } := by
  constructor
  · intro h
    rw [addHistorical] at h
    split at h
    · cases h
    next hlength =>
      split at h
      · cases h
      next time htime =>
        split at h
        · cases h
        next points hpoints =>
          obtain ⟨hpairs, rfl⟩ := Point.mapM_pair?_eq_ok_iff.mp hpoints
          exact ⟨not_not.mp hlength, hpairs, time, htime,
            (Except.ok.inj h).symm⟩
  · rintro ⟨hlength, hpairs, time, htime, rfl⟩
    have hpoints := Point.mapM_pair?_eq_ok_iff.mpr ⟨hpairs, rfl⟩
    simp only [addHistorical, hlength, ne_eq, not_true_eq_false, ↓reduceIte,
      htime, hpoints]

/-- An event made of parts that fit together, and perhaps given older samples
afterwards. -/
inductive Accepted : MotionEvent α → Prop where
  | made {given e : MotionEvent α} (h : given.check = .ok e) : Accepted e
  | extended {e later : MotionEvent α} {s : EventSample α} (he : Accepted e)
      (h : e.addHistorical s = .ok later) : Accepted later

/-- Older samples that are taken fit to the event. -/
theorem Accepted.fits {e : MotionEvent α} (h : e.Accepted) : e.Fits := by
  induction h with
  | made h =>
      obtain ⟨rfl, hfits⟩ := check_eq_ok_iff.mp h
      exact hfits
  | extended _ h ih =>
      obtain ⟨hlength, -, time, -, rfl⟩ := addHistorical_eq_ok_iff.mp h
      refine ⟨ih.nodup, ?_, ih.index⟩
      intro s hs
      simp only [carried, List.mem_append, List.mem_singleton] at hs
      rcases hs with (hold | rfl) | rfl
      · exact ih.sized s (List.mem_append_left _ hold)
      · exact hlength
      · exact ih.sized _ (List.mem_append_right _ List.mem_cons_self)

section Placement

variable {e : MotionEvent α} {ids : PointerSet} {points : List (Point α)}

omit [Scalar α]

theorem idSet?_eq_ok_iff :
    e.idSet? = .ok ids ↔ PointerSet.ofInts? e.ids = .ok ids := by
  rw [idSet?]
  cases PointerSet.ofInts? e.ids <;> simp [Except.mapError]

/-- The ids of an event in ascending order are the members of its set. -/
theorem perm_map_toList (hnodup : e.ids.Nodup)
    (hids : PointerSet.ofInts? e.ids = .ok ids) :
    e.ids.Perm (ids.toList.map fun id => (id.val : Int)) := by
  obtain ⟨hrange, hmem⟩ := PointerSet.ofInts?_eq_ok_iff.mp hids
  rw [List.perm_ext_iff_of_nodup hnodup
    (ids.nodup_toList.map PointerId.val_injective)]
  intro n
  constructor
  · intro hn
    obtain ⟨id, rfl⟩ := PointerId.exists_val_eq (hrange n hn)
    exact List.mem_map_of_mem (PointerSet.mem_toList.mpr ((hmem id).mpr hn))
  · intro hn
    obtain ⟨id, hid, rfl⟩ := List.mem_map.mp hn
    exact (hmem id).mp (PointerSet.mem_toList.mp hid)

theorem pairwise_map_toList (ids : PointerSet) :
    (ids.toList.map fun id => (id.val : Int)).Pairwise (· ≤ ·) :=
  List.pairwise_map.mpr
    (ids.pairwise_toList.imp fun hlt => Int.ofNat_le.mpr (Fin.le_of_lt hlt))

/-- Whether points stand at the ranks of the pointers that an event lists along
with others. -/
structure Places (e : MotionEvent α) (ids : PointerSet)
    (given points : List (Point α)) : Prop where
  length : points.length = ids.card
  rank : ∀ (i : Nat) (id : PointerId),
    e.ids[i]? = some (id.val : Int) → points[ids.rank id]? = given[i]?

/-- Sorting by id puts each point at the rank of its pointer. -/
theorem places_arrange (hnodup : e.ids.Nodup)
    (hids : PointerSet.ofInts? e.ids = .ok ids)
    (hlength : points.length = e.ids.length) :
    e.Places ids points (e.arrange points) := by
  have hfst : (e.ids.zip points).map Prod.fst = e.ids :=
    List.map_fst_zip hlength.ge
  have hsorted :
      ((e.ids.zip points).mergeSort fun a b => a.1 ≤ b.1).map Prod.fst =
      ids.toList.map fun id => (id.val : Int) :=
    map_fst_mergeSort (hfst.symm ▸ perm_map_toList hnodup hids)
      (pairwise_map_toList ids)
  constructor
  · have hcount := congrArg List.length hsorted
    rw [List.length_map, List.length_map,
      ← PointerSet.card_eq_length_toList] at hcount
    rw [arrange, List.length_map, hcount]
  · intro i id hid
    have hmember : id ∈ ids :=
      ((PointerSet.ofInts?_eq_ok_iff.mp hids).2 id).mpr
        (List.mem_of_getElem? hid)
    have hrank := congrArg (fun numbers => numbers[ids.rank id]?) hsorted
    simp only [List.getElem?_map, PointerSet.getElem?_toList_rank hmember,
      Option.map_some, Option.map_eq_some_iff] at hrank
    obtain ⟨⟨n, p⟩, hentry, rfl⟩ := hrank
    -- the entry at the rank was listed at some place, which is that of the
    -- pointer
    obtain ⟨j, hj⟩ := List.mem_iff_getElem?.mp
      ((List.mergeSort_perm _ _).mem_iff.mp (List.mem_of_getElem? hentry))
    obtain ⟨hjid, hjpoint⟩ := List.getElem?_zip_eq_some.mp hj
    have hplace : j = i := by
      apply (List.getElem?_inj (List.getElem?_eq_some_iff.mp hjid).1 hnodup).mp
      rw [hjid, hid]
    rw [arrange, List.getElem?_map, hentry, ← hplace, hjpoint]
    rfl

/-- Whether the positions of all samples are pairs. -/
def GivesPairs (e : MotionEvent α) : Prop :=
  ∀ s ∈ e.carried, ∀ p ∈ s.points, p.length = 2

instance (e : MotionEvent α) : Decidable e.GivesPairs :=
  inferInstanceAs (Decidable (∀ s ∈ e.carried, ∀ p ∈ s.points, p.length = 2))

theorem mem_of_mem_arrange {p : Point α} (h : p ∈ e.arrange points) :
    p ∈ points := by
  obtain ⟨entry, hentry, rfl⟩ := List.mem_map.mp h
  exact (List.of_mem_zip ((List.mergeSort_perm _ _).mem_iff.mp hentry)).2

theorem mapM_pair?_arrange (h : ∀ p ∈ points, p.length = 2) :
    (e.arrange points).mapM Point.pair? = .ok (e.arrange points) :=
  Point.mapM_pair?_eq_ok_iff.mpr ⟨fun p hp => h p (mem_of_mem_arrange hp), rfl⟩

end Placement

/-- The samples of an event that gives pairs, of which only the final time may
not be read. -/
theorem samples_eq {e : MotionEvent α} (hpairs : e.GivesPairs)
    {ids : PointerSet} (hids : PointerSet.ofInts? e.ids = .ok ids) :
    e.samples = .ok
      ((e.history.map fun s => .ok ⟨s.time, ids, e.arrange s.points⟩) ++
      [e.final.time.toInt.map fun time => ⟨.whole time, ids,
          e.arrange e.final.points⟩]) := by
  have hhistory : e.history.map (e.readyHistorical ids) =
      e.history.map fun s => .ok ⟨s.time, ids, e.arrange s.points⟩ := by
    apply List.map_congr_left
    intro s hs
    rw [readyHistorical,
      mapM_pair?_arrange (hpairs s (List.mem_append_left _ hs))]
    rfl
  have hfinal : e.readyFinal ids =
      e.final.time.toInt.map fun time =>
        ⟨.whole time, ids, e.arrange e.final.points⟩ := by
    have hpoints := hpairs e.final (List.mem_append_right _ List.mem_cons_self)
    rw [readyFinal, mapM_pair?_arrange hpoints]
    cases e.final.time.toInt <;> rfl
  rw [samples, idSet?_eq_ok_iff.mpr hids, ← hhistory, ← hfinal]
  rfl

end MotionEvent

section Reordering

variable {n : Nat} (order : Equiv.Perm (Fin n))

/-- A list in another order: at each place stands the entry of the place that
`order` tells. -/
def reorder (entries : List β) : List β :=
  (List.finRange n).filterMap fun i => entries[(order i).val]?

/-- The place at which the entry of a place stands in the other order. -/
def placeAfter (place : Int) : Int :=
  if h : 0 ≤ place ∧ place < n then (order.symm ⟨place.toNat, by omega⟩).val
  else place

variable {order} {entries : List β}

theorem reorder_eq_map (h : entries.length = n) :
    reorder order entries = (List.finRange n).map fun i =>
      entries.get ((order i).cast h.symm) := by
  subst h
  rw [← List.filterMap_eq_map]
  apply List.filterMap_congr
  intro i _
  exact List.getElem?_eq_getElem (order i).isLt

theorem reorder_perm (h : entries.length = n) :
    (reorder order entries).Perm entries := by
  subst h
  rw [reorder_eq_map rfl]
  have hperm := order.map_finRange_perm.map entries.get
  rw [List.map_map, List.map_get_finRange] at hperm
  exact hperm

theorem length_reorder (h : entries.length = n) :
    (reorder order entries).length = n :=
  (reorder_perm h).length_eq.trans h

theorem getElem?_reorder (h : entries.length = n) (i : Fin n) :
    (reorder order entries)[i.val]? = entries[(order i).val]? := by
  subst h
  have hi : i.val < (List.finRange entries.length).length := by simp
  rw [reorder_eq_map rfl, List.getElem?_map, List.getElem?_eq_getElem hi,
    List.getElem_finRange]
  exact (List.getElem?_eq_getElem (order i).isLt).symm

theorem reorder_zip {γ : Type} {left : List β} {right : List γ}
    (hleft : left.length = n) (hright : right.length = n) :
    reorder order (left.zip right) =
      (reorder order left).zip (reorder order right) := by
  have hzip : (left.zip right).length = n := by
    rw [List.length_zip, hleft, hright, Nat.min_self]
  rw [reorder_eq_map hleft, reorder_eq_map hright, reorder_eq_map hzip,
    List.zip_map']
  apply List.map_congr_left
  intro i _
  simp

end Reordering

def EventSample.reorder {n : Nat} (order : Equiv.Perm (Fin n))
    (s : EventSample α) :
    EventSample α :=
  { s with points := PointerMotion.reorder order s.points }

namespace MotionEvent

section Reordering

variable {e : MotionEvent α}

/-- The event with its pointers listed in another order, and everything moved
along. -/
def reorder (e : MotionEvent α) (order : Equiv.Perm (Fin e.ids.length)) :
    MotionEvent α :=
  { action := e.action
    ids := PointerMotion.reorder order e.ids
    history := e.history.map (EventSample.reorder order)
    final := e.final.reorder order
    actionIndex := placeAfter order e.actionIndex }

theorem carried_reorder (e : MotionEvent α)
    (order : Equiv.Perm (Fin e.ids.length)) :
    (e.reorder order).carried = e.carried.map (EventSample.reorder order) := by
  rw [carried, carried, List.map_append]
  rfl

theorem Fits.reorder (h : e.Fits) (order : Equiv.Perm (Fin e.ids.length)) :
    (e.reorder order).Fits := by
  have hids : (PointerMotion.reorder order e.ids).Perm e.ids := reorder_perm rfl
  refine ⟨hids.nodup_iff.mpr h.nodup, ?_, ?_⟩
  · intro s hs
    rw [carried_reorder] at hs
    obtain ⟨given, hgiven, rfl⟩ := List.mem_map.mp hs
    exact (length_reorder (h.sized given hgiven)).trans
      (length_reorder rfl).symm
  · intro hne
    have hne' : e.ids ≠ [] := fun hnil => hne (List.Perm.eq_nil (hnil ▸ hids))
    have hindex := h.index hne'
    have hplace : (e.reorder order).actionIndex =
        (order.symm ⟨e.actionIndex.toNat, by omega⟩).val := dif_pos hindex
    have hlength : (e.reorder order).ids.length = e.ids.length := hids.length_eq
    rw [hplace, hlength]
    omega

/-- Sorting undoes the other order. -/
theorem arrange_reorder (h : e.Fits) (order : Equiv.Perm (Fin e.ids.length))
    {s : EventSample α} (hs : s ∈ e.carried) :
    (e.reorder order).arrange (s.reorder order).points =
      e.arrange s.points := by
  have hlength := h.sized s hs
  have hfst : (e.ids.zip s.points).map Prod.fst = e.ids :=
    List.map_fst_zip hlength.ge
  have hzip : (e.ids.zip s.points).length = e.ids.length := by
    rw [List.length_zip, hlength, Nat.min_self]
  have hperm : ((e.reorder order).ids.zip (s.reorder order).points).Perm
      (e.ids.zip s.points) := by
    have hreorder : (PointerMotion.reorder order (e.ids.zip s.points)).Perm
        (e.ids.zip s.points) := reorder_perm hzip
    rwa [reorder_zip rfl hlength] at hreorder
  rw [arrange, arrange,
    mergeSort_fst_eq_of_perm hperm.symm (hfst.symm ▸ h.nodup)]

theorem actionPointer?_reorder (h : e.Fits)
    (order : Equiv.Perm (Fin e.ids.length)) :
    (e.reorder order).actionPointer? = e.actionPointer? := by
  have hentry : (e.reorder order).ids[(e.reorder order).actionIndex.toNat]? =
      e.ids[e.actionIndex.toNat]? := by
    by_cases hne : e.ids = []
    · have hids : (e.reorder order).ids = [] :=
        List.Perm.eq_nil (hne ▸ reorder_perm rfl)
      rw [hids, hne, List.getElem?_nil, List.getElem?_nil]
    · have hindex := h.index hne
      let place : Fin e.ids.length := ⟨e.actionIndex.toNat, by omega⟩
      have hplace : (e.reorder order).actionIndex = (order.symm place).val :=
        dif_pos hindex
      have hget : (e.reorder order).ids[(order.symm place).val]? =
          e.ids[(order (order.symm place)).val]? := getElem?_reorder rfl _
      rw [hplace, Int.toNat_natCast, hget, Equiv.apply_symm_apply]
  rw [actionPointer?, actionPointer?, hentry]

theorem ofInts?_reorder {ids : PointerSet}
    (order : Equiv.Perm (Fin e.ids.length))
    (hids : PointerSet.ofInts? e.ids = .ok ids) :
    PointerSet.ofInts? (e.reorder order).ids = .ok ids := by
  have hperm : (e.reorder order).ids.Perm e.ids := reorder_perm rfl
  obtain ⟨hrange, hmem⟩ := PointerSet.ofInts?_eq_ok_iff.mp hids
  refine PointerSet.ofInts?_eq_ok_iff.mpr ⟨?_, ?_⟩
  · exact fun n hn => hrange n (hperm.mem_iff.mp hn)
  · exact fun id => (hmem id).trans hperm.mem_iff.symm

/-- The samples come out the same. -/
theorem samples_reorder [Scalar α] (h : e.Fits) {ids : PointerSet}
    (hids : PointerSet.ofInts? e.ids = .ok ids)
    (order : Equiv.Perm (Fin e.ids.length)) :
    (e.reorder order).samples = e.samples := by
  have hhistory :
      (e.reorder order).history.map ((e.reorder order).readyHistorical ids) =
      e.history.map (e.readyHistorical ids) := by
    change (e.history.map (EventSample.reorder order)).map _ = _
    rw [List.map_map]
    apply List.map_congr_left
    intro s hs
    rw [Function.comp_apply, readyHistorical, readyHistorical,
      arrange_reorder h order (List.mem_append_left _ hs)]
    rfl
  have hfinal : (e.reorder order).readyFinal ids = e.readyFinal ids := by
    have hfinal :=
      arrange_reorder h order (List.mem_append_right _ List.mem_cons_self)
    change
      (e.reorder order).arrange (e.reorder order).final.points = _ at hfinal
    rw [readyFinal, readyFinal, hfinal]
    rfl
  rw [samples, samples, idSet?_eq_ok_iff.mpr hids,
    idSet?_eq_ok_iff.mpr (ofInts?_reorder order hids), Except.map, Except.map,
    hhistory, hfinal]

end Reordering

end MotionEvent

namespace Tracker

variable [Scalar α]

/-- Of an event a tracker sees the action, the pointer that it is about, and the
samples. -/
theorem addEvent_congr {e other : MotionEvent α}
    (haction : e.action = other.action)
    (hpointer : e.actionPointer? = other.actionPointer?)
    (hsamples : e.samples = other.samples) (t : Tracker α) :
    t.addEvent e = t.addEvent other := by
  have hopen : t.openEvent? e = t.openEvent? other := by
    rw [openEvent?, openEvent?, haction, hpointer]
  have hadd : addSamples e = addSamples other := by
    funext t
    rw [addSamples, addSamples, hsamples]
  rw [addEvent, addEvent, hopen, hadd]

/-- The samples of an accepted event come oldest first and then the final one,
each with the set of the event's pointers and every position at the rank of its
pointer.  Listed in any other order, with all positions and the action's place
moved along, it is accepted again and has the same effect on every tracker. -/
theorem samples_placed_and_addEvent_reorder {e : MotionEvent α}
    (he : e.Accepted) (hrange : ∀ id ∈ e.ids, 0 ≤ id ∧ id ≤ 31)
    (hpairs : e.GivesPairs) :
    (∃ ids older final,
      (∀ id : PointerId, id ∈ ids ↔ (id.val : Int) ∈ e.ids) ∧
        e.samples = .ok (older.map .ok ++
          [e.final.time.toInt.map fun time => ⟨.whole time, ids, final⟩]) ∧
        List.Forall₂ (fun given sample => sample.time = given.time ∧
          sample.ids = ids ∧
          e.Places ids given.points sample.points) e.history older ∧
        e.Places ids e.final.points final) ∧
      ∀ order, (e.reorder order).check = .ok (e.reorder order) ∧
        ∀ t : Tracker α, t.addEvent (e.reorder order) = t.addEvent e := by
  have hfits := he.fits
  obtain ⟨ids, hids, -⟩ := PointerSet.exists_ofInts? hfits.nodup hrange
  constructor
  · refine ⟨ids, e.history.map fun s => ⟨s.time, ids, e.arrange s.points⟩,
      e.arrange e.final.points,
      (PointerSet.ofInts?_eq_ok_iff.mp hids).2, ?_, ?_, ?_⟩
    · rw [MotionEvent.samples_eq hpairs hids, List.map_map]
      rfl
    · refine List.forall₂_map_right_iff.mpr
        (List.forall₂_same.mpr fun s hs => ⟨rfl, rfl, ?_⟩)
      exact MotionEvent.places_arrange hfits.nodup hids
        (hfits.sized s (List.mem_append_left _ hs))
    · exact MotionEvent.places_arrange hfits.nodup hids
        (hfits.sized e.final (List.mem_append_right _ List.mem_cons_self))
  · intro order
    refine ⟨MotionEvent.check_eq_ok_iff.mpr ⟨rfl, hfits.reorder order⟩, ?_⟩
    exact addEvent_congr rfl (MotionEvent.actionPointer?_reorder hfits order)
      (MotionEvent.samples_reorder hfits hids order)

/-- Pointer 3 goes down beside pointer 1, and is listed first. -/
def pairDown : MotionEvent Float where
  action := .pointerDown
  ids := [3, 1]
  history :=
    [⟨.whole 0, [.ofPosition ⟨30.0, 3.0⟩, .ofPosition ⟨10.0, 1.0⟩]⟩,
      ⟨.whole 5, [.ofPosition ⟨31.0, 3.0⟩, .ofPosition ⟨11.0, 1.0⟩]⟩]
  final := ⟨.whole 10, [.ofPosition ⟨32.0, 3.0⟩, .ofPosition ⟨12.0, 1.0⟩]⟩
  actionIndex := 0

/-- Listed in ascending order the same pointers need no sorting. -/
theorem addEvent_reorder_pairDown :
    let order : Equiv.Perm (Fin pairDown.ids.length) :=
  Equiv.swap ⟨0, by decide⟩ ⟨1, by decide⟩
    (pairDown.reorder order).ids = [1, 3] ∧
      (pairDown.reorder order).actionIndex = 1 ∧
      ∀ t : Tracker Float, t.addEvent (pairDown.reorder order) =
        t.addEvent pairDown := by
  refine ⟨by decide, by decide, ?_⟩
  have haccepted : pairDown.Accepted :=
    .made (rfl : pairDown.check = .ok pairDown)
  exact ((samples_placed_and_addEvent_reorder haccepted (by decide)
      (by decide)).2 _).2

end Tracker

end PointerMotion
