/-
A filter that is told of movements, and what it keeps of one pointer.  A point
that cannot be read ends the movement where it stands, with the samples before
it taken.
-/
import Mathlib.Data.List.Induction
import PointerMotion.Proofs.Failure

namespace PointerMotion

variable {α β : Type}

/-- What a strategy is told, with a caller's arguments. -/
inductive Notice (α : Type) where
  | add (time : Reading α) (ids : PointerSet) (points : List (Point α))
  | clear
  | clearPointers (gone : PointerSet)

section Legible

variable [Scalar α]

/-- The positions of points up to the first that cannot be read. -/
def Point.legible : List (Point α) → List (Position α)
  | [] => []
  | point :: rest =>
      match point.toPosition with
      | .ok p => p :: legible rest
      | .error _ => []

/-- The part of a movement, from the smallest id up, that stands before such a
point. -/
def Movement.legible (time : Int) (ids : PointerSet) (points : List (Point α)) :
    Movement α where
  time := time
  ids := ids.lowest (Point.legible points).length
  positions := (Point.legible points).take ids.card
  sized := by rw [List.length_take, PointerSet.card_lowest, Nat.min_comm]

theorem Movement.samples_legible (time : Int) (ids : PointerSet)
    (points : List (Point α)) :
    (legible time ids points).samples =
      ids.toList.zip (Point.legible points) := by
  have hshort : ids.toList.zip (Point.legible points) =
      (ids.toList.take
        (min ids.toList.length (Point.legible points).length)).zip
        ((Point.legible points).take
            (min ids.toList.length (Point.legible points).length)) :=
    List.zip_eq_zip_take_min
  have hids : (legible time ids points).ids.toList =
      ids.toList.take (Point.legible points).length :=
        PointerSet.toList_lowest _ _
  have hpositions : (legible time ids points).positions =
      (Point.legible points).take ids.toList.length := by
    simp only [legible, ids.card_eq_length_toList]
  rw [samples, hids, hpositions, hshort, List.take_eq_take_min, Nat.min_comm,
    ← List.take_eq_take_min]

end Legible

namespace Notice

section Reading

variable [Scalar α]

/-- Whether the time of a notice is held by a signed word of 64 bits. -/
def InWord : Notice α → Prop
  | add time _ _ => ∃ now, time.toInt = .ok now ∧ Filter.fitsWord now = true
  | _ => True

instance : DecidablePred (InWord : Notice α → Prop)
  | add time _ _ =>
      match h : time.toInt with
      | .ok now =>
          decidable_of_iff (Filter.fitsWord now = true) (by simp [InWord, h])
      | .error _ => isFalse (by simp [InWord, h])
  | clear => isTrue trivial
  | clearPointers _ => isTrue trivial

/-- The sample of a pointer in a movement, if all points up to it can be
read. -/
def sample? (id : PointerId) (time : Reading α) (ids : PointerSet)
    (points : List (Point α)) :
    Option (TrackPoint α) :=
  if points.length = ids.card then
    match time.toInt with
    | .ok now =>
        ((Movement.legible now ids points).position? id).map (TrackPoint.mk now)
    | .error _ => none
  else none

/-- What is left of a pointer after a notice, where `next` tells what its sample
makes of what was kept before. -/
def follow (id : PointerId) (next : TrackPoint α → Option β → β)
    (kept? : Option β) :
    Notice α → Option β
  | add time ids points =>
      match Movement.read? time ids points with
      | .ok m => (m.position? id).map fun p => next ⟨m.time, p⟩ kept?
      | .error _ => kept?.map fun kept =>
          (sample? id time ids points).elim kept fun s => next s (some kept)
  | clear => none
  | clearPointers gone => if id ∈ gone then none else kept?

def followAll (id : PointerId) (next : TrackPoint α → Option β → β)
    (notices : List (Notice α)) (kept? : Option β) : Option β :=
  notices.foldl (fun kept? n => n.follow id next kept?) kept?

@[simp] theorem followAll_cons (id : PointerId)
    (next : TrackPoint α → Option β → β) (n : Notice α)
    (notices : List (Notice α)) (kept? : Option β) :
    followAll id next (n :: notices) kept? =
      followAll id next notices (n.follow id next kept?) :=
  rfl

/-- Whether a notice is a movement that is read to its end and has a pointer. -/
def Shows (id : PointerId) : Notice α → Prop
  | add time ids points =>
      ∃ m, Movement.read? time ids points = .ok m ∧ id ∈ m.ids
  | _ => False

/-- Whether a notice leaves a pointer known that was known: it fails, or removes
others only. -/
def Spares (id : PointerId) : Notice α → Prop
  | add time ids points => ∃ e, Movement.read? time ids points = .error e
  | clear => False
  | clearPointers gone => id ∉ gone

/-- Something is left of a pointer that is shown, or that is spared and was
there before. -/
theorem isSome_follow_iff (id : PointerId) (next : TrackPoint α → Option β → β)
    (kept? : Option β) (n : Notice α) :
    (n.follow id next kept?).isSome ↔ n.Shows id ∨
      (n.Spares id ∧ kept?.isSome) := by
  cases n with
  | add time ids points =>
      cases hread : Movement.read? time ids points with
      | ok m => simp [follow, Shows, Spares, hread, Movement.isSome_position?]
      | error e => simp [follow, Shows, Spares, hread]
  | clear => simp [follow, Shows, Spares]
  | clearPointers gone =>
      by_cases hgone : id ∈ gone <;> simp [follow, Shows, Spares, hgone]

/-- Something is left of a pointer that was shown last and has been spared
since. -/
theorem isSome_followAll_iff (id : PointerId)
    (next : TrackPoint α → Option β → β) (notices : List (Notice α)) :
    (followAll id next notices none).isSome ↔
      ∃ earlier n later, notices = earlier ++ n :: later ∧ n.Shows id ∧
        ∀ n' ∈ later, n'.Spares id := by
  induction notices using List.reverseRecOn with
  | nil => simp [followAll]
  | append_singleton notices last ih =>
      have hlast : followAll id next (notices ++ [last]) none =
          last.follow id next (followAll id next notices none) :=
            List.foldl_concat ..
      rw [hlast, isSome_follow_iff, ih]
      constructor
      · rintro (hshows | ⟨hspares, earlier, n, later, rfl, hshows, hlater⟩)
        · exact ⟨notices, last, [], rfl, hshows, by simp⟩
        · refine ⟨earlier, n, later ++ [last], by simp, hshows, ?_⟩
          simpa [or_imp, forall_and] using ⟨hlater, hspares⟩
      · rintro ⟨earlier, n, later, hsplit, hshows, hlater⟩
        -- the pointer is shown by the last notice itself, or by one before it
        rcases later.eq_nil_or_concat' with rfl | ⟨before, last', rfl⟩
        · obtain ⟨-, rfl⟩ : notices = earlier ∧ last = n := by
            simpa using hsplit
          exact .inl hshows
        · rw [← List.cons_append, ← List.append_assoc] at hsplit
          obtain ⟨hnotices, hsame⟩ := List.append_inj' hsplit rfl
          obtain rfl : last = last' := List.singleton_inj.mp hsame
          refine .inr ⟨hlater _ (by simp), earlier, n, before,
            hnotices, hshows, ?_⟩
          intro n' hn'
          exact hlater n' (List.mem_append_left _ hn')

/-- What is kept by two rules corresponds when their samples do. -/
theorem rel_follow {γ : Type} {R : β → γ → Prop}
    {next : TrackPoint α → Option β → β} {next' : TrackPoint α → Option γ → γ}
    (hnext : ∀ s kept? kept?', Option.Rel R kept? kept?' →
      R (next s kept?) (next' s kept?')) (id : PointerId) {kept? : Option β}
      {kept?' : Option γ} (h : Option.Rel R kept? kept?') (n : Notice α) :
      Option.Rel R (n.follow id next kept?) (n.follow id next' kept?') := by
  cases n with
  | add time ids points =>
      simp only [follow]
      split
      · next m hread =>
          cases m.position? id with
          | none => exact .none
          | some p => exact .some (hnext _ _ _ h)
      · next e hread =>
          cases h with
          | none => exact .none
          | some hkept =>
              cases sample? id time ids points with
              | none => exact .some hkept
              | some s => exact .some (hnext _ _ _ (.some hkept))
  | clear => exact .none
  | clearPointers gone =>
      simp only [follow]
      split
      · exact .none
      · exact h

theorem rel_followAll {γ : Type} {R : β → γ → Prop}
    {next : TrackPoint α → Option β → β} {next' : TrackPoint α → Option γ → γ}
    (hnext : ∀ s kept? kept?', Option.Rel R kept? kept?' →
      R (next s kept?) (next' s kept?')) (id : PointerId)
    (notices : List (Notice α)) {kept? : Option β} {kept?' : Option γ}
    (h : Option.Rel R kept? kept?') :
    Option.Rel R (followAll id next notices kept?)
      (followAll id next' notices kept?') := by
  induction notices generalizing kept? kept?' with
  | nil => exact h
  | cons n rest ih => exact ih (rel_follow hnext id h n)

end Reading

end Notice

namespace Filter

variable [Scalar α] (order : Order) {time : Reading α} {now : Int}

/-- Samples are taken up to the first that cannot be read. -/
theorem state_acceptAll (htime : time.toInt = .ok now) (ids : List PointerId)
    (points : List (Point α)) (table : Table α) :
    (acceptAll order time (ids.zip points) table).state =
      (acceptSamples order now (ids.zip (Point.legible points))
          table).state := by
  induction ids generalizing points table with
  | nil => rfl
  | cons id ids ih =>
      cases points with
      | nil => rfl
      | cons point points =>
          rw [List.zip_cons_cons, acceptAll, htime, Point.legible]
          cases hpoint : point.toPosition with
          | error e => rfl
          | ok p =>
              simp only [Outcome.orFail, List.zip_cons_cons, acceptSamples_cons]
              cases herror : (accept order id now p table).error with
              | none =>
                  rw [Outcome.andThen_of_error_none herror,
                    Outcome.andThen_of_error_none herror]
                  exact ih points _
              | some e =>
                  rw [Outcome.andThen_of_error_some herror,
                    Outcome.andThen_of_error_some herror]

/-- Samples of which one cannot be read end in an error. -/
theorem error_acceptAll_ne_none (htime : time.toInt = .ok now)
    {ids : List PointerId} {points : List (Point α)}
    (hlength : points.length = ids.length) {e : InputError}
    (hpoints : points.mapM Point.toPosition = .error e) (table : Table α) :
    (acceptAll order time (ids.zip points) table).error ≠ none := by
  induction points generalizing ids table with
  | nil => cases hpoints
  | cons point points ih =>
      cases ids with
      | nil => cases hlength
      | cons id ids =>
          rw [List.zip_cons_cons, acceptAll, htime]
          rw [Point.mapM_toPosition_cons] at hpoints
          cases hpoint : point.toPosition with
          | error e => exact Option.some_ne_none e
          | ok p =>
              have hrest : points.mapM Point.toPosition = .error e := by
                cases hrest : points.mapM Point.toPosition with
                | error e' =>
                    simpa [hpoint, hrest, Except.bind, Except.map] using hpoints
                | ok positions =>
                    simp [hpoint, hrest, Except.bind, Except.map] at hpoints
              intro hnone
              exact ih (Nat.succ.inj hlength) hrest
                _ (Outcome.error_andThen_eq_none_iff.mp hnone).2

/-- A movement that can be read is taken as though it had been read before. -/
theorem add_of_read? {ids : PointerSet} {points : List (Point α)}
    {m : Movement α} (hread : Movement.read? time ids points = .ok m)
    (table : Table α) :
    add order time ids points table = addMovement order m table := by
  obtain ⟨htime, rfl, hpoints⟩ := Movement.read?_eq_ok_iff.mp hread
  have hcount : points.length = m.ids.card := by
    rw [← Point.length_of_mapM_toPosition hpoints, m.sized]
  rw [addMovement_eq, add, if_pos hcount,
    acceptAll_eq_acceptSamples order htime hpoints]
  rfl

/-- A movement with a point that cannot be read leaves the known pointers and
takes what it can. -/
theorem state_add_of_unread {ids : PointerSet} {points : List (Point α)}
    {e : InputError} (htime : time.toInt = .ok now)
    (hcount : points.length = ids.card)
    (hread : Movement.read? time ids points = .error e) (table : Table α) :
    (add order time ids points table).state =
      (acceptSamples order now (Movement.legible now ids points).samples
          table).state := by
  have hpoints : ∃ e, points.mapM Point.toPosition = .error e := by
    cases hpositions : points.mapM Point.toPosition with
    | error e => exact ⟨e, rfl⟩
    | ok positions =>
        have hsized : positions.length = ids.card := by
          rw [Point.length_of_mapM_toPosition hpositions, hcount]
        have hok : Movement.read? time ids points =
            .ok ⟨now, ids, positions, hsized⟩ :=
          Movement.read?_eq_ok_iff.mpr ⟨htime, rfl, hpositions⟩
        rw [hok] at hread
        cases hread
  obtain ⟨e', hpoints⟩ := hpoints
  have herror := error_acceptAll_ne_none order htime
    (hcount.trans ids.card_eq_length_toList) hpoints table
  have hnotNone :
      (acceptAll order time (ids.toList.zip points) table).error.isNone =
        false := by
    rwa [← Bool.not_eq_true, Option.isNone_iff_eq_none]
  rw [Movement.samples_legible, ← state_acceptAll order htime, add,
    if_pos hcount]
  simp only [hnotNone, Bool.false_eq_true, ↓reduceIte]

/-- What a filter that is told of a movement keeps of a pointer. -/
theorem motion?_add {ids : PointerSet} {points : List (Point α)}
    (hword : (Notice.add time ids points).InWord) (table : Table α)
    (id : PointerId) :
    (add order time ids points table).state.motion? id =
      (Notice.add time ids points).follow id
        (fun s => Motion.next order s.time s.position) (table.motion? id) := by
  obtain ⟨now, htime, hfits⟩ := hword
  cases hread : Movement.read? time ids points with
  | ok m =>
      have hnow : m.time = now :=
        Except.ok.inj ((Movement.read?_eq_ok_iff.mp hread).1.symm.trans htime)
      have hok : (addMovement order m table).error = none :=
        (error_addMovement_eq_none_iff order m table).mpr fun _ _ =>
          not_refused_of_fitsWord (hnow ▸ hfits)
      simp only [Notice.follow, hread]
      rw [add_of_read? order hread, motion?_addMovement hok]
  | error e =>
      simp only [Notice.follow, hread, Notice.sample?, htime]
      by_cases hcount : points.length = ids.card
      · rw [if_pos hcount, state_add_of_unread order htime hcount hread]
        set m := Movement.legible now ids points
        have hok : (acceptSamples order now m.samples table).error = none :=
          (error_acceptSamples_eq_none_iff order now
              m.nodup_map_fst_samples table).mpr
            fun _ _ => not_refused_of_fitsWord hfits
        rw [Table.motion?, known_acceptSamples]
        cases hposition : m.position? id with
        | none =>
            have habsent : id ∉ m.samples.map Prod.fst := by
              rw [m.map_fst_samples, PointerSet.mem_toList]
              exact Movement.position?_eq_none_iff.mp hposition
            rw [get_rows_acceptSamples_of_not_mem order now habsent]
            simp [Table.motion?]
        | some p =>
            rw [get_rows_acceptSamples order now m.nodup_map_fst_samples hok
              (Movement.mem_samples.mpr hposition)]
            by_cases hknown : id ∈ table.known <;> simp [Table.motion?, hknown]
      · rw [if_neg hcount, add, if_neg hcount]
        simp [Outcome.failed]

end Filter

namespace Strategy

variable [Scalar α]

/-- What a strategy makes of a notice. -/
def take (s : Strategy α) : Notice α → Outcome (Strategy α)
  | .add time ids points => s.add time ids points
  | .clear => .done s.clear
  | .clearPointers gone => .done (s.clearPointers gone)

/-- The strategy after a run of notices; one that fails leaves what it has
changed. -/
def told (s : Strategy α) (notices : List (Notice α)) : Strategy α :=
  notices.foldl (fun s n => (s.take n).state) s

@[simp] theorem told_cons (s : Strategy α) (n : Notice α)
    (notices : List (Notice α)) :
    s.told (n :: notices) = (s.take n).state.told notices :=
  rfl

variable (order : Filter.Order) (table : Filter.Table α)

/-- A filter stays one, and keeps of a pointer what a notice leaves of that
pointer. -/
theorem take_filter {n : Notice α} (hword : n.InWord) :
    ∃ after, ((filter order table).take n).state = .filter order after ∧
      ∀ id, after.motion? id =
        n.follow id (fun s => Filter.Motion.next order s.time s.position)
          (table.motion? id) := by
  cases n with
  | add time ids points => exact ⟨_, rfl, Filter.motion?_add order hword table⟩
  | clear =>
      exact ⟨_, rfl,
        fun id => by simp [Notice.follow, Filter.Table.motion?_withKnown]⟩
  | clearPointers gone =>
      exact ⟨_, rfl,
        fun id => Filter.Table.motion?_withKnown_sdiff table gone id⟩

/-- What a filter keeps of a pointer is followed through a run of notices. -/
theorem told_filter {notices : List (Notice α)}
    (hword : ∀ n ∈ notices, n.InWord) :
    ∃ after, (filter order table).told notices = .filter order after ∧
      ∀ id, after.motion? id =
        Notice.followAll id
          (fun s => Filter.Motion.next order s.time s.position) notices
          (table.motion? id) := by
  induction notices generalizing table with
  | nil => exact ⟨table, rfl, fun _ => rfl⟩
  | cons n rest ih =>
      obtain ⟨between, hbetween, hfirst⟩ :=
        take_filter order table (hword n List.mem_cons_self)
      obtain ⟨after, hafter, hrest⟩ :=
        ih between fun n' hn' => hword n' (List.mem_cons_of_mem n hn')
      refine ⟨after, ?_, fun id => ?_⟩
      · rw [told_cons, hbetween, hafter]
      · rw [hrest id, hfirst id, Notice.followAll_cons]

end Strategy

end PointerMotion
