/-
The track of a pointer is the longest run of movements that can make one: they
show the pointer, are recent, and each is older than the one before it.
-/
import Mathlib.Data.List.Chain
import PointerMotion.Proofs.BoundedList
import PointerMotion.Proofs.Glimpse

namespace PointerMotion

variable {α : Type}

/-- Where a movement shows a pointer, if it does. -/
def Movement.point? (m : Movement α) (id : PointerId) : Option (TrackPoint α) :=
  (m.position? id).map (TrackPoint.mk m.time)

theorem TrackLimits.follows_iff {limits : TrackLimits} {later time : Int} :
    limits.follows later time = true ↔
      time < later ∨ (limits.equalTimes = true ∧ time = later) := by
  simp [follows]

/-- The lists that a list with a first entry begins with. -/
theorem forall_prefix_cons {β : Type} {p : List β → Prop} {b : β}
    {rest : List β} :
    (∀ other, other <+: b :: rest → p other) ↔ p [] ∧ ∀ other, other <+: rest →
      p (b :: other) := by
  constructor
  · exact fun h => ⟨h [] List.nil_prefix,
      fun other hother => h _ (List.cons_prefix_cons.mpr ⟨rfl, hother⟩)⟩
  · rintro ⟨hnil, hcons⟩ (_ | ⟨first, other⟩) hprefix
    · exact hnil
    · obtain ⟨rfl, hother⟩ := List.cons_prefix_cons.mp hprefix
      exact hcons other hother

namespace History

/-- Movements of a history, newest first, that can make a track of a pointer. -/
structure CanMakeTrack (h : History α) (id : PointerId) (limits : TrackLimits)
    (run : List (Movement α)) : Prop where
  shown : ∀ m ∈ run, id ∈ m.ids
  recent : ∀ newest, h.newest? = some newest →
    ∀ m ∈ run, newest.time - m.time ≤ limits.horizon
  falling : run.IsChain fun later m =>
    m.time < later.time ∨ (limits.equalTimes = true ∧ m.time = later.time)

/-- The longest run from the newest movement back that can make a track of a
pointer. -/
structure IsLongestRun (h : History α) (id : PointerId) (limits : TrackLimits)
    (run : List (Movement α)) : Prop extends h.CanMakeTrack id limits run where
  initial : run <+: h.newestFirst
  longest : ∀ other, other <+: h.newestFirst → h.CanMakeTrack id limits other →
    other.length ≤ run.length

section Runs

variable {h : History α} {id : PointerId} {limits : TrackLimits}
    {newest later m : Movement α} {run : List (Movement α)}

theorem CanMakeTrack.nil : h.CanMakeTrack id limits [] where
  shown := List.forall_mem_nil _
  recent _ _ := List.forall_mem_nil _
  falling := .nil

theorem CanMakeTrack.head (hnewest : h.newest? = some newest)
    (hrun : h.CanMakeTrack id limits (m :: run)) :
    id ∈ m.ids ∧ newest.time - m.time ≤ limits.horizon :=
  ⟨hrun.shown m List.mem_cons_self,
    hrun.recent newest hnewest m List.mem_cons_self⟩

theorem CanMakeTrack.tail
    (hrun : h.CanMakeTrack id limits (later :: m :: run)) :
    limits.follows later.time m.time ∧ h.CanMakeTrack id limits (m :: run) := by
  obtain ⟨hfollows, hchain⟩ := List.isChain_cons_cons.mp hrun.falling
  refine ⟨TrackLimits.follows_iff.mpr hfollows,
    (List.forall_mem_cons.mp hrun.shown).2, ?_, hchain⟩
  exact fun newest hnewest =>
    (List.forall_mem_cons.mp (hrun.recent newest hnewest)).2

theorem canMakeTrack_singleton (hnewest : h.newest? = some newest)
    (hshown : id ∈ m.ids) (hrecent : newest.time - m.time ≤ limits.horizon) :
    h.CanMakeTrack id limits [m] where
  shown := List.forall_mem_singleton.mpr hshown
  recent := by
    intro other hother
    obtain rfl := Option.some.inj (hnewest.symm.trans hother)
    exact List.forall_mem_singleton.mpr hrecent
  falling := .singleton m

/-- A run goes on in front with a movement that may stand before its first
one. -/
theorem CanMakeTrack.cons (hrun : h.CanMakeTrack id limits (m :: run))
    (hlater : h.CanMakeTrack id limits [later])
    (hfollows : limits.follows later.time m.time) :
    h.CanMakeTrack id limits (later :: m :: run) where
  shown := List.forall_mem_cons.mpr
    ⟨hlater.shown later List.mem_cons_self, hrun.shown⟩
  recent newest hnewest := List.forall_mem_cons.mpr
    ⟨(hlater.head hnewest).2, hrun.recent newest hnewest⟩
  falling := .cons_cons (TrackLimits.follows_iff.mp hfollows) hrun.falling

/-- Behind a movement that a track may hold, the track goes on through the
longest run that can make a track together with that movement. -/
theorem exists_run_behind (hnewest : h.newest? = some newest)
    (movements : List (Movement α))
    (hlater : h.CanMakeTrack id limits [later]) :
    ∃ run, h.CanMakeTrack id limits (later :: run) ∧ run <+: movements ∧
      (∀ other, other <+: movements →
        h.CanMakeTrack id limits (later :: other) →
        other.length ≤ run.length) ∧
      (trackBehind id limits newest.time later.time movements).map some =
        run.map (·.point? id) := by
  induction movements generalizing later with
  | nil =>
      exact ⟨[], hlater, List.prefix_rfl,
        fun _ hother _ => hother.length_le, rfl⟩
  | cons m rest ih =>
      by_cases hgoes : (id ∈ m.ids ∧ newest.time - m.time ≤ limits.horizon) ∧
        limits.follows later.time m.time = true
      · obtain ⟨⟨hshown, hrecent⟩, hfollows⟩ := hgoes
        obtain ⟨p, hp⟩ :=
          Option.isSome_iff_exists.mp (Movement.isSome_position?.mpr hshown)
        obtain ⟨run, hrun, hprefix, hlongest, himage⟩ :=
          ih (canMakeTrack_singleton hnewest hshown hrecent)
        refine ⟨m :: run, hrun.cons hlater hfollows,
          List.cons_prefix_cons.mpr ⟨rfl, hprefix⟩,
          forall_prefix_cons.mpr ⟨fun _ => Nat.zero_le _, ?_⟩, ?_⟩
        · intro other hother hmakes
          exact Nat.succ_le_succ (hlongest other hother hmakes.tail.2)
        · simp [trackBehind, hp, hrecent, hfollows, himage, Movement.point?]
      · have hstops : trackBehind id limits newest.time later.time (m :: rest) =
            [] := by
          cases hp : m.position? id with
          | none => simp [trackBehind, hp]
          | some p =>
              have hshown : id ∈ m.ids :=
                Movement.isSome_position?.mp (by rw [hp]; rfl)
              simp_all [trackBehind]
        refine ⟨[], hlater, List.nil_prefix,
          forall_prefix_cons.mpr ⟨fun _ => Nat.le_refl _, ?_⟩, by
          rw [hstops]; rfl⟩
        intro other _ hmakes
        exact absurd ⟨hmakes.tail.2.head hnewest, hmakes.tail.1⟩ hgoes

/-- The points of a track are those of the longest run that can make one. -/
theorem exists_isLongestRun (h : History α) (id : PointerId)
    (hhorizon : 0 ≤ limits.horizon) :
    ∃ run, h.IsLongestRun id limits run ∧
      (h.track id limits).map some = run.map (·.point? id) := by
  cases hmovements : h.newestFirst with
  | nil =>
      refine ⟨[], ⟨.nil, List.nil_prefix, ?_⟩, by rw [track, hmovements]; rfl⟩
      exact fun other hother _ => (hmovements ▸ hother).length_le
  | cons newest rest =>
      have hnewest : h.newest? = some newest := by
        rw [newest?_eq_head?, hmovements]; rfl
      by_cases hshown : id ∈ newest.ids
      · obtain ⟨p, hp⟩ :=
          Option.isSome_iff_exists.mp (Movement.isSome_position?.mpr hshown)
        have hage : newest.time - newest.time ≤ limits.horizon := by omega
        obtain ⟨run, hrun, hprefix, hlongest, himage⟩ :=
          exists_run_behind hnewest rest
            (canMakeTrack_singleton hnewest hshown hage)
        refine ⟨newest :: run, ⟨hrun, ?_, ?_⟩, ?_⟩
        · rw [hmovements]
          exact List.cons_prefix_cons.mpr ⟨rfl, hprefix⟩
        · rw [hmovements]
          refine forall_prefix_cons.mpr ⟨fun _ => Nat.zero_le _, ?_⟩
          exact fun other hother hmakes =>
            Nat.succ_le_succ (hlongest other hother hmakes)
        · simp [track, hmovements, trackThrough, hp, hhorizon, himage,
            Movement.point?]
      · have hnone : newest.position? id = none :=
          Movement.position?_eq_none_iff.mpr hshown
        refine ⟨[], ⟨.nil, List.nil_prefix, ?_⟩, by simp [track, hmovements,
          trackThrough, hnone]⟩
        rw [hmovements]
        refine forall_prefix_cons.mpr ⟨fun _ => Nat.le_refl _, ?_⟩
        exact fun other _ hmakes => absurd (hmakes.head hnewest).1 hshown

namespace IsLongestRun

theorem map_time_eq {track : List (TrackPoint α)}
    (hrun : h.IsLongestRun id limits run)
    (himage : track.map some = run.map (·.point? id)) :
    track.map TrackPoint.time = run.map Movement.time := by
  have htimes : ∀ m ∈ run, (m.point? id).map TrackPoint.time = some m.time := by
    intro m hm
    obtain ⟨p, hp⟩ :=
      Option.isSome_iff_exists.mp
        (Movement.isSome_position?.mpr (hrun.shown m hm))
    rw [Movement.point?, hp]
    rfl
  have himages := congrArg (List.map (Option.map TrackPoint.time)) himage
  rw [List.map_map, List.map_map] at himages
  apply List.map_injective_iff.mpr fun _ _ => Option.some.inj
  rw [List.map_map, List.map_map]
  exact himages.trans (List.map_congr_left htimes)

/-- No movement of the run is newer than one before it. -/
theorem pairwise_time (hrun : h.IsLongestRun id limits run) :
    (run.map Movement.time).Pairwise (· ≥ ·) := by
  rw [← List.isChain_iff_pairwise, List.isChain_map]
  refine hrun.falling.imp ?_
  rintro later m (hlt | ⟨-, heq⟩)
  · exact Int.le_of_lt hlt
  · exact Int.le_of_eq heq

theorem pairwise_time_of_not_equalTimes (hrun : h.IsLongestRun id limits run)
    (hstrict : limits.equalTimes = false) :
    (run.map Movement.time).Pairwise (· > ·) := by
  rw [← List.isChain_iff_pairwise, List.isChain_map]
  refine hrun.falling.imp ?_
  rintro later m (hlt | ⟨hequal, -⟩)
  · exact hlt
  · exact absurd (hstrict.symm.trans hequal) Bool.false_ne_true

theorem head_eq (hrun : h.IsLongestRun id limits (m :: run)) :
    h.newest? = some m := by
  obtain ⟨rest, hrest⟩ := hrun.initial
  rw [newest?_eq_head?, ← hrest]
  rfl

theorem time_le (hrun : h.IsLongestRun id limits run)
    (hnewest : h.newest? = some newest) (hm : m ∈ run) :
    m.time ≤ newest.time := by
  cases run with
  | nil => exact absurd hm List.not_mem_nil
  | cons first rest =>
      obtain rfl := Option.some.inj (hnewest.symm.trans hrun.head_eq)
      have hfalling := (List.pairwise_cons.mp hrun.pairwise_time).1
      rcases List.mem_cons.mp hm with rfl | hrest
      · exact Int.le_refl _
      · exact hfalling m.time (List.mem_map_of_mem hrest)

/-- The run is empty when there is no newest movement that shows the pointer. -/
theorem eq_nil_iff (hrun : h.IsLongestRun id limits run)
    (hhorizon : 0 ≤ limits.horizon) :
    run = [] ↔ h.count = 0 ∨ ∃ newest, h.newest? = some newest ∧
      id ∉ newest.ids := by
  constructor
  · rintro rfl
    cases hmovements : h.newestFirst with
    | nil => exact .inl (by rw [← h.length_newestFirst, hmovements]; rfl)
    | cons newest rest =>
        have hnewest : h.newest? = some newest := by
          rw [newest?_eq_head?, hmovements]; rfl
        refine .inr ⟨newest, hnewest, fun hshown => ?_⟩
        -- the newest movement alone would be a longer run
        have hage : newest.time - newest.time ≤ limits.horizon := by omega
        have hprefix : [newest] <+: h.newestFirst := ⟨rest, hmovements.symm⟩
        exact Nat.not_succ_le_zero 0
          (hrun.longest _ hprefix (canMakeTrack_singleton hnewest hshown hage))
  · rintro (hcount | ⟨newest, hnewest, hlacks⟩)
    · have hnil : h.newestFirst = [] :=
        List.eq_nil_of_length_eq_zero (by simp [hcount])
      exact List.prefix_nil.mp (hnil ▸ hrun.initial)
    · cases run with
      | nil => rfl
      | cons m rest =>
          obtain rfl := Option.some.inj (hnewest.symm.trans hrun.head_eq)
          exact absurd (hrun.shown newest List.mem_cons_self) hlacks

end IsLongestRun

end Runs

/-- A pointer's track consists of its points in the longest run of movements
that can make one.  So its times fall, without repetitions unless equal times
are allowed, no point is older than the horizon, there are no more points than
the history has slots, and there is none just when no newest movement shows the
pointer. -/
theorem track_longestRun (h : History α) (id : PointerId) {limits : TrackLimits}
    (hhorizon : 0 ≤ limits.horizon) :
    (∃ run, h.IsLongestRun id limits run ∧
        (h.track id limits).map some = run.map (·.point? id)) ∧
      ((h.track id limits).map TrackPoint.time).Pairwise (· ≥ ·) ∧
      (limits.equalTimes = false →
        ((h.track id limits).map TrackPoint.time).Pairwise (· > ·)) ∧
      (∀ newest, h.newest? = some newest → ∀ p ∈ h.track id limits,
        0 ≤ newest.time - p.time ∧ newest.time - p.time ≤ limits.horizon) ∧
      (h.track id limits).length ≤ h.capacity ∧
      (h.track id limits = [] ↔
        h.count = 0 ∨ ∃ newest, h.newest? = some newest ∧ id ∉ newest.ids) := by
  obtain ⟨run, hrun, himage⟩ := h.exists_isLongestRun id hhorizon
  have htimes := hrun.map_time_eq himage
  have hlength : (h.track id limits).length = run.length := by
    simpa using congrArg List.length himage
  refine ⟨⟨run, hrun, himage⟩, htimes ▸ hrun.pairwise_time, ?_, ?_, ?_, ?_⟩
  · intro hstrict
    exact htimes ▸ hrun.pairwise_time_of_not_equalTimes hstrict
  · intro newest hnewest p hp
    have htime : p.time ∈ run.map Movement.time :=
      htimes ▸ List.mem_map_of_mem hp
    obtain ⟨m, hm, hsame⟩ := List.mem_map.mp htime
    have hle := hrun.time_le hnewest hm
    have hrecent := hrun.recent newest hnewest m hm
    omega
  · calc (h.track id limits).length
        = run.length := hlength
      _ ≤ h.newestFirst.length := hrun.initial.length_le
      _ = h.count := h.length_newestFirst
      _ ≤ h.capacity := h.count_le
  · rw [← hrun.eq_nil_iff hhorizon, ← List.length_eq_zero_iff, hlength,
      List.length_eq_zero_iff]

/-- Four slots that are used a second time; pointer 1 is shown twice at one
time. -/
def reusedSlots : History Nat :=
  (ofCapacity 4 (by decide)).after
    [.append ⟨0, {1}, [⟨9, 9⟩], by decide⟩,
      .append ⟨40, {1}, [⟨2, 1⟩], by decide⟩,
      .append ⟨60, {1}, [⟨4, 3⟩], by decide⟩,
      .append ⟨70, .ofList [1, 2], [⟨5, 6⟩, ⟨8, 8⟩], by decide⟩,
      .append ⟨70, {1}, [⟨7, 7⟩], by decide⟩]

theorem track_longestRun_reusedSlots :
    0 ≤ (⟨20, true⟩ : TrackLimits).horizon ∧
      ∃ run, reusedSlots.IsLongestRun 1 ⟨20, true⟩ run ∧
        run.map (·.point? 1) =
          [some ⟨70, ⟨7, 7⟩⟩, some ⟨70, ⟨5, 6⟩⟩, some ⟨60, ⟨4, 3⟩⟩] := by
  obtain ⟨⟨run, hrun, himage⟩, -⟩ :=
    reusedSlots.track_longestRun 1
      (by decide : 0 ≤ (⟨20, true⟩ : TrackLimits).horizon)
  refine ⟨by decide, run, hrun, himage.symm.trans ?_⟩
  decide

end History

end PointerMotion
