/-
What the next estimate of a pointer is made from, and how movements change it.
A track behind a new sample is cut from the track before it, since what is once
cut off stays cut off.
-/
import PointerMotion.Proofs.Sight

namespace PointerMotion

variable {α : Type}

namespace TrackLimits

theorem cutBehind_take (limits : TrackLimits) (newest later : Int) (count : Nat)
    (points : List (TrackPoint α)) :
    limits.cutBehind newest later (points.take count) =
      (limits.cutBehind newest later points).take count := by
  induction points generalizing later count with
  | nil => simp [cutBehind]
  | cons p rest ih =>
      cases count with
      | zero => simp [cutBehind]
      | succ count =>
          rw [List.take_succ_cons, cutBehind, cutBehind, ih]
          split <;> simp

/-- Cutting the points cuts their track. -/
theorem cut_take (limits : TrackLimits) (count : Nat)
    (points : List (TrackPoint α)) :
    limits.cut (points.take count) = (limits.cut points).take count := by
  cases points with
  | nil => simp [cut]
  | cons p rest =>
      cases count with
      | zero => simp [cut]
      | succ count =>
          rw [List.take_succ_cons, cut, cut, cutBehind_take]
          split <;> simp

/-- What was cut off for an earlier newest time is cut off for a later one
too. -/
theorem cutBehind_cutBehind (limits : TrackLimits) {earlier newest : Int}
    (h : earlier ≤ newest) (later : Int) (points : List (TrackPoint α)) :
    limits.cutBehind newest later (limits.cutBehind earlier later points) =
      limits.cutBehind newest later points := by
  induction points generalizing later with
  | nil => rfl
  | cons p rest ih =>
      by_cases hkept : (earlier - p.time ≤ limits.horizon &&
          limits.follows later p.time) = true
      · rw [cutBehind, if_pos hkept, cutBehind, cutBehind, ih]
      -- the horizon only moves forward, so the first point cut off stays cut
      -- off
      · have hcut : ¬ (newest - p.time ≤ limits.horizon &&
              limits.follows later p.time) = true := by
          simp only [Bool.and_eq_true, decide_eq_true_eq] at hkept ⊢
          rintro ⟨hage, hfollows⟩
          exact hkept ⟨by omega, hfollows⟩
        rw [cutBehind, if_neg hkept, cutBehind, cutBehind, if_neg hcut]

theorem le_of_follows {limits : TrackLimits} {later time : Int}
    (h : limits.follows later time = true) : time ≤ later := by
  simp only [follows, Bool.or_eq_true, decide_eq_true_eq, Bool.and_eq_true,
    beq_iff_eq] at h
  omega

theorem mem_of_mem_cutBehind {limits : TrackLimits} {newest later : Int}
    {p : TrackPoint α} {points : List (TrackPoint α)}
    (h : p ∈ limits.cutBehind newest later points) : p ∈ points := by
  induction points generalizing later with
  | nil => exact h
  | cons q rest ih =>
      rw [cutBehind] at h
      split at h
      · rcases List.mem_cons.mp h with rfl | hrest
        · exact List.mem_cons_self
        · exact List.mem_cons_of_mem q (ih hrest)
      · cases h

theorem mem_of_mem_cut {limits : TrackLimits} {p : TrackPoint α}
    {points : List (TrackPoint α)} (h : p ∈ limits.cut points) :
    p ∈ points := by
  cases points with
  | nil => exact h
  | cons q rest =>
      rw [cut] at h
      split at h
      · rcases List.mem_cons.mp h with rfl | hrest
        · exact List.mem_cons_self
        · exact List.mem_cons_of_mem q (mem_of_mem_cutBehind hrest)
      · cases h

theorem isChain_cons_cutBehind (limits : TrackLimits) (newest : Int)
    (p : TrackPoint α) (points : List (TrackPoint α)) :
    (p :: limits.cutBehind newest p.time points).IsChain
      fun later q => limits.follows later.time q.time = true := by
  induction points generalizing p with
  | nil => exact .singleton p
  | cons q rest ih =>
      rw [cutBehind]
      split
      next hkept => exact .cons_cons (Bool.and_eq_true_iff.mp hkept).2 (ih q)
      next => exact .singleton p

/-- Every point of a track may stand behind the one before it. -/
theorem isChain_cut (limits : TrackLimits) (points : List (TrackPoint α)) :
    (limits.cut points).IsChain fun later q =>
      limits.follows later.time q.time = true := by
  cases points with
  | nil => exact .nil
  | cons p rest =>
      rw [cut]
      split
      · exact isChain_cons_cutBehind limits p.time p rest
      · exact .nil

theorem cut_eq_nil_of_neg {limits : TrackLimits} (h : ¬ 0 ≤ limits.horizon)
    (points : List (TrackPoint α)) : limits.cut points = [] := by
  cases points with
  | nil => rfl
  | cons p rest => rw [cut, if_neg h]

/-- A track behind a new point is cut from the track before. -/
theorem cut_cons_cut (limits : TrackLimits) (p : TrackPoint α)
    (points : List (TrackPoint α)) :
    limits.cut (p :: limits.cut points) = limits.cut (p :: points) := by
  by_cases hhorizon : 0 ≤ limits.horizon
  · cases points with
    | nil => rfl
    | cons q rest =>
        rw [cut, cut, cut, if_pos hhorizon, if_pos hhorizon, if_pos hhorizon,
          cutBehind, cutBehind]
        split
        next hkept =>
          -- a point that follows is not newer, so the later cut is the sharper
          -- one
          have hle : q.time ≤ p.time :=
            le_of_follows (Bool.and_eq_true_iff.mp hkept).2
          rw [cutBehind_cutBehind limits hle]
        next => rfl
  · rw [cut_eq_nil_of_neg hhorizon, cut_eq_nil_of_neg hhorizon]

/-- A point that takes the place of the newest one leaves the rest of the
track. -/
theorem cut_cons_tail_cut (limits : TrackLimits) {p q : TrackPoint α}
    (h : q.time = p.time) (rest : List (TrackPoint α)) :
    limits.cut (p :: (limits.cut (q :: rest)).tail) =
      limits.cut (p :: rest) := by
  by_cases hhorizon : 0 ≤ limits.horizon
  · rw [cut, cut, cut, if_pos hhorizon, if_pos hhorizon, if_pos hhorizon,
      List.tail_cons, h, cutBehind_cutBehind limits (Int.le_refl _)]
  · rw [cut_eq_nil_of_neg hhorizon, cut_eq_nil_of_neg hhorizon]

end TrackLimits

/-- What the next estimate of a pointer is made from. -/
inductive Trail (α : Type) where
  | ofTrack (plan : TrackPlan) (capacity : Nat) (track : List (TrackPoint α))
  | filter (order : Filter.Order) (motion? : Option (Filter.Motion α))

namespace Trail

/-- The trail of a pointer that nothing is known of. -/
def lost : Trail α → Trail α
  | ofTrack plan capacity _ => ofTrack plan capacity []
  | filter order _ => filter order none

/-- Whether anything is known of the pointer. -/
def found : Trail α → Bool
  | ofTrack _ _ track => !track.isEmpty
  | filter _ motion? => motion?.isSome

@[simp] theorem lost_lost (v : Trail α) : v.lost.lost = v.lost := by
  cases v <;> rfl

@[simp] theorem found_lost (v : Trail α) : v.lost.found = false := by
  cases v <;> rfl

theorem lost_of_not_found {v : Trail α} (h : ¬ v.found = true) :
    v.lost = v := by
  cases v <;> simp_all [found, lost]

variable [Scalar α]

/-- The trail after a movement that shows `g` of the pointer; `merges` says
whether the movement takes the place of the newest one. -/
def moved (merges : Bool) (g : Glimpse α) : Trail α → Trail α
  | ofTrack plan capacity track =>
      match g.position? with
      | none => ofTrack plan capacity []
      | some p =>
          let points :=
            if merges then ⟨g.time, p⟩ :: track.tail
            else (⟨g.time, p⟩ :: track).take capacity
          ofTrack plan capacity (plan.limits.cut points)
  | filter order motion? =>
      filter order (g.position?.map fun p =>
          Filter.Motion.next order g.time p motion?)

theorem moved_of_position?_eq_none {g : Glimpse α} (h : g.position? = none)
    (merges : Bool) (v : Trail α) : v.moved merges g = v.lost := by
  cases v <;> simp [moved, lost, h]

def estimate : Trail α → Option (Estimator α)
  | ofTrack plan _ track => plan.estimate track
  | filter order motion? => motion?.map (·.estimator order)

theorem estimate_lost (v : Trail α) : v.lost.estimate = none := by
  cases v with
  | ofTrack plan capacity track => cases plan <;> rfl
  | filter order motion? => rfl

end Trail

theorem TrackPlan.horizon_nonneg (plan : TrackPlan) :
    0 ≤ plan.limits.horizon := by
  cases plan with
  | regression plan => exact (by decide : 0 ≤ Regression.limits.horizon)
  | impulse => decide
  | average => decide

/-- Whether a movement of a plan takes the place of one of the same time before
it. -/
def Plan.mergesEqualTimes : Plan → Bool
  | .ofTrack plan => plan.mergesEqualTimes
  | .filter _ => false

/-- A pointer has a track when the latest glimpse has its position. -/
theorem cut_streak_eq_nil_iff {limits : TrackLimits} (h : 0 ≤ limits.horizon)
    (glimpses : List (Glimpse α)) :
    limits.cut (streak glimpses) = [] ↔ ∀ g, glimpses.head? = some g →
      g.position? = none := by
  cases glimpses with
  | nil => simp [streak, TrackLimits.cut]
  | cons g rest =>
      rcases g with ⟨time, _ | p⟩
      · simp [TrackLimits.cut]
      · simp [TrackLimits.cut, h]

namespace Sight

/-- What the next estimate is made from. -/
def trail : Sight α → Trail α
  | ofTrack plan capacity glimpses =>
      .ofTrack plan capacity (plan.limits.cut (streak glimpses))
  | filter order motion? => .filter order motion?

/-- The time of a movement that would take the place of the newest one. -/
def mergedTime? : Sight α → Option Int
  | ofTrack plan _ glimpses =>
      if plan.mergesEqualTimes then glimpses.head?.map Glimpse.time else none
  | filter _ _ => none

/-- Whether a movement of a time takes the place of the newest one. -/
def merges (v : Sight α) (time : Int) : Bool :=
  v.mergedTime? == some time

theorem merges_ofTrack_iff {plan : TrackPlan} {capacity : Nat}
    {glimpses : List (Glimpse α)} {time : Int} :
    (ofTrack plan capacity glimpses).merges time = true ↔
      plan.mergesEqualTimes = true ∧
      glimpses.head?.map Glimpse.time = some time := by
  cases h : plan.mergesEqualTimes <;> simp [merges, mergedTime?, h]

@[simp] theorem trail_cleared (v : Sight α) :
    v.cleared.trail = v.trail.lost := by
  cases v <;> rfl

@[simp] theorem mergedTime?_cleared (v : Sight α) :
    v.cleared.mergedTime? = none := by
  cases v <;> simp [cleared, mergedTime?]

@[simp] theorem trail_forgotten (v : Sight α) :
    v.forgotten.trail = v.trail.lost := by
  cases v with
  | ofTrack plan capacity glimpses => cases glimpses <;> rfl
  | filter order motion? => rfl

@[simp] theorem mergedTime?_forgotten (v : Sight α) :
    v.forgotten.mergedTime? = v.mergedTime? := by
  cases v with
  | ofTrack plan capacity glimpses => cases glimpses <;> rfl
  | filter order motion? => rfl

variable [Scalar α]

theorem estimate_eq_trail (v : Sight α) : v.estimate = v.trail.estimate := by
  cases v <;> rfl

/-- A movement without the pointer loses its trail. -/
theorem trail_seeing_of_none {g : Glimpse α} (h : g.position? = none)
    (v : Sight α) :
    (v.seeing g).trail = v.trail.lost := by
  rcases g with ⟨time, position?⟩
  simp only at h
  subst h
  cases v with
  | ofTrack plan capacity glimpses =>
      have hnil : streak (Strategy.recordGlimpse plan capacity ⟨time, none⟩
            glimpses) = [] := by
        rw [Strategy.recordGlimpse]
        split
        · rfl
        · rw [streak_take]
          exact List.take_nil
      simp [seeing, trail, Trail.lost, hnil, TrackLimits.cut]
  | filter order motion? => rfl

/-- The next trail follows from the trail before, unless a lacking newest
movement is replaced. -/
theorem trail_seeing {v : Sight α} {g : Glimpse α}
    (h : v.merges g.time = true → v.trail.found = true) :
    (v.seeing g).trail = v.trail.moved (v.merges g.time) g := by
  rcases g with ⟨time, _ | p⟩
  · rw [trail_seeing_of_none rfl, Trail.moved_of_position?_eq_none rfl]
  cases v with
  | filter order motion? => rfl
  | ofTrack plan capacity glimpses =>
      have hmerges := @merges_ofTrack_iff _ plan capacity glimpses time
      simp only [seeing, trail, Trail.moved, Strategy.recordGlimpse,
        Trail.ofTrack.injEq, true_and]
      by_cases hmerge : (ofTrack plan capacity glimpses).merges time = true
      · rw [if_pos hmerge, if_pos (hmerges.mp hmerge)]
        -- the glimpse that is replaced has a position, so the streak goes on
        -- behind it
        have hfound : plan.limits.cut (streak glimpses) ≠ [] := by
          simpa [trail, Trail.found] using h hmerge
        cases glimpses with
        | nil => exact absurd rfl hfound
        | cons newest rest =>
            rcases newest with ⟨newestTime, _ | q⟩
            · exact absurd rfl hfound
            · have htime : newestTime = time := by
                simpa using (hmerges.mp hmerge).2
              rw [List.tail_cons, streak_cons_some, streak_cons_some]
              exact (TrackLimits.cut_cons_tail_cut _ htime _).symm
      · rw [if_neg hmerge, if_neg (fun hcond => hmerge (hmerges.mpr hcond)),
          streak_take, streak_cons_some, TrackLimits.cut_take,
          TrackLimits.cut_take, TrackLimits.cut_cons_cut]

end Sight

namespace Strategy

/-- What the next estimate of a pointer is made from. -/
def trail (s : Strategy α) (id : PointerId) : Trail α :=
  (s.sight id).trail

theorem plan_eq_of_trail_eq {s t : Strategy α} {id : PointerId}
    (h : s.trail id = t.trail id) :
    s.plan = t.plan := by
  cases s <;> cases t <;> simp_all [trail, sight, Sight.trail, plan]

@[simp] theorem trail_clear (s : Strategy α) (id : PointerId) :
    s.clear.trail id = (s.trail id).lost := by
  rw [trail, sight_clear, Sight.trail_cleared, trail]

theorem trail_clearPointers (s : Strategy α) (gone : PointerSet)
    (id : PointerId) :
    (s.clearPointers gone).trail id =
      if id ∈ gone then (s.trail id).lost else s.trail id := by
  rw [trail, sight_clearPointers]
  split
  · rw [Sight.trail_forgotten, trail]
  · rfl

@[simp] theorem mergedTime?_clearPointers (s : Strategy α) (gone : PointerSet)
    (id : PointerId) :
    ((s.clearPointers gone).sight id).mergedTime? =
      (s.sight id).mergedTime? := by
  rw [sight_clearPointers]
  split
  · exact Sight.mergedTime?_forgotten _
  · rfl

variable [Scalar α]

theorem estimate_eq_trail (s : Strategy α) (id : PointerId) :
    s.estimate id = (s.trail id).estimate := by
  rw [estimate_eq, Sight.estimate_eq_trail, trail]

omit [Scalar α] in
theorem head?_recordGlimpse (plan : TrackPlan) {capacity : Nat}
    (h : 0 < capacity) (g : Glimpse α) (glimpses : List (Glimpse α)) :
    (recordGlimpse plan capacity g glimpses).head? = some g := by
  rw [recordGlimpse]
  split
  · rfl
  · rw [List.head?_take, if_neg (Nat.ne_of_gt h)]
    rfl

theorem mergedTime?_sight_ofPlan (plan : Plan) (id : PointerId) :
    ((ofPlan plan : Strategy α).sight id).mergedTime? = none := by
  rw [sight_ofPlan]
  cases plan <;> simp [Sight.unseen, Sight.mergedTime?]

theorem trail_ofPlan_ofTrack (plan : TrackPlan) (id : PointerId) :
    (ofPlan (.ofTrack plan) : Strategy α).trail id =
      .ofTrack plan TrackPlan.historySize [] := by
  rw [trail, sight_ofPlan]
  rfl

theorem trail_ofPlan_filter (order : Filter.Order) (id : PointerId) :
    (ofPlan (.filter order) : Strategy α).trail id = .filter order none := by
  rw [trail, sight_ofPlan]
  rfl

theorem found_trail_ofPlan (plan : Plan) (id : PointerId) :
    ((ofPlan plan : Strategy α).trail id).found = false := by
  cases plan with
  | ofTrack plan => rw [trail_ofPlan_ofTrack]; rfl
  | filter order => rw [trail_ofPlan_filter]; rfl

/-- A movement keeps what is common to all trails of a strategy. -/
theorem lost_trail_addMovement (s : Strategy α) (m : Movement α)
    (id : PointerId) :
    ((s.addMovement m).state.trail id).lost = (s.trail id).lost := by
  cases s with
  | ofTrack plan history =>
      rw [addMovement_ofTrack]
      simp [Outcome.map, trail, sight, Sight.trail, Trail.lost]
  | filter order table => rfl

/-- After a movement its time is the one that the plan would merge. -/
theorem mergedTime?_addMovement {s : Strategy α} {m : Movement α}
    (hok : (s.addMovement m).error = none) (id : PointerId) :
    ((s.addMovement m).state.sight id).mergedTime? =
      if s.plan.mergesEqualTimes then some m.time else none := by
  rw [sight_addMovement hok]
  cases s with
  | ofTrack plan history =>
      simp only [sight, Sight.seeing, Sight.mergedTime?,
        head?_recordGlimpse plan history.capacity_pos]
      rfl
  | filter order table => rfl

/-- After a movement the pointers with a trail are those that it shows. -/
theorem found_trail_addMovement {s : Strategy α} {m : Movement α}
    (hok : (s.addMovement m).error = none) (id : PointerId) :
    ((s.addMovement m).state.trail id).found = true ↔ id ∈ m.ids := by
  rw [trail, sight_addMovement hok, ← Movement.isSome_position? (m := m)]
  cases s with
  | ofTrack plan history =>
      have hnil := cut_streak_eq_nil_iff plan.horizon_nonneg
        (recordGlimpse plan history.capacity (m.glimpse id)
            (history.glimpses id))
      simp only [head?_recordGlimpse plan history.capacity_pos,
        Option.some.injEq, forall_eq'] at hnil
      simp only [sight, Sight.seeing, Sight.trail, Trail.found,
        Bool.not_eq_true', List.isEmpty_eq_false_iff, ne_eq, hnil]
      exact Option.isSome_iff_ne_none.symm
  | filter order table =>
      simp [sight, Sight.seeing, Sight.trail, Trail.found, Movement.glimpse]

end Strategy

end PointerMotion
