/-
The two coordinates.  A coordinate of an estimate is the same wherever that
coordinate of the positions is, be it the other one of them or on another
clock.
-/
import PointerMotion.Proofs.Lockstep
import PointerMotion.Regression.Lemmas

namespace PointerMotion

variable {α : Type}

inductive Coordinate where
  | x
  | y
  deriving DecidableEq

def Position.along (p : Position α) : Coordinate → α
  | .x => p.x
  | .y => p.y

theorem Position.eq_of_along {p q : Position α}
    (h : ∀ c, p.along c = q.along c) : p = q := by
  obtain ⟨px, py⟩ := p
  obtain ⟨qx, qy⟩ := q
  have hx : px = qx := h .x
  have hy : py = qy := h .y
  rw [hx, hy]

def Estimator.along (e : Estimator α) : Coordinate → Quartic α
  | .x => e.x
  | .y => e.y

namespace Filter

def Motion.along (m : Motion α) : Coordinate → Axis α
  | .x => m.x
  | .y => m.y

variable [Scalar α]

@[simp] theorem Motion.along_resting (time : Int) (p : Position α)
    (c : Coordinate) :
    (Motion.resting time p).along c = .resting (p.along c) := by
  cases c <;> rfl

@[simp] theorem Motion.along_advance (order : Order) (time : Int)
    (p : Position α) (m : Motion α) (c : Coordinate) :
    (m.advance order time p).along c =
      (m.along c).advance order m.measured (Estimator.seconds (time - m.time))
        (p.along c) := by
  cases c <;> rfl

@[simp] theorem Motion.along_estimator (order : Order) (m : Motion α)
    (c : Coordinate) :
    (m.estimator order).along c = (m.along c).coefficients order := by
  cases c <;> rfl

end Filter

namespace Regression

def Samples.along (s : Samples α) : Coordinate → List α
  | .x => s.xs
  | .y => s.ys

def Model.along (m : Model α) : Coordinate → Fit.Solution α
  | .x => m.x
  | .y => m.y

variable [Scalar α]

theorem Samples.along_ofTrack (weighting : Weighting) (newest : Int)
    (track : List (TrackPoint α)) (c : Coordinate) :
    (ofTrack weighting newest track).along c = track.map fun p =>
      p.position.along c := by
  cases c <;> rfl

/-- The best model fits each coordinate by itself. -/
theorem Samples.solve?_of_best? {s : Samples α} {most : Nat} {m : Model α}
    (hfound : s.best? most = some m) (c : Coordinate) :
    Fit.solve? s.times (s.along c) s.weights (m.degree + 1) =
      some (m.along c) := by
  obtain ⟨-, -, hfit⟩ := best?_eq_some hfound
  obtain ⟨hfitX, hfitY⟩ := fit?_eq_some hfit
  cases c with
  | x => exact hfitX
  | y => exact hfitY

theorem Model.along_estimator (m : Model α) (time : Int) (c : Coordinate) :
    (m.estimator time).along c =
      Quartic.ofList (toSeconds (m.along c).coefficients) := by
  cases c <;> rfl

theorem along_standing (p : TrackPoint α) (c : Coordinate) :
    (standing p).along c = { Quartic.zero with c0 := p.position.along c } := by
  cases c <;> rfl

end Regression

/-- The estimator of a pointer that has a velocity along each coordinate. -/
def Estimator.moving [Scalar α] (newest : TrackPoint α)
    (velocity : Coordinate → α) :
    Estimator α :=
  { time := newest.time
    degree := 1
    confidence := 1.0
    x := { Quartic.zero with c0 := newest.position.x, c1 := velocity .x }
    y := { Quartic.zero with c0 := newest.position.y, c1 := velocity .y } }

theorem Estimator.along_moving [Scalar α] (newest : TrackPoint α)
    (velocity : Coordinate → α) (c : Coordinate) :
    (moving newest velocity).along c =
      { Quartic.zero with
          c0 := newest.position.along c, c1 := velocity c } := by
  cases c <;> rfl

theorem Impulse.estimate_cons_cons [Scalar α] (newest second : TrackPoint α)
    (rest : List (TrackPoint α)) :
    estimate (newest :: second :: rest) = some (.moving newest fun c =>
      velocity (axis (fun p => p.along c) (newest :: second :: rest))) :=
  rfl

theorem Average.estimate_of_reverse [Scalar α] {newest oldest : TrackPoint α}
    {rest later : List (TrackPoint α)}
    (h : (newest :: rest).reverse = oldest :: later) :
    estimate (newest :: rest) =
      if (partners oldest.time later).isEmpty then some .cleared
      else some (.moving newest fun c =>
        velocity (fun p => p.along c) oldest (partners oldest.time later)) := by
  simp only [estimate, h]
  rfl

variable [Scalar α] {delay : Int}
    {same : PointerId → Coordinate → Coordinate → Prop} {id : PointerId}

/-- What corresponds has some coordinates of each pointer in common, on clocks
of which one is ahead. -/
def Correspondence.sharing (delay : Int)
    (same : PointerId → Coordinate → Coordinate → Prop) :
    Correspondence α where
  delay := delay
  position := fun id p q => ∀ a b, same id a b → p.along a = q.along b
  motion := fun id m n => n.time = m.time + delay ∧ n.measured = m.measured ∧
    ∀ a b, same id a b → m.along a = n.along b
  time := And.left
  resting := by
    intro id p q hp time
    refine ⟨rfl, rfl, ?_⟩
    intro a b hab
    rw [Filter.Motion.along_resting, Filter.Motion.along_resting, hp a b hab]
  placed := by
    intro id m n p q hmotion hp
    refine ⟨hmotion.1, hmotion.2.1, ?_⟩
    intro a b hab
    have hposition := congrArg Filter.Axis.resting (hp a b hab)
    cases a <;> cases b <;> exact hposition
  advance := by
    rintro id m n p q ⟨htime, hmeasured, hmotion⟩ hp order time
    refine ⟨rfl, ?_, ?_⟩
    · simp only [Filter.Motion.advance, hmeasured]
    · intro a b hab
      have helapsed : time + delay - n.time = time - m.time := by
        rw [htime]
        omega
      rw [Filter.Motion.along_advance, Filter.Motion.along_advance, helapsed,
        hmeasured, hmotion a b hab, hp a b hab]

/-- Estimators of a plan that have coordinates in common, on clocks of which one
is ahead. -/
structure Estimator.Shares (plan : Plan) (delay : Int)
    (same : Coordinate → Coordinate → Prop) (e e' : Estimator α) : Prop where
  /-- an average that knows nothing has no time -/
  timeless : plan = .ofTrack .average ∧ e.degree = 0 → e.time = 0
  time : e'.time = if plan = .ofTrack .average ∧
    e.degree = 0 then 0 else e.time + delay
  degree : e'.degree = e.degree
  along : ∀ a b, same a b → e.along a = e'.along b
  /-- the confidence of a regression is that of both coordinates together -/
  confidence : ((∃ r, plan = .ofTrack (.regression r)) → ∀ a, same a a) →
    e'.confidence = e.confidence

theorem Estimator.Shares.moving {p q : TrackPoint α}
    (h : p.Matched (.sharing delay same) id q)
    {velocity velocity' : Coordinate → α}
    (hvelocity : ∀ a b, same id a b → velocity a = velocity' b) (plan : Plan) :
    (Estimator.moving p velocity).Shares plan delay (same id)
      (.moving q velocity') where
  timeless := fun hzero => absurd hzero.2 (by decide : ¬ (1 : Int) = 0)
  time := by
    rw [if_neg fun hzero => absurd hzero.2 (by decide : ¬ (1 : Int) = 0)]
    exact h.time
  degree := rfl
  along := by
    intro a b hab
    rw [along_moving, along_moving, h.position a b hab, hvelocity a b hab]
  confidence := fun _ => rfl

theorem map_eq_map_of_forall₂ {β γ : Type} {related : β → β → Prop}
    {f g : β → γ} {left right : List β} (h : List.Forall₂ related left right)
    (hfg : ∀ b b', related b b' → f b = g b') : left.map f = right.map g := by
  rw [← List.forall₂_eq_eq_eq, List.forall₂_map_left_iff,
    List.forall₂_map_right_iff]
  exact h.imp hfg

section Tracks

variable {track track' : List (TrackPoint α)} {a b : Coordinate}

namespace Impulse

omit [Scalar α] in
def Sample.delayed (delay : Int) (s : Sample α) : Sample α :=
  { s with time := s.time + delay }

theorem axis_of_matched
    (h : List.Forall₂ (TrackPoint.Matched (.sharing delay same) id)
      track track') (hab : same id a b) :
    axis (fun p => p.along b) track' =
      (axis (fun p => p.along a) track).map (Sample.delayed delay) := by
  rw [axis, axis, List.map_map]
  refine (map_eq_map_of_forall₂ h ?_).symm
  intro p q hpq
  rw [hpq.time, ← hpq.position a b hab]
  rfl

@[simp] theorem workAfter_delayed (delay : Int) (work : α)
    (older newer : Sample α) :
    workAfter work (older.delayed delay) (newer.delayed delay) =
      workAfter work older newer := by
  simp only [workAfter, intervalVelocity, Sample.delayed, Int.add_sub_add_right,
    Int.add_left_inj]

theorem workThrough_delayed (delay : Int) (work : α)
    (samples : List (Sample α)) :
    workThrough work (samples.map (Sample.delayed delay)) =
      workThrough work samples := by
  induction samples generalizing work with
  | nil => rfl
  | cons older later ih =>
      cases later with
      | nil => rfl
      | cons newer rest =>
          simp only [List.map_cons, workThrough, workAfter_delayed]
          exact ih _

theorem totalWork_delayed (delay : Int) (samples : List (Sample α)) :
    totalWork (samples.map (Sample.delayed delay)) = totalWork samples := by
  match samples with
  | [] | [_] => rfl
  | older :: newer :: rest =>
      have hsame : (older.delayed delay).time = (newer.delayed delay).time ↔
          older.time = newer.time := Int.add_left_inj delay
      simp only [List.map_cons, totalWork, workAfter_delayed, hsame]
      exact workThrough_delayed delay _ (newer :: rest)

/-- Only the intervals between samples count for the velocity. -/
theorem velocity_delayed (delay : Int) (samples : List (Sample α)) :
    velocity (samples.map (Sample.delayed delay)) = velocity samples := by
  match samples with
  | [] | [_] => rfl
  | [newer, older] =>
      simp only [List.map_cons, List.map_nil, velocity, intervalVelocity,
        Sample.delayed, Int.add_sub_add_right, Int.add_left_inj]
  | newest :: newer :: older :: rest =>
      have htotal :=
        totalWork_delayed delay (newest :: newer :: older :: rest).reverse
      rw [List.map_reverse] at htotal
      simp only [List.map_cons] at htotal
      simp only [List.map_cons, velocity, htotal, List.length_cons,
        List.length_map]

theorem estimate_of_matched
    (h : List.Forall₂ (TrackPoint.Matched (.sharing delay same) id)
      track track') :
    Option.Rel (Estimator.Shares (.ofTrack .impulse) delay (same id))
      (estimate track) (estimate track') := by
  cases h with
  | nil => exact .none
  | @cons newest newest' rest rest' hnewest hrest =>
      cases hrest with
      | nil => exact .none
      | @cons second second' rest rest' hsecond hrest =>
          rw [estimate_cons_cons, estimate_cons_cons]
          refine .some (Estimator.Shares.moving hnewest ?_ _)
          intro a b hab
          rw [axis_of_matched (.cons hnewest (.cons hsecond hrest)) hab,
            velocity_delayed]

end Impulse

namespace Average

variable {p q : TrackPoint α}

theorem partners_of_matched (holdest : p.Matched (.sharing delay same) id q)
    (h : List.Forall₂ (TrackPoint.Matched (.sharing delay same) id)
      track track') :
    List.Forall₂ (TrackPoint.Matched (.sharing delay same) id)
      (partners p.time track) (partners q.time track') := by
  refine List.rel_filter ?_ h
  intro r r' hr
  have hduration : r'.time - q.time = r.time - p.time := by
    rw [hr.time, holdest.time]
    omega
  simp only [hduration]

theorem velocity_of_matched (holdest : p.Matched (.sharing delay same) id q)
    (h : List.Forall₂ (TrackPoint.Matched (.sharing delay same) id)
      track track') (hab : same id a b) :
    velocity (fun p => p.along a) p track =
      velocity (fun p => p.along b) q track' := by
  apply congrArg Running.velocity
  refine List.rel_foldl (P := Eq) ?_ rfl h
  rintro running _ rfl r r' hr
  have hduration : r'.time - q.time = r.time - p.time := by
    rw [hr.time, holdest.time]
    omega
  simp only [hduration, holdest.position a b hab, hr.position a b hab]

theorem estimate_of_matched
    (h : List.Forall₂ (TrackPoint.Matched (.sharing delay same) id)
      track track') :
    Option.Rel (Estimator.Shares (.ofTrack .average) delay (same id))
      (estimate track) (estimate track') := by
  cases h with
  | nil => exact .none
  | @cons newest newest' rest rest' hnewest hrest =>
      have hreverse := List.rel_reverse (.cons hnewest hrest)
      generalize htrack : (newest :: rest).reverse = backward at hreverse
      generalize htrack' : (newest' :: rest').reverse = backward' at hreverse
      cases hreverse with
      | nil =>
          exact absurd htrack
            (List.reverse_ne_nil_iff.mpr (List.cons_ne_nil _ _))
      | @cons oldest oldest' later later' holdest hlater =>
          have hpairs := partners_of_matched holdest hlater
          have hempty : (partners oldest'.time later').isEmpty =
              (partners oldest.time later).isEmpty := by
            rw [Bool.eq_iff_iff, List.isEmpty_iff_length_eq_zero,
              List.isEmpty_iff_length_eq_zero, hpairs.length_eq]
          rw [estimate_of_reverse htrack, estimate_of_reverse htrack', hempty]
          split
          · exact .some
              ⟨fun _ => rfl, rfl, rfl,
                fun a b _ => by cases a <;> cases b <;> rfl, fun _ => rfl⟩
          · exact .some (Estimator.Shares.moving hnewest
              (fun a b hab => velocity_of_matched holdest hpairs hab) _)

end Average

namespace Regression

theorem Samples.ofTrack_of_matched (weighting : Weighting)
    {newest newest' : Int} (hnewest : newest' = newest + delay)
    (h : List.Forall₂ (TrackPoint.Matched (.sharing delay same) id)
      track track') :
    (ofTrack weighting newest' track').times =
      (ofTrack weighting newest track).times ∧
      (ofTrack weighting newest' track').weights =
        (ofTrack weighting newest track).weights ∧
      ∀ a b, same id a b →
        (ofTrack weighting newest track).along a =
          (ofTrack weighting newest' track').along b := by
  have hages : (ages newest' track' : List α) = ages newest track := by
    refine (map_eq_map_of_forall₂ h ?_).symm
    intro p q hpq
    have htime : q.time = p.time + delay := hpq.time
    rw [htime, hnewest, Int.add_sub_add_right]
  refine ⟨congrArg (List.map horizons) hages,
    congrArg (fun ages : List α => weighting.weights (ages.map millis)) hages,
    ?_⟩
  intro a b hab
  rw [along_ofTrack, along_ofTrack]
  exact map_eq_map_of_forall₂ h fun p q hpq => hpq.position a b hab

/-- A regression of matched tracks has one degree, and fits what they share
alike. -/
theorem estimate_of_matched (plan : Plan)
    (h : List.Forall₂ (TrackPoint.Matched (.sharing delay same) id)
      track track') :
    Option.Rel (Estimator.Shares (.ofTrack (.regression plan)) delay (same id))
      (estimate plan track) (estimate plan track') := by
  have htimeless : ∀ degree : Int,
      ¬ (PointerMotion.Plan.ofTrack (.regression plan) = .ofTrack .average ∧
      degree = 0) := by
    intro degree hplan
    cases hplan.1
  cases h with
  | nil => exact .none
  | @cons newest newest' rest rest' hnewest hrest =>
      obtain ⟨htimes, hweights, halong⟩ :=
        Samples.ofTrack_of_matched plan.weighting hnewest.time
          (.cons hnewest hrest)
      have hlength := (List.Forall₂.cons hnewest hrest).length_eq
      have hdegree := Samples.degree_best?_congr htimes hweights
        (min plan.degree.val ((newest :: rest).length - 1))
      simp only [estimate, ← hlength]
      cases hbest :
        (Samples.ofTrack plan.weighting newest.time (newest :: rest)).best?
          (min plan.degree.val ((newest :: rest).length - 1)) with
      | none =>
          rw [hbest, Option.map_none, Option.map_eq_none_iff] at hdegree
          rw [hdegree]
          refine .some ⟨fun hzero => absurd hzero (htimeless _), ?_, rfl,
            ?_, fun _ => rfl⟩
          · rw [if_neg (htimeless _)]
            exact hnewest.time
          · intro a b hab
            rw [along_standing, along_standing, hnewest.position a b hab]
      | some m =>
          rw [hbest, Option.map_some, Option.map_eq_some_iff] at hdegree
          obtain ⟨m', hbest', hm⟩ := hdegree
          have hfits : ∀ a b, same id a b → m.along a = m'.along b := by
            intro a b hab
            have hleft := Samples.solve?_of_best? hbest a
            have hright := Samples.solve?_of_best? hbest' b
            rw [htimes, hweights, hm, ← halong a b hab, hleft] at hright
            exact Option.some.inj hright
          rw [hbest']
          refine .some
            ⟨fun hzero => absurd hzero (htimeless _), ?_,
              congrArg Int.ofNat hm, ?_, ?_⟩
          · rw [if_neg (htimeless _)]
            exact hnewest.time
          · intro a b hab
            rw [Model.along_estimator, Model.along_estimator, hfits a b hab]
          · intro hboth
            have hx : m.x = m'.x := hfits .x .x (hboth ⟨plan, rfl⟩ .x)
            have hy : m.y = m'.y := hfits .y .y (hboth ⟨plan, rfl⟩ .y)
            rw [Model.estimator, Model.estimator, hx, hy]

end Regression

theorem TrackPlan.estimate_of_matched (plan : TrackPlan)
    (h : List.Forall₂ (TrackPoint.Matched (.sharing delay same) id)
      track track') :
    Option.Rel (Estimator.Shares (.ofTrack plan) delay (same id))
      (plan.estimate track) (plan.estimate track') := by
  cases plan with
  | regression plan => exact Regression.estimate_of_matched plan h
  | impulse => exact Impulse.estimate_of_matched h
  | average => exact Average.estimate_of_matched h

end Tracks

/-- Where matched things are seen, the estimates share what the positions do. -/
theorem Sight.Matched.estimate {v w : Sight α}
    (h : v.Matched (.sharing delay same) id w) :
    Option.Rel (Estimator.Shares v.plan delay (same id)) v.estimate
      w.estimate := by
  cases h with
  | @ofTrack plan capacity glimpses glimpses' h =>
      exact plan.estimate_of_matched
        (plan.limits.cut_matched (streak_matched h))
  | @filter order motion? motion?' h =>
      cases h with
      | none => exact .none
      | @some m n hmotion =>
          refine .some ⟨fun hplan => (nomatch hplan.1), ?_, rfl,
            ?_, fun _ => rfl⟩
          · rw [if_neg fun hplan => nomatch hplan.1]
            exact hmotion.1
          · intro a b hab
            rw [Filter.Motion.along_estimator, Filter.Motion.along_estimator,
              hmotion.2.2 a b hab]

theorem Tracker.Matched.estimate {t u : Tracker α}
    (h : t.Matched (.sharing delay same) u) (id : PointerId) :
    Option.Rel (Estimator.Shares t.strategy.plan delay (same id))
      (t.estimate id) (u.estimate id) := by
  rw [Tracker.estimate, Tracker.estimate, Strategy.estimate_eq,
    Strategy.estimate_eq, ← Sight.plan_sight t.strategy id]
  exact (h.strategy id).estimate

end PointerMotion
