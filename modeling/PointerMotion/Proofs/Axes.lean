/-
No coordinate shows in the estimate of another one, and none at all in whether
there is an estimate, in its time or in its degree.
-/
import PointerMotion.Proofs.Coordinate

namespace PointerMotion

variable {α : Type}

namespace Step

/-- Whether two steps do the same to the same pointers at the same time. -/
def SameShape : Step α → Step α → Prop
  | add m, add n => m.time = n.time ∧ m.ids = n.ids
  | clear, clear => True
  | clearPointers gone, clearPointers gone' => gone = gone'
  | _, _ => False

instance (left right : Step α) : Decidable (left.SameShape right) :=
  match left, right with
  | add m, add n =>
      inferInstanceAs (Decidable (m.time = n.time ∧ m.ids = n.ids))
  | clear, clear => inferInstanceAs (Decidable True)
  | clearPointers gone, clearPointers gone' =>
      inferInstanceAs (Decidable (gone = gone'))
  | add _, clear | add _, clearPointers _ | clear, add _ | clear,
    clearPointers _
  | clearPointers _, add _ | clearPointers _, clear =>
      inferInstanceAs (Decidable False)

/-- Whether movements have one coordinate of a pointer in common, `a` of the
first as `b`. -/
def SameAlong (id : PointerId) (a b : Coordinate) : Step α → Step α → Prop
  | add m, add n =>
      (m.position? id).map (fun p => p.along a) =
        (n.position? id).map fun p => p.along b
  | _, _ => True

instance [DecidableEq α] (id : PointerId) (a b : Coordinate)
    (left right : Step α) :
    Decidable (left.SameAlong id a b right) :=
  match left, right with
  | add m, add n =>
      inferInstanceAs (Decidable ((m.position? id).map (fun p => p.along a) =
        (n.position? id).map fun p => p.along b))
  | add _, clear | add _, clearPointers _ | clear, _ | clearPointers _, _ =>
      inferInstanceAs (Decidable True)

variable [Scalar α] {same : PointerId → Coordinate → Coordinate → Prop}
    {left right : Step α}

theorem SameShape.matched (h : left.SameShape right)
    (halong : ∀ id a b, same id a b → left.SameAlong id a b right) :
    left.Matched (.sharing 0 same) right := by
  cases left with
  | add m =>
      cases right with
      | add n =>
          refine .add ⟨h.1.symm.trans (Int.add_zero _).symm, h.2.symm, ?_⟩
          intro id
          have hboth : (m.position? id).isSome = (n.position? id).isSome := by
            rw [Bool.eq_iff_iff, Movement.isSome_position?,
              Movement.isSome_position?, h.2]
          have hsame : ∀ a b, same id a b →
              (m.position? id).map (fun p => p.along a) =
                (n.position? id).map fun p => p.along b := halong id
          generalize m.position? id = p?, n.position? id = q? at hboth hsame
          cases p? with
          | none =>
              cases q? with
              | none => exact .none
              | some q => cases hboth
          | some p =>
              cases q? with
              | none => cases hboth
              | some q =>
                  exact .some fun a b hab => Option.some.inj (hsame a b hab)
      | clear => cases h
      | clearPointers gone => cases h
  | clear =>
      cases right with
      | clear => exact .clear
      | add n => cases h
      | clearPointers gone => cases h
  | clearPointers gone =>
      cases right with
      | clearPointers gone' =>
          obtain rfl : gone = gone' := h
          exact .clearPointers gone
      | add n => cases h
      | clear => cases h

/-- Runs of one shape are matched in the coordinates that all their movements
have in common. -/
theorem forall₂_matched {left right : List (Step α)}
    (h : List.Forall₂ SameShape left right)
    (halong : ∀ id a b, same id a b →
      List.Forall₂ (SameAlong id a b) left right) :
    List.Forall₂ (Step.Matched (.sharing 0 same)) left right := by
  induction h with
  | nil => exact .nil
  | cons hstep _ ih =>
      constructor
      · exact hstep.matched fun id a b hab =>
          (List.forall₂_cons.mp (halong id a b hab)).1
      · exact ih fun id a b hab => (List.forall₂_cons.mp (halong id a b hab)).2

end Step

theorem isSome_eq_of_rel {β γ : Type} {related : β → γ → Prop} {b? : Option β}
    {c? : Option γ} (h : Option.Rel related b? c?) : c?.isSome = b?.isSome := by
  cases h <;> rfl

namespace Estimator.Shares

variable {plan : Plan} {same : Coordinate → Coordinate → Prop}

theorem time_eq {e e' : Estimator α} (h : e.Shares plan 0 same e') :
    e'.time = e.time := by
  rw [h.time, Int.add_zero]
  split
  next hzero => exact (h.timeless hzero).symm
  next => rfl

variable [Scalar α]

theorem cleared : (cleared : Estimator α).Shares plan 0 same .cleared where
  timeless := fun _ => rfl
  time := (ite_self (0 : Int)).symm
  degree := rfl
  along := fun a b _ => by cases a <;> cases b <;> rfl
  confidence := fun _ => rfl

/-- The answers share what the estimates do: where there is none, nothing is
known. -/
theorem getD_cleared {known? known?' : Option (Estimator α)}
    (h : Option.Rel (Shares plan 0 same) known? known?') :
    (known?.getD .cleared).Shares plan 0 same (known?'.getD .cleared) := by
  cases h with
  | none => exact cleared
  | some h => exact h

end Estimator.Shares

namespace Tracker

variable [Scalar α] {left right : List (Step α)}

theorem shares_answer_of_sameShape (strategy : StrategyId)
    (settings : Settings α) (same : PointerId → Coordinate → Coordinate → Prop)
    (h : List.Forall₂ Step.SameShape left right)
    (halong : ∀ id a b, same id a b →
      List.Forall₂ (Step.SameAlong id a b) left right) (count : Nat)
    (id : PointerId) :
    let e := ((ofStrategy strategy settings).run (left.take count)).answer id
    let e' := ((ofStrategy strategy settings).run (right.take count)).answer id
    e'.1 = e.1 ∧ e.2.Shares strategy.plan 0 (same id) e'.2 := by
  intro e e'
  have hmatched : ((ofStrategy strategy settings).run (left.take count)).Matched
      (.sharing 0 same)
      ((ofStrategy strategy settings).run (right.take count)) := by
    apply (Matched.ofStrategy (.sharing 0 same) strategy settings).run
    · exact List.forall₂_take count (Step.forall₂_matched h halong)
    · intro time _
      have hdelay :
          time + (Correspondence.sharing (α := α) 0 same).delay = time :=
        Int.add_zero time
      rw [hdelay]
  have hestimate := hmatched.estimate id
  have hplan :
      ((ofStrategy strategy settings).run (left.take count)).strategy.plan =
        strategy.plan :=
    plan_after_ofStrategy strategy settings _
  rw [hplan] at hestimate
  refine ⟨?_, Estimator.Shares.getD_cleared hestimate⟩
  exact isSome_eq_of_rel hestimate

/-- Runs of one shape agree, after every step and for every pointer, in whether
it has an estimate, in its time and its degree, and in its confidence unless
that is one of a regression.  Where all movements have a coordinate of the
pointer in common, so have the estimates. -/
theorem answers_run_along (strategy : StrategyId) (settings : Settings α)
    (hshape : List.Forall₂ Step.SameShape left right) (count : Nat)
    (id : PointerId) :
    let e := ((ofStrategy strategy settings).run (left.take count)).answer id
    let e' := ((ofStrategy strategy settings).run (right.take count)).answer id
    e'.1 = e.1 ∧ e'.2.time = e.2.time ∧ e'.2.degree = e.2.degree ∧
      ((∀ r, strategy.plan ≠ .ofTrack (.regression r)) →
      e'.2.confidence = e.2.confidence) ∧
      ∀ a b, List.Forall₂ (Step.SameAlong id a b) left right →
        e.2.along a = e'.2.along b := by
  intro e e'
  have hshape' :=
    shares_answer_of_sameShape strategy settings (fun _ _ _ => False) hshape
    (fun _ _ _ hfalse => hfalse.elim) count id
  refine ⟨hshape'.1, hshape'.2.time_eq, hshape'.2.degree, ?_, ?_⟩
  · intro hplan
    exact hshape'.2.confidence fun ⟨r, hr⟩ => absurd hr (hplan r)
  · intro a b halong
    have hshared := shares_answer_of_sameShape strategy settings
      (fun i c d => i = id ∧ c = a ∧ d = b) hshape
      (by rintro _ _ _ ⟨rfl, rfl, rfl⟩; exact halong) count id
    exact hshared.2.along a b ⟨rfl, rfl, rfl⟩

theorem answers_run_along_exchangedRun :
    (((ofStrategy .lsq2 Settings.standard).run
        (returningRun.take 5)).answer 1).2.along .x =
      (((ofStrategy .lsq2 Settings.standard).run
        (exchangedRun.take 5)).answer 1).2.along .y :=
  have hshape : List.Forall₂ Step.SameShape returningRun exchangedRun := by
    decide +kernel
  have halong :
      List.Forall₂ (Step.SameAlong 1 .x .y) returningRun exchangedRun := by
    decide +kernel
  (answers_run_along .lsq2 Settings.standard hshape 5 1).2.2.2.2 .x .y halong

end Tracker

end PointerMotion
