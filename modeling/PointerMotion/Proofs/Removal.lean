/-
Removing pointers erases them and nothing else: runs that differ in their
positions lead to trackers that the removal makes the same.
-/
import PointerMotion.Proofs.Delivery
import PointerMotion.Proofs.Trail

namespace PointerMotion

variable {α : Type} [Scalar α]

/-- Readings that fail in the same way or give related values. -/
def ReadAlike {β : Type} (related : β → β → Prop)
    (left right : Except InputError β) : Prop :=
  (∃ e, left = .error e ∧ right = .error e) ∨
    ∃ a b, left = .ok a ∧ right = .ok b ∧ related a b

namespace Point

/-- Points for a pointer that are the same, or that can be read if the pointer
is masked. -/
def AlikeFor (masked : PointerSet) (id : PointerId) (p q : Point α) : Prop :=
  p = q ∨ id ∈ masked ∧ p.toPosition.isOk = true ∧ q.toPosition.isOk = true

/-- Points by ascending id that are alike for each of the ids. -/
def ListsAlike (masked ids : PointerSet)
    (points points' : List (Point α)) : Prop :=
  points.length = points'.length ∧
    List.Forall₂ (fun s t => AlikeFor masked s.1 s.2 t.2)
      (ids.toList.zip points)
      (ids.toList.zip points')

instance [DecidableEq α] (masked : PointerSet) (id : PointerId)
    (p q : Point α) :
    Decidable (AlikeFor masked id p q) :=
  inferInstanceAs (Decidable (_ ∨ _ ∧ _ ∧ _))

instance [DecidableEq α] (masked ids : PointerSet)
    (points points' : List (Point α)) :
    Decidable (ListsAlike masked ids points points') :=
  inferInstanceAs (Decidable (_ ∧ _))

/-- Points for a choice of pointers that are alike for each of them. -/
def ChoiceAlike (masked : PointerSet) (ids : PointerChoice)
    (points points' : List (Point α)) :
    Prop :=
  match ids.toSet? with
  | .ok set => ListsAlike masked set points points'
  | .error _ => points = points'

instance [DecidableEq α] (masked : PointerSet) (ids : PointerChoice)
    (points points' : List (Point α)) :
    Decidable (ChoiceAlike masked ids points points') :=
  match h : ids.toSet? with
  | .ok set =>
      decidable_of_iff (ListsAlike masked set points points')
        (by rw [ChoiceAlike, h])
  | .error _ => decidable_of_iff (points = points') (by rw [ChoiceAlike, h])

theorem ListsAlike.refl (masked ids : PointerSet) (points : List (Point α)) :
    ListsAlike masked ids points points :=
  ⟨rfl, List.forall₂_same.mpr fun _ _ => .inl rfl⟩

theorem AlikeFor.toPosition {masked : PointerSet} {id : PointerId}
    {p q : Point α} (h : AlikeFor masked id p q) :
    ReadAlike (fun a b => id ∉ masked → a = b) p.toPosition q.toPosition := by
  rcases h with rfl | ⟨hmasked, hp, hq⟩
  · cases p.toPosition with
    | error e => exact .inl ⟨e, rfl, rfl⟩
    | ok a => exact .inr ⟨a, a, rfl, rfl, fun _ => rfl⟩
  -- both can be read, so neither reading stops the delivery
  · cases hreadP : p.toPosition with
    | error e => simp [hreadP, Except.isOk, Except.toBool] at hp
    | ok a =>
        cases hreadQ : q.toPosition with
        | error e => simp [hreadQ, Except.isOk, Except.toBool] at hq
        | ok b => exact .inr ⟨a, b, rfl, rfl, fun hkept => absurd hmasked hkept⟩

/-- Alike points are read to alike positions, or fail in the same way. -/
theorem readAlike_mapM_toPosition {masked : PointerSet} {ids : List PointerId}
    {points points' : List (Point α)} (hlength : points.length = ids.length)
    (hlength' : points'.length = ids.length)
    (h : List.Forall₂ (fun s t => AlikeFor masked s.1 s.2 t.2) (ids.zip points)
      (ids.zip points')) :
    ReadAlike (fun positions positions' =>
        List.Forall₂ (fun s t => s.1 = t.1 ∧ (s.1 ∉ masked → s.2 = t.2))
          (ids.zip positions)
          (ids.zip positions'))
      (points.mapM toPosition) (points'.mapM toPosition) := by
  induction ids generalizing points points' with
  | nil =>
      obtain rfl := List.eq_nil_of_length_eq_zero hlength
      obtain rfl := List.eq_nil_of_length_eq_zero hlength'
      exact .inr ⟨[], [], rfl, rfl, .nil⟩
  | cons id rest ih =>
      obtain ⟨p, ps, rfl⟩ := List.exists_cons_of_length_eq_add_one hlength
      obtain ⟨q, qs, rfl⟩ := List.exists_cons_of_length_eq_add_one hlength'
      simp only [List.zip_cons_cons, List.forall₂_cons] at h
      rw [mapM_toPosition_cons, mapM_toPosition_cons]
      rcases h.1.toPosition with ⟨e, hp, hq⟩ | ⟨a, b, hp, hq, hab⟩
      · exact .inl ⟨e, by rw [hp]; rfl, by rw [hq]; rfl⟩
      · rw [hp, hq]
        rcases ih (Nat.succ.inj hlength) (Nat.succ.inj hlength') h.2 with
          ⟨e, hps, hqs⟩ | ⟨as, bs, hps, hqs, hrest⟩
        · exact .inl ⟨e, by rw [hps]; rfl, by rw [hqs]; rfl⟩
        · exact .inr ⟨a :: as, b :: bs, by rw [hps]; rfl, by rw [hqs]; rfl,
            .cons ⟨rfl, hab⟩ hrest⟩

end Point

namespace Movement

omit [Scalar α] in
/-- Movements with alike samples are alike. -/
theorem alikeOff_of_samples {masked : PointerSet} {m n : Movement α}
    (htime : m.time = n.time) (hids : m.ids = n.ids)
    (h : List.Forall₂ (fun s t => s.1 = t.1 ∧ (s.1 ∉ masked → s.2 = t.2))
      m.samples n.samples) :
    m.AlikeOff masked n where
  time := htime
  ids := hids
  position? := by
    have hmem : ∀ id, id ∉ masked → ∀ p, (id, p) ∈ m.samples ↔
        (id, p) ∈ n.samples := by
      intro id hid p
      generalize m.samples = left, n.samples = right at h
      induction h with
      | nil => rfl
      | @cons s t _ _ hfirst _ ih =>
          rcases s with ⟨other, q⟩
          rcases t with ⟨_, q'⟩
          rcases hfirst with ⟨rfl, hq⟩
          simp only [List.mem_cons, Prod.mk.injEq, ih]
          apply or_congr_left
          apply and_congr_right
          rintro rfl
          have hposition : q = q' := hq hid
          rw [hposition]
    intro id hid
    apply Option.ext
    intro p
    rw [← mem_samples, ← mem_samples, hmem id hid p]

/-- Alike points are delivered as alike movements, or are refused in the same
way. -/
theorem readAlike_read? {masked ids : PointerSet}
    {points points' : List (Point α)}
    (h : Point.ListsAlike masked ids points points') (time : Reading α) :
    ReadAlike (AlikeOff masked) (read? time ids points)
      (read? time ids points') := by
  rcases h with ⟨hlength, hpoints⟩
  rw [read?, read?, ← hlength]
  split
  next hcount =>
    have hids : points.length = ids.toList.length := by
      rw [hcount, PointerSet.card_eq_length_toList]
    rcases Point.readAlike_mapM_toPosition hids (hlength ▸ hids) hpoints with
      ⟨e, hleft, hright⟩ | ⟨positions, positions', hleft, hright, hsamples⟩
    · rw [hleft, hright]
      exact .inl ⟨e, rfl, rfl⟩
    · have hcountLeft := (Point.length_of_mapM_toPosition hleft).trans hcount
      have hcountRight :=
        (Point.length_of_mapM_toPosition hright).trans (hlength ▸ hcount)
      rw [hleft, hright]
      cases time.toInt with
      | error e => exact .inl ⟨e, rfl, rfl⟩
      | ok time =>
          simp only [dif_pos hcountLeft, dif_pos hcountRight]
          exact .inr ⟨_, _, rfl, rfl, alikeOff_of_samples rfl rfl hsamples⟩
  next => exact .inl ⟨_, rfl, rfl⟩

end Movement

/-- Calls that are alike but for the positions of the masked pointers. -/
def Call.AlikeOff (masked : PointerSet) : Call α → Call α → Prop
  | .add time ids points, .add time' ids' points' =>
      time = time' ∧ ids = ids' ∧ Point.ChoiceAlike masked ids points points'
  | left, right => left = right

theorem Call.AlikeOff.refl (masked : PointerSet) (c : Call α) :
    c.AlikeOff masked c := by
  cases c with
  | add time ids points =>
      refine ⟨rfl, rfl, ?_⟩
      rw [Point.ChoiceAlike]
      split
      · exact Point.ListsAlike.refl masked _ points
      · rfl
  | clear => rfl
  | clearPointers gone => rfl
  | event e => rfl

namespace Tracker

/-- Trackers that are alike but for the positions of the masked pointers. -/
structure AlikeOff (masked : PointerSet) (left right : Tracker α) : Prop where
  settings : left.settings = right.settings
  strategyId : left.strategyId = right.strategyId
  lastTime : left.lastTime = right.lastTime
  current : left.current = right.current
  introduced : left.introduced = right.introduced
  strategy : left.strategy.AlikeOff masked right.strategy

variable {masked : PointerSet} {left right : Tracker α}

omit [Scalar α] in
theorem AlikeOff.refl (masked : PointerSet) (t : Tracker α) :
    t.AlikeOff masked t :=
  ⟨rfl, rfl, rfl, rfl, rfl, .refl masked t.strategy⟩

omit [Scalar α] in
theorem AlikeOff.mono (h : left.AlikeOff masked right) {masked' : PointerSet}
    (hsub : ∀ id, id ∈ masked → id ∈ masked') : left.AlikeOff masked' right :=
  { h with strategy := h.strategy.mono hsub }

omit [Scalar α] in
theorem AlikeOff.setCurrent (h : left.AlikeOff masked right)
    (ids : PointerSet) :
    (left.setCurrent ids).AlikeOff masked (right.setCurrent ids) where
  settings := h.settings
  strategyId := h.strategyId
  lastTime := h.lastTime
  current := rfl
  introduced := by
    rw [Tracker.setCurrent, Tracker.setCurrent, h.introduced, h.current]
  strategy := h.strategy

omit [Scalar α] in
theorem AlikeOff.clear (h : left.AlikeOff masked right) :
    left.clear.AlikeOff masked right.clear :=
  { h.setCurrent ∅ with strategy := h.strategy.clear }

omit [Scalar α] in
theorem AlikeOff.clearSet (h : left.AlikeOff masked right) (gone : PointerSet) :
    (left.clearSet gone).AlikeOff (masked \ gone) (right.clearSet gone) := by
  have hcurrent : (left.setCurrent (left.current \ gone)).AlikeOff masked
      (right.setCurrent (right.current \ gone)) := h.current ▸ h.setCurrent _
  rcases hcurrent with ⟨hsettings, hid, htime, hids, hintroduced, _⟩
  exact ⟨hsettings, hid, htime, hids, hintroduced,
    h.strategy.clearPointers gone⟩

theorem alike_addMovement (h : left.AlikeOff masked right) {m n : Movement α}
    (hmovement : m.AlikeOff masked n) :
    Outcome.Alike (AlikeOff masked) (left.addMovement m)
      (right.addMovement n) := by
  have hstopped : left.stoppedBy m.ids m.time =
      right.stoppedBy n.ids n.time := by
    rw [stoppedBy, stoppedBy, h.current, h.settings, h.lastTime, hmovement.ids,
      hmovement.time]
  rw [addMovement_eq, addMovement_eq, hstopped, hmovement.ids, hmovement.time]
  apply Outcome.alike_orFail _ h
  intro stopped
  exact (Strategy.alike_addMovement (h.strategy.clear_if stopped) hmovement).map
    fun _ _ halike =>
      { h.setCurrent n.ids with lastTime := rfl, strategy := halike }

/-- Alike points are added or refused together. -/
theorem alike_addSet (h : left.AlikeOff masked right) (time : Reading α)
    {ids : PointerSet} {points points' : List (Point α)}
    (hpoints : Point.ListsAlike masked ids points points') :
    Outcome.Alike (AlikeOff masked) (left.addSet time ids points)
      (right.addSet time ids points') := by
  rw [addSet_eq, addSet_eq]
  rcases Movement.readAlike_read? hpoints time with ⟨e, hleft, hright⟩ |
    ⟨m, n, hleft, hright, hmn⟩
  · rw [hleft, hright]
    exact ⟨h, rfl⟩
  · rw [hleft, hright]
    exact alike_addMovement h (hmn.lowest maxPointers)

/-- One step keeps trackers alike. -/
theorem alike_step (h : left.AlikeOff masked right) (step : Step α) :
    Outcome.Alike (AlikeOff masked) (left.perform step.call)
      (right.perform step.call) := by
  cases step with
  | add m =>
      rw [perform_add, perform_add]
      exact alike_addMovement h ⟨rfl, rfl, fun _ _ => rfl⟩
  | clear => exact ⟨h.clear, rfl⟩
  | clearPointers gone =>
      exact ⟨(h.clearSet gone).mono fun _ hid =>
        (PointerSet.mem_sdiff.mp hid).1, rfl⟩

theorem alike_perform (h : left.AlikeOff masked right) {c d : Call α}
    (hcall : c.AlikeOff masked d) :
    Outcome.Alike (AlikeOff masked) (left.perform c) (right.perform d) := by
  have hsame : Outcome.Alike (AlikeOff masked) (left.perform c)
      (right.perform c) :=
    alike_perform_of_step (fun step _ _ _ halike => alike_step halike step) h
  cases c with
  | add time ids points =>
      cases d with
      | add time' ids' points' =>
          rcases hcall with ⟨rfl, rfl, hpoints⟩
          rw [perform, perform, add, add]
          cases hset : ids.toSet? with
          | error e => exact ⟨h, rfl⟩
          | ok set =>
              rw [Point.ChoiceAlike, hset] at hpoints
              exact alike_addSet h time hpoints
      | clear => cases hcall
      | clearPointers gone => cases hcall
      | event e => cases hcall
  | clear =>
      cases hcall
      exact hsame
  | clearPointers gone =>
      cases hcall
      exact hsame
  | event e =>
      cases hcall
      exact hsame

/-- Alike calls, one after another, keep trackers alike, whether or not they are
refused. -/
theorem AlikeOff.after (h : left.AlikeOff masked right)
    {calls calls' : List (Call α)}
    (hcalls : List.Forall₂ (Call.AlikeOff masked) calls calls') :
    (left.after calls).AlikeOff masked (right.after calls') := by
  induction hcalls generalizing left right with
  | nil => exact h
  | cons hcall _ ih => exact ih (alike_perform h hcall).state

theorem AlikeOff.estimate_eq (h : left.AlikeOff masked right) {id : PointerId}
    (hid : id ∉ masked) : left.estimate id = right.estimate id := by
  rw [estimate, estimate, Strategy.estimate_eq, Strategy.estimate_eq,
    h.strategy.sight_eq hid]

theorem estimate_clearSet (t : Tracker α) (removed : PointerSet)
    (id : PointerId) :
    (t.clearSet removed).estimate id = if id ∈
      removed then none else t.estimate id := by
  rw [estimate, estimate, strategy_clearSet, Strategy.estimate_eq_trail,
    Strategy.trail_clearPointers]
  split
  · exact Trail.estimate_lost _
  · exact (t.strategy.estimate_eq_trail id).symm

omit [Scalar α] in
theorem mem_current_clearSet (t : Tracker α) (removed : PointerSet)
    (id : PointerId) :
    id ∈ (t.clearSet removed).current ↔ id ∈ t.current ∧ id ∉ removed :=
  PointerSet.mem_sdiff

/-- The removal of pointers leaves the answers about all others and their
presence as they are, it leaves nothing of the removed ones, and after it no
answer depends on the positions that were delivered for them before. -/
theorem clearPointers_erases (strategy : StrategyId) (settings : Settings α)
    {gone : PointerChoice} {removed : PointerSet}
    (hgone : gone.toSet? = .ok removed) :
    (∀ (calls : List (Call α)) (id : PointerId),
      let before := (ofStrategy strategy settings).after calls
      let after := (ofStrategy strategy settings).after
        (calls ++ [.clearPointers gone])
      (id ∉ removed → after.answer id = before.answer id ∧
        after.velocity id = before.velocity id ∧
        (id ∈ after.current ↔ id ∈ before.current)) ∧
      (id ∈ removed → after.answer id = (false, .cleared) ∧
        id ∉ after.current)) ∧
    ∀ calls calls' : List (Call α),
      List.Forall₂ (Call.AlikeOff removed) calls calls' →
      ∀ (later : List (Call α)) (id : PointerId),
        let left := (ofStrategy strategy settings).after
          (calls ++ .clearPointers gone :: later)
        let right := (ofStrategy strategy settings).after
          (calls' ++ .clearPointers gone :: later)
        left.answer id = right.answer id ∧
          left.velocity id = right.velocity id := by
  have hafter : ∀ calls later : List (Call α),
      (ofStrategy strategy settings).after
          (calls ++ .clearPointers gone :: later) =
        (((ofStrategy strategy settings).after calls).clearSet removed).after
          later := by
    intro calls later
    have hstep : ∀ t : Tracker α, (t.perform (.clearPointers gone)).state =
        t.clearSet removed := by
      intro t
      rw [perform, clearPointers_of_toSet? hgone]
      rfl
    rw [after_append, ← hstep]
    rfl
  constructor
  · intro calls id
    simp only [hafter, after_nil, answer, velocity, estimate_clearSet,
      mem_current_clearSet]
    constructor
    · intro hkept
      simp [hkept]
    · intro hremoved
      simp [hremoved]
  · intro calls calls' halike later id
    -- alike but for the removed ones before, and alike without exception after
    have hbefore :=
      (AlikeOff.refl removed (ofStrategy strategy settings)).after halike
    have hlater : List.Forall₂ (Call.AlikeOff (removed \ removed))
        later later :=
      List.forall₂_same.mpr fun c _ => Call.AlikeOff.refl _ c
    have hend := (hbefore.clearSet removed).after hlater
    have hfree : id ∉ removed \ removed := by simp
    have hestimate := hend.estimate_eq hfree
    simp only [hafter, answer, velocity, hestimate, and_self]

theorem answer_tellingRun :
    ((ofStrategy .int2 Settings.standard).after
        (tellingRun ⟨7.0, 3.0⟩ ++ .clearPointers (.listed [5]) ::
            comebackRun)).answer 5 =
      ((ofStrategy .int2 Settings.standard).after
        (tellingRun ⟨9.0, 4.0⟩ ++ .clearPointers (.listed [5]) ::
            comebackRun)).answer 5 :=
  have halike : List.Forall₂ (Call.AlikeOff {5}) (tellingRun ⟨7.0, 3.0⟩)
      (tellingRun ⟨9.0, 4.0⟩) :=
    .cons ⟨rfl, rfl, by decide +kernel⟩
      (.cons ⟨rfl, rfl, by decide +kernel⟩
          (.cons ⟨rfl, rfl, by decide +kernel⟩ .nil))
  ((clearPointers_erases .int2 Settings.standard
    (by rfl : (PointerChoice.listed [5]).toSet? = .ok {5})).2 _ _ halike
      comebackRun 5).1

end Tracker

end PointerMotion
