/-
Strategies that see corresponding things: a correspondence is a relation of
what two runs tell of a pointer that the rules of the filter keep.
-/
import PointerMotion.Proofs.Sight

namespace PointerMotion

variable {α : Type}

namespace Outcome

variable {σ τ : Type}

/-- Outcomes that fail alike and leave related states. -/
structure Alike (related : σ → σ → Prop) (left right : Outcome σ) : Prop where
  state : related left.state right.state
  error : left.error = right.error

variable {related : σ → σ → Prop}

theorem Alike.andThen {left right : Outcome σ} (h : Alike related left right)
    {next next' : σ → Outcome σ}
    (hnext : ∀ s t, related s t → Alike related (next s) (next' t)) :
    Alike related (left.andThen next) (right.andThen next') := by
  cases hleft : left.error with
  | none =>
      rw [andThen_of_error_none hleft, andThen_of_error_none (h.error ▸ hleft)]
      exact ⟨(hnext _ _ h.state).state, (hnext _ _ h.state).error⟩
  | some e =>
      rw [andThen_of_error_some hleft, andThen_of_error_some (h.error ▸ hleft)]
      exact h

theorem Alike.map {related' : τ → τ → Prop} {left right : Outcome σ}
    (h : Alike related left right) {f g : σ → τ}
    (hmap : ∀ s t, related s t → related' (f s) (g t)) :
    Alike related' (left.map f) (right.map g) :=
  ⟨hmap _ _ h.state, h.error⟩

theorem alike_orFail {β : Type} (value : Except InputError β) {s t : σ}
    (h : related s t) {next next' : β → Outcome σ}
    (hnext : ∀ b, Alike related (next b) (next' b)) :
    Alike related (orFail value s next) (orFail value t next') := by
  cases value with
  | ok b => exact hnext b
  | error e => exact ⟨h, rfl⟩

/-- Operations that keep states related keep them related one after another. -/
theorem alike_runAll {ops : List (σ → Outcome σ)}
    (hops : ∀ op ∈ ops, ∀ s t, related s t → Alike related (op s) (op t))
    {s t : σ} (h : related s t) :
    Alike related (runAll ops s) (runAll ops t) := by
  have hfold : ∀ left right, Alike related left right →
      Alike related (ops.foldl Outcome.andThen left)
        (ops.foldl Outcome.andThen right) := by
    induction ops with
    | nil => exact fun _ _ halike => halike
    | cons op rest ih =>
        intro left right halike
        exact ih (fun op' hop' => hops op' (List.mem_cons_of_mem _ hop')) _ _
          (halike.andThen (hops op List.mem_cons_self))
  exact hfold _ _ ⟨h, rfl⟩

end Outcome

/-- How the positions and the motions of each pointer correspond in two runs, of
which the second one's clock is ahead by `delay`. -/
structure Correspondence (α : Type) [Scalar α] where
  delay : Int
  position : PointerId → Position α → Position α → Prop
  motion : PointerId → Filter.Motion α → Filter.Motion α → Prop
  time : ∀ {id m n}, motion id m n → n.time = m.time + delay
  resting : ∀ {id p q}, position id p q → ∀ time,
    motion id (.resting time p) (.resting (time + delay) q)
  /-- what a sample leaves that is refused for its time -/
  placed : ∀ {id m n p q}, motion id m n → position id p q →
    motion id { m with x := .resting p.x, y := .resting p.y }
      { n with x := .resting q.x, y := .resting q.y }
  advance : ∀ {id m n p q}, motion id m n → position id p q → ∀ order time,
    motion id (m.advance order time p) (n.advance order (time + delay) q)

namespace Correspondence

variable [Scalar α] (C : Correspondence α) {id : PointerId}
    {m n : Filter.Motion α}

theorem le_time_iff (h : C.motion id m n) (time : Int) :
    time + C.delay ≤ n.time ↔ time ≤ m.time := by
  rw [C.time h]
  exact Int.add_le_add_iff_right C.delay

theorem sub_time_eq (h : C.motion id m n) (time : Int) :
    time + C.delay - n.time = time - m.time := by
  rw [C.time h]
  omega

end Correspondence

namespace Movement

theorem samples_lowest (count : Nat) (m : Movement α) :
    (m.lowest count).samples = m.samples.take count := by
  have hids : (m.lowest count).ids = m.ids.lowest count := rfl
  have hpositions : (m.lowest count).positions = m.positions.take count := rfl
  rw [samples, samples, hids, hpositions, PointerSet.toList_lowest]
  exact List.take_zipWith.symm

/-- The movement of the smallest ids keeps their positions. -/
theorem position?_lowest (count : Nat) (m : Movement α) (id : PointerId) :
    (m.lowest count).position? id = if id ∈ m.ids.lowest count then m.position?
      id else none := by
  split
  next hmember =>
    obtain ⟨p, hp⟩ := Option.isSome_iff_exists.mp
      (isSome_position? (m := m.lowest count).mpr hmember)
    have hsample : (id, p) ∈ m.samples := by
      apply List.mem_of_mem_take (i := count)
      rw [← samples_lowest]
      exact mem_samples.mpr hp
    rw [hp, mem_samples.mp hsample]
  next hmember => exact position?_eq_none_iff.mpr hmember

variable [Scalar α]

/-- Movements of the same pointers, at corresponding positions. -/
structure Matched (C : Correspondence α) (m n : Movement α) : Prop where
  time : n.time = m.time + C.delay
  ids : n.ids = m.ids
  position? : ∀ id, Option.Rel (C.position id) (m.position? id) (n.position? id)

variable {C : Correspondence α} {m n : Movement α}

theorem Matched.lowest (h : m.Matched C n) (count : Nat) :
    (m.lowest count).Matched C (n.lowest count) where
  time := h.time
  ids := congrArg (PointerSet.lowest count) h.ids
  position? := by
    intro id
    rw [position?_lowest, position?_lowest, h.ids]
    split
    · exact h.position? id
    · exact .none

/-- Matched movements have matched samples. -/
theorem Matched.samples (h : m.Matched C n) :
    List.Forall₂ (fun s t => t.1 = s.1 ∧ C.position s.1 s.2 t.2) m.samples
      n.samples := by
  have hids : m.samples.map Prod.fst = n.samples.map Prod.fst := by
    rw [map_fst_samples, map_fst_samples, h.ids]
  have hlength : m.samples.length = n.samples.length := by
    simpa using congrArg List.length hids
  rw [List.forall₂_iff_get]
  refine ⟨hlength, ?_⟩
  intro i hm hn
  have hid : (n.samples.get ⟨i, hn⟩).1 = (m.samples.get ⟨i, hm⟩).1 := by
    have hget := congrArg (fun l => l[i]?) hids
    simpa [hm, hn] using hget.symm
  refine ⟨hid, ?_⟩
  have hleft : m.position? (m.samples.get ⟨i, hm⟩).1 =
      some (m.samples.get ⟨i, hm⟩).2 :=
    mem_samples.mp (List.get_mem _ _)
  have hright : n.position? (n.samples.get ⟨i, hn⟩).1 =
      some (n.samples.get ⟨i, hn⟩).2 :=
    mem_samples.mp (List.get_mem _ _)
  have hposition := h.position? (m.samples.get ⟨i, hm⟩).1
  rw [hleft, ← hid, hright] at hposition
  cases hposition with
  | some hsample => exact hid ▸ hsample

end Movement

namespace Filter

namespace Table

theorem motion?_put (table : Table α) (id other : PointerId) (m : Motion α) :
    (table.put id m).motion? other =
      if other = id then (table.motion? id).map fun _ => m
      else table.motion? other := by
  rw [Table.motion?, known_put, get_rows_put]
  by_cases hother : other = id
  · subst hother
    by_cases hknown : other ∈ table.known <;> simp [Table.motion?, hknown]
  · simp [Table.motion?, hother]

variable [Scalar α]

/-- Tables in which the motions of known pointers correspond. -/
def Matched (C : Correspondence α) (left right : Table α) : Prop :=
  ∀ id, Option.Rel (C.motion id) (left.motion? id) (right.motion? id)

variable {C : Correspondence α} {left right : Table α}

theorem Matched.rows (h : left.Matched C right) {id : PointerId}
    (hknown : id ∈ left.known) :
    C.motion id (left.rows.get id) (right.rows.get id) := by
  have hmotion := h id
  generalize hleft : left.motion? id = known? at hmotion
  generalize hright : right.motion? id = known?' at hmotion
  cases hmotion with
  | none =>
      rw [← isSome_motion?, hleft] at hknown
      cases hknown
  | some hrows =>
      rw [(motion?_eq_some_iff.mp hleft).2, (motion?_eq_some_iff.mp hright).2]
      exact hrows

/-- Rows that are rewritten on both sides count where their pointer is known. -/
theorem Matched.put (h : left.Matched C right) {id : PointerId} {m n : Motion α}
    (hmotion : id ∈ left.known → C.motion id m n) :
    (left.put id m).Matched C (right.put id n) := by
  intro other
  rw [motion?_put, motion?_put]
  split
  next heq =>
    subst heq
    have hknown := h other
    generalize hleft : left.motion? other = known? at hknown
    generalize right.motion? other = known?' at hknown
    cases hknown with
    | none => exact .none
    | some _ => exact .some (hmotion (isSome_motion?.mp (by rw [hleft]; rfl)))
  next => exact h other

end Table

variable [Scalar α] {C : Correspondence α} {id : PointerId}
    {p q : Position α} {time : Int}

/-- Corresponding motions have corresponding next ones. -/
theorem Motion.next_matched {known? known?' : Option (Motion α)}
    (h : Option.Rel (C.motion id) known? known?') (hp : C.position id p q)
    (order : Order) :
    C.motion id (Motion.next order time p known?)
      (Motion.next order (time + C.delay) q known?') := by
  cases h with
  | none => exact C.resting hp time
  | @some m n hmotion =>
      simp only [Motion.next, C.le_time_iff hmotion, C.sub_time_eq hmotion]
      split
      · exact C.resting hp time
      · split
        · exact hmotion
        · exact C.advance hmotion hp order time

section Accept

variable {left right : Table α}
    (hword : fitsWord (time + C.delay) = fitsWord time)

include hword

theorem alike_begin (h : left.Matched C right) (hp : C.position id p q) :
    Outcome.Alike (Table.Matched C) (begin id time p left)
      (begin id (time + C.delay) q right) := by
  rw [begin, begin, hword]
  split
  · exact ⟨h.put fun _ => C.resting hp time, rfl⟩
  · exact ⟨h.put fun hknown => C.placed (h.rows hknown) hp, rfl⟩

/-- Corresponding samples are accepted or refused together. -/
theorem alike_accept (h : left.Matched C right) (order : Order)
    (hp : C.position id p q) :
    Outcome.Alike (Table.Matched C) (accept order id time p left)
      (accept order id (time + C.delay) q right) := by
  have hmotion := h id
  rw [accept, accept]
  generalize left.motion? id = known? at hmotion
  generalize right.motion? id = known?' at hmotion
  cases hmotion with
  | none => exact alike_begin hword h hp
  | @some m n hmotion =>
      have hbegin := alike_begin hword h hp
      simp only [C.le_time_iff hmotion, C.sub_time_eq hmotion, hword]
      split
      · exact ⟨hbegin.state, hbegin.error⟩
      · split
        · exact ⟨h, rfl⟩
        · split
          · exact ⟨h.put fun _ => C.advance hmotion hp order time, rfl⟩
          · exact ⟨h, rfl⟩

theorem alike_acceptSamples (h : left.Matched C right) (order : Order)
    {samples samples' : List (PointerId × Position α)}
    (hsamples : List.Forall₂ (fun s t => t.1 = s.1 ∧ C.position s.1 s.2 t.2)
      samples samples') :
    Outcome.Alike (Table.Matched C) (acceptSamples order time samples left)
      (acceptSamples order (time + C.delay) samples' right) := by
  induction hsamples generalizing left right with
  | nil => exact ⟨h, rfl⟩
  | @cons s t rest rest' hfirst _ ih =>
      rcases s with ⟨id, p⟩
      rcases t with ⟨other, q⟩
      rcases hfirst with ⟨rfl, hp⟩
      rw [acceptSamples_cons, acceptSamples_cons]
      exact (alike_accept hword h order hp).andThen fun _ _ halike => ih halike

end Accept

/-- Matched movements are taken or refused together, and leave matched
tables. -/
theorem alike_addMovement_of_matched {left right : Table α}
    (h : left.Matched C right) (order : Order) {m n : Movement α}
    (hmovement : m.Matched C n)
    (hword : fitsWord (m.time + C.delay) = fitsWord m.time) :
    Outcome.Alike (Table.Matched C) (addMovement order m left)
      (addMovement order n right) := by
  have hsamples := alike_acceptSamples hword h order hmovement.samples
  rw [← hmovement.time] at hsamples
  have herror : (addMovement order m left).error =
      (addMovement order n right).error := by
    rw [addMovement_eq, addMovement_eq]
    exact hsamples.error
  refine ⟨?_, herror⟩
  -- a movement that fails stops at the same sample in both tables
  cases hleft : (addMovement order m left).error with
  | none =>
      have hright : (addMovement order n right).error = none := herror ▸ hleft
      intro id
      rw [motion?_addMovement hleft, motion?_addMovement hright, hmovement.time]
      have hposition := hmovement.position? id
      generalize m.position? id = p? at hposition
      generalize n.position? id = q? at hposition
      cases hposition with
      | none => exact .none
      | some hp => exact .some (Motion.next_matched (h id) hp order)
  | some e =>
      rw [state_addMovement_of_error_some hleft,
        state_addMovement_of_error_some (herror ▸ hleft)]
      exact hsamples.state

end Filter

variable [Scalar α] {C : Correspondence α} {id : PointerId}

/-- Glimpses at corresponding positions. -/
structure Glimpse.Matched (C : Correspondence α) (id : PointerId)
    (g g' : Glimpse α) : Prop where
  time : g'.time = g.time + C.delay
  position? : Option.Rel (C.position id) g.position? g'.position?

theorem Movement.Matched.glimpse {m n : Movement α} (h : m.Matched C n)
    (id : PointerId) :
    (m.glimpse id).Matched C id (n.glimpse id) :=
  ⟨h.time, h.position? id⟩

/-- Track points at corresponding positions. -/
structure TrackPoint.Matched (C : Correspondence α) (id : PointerId)
    (p q : TrackPoint α) :
    Prop where
  time : q.time = p.time + C.delay
  position : C.position id p.position q.position

section Glimpses

variable {g g' : Glimpse α} {glimpses glimpses' : List (Glimpse α)}

theorem Strategy.recordGlimpse_matched (plan : TrackPlan) (capacity : Nat)
    (h : List.Forall₂ (Glimpse.Matched C id) glimpses glimpses')
    (hg : g.Matched C id g') :
    List.Forall₂ (Glimpse.Matched C id) (recordGlimpse plan capacity g glimpses)
      (recordGlimpse plan capacity g' glimpses') := by
  have hnewest : glimpses'.head?.map Glimpse.time = some g'.time ↔
      glimpses.head?.map Glimpse.time = some g.time := by
    cases h with
    | nil => simp
    | cons hfirst _ => simp [hfirst.time, hg.time]
  simp only [recordGlimpse, hnewest]
  split
  · constructor
    · exact hg
    · cases h with
      | nil => exact .nil
      | cons _ hrest => exact hrest
  · exact List.forall₂_take capacity (.cons hg h)

theorem streak_matched
    (h : List.Forall₂ (Glimpse.Matched C id) glimpses glimpses') :
    List.Forall₂ (TrackPoint.Matched C id) (streak glimpses)
      (streak glimpses') := by
  induction h with
  | nil => exact .nil
  | @cons g g' rest rest' hfirst _ ih =>
      obtain ⟨time, position?⟩ := g
      obtain ⟨time', position?'⟩ := g'
      obtain ⟨htime, hposition⟩ := hfirst
      cases hposition with
      | none => exact .nil
      | some hp => exact .cons ⟨htime, hp⟩ ih

end Glimpses

namespace TrackLimits

theorem cutBehind_matched (limits : TrackLimits)
    {points points' : List (TrackPoint α)}
    (h : List.Forall₂ (TrackPoint.Matched C id) points points')
    (newest later : Int) :
    List.Forall₂ (TrackPoint.Matched C id)
      (limits.cutBehind newest later points)
      (limits.cutBehind (newest + C.delay) (later + C.delay) points') := by
  induction h generalizing later with
  | nil => exact .nil
  | @cons p q rest rest' hfirst _ ih =>
      have hage : newest + C.delay - q.time = newest - p.time := by
        rw [hfirst.time]
        omega
      have hfollows : limits.follows (later + C.delay) q.time =
          limits.follows later p.time := by
        rw [follows, follows, hfirst.time, Bool.eq_iff_iff]
        simp
      simp only [cutBehind, hage, hfollows]
      split
      · rw [hfirst.time]
        exact .cons hfirst (ih p.time)
      · exact .nil

theorem cut_matched (limits : TrackLimits)
    {points points' : List (TrackPoint α)}
    (h : List.Forall₂ (TrackPoint.Matched C id) points points') :
    List.Forall₂ (TrackPoint.Matched C id) (limits.cut points)
      (limits.cut points') := by
  cases h with
  | nil => exact .nil
  | @cons p q rest rest' hfirst hrest =>
      rw [cut, cut]
      split
      · rw [hfirst.time]
        exact .cons hfirst (limits.cutBehind_matched hrest p.time p.time)
      · exact .nil

end TrackLimits

/-- Sights from which corresponding things are seen. -/
inductive Sight.Matched (C : Correspondence α) (id : PointerId) :
    Sight α → Sight α → Prop where
  | ofTrack {plan : TrackPlan} {capacity : Nat} {glimpses glimpses' :
    List (Glimpse α)}
      (h : List.Forall₂ (Glimpse.Matched C id) glimpses glimpses') :
      Matched C id (ofTrack plan capacity glimpses)
        (ofTrack plan capacity glimpses')
  | filter {order : Filter.Order} {motion? motion?' : Option (Filter.Motion α)}
      (h : Option.Rel (C.motion id) motion? motion?') :
      Matched C id (filter order motion?) (filter order motion?')

theorem Sight.matched_ofTrack_iff {plan plan' : TrackPlan}
    {capacity capacity' : Nat} {glimpses glimpses' : List (Glimpse α)} :
    (ofTrack plan capacity glimpses).Matched C id
        (ofTrack plan' capacity' glimpses') ↔
      plan' = plan ∧ capacity' = capacity ∧
        List.Forall₂ (Glimpse.Matched C id) glimpses glimpses' := by
  constructor
  · intro h
    cases h with
    | ofTrack h => exact ⟨rfl, rfl, h⟩
  · rintro ⟨rfl, rfl, h⟩
    exact .ofTrack h

theorem Sight.matched_filter_iff {order order' : Filter.Order}
    {motion? motion?' : Option (Filter.Motion α)} :
    (filter order motion?).Matched C id (filter order' motion?') ↔
      order' = order ∧ Option.Rel (C.motion id) motion? motion?' := by
  constructor
  · intro h
    cases h with
    | filter h => exact ⟨rfl, h⟩
  · rintro ⟨rfl, h⟩
    exact .filter h

namespace Sight.Matched

variable {v w : Sight α}

theorem cleared (h : v.Matched C id w) : v.cleared.Matched C id w.cleared := by
  cases h with
  | ofTrack h => exact .ofTrack .nil
  | filter h => exact .filter .none

theorem forgotten (h : v.Matched C id w) :
    v.forgotten.Matched C id w.forgotten := by
  cases h with
  | ofTrack h =>
      apply Matched.ofTrack
      rw [List.forall₂_map_left_iff, List.forall₂_map_right_iff]
      exact h.imp fun g g' hg => ⟨hg.time, .none⟩
  | filter h => exact .filter .none

end Sight.Matched

namespace Strategy

/-- Strategies from which corresponding things are seen of every pointer. -/
def Matched (C : Correspondence α) (s t : Strategy α) : Prop :=
  ∀ id, (s.sight id).Matched C id (t.sight id)

variable {s t : Strategy α}

theorem Matched.clear (h : s.Matched C t) : s.clear.Matched C t.clear := by
  intro id
  rw [sight_clear, sight_clear]
  exact (h id).cleared

theorem Matched.clearPointers (h : s.Matched C t) (gone : PointerSet) :
    (s.clearPointers gone).Matched C (t.clearPointers gone) := by
  intro id
  rw [sight_clearPointers, sight_clearPointers]
  split
  · exact (h id).forgotten
  · exact h id

theorem matched_ofPlan (C : Correspondence α) (plan : Plan) :
    (ofPlan plan).Matched C (ofPlan plan) := by
  intro id
  rw [sight_ofPlan]
  cases plan with
  | ofTrack plan => exact .ofTrack .nil
  | filter order => exact .filter .none

/-- Matched movements are taken or refused together, and leave matched
strategies. -/
theorem alike_addMovement_of_matched (h : s.Matched C t) {m n : Movement α}
    (hmovement : m.Matched C n)
    (htime : s.plan.HoldsTime n.time ↔ s.plan.HoldsTime m.time) :
    Outcome.Alike (Matched C) (s.addMovement m) (t.addMovement n) := by
  cases s with
  | ofTrack plan history =>
      cases t with
      | filter order table => nomatch h 0
      | ofTrack plan' history' =>
          have herror : ((ofTrack plan history).addMovement m).error = none :=
            error_addMovement_of_holdsTime trivial
          have herror' :
              ((ofTrack plan' history').addMovement n).error = none :=
            error_addMovement_of_holdsTime trivial
          refine ⟨?_, herror.trans herror'.symm⟩
          intro id
          obtain ⟨hplan, hcapacity, hglimpses⟩ :=
            Sight.matched_ofTrack_iff.mp (h id)
          rw [sight_addMovement herror, sight_addMovement herror']
          refine Sight.matched_ofTrack_iff.mpr ⟨hplan, hcapacity, ?_⟩
          rw [hplan, hcapacity]
          exact recordGlimpse_matched plan history.capacity hglimpses
            (hmovement.glimpse id)
  | filter order table =>
      cases t with
      | ofTrack plan history => nomatch h 0
      | filter order' table' =>
          obtain ⟨rfl, -⟩ := Sight.matched_filter_iff.mp (h 0)
          have htable : table.Matched C table' :=
            fun id => (Sight.matched_filter_iff.mp (h id)).2
          have hword : Filter.fitsWord (m.time + C.delay) =
              Filter.fitsWord m.time := by
            rw [Bool.eq_iff_iff, ← hmovement.time]
            exact htime
          rw [addMovement_filter, addMovement_filter]
          apply (Filter.alike_addMovement_of_matched htable order'
              hmovement hword).map
          exact fun left right hmatched id => .filter (hmatched id)

end Strategy

end PointerMotion
