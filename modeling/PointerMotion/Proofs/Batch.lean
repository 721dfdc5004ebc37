/-
Events taken apart.  It makes no difference whether samples come in one event
or in several, up to the first that fails.
-/
import PointerMotion.Proofs.Arrangement
import PointerMotion.Proofs.Delivery

namespace PointerMotion

variable {α : Type}

/-- The actions that have a part in the motion. -/
def Action.motions : List Action :=
  [move, hoverMove, down, hoverEnter, pointerDown]

namespace MotionEvent

/-- Whether an event falls into two behind its first `count` samples: one of the
same action, and a movement of the same pointers with the rest. -/
structure SplitsInto (e : MotionEvent α) (count : Nat)
    (first rest : MotionEvent α) : Prop where
  action : first.action = e.action
  ids : first.ids = e.ids
  actionIndex : first.actionIndex = e.actionIndex
  carried : first.carried = e.carried.take count
  action_rest : rest.action = .move
  ids_rest : rest.ids = e.ids
  carried_rest : rest.carried = e.carried.drop count

/-- An event that carries some samples of an accepted one is accepted. -/
theorem Fits.of_carried {e other : MotionEvent α} (h : e.Fits)
    (hids : other.ids = e.ids) (hindex : other.actionIndex = e.actionIndex)
    (hcarried : ∀ s ∈ other.carried, s ∈ e.carried) :
    other.Fits where
  nodup := hids ▸ h.nodup
  sized s hs := hids ▸ h.sized s (hcarried s hs)
  index := by
    rw [hids, hindex]
    exact h.index

/-- An event can be split behind each of its samples but the last. -/
theorem exists_splitsInto {e : MotionEvent α} (h : e.Fits) {count : Nat}
    (hpos : 0 < count) (hlt : count < e.carried.length) :
    ∃ first rest, first.check = .ok first ∧ rest.check = .ok rest ∧
      e.SplitsInto count first rest := by
  obtain ⟨k, rfl⟩ : ∃ k, count = k + 1 := ⟨count - 1, by omega⟩
  have hlength : k < e.history.length := by
    rw [carried, List.length_append, List.length_singleton] at hlt
    omega
  let first :=
    { e with history := e.history.take k, final := e.history.get ⟨k, hlength⟩ }
  let rest := { e with action := .move, history := e.history.drop (k + 1) }
  have hsplit : e.SplitsInto (k + 1) first rest := by
    refine ⟨rfl, rfl, rfl, ?_, rfl, rfl, ?_⟩
    · rw [carried, carried, List.take_append_of_le_length hlength,
        List.take_add_one, List.getElem?_eq_getElem hlength]
      rfl
    · rw [carried, carried, List.drop_append_of_le_length hlength]
  have hfirst : first.Fits := h.of_carried rfl rfl fun s hs =>
    List.mem_of_mem_take (hsplit.carried ▸ hs)
  have hrest : rest.Fits := h.of_carried rfl rfl fun s hs =>
    List.mem_of_mem_drop (hsplit.carried_rest ▸ hs)
  exact ⟨first, rest, check_eq_ok_iff.mpr ⟨rfl, hfirst⟩,
    check_eq_ok_iff.mpr ⟨rfl, hrest⟩, hsplit⟩

section Steps

variable [Scalar α]

/-- What an event does before its samples are added. -/
def opening (e : MotionEvent α) : List (Except InputError (Step α)) :=
  match e.action with
  | .down | .hoverEnter => [.ok .clear]
  | .pointerDown =>
      [e.actionPointer?.bind fun id => Step.ofChoice (.listed [id])]
  | _ => []

theorem steps_eq_opening_append {e : MotionEvent α}
    (h : e.action ∈ Action.motions) :
    e.steps = e.opening ++ e.sampleSteps := by
  rw [steps, opening]
  revert h
  cases e.action <;> simp [Action.motions]

/-- A time counts for the whole number that it denotes. -/
theorem ofSample_eq {time : Reading α} {now : Int} (h : time.toInt = .ok now)
    (ids : PointerSet) (points : List (Point α)) :
    Step.ofSample ⟨time, ids, points⟩ =
      Step.ofSample ⟨.whole now, ids, points⟩ := by
  have hread : Movement.read? time ids points =
      Movement.read? (.whole now) ids points := by
    rw [Movement.read?, Movement.read?, h]
    rfl
  rw [Step.ofSample, Step.ofSample, hread]

/-- The movement that a sample of an event delivers. -/
def deliver (e : MotionEvent α) (ids : PointerSet) (s : EventSample α) :
    Except InputError (Step α) :=
  ((e.arrange s.points).mapM Point.pair?).bind fun points =>
    Step.ofSample ⟨s.time, ids, points⟩

/-- Each sample delivers its movement in the same way, the final one among
them. -/
theorem sampleSteps_eq {e : MotionEvent α}
    (htimes : ∀ s ∈ e.carried, ∃ time, s.time.toInt = .ok time)
    {ids : PointerSet} (hids : e.idSet? = .ok ids) :
    e.sampleSteps = e.carried.map (e.deliver ids) := by
  have hhistory : ∀ s, (e.readyHistorical ids s).bind Step.ofSample =
      e.deliver ids s := by
    intro s
    rw [readyHistorical, deliver]
    cases (e.arrange s.points).mapM Point.pair? <;> rfl
  have hfinal : (e.readyFinal ids).bind Step.ofSample =
      e.deliver ids e.final := by
    obtain ⟨now, hnow⟩ :=
      htimes e.final (List.mem_append_right _ List.mem_cons_self)
    rw [readyFinal, deliver, hnow]
    cases (e.arrange e.final.points).mapM Point.pair? with
    | error cause => rfl
    | ok points => exact (ofSample_eq hnow ids points).symm
  rw [sampleSteps, samples, hids]
  simp only [Except.map, List.map_append, List.map_map, carried,
    Function.comp_def, hhistory, hfinal, List.map_cons, List.map_nil]

/-- A part of an event delivers its samples as the event does. -/
theorem sampleSteps_of_carried {e part : MotionEvent α}
    (hids : part.ids = e.ids) (hcarried : ∀ s ∈ part.carried, s ∈ e.carried)
    (htimes : ∀ s ∈ e.carried, ∃ time, s.time.toInt = .ok time)
    {ids : PointerSet} (hset : e.idSet? = .ok ids) :
    part.sampleSteps = part.carried.map (e.deliver ids) := by
  have hdeliver : part.deliver ids = e.deliver ids := by
    funext s
    rw [deliver, deliver, arrange, arrange, hids]
  have hset' : part.idSet? = .ok ids := by rwa [idSet?, hids, ← idSet?]
  rw [sampleSteps_eq (fun s hs => htimes s (hcarried s hs)) hset', hdeliver]

theorem sampleSteps_of_error {e : MotionEvent α} {cause : InputError}
    (hids : e.idSet? = .error cause) : e.sampleSteps = [.error cause] := by
  rw [sampleSteps, samples, hids]
  rfl

end Steps

end MotionEvent

namespace Tracker

variable [Scalar α] {e : MotionEvent α}

section Split

variable {count : Nat} {first rest : MotionEvent α}
    (hsplit : e.SplitsInto count first rest)

include hsplit

/-- The samples of the two parts, one after the other, are those of the
event. -/
theorem takeAll_sampleSteps_of_splitsInto
    (htimes : ∀ s ∈ e.carried, ∃ time, s.time.toInt = .ok time)
    (t : Tracker α) :
    t.takeAll e.sampleSteps =
      (t.takeAll first.sampleSteps).andThen (takeAll rest.sampleSteps) := by
  cases hset : e.idSet? with
  | error cause =>
      have hfirst : first.idSet? = .error cause := by
        rwa [MotionEvent.idSet?, hsplit.ids, ← MotionEvent.idSet?]
      rw [MotionEvent.sampleSteps_of_error hset,
        MotionEvent.sampleSteps_of_error hfirst, takeAll_singleton]
      rfl
  | ok ids =>
      have hfirst := MotionEvent.sampleSteps_of_carried hsplit.ids
        (fun s hs => List.mem_of_mem_take (hsplit.carried ▸ hs)) htimes hset
      have hrest := MotionEvent.sampleSteps_of_carried hsplit.ids_rest
        (fun s hs => List.mem_of_mem_drop (hsplit.carried_rest ▸ hs)) htimes
        hset
      rw [MotionEvent.sampleSteps_eq htimes hset, hfirst, hrest, hsplit.carried,
        hsplit.carried_rest, ← takeAll_append, ← List.map_append,
        List.take_append_drop]

/-- The two parts of an event do what the event does, unless the first of them
fails. -/
theorem addEvent_of_splitsInto (hmotion : e.action ∈ Action.motions)
    (htimes : ∀ s ∈ e.carried, ∃ time, s.time.toInt = .ok time)
    (t : Tracker α) :
    t.addEvent e = (t.addEvent first).andThen fun t => t.addEvent rest := by
  have hopening : first.opening = e.opening := by
    rw [MotionEvent.opening, MotionEvent.opening, MotionEvent.actionPointer?,
      MotionEvent.actionPointer?, hsplit.action, hsplit.ids, hsplit.actionIndex]
  have hrest : rest.steps = rest.sampleSteps := by
    rw [MotionEvent.steps, hsplit.action_rest]
  have hmotionFirst : first.action ∈ Action.motions := hsplit.action ▸ hmotion
  calc t.addEvent e
      = (t.takeAll e.opening).andThen (takeAll e.sampleSteps) := by
        rw [← takeAll_eventSteps, MotionEvent.steps_eq_opening_append hmotion,
          takeAll_append]
    _ = (t.takeAll e.opening).andThen fun t =>
          (t.takeAll first.sampleSteps).andThen (takeAll rest.sampleSteps) := by
        rw [funext (takeAll_sampleSteps_of_splitsInto hsplit htimes)]
    _ = ((t.takeAll first.opening).andThen (takeAll first.sampleSteps)).andThen
          (takeAll rest.sampleSteps) := by
        rw [hopening, Outcome.andThen_assoc]
    _ = (t.addEvent first).andThen fun t => t.addEvent rest := by
        rw [← takeAll_append,
          ← MotionEvent.steps_eq_opening_append hmotionFirst,
          takeAll_eventSteps, ← hrest]
        simp only [← takeAll_eventSteps]

end Split

/-- Performs calls until one fails. -/
def performAll (calls : List (Call α)) (t : Tracker α) : Outcome (Tracker α) :=
  Outcome.runAll (calls.map fun c t => t.perform c) t

end Tracker

namespace MotionEvent

variable [Scalar α]

/-- The samples of an event, each as the addition that a caller would make by
hand. -/
def additions (e : MotionEvent α) : List (Call α) :=
  e.carried.map fun s => .add s.time (.listed e.ids) (e.arrange s.points)

end MotionEvent

namespace Tracker

variable [Scalar α] {e : MotionEvent α}

/-- The samples of an event that gives pairs are added as by hand. -/
theorem addSamples_eq_performAll (hpairs : e.GivesPairs)
    (htimes : ∀ s ∈ e.carried, ∃ time, s.time.toInt = .ok time)
    (t : Tracker α) :
    t.addSamples e = t.performAll e.additions := by
  rw [← takeAll_sampleSteps, performAll, MotionEvent.additions, List.map_map]
  cases hids : PointerSet.ofInts? e.ids with
  | error cause =>
      have hfail : ∀ (s : EventSample α) (t : Tracker α),
          t.perform (.add s.time (.listed e.ids) (e.arrange s.points)) =
            .failed t (.pointer cause) := by
        intro s t
        rw [perform, add, PointerChoice.toSet?, hids]
        rfl
      have hset : e.idSet? = .error (.pointer cause) := by
        rw [MotionEvent.idSet?, hids]
        rfl
      rw [MotionEvent.sampleSteps_of_error hset, takeAll_singleton]
      -- there is always a sample, and the first of them is refused
      obtain ⟨s, rest, hcarried⟩ := List.exists_cons_of_ne_nil
        (List.append_ne_nil_of_right_ne_nil e.history
            (List.cons_ne_nil e.final []))
      rw [MotionEvent.carried, hcarried, List.map_cons, Outcome.runAll_cons,
        Function.comp_apply, hfail]
      rfl
  | ok ids =>
      have hadd : e.carried.map (take ∘ e.deliver ids) =
          e.carried.map ((fun c (t : Tracker α) => t.perform c) ∘ fun s =>
            Call.add s.time (.listed e.ids) (e.arrange s.points)) := by
        apply List.map_congr_left
        intro s hs
        funext t
        rw [Function.comp_apply, Function.comp_apply, MotionEvent.deliver,
          MotionEvent.mapM_pair?_arrange (hpairs s hs), perform, add,
          PointerChoice.toSet?, hids]
        exact t.take_ofSample ⟨s.time, ids, e.arrange s.points⟩
      rw [MotionEvent.sampleSteps_eq htimes
        (MotionEvent.idSet?_eq_ok_iff.mpr hids), takeAll, List.map_map, hadd]

/-- It makes no difference whether samples come in one event or in several.  An
accepted event whose times can be read may be split behind each sample but the
last, and if it has a part in the motion, it does what the first part does and
then, unless that failed, the rest.  So an event does what its opening does and
then its samples, added one by one. -/
theorem addEvent_split_and_addEvent_eq (he : e.Accepted)
    (htimes : ∀ s ∈ e.carried, ∃ time, s.time.toInt = .ok time) :
    (e.action ∈ Action.motions → ∀ count, 0 < count → count < e.carried.length →
      (∃ first rest, first.check = .ok first ∧ rest.check = .ok rest ∧
        e.SplitsInto count first rest) ∧
      ∀ first rest, e.SplitsInto count first rest → ∀ t : Tracker α,
        t.addEvent e = (t.addEvent first).andThen fun t => t.addEvent rest) ∧
    (e.GivesPairs → ∀ t : Tracker α, t.addEvent e =
      (t.openEvent? e).elim (.done t) fun opened =>
        opened.andThen (performAll e.additions)) := by
  constructor
  · intro hmotion count hpos hlt
    refine ⟨MotionEvent.exists_splitsInto he.fits hpos hlt, ?_⟩
    intro first rest hsplit t
    exact addEvent_of_splitsInto hsplit hmotion htimes t
  · intro hpairs t
    rw [addEvent, funext (addSamples_eq_performAll hpairs htimes)]
    cases t.openEvent? e <;> rfl

/-- A pointer that goes down is forgotten once, before the first of three
samples. -/
theorem addEvent_pairDown :
    (∃ first rest, pairDown.SplitsInto 2 first rest ∧ ∀ t : Tracker Float,
      t.addEvent pairDown = (t.addEvent first).andThen fun t =>
        t.addEvent rest) ∧
    ∀ t : Tracker Float, t.addEvent pairDown =
      (t.clearPointers (.listed [3])).andThen (performAll
        [.add (.whole 0) (.listed [3, 1]) [.ofPosition ⟨10.0, 1.0⟩,
            .ofPosition ⟨30.0, 3.0⟩],
            .add (.whole 5) (.listed [3, 1]) [.ofPosition ⟨11.0, 1.0⟩,
              .ofPosition ⟨31.0, 3.0⟩], .add (.whole 10) (.listed [3, 1])
            [.ofPosition ⟨12.0, 1.0⟩, .ofPosition ⟨32.0, 3.0⟩]]) := by
  have haccepted : pairDown.Accepted :=
    .made (rfl : pairDown.check = .ok pairDown)
  have htimes : ∀ s ∈ pairDown.carried, ∃ time, s.time.toInt = .ok time := by
    simp [MotionEvent.carried, pairDown, Reading.toInt]
  have hadditions : pairDown.additions =
      [.add (.whole 0) (.listed [3, 1]) [.ofPosition ⟨10.0, 1.0⟩,
      .ofPosition ⟨30.0, 3.0⟩],
      .add (.whole 5) (.listed [3, 1]) [.ofPosition ⟨11.0, 1.0⟩,
      .ofPosition ⟨31.0, 3.0⟩], .add (.whole 10) (.listed [3, 1])
          [.ofPosition ⟨12.0, 1.0⟩, .ofPosition ⟨32.0, 3.0⟩]] := by
    simp [MotionEvent.additions, MotionEvent.carried, MotionEvent.arrange,
      pairDown, List.mergeSort, List.MergeSort.Internal.splitInTwo]
  obtain ⟨hsplit, hadded⟩ := addEvent_split_and_addEvent_eq haccepted htimes
  rw [hadditions] at hadded
  constructor
  · obtain ⟨⟨first, rest, -, -, hparts⟩, hsame⟩ :=
      hsplit (by decide) 2 (by decide) (by decide)
    exact ⟨first, rest, hparts, hsame first rest hparts⟩
  · exact hadded (by decide)

end Tracker

end PointerMotion
