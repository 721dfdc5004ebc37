/-
Calls taken apart into steps.  What a call delivers can be read off its
arguments, so whatever every step keeps is kept by every run of calls.
-/
import PointerMotion.Proofs.Masking

namespace PointerMotion

variable {α : Type}

namespace Outcome

variable {σ : Type}

@[simp] theorem done_andThen (s : σ) (next : σ → Outcome σ) :
    (done s).andThen next = next s := by
  simp [andThen, done]

theorem andThen_done (o : Outcome σ) : o.andThen done = o := by
  obtain ⟨state, warnings, _ | e⟩ := o <;> simp [andThen, done]

theorem andThen_assoc (o : Outcome σ) (f g : σ → Outcome σ) :
    (o.andThen f).andThen g = o.andThen fun s => (f s).andThen g := by
  obtain ⟨state, warnings, _ | e⟩ := o
  · rcases hf : f state with ⟨next, more, _ | e⟩ <;> simp [andThen, hf]
  · rfl

theorem foldl_andThen (ops : List (σ → Outcome σ)) (o : Outcome σ) :
    ops.foldl andThen o = o.andThen (runAll ops) := by
  induction ops generalizing o with
  | nil => exact o.andThen_done.symm
  | cons op rest ih =>
      have hcons : runAll (op :: rest) = fun s =>
          (op s).andThen (runAll rest) := by
        funext s
        rw [runAll, List.foldl_cons, done_andThen, ih]
      rw [List.foldl_cons, ih, hcons, andThen_assoc]

@[simp] theorem runAll_nil (s : σ) : runAll [] s = done s :=
  rfl

theorem runAll_cons (op : σ → Outcome σ) (rest : List (σ → Outcome σ)) (s : σ) :
    runAll (op :: rest) s = (op s).andThen (runAll rest) := by
  rw [runAll, List.foldl_cons, done_andThen, foldl_andThen]

theorem runAll_append (ops later : List (σ → Outcome σ)) (s : σ) :
    runAll (ops ++ later) s = (runAll ops s).andThen (runAll later) := by
  rw [runAll, List.foldl_append, foldl_andThen]
  rfl

theorem runAll_singleton (op : σ → Outcome σ) (s : σ) :
    runAll [op] s = op s := by
  rw [runAll_cons]
  exact andThen_done _

end Outcome

section Steps

variable [Scalar α]

namespace Step

def ofSample (s : Sample α) : Except InputError (Step α) :=
  (Movement.read? s.time s.ids s.points).map add

def ofChoice (gone : PointerChoice) : Except InputError (Step α) :=
  (gone.toSet?.mapError .pointer).map clearPointers

end Step

namespace MotionEvent

def sampleSteps (e : MotionEvent α) : List (Except InputError (Step α)) :=
  match e.samples with
  | .error cause => [.error cause]
  | .ok samples => samples.map fun sample => sample.bind Step.ofSample

/-- The steps that an event delivers. -/
def steps (e : MotionEvent α) : List (Except InputError (Step α)) :=
  match e.action with
  | .down | .hoverEnter => .ok .clear :: e.sampleSteps
  | .pointerDown =>
      e.actionPointer?.bind (fun id => Step.ofChoice (.listed [id])) ::
        e.sampleSteps
  | .move | .hoverMove => e.sampleSteps
  | .up | .cancel | .pointerUp | .hoverExit => []

end MotionEvent

namespace Call

/-- The steps that a call delivers, each as far as its arguments can be read. -/
def steps : Call α → List (Except InputError (Step α))
  | add time ids points =>
      [(ids.toSet?.mapError .pointer).bind fun set =>
        Step.ofSample ⟨time, set, points⟩]
  | clear => [.ok .clear]
  | clearPointers gone => [Step.ofChoice gone]
  | event e => e.steps

/-- The times of the movements that a call delivers. -/
def times (c : Call α) : List Int :=
  c.steps.filterMap fun delivered => delivered.toOption.bind Step.time?

theorem mem_times {c : Call α} {step : Step α} {time : Int}
    (hstep : .ok step ∈ c.steps) (htime : step.time? = some time) :
    time ∈ c.times :=
  List.mem_filterMap.mpr ⟨.ok step, hstep, htime⟩

end Call

namespace Tracker

/-- Performs a delivered step, if it can be read. -/
def take (delivered : Except InputError (Step α)) (t : Tracker α) :
    Outcome (Tracker α) :=
  Outcome.orFail delivered t fun step => t.perform step.call

@[simp] theorem take_ok (step : Step α) (t : Tracker α) :
    t.take (.ok step) = t.perform step.call :=
  rfl

@[simp] theorem take_error (e : InputError) (t : Tracker α) :
    t.take (.error e) = .failed t e :=
  rfl

/-- Performs delivered steps until one fails. -/
def takeAll (delivered : List (Except InputError (Step α))) (t : Tracker α) :
    Outcome (Tracker α) :=
  Outcome.runAll (delivered.map take) t

theorem takeAll_cons (d : Except InputError (Step α))
    (rest : List (Except InputError (Step α))) (t : Tracker α) :
    t.takeAll (d :: rest) = (t.take d).andThen (takeAll rest) :=
  Outcome.runAll_cons _ _ t

theorem takeAll_append (delivered later : List (Except InputError (Step α)))
    (t : Tracker α) :
    t.takeAll (delivered ++ later) =
      (t.takeAll delivered).andThen (takeAll later) := by
  rw [takeAll, List.map_append]
  exact Outcome.runAll_append _ _ t

theorem takeAll_singleton (d : Except InputError (Step α)) (t : Tracker α) :
    t.takeAll [d] = t.take d :=
  Outcome.runAll_singleton _ t

theorem take_ofSample (s : Sample α) (t : Tracker α) :
    t.take (Step.ofSample s) = t.addSet s.time s.ids s.points := by
  rw [addSet_eq, Step.ofSample]
  cases Movement.read? s.time s.ids s.points with
  | error e => rfl
  | ok m => exact t.perform_add m

theorem take_ofChoice (gone : PointerChoice) (t : Tracker α) :
    t.take (Step.ofChoice gone) = t.clearPointers gone := by
  rw [clearPointers, Step.ofChoice]
  cases gone.toSet? <;> rfl

theorem takeAll_sampleSteps (e : MotionEvent α) (t : Tracker α) :
    t.takeAll e.sampleSteps = t.addSamples e := by
  rw [addSamples, MotionEvent.sampleSteps]
  cases e.samples with
  | error cause => exact t.takeAll_singleton (.error cause)
  | ok samples =>
      have hsample : take ∘ (fun sample => sample.bind Step.ofSample) =
          addSample (α := α) := by
        funext sample t
        cases sample with
        | error e => rfl
        | ok s => exact t.take_ofSample s
      simp only [takeAll, List.map_map, hsample]
      rfl

theorem takeAll_eventSteps (e : MotionEvent α) (t : Tracker α) :
    t.takeAll e.steps = t.addEvent e := by
  have hsamples : takeAll e.sampleSteps = addSamples e :=
    funext fun t => t.takeAll_sampleSteps e
  rw [MotionEvent.steps, addEvent, openEvent?]
  cases e.action with
  | down | hoverEnter => rw [takeAll_cons, hsamples]; rfl
  | pointerDown =>
      rw [takeAll_cons, hsamples]
      congr 1
      cases e.actionPointer? with
      | error cause => rfl
      | ok id => exact t.take_ofChoice (.listed [id])
  | move | hoverMove => rw [hsamples]; exact (Outcome.done_andThen t _).symm
  | up | cancel | pointerUp | hoverExit => rfl

/-- A call performs the steps that it delivers, until one fails. -/
theorem perform_eq_takeAll (c : Call α) (t : Tracker α) :
    t.perform c = t.takeAll c.steps := by
  cases c with
  | add time ids points =>
      rw [Call.steps, takeAll_singleton, perform, add]
      cases ids.toSet? with
      | error e => rfl
      | ok set => exact (t.take_ofSample ⟨time, set, points⟩).symm
  | clear => exact (t.takeAll_singleton (.ok .clear)).symm
  | clearPointers gone =>
      exact (t.take_ofChoice gone).symm.trans (t.takeAll_singleton _).symm
  | event e => exact (t.takeAll_eventSteps e).symm

section Kept

variable {related : Tracker α → Tracker α → Prop}

/-- Delivered steps keep what each of them keeps. -/
theorem alike_takeAll {delivered : List (Except InputError (Step α))}
    (hstep : ∀ step, .ok step ∈ delivered → ∀ s t, related s t →
      Outcome.Alike related (s.perform step.call) (t.perform step.call))
    {s t : Tracker α} (h : related s t) :
    Outcome.Alike related (s.takeAll delivered) (t.takeAll delivered) := by
  apply Outcome.alike_runAll _ h
  intro op hop s t halike
  obtain ⟨d, hd, rfl⟩ := List.mem_map.mp hop
  cases d with
  | error e => exact ⟨halike, rfl⟩
  | ok step => exact hstep step hd s t halike

/-- A relation between trackers that every step keeps is kept by every call. -/
theorem alike_perform_of_step {c : Call α}
    (hstep : ∀ step, .ok step ∈ c.steps → ∀ s t, related s t →
      Outcome.Alike related (s.perform step.call) (t.perform step.call))
    {s t : Tracker α} (h : related s t) :
    Outcome.Alike related (s.perform c) (t.perform c) := by
  rw [perform_eq_takeAll, perform_eq_takeAll]
  exact alike_takeAll hstep h

/-- A property of trackers that every delivered step keeps is kept by every run
of calls. -/
theorem after_induction {P : Tracker α → Prop} {calls : List (Call α)}
    (hstep : ∀ c ∈ calls, ∀ step, .ok step ∈ c.steps → ∀ t, P t →
      P (t.perform step.call).state) {t : Tracker α} (h : P t) :
      P (t.after calls) := by
  induction calls generalizing t with
  | nil => exact h
  | cons c rest ih =>
      -- a property is a relation of trackers to themselves
      have hkept : Outcome.Alike (fun s t => s = t ∧ P t) (t.perform c)
          (t.perform c) :=
        alike_perform_of_step (fun step hstep' s t ⟨heq, ht⟩ => heq ▸
          ⟨⟨rfl, hstep c List.mem_cons_self step hstep' s (heq ▸ ht)⟩,
          rfl⟩) ⟨rfl, h⟩
      exact ih (fun c hc => hstep c (List.mem_cons_of_mem _ hc)) hkept.state.2

end Kept

end Tracker

end Steps

end PointerMotion
