/-
The order in which pointers joined: the tracker's list runs by the calls with
which the pointers joined last, and the active one joined last of all.
-/
import Mathlib.Data.List.Induction
import PointerMotion.Proofs.Roster

namespace PointerMotion

variable {α : Type}

/-- Whether a call is an event, which makes calls of the other kinds. -/
def Call.isEvent : Call α → Bool
  | event _ => true
  | _ => false

namespace Tracker

variable [Scalar α]

/-- The calls that delivered steps come to, up to the first that fails. -/
def callsMade (t : Tracker α) :
    List (Except InputError (Step α)) → List (Call α)
  | .ok step :: rest =>
      step.call ::
        if (t.perform step.call).error.isNone then
          (t.perform step.call).state.callsMade rest
        else []
  | _ => []

/-- The calls that an event makes; any other call stands for itself. -/
def expand (t : Tracker α) : Call α → List (Call α)
  | .event e => t.callsMade e.steps
  | c => [c]

/-- A run with the calls that its events make in their place. -/
def expandAll (t : Tracker α) : List (Call α) → List (Call α)
  | [] => []
  | c :: rest => t.expand c ++ (t.perform c).state.expandAll rest

theorem after_callsMade (t : Tracker α)
    (delivered : List (Except InputError (Step α))) :
    t.after (t.callsMade delivered) = (t.takeAll delivered).state := by
  induction delivered generalizing t with
  | nil => rfl
  | cons d rest ih =>
      cases d with
      | error e =>
          rw [takeAll_cons, take_error, Outcome.andThen_of_error_some rfl]
          rfl
      | ok step =>
          rw [takeAll_cons, take_ok, callsMade]
          cases herror : (t.perform step.call).error with
          | none =>
              rw [Outcome.andThen_of_error_none herror]
              exact ih _
          | some e =>
              rw [Outcome.andThen_of_error_some herror]
              rfl

theorem after_expand (t : Tracker α) (c : Call α) :
    t.after (t.expand c) = (t.perform c).state := by
  cases c with
  | event e => rw [expand, after_callsMade, perform_eq_takeAll, Call.steps]
  | add time ids points => rfl
  | clear => rfl
  | clearPointers gone => rfl

/-- A run leaves the same whether or not its events are expanded. -/
theorem after_expandAll (t : Tracker α) (calls : List (Call α)) :
    t.after (t.expandAll calls) = t.after calls := by
  induction calls generalizing t with
  | nil => rfl
  | cons c rest ih =>
      rw [expandAll, after_append, after_expand, ih]
      rfl

omit [Scalar α] in
theorem isEvent_call (step : Step α) : step.call.isEvent = false := by
  cases step <;> rfl

theorem isEvent_of_mem_callsMade {t : Tracker α}
    {delivered : List (Except InputError (Step α))} {c : Call α}
    (h : c ∈ t.callsMade delivered) : c.isEvent = false := by
  induction delivered generalizing t with
  | nil => cases h
  | cons d rest ih =>
      cases d with
      | error e => cases h
      | ok step =>
          rw [callsMade] at h
          rcases List.mem_cons.mp h with rfl | hrest
          · exact isEvent_call step
          · split at hrest
            · exact ih hrest
            · cases hrest

theorem isEvent_of_mem_expandAll {t : Tracker α} {calls : List (Call α)}
    {c : Call α} (h : c ∈ t.expandAll calls) : c.isEvent = false := by
  induction calls generalizing t with
  | nil => cases h
  | cons first rest ih =>
      rw [expandAll] at h
      rcases List.mem_append.mp h with hfirst | hrest
      · cases first with
        | event e => exact isEvent_of_mem_callsMade hfirst
        | add time ids points => exact List.mem_singleton.mp hfirst ▸ rfl
        | clear => exact List.mem_singleton.mp hfirst ▸ rfl
        | clearPointers gone => exact List.mem_singleton.mp hfirst ▸ rfl
      · exact ih hrest

/-- A run without events is its own expansion. -/
theorem expandAll_eq_self {t : Tracker α} {calls : List (Call α)}
    (h : ∀ c ∈ calls, c.isEvent = false) : t.expandAll calls = calls := by
  induction calls generalizing t with
  | nil => rfl
  | cons c rest ih =>
      have hself : t.expand c = [c] := by
        have hc := h c List.mem_cons_self
        cases c with
        | event e => cases hc
        | add time ids points => rfl
        | clear => rfl
        | clearPointers gone => rfl
      rw [expandAll, hself, ih fun d hd => h d (List.mem_cons_of_mem c hd)]
      rfl

/-- A call that is no event delivers one step, if it can be read. -/
theorem exists_perform_eq_take {c : Call α} (h : c.isEvent = false)
    (t : Tracker α) :
    ∃ d, t.perform c = t.take d := by
  rw [perform_eq_takeAll]
  cases c with
  | event e => cases h
  | add time ids points => exact ⟨_, t.takeAll_singleton _⟩
  | clear => exact ⟨_, t.takeAll_singleton _⟩
  | clearPointers gone => exact ⟨_, t.takeAll_singleton _⟩

/-- The current pointers after a movement: its own, if its pause can be
measured. -/
def currentWith (t : Tracker α) (m : Movement α) : PointerSet :=
  if (t.stoppedBy m.ids m.time).isOk then m.ids else t.current

/-- The current pointers after a call: the first sixteen of a movement that is
read and measured, nobody after a clear, and those that are left after a
removal.  They stay as they are in a call that fails before it comes to them. -/
def currentAfter (t : Tracker α) : Call α → PointerSet
  | .add time ids points =>
      match ids.toSet? with
      | .ok set =>
          match Movement.read? time set points with
          | .ok m => t.currentWith (m.lowest maxPointers)
          | .error _ => t.current
      | .error _ => t.current
  | .clear => ∅
  | .clearPointers gone =>
      match gone.toSet? with
      | .ok set => t.current \ set
      | .error _ => t.current
  | .event e => (t.after (t.callsMade e.steps)).current

theorem current_addMovement_eq (t : Tracker α) (m : Movement α) :
    (t.addMovement m).state.current = t.currentWith m := by
  rw [currentWith]
  rcases t.addMovement_cases m with ⟨e, hstopped, hadd⟩ | ⟨stopped, hstopped⟩
  · rw [hadd, hstopped]
    rfl
  · rw [addMovement_of_stoppedBy hstopped, hstopped]
    rfl

theorem current_perform (t : Tracker α) (c : Call α) :
    (t.perform c).state.current = t.currentAfter c := by
  cases c with
  | add time ids points =>
      rw [perform, add, currentAfter]
      cases ids.toSet? with
      | error e => rfl
      | ok set =>
          change (t.addSet time set points).state.current = _
          dsimp only
          rw [addSet_eq]
          cases Movement.read? time set points with
          | error e => rfl
          | ok m => exact t.current_addMovement_eq (m.lowest maxPointers)
  | clear => rfl
  | clearPointers gone =>
      rw [perform, clearPointers, currentAfter]
      cases gone.toSet? <;> rfl
  | event e => rw [currentAfter, ← after_expand, expand]

/-- Each call of a run takes the current pointers on from those before it. -/
theorem current_after_take (t : Tracker α) {calls : List (Call α)} {count : Nat}
    {c : Call α} (h : calls[count]? = some c) :
    (t.after (calls.take (count + 1))).current =
      (t.after (calls.take count)).currentAfter c := by
  rw [List.take_add_one, h, Option.toList_some, after_append, ← current_perform]
  rfl

/-- What becomes of the list of pointers: who left is struck out, who joined
comes behind. -/
def Regroups (t u : Tracker α) : Prop :=
  u.introduced = t.introduced.filter (· ∈ u.current) ++
    (u.current \ t.current).toList

omit [Scalar α] in
theorem regroups_setCurrent (t : Tracker α) (ids : PointerSet) :
    t.Regroups (t.setCurrent ids) :=
  rfl

omit [Scalar α] in
/-- Nobody leaves or joins where nothing changes. -/
theorem regroups_self {t : Tracker α}
    (h : ∀ id ∈ t.introduced, id ∈ t.current) :
    t.Regroups t := by
  have hnobody : (t.current \ t.current).toList = [] :=
    List.filter_eq_nil_iff.mpr fun id _ => by simp
  have hstay : t.introduced.filter (· ∈ t.current) = t.introduced :=
    List.filter_eq_self.mpr fun id hid => by simpa using h id hid
  rw [Regroups, hnobody, hstay, List.append_nil]

/-- Every call that is no event regroups the pointers, also one that fails. -/
theorem regroups_perform {t : Tracker α}
    (h : ∀ id ∈ t.introduced, id ∈ t.current) {c : Call α}
    (hc : c.isEvent = false) : t.Regroups (t.perform c).state := by
  obtain ⟨d, hd⟩ := exists_perform_eq_take hc t
  rw [hd]
  rcases d with e | m | _ | gone
  · exact regroups_self h
  · rw [take_ok, perform_add]
    rcases t.addMovement_cases (m.lowest maxPointers) with ⟨e, -, hadd⟩ |
      ⟨stopped, hstopped⟩
    · rw [hadd]
      exact regroups_self h
    · rw [addMovement_of_stoppedBy hstopped]
      exact t.regroups_setCurrent (m.lowest maxPointers).ids
  · exact t.regroups_setCurrent ∅
  · exact t.regroups_setCurrent (t.current \ gone)

section Joining

variable {t : Tracker α} {calls : List (Call α)}
    {id other : PointerId} {place : Nat}

/-- Whether a pointer joins with the call at a place: absent before it and
current after it. -/
def JoinsAt (t : Tracker α) (calls : List (Call α)) (id : PointerId)
    (place : Nat) : Prop :=
  id ∉ (t.after (calls.take place)).current ∧
    id ∈ (t.after (calls.take (place + 1))).current

/-- Whether the call at a place is the latest with which a pointer joins. -/
def JoinsLast (t : Tracker α) (calls : List (Call α)) (id : PointerId)
    (place : Nat) : Prop :=
  t.JoinsAt calls id place ∧ ∀ later, t.JoinsAt calls id later → later ≤ place

/-- Whether one pointer joined last before another did, or with the same call
and a smaller id. -/
def JoinedBefore (t : Tracker α) (calls : List (Call α))
    (id other : PointerId) : Prop :=
  ∃ place later, t.JoinsLast calls id place ∧ t.JoinsLast calls other later ∧
    (place < later ∨ place = later ∧ id < other)

theorem JoinsLast.unique {later : Nat} (h : t.JoinsLast calls id place)
    (h' : t.JoinsLast calls id later) : place = later :=
  Nat.le_antisymm (h'.2 place h.1) (h.2 later h'.1)

theorem lt_length_of_joinsAt (h : t.JoinsAt calls id place) :
    place < calls.length := by
  apply Nat.lt_of_not_le
  intro hlength
  rw [JoinsAt, List.take_of_length_le hlength,
    List.take_of_length_le (Nat.le_succ_of_le hlength)] at h
  exact h.1 h.2

theorem joinsAt_append_iff (c : Call α) (h : place < calls.length) :
    t.JoinsAt (calls ++ [c]) id place ↔ t.JoinsAt calls id place := by
  rw [JoinsAt, JoinsAt, List.take_append_of_le_length (Nat.le_of_lt h),
    List.take_append_of_le_length h]

theorem joinsAt_append_length_iff (c : Call α) :
    t.JoinsAt (calls ++ [c]) id calls.length ↔
      id ∉ (t.after calls).current ∧ id ∈ (t.after (calls ++ [c])).current := by
  rw [JoinsAt, List.take_left, List.take_of_length_le (by simp)]

/-- A pointer that is current does not join with the next call. -/
theorem JoinsLast.append (h : t.JoinsLast calls id place)
    (hid : id ∈ (t.after calls).current) (c : Call α) :
    t.JoinsLast (calls ++ [c]) id place := by
  refine ⟨(joinsAt_append_iff c (lt_length_of_joinsAt h.1)).mpr h.1, ?_⟩
  intro later hlater
  have hle : later ≤ calls.length := by simpa using Nat.le_of_lt_succ (by
    simpa using lt_length_of_joinsAt hlater)
  rcases Nat.lt_or_eq_of_le hle with hlt | rfl
  · exact h.2 later ((joinsAt_append_iff c hlt).mp hlater)
  · exact absurd hid ((joinsAt_append_length_iff c).mp hlater).1

/-- A pointer that joins with the newest call has never joined later. -/
theorem joinsLast_append_length {c : Call α}
    (hbefore : id ∉ (t.after calls).current)
    (hafter : id ∈ (t.after (calls ++ [c])).current) :
    t.JoinsLast (calls ++ [c]) id calls.length := by
  refine ⟨(joinsAt_append_length_iff c).mpr ⟨hbefore, hafter⟩, ?_⟩
  intro later hlater
  exact Nat.le_of_lt_succ (by simpa using lt_length_of_joinsAt hlater)

theorem JoinedBefore.append (h : t.JoinedBefore calls id other)
    (hid : id ∈ (t.after calls).current)
    (hother : other ∈ (t.after calls).current) (c : Call α) :
    t.JoinedBefore (calls ++ [c]) id other := by
  obtain ⟨place, later, hplace, hlater, horder⟩ := h
  exact ⟨place, later, hplace.append hid c, hlater.append hother c, horder⟩

theorem JoinedBefore.irrefl (id : PointerId) :
    ¬ t.JoinedBefore calls id id := by
  rintro ⟨place, later, hplace, hlater, horder⟩
  have hsame := hplace.unique hlater
  rcases horder with hlt | ⟨-, hlt⟩
  · exact absurd hsame (Nat.ne_of_lt hlt)
  · exact absurd hlt (Fin.lt_irrefl id)

end Joining

/-- The list holds the current pointers, in the order in which they joined
last. -/
structure InOrder (t : Tracker α) (calls : List (Call α)) : Prop where
  mem_iff : ∀ id, id ∈ (t.after calls).introduced ↔ id ∈ (t.after calls).current
  joined : ∀ id ∈ (t.after calls).current, ∃ place, t.JoinsLast calls id place
  pairwise : (t.after calls).introduced.Pairwise (t.JoinedBefore calls)

theorem inOrder_ofStrategy (strategy : StrategyId) (settings : Settings α) :
    (ofStrategy strategy settings).InOrder [] where
  mem_iff id := by simp [ofStrategy]
  joined id hid := absurd hid (PointerSet.not_mem_empty id)
  pairwise := .nil

namespace InOrder

variable {t : Tracker α} {calls : List (Call α)}

theorem regroups_append (h : t.InOrder calls) {c : Call α}
    (hc : c.isEvent = false) :
    (t.after calls).Regroups (t.after (calls ++ [c])) := by
  have hafter : t.after (calls ++ [c]) = ((t.after calls).perform c).state :=
    after_append t calls [c]
  rw [hafter]
  exact regroups_perform (fun id hid => (h.mem_iff id).mp hid) hc

theorem mem_introduced_append_iff (h : t.InOrder calls) {c : Call α}
    (hc : c.isEvent = false) (id : PointerId) :
    id ∈ (t.after (calls ++ [c])).introduced ↔
      id ∈ (t.after (calls ++ [c])).current := by
  rw [h.regroups_append hc, List.mem_append, List.mem_filter, h.mem_iff id,
    PointerSet.mem_toList, PointerSet.mem_sdiff, decide_eq_true_eq]
  tauto

/-- Whoever is current joined last before the next call. -/
theorem exists_joinsLast_append (h : t.InOrder calls) (c : Call α)
    {id : PointerId} (hid : id ∈ (t.after calls).current) :
    ∃ place, place < calls.length ∧ t.JoinsLast (calls ++ [c]) id place := by
  obtain ⟨place, hplace⟩ := h.joined id hid
  exact ⟨place, lt_length_of_joinsAt hplace.1, hplace.append hid c⟩

/-- One more call keeps the order: whoever joins with it comes behind whoever
stays. -/
theorem append (h : t.InOrder calls) {c : Call α} (hc : c.isEvent = false) :
    t.InOrder (calls ++ [c]) := by
  have hjoins : ∀ id ∈ ((t.after (calls ++ [c])).current \
        (t.after calls).current).toList,
      t.JoinsLast (calls ++ [c]) id calls.length := by
    intro id hid
    obtain ⟨hnow, hbefore⟩ :=
      PointerSet.mem_sdiff.mp (PointerSet.mem_toList.mp hid)
    exact joinsLast_append_length hbefore hnow
  have hkept : ∀ id ∈ (t.after calls).introduced.filter (· ∈
        (t.after (calls ++ [c])).current),
      id ∈ (t.after calls).current :=
    fun id hid => (h.mem_iff id).mp (List.mem_filter.mp hid).1
  refine ⟨h.mem_introduced_append_iff hc, ?_, ?_⟩
  · intro id hid
    by_cases hbefore : id ∈ (t.after calls).current
    · obtain ⟨place, -, hplace⟩ := h.exists_joinsLast_append c hbefore
      exact ⟨place, hplace⟩
    · exact ⟨calls.length, joinsLast_append_length hbefore hid⟩
  · rw [h.regroups_append hc, List.pairwise_append]
    refine ⟨?_, ?_, ?_⟩
    -- those that stay keep their order
    · refine (h.pairwise.filter _).imp_of_mem ?_
      intro id other hid hother horder
      exact horder.append (hkept id hid) (hkept other hother) c
    -- those that join do so with one call, by ascending id
    · refine (PointerSet.pairwise_toList _).imp_of_mem ?_
      intro id other hid hother hlt
      exact ⟨_, _, hjoins id hid, hjoins other hother, .inr ⟨rfl, hlt⟩⟩
    · intro id hid other hother
      obtain ⟨place, hlt, hplace⟩ := h.exists_joinsLast_append c (hkept id hid)
      exact ⟨place, _, hplace, hjoins other hother, .inl hlt⟩

theorem ofStrategy_after (strategy : StrategyId) (settings : Settings α)
    {calls : List (Call α)} (hcalls : ∀ c ∈ calls, c.isEvent = false) :
    (ofStrategy strategy settings).InOrder calls := by
  induction calls using List.reverseRecOn with
  | nil => exact inOrder_ofStrategy strategy settings
  | append_singleton init c ih =>
      have hinit := ih fun d hd => hcalls d (List.mem_append_left [c] hd)
      exact hinit.append
        (hcalls c (List.mem_append_right init List.mem_cons_self))

theorem nodup (h : t.InOrder calls) : (t.after calls).introduced.Nodup := by
  apply h.pairwise.imp
  rintro id other horder rfl
  exact JoinedBefore.irrefl id horder

theorem active?_eq_none_iff (h : t.InOrder calls) :
    (t.after calls).active? = none ↔ (t.after calls).current = ∅ := by
  rw [active?, List.getLast?_eq_none_iff, List.eq_nil_iff_forall_not_mem]
  constructor
  · intro hnone
    apply PointerSet.ext_of_mem
    intro id
    rw [← h.mem_iff]
    exact iff_of_false (hnone id) (PointerSet.not_mem_empty id)
  · intro hempty id hid
    rw [h.mem_iff, hempty] at hid
    exact PointerSet.not_mem_empty id hid

/-- Every current pointer but the active one joined before the active one. -/
theorem joinedBefore_active (h : t.InOrder calls) {id other : PointerId}
    (hactive : (t.after calls).active? = some id)
    (hother : other ∈ (t.after calls).current) (hne : other ≠ id) :
    t.JoinedBefore calls other id := by
  obtain ⟨others, hlist⟩ := List.getLast?_eq_some_iff.mp hactive
  have hpairwise := h.pairwise
  rw [← h.mem_iff, hlist] at hother
  rw [hlist, List.pairwise_append] at hpairwise
  rcases List.mem_append.mp hother with hearlier | hlast
  · exact hpairwise.2.2 other hearlier id List.mem_cons_self
  · exact absurd (List.mem_singleton.mp hlast) hne

/-- The active pointer is the current one that joined last. -/
theorem active?_eq_some_iff (h : t.InOrder calls) (id : PointerId) :
    (t.after calls).active? = some id ↔
      id ∈ (t.after calls).current ∧ ∃ place, t.JoinsLast calls id place ∧
        ∀ other ∈ (t.after calls).current, ∀ place',
          t.JoinsLast calls other place' →
          place' < place ∨ place' = place ∧ other ≤ id := by
  constructor
  · intro hactive
    have hcurrent : id ∈ (t.after calls).current :=
      (h.mem_iff id).mp (List.mem_of_getLast? hactive)
    obtain ⟨place, hplace⟩ := h.joined id hcurrent
    refine ⟨hcurrent, place, hplace, ?_⟩
    intro other hother place' hplace'
    by_cases heq : other = id
    · subst heq
      exact .inr ⟨hplace'.unique hplace, Fin.le_refl other⟩
    · obtain ⟨earlier, later, hearlier, hlater, horder⟩ :=
        h.joinedBefore_active hactive hother heq
      rw [hplace'.unique hearlier, hplace.unique hlater]
      exact horder.imp_right fun htie => ⟨htie.1, Fin.le_of_lt htie.2⟩
  · rintro ⟨hcurrent, place, hplace, hlatest⟩
    cases hactive : (t.after calls).active? with
    | none =>
        have hempty := h.active?_eq_none_iff.mp hactive
        exact absurd (hempty ▸ hcurrent) (PointerSet.not_mem_empty id)
    | some last =>
        by_cases heq : id = last
        · rw [heq]
        -- another pointer at the end would have joined later, or with the same
        -- call by a larger id
        · have hlast : last ∈ (t.after calls).current :=
            (h.mem_iff last).mp (List.mem_of_getLast? hactive)
          obtain ⟨earlier, later, hearlier, hlater, horder⟩ :=
            h.joinedBefore_active hactive hcurrent heq
          have hlimit := hlatest last hlast later hlater
          rw [hplace.unique hearlier] at hlimit
          simp only [Fin.le_def, Fin.lt_def] at hlimit horder
          omega

end InOrder

/-- The active pointer is the one introduced last.  A run with its events
expanded leaves the same, and each call of it takes the current pointers on by
its kind.  After each call the introduced pointers are the current ones, each
listed once, there is an active one unless none is current, and it is the
current pointer whose latest joining is the most recent, among those that joined
with one call the one of the largest id. -/
theorem active_after_expandAll (strategy : StrategyId) (settings : Settings α)
    (calls : List (Call α)) :
    let fresh := ofStrategy strategy settings
    (∀ c ∈ fresh.expandAll calls, c.isEvent = false) ∧
      ((∀ c ∈ calls, c.isEvent = false) → fresh.expandAll calls = calls) ∧
      fresh.after (fresh.expandAll calls) = fresh.after calls ∧
      (∀ count c, (fresh.expandAll calls)[count]? = some c →
        (fresh.after ((fresh.expandAll calls).take (count + 1))).current =
          (fresh.after ((fresh.expandAll calls).take count)).currentAfter c) ∧
      ∀ count, let run := (fresh.expandAll calls).take count
        let t := fresh.after run
        t.introduced.Nodup ∧ (∀ id, id ∈ t.introduced ↔ id ∈ t.current) ∧
          (t.active? = none ↔ t.current = ∅) ∧
          ∀ id, t.active? = some id ↔
            id ∈ t.current ∧ ∃ place, fresh.JoinsLast run id place ∧
              ∀ other ∈ t.current, ∀ place', fresh.JoinsLast run other place' →
                place' < place ∨ place' = place ∧ other ≤ id := by
  intro fresh
  have hplain : ∀ c ∈ fresh.expandAll calls, c.isEvent = false :=
    fun c hc => isEvent_of_mem_expandAll hc
  refine ⟨hplain, expandAll_eq_self, fresh.after_expandAll calls, ?_, ?_⟩
  · intro count c hc
    exact fresh.current_after_take hc
  · intro count run t
    have horder : fresh.InOrder run :=
      InOrder.ofStrategy_after strategy settings
        fun c hc => hplain c (List.mem_of_mem_take hc)
    exact ⟨horder.nodup, horder.mem_iff, horder.active?_eq_none_iff,
      horder.active?_eq_some_iff⟩

end Tracker

end PointerMotion
