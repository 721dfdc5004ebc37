/-
Pauses that cannot be measured.  The pause is converted only when a movement
shows a current pointer, so the first movement that goes on is refused.
-/
import PointerMotion.Settings.Document
import PointerMotion.Proofs.IdList
import PointerMotion.Proofs.Roster

namespace PointerMotion

/-- Whether a double is neither infinite nor a non-number. -/
def Binary.IsFinite (x : Float) : Prop :=
  (ofFloat? x).isSome = true

instance (x : Float) : Decidable (Binary.IsFinite x) :=
  inferInstanceAs (Decidable (_ = true))

/-- A pause is a whole number of nanoseconds when the nanoseconds are finite. -/
theorem Settings.exists_stoppedTime_iff (s : Settings Float) :
    (∃ pause, s.stoppedTime = .ok pause) ↔
      Binary.IsFinite (s.stoppedMillis * 1000000.0) := by
  have htruncate :
      s.stoppedTime = truncateDouble (s.stoppedMillis * 1000000.0) := rfl
  rw [htruncate, truncateDouble, Binary.IsFinite]
  cases Binary.ofFloat? (s.stoppedMillis * 1000000.0) with
  | some b => simp
  | none =>
      simp only [Option.isSome_none, Bool.false_eq_true, iff_false]
      split <;> simp

namespace Settings

def pauseMember (fields : Json.Fields) : Json :=
  (fields.lookup stoppedKey).getD (.double 40.0)

/-- Members are accepted when their pause counts as a number, whatever that
is. -/
theorem result_ofMembers_eq_ok_iff {fields : Json.Fields}
    {settings : Settings Float} :
    (ofMembers fields).result = .ok settings ↔
      pauseOf (pauseMember fields) = .ok settings.stoppedMillis ∧
        settings.fallback =
          .concrete (fallbackOf
              ((fields.lookup strategyKey).getD (.string "lsq2"))).1 := by
  have hresult : (ofMembers fields).result =
      (pauseOf (pauseMember fields)).map fun pause =>
        ⟨.concrete (fallbackOf
          ((fields.lookup strategyKey).getD (.string "lsq2"))).1, pause⟩ := rfl
  rw [hresult]
  rcases settings with ⟨fallback, pause⟩
  cases pauseOf (pauseMember fields) with
  | error e => simp [Except.map]
  | ok given =>
      simp only [Except.map, Except.ok.injEq, mk.injEq]
      constructor
      · rintro ⟨rfl, rfl⟩
        exact ⟨rfl, rfl⟩
      · rintro ⟨rfl, rfl⟩
        exact ⟨rfl, rfl⟩

end Settings

/-- A movement as it should be given: of distinct ids, each with a finite
position, at a time that a word holds. -/
structure WellFormed (time : Int) (ids : List Int)
    (positions : List (Position Float)) : Prop where
  nodup : ids.Nodup
  range : ∀ id ∈ ids, 0 ≤ id ∧ id ≤ 31
  count : positions.length = ids.length
  finite : ∀ p ∈ positions, Binary.IsFinite p.x ∧ Binary.IsFinite p.y
  word : Filter.fitsWord time = true

namespace Tracker

variable {α : Type} [Scalar α]

/-- A tracker asks for the pause only when a movement shows a current
pointer. -/
theorem exists_stoppedBy_iff {t : Tracker α} {ids : PointerSet} {time : Int} :
    (∃ stopped, t.stoppedBy ids time = .ok stopped) ↔
      (∃ pause, t.settings.stoppedTime = .ok pause) ∨ t.current ∩ ids = ∅ := by
  rw [stoppedBy]
  by_cases hshared : t.current ∩ ids = ∅
  · rw [PointerSet.isEmpty_iff.mpr hshared]
    simp [hshared]
  · have hnonempty : (t.current ∩ ids).isEmpty = false := by
      rwa [← Bool.not_eq_true, PointerSet.isEmpty_iff]
    rw [hnonempty]
    cases t.settings.stoppedTime with
    | error e => simp [Except.map, hshared]
    | ok pause => simp [Except.map]

/-- A movement that the strategy can keep is refused for its pause alone. -/
theorem error_addMovement_eq_none_iff {t : Tracker α} {m : Movement α}
    (htime : t.strategy.plan.HoldsTime m.time) :
    (t.addMovement m).error = none ↔ ∃ stopped,
      t.stoppedBy m.ids m.time = .ok stopped := by
  rcases t.addMovement_cases m with ⟨e, herror, hadd⟩ | ⟨stopped, hstopped⟩
  · rw [hadd, herror]
    simp [Outcome.failed]
  · rw [addMovement_of_stoppedBy hstopped, hstopped]
    have hplan :
        (if stopped then t.strategy.clear else t.strategy).plan.HoldsTime
          m.time := by
      rwa [t.strategy.plan_ite_clear]
    simpa [Outcome.map] using Strategy.error_addMovement_of_holdsTime hplan

theorem current_addMovement_of_stoppedBy {t : Tracker α} {m : Movement α}
    {stopped : Bool} (h : t.stoppedBy m.ids m.time = .ok stopped) :
    (t.addMovement m).state.current = m.ids := by
  rw [addMovement_of_stoppedBy h]
  rfl

theorem holdsTime_of_fitsWord (plan : Plan) {time : Int}
    (h : Filter.fitsWord time = true) :
    plan.HoldsTime time := by
  cases plan with
  | ofTrack plan => trivial
  | filter order => exact h

/-- A tracker keeps the settings that it is made with. -/
theorem settings_of_create {request : StrategyRequest} {settings : Settings α}
    {fresh : Tracker α} (h : (create request settings).result = .ok fresh) :
    fresh.settings = settings := by
  unfold create at h
  split at h
  · cases h
  · split at h
    · cases h
      rfl
    · dsimp only at h
      split at h
      · cases h
        rfl
      · cases h

section WellFormed

variable {time : Int} {ids : List Int} {positions : List (Position Float)}

/-- A call that delivers the ids and positions of one movement. -/
def deliver (t : Tracker Float) (time : Int) (ids : List Int)
    (positions : List (Position Float)) : Outcome (Tracker Float) :=
  t.add (.whole time) (.listed ids) (positions.map Point.ofPosition)

/-- A movement as it should be given is read as it is. -/
theorem exists_deliver_eq (h : WellFormed time ids positions)
    (t : Tracker Float) :
    ∃ m : Movement Float, PointerSet.ofInts? ids = .ok m.ids ∧ m.time = time ∧
      t.deliver time ids positions = t.addMovement (m.lowest maxPointers) := by
  obtain ⟨set, hset, hcard⟩ := PointerSet.exists_ofInts? h.nodup h.range
  let m : Movement Float := ⟨time, set, positions, h.count.trans hcard.symm⟩
  refine ⟨m, hset, rfl, ?_⟩
  have hadd : t.deliver time ids positions =
      t.addSet (.whole m.time) m.ids (m.positions.map Point.ofPosition) := by
    rw [deliver, add, PointerChoice.toSet?, hset]
    rfl
  rw [hadd, addSet_eq, Movement.read?_delivered]
  rfl

/-- Such a movement is refused when it shows a current pointer after a pause
that is not finite. -/
theorem error_deliver_eq_none_iff (h : WellFormed time ids positions)
    (t : Tracker Float) :
    ∃ set, PointerSet.ofInts? ids = .ok set ∧
      ((t.deliver time ids positions).error = none ↔
        Binary.IsFinite (t.settings.stoppedMillis * 1000000.0) ∨
          t.current ∩ set.lowest maxPointers = ∅) := by
  obtain ⟨m, hset, rfl, hdeliver⟩ := exists_deliver_eq h t
  refine ⟨m.ids, hset, ?_⟩
  have hkept : t.strategy.plan.HoldsTime (m.lowest maxPointers).time :=
    holdsTime_of_fitsWord t.strategy.plan h.word
  rw [hdeliver, error_addMovement_eq_none_iff hkept, exists_stoppedBy_iff,
    Settings.exists_stoppedTime_iff]
  rfl

theorem current_deliver (h : WellFormed time ids positions) {t : Tracker Float}
    (hok : (t.deliver time ids positions).error = none) {set : PointerSet}
    (hset : PointerSet.ofInts? ids = .ok set) :
    (t.deliver time ids positions).state.current = set.lowest maxPointers := by
  obtain ⟨m, hids, rfl, hdeliver⟩ := exists_deliver_eq h t
  obtain rfl : m.ids = set := Except.ok.inj (hids.symm.trans hset)
  have hkept : t.strategy.plan.HoldsTime (m.lowest maxPointers).time :=
    holdsTime_of_fitsWord t.strategy.plan h.word
  rw [hdeliver] at hok ⊢
  obtain ⟨stopped, hstopped⟩ := (error_addMovement_eq_none_iff hkept).mp hok
  exact current_addMovement_of_stoppedBy hstopped

/-- A pointer that was shown is seen again, and the pause is asked for. -/
theorem isFinite_of_error_deliver (strategy : StrategyId)
    (settings : Settings Float)
    (h : ∀ (calls : List (Call Float)) time ids positions,
      WellFormed time ids positions →
      (((ofStrategy strategy settings).after calls).deliver time ids
        positions).error = none) :
    Binary.IsFinite (settings.stoppedMillis * 1000000.0) := by
  let fresh := ofStrategy strategy settings
  let shown : Call Float :=
    .add (.whole 0) (.listed [0]) [.ofPosition ⟨0.0, 0.0⟩]
  have hwf : WellFormed 0 [0] [⟨0.0, 0.0⟩] :=
    ⟨by decide, by decide, rfl, by decide, by decide⟩
  have hset : PointerSet.ofInts? [0] = .ok {0} := by rfl
  have hcurrent : (fresh.after [shown]).current =
      PointerSet.lowest maxPointers {0} :=
    current_deliver hwf (h [] 0 [0] _ hwf) hset
  obtain ⟨set, hset', hiff⟩ :=
    error_deliver_eq_none_iff hwf (fresh.after [shown])
  obtain rfl : {0} = set := Except.ok.inj (hset.symm.trans hset')
  rcases hiff.mp (h [shown] 0 [0] _ hwf) with hfinite | hdisjoint
  · rwa [(make_after fresh [shown]).1] at hfinite
  · rw [hcurrent] at hdisjoint
    exact absurd hdisjoint (by decide)

end WellFormed

/-- Which settings of a file never make a well-formed movement fail.  Members
are accepted when their pause counts as a number, whatever double that is.
After any run of a tracker with such settings a movement as it should be given
fails just when it shows a current pointer and the pause is not finite in
nanoseconds; so none ever fails just when the pause is finite. -/
theorem error_deliver_eq_none_iff_of_ofMembers (fields : Json.Fields)
    {settings : Settings Float}
    (h : (Settings.ofMembers fields).result = .ok settings) :
    Settings.pauseOf (Settings.pauseMember fields) =
      .ok settings.stoppedMillis ∧
      (∀ request fresh, (create request settings).result = .ok fresh →
        ∀ calls time ids positions, WellFormed time ids positions →
          ∃ set, PointerSet.ofInts? ids = .ok set ∧
            (((fresh.after calls).deliver time ids positions).error = none ↔
              Binary.IsFinite (settings.stoppedMillis * 1000000.0) ∨
                (fresh.after calls).current ∩ set.lowest maxPointers = ∅)) ∧
      ((∀ request fresh, (create request settings).result = .ok fresh →
          ∀ calls time ids positions, WellFormed time ids positions →
            ((fresh.after calls).deliver time ids positions).error = none) ↔
        Binary.IsFinite (settings.stoppedMillis * 1000000.0)) := by
  obtain ⟨hpause, hfallback⟩ := Settings.result_ofMembers_eq_ok_iff.mp h
  have hcalls : ∀ request fresh, (create request settings).result = .ok fresh →
      ∀ calls time ids positions, WellFormed time ids positions →
        ∃ set, PointerSet.ofInts? ids = .ok set ∧
          (((fresh.after calls).deliver time ids positions).error = none ↔
            Binary.IsFinite (settings.stoppedMillis * 1000000.0) ∨
              (fresh.after calls).current ∩ set.lowest maxPointers = ∅) := by
    intro request fresh hfresh calls time ids positions hwf
    have hsettings : (fresh.after calls).settings = settings :=
      (make_after fresh calls).1.trans (settings_of_create hfresh)
    rw [← hsettings]
    exact error_deliver_eq_none_iff hwf _
  refine ⟨hpause, hcalls, ?_⟩
  constructor
  · intro hnever
    apply isFinite_of_error_deliver .lsq2 settings
    exact hnever (.selector (.concrete .lsq2)) _ rfl
  · intro hfinite request fresh hfresh calls time ids positions hwf
    obtain ⟨set, -, hiff⟩ :=
      hcalls request fresh hfresh calls time ids positions hwf
    exact hiff.mpr (.inl hfinite)

/-- A pause may be a finite double and yet be infinite in nanoseconds. -/
theorem error_deliver_eq_none_iff_hugePause :
    (Settings.ofMembers [(Settings.stoppedKey, .double 1e308)]).result =
        .ok ⟨.concrete .lsq2, 1e308⟩ ∧
      ¬ ∀ request fresh,
        (create request ⟨.concrete .lsq2, 1e308⟩).result = .ok fresh →
        ∀ calls time ids positions, WellFormed time ids positions →
          ((fresh.after calls).deliver time ids positions).error = none := by
  have haccepted :
      (Settings.ofMembers [(Settings.stoppedKey, .double 1e308)]).result =
      .ok ⟨.concrete .lsq2, 1e308⟩ := by rfl
  refine ⟨haccepted, ?_⟩
  intro hnever
  have hfinite :=
    (error_deliver_eq_none_iff_of_ofMembers _ haccepted).2.2.mp hnever
  exact absurd hfinite (by decide +kernel)

/-- An infinite pause is accepted, and the second movement of a pointer is
refused. -/
theorem error_deliver_infinitePause :
    let settings : Settings Float := ⟨.concrete .lsq2, 1.0 / 0.0⟩
    let fresh := ofStrategy .lsq2 settings
    let calls := [.add (.whole 0) (.listed [1]) [.ofPosition ⟨0.0, 0.0⟩]]
    (Settings.ofMembers [(Settings.stoppedKey, .double (1.0 / 0.0))]).result =
      .ok settings ∧
      (create (.selector .configured) settings).result = .ok fresh ∧
      WellFormed 10000000 [1] [⟨1.0, 2.0⟩] ∧
      ((fresh.after calls).deliver 10000000 [1] [⟨1.0, 2.0⟩]).error =
        some (.conversion .outOfRange) :=
  ⟨rfl, rfl, ⟨by decide, by decide, rfl, by decide +kernel, by decide⟩, by
    decide +kernel⟩

end Tracker

end PointerMotion
