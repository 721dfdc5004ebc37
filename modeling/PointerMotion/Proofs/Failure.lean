/-
What a movement that fails leaves behind.  Only the filter can refuse one that
has been read, and it spoils no more than the row of the refused sample.
-/
import PointerMotion.Proofs.Roster

namespace PointerMotion

namespace Filter

variable {α : Type}

/-- Two tables whose rows differ at most in the position and the derivatives of
one pointer. -/
structure Table.DiffersAtOne (table spoiled : Table α) : Prop where
  time : ∀ id, (spoiled.rows.get id).time = (table.rows.get id).time
  measured : ∀ id, (spoiled.rows.get id).measured = (table.rows.get id).measured
  others : ∃ id, ∀ other, other ≠ id →
    spoiled.rows.get other = table.rows.get other

theorem Table.DiffersAtOne.refl (table : Table α) :
    table.DiffersAtOne table where
  time _ := rfl
  measured _ := rfl
  others := ⟨0, fun _ _ => rfl⟩

variable [Scalar α] {time : Int}

/-- A time that no word holds is written nowhere, but a position may stand in
the row. -/
theorem differsAtOne_begin (h : fitsWord time = false) (id : PointerId)
    (p : Position α) (table : Table α) :
    table.DiffersAtOne (begin id time p table).state := by
  rw [begin, h]
  refine ⟨?_, ?_, id, ?_⟩
  · intro other
    by_cases heq : other = id <;> simp [Outcome.failed, Table.get_rows_put, heq]
  · intro other
    by_cases heq : other = id <;> simp [Outcome.failed, Table.get_rows_put, heq]
  · intro other hne
    simp [Outcome.failed, Table.get_rows_put, hne]

theorem error_begin_ne_none (h : fitsWord time = false) (id : PointerId)
    (p : Position α) (table : Table α) :
    (begin id time p table).error ≠ none := by
  rw [begin, h]
  exact Option.some_ne_none _

variable (order : Order)

theorem differsAtOne_accept (h : fitsWord time = false) (id : PointerId)
    (p : Position α) (table : Table α) :
    table.DiffersAtOne (accept order id time p table).state := by
  rw [accept]
  split
  · exact differsAtOne_begin h id p table
  · split
    · exact differsAtOne_begin h id p table
    · split
      · exact .refl table
      · rw [h]
        exact .refl table

/-- A sample of such a time that is not refused came too early to count. -/
theorem state_accept_of_error_none (h : fitsWord time = false) {id : PointerId}
    {p : Position α} {table : Table α}
    (hok : (accept order id time p table).error = none) :
    (accept order id time p table).state = table := by
  rw [accept] at hok ⊢
  split at hok
  · exact absurd hok (error_begin_ne_none h id p table)
  · split at hok
    · exact absurd hok (error_begin_ne_none h id p table)
    next hafter =>
      split at hok
      next hearly => rw [if_neg hafter, if_pos hearly]; rfl
      · rw [h] at hok
        cases hok

/-- The samples before the one that is refused leave the table alone. -/
theorem differsAtOne_acceptSamples (h : fitsWord time = false)
    (samples : List (PointerId × Position α)) (table : Table α) :
    table.DiffersAtOne (acceptSamples order time samples table).state := by
  induction samples generalizing table with
  | nil => exact .refl table
  | cons s rest ih =>
      rw [acceptSamples_cons]
      cases herror : (accept order s.1 time s.2 table).error with
      | none =>
          rw [Outcome.andThen_of_error_none herror,
            state_accept_of_error_none order h herror]
          exact ih table
      | some e =>
          rw [Outcome.andThen_of_error_some herror]
          exact differsAtOne_accept order h s.1 s.2 table

theorem known_acceptSamples (samples : List (PointerId × Position α))
    (table : Table α) :
    (acceptSamples order time samples table).state.known = table.known := by
  induction samples generalizing table with
  | nil => rfl
  | cons s rest ih =>
      rw [acceptSamples_cons]
      cases herror : (accept order s.1 time s.2 table).error with
      | none =>
          rw [Outcome.andThen_of_error_none herror]
          exact (ih _).trans (known_accept order s.1 time s.2 table)
      | some e =>
          rw [Outcome.andThen_of_error_some herror]
          exact known_accept order s.1 time s.2 table

variable {order} {m : Movement α} {table : Table α} {e : InputError}

theorem fitsWord_of_error_addMovement
    (h : (addMovement order m table).error = some e) :
    fitsWord m.time = false := by
  by_contra hword
  have hok : (addMovement order m table).error = none :=
    (error_addMovement_eq_none_iff order m table).mpr fun _ _ =>
      not_refused_of_fitsWord (Bool.not_eq_false _ ▸ hword)
  rw [hok] at h
  cases h

/-- A movement that the filter refuses leaves the known pointers and all rows
but one. -/
theorem differsAtOne_addMovement
    (h : (addMovement order m table).error = some e) :
    (addMovement order m table).state.known = table.known ∧
      table.DiffersAtOne (addMovement order m table).state := by
  rw [state_addMovement_of_error_some h]
  exact ⟨known_acceptSamples order m.samples table,
    differsAtOne_acceptSamples order (fitsWord_of_error_addMovement h)
      m.samples table⟩

end Filter

namespace Strategy

variable {α : Type} [Scalar α] {s : Strategy α} {m : Movement α}
    {e : InputError}

/-- Only a filter refuses a movement that has been read. -/
theorem exists_filter_of_error_addMovement
    (h : (s.addMovement m).error = some e) :
    ∃ order table, s = .filter order table ∧
      (Filter.addMovement order m table).error = some e := by
  cases s with
  | ofTrack plan history =>
      rw [addMovement_ofTrack, Outcome.map, error_record] at h
      cases h
  | filter order table => exact ⟨order, table, rfl, h⟩

end Strategy

namespace Tracker

variable {α : Type} [Scalar α] {t : Tracker α} {m : Movement α} {e : InputError}

/-- What is left of a tracker by a movement that it has read and then
refuses. -/
theorem addMovement_of_error (h : (t.addMovement m).error = some e) :
    (t.addMovement m).state = t ∨
      ∃ order table stopped spoiled, t.strategy = .filter order table ∧
        Filter.fitsWord m.time = false ∧
        t.stoppedBy m.ids m.time = .ok stopped ∧
        (t.addMovement m).state =
          { t.setCurrent m.ids with
              lastTime := m.time, strategy := .filter order spoiled } ∧
        spoiled.known = (if stopped then ∅ else table.known) ∧
        table.DiffersAtOne spoiled := by
  rcases t.addMovement_cases m with ⟨cause, -, hadd⟩ | ⟨stopped, hstopped⟩
  · exact .inl (by rw [hadd]; rfl)
  · right
    rw [addMovement_of_stoppedBy hstopped] at h ⊢
    obtain ⟨order, start, hstart, hrefused⟩ :=
      Strategy.exists_filter_of_error_addMovement h
    have hword := Filter.fitsWord_of_error_addMovement hrefused
    obtain ⟨hknown, hrows⟩ := Filter.differsAtOne_addMovement hrefused
    rw [hstart, Strategy.addMovement_filter]
    cases stopped with
    | false =>
        exact ⟨order, start, false, _, hstart, hword, hstopped, rfl,
          hknown, hrows⟩
    | true =>
        -- the rows are those from before the stop, which forgets only who is
        -- known
        cases hstrategy : t.strategy with
        | ofTrack plan history =>
            rw [hstrategy] at hstart
            cases hstart
        | filter order' table =>
            rw [hstrategy] at hstart
            cases hstart
            exact ⟨order, table, true, _, rfl, hword, hstopped, rfl, hknown,
              hrows.time, hrows.measured, hrows.others⟩

/-- What a failing movement can change.  If it fails then the tracker is what it
was; or a filter was given a time that no word holds.  Then the time and the
pointers of the movement are the latest ones, the filter knows whom it knew, or
nobody if they had stopped, and of its rows at most one has changed, in nothing
but the position and the derivatives. -/
theorem state_add_of_error (t : Tracker α) (time : Int) (ids : PointerChoice)
    (points : List (Point α))
    (h : (t.add (.whole time) ids points).error = some e) :
    (t.add (.whole time) ids points).state = t ∨
      ∃ order table chosen stopped spoiled, t.strategy = .filter order table ∧
        Filter.fitsWord time = false ∧ ids.toSet? = .ok chosen ∧
        t.stoppedBy (chosen.lowest maxPointers) time = .ok stopped ∧
        (t.add (.whole time) ids points).state =
          { t.setCurrent (chosen.lowest maxPointers) with
            lastTime := time
            strategy := .filter order spoiled } ∧
        spoiled.known = (if stopped then ∅ else table.known) ∧
        table.DiffersAtOne spoiled := by
  cases hchosen : ids.toSet? with
  | error cause =>
      rw [add, hchosen]
      exact .inl rfl
  | ok chosen =>
      have hadd : t.add (.whole time) ids points =
          t.addSet (.whole time) chosen points := by
        rw [add, hchosen]
        rfl
      rw [hadd, addSet_eq] at h ⊢
      cases hread : Movement.read? (.whole time) chosen points with
      | error cause => exact .inl rfl
      | ok m =>
          rw [hread] at h
          obtain ⟨htime, rfl, -⟩ := Movement.read?_eq_ok_iff.mp hread
          obtain rfl : time = m.time := Except.ok.inj htime
          rcases addMovement_of_error h with
            hsame | ⟨order, table, stopped, spoiled, hrest⟩
          · exact .inl hsame
          · obtain ⟨hstrategy, hword, hstopped, hstate, hknown, hrows⟩ := hrest
            exact .inr ⟨order, table, m.ids, stopped, spoiled, hstrategy, hword,
              rfl, hstopped,
              hstate, hknown, hrows⟩

/-- One step beyond the last time that a word holds pointer 1 comes too early to
count, and pointer 5 is refused. -/
theorem state_add_of_error_beyondWord :
    let t := (ofStrategy .int2 Settings.standard).run
      [.add ⟨9223372036854775807, {1},
        [(⟨0.0, 0.0⟩ : Position Float)], by decide⟩]
    let refused := t.add (.whole 9223372036854775808) (.listed [1, 5])
      [.ofPosition ⟨1.0, 2.0⟩, .ofPosition ⟨7.0, 3.0⟩]
    refused.error = some .timeBeyondWord ∧
      ∃ order table chosen stopped spoiled, t.strategy = .filter order table ∧
        Filter.fitsWord 9223372036854775808 = false ∧
        (PointerChoice.listed [1, 5]).toSet? = .ok chosen ∧
        t.stoppedBy (chosen.lowest maxPointers) 9223372036854775808 =
          .ok stopped ∧
        refused.state =
          { t.setCurrent (chosen.lowest maxPointers) with
            lastTime := 9223372036854775808
            strategy := .filter order spoiled } ∧
        spoiled.known = (if stopped then ∅ else table.known) ∧
        table.DiffersAtOne spoiled := by
  intro t refused
  have herror : refused.error = some .timeBeyondWord := by decide +kernel
  refine ⟨herror, ?_⟩
  rcases t.state_add_of_error _ _ _ herror with hsame | hspoiled
  · have htime : refused.state.lastTime ≠ t.lastTime := by decide +kernel
    exact absurd (congrArg lastTime hsame) htime
  · exact hspoiled

end Tracker

end PointerMotion
