/-
What a movement does to the table of the filter: every sample is dealt with by
the row of its own pointer alone.
-/
import PointerMotion.Proofs.Glimpse

namespace PointerMotion

namespace Outcome

variable {σ : Type}

theorem andThen_of_error_none {o : Outcome σ} (h : o.error = none)
    (next : σ → Outcome σ) :
    o.andThen next =
      ⟨(next o.state).state, o.warnings ++ (next o.state).warnings,
          (next o.state).error⟩ := by
  rw [andThen, h]

theorem andThen_of_error_some {o : Outcome σ} {e : InputError}
    (h : o.error = some e) (next : σ → Outcome σ) : o.andThen next = o := by
  rw [andThen, h]

theorem error_andThen_eq_none_iff {o : Outcome σ} {next : σ → Outcome σ} :
    (o.andThen next).error = none ↔ o.error = none ∧
      (next o.state).error = none := by
  cases h : o.error with
  | none => simp [andThen_of_error_none h]
  | some e => simp [andThen_of_error_some h, h]

end Outcome

namespace Filter

variable {α : Type} [Scalar α]

namespace Table

omit [Scalar α]

@[simp] theorem known_put (table : Table α) (id : PointerId) (m : Motion α) :
    (table.put id m).known = table.known :=
  rfl

theorem get_rows_put (table : Table α) (id other : PointerId) (m : Motion α) :
    (table.put id m).rows.get other = if other =
      id then m else table.rows.get other := by
  have hget : (table.put id m).rows.get other =
      (table.rows.set id m id.isLt)[other.val] := rfl
  rw [hget, Vector.getElem_set]
  by_cases h : other = id
  · simp [h]
  · have hval : id.val ≠ other.val := fun hval => h (Fin.ext hval.symm)
    rw [if_neg h, if_neg hval]
    rfl

@[simp] theorem known_withKnown (table : Table α) (ids : PointerSet) :
    (table.withKnown ids).known = ids :=
  rfl

theorem motion?_withKnown (table : Table α) (ids : PointerSet)
    (id : PointerId) :
    (table.withKnown ids).motion? id = if id ∈
      ids then some (table.rows.get id) else none :=
  rfl

/-- Known pointers that are dropped lose their motion, the others keep it. -/
theorem motion?_withKnown_sdiff (table : Table α) (gone : PointerSet)
    (id : PointerId) :
    (table.withKnown (table.known \ gone)).motion? id =
      if id ∈ gone then none else table.motion? id := by
  rw [motion?_withKnown, motion?]
  by_cases hgone : id ∈ gone <;> simp [hgone]

theorem motion?_eq_some_iff {table : Table α} {id : PointerId} {m : Motion α} :
    table.motion? id = some m ↔ id ∈ table.known ∧ table.rows.get id = m := by
  simp [motion?]

@[simp] theorem isSome_motion? {table : Table α} {id : PointerId} :
    (table.motion? id).isSome ↔ id ∈ table.known := by
  simp [motion?]

end Table

omit [Scalar α] in
/-- Whether a sample is refused, given the motion of its pointer if it is known:
no word holds its time, and it is not one of those that come too early to
count. -/
def Refused (known? : Option (Motion α)) (time : Int) : Prop :=
  fitsWord time = false ∧ ∀ m, known? = some m → time ≤ m.time ∨
    minElapsed ≤ time - m.time

omit [Scalar α] in
theorem not_refused_of_fitsWord {known? : Option (Motion α)} {time : Int}
    (h : fitsWord time = true) : ¬ Refused known? time := by
  rintro ⟨hword, _⟩
  rw [h] at hword
  contradiction

/-- The motion of a pointer after a sample that is not refused. -/
def Motion.next (order : Order) (time : Int) (p : Position α) :
    Option (Motion α) → Motion α
  | none => .resting time p
  | some m =>
      if time ≤ m.time then .resting time p
      else if time - m.time < minElapsed then m
      else m.advance order time p

omit [Scalar α] in
/-- Whether a sample is refused depends on the time of its pointer's motion
alone. -/
theorem refused_congr {known? known?' : Option (Motion α)}
    (h : known?.map Motion.time = known?'.map Motion.time) (time : Int) :
    Refused known? time ↔ Refused known?' time := by
  cases known? <;> cases known?' <;> simp_all [Refused]

/-- The time of a pointer's next motion depends on the time of its motion
alone. -/
theorem time_next_congr {known? known?' : Option (Motion α)}
    (h : known?.map Motion.time = known?'.map Motion.time) (order : Order)
    (time : Int) (p q : Position α) :
    (Motion.next order time p known?).time =
      (Motion.next order time q known?').time := by
  cases known? with
  | none =>
      cases known?' with
      | none => rfl
      | some m' => simp at h
  | some m =>
      cases known?' with
      | none => simp at h
      | some m' =>
          have htime : m.time = m'.time := by simpa using h
          rw [Motion.next, Motion.next, htime]
          split
          · rfl
          · split
            · exact htime
            · rfl

section Accept

variable (order : Order) (id : PointerId) (time : Int) (p : Position α)
    (table : Table α)

@[simp] theorem known_begin :
    (begin id time p table).state.known = table.known := by
  rw [begin]
  split <;> rfl

@[simp] theorem known_accept :
    (accept order id time p table).state.known = table.known := by
  rw [accept]
  split
  · exact known_begin id time p table
  · split
    · exact known_begin id time p table
    · split
      · rfl
      · split <;> rfl

theorem get_rows_begin_of_ne {other : PointerId} (h : other ≠ id) :
    (begin id time p table).state.rows.get other = table.rows.get other := by
  rw [begin]
  split <;> simp [Outcome.done, Outcome.failed, Table.get_rows_put, h]

/-- A sample rewrites no row but the one of its pointer. -/
theorem get_rows_accept_of_ne {other : PointerId} (h : other ≠ id) :
    (accept order id time p table).state.rows.get other =
      table.rows.get other := by
  rw [accept]
  split
  · exact get_rows_begin_of_ne id time p table h
  · split
    · exact get_rows_begin_of_ne id time p table h
    · split
      · rfl
      · split <;> simp [Outcome.done, Outcome.failed, Table.get_rows_put, h]

theorem motion?_accept_of_ne {other : PointerId} (h : other ≠ id) :
    (accept order id time p table).state.motion? other =
      table.motion? other := by
  simp only [Table.motion?, known_accept,
    get_rows_accept_of_ne order id time p table h]

theorem error_accept_eq_none_iff :
    (accept order id time p table).error = none ↔
      ¬ Refused (table.motion? id) time := by
  rw [accept]
  cases hword : fitsWord time with
  | true =>
      have haccepted : ¬ Refused (table.motion? id) time :=
        not_refused_of_fitsWord hword
      simp only [begin, hword, haccepted, not_false_eq_true, iff_true]
      split
      · rfl
      · split
        · rfl
        · split <;> rfl
  | false =>
      simp only [begin, hword, Refused, true_and]
      split
      next hunknown => simp [hunknown, Outcome.failed]
      next m hknown =>
        simp only [hknown, Option.some.injEq]
        split
        next hbefore => simp [Outcome.warn, Outcome.failed, hbefore]
        next hafter =>
          split
          next hearly => simp [Outcome.done, hafter, hearly]
          next hlate =>
            have hlong : minElapsed ≤ time - m.time := Int.not_lt.mp hlate
            simp [Outcome.failed, hlong]

/-- A sample that is not refused gives its pointer the next motion. -/
theorem get_rows_accept (h : ¬ Refused (table.motion? id) time) :
    (accept order id time p table).state.rows.get id =
      Motion.next order time p (table.motion? id) := by
  rw [accept]
  cases hmotion : table.motion? id with
  | none =>
      have hword : fitsWord time = true := by simpa [Refused, hmotion] using h
      simp [Motion.next, begin, hword, Outcome.done, Table.get_rows_put]
  | some m =>
      by_cases hbefore : time ≤ m.time
      · have hword : fitsWord time = true := by
          simpa [Refused, hmotion, hbefore] using h
        simp [Motion.next, begin, hword, hbefore, Outcome.done, Outcome.warn,
          Table.get_rows_put]
      · by_cases hearly : time - m.time < minElapsed
        · have hrow : table.rows.get id = m :=
            (Table.motion?_eq_some_iff.mp hmotion).2
          simp [Motion.next, hbefore, hearly, Outcome.done, hrow]
        · have hlong : minElapsed ≤ time - m.time := Int.not_lt.mp hearly
          have hword : fitsWord time = true := by
            simpa [Refused, hmotion, hlong] using h
          simp [Motion.next, hword, hbefore, hearly, Outcome.done,
            Table.get_rows_put]

end Accept

section AcceptAll

variable (order : Order) (time : Int)

/-- The samples of a movement, read before they are accepted. -/
def acceptSamples (samples : List (PointerId × Position α)) :
    Table α → Outcome (Table α) :=
  acceptAll order (.whole time)
    (samples.map fun s => (s.1, Point.ofPosition s.2))

@[simp] theorem acceptSamples_nil (table : Table α) :
    acceptSamples order time [] table = .done table :=
  rfl

theorem acceptSamples_cons (id : PointerId) (p : Position α)
    (rest : List (PointerId × Position α)) (table : Table α) :
    acceptSamples order time ((id, p) :: rest) table =
      (accept order id time p table).andThen (acceptSamples order time rest) :=
  rfl

/-- Pointers that a movement does not show keep their rows. -/
theorem get_rows_acceptSamples_of_not_mem
    {samples : List (PointerId × Position α)} {id : PointerId}
    (h : id ∉ samples.map Prod.fst) (table : Table α) :
    (acceptSamples order time samples table).state.rows.get id =
      table.rows.get id := by
  induction samples generalizing table with
  | nil => rfl
  | cons s rest ih =>
      rcases s with ⟨other, p⟩
      simp only [List.map_cons, List.mem_cons, not_or] at h
      have hrow := get_rows_accept_of_ne order other time p table h.1
      rw [acceptSamples_cons]
      cases herror : (accept order other time p table).error with
      | none =>
          rw [Outcome.andThen_of_error_none herror]
          exact (ih h.2 _).trans hrow
      | some e =>
          rw [Outcome.andThen_of_error_some herror]
          exact hrow

/-- A movement succeeds when none of its samples is refused by the rows it
finds. -/
theorem error_acceptSamples_eq_none_iff
    {samples : List (PointerId × Position α)}
    (hnodup : (samples.map Prod.fst).Nodup) (table : Table α) :
    (acceptSamples order time samples table).error = none ↔
      ∀ id ∈ samples.map Prod.fst, ¬ Refused (table.motion? id) time := by
  induction samples generalizing table with
  | nil => simp [Outcome.done]
  | cons s rest ih =>
      rcases s with ⟨id, p⟩
      simp only [List.map_cons, List.nodup_cons] at hnodup
      rw [acceptSamples_cons, Outcome.error_andThen_eq_none_iff,
        error_accept_eq_none_iff, ih hnodup.2, List.map_cons,
        List.forall_mem_cons]
      apply and_congr_right
      intro _
      apply forall₂_congr
      intro other hother
      have hne : other ≠ id := fun heq => hnodup.1 (heq ▸ hother)
      rw [motion?_accept_of_ne order id time p table hne]

/-- A movement that succeeds gives each of its pointers the next motion. -/
theorem get_rows_acceptSamples {samples : List (PointerId × Position α)}
    (hnodup : (samples.map Prod.fst).Nodup) {table : Table α}
    (hok : (acceptSamples order time samples table).error = none)
    {id : PointerId} {p : Position α} (hmem : (id, p) ∈ samples) :
    (acceptSamples order time samples table).state.rows.get id =
      Motion.next order time p (table.motion? id) := by
  induction samples generalizing table with
  | nil => simp at hmem
  | cons s rest ih =>
      rcases s with ⟨first, q⟩
      simp only [List.map_cons, List.nodup_cons] at hnodup
      rw [acceptSamples_cons, Outcome.error_andThen_eq_none_iff] at hok
      rw [acceptSamples_cons, Outcome.andThen_of_error_none hok.1]
      rcases List.mem_cons.mp hmem with heq | hrest
      · obtain ⟨rfl, rfl⟩ := Prod.mk.inj heq
        have haccepted :=
          (error_accept_eq_none_iff order id time p table).mp hok.1
        rw [get_rows_acceptSamples_of_not_mem order time hnodup.1]
        exact get_rows_accept order id time p table haccepted
      · have hne : id ≠ first := by
          rintro rfl
          exact hnodup.1 (List.mem_map_of_mem hrest)
        rw [ih hnodup.2 hok.2 hrest,
          motion?_accept_of_ne order first time q table hne]

end AcceptAll

section AddMovement

variable (order : Order) (m : Movement α) (table : Table α)

def addMovement : Outcome (Table α) :=
  add order (.whole m.time) m.ids (m.positions.map Point.ofPosition) table

theorem addMovement_eq :
    addMovement order m table =
      let after := acceptSamples order m.time m.samples table
      { after with
        state := if after.error.isNone then after.state.withKnown m.ids
          else after.state } := by
  have hzip : m.ids.toList.zip (m.positions.map Point.ofPosition) =
      m.samples.map fun s => (s.1, Point.ofPosition s.2) := by
    rw [Movement.samples, List.zip_map_right]
    rfl
  rw [addMovement, add, if_pos (by rw [List.length_map, m.sized]), hzip]
  rfl

theorem error_addMovement_eq_none_iff :
    (addMovement order m table).error = none ↔
      ∀ id ∈ m.ids, ¬ Refused (table.motion? id) m.time := by
  rw [addMovement_eq]
  simp only [error_acceptSamples_eq_none_iff order m.time
    m.nodup_map_fst_samples, m.map_fst_samples, PointerSet.mem_toList]

variable {order m table}

theorem known_addMovement (hok : (addMovement order m table).error = none) :
    (addMovement order m table).state.known = m.ids := by
  rw [addMovement_eq] at hok ⊢
  simp only at hok
  simp [hok]

/-- A movement that fails leaves what its samples have changed before. -/
theorem state_addMovement_of_error_some {e : InputError}
    (h : (addMovement order m table).error = some e) :
    (addMovement order m table).state =
      (acceptSamples order m.time m.samples table).state := by
  rw [addMovement_eq] at h ⊢
  simp only at h
  simp [h]

/-- After a movement a pointer has its next motion if the movement shows it, and
none if not. -/
theorem motion?_addMovement (hok : (addMovement order m table).error = none)
    (id : PointerId) :
    (addMovement order m table).state.motion? id =
      (m.position? id).map fun p =>
        Motion.next order m.time p (table.motion? id) := by
  have hknown := known_addMovement hok
  cases hp : m.position? id with
  | none =>
      rw [Movement.position?_eq_none_iff] at hp
      simp [Table.motion?, hknown, hp]
  | some p =>
      have hmember : id ∈ m.ids :=
        Movement.isSome_position?.mp (by rw [hp]; rfl)
      rw [addMovement_eq] at hok ⊢
      simp only at hok
      simp only [hok, Option.isNone_none, ↓reduceIte, Table.motion?_withKnown,
        hmember, Option.map_some, Option.some.injEq]
      exact get_rows_acceptSamples order m.time m.nodup_map_fst_samples hok
        (Movement.mem_samples.mpr hp)

end AddMovement

end Filter

end PointerMotion
