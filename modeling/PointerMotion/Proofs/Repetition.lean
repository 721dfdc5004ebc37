/-
Samples that are repeated.  An interval of no duration does no work, so only a
repetition of the oldest sample changes anything: nothing is halved then.
-/
import PointerMotion.Proofs.Energy

namespace PointerMotion

namespace Impulse

section Work

variable {α : Type} [Scalar α]

/-- The work through later samples takes no notice of a repetition. -/
theorem workThrough_repeated (work : α) (earlier later : List (Sample α))
    (s : Sample α) :
    workThrough work (earlier ++ s :: s :: later) =
      workThrough work (earlier ++ s :: later) := by
  induction earlier generalizing work with
  | nil =>
      have hnone : workAfter work s s = work := if_pos rfl
      rw [List.nil_append, List.nil_append, workThrough, hnone]
  | cons first rest ih =>
      cases rest with
      | nil => exact ih _
      | cons second rest => exact ih _

/-- Nor does the work of all intervals, after the oldest sample. -/
theorem totalWork_repeated (oldest : Sample α) (earlier later : List (Sample α))
    (s : Sample α) :
    totalWork (oldest :: (earlier ++ s :: s :: later)) =
      totalWork (oldest :: (earlier ++ s :: later)) := by
  cases earlier with
  | nil => exact workThrough_repeated _ [] later s
  | cons second rest => exact workThrough_repeated _ (second :: rest) later s

/-- Where the oldest sample is repeated, no work is halved. -/
theorem totalWork_repeated_oldest (oldest : Sample α)
    (later : List (Sample α)) :
    totalWork (oldest :: oldest :: later) =
      workThrough 0.0 (oldest :: later) := by
  have hnone : workAfter (0.0 : α) oldest oldest = 0.0 := if_pos rfl
  rw [totalWork, hnone]
  exact congrArg (workThrough · (oldest :: later)) (if_pos rfl)

end Work

theorem velocity_repeated_of_ne_nil (newer : List (Sample ℝ)) (s : Sample ℝ)
    {older : List (Sample ℝ)} (h : older ≠ []) :
    velocity (newer ++ s :: s :: older) = velocity (newer ++ s :: older) := by
  obtain ⟨oldest, earlier, hreverse⟩ :=
    List.exists_cons_of_ne_nil (List.reverse_ne_nil_iff.mpr h)
  rw [velocity_eq_velocityOfEnergy, velocity_eq_velocityOfEnergy]
  simp only [List.reverse_append, List.reverse_cons, hreverse,
    List.append_assoc, List.cons_append, List.nil_append]
  rw [totalWork_repeated]

/-- The oldest sample may come twice just where it makes no difference which
part counts. -/
theorem velocity_repeated_oldest_iff (newer : List (Sample ℝ)) (s : Sample ℝ) :
    velocity (newer ++ [s, s]) = velocity (newer ++ [s]) ↔
      workThrough 0.0 (s :: newer.reverse) =
        totalWork (s :: newer.reverse) := by
  rw [velocity_eq_velocityOfEnergy, velocity_eq_velocityOfEnergy,
    velocityOfEnergy_inj, List.reverse_append, List.reverse_append]
  exact Eq.congr_left (totalWork_repeated_oldest s newer.reverse)

/-- Of a pair of samples, the older one twice makes the velocity the root of two
times as high. -/
theorem velocity_pair_repeated {newer older : Sample ℝ}
    (h : older.time ≠ newer.time) :
    velocity [newer, older, older] = √2 * velocity [newer, older] := by
  let rate := intervalVelocity older newer
  have hpair : velocity [newer, older] = rate := if_neg h
  have htriple : velocity [newer, older, older] =
      velocityOfEnergy (rate * |rate|) := by
    rw [velocity_eq_velocityOfEnergy]
    exact congrArg velocityOfEnergy
      ((totalWork_repeated_oldest older [newer]).trans (workThrough_zero h []))
  have hwork : rate * |rate| = √2 * |√2| * (rate * |rate| * 0.5) := by
    rw [abs_of_nonneg (Real.sqrt_nonneg 2), Real.mul_self_sqrt (by norm_num)]
    ring
  rw [htriple, hpair, hwork, velocityOfEnergy_scaled, velocityOfEnergy_half]

/-- On a track with falling times, a sample that is repeated is skipped unless
it is the oldest one.  That one is skipped if it is alone, or if the whole work
of the first interval comes to the same, through all later ones, as the half of
it that should count. -/
theorem velocity_repeated_iff (newer older : List (Sample ℝ)) (s : Sample ℝ)
    (hfalling : (newer ++ s :: older).IsChain fun newer older =>
      older.time < newer.time) :
    velocity (newer ++ s :: s :: older) = velocity (newer ++ s :: older) ↔
      older ≠ [] ∨ ∀ next later, newer.reverse = next :: later →
        let rate := intervalVelocity s next
        workThrough (rate * |rate|) (next :: later) =
          workThrough (rate * |rate| * 0.5) (next :: later) := by
  rcases eq_or_ne older [] with rfl | holder
  · rw [velocity_repeated_oldest_iff]
    cases hreverse : newer.reverse with
    | nil => simp [workThrough, totalWork]
    | cons next later =>
        obtain rfl : newer = later.reverse ++ [next] := by
          rw [← List.reverse_reverse newer, hreverse, List.reverse_cons]
        -- the first interval has a duration, so without the repetition its work
        -- is halved
        have htime : s.time ≠ next.time := by
          rw [List.append_assoc] at hfalling
          exact (List.isChain_cons_cons.mp
              (List.isChain_append.mp hfalling).2.1).1.ne
        rw [workThrough_zero htime, totalWork_cons_cons htime]
        simp
  · exact iff_of_true (velocity_repeated_of_ne_nil newer s holder) (.inl holder)

/-- A sample between others that comes twice is skipped. -/
theorem velocity_repeated_between :
    let newest : Sample ℝ := ⟨20000000, 15⟩
    let between : Sample ℝ := ⟨10000000, 10⟩
    let oldest : Sample ℝ := ⟨0, 0⟩
    ([newest, between, oldest].IsChain fun newer older =>
      older.time < newer.time) ∧
      velocity [newest, between, between, oldest] =
        velocity [newest, between, oldest] := by
  intro newest between oldest
  have hfalling : [newest, between, oldest].IsChain fun newer older =>
      older.time < newer.time := by
    simp [newest, between, oldest]
  have hiff := velocity_repeated_iff [newest] [oldest] between hfalling
  exact ⟨hfalling, hiff.mpr (.inl (List.cons_ne_nil oldest []))⟩

/-- The oldest sample that comes twice is not skipped. -/
theorem velocity_repeated_oldest_ne :
    let newer : Sample ℝ := ⟨10000000, 10⟩
    let older : Sample ℝ := ⟨0, 0⟩
    ([newer, older].IsChain fun newer older => older.time < newer.time) ∧
      velocity [newer, older] = 1000 ∧
      velocity [newer, older, older] = √2 * 1000 ∧
      velocity [newer, older, older] ≠ velocity [newer, older] := by
  intro newer older
  have htime : older.time ≠ newer.time := by decide
  have hpair : velocity [newer, older] = 1000 := by
    rw [velocity, if_neg htime]
    norm_num [intervalVelocity, newer, older,
      Estimator.secondsPerNano, Scalar.ofInt]
  have htriple : velocity [newer, older, older] = √2 * 1000 := by
    rw [velocity_pair_repeated htime, hpair]
  refine ⟨by simp [newer, older], hpair, htriple, ?_⟩
  rw [htriple, hpair]
  intro hsame
  have hroot : √2 = (1 : ℝ) := by linarith
  have hsquare := Real.mul_self_sqrt (show (0 : ℝ) ≤ 2 by norm_num)
  rw [hroot] at hsquare
  norm_num at hsquare

end Impulse

end PointerMotion
