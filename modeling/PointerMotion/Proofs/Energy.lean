/-
Energy and velocity: over exact numbers the signed energy of a unit mass and
its velocity tell each other.
-/
import PointerMotion.Impulse
import PointerMotion.Proofs.Exact

namespace PointerMotion

namespace Impulse

theorem velocityOfEnergy_zero : velocityOfEnergy (0.0 : ℝ) = 0 := by
  have henergy : velocityOfEnergy (0.0 : ℝ) =
      if (0.0 : ℝ) < 0 then -|√|0.0| * √2.0| else |√|0.0| * √2.0| := rfl
  rw [henergy]
  norm_num

/-- The energy of a unit mass is read as the velocity that it has. -/
theorem velocityOfEnergy_half (rate : ℝ) :
    velocityOfEnergy (rate * |rate| * 0.5) = rate := by
  have henergy : velocityOfEnergy (rate * |rate| * 0.5) =
      if rate * |rate| * 0.5 < 0 then -|√|rate * |rate| * 0.5| * √2.0|
      else |√|rate * |rate| * 0.5| * √2.0| := rfl
  have hmagnitude : √|rate * |rate| * 0.5| * √2.0 = |rate| := by
    have hsquare : |rate * |rate| * 0.5| * 2.0 = |rate| * |rate| := by
      have hone : (0.5 : ℝ) * 2.0 = 1 := by norm_num
      rw [abs_mul, abs_mul, abs_abs, abs_of_pos (by norm_num : (0 : ℝ) < 0.5),
        mul_assoc, hone, mul_one]
    rw [← Real.sqrt_mul (abs_nonneg _), hsquare,
      Real.sqrt_mul_self (abs_nonneg rate)]
  rw [henergy, hmagnitude, abs_abs]
  rcases lt_or_ge rate 0 with hneg | hpos
  · have hwork : rate * |rate| * 0.5 < 0 :=
      mul_neg_of_neg_of_pos (mul_neg_of_neg_of_pos hneg (abs_pos.mpr hneg.ne))
        (by norm_num)
    rw [if_pos hwork, abs_of_neg hneg, neg_neg]
  · have hwork : ¬ rate * |rate| * 0.5 < 0 :=
      not_lt.mpr (mul_nonneg (mul_nonneg hpos (abs_nonneg rate)) (by norm_num))
    rw [if_neg hwork, abs_of_nonneg hpos]

/-- Every energy is that of some velocity. -/
theorem exists_energy_eq (work : ℝ) :
    ∃ rate : ℝ, rate * |rate| * 0.5 = work := by
  rcases le_total 0 work with hpos | hneg
  · refine ⟨√(work * 2), ?_⟩
    rw [abs_of_nonneg (Real.sqrt_nonneg _), Real.mul_self_sqrt (by linarith)]
    ring
  · refine ⟨-√(-work * 2), ?_⟩
    rw [abs_neg, abs_of_nonneg (Real.sqrt_nonneg _), neg_mul,
      Real.mul_self_sqrt (by linarith)]
    ring

theorem energy_velocityOfEnergy (work : ℝ) :
    velocityOfEnergy work * |velocityOfEnergy work| * 0.5 = work := by
  obtain ⟨rate, rfl⟩ := exists_energy_eq work
  rw [velocityOfEnergy_half]

/-- Energies that are read as one velocity are equal. -/
theorem velocityOfEnergy_inj {work work' : ℝ} :
    velocityOfEnergy work = velocityOfEnergy work' ↔ work = work' := by
  constructor
  · intro h
    rw [← energy_velocityOfEnergy work, h, energy_velocityOfEnergy]
  · exact congrArg velocityOfEnergy

/-- A mass that moves at a multiple of a velocity has the energy of that
multiple. -/
theorem velocityOfEnergy_scaled (factor work : ℝ) :
    velocityOfEnergy (factor * |factor| * work) =
      factor * velocityOfEnergy work := by
  have henergy : factor * |factor| * work =
      factor * velocityOfEnergy work * |factor * velocityOfEnergy
        work| * 0.5 := by
    nth_rewrite 1 [← energy_velocityOfEnergy work]
    rw [abs_mul]
    ring
  rw [henergy, velocityOfEnergy_half]

section Work

variable {older newer : Sample ℝ}

theorem workAfter_of_ne (h : older.time ≠ newer.time) (work : ℝ) :
    workAfter work older newer =
      work + (intervalVelocity older newer - velocityOfEnergy work) *
        |intervalVelocity older newer| :=
  if_neg h

/-- From rest the work of an interval is twice the energy of its velocity. -/
theorem workAfter_zero (h : older.time ≠ newer.time) :
    workAfter 0.0 older newer = intervalVelocity older newer * |intervalVelocity
      older newer| := by
  rw [workAfter_of_ne h, velocityOfEnergy_zero]
  norm_num

theorem totalWork_cons_cons (h : older.time ≠ newer.time)
    (rest : List (Sample ℝ)) :
    totalWork (older :: newer :: rest) =
      workThrough (intervalVelocity older newer * |intervalVelocity older
          newer| * 0.5) (newer :: rest) := by
  simp only [totalWork, if_neg h, workAfter_zero h]

theorem workThrough_zero (h : older.time ≠ newer.time)
    (rest : List (Sample ℝ)) :
    workThrough 0.0 (older :: newer :: rest) =
      workThrough (intervalVelocity older newer * |intervalVelocity older
          newer|) (newer :: rest) := by
  rw [workThrough, workAfter_zero h]

/-- The velocity is that of all the work, for a pair of samples as well. -/
theorem velocity_eq_velocityOfEnergy (samples : List (Sample ℝ)) :
    velocity samples = velocityOfEnergy (totalWork samples.reverse) := by
  match samples with
  | [] | [_] =>
      exact (by norm_num : (0.0 : ℝ) = 0).trans velocityOfEnergy_zero.symm
  | [newer, older] =>
      by_cases hsame : older.time = newer.time
      · have hwork : totalWork [newer, older].reverse = 0.0 := by
          simp [totalWork, workThrough, workAfter, hsame]
        rw [velocity, if_pos hsame, hwork, velocityOfEnergy_zero]
        norm_num
      · have hwork : totalWork [newer, older].reverse =
            intervalVelocity older newer * |intervalVelocity older
              newer| * 0.5 :=
          totalWork_cons_cons hsame []
        rw [velocity, if_neg hsame, hwork, velocityOfEnergy_half]
  | newest :: newer :: older :: rest =>
      simp only [velocity, List.length_cons]
      rw [if_neg (by omega)]

end Work

end Impulse

end PointerMotion
