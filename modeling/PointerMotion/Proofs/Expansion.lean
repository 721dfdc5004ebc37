/-
Positions around any time: the expansion of an estimator's polynomial there
starts with the position and the velocity of that time.
-/
import PointerMotion.Proofs.UniformMotion
import Mathlib.Algebra.Polynomial.Taylor

open Polynomial

namespace PointerMotion

namespace Quartic

variable (q : Quartic ℝ)

theorem slope_eq (t : ℝ) : q.slope t = (derivative q.polynomial).eval t := by
  simp only [slope, polynomial, toList, Fit.polynomial, derivative_add,
    derivative_mul, derivative_C, derivative_X, derivative_zero, eval_add,
    eval_mul, eval_C, eval_X, eval_zero, eval_one]
  norm_num
  ring

/-- The polynomial of the time since `t`. -/
noncomputable def expansion (t : ℝ) : ℝ[X] :=
  taylor t q.polynomial

variable (t h : ℝ)

theorem eval_expansion : (q.expansion t).eval h = q.value (t + h) := by
  rw [expansion, taylor_eval, value_eq, add_comm]

theorem eval_derivative_expansion :
    (derivative (q.expansion t)).eval h = q.slope (t + h) := by
  rw [expansion, taylor_apply, derivative_comp, slope_eq]
  simp [add_comm]

/-- An expansion starts with the value and the slope. -/
theorem sq_dvd_expansion_sub :
    X ^ 2 ∣ q.expansion t - (C (q.value t) + C (q.slope t) * X) := by
  rw [X_pow_dvd_iff]
  intro k hk
  obtain rfl | rfl : k = 0 ∨ k = 1 := by omega
  · simp [expansion, value_eq]
  · simp [expansion, slope_eq]

end Quartic

namespace Estimator

/-- The seconds to a later time are those to a time between and those from
there. -/
theorem seconds_sub_add (start time later : ℤ) :
    (seconds (time - start) + seconds (later - time) : ℝ) =
      seconds (later - start) := by
  rw [seconds_sub, seconds_sub, seconds_sub]
  ring

theorem positionAt_eq_value (e : Estimator ℝ) (time : ℤ) : e.positionAt time =
    .ok ⟨e.x.value (seconds (time - e.time)),
        e.y.value (seconds (time - e.time))⟩ :=
  rfl

theorem velocityAt_eq_slope (e : Estimator ℝ) (time : ℤ) : e.velocityAt time =
    .ok ⟨e.x.slope (seconds (time - e.time)),
        e.y.slope (seconds (time - e.time))⟩ :=
  rfl

/-- The position at every time is the expansion around any other one, at the
seconds from there, and the velocity is the derivative of that expansion.  The
expansion starts with the position and the velocity of its own time and goes on
with the square of the seconds; at the time base these are the first two
coefficients. -/
theorem positionAt_eq_expansion (e : Estimator ℝ) (time : ℤ) :
    let x := e.x.expansion (seconds (time - e.time))
    let y := e.y.expansion (seconds (time - e.time))
    (∀ later : ℤ,
      e.positionAt later =
          .ok ⟨x.eval ((later - time : ℝ) / 10 ^ 9),
          y.eval ((later - time : ℝ) / 10 ^ 9)⟩ ∧
        e.velocityAt later =
          .ok ⟨x.derivative.eval ((later - time : ℝ) / 10 ^ 9),
            y.derivative.eval ((later - time : ℝ) / 10 ^ 9)⟩) ∧
      (∃ p v : Position ℝ, e.positionAt time = .ok p ∧
        e.velocityAt time = .ok v ∧
        X ^ 2 ∣ x - (C p.x + C v.x * X) ∧ X ^ 2 ∣ y - (C p.y + C v.y * X)) ∧
      e.positionAt e.time = .ok ⟨e.x.c0, e.y.c0⟩ ∧
      e.velocityAt e.time = .ok e.velocity := by
  intro x y
  have hbase : (seconds (e.time - e.time) : ℝ) = 0 := by simp [seconds_eq]
  refine ⟨?_, ?_, ?_, ?_⟩
  · intro later
    have hspan : ((later : ℝ) - time) / 10 ^ 9 = seconds (later - time) := by
      rw [seconds_eq, Int.cast_sub]
      norm_num
      ring
    rw [hspan, Quartic.eval_expansion, Quartic.eval_expansion,
      Quartic.eval_derivative_expansion, Quartic.eval_derivative_expansion,
      seconds_sub_add]
    exact ⟨e.positionAt_eq_value later, e.velocityAt_eq_slope later⟩
  · exact ⟨_, _, e.positionAt_eq_value time, e.velocityAt_eq_slope time,
      e.x.sq_dvd_expansion_sub _, e.y.sq_dvd_expansion_sub _⟩
  · rw [positionAt_eq_value, hbase]
    norm_num [Quartic.value]
  · rw [velocityAt_eq_slope, hbase]
    norm_num [Quartic.slope, velocity]

end Estimator

end PointerMotion
