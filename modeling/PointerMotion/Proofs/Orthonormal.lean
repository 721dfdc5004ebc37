/-
Orthonormal lists of vectors, and what is left of a vector when its parts along
them are taken out.
-/
import Mathlib.Analysis.InnerProductSpace.LinearMap

namespace PointerMotion

namespace Fit

variable {E : Type*} [NormedAddCommGroup E] [InnerProductSpace ℝ E]

/-- Vectors of length one, any two of them at right angles. -/
structure IsOrthonormal (us : List E) : Prop where
  unit : ∀ u ∈ us, ‖u‖ = 1
  orthogonal : us.Pairwise fun u v => inner ℝ u v = 0

theorem isOrthonormal_nil : IsOrthonormal ([] : List E) :=
  ⟨by simp, .nil⟩

namespace IsOrthonormal

variable {us : List E} {u : E}

theorem of_cons (h : IsOrthonormal (u :: us)) : IsOrthonormal us :=
  ⟨fun w hw => h.unit w (List.mem_cons_of_mem u hw), h.orthogonal.of_cons⟩

theorem inner_head (h : IsOrthonormal (u :: us)) : ∀ w ∈ us, inner ℝ u w = 0 :=
  fun _ hw => List.rel_of_pairwise_cons h.orthogonal hw

theorem append_singleton (h : IsOrthonormal us) (hunit : ‖u‖ = 1)
    (hfree : ∀ w ∈ us, inner ℝ w u = 0) : IsOrthonormal (us ++ [u]) where
  unit w hw := by
    rcases List.mem_append.mp hw with hw | hw
    · exact h.unit w hw
    · rw [List.mem_singleton.mp hw, hunit]
  orthogonal := by
    refine List.pairwise_append.mpr ⟨h.orthogonal,
      List.pairwise_singleton _ u, ?_⟩
    intro w hw v hv
    rw [List.mem_singleton.mp hv]
    exact hfree w hw

end IsOrthonormal

/-- What is left of vectors when the part along one is taken out. -/
noncomputable def reject (along : E) : E →ₗ[ℝ] E :=
  LinearMap.id - (innerₛₗ ℝ along).smulRight along

theorem reject_apply (u v : E) : reject u v = v - inner ℝ u v • u :=
  rfl

theorem reject_of_orthogonal {u v : E} (hfree : inner ℝ u v = 0) :
    reject u v = v := by
  rw [reject_apply, hfree, zero_smul, sub_zero]

theorem reject_self {u : E} (hunit : ‖u‖ = 1) : reject u u = 0 := by
  rw [reject_apply, real_inner_self_eq_norm_sq, hunit, one_pow,
    one_smul, sub_self]

theorem reject_neg (u : E) : reject (-u) = reject u := by
  ext v
  simp [reject_apply]

theorem inner_reject_self {u : E} (hunit : ‖u‖ = 1) (v : E) :
    inner ℝ u (reject u v) = 0 := by
  simp [reject_apply, inner_sub_right, inner_smul_right, hunit]

theorem inner_reject_of_orthogonal {w u : E} (hfree : inner ℝ w u = 0) (v : E) :
    inner ℝ w (reject u v) = inner ℝ w v := by
  simp [reject_apply, inner_sub_right, inner_smul_right, hfree]

/-- What is left of vectors when the parts along several are taken out in
turn. -/
noncomputable def rejection : List E → E →ₗ[ℝ] E
  | [] => LinearMap.id
  | u :: us => rejection us ∘ₗ reject u

@[simp] theorem rejection_nil (v : E) : rejection [] v = v :=
  rfl

theorem rejection_cons (u : E) (us : List E) (v : E) :
    rejection (u :: us) v = rejection us (reject u v) :=
  rfl

theorem inner_rejection_of_orthogonal {w : E} {us : List E}
    (hfree : ∀ u ∈ us, inner ℝ w u = 0) (v : E) :
    inner ℝ w (rejection us v) = inner ℝ w v := by
  induction us generalizing v with
  | nil => rfl
  | cons u rest ih =>
      rw [rejection_cons,
        ih (fun u' hu' => hfree u' (List.mem_cons_of_mem u hu')),
        inner_reject_of_orthogonal (hfree u List.mem_cons_self)]

/-- What is left of a vector is at right angles to all that was taken out. -/
theorem inner_rejection {us : List E} (h : IsOrthonormal us) (v : E) :
    ∀ u ∈ us, inner ℝ u (rejection us v) = 0 := by
  induction us generalizing v with
  | nil => simp
  | cons u rest ih =>
      intro w hw
      rw [rejection_cons]
      rcases List.mem_cons.mp hw with rfl | hw
      · -- the head goes first, and the rest of the list leaves that as it is
        rw [inner_rejection_of_orthogonal h.inner_head]
        exact inner_reject_self (h.unit w List.mem_cons_self) v
      · exact ih h.of_cons (reject u v) w hw

theorem rejection_of_orthogonal {us : List E} {v : E}
    (hfree : ∀ u ∈ us, inner ℝ u v = 0) :
    rejection us v = v := by
  induction us with
  | nil => rfl
  | cons u rest ih =>
      rw [rejection_cons, reject_of_orthogonal (hfree u List.mem_cons_self)]
      exact ih fun u' hu' => hfree u' (List.mem_cons_of_mem u hu')

theorem rejection_of_mem {us : List E} (h : IsOrthonormal us) {v : E}
    (hv : v ∈ us) :
    rejection us v = 0 := by
  induction us with
  | nil => cases hv
  | cons u rest ih =>
      rw [rejection_cons]
      rcases List.mem_cons.mp hv with rfl | hv
      · rw [reject_self (h.unit v List.mem_cons_self), map_zero]
      · rw [reject_of_orthogonal (h.inner_head v hv)]
        exact ih h.of_cons hv

/-- Two lists of vectors that agree but for their signs. -/
def SameLines : List E → List E → Prop :=
  List.Forall₂ fun u w => u = w ∨ u = -w

namespace SameLines

variable {us ws : List E}

theorem rejection_eq (h : SameLines us ws) : rejection us = rejection ws := by
  induction h with
  | nil => rfl
  | cons hline _ ih =>
      rw [rejection, rejection, ih]
      rcases hline with rfl | rfl
      · rfl
      · rw [reject_neg]

theorem inner_eq_zero (h : SameLines us ws) {v : E}
    (hfree : ∀ u ∈ us, inner ℝ u v = 0) :
    ∀ w ∈ ws, inner ℝ w v = 0 := by
  induction h with
  | nil => simp
  | @cons u w us ws hline _ ih =>
      intro w' hw'
      rcases List.mem_cons.mp hw' with rfl | hw'
      · have hown := hfree u List.mem_cons_self
        rcases hline with rfl | rfl
        · exact hown
        · rwa [inner_neg_left, neg_eq_zero] at hown
      · exact ih (fun u' hu' => hfree u' (List.mem_cons_of_mem u hu')) w' hw'

end SameLines

end Fit

end PointerMotion
