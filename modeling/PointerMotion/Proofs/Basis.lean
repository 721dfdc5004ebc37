/-
The basis of a fit is orthonormal over the samples and reaches every polynomial
with as many coefficients; what the projection of data on it leaves is at right
angles to all of them.
-/
import PointerMotion.Proofs.Exact
import PointerMotion.Proofs.Orthonormal

open Polynomial

namespace PointerMotion

namespace Fit

variable {times weights : List ℝ} {count : ℕ}

/-- Taking a multiple of a list away leaves what is rejected along it. -/
theorem signal_addMultiple_neg_dot {n : ℕ} {xs ys : List ℝ} (hx : xs.length = n)
    (hy : ys.length = n) :
    signal n (addMultiple xs (-dot ys xs) ys) =
      reject (signal n ys) (signal n xs) := by
  rw [signal_addMultiple n (hx.trans hy.symm), dot_eq_inner hy hx, neg_smul,
    ← sub_eq_add_neg, reject_apply]

/-- The weighted values of a polynomial at the sample times. -/
noncomputable def sampling (times weights : List ℝ) :
    ℝ[X] →ₗ[ℝ] EuclideanSpace ℝ (Fin times.length) where
  toFun P := vectorOf fun i => weights.getD i 0 * P.eval (times.get i)
  map_add' P Q := by
    ext i
    simp [mul_add]
  map_smul' a P := by
    ext i
    simp [smul_eq_C_mul, mul_left_comm]

theorem sampling_apply (P : ℝ[X]) (i : Fin times.length) :
    sampling times weights P i = weights.getD i 0 * P.eval (times.get i) :=
  rfl

namespace Column

noncomputable def poly (c : Column ℝ) : ℝ[X] :=
  polynomial c.coefficients

/-- The values of a column over some sample times. -/
noncomputable def vector (times : List ℝ) (c : Column ℝ) :
    EuclideanSpace ℝ (Fin times.length) :=
  signal times.length c.values

/-- A column holds the weighted values of its polynomial. -/
structure IsSampled (times weights : List ℝ) (count : ℕ)
    (c : Column ℝ) : Prop where
  long : c.values.length = times.length
  size : c.coefficients.length = count
  vector_eq : c.vector times = sampling times weights c.poly

variable {c along : Column ℝ}

theorem vector_reject (hc : c.IsSampled times weights count)
    (ha : along.IsSampled times weights count) :
    (c.reject along).vector times = Fit.reject (along.vector times)
      (c.vector times) :=
  signal_addMultiple_neg_dot hc.long ha.long

theorem poly_reject (hc : c.IsSampled times weights count)
    (ha : along.IsSampled times weights count) :
    (c.reject along).poly
      = c.poly - inner ℝ (along.vector times) (c.vector times) •
        along.poly := by
  have hpart := dot_eq_inner ha.long hc.long
  have hsized : c.coefficients.length = along.coefficients.length :=
    hc.size.trans ha.size.symm
  calc (c.reject along).poly
      = c.poly + -dot along.values c.values • along.poly :=
        polynomial_addMultiple hsized _
    _ = _ := by
        rw [hpart, neg_smul, ← sub_eq_add_neg]
        rfl

theorem IsSampled.reject (hc : c.IsSampled times weights count)
    (ha : along.IsSampled times weights count) :
    (c.reject along).IsSampled times weights count where
  long := by simp [Column.reject, addMultiple, hc.long, ha.long]
  size := by simp [Column.reject, addMultiple, hc.size, ha.size]
  vector_eq := by
    rw [vector_reject hc ha, poly_reject hc ha, map_sub, map_smul,
      ← hc.vector_eq, ← ha.vector_eq]
    rfl

theorem vector_scaleDown (c : Column ℝ) (divisor : ℝ) :
    (c.scaleDown divisor).vector times = divisor⁻¹ • c.vector times :=
  signal_map_div times.length c.values divisor

theorem poly_scaleDown (c : Column ℝ) (divisor : ℝ) :
    (c.scaleDown divisor).poly = divisor⁻¹ • c.poly :=
  polynomial_map_div c.coefficients divisor

theorem IsSampled.scaleDown (hc : c.IsSampled times weights count)
    (divisor : ℝ) :
    (c.scaleDown divisor).IsSampled times weights count where
  long := by simp [Column.scaleDown, hc.long]
  size := by simp [Column.scaleDown, hc.size]
  vector_eq := by rw [vector_scaleDown, poly_scaleDown, map_smul, hc.vector_eq]

theorem poly_monomial {k : ℕ} (hinside : k < count) :
    (monomial times weights count k).poly = X ^ k := by
  ext j
  by_cases h : j < count
  · by_cases hk : j = k <;> norm_num [poly, monomial, h, hk,
      hinside, coeff_X_pow]
  · have hk : j ≠ k := fun hk => h (hk ▸ hinside)
    simp [poly, monomial, h, hk, coeff_X_pow]

theorem isSampled_monomial (hsized : weights.length = times.length) {k : ℕ}
    (hinside : k < count) :
    (monomial times weights count k).IsSampled times weights count where
  long := by simp [monomial, hsized]
  size := by simp [monomial]
  vector_eq := by
    rw [poly_monomial hinside]
    ext i
    simp [vector, sampling_apply, monomial, power_eq, hsized]

end Column

/-- The polynomials that combine the columns of a basis. -/
noncomputable def reach (basis : List (Column ℝ)) : Submodule ℝ ℝ[X] :=
  Submodule.span ℝ {P | P ∈ basis.map Column.poly}

theorem poly_mem_reach {basis : List (Column ℝ)} {c : Column ℝ}
    (hc : c ∈ basis) :
    c.poly ∈ reach basis :=
  Submodule.subset_span (List.mem_map_of_mem hc)

theorem reach_mono {basis full : List (Column ℝ)} (h : basis ⊆ full) :
    reach basis ≤ reach full :=
  Submodule.span_mono fun _ hP => List.map_subset Column.poly h hP

theorem exists_of_mem_reach_cons {basis : List (Column ℝ)} {c : Column ℝ}
    {P : ℝ[X]} (hinside : P ∈ reach (c :: basis)) :
    ∃ a : ℝ, ∃ Q ∈ reach basis, P = a • c.poly + Q := by
  have hsplit : {P | P ∈ (c :: basis).map Column.poly}
      = insert c.poly {P | P ∈ basis.map Column.poly} := by
    ext
    simp
  rwa [reach, hsplit, Submodule.mem_span_insert] at hinside

/-- Columns of sampled polynomials whose values are orthonormal. -/
structure IsBasis (times weights : List ℝ) (count : ℕ)
    (basis : List (Column ℝ)) : Prop where
  sampled : ∀ c ∈ basis, c.IsSampled times weights count
  orthonormal : IsOrthonormal (basis.map (Column.vector times))

theorem isBasis_nil : IsBasis times weights count [] :=
  ⟨by simp, isOrthonormal_nil⟩

variable {basis : List (Column ℝ)}

theorem IsBasis.of_cons {c : Column ℝ}
    (h : IsBasis times weights count (c :: basis)) :
    IsBasis times weights count basis :=
  ⟨fun b hb => h.sampled b (List.mem_cons_of_mem c hb), h.orthonormal.of_cons⟩

theorem isSampled_foldl_reject
    (hb : ∀ b ∈ basis, b.IsSampled times weights count) {c : Column ℝ}
    (hc : c.IsSampled times weights count) :
    (basis.foldl Column.reject c).IsSampled times weights count := by
  induction basis generalizing c with
  | nil => exact hc
  | cons b rest ih =>
      exact ih (fun b' hb' => hb b' (List.mem_cons_of_mem b hb'))
        (hc.reject (hb b List.mem_cons_self))

theorem vector_foldl_reject (hb : ∀ b ∈ basis, b.IsSampled times weights count)
    {c : Column ℝ} (hc : c.IsSampled times weights count) :
    (basis.foldl Column.reject c).vector times
      = rejection (basis.map (Column.vector times)) (c.vector times) := by
  induction basis generalizing c with
  | nil => rfl
  | cons b rest ih =>
      have hd := hb b List.mem_cons_self
      rw [List.foldl_cons, List.map_cons, rejection_cons,
        ← Column.vector_reject hc hd]
      exact ih (fun b' hb' => hb b' (List.mem_cons_of_mem b hb')) (hc.reject hd)

theorem sub_poly_foldl_reject_mem
    (hb : ∀ b ∈ basis, b.IsSampled times weights count) {c : Column ℝ}
    (hc : c.IsSampled times weights count) :
    c.poly - (basis.foldl Column.reject c).poly ∈ reach basis := by
  induction basis generalizing c with
  | nil => simp
  | cons b rest ih =>
      have hd := hb b List.mem_cons_self
      have htaken : c.poly - (c.reject b).poly ∈ reach (b :: rest) := by
        rw [Column.poly_reject hc hd, sub_sub_cancel]
        exact Submodule.smul_mem _ _ (poly_mem_reach List.mem_cons_self)
      have hothers := reach_mono (List.subset_cons_self b rest)
        (ih (fun b' hb' => hb b' (List.mem_cons_of_mem b hb')) (hc.reject hd))
      simpa using add_mem htaken hothers

/-- What is left of a column when the parts along a basis are taken out. -/
noncomputable def leftover (basis : List (Column ℝ))
    (c : Column ℝ) : Column ℝ :=
  basis.foldl Column.reject c

/-- The column that a further one adds to a basis. -/
noncomputable def unitColumn (basis : List (Column ℝ))
    (c : Column ℝ) : Column ℝ :=
  (leftover basis c).scaleDown (norm (leftover basis c).values)

theorem extend_cons (basis : List (Column ℝ)) (c : Column ℝ)
    (rest : List (Column ℝ)) :
    extend basis (c :: rest)
      = if norm (leftover basis c).values < tolerance then none
        else extend (basis ++ [unitColumn basis c]) rest := by
  simp only [extend, Scalar.less, decide_eq_true_eq]
  rfl

theorem tolerance_pos : (0 : ℝ) < tolerance := by
  norm_num [tolerance]

namespace IsBasis

variable {c : Column ℝ}

theorem append_unitColumn (h : IsBasis times weights count basis)
    (hc : c.IsSampled times weights count)
    (hlong : 0 < norm (leftover basis c).values) :
    IsBasis times weights count (basis ++ [unitColumn basis c]) := by
  have hleft := isSampled_foldl_reject h.sampled hc
  refine ⟨?_, ?_⟩
  · intro b hb
    rcases List.mem_append.mp hb with hb | hb
    · exact h.sampled b hb
    · rw [List.mem_singleton.mp hb]
      exact hleft.scaleDown _
  · rw [List.map_append, List.map_singleton, unitColumn,
      Column.vector_scaleDown]
    refine h.orthonormal.append_singleton ?_ ?_
    · have hlength : norm (leftover basis c).values =
          ‖(leftover basis c).vector times‖ :=
        norm_eq hleft.long
      rw [hlength] at hlong ⊢
      rw [norm_smul, norm_inv, norm_norm, inv_mul_cancel₀ hlong.ne']
    · intro u hu
      have hfree := inner_rejection h.orthonormal (c.vector times) u hu
      rw [inner_smul_right, leftover, vector_foldl_reject h.sampled hc,
        hfree, mul_zero]

theorem poly_mem_reach_append (h : IsBasis times weights count basis)
    (hc : c.IsSampled times weights count)
    (hlong : 0 < norm (leftover basis c).values) :
    c.poly ∈ reach (basis ++ [unitColumn basis c]) := by
  have htaken : c.poly - (leftover basis c).poly ∈
      reach (basis ++ [unitColumn basis c]) :=
    reach_mono (List.subset_append_left basis _)
      (sub_poly_foldl_reject_mem h.sampled hc)
  have hown : (leftover basis c).poly ∈
      reach (basis ++ [unitColumn basis c]) := by
    have hscaled : (leftover basis c).poly
        = norm (leftover basis c).values • (unitColumn basis c).poly := by
      rw [unitColumn, Column.poly_scaleDown, smul_inv_smul₀ hlong.ne']
    rw [hscaled]
    exact Submodule.smul_mem _ _ (poly_mem_reach (by simp))
  simpa using add_mem htaken hown

end IsBasis

/-- Columns that are added to a basis come into its reach. -/
theorem extend_spec {columns basis full : List (Column ℝ)}
    (h : IsBasis times weights count basis)
    (hc : ∀ c ∈ columns, c.IsSampled times weights count)
    (hextended : extend basis columns = some full) :
    IsBasis times weights count full ∧ basis ⊆ full ∧ ∀ c ∈ columns,
      c.poly ∈ reach full := by
  induction columns generalizing basis with
  | nil =>
      cases hextended
      exact ⟨h, List.Subset.refl _, by simp⟩
  | cons c rest ih =>
      rw [extend_cons] at hextended
      split at hextended
      · cases hextended
      · rename_i hlong
        have hd := hc c List.mem_cons_self
        have hpositive := tolerance_pos.trans_le (not_lt.mp hlong)
        obtain ⟨hsound, hkept, hreached⟩ :=
          ih (h.append_unitColumn hd hpositive)
          (fun c' hc' => hc c' (List.mem_cons_of_mem c hc')) hextended
        refine ⟨hsound,
          List.Subset.trans (List.subset_append_left _ _) hkept, ?_⟩
        intro c' hc'
        rcases List.mem_cons.mp hc' with rfl | hc'
        · exact reach_mono hkept (h.poly_mem_reach_append hd hpositive)
        · exact hreached c' hc'

/-- The basis of a fit reaches the polynomials that it has coefficients for. -/
theorem basis?_spec (hsized : weights.length = times.length)
    (hfound : basis? times weights count = some basis) :
    IsBasis times weights count basis ∧ degreeLT ℝ count ≤ reach basis := by
  have hmonomials : ∀ c ∈ (List.range count).map (monomial times weights count),
      c.IsSampled times weights count := by
    intro c hc
    obtain ⟨k, hk, rfl⟩ := List.mem_map.mp hc
    exact Column.isSampled_monomial hsized (List.mem_range.mp hk)
  simp only [basis?] at hfound
  split at hfound
  · cases hfound
  · obtain ⟨hsound, -, hreached⟩ := extend_spec isBasis_nil hmonomials hfound
    refine ⟨hsound, ?_⟩
    rw [degreeLT_eq_span_X_pow, Submodule.span_le]
    intro P hP
    obtain ⟨k, hk, rfl⟩ := Finset.mem_image.mp (Finset.mem_coe.mp hP)
    have hinside := Finset.mem_range.mp hk
    have := hreached _ (List.mem_map_of_mem (List.mem_range.mpr hinside))
    rwa [Column.poly_monomial hinside] at this

/-- What is at right angles to a basis is so to the samples of all that it
reaches. -/
theorem inner_sampling_of_mem_reach (h : IsBasis times weights count basis)
    {v : EuclideanSpace ℝ (Fin times.length)}
    (hfree : ∀ b ∈ basis, inner ℝ (b.vector times) v = 0) {P : ℝ[X]}
    (hinside : P ∈ reach basis) : inner ℝ (sampling times weights P) v = 0 := by
  induction hinside using Submodule.span_induction with
  | mem P hP =>
      obtain ⟨b, hb, rfl⟩ := List.mem_map.mp hP
      rw [← (h.sampled b hb).vector_eq, hfree b hb]
  | zero => rw [map_zero, inner_zero_left]
  | add P Q _ _ hP hQ => rw [map_add, inner_add_left, hP, hQ, add_zero]
  | smul a P _ hP => rw [map_smul, inner_smul_left, hP, mul_zero]

/-- Polynomials in the reach of a basis that vanish at the weighted samples
vanish. -/
theorem IsBasis.eq_zero_of_sampling_eq_zero
    (h : IsBasis times weights count basis) {P : ℝ[X]}
    (hinside : P ∈ reach basis) (hvanishes : sampling times weights P = 0) :
    P = 0 := by
  induction basis generalizing P with
  | nil => simpa [reach] using hinside
  | cons c rest ih =>
      obtain ⟨a, Q, hQ, rfl⟩ := exists_of_mem_reach_cons hinside
      have hothers :
          inner ℝ (sampling times weights Q) (c.vector times) = 0 := by
        refine inner_sampling_of_mem_reach h.of_cons ?_ hQ
        intro b hb
        rw [real_inner_comm]
        exact h.orthonormal.inner_head _ (List.mem_map_of_mem hb)
      have hunit : inner ℝ (c.vector times) (c.vector times) = (1 : ℝ) := by
        rw [real_inner_self_eq_norm_sq, h.orthonormal.unit _ List.mem_cons_self,
          one_pow]
      -- the part along `c` is the only one that `c` sees
      have hnone : a = 0 := by
        have hseen : inner ℝ (sampling times weights (a • c.poly + Q))
            (c.vector times) = a := by
          rw [map_add, map_smul, ← (h.sampled c List.mem_cons_self).vector_eq,
            inner_add_left, real_inner_smul_left, hunit, hothers,
            mul_one, add_zero]
        rw [← hseen, hvanishes, inner_zero_left]
      rw [hnone, zero_smul, zero_add] at hvanishes ⊢
      exact ih h.of_cons hQ hvanishes

/-- Data that a polynomial explains but for what is left. -/
structure Progress.Explains (times weights data : List ℝ) (count : ℕ)
    (p : Progress ℝ) :
    Prop where
  long : p.left.length = times.length
  size : p.coefficients.length = count
  left_eq : signal times.length p.left
    = signal times.length data - sampling times weights
      (polynomial p.coefficients)

namespace Progress

variable {data : List ℝ} {p : Progress ℝ} {c : Column ℝ}

theorem signal_left_project (hp : p.Explains times weights data count)
    (hc : c.IsSampled times weights count) :
    signal times.length (p.project c).left
      = reject (c.vector times) (signal times.length p.left) :=
  signal_addMultiple_neg_dot hp.long hc.long

theorem polynomial_project (hp : p.Explains times weights data count)
    (hc : c.IsSampled times weights count) :
    polynomial (p.project c).coefficients = polynomial p.coefficients
      + inner ℝ (c.vector times) (signal times.length p.left) • c.poly := by
  have hpart := dot_eq_inner hc.long hp.long
  have hsized : p.coefficients.length = c.coefficients.length :=
    hp.size.trans hc.size.symm
  calc polynomial (p.project c).coefficients
      = polynomial p.coefficients + dot c.values p.left • c.poly :=
        polynomial_addMultiple hsized _
    _ = _ := by
        rw [hpart]
        rfl

theorem Explains.project (hp : p.Explains times weights data count)
    (hc : c.IsSampled times weights count) :
    (p.project c).Explains times weights data count where
  long := by simp [Progress.project, addMultiple, hp.long, hc.long]
  size := by simp [Progress.project, addMultiple, hp.size, hc.size]
  left_eq := by
    rw [signal_left_project hp hc, polynomial_project hp hc, map_add, map_smul,
      ← hc.vector_eq, ← sub_sub, ← hp.left_eq]
    rfl

theorem explains_foldl_project
    (hb : ∀ b ∈ basis, b.IsSampled times weights count)
    (hp : p.Explains times weights data count) :
    (basis.foldl project p).Explains times weights data count
      ∧ signal times.length (basis.foldl project p).left
        = rejection (basis.map (Column.vector times))
          (signal times.length p.left) := by
  induction basis generalizing p with
  | nil => exact ⟨hp, rfl⟩
  | cons b rest ih =>
      have hd := hb b List.mem_cons_self
      rw [List.foldl_cons, List.map_cons, rejection_cons,
        ← signal_left_project hp hd]
      exact ih (fun b' hb' => hb b' (List.mem_cons_of_mem b hb'))
        (hp.project hd)

end Progress

/-- The projection of data on a basis leaves what is at right angles to the
basis. -/
theorem project_spec (h : IsBasis times weights count basis) {data : List ℝ}
    (hsized : data.length = times.length) :
    (project basis data count).length = count
      ∧ ∀ b ∈ basis, inner ℝ (b.vector times)
        (signal times.length data
          - sampling times weights (polynomial (project basis data count)))
        = 0 := by
  have hstart : Progress.Explains times weights data count ⟨data,
      List.replicate count 0.0⟩ := by
    refine ⟨hsized, by simp, ?_⟩
    have hzero : polynomial (List.replicate count (0.0 : ℝ)) = 0 := by
      ext k
      by_cases hk : k < count <;> norm_num [hk]
    rw [hzero, map_zero, sub_zero]
  obtain ⟨hexplained, hleft⟩ := Progress.explains_foldl_project h.sampled hstart
  refine ⟨hexplained.size, fun b hb => ?_⟩
  have hfree := inner_rejection h.orthonormal (signal times.length data) _
    (List.mem_map_of_mem hb)
  rwa [← hleft, hexplained.left_eq] at hfree

end Fit

end PointerMotion
