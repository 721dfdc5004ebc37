/-
What operations give where they are not defined.  Other doubles take their
places, whatever ones, and the estimate of a track is the same.
-/
import PointerMotion.Strategy
import PointerMotion.Regression.Lemmas
import PointerMotion.Proofs.Magnitude

namespace PointerMotion

/-- Operations like those on doubles, but for what they give where these are not
defined. -/
structure Outside where
  divide : Float → Float → Float
  root : Float → Float
  double : Int → Float
  divide_eq : ∀ {x d : Float}, (d == 0.0) = false → divide x d = x / d
  root_eq : ∀ {x : Float}, ¬ x < 0.0 → root x = x.sqrt
  double_eq : ∀ {n : Int}, Binary.holdsInt n = true → double n = Binary.ofInt n

namespace Outside

/-- Doubles with these operations. -/
@[reducible]
def scalar (o : Outside) : Scalar Float :=
  { instScalarFloat with
    toDiv := ⟨o.divide⟩
    sqrt := o.root
    ofInt := o.double }

variable (o : Outside)

theorem div_eq {x d : Float} (h : (d == 0.0) = false) :
    o.scalar.toDiv.div x d = x / d :=
  o.divide_eq h

theorem sqrt_eq {x : Float} (h : ¬ x < 0.0) :
    @Scalar.sqrt Float o.scalar x = x.sqrt :=
  o.root_eq h

theorem ofInt_eq {n : Int} (h : Binary.holdsInt n = true) :
    @Scalar.ofInt Float o.scalar n = Binary.ofInt n :=
  o.double_eq h

end Outside

namespace Double

/-- Words of 64 bits and their differences are far from the largest doubles. -/
theorem holdsInt_of_natAbs_le {n : Int} (h : n.natAbs ≤ 2 ^ 65) :
    Binary.holdsInt n = true :=
  decide_eq_true (Nat.lt_of_le_of_lt h (by decide))

theorem reaches_secondsPerNano :
    Reaches .positive (-30) (parts (Estimator.secondsPerNano : Float)) := by
  have hparts : parts (Estimator.secondsPerNano : Float) =
      .finite .positive 4835703278458517 (-82) (by decide) := rfl
  rw [hparts]
  exact .finite (by decide) (by decide)

theorem ofInt_ne_zero {n : Int} (h : n ≠ 0) : (Binary.ofInt n == 0.0) = false :=
  beq_zero_eq_false (reaches_ofInt h)

end Double

namespace Impulse

open Double

variable (o : Outside)

theorem velocityOfEnergy_outside (work : Float) :
    @velocityOfEnergy Float o.scalar work = velocityOfEnergy work := by
  have hwork : @Scalar.sqrt Float o.scalar work.abs = work.abs.sqrt :=
    o.sqrt_eq (abs_not_lt_zero work)
  have htwo : @Scalar.sqrt Float o.scalar (2.0 : Float) = (2.0 : Float).sqrt :=
    o.sqrt_eq (by decide)
  change copySignDouble
    (@Scalar.sqrt Float o.scalar work.abs * @Scalar.sqrt Float o.scalar 2.0)
    work = _
  rw [hwork, htwo]
  rfl

/-- The seconds between two times that differ are not zero. -/
theorem interval_ne_zero {time time' : Int} (h : time ≠ time') :
    ((Estimator.secondsPerNano : Float) * Scalar.ofInt (time - time') == 0.0) =
      false :=
  beq_zero_eq_false
    (reaches_mul reaches_secondsPerNano (reaches_ofInt (by omega))
    (by decide))

theorem intervalVelocity_outside {older newer : Sample Float}
    (hne : older.time ≠ newer.time)
    (hheld : Binary.holdsInt (older.time - newer.time) = true) :
    @intervalVelocity Float o.scalar older newer =
      intervalVelocity older newer := by
  unfold intervalVelocity
  rw [o.ofInt_eq hheld]
  exact o.div_eq (interval_ne_zero hne)

theorem workAfter_outside (work : Float) {older newer : Sample Float}
    (hheld : Binary.holdsInt (older.time - newer.time) = true) :
    @workAfter Float o.scalar work older newer =
      workAfter work older newer := by
  unfold workAfter
  split
  · rfl
  next hne =>
    rw [intervalVelocity_outside o hne hheld, velocityOfEnergy_outside]
    rfl

/-- Samples close enough in time for every interval to be a double. -/
def Held (samples : List (Sample Float)) : Prop :=
  ∀ s ∈ samples, ∀ s' ∈ samples, Binary.holdsInt (s.time - s'.time) = true

theorem Held.of_cons {s : Sample Float} {samples : List (Sample Float)}
    (h : Held (s :: samples)) :
    Held samples :=
  fun s hs s' hs' =>
    h s (List.mem_cons_of_mem _ hs) s' (List.mem_cons_of_mem _ hs')

theorem workThrough_outside (work : Float) {samples : List (Sample Float)}
    (h : Held samples) :
    @workThrough Float o.scalar work samples = workThrough work samples := by
  induction samples generalizing work with
  | nil => rfl
  | cons older rest ih =>
      cases rest with
      | nil => rfl
      | cons newer rest =>
          have hheld := h older (by simp) newer (by simp)
          unfold workThrough
          rw [workAfter_outside o work hheld]
          exact ih _ h.of_cons

theorem totalWork_outside {samples : List (Sample Float)} (h : Held samples) :
    @totalWork Float o.scalar samples = totalWork samples := by
  match samples with
  | [] => rfl
  | [_] => rfl
  | older :: newer :: rest =>
      have hheld := h older (by simp) newer (by simp)
      unfold totalWork
      simp only [workAfter_outside o _ hheld]
      exact workThrough_outside o _ h.of_cons

theorem velocity_outside {samples : List (Sample Float)} (h : Held samples) :
    @velocity Float o.scalar samples = velocity samples := by
  have hreverse : Held samples.reverse :=
    fun s hs s' hs' => h s (List.mem_reverse.mp hs) s' (List.mem_reverse.mp hs')
  unfold velocity
  split
  next newer older =>
    split
    · rfl
    next hne =>
      exact intervalVelocity_outside o hne (h older (by simp) newer (by simp))
  · split
    · rfl
    · rw [totalWork_outside o hreverse, velocityOfEnergy_outside]

theorem estimate_outside {track : List (TrackPoint Float)}
    (h : ∀ p ∈ track, ∀ q ∈ track, Binary.holdsInt (p.time - q.time) = true) :
    @estimate Float o.scalar track = estimate track := by
  have hheld : ∀ coordinate, Held (axis coordinate track) := by
    intro coordinate s hs s' hs'
    obtain ⟨p, hp, rfl⟩ := List.mem_map.mp hs
    obtain ⟨q, hq, rfl⟩ := List.mem_map.mp hs'
    exact h p hp q hq
  unfold estimate
  split
  · rw [velocity_outside o (hheld _), velocity_outside o (hheld _)]
    rfl
  · rfl

end Impulse

namespace Average

open Double

variable (o : Outside)

theorem pairVelocity_outside (oldest later : Float) {duration : Int}
    (hpos : 0 < duration) (hheld : Binary.holdsInt duration = true) :
    @pairVelocity Float o.scalar oldest later duration =
      pairVelocity oldest later duration := by
  have hdiv : o.scalar.toDiv.div (Binary.ofInt 1000000000)
      (Binary.ofInt duration) =
      Binary.ofInt 1000000000 / Binary.ofInt duration :=
        o.div_eq (ofInt_ne_zero (by omega))
  unfold pairVelocity
  rw [o.ofInt_eq hheld, o.ofInt_eq (by decide)]
  exact congrArg ((later - oldest) * ·) hdiv

theorem add_outside {r : Running Float} (velocity : Float) {duration : Int}
    (hpos : 0 < duration) (hlast : 0 ≤ r.lastDuration)
    (hheld : Binary.holdsInt duration = true)
    (hheldLast : Binary.holdsInt r.lastDuration = true)
    (hheldSum : Binary.holdsInt (duration + r.lastDuration) = true) :
    @Running.add Float o.scalar r velocity duration =
      r.add velocity duration := by
  have hsum : duration + r.lastDuration ≠ 0 := by omega
  unfold Running.add
  rw [o.ofInt_eq hheld, o.ofInt_eq hheldLast, o.ofInt_eq hheldSum,
    Running.mk.injEq]
  exact ⟨o.div_eq (ofInt_ne_zero hsum), rfl⟩

/-- Differences in time that an average may divide by. -/
def Near (duration : Int) : Prop :=
  0 ≤ duration ∧ duration ≤ limits.horizon

theorem Near.holds {duration : Int} (h : Near duration) :
    Binary.holdsInt duration = true := by
  have hmost : duration ≤ 200000000 := h.2
  have hleast := h.1
  exact holdsInt_of_natAbs_le (by omega)

theorem Near.holds_add {duration last : Int} (h : Near duration)
    (hlast : Near last) :
    Binary.holdsInt (duration + last) = true := by
  have hmost : duration ≤ 200000000 := h.2
  have hmost' : last ≤ 200000000 := hlast.2
  have hleast := h.1
  have hleast' := hlast.1
  exact holdsInt_of_natAbs_le (by omega)

theorem foldl_outside (coordinate : Position Float → Float)
    (oldest : TrackPoint Float) {pairs : List (TrackPoint Float)}
    (h : ∀ p ∈ pairs, 0 < p.time - oldest.time ∧ Near (p.time - oldest.time))
    {r : Running Float} (hr : Near r.lastDuration) :
    pairs.foldl (fun r p => @Running.add Float o.scalar r
        (@pairVelocity Float o.scalar (coordinate oldest.position)
          (coordinate p.position) (p.time - oldest.time))
        (p.time - oldest.time)) r =
      pairs.foldl (fun r p => r.add
        (pairVelocity (coordinate oldest.position) (coordinate p.position)
          (p.time - oldest.time))
        (p.time - oldest.time)) r := by
  induction pairs generalizing r with
  | nil => rw [List.foldl_nil, List.foldl_nil]
  | cons p rest ih =>
      obtain ⟨hpos, hnear⟩ := h p List.mem_cons_self
      rw [List.foldl_cons, List.foldl_cons,
        pairVelocity_outside o _ _ hpos hnear.holds,
        add_outside o _ hpos hr.1 hnear.holds hr.holds (hnear.holds_add hr)]
      exact ih (fun q hq => h q (List.mem_cons_of_mem p hq)) hnear

theorem velocity_outside (coordinate : Position Float → Float)
    (oldest : TrackPoint Float) {pairs : List (TrackPoint Float)}
    (h : ∀ p ∈ pairs, 0 < p.time - oldest.time ∧ Near (p.time - oldest.time)) :
    @velocity Float o.scalar coordinate oldest pairs =
      velocity coordinate oldest pairs := by
  have hstart : Near 0 := ⟨by decide, by decide⟩
  exact congrArg Running.velocity (foldl_outside o coordinate oldest h hstart)

theorem estimate_outside {track : List (TrackPoint Float)}
    (h : ∀ p ∈ track, ∀ q ∈ track, p.time - q.time ≤ limits.horizon) :
    @estimate Float o.scalar track = estimate track := by
  unfold estimate
  split
  next newest rest oldest later hreverse =>
    have hmem : ∀ p ∈ oldest :: later, p ∈ newest :: rest := by
      intro p hp
      rwa [← hreverse, List.mem_reverse] at hp
    have hpairs : ∀ p ∈ partners oldest.time later,
        0 < p.time - oldest.time ∧ Near (p.time - oldest.time) := by
      intro p hp
      obtain ⟨hlater, hlong⟩ := List.mem_filter.mp hp
      have hmost := h p (hmem p (List.mem_cons_of_mem _ hlater)) oldest
        (hmem oldest List.mem_cons_self)
      have hleast : 10000000 ≤ p.time - oldest.time := of_decide_eq_true hlong
      exact ⟨by omega, by omega, hmost⟩
    simp only [velocity_outside o _ oldest hpairs]
    rfl
  · rfl

end Average

namespace Fit

open Double

variable (o : Outside)

theorem norm_outside (xs : List Float) : @norm Float o.scalar xs = norm xs := by
  have hzero : isNegative (parts 0.0) = false := rfl
  exact o.sqrt_eq (sum_squares_not_lt_zero xs hzero)

theorem scaleDown_outside (c : Column Float) {divisor : Float}
    (h : (divisor == 0.0) = false) :
    @Column.scaleDown Float o.scalar c divisor = c.scaleDown divisor := by
  have hdiv : ∀ x, o.scalar.toDiv.div x divisor = x / divisor :=
    fun x => o.div_eq h
  unfold Column.scaleDown
  rw [Column.mk.injEq]
  exact ⟨List.map_congr_left fun x _ => hdiv x,
    List.map_congr_left fun x _ => hdiv x⟩

/-- A length that is not below the tolerance is not zero. -/
theorem length_ne_zero {length : Float}
    (h : ¬ Scalar.less length tolerance = true) :
    (length == 0.0) = false := by
  by_contra hzero
  apply h
  exact decide_eq_true
    (lt_of_beq_zero (Bool.not_eq_false _ ▸ hzero) (by decide +kernel))

theorem extend_outside (basis columns : List (Column Float)) :
    @extend Float o.scalar basis columns = extend basis columns := by
  induction columns generalizing basis with
  | nil => rfl
  | cons column rest ih =>
      let left := basis.foldl Column.reject column
      change
        (if Scalar.less (@norm Float o.scalar left.values) tolerance then none
          else @extend Float o.scalar
            (basis ++
              [@Column.scaleDown Float o.scalar left
                (@norm Float o.scalar left.values)])
            rest) =
        if Scalar.less (norm left.values) tolerance then none
          else extend (basis ++ [left.scaleDown (norm left.values)]) rest
      rw [norm_outside]
      split
      · rfl
      next hlong =>
        rw [scaleDown_outside o left (length_ne_zero hlong)]
        exact ih _

theorem mean_outside {xs : List Float} (hpos : xs ≠ [])
    (hheld : Binary.holdsInt xs.length = true) :
    @mean Float o.scalar xs = mean xs := by
  have hlength : (xs.length : Int) ≠ 0 := by
    rwa [Int.natCast_ne_zero, Ne, List.length_eq_zero_iff]
  unfold mean
  rw [o.ofInt_eq hheld]
  exact o.div_eq (ofInt_ne_zero hlength)

theorem power_outside (t : Float) (k : Nat) :
    @power Float o.scalar t k = power t k := by
  induction k with
  | zero => rfl
  | succ k ih => exact congrArg (· * t) ih

theorem monomial_outside (times weights : List Float) (count k : Nat) :
    @monomial Float o.scalar times weights count k =
      monomial times weights count k := by
  unfold monomial
  simp only [power_outside]

theorem basis?_outside (times weights : List Float) (count : Nat) :
    @basis? Float o.scalar times weights count =
      basis? times weights count := by
  have hmonomials :
      (List.range count).map (@monomial Float o.scalar times weights count) =
      (List.range count).map (monomial times weights count) :=
    List.map_congr_left fun k _ => monomial_outside o times weights count k
  unfold basis?
  rw [extend_outside, hmonomials]

theorem evaluate_outside (coefficients : List Float) (t : Float) :
    @evaluate Float o.scalar coefficients t = evaluate coefficients t := by
  unfold evaluate
  simp only [power_outside]
  rfl

/-- A spread above the tolerance is not zero. -/
theorem total_ne_zero {total : Float} (h : Scalar.less tolerance total = true) :
    (total == 0.0) = false := by
  by_contra hzero
  have hlt : (tolerance : Float) < 0.0 :=
    lt_zero_of_lt (Bool.not_eq_false _ ▸ hzero) (of_decide_eq_true h)
  exact absurd hlt (by decide +kernel)

theorem determination_outside (weights : List Float) {data : List Float}
    (fitted : List Float) (hpos : data ≠ [])
    (hheld : Binary.holdsInt data.length = true) :
    @determination Float o.scalar weights data fitted =
      determination weights data fitted := by
  have hshare : ∀ total : Float, (if Scalar.less tolerance total then
      1.0 - o.scalar.toDiv.div (squares weights data fitted) total else 1.0) =
        if Scalar.less tolerance total then
          1.0 - squares weights data fitted / total else 1.0 := by
    intro total
    split
    next hspread => rw [o.div_eq (total_ne_zero hspread)]
    · rfl
  have hmean := mean_outside o hpos hheld
  have hclamp : ∀ x : Float, @clamp Float o.scalar x = clamp x := fun _ => rfl
  unfold determination
  simp only [hmean]
  exact (hclamp _).trans (congrArg clamp (hshare _))

theorem solve?_outside (times weights : List Float) {data : List Float}
    (count : Nat) (hpos : data ≠ [])
    (hheld : Binary.holdsInt data.length = true) :
    @solve? Float o.scalar times data weights count =
      solve? times data weights count := by
  have hfitted : ∀ coefficients,
      times.map (@evaluate Float o.scalar coefficients) =
      times.map (evaluate coefficients) :=
    fun coefficients => List.map_congr_left fun t _ =>
      evaluate_outside o coefficients t
  unfold solve?
  rw [basis?_outside]
  apply congrArg (Option.map · (basis? times weights count))
  funext basis
  rw [Solution.mk.injEq, hfitted]
  exact ⟨rfl, determination_outside o weights _ hpos hheld⟩

end Fit

theorem Weighting.weightsBehind_outside (o : Outside) (w : Weighting)
    (younger? : Option Float) (ages : List Float) :
    @weightsBehind Float o.scalar w younger? ages =
      w.weightsBehind younger? ages := by
  induction ages generalizing younger? with
  | nil => rfl
  | cons age rest ih =>
      exact congrArg (w.weight younger? age :: ·) (ih (some age))

namespace Regression

open Double

variable (o : Outside)

theorem scale_outside : @scale Float o.scalar = scale := by
  unfold scale
  rw [o.ofInt_eq (by decide)]
  rfl

theorem scale_ne_zero : ((scale : Float) == 0.0) = false :=
  beq_zero_eq_false
    (reaches_mul (reaches_ofInt (by decide)) reaches_secondsPerNano (by decide))

theorem ages_outside {newest : Int} {track : List (TrackPoint Float)}
    (h : ∀ p ∈ track, Binary.holdsInt (newest - p.time) = true) :
    @ages Float o.scalar newest track = ages newest track :=
  List.map_congr_left fun p hp => o.ofInt_eq (h p hp)

theorem million_ne_zero : ((1000000.0 : Float) == 0.0) = false := by
  decide +kernel

theorem millis_outside (age : Float) :
    @millis Float o.scalar age = millis age :=
  o.div_eq million_ne_zero

theorem horizons_outside (age : Float) :
    @horizons Float o.scalar age = horizons age := by
  unfold horizons
  rw [scale_outside]
  exact o.div_eq scale_ne_zero

/-- The powers of the horizon that a polynomial needs are not zero. -/
theorem power_scale_ne_zero {k : Nat} (h : k < 5) :
    (Fit.power (scale : Float) k == 0.0) = false := by
  revert k
  decide +kernel

theorem toSeconds_outside {coefficients : List Float}
    (h : coefficients.length ≤ 5) :
    @toSeconds Float o.scalar coefficients = toSeconds coefficients := by
  have hdiv : ∀ p ∈ coefficients.zip (List.range coefficients.length),
      o.scalar.toDiv.div p.1 (Fit.power scale p.2) =
        p.1 / Fit.power scale p.2 := by
    intro p hp
    have hk := List.mem_range.mp (List.of_mem_zip hp).2
    exact o.div_eq (power_scale_ne_zero (Nat.lt_of_lt_of_le hk h))
  unfold toSeconds
  simp only [Fit.power_outside, scale_outside,
    ← List.map_uncurry_zip_eq_zipWith]
  exact List.map_congr_left hdiv

namespace Samples

theorem ofTrack_outside (weighting : Weighting) {newest : Int}
    {track : List (TrackPoint Float)}
    (h : ∀ p ∈ track, Binary.holdsInt (newest - p.time) = true) :
    @ofTrack Float o.scalar weighting newest track =
      ofTrack weighting newest track := by
  have htimes : (ages newest track).map (@horizons Float o.scalar) =
      (ages newest track).map horizons :=
    List.map_congr_left fun age _ => horizons_outside o age
  have hmillis : (ages newest track).map (@millis Float o.scalar) =
      (ages newest track).map millis :=
    List.map_congr_left fun age _ => millis_outside o age
  unfold ofTrack
  rw [ages_outside o h]
  simp only [htimes, hmillis]
  exact congrArg (Samples.mk _ · _ _)
    (weighting.weightsBehind_outside o .none _)

variable {s : Samples Float}

theorem fit?_outside (hxs : s.xs ≠ []) (hys : s.ys ≠ [])
    (hheldX : Binary.holdsInt s.xs.length = true)
    (hheldY : Binary.holdsInt s.ys.length = true) (degree : Nat) :
    @fit? Float o.scalar s degree = s.fit? degree := by
  unfold fit?
  rw [Fit.solve?_outside o _ _ _ hxs hheldX,
    Fit.solve?_outside o _ _ _ hys hheldY]

theorem best?_outside (hxs : s.xs ≠ []) (hys : s.ys ≠ [])
    (hheldX : Binary.holdsInt s.xs.length = true)
    (hheldY : Binary.holdsInt s.ys.length = true) (most : Nat) :
    @best? Float o.scalar s most = s.best? most := by
  induction most with
  | zero => rfl
  | succ degree ih =>
      unfold best?
      rw [fit?_outside o hxs hys hheldX hheldY, ih]

end Samples

theorem estimator_outside {m : Model Float} (hx : m.x.coefficients.length ≤ 5)
    (hy : m.y.coefficients.length ≤ 5) (time : Int) :
    @Model.estimator Float o.scalar m time = m.estimator time := by
  unfold Model.estimator
  rw [toSeconds_outside o hx, toSeconds_outside o hy]
  rfl

theorem estimate_outside (plan : Plan) {track : List (TrackPoint Float)}
    (h : ∀ p ∈ track, ∀ q ∈ track, Binary.holdsInt (p.time - q.time) = true)
    (hlength : Binary.holdsInt track.length = true) :
    @estimate Float o.scalar plan track = estimate plan track := by
  cases track with
  | nil => rfl
  | cons newest rest =>
      let samples := Samples.ofTrack plan.weighting newest.time (newest :: rest)
      let most := min plan.degree.val rest.length
      have hlengthX : samples.xs.length = (newest :: rest).length :=
        List.length_map _
      have hlengthY : samples.ys.length = (newest :: rest).length :=
        List.length_map _
      have hbest : @Samples.best? Float o.scalar samples most =
          samples.best? most := by
        apply Samples.best?_outside o
        · exact List.cons_ne_nil _ _
        · exact List.cons_ne_nil _ _
        · rwa [hlengthX]
        · rwa [hlengthY]
      rw [@estimate_cons Float o.scalar, estimate_cons,
        Samples.ofTrack_outside o plan.weighting (h newest List.mem_cons_self),
        hbest]
      cases hfound : samples.best? most with
      | none => rfl
      | some m =>
          have hmost := (Samples.best?_eq_some hfound).2.1
          have hdegree : m.degree + 1 ≤ 5 := by omega
          obtain ⟨hx, hy⟩ := Samples.length_coefficients_of_best? hfound
          exact congrArg some (estimator_outside o (Nat.le_trans hx hdegree)
            (Nat.le_trans hy hdegree) newest.time)

end Regression

namespace Filter

open Double

variable (o : Outside)

theorem seconds_outside {nanos : Int} (h : Binary.holdsInt nanos = true) :
    @Estimator.seconds Float o.scalar nanos = Estimator.seconds nanos := by
  unfold Estimator.seconds
  rw [o.ofInt_eq h]
  rfl

theorem reaches_seconds {nanos : Int} (h : 0 < nanos) :
    Reaches .positive (-30) (parts (Estimator.seconds nanos : Float)) := by
  have hnanos := reaches_ofInt (Int.ne_of_gt h)
  rw [decide_eq_false (Int.not_lt.mpr (Int.le_of_lt h))] at hnanos
  exact reaches_mul hnanos reaches_secondsPerNano (by decide)

theorem seconds_ne_zero {nanos : Int} (h : 0 < nanos) :
    ((Estimator.seconds nanos : Float) == 0.0) = false :=
  beq_zero_eq_false (reaches_seconds h)

theorem reaches_timeConstant :
    Reaches .positive (-7) (parts (timeConstant : Float)) := by
  have hparts : parts (timeConstant : Float) =
      .finite .positive 5764607523034235 (-59) (by decide) := rfl
  rw [hparts]
  exact .finite (by decide) (by decide)

theorem timeConstant_add_ne_zero {nanos : Int} (h : 0 < nanos) :
    ((timeConstant : Float) + Estimator.seconds nanos == 0.0) = false :=
  beq_zero_eq_false
    (reaches_add reaches_timeConstant (reaches_seconds h) (by decide))

theorem gain_outside {nanos : Int} (h : 0 < nanos) :
    @gain Float o.scalar (Estimator.seconds nanos) =
      gain (Estimator.seconds nanos) :=
  o.div_eq (timeConstant_add_ne_zero h)

theorem Axis.advance_outside (order : Order) (measured : Nat) {nanos : Int}
    (h : 0 < nanos) (position : Float) (a : Axis Float) :
    @Axis.advance Float o.scalar order measured
      (Estimator.seconds nanos) position a =
      a.advance order measured (Estimator.seconds nanos) position := by
  have hdiv : ∀ x : Float,
      @HDiv.hDiv Float Float Float (@instHDiv Float o.scalar.toDiv) x
      (Estimator.seconds nanos) = x / Estimator.seconds nanos :=
    fun x => o.div_eq (seconds_ne_zero h)
  unfold Axis.advance
  simp only [hdiv, gain_outside o h]

theorem Motion.advance_outside (order : Order) {time : Int} (p : Position Float)
    {m : Motion Float} (h : 0 < time - m.time)
    (hheld : Binary.holdsInt (time - m.time) = true) :
    @Motion.advance Float o.scalar order time p m = m.advance order time p := by
  unfold Motion.advance
  simp only [seconds_outside o hheld, Axis.advance_outside o order m.measured h]

theorem two_ne_zero : ((2.0 : Float) == 0.0) = false := by
  decide +kernel

theorem Axis.coefficients_outside (order : Order) (a : Axis Float) :
    @Axis.coefficients Float o.scalar order a = a.coefficients order := by
  cases order with
  | velocity => rfl
  | acceleration =>
      exact congrArg (Quartic.mk a.position a.velocity · 0.0 0.0)
        (o.div_eq two_ne_zero)

theorem Motion.estimator_outside (order : Order) (m : Motion Float) :
    @Motion.estimator Float o.scalar order m = m.estimator order := by
  unfold Motion.estimator
  rw [Axis.coefficients_outside, Axis.coefficients_outside]

end Filter

end PointerMotion
