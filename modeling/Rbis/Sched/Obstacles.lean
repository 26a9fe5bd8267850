import Mathlib.Algebra.Order.Ring.Abs
import Mathlib.Tactic.LinearCombination
import Rbis.Lib.Clipping
import Rbis.Sched.DrlInterface

/-! # The prediction of obstacles

`isCloseToObs` asks whether a UE is in one of the rectangular obstacles, will be, or passes
through one.  The passage is decided by clipping the segment to the rectangle
(`doesLineIntersectRectangle`), in the frame of the obstacle, which is exact
(`segmentClipping_iff`).  A UE slower than 0.1 counts as standing still: its passage is not
looked at, however far in the future the prediction is (`isCloseToObs_iff`).

The functions are generic in the field of the coordinates, with the cosine and the sine as a
parameter (`Trig`), and run on the rationals. -/

namespace Rbis

open Cxx Clipping

/-- `ns3::Vector`. -/
structure Vec (K : Type) where
  x : K
  y : K
  z : K
deriving DecidableEq

/-- A rectangle around its centre, rotated by an angle. -/
structure RectangularObstacle (K : Type) where
  centerX : K
  centerY : K
  width : K
  height : K
  rotationAngle : K

/-- What `isCloseToObs` reads of the interface. -/
structure Kinematics (K : Type) where
  position : UMap ℤ (Vec K)
  velocity : UMap ℤ (Vec K)
  tLastUpdate : UMap ℤ K

/-- `std::cos` and `std::sin`. -/
structure Trig (K : Type) [Field K] where
  cos : K → K
  sin : K → K
  cos_sq_add_sin_sq : ∀ a, cos a ^ 2 + sin a ^ 2 = 1
  cos_neg : ∀ a, cos (-a) = cos a
  sin_neg : ∀ a, sin (-a) = -sin a

section Definitions

variable {K : Type} [Field K] [LinearOrder K]

/-- `IsPointInRectangle`. -/
def isPointInRectangle (point : Vec K) (minX maxX minY maxY : K) : Bool :=
  decide (point.x ≥ minX ∧ point.x ≤ maxX ∧ point.y ≥ minY ∧ point.y ≤ maxY)

/-- `ClipLine`: the parameters that are left, `none` for the result `false`. -/
def clipLine (denom num tMin tMax : K) : Option (K × K) :=
  if |denom| < 1 / 1000000 then if num ≤ 0 then some (tMin, tMax) else none
  else
    let t := num / denom
    if denom > 0 then
      if t > tMax then none else some (if t > tMin then t else tMin, tMax)
    else if t < tMin then none else some (tMin, if t < tMax then t else tMax)

/-- `DoesLineIntersectRectangle`. -/
def doesLineIntersectRectangle (start stop : Vec K) (minX maxX minY maxY : K) : Bool :=
  let dx := stop.x - start.x
  let dy := stop.y - start.y
  if |dx| < 1 / 1000000 ∧ |dy| < 1 / 1000000 then isPointInRectangle start minX maxX minY maxY
  else
    let clipped := do
      let (tMin, tMax) ← clipLine dx (minX - start.x) 0 1
      let (tMin, tMax) ← clipLine (-dx) (start.x - maxX) tMin tMax
      let (tMin, tMax) ← clipLine dy (minY - start.y) tMin tMax
      clipLine (-dy) (start.y - maxY) tMin tMax
    match clipped with
    | none => false
    | some (tMin, tMax) => decide (tMin ≤ tMax)

namespace Trig

variable (T : Trig K)

omit [LinearOrder K] in
/-- `RotatePoint`. -/
def rotatePoint (point : Vec K) (centerX centerY angle : K) : Vec K :=
  let x := point.x - centerX
  let y := point.y - centerY
  { x := x * T.cos angle - y * T.sin angle + centerX
    y := x * T.sin angle + y * T.cos angle + centerY
    z := point.z }

omit [LinearOrder K] in
/-- `InverseRotatePoint`. -/
def inverseRotatePoint (point : Vec K) (centerX centerY angle : K) : Vec K :=
  T.rotatePoint point centerX centerY (-angle)

/-- `IsPointInRotatedRectangle`. -/
def isPointInRotatedRectangle (point : Vec K) (obstacle : RectangularObstacle K) : Bool :=
  let halfWidth := obstacle.width / 2
  let halfHeight := obstacle.height / 2
  if |obstacle.rotationAngle| < 1 / 1000000 then
    isPointInRectangle point (obstacle.centerX - halfWidth) (obstacle.centerX + halfWidth)
      (obstacle.centerY - halfHeight) (obstacle.centerY + halfHeight)
  else
    let localPoint := T.inverseRotatePoint point obstacle.centerX obstacle.centerY
      obstacle.rotationAngle
    decide (localPoint.x ≥ obstacle.centerX - halfWidth ∧
      localPoint.x ≤ obstacle.centerX + halfWidth ∧
      localPoint.y ≥ obstacle.centerY - halfHeight ∧
      localPoint.y ≤ obstacle.centerY + halfHeight)

/-- `DoesLineIntersectRotatedRectangle`. -/
def doesLineIntersectRotatedRectangle (start stop : Vec K) (obstacle : RectangularObstacle K) :
    Bool :=
  let halfWidth := obstacle.width / 2
  let halfHeight := obstacle.height / 2
  if |obstacle.rotationAngle| < 1 / 1000000 then
    doesLineIntersectRectangle start stop
      (obstacle.centerX - halfWidth) (obstacle.centerX + halfWidth)
      (obstacle.centerY - halfHeight) (obstacle.centerY + halfHeight)
  else
    let localStart := T.inverseRotatePoint start obstacle.centerX obstacle.centerY
      obstacle.rotationAngle
    let localEnd := T.inverseRotatePoint stop obstacle.centerX obstacle.centerY
      obstacle.rotationAngle
    doesLineIntersectRectangle localStart localEnd
      (obstacle.centerX - halfWidth) (obstacle.centerX + halfWidth)
      (obstacle.centerY - halfHeight) (obstacle.centerY + halfHeight)

/-- `isCloseToObs` at simulation time `now`.  The test of the speed, a square root, is made on
its square. -/
def isCloseToObs (rectangularObstacles : List (RectangularObstacle K)) (now : K)
    (m : Kinematics K) (rnti : ℤ) : Bool :=
  match m.position.get? rnti, m.velocity.get? rnti, m.tLastUpdate.get? rnti with
  | some currentPos, some velocity, some lastUpdateTime =>
      let predictionTime : K := 1
      let safetyMargin : K := 0
      let deltaTime := predictionTime + (now - lastUpdateTime)
      let futurePos : Vec K :=
        { x := currentPos.x + velocity.x * deltaTime
          y := currentPos.y + velocity.y * deltaTime
          z := currentPos.z }
      rectangularObstacles.any fun obstacle =>
        let expandedObstacle : RectangularObstacle K :=
          { obstacle with
            width := obstacle.width + 2 * safetyMargin
            height := obstacle.height + 2 * safetyMargin }
        T.isPointInRotatedRectangle currentPos expandedObstacle ||
          T.isPointInRotatedRectangle futurePos expandedObstacle ||
            (decide (velocity.x * velocity.x + velocity.y * velocity.y ≥ (1 / 10) ^ 2) &&
              T.doesLineIntersectRotatedRectangle currentPos futurePos expandedObstacle)
  | _, _, _ => false

end Trig

end Definitions

variable {K : Type} [Field K] [LinearOrder K]

/-- The point of the segment from `a` to `b` at the parameter `t`. -/
def Vec.toward (a b : Vec K) (t : K) : Vec K where
  x := a.x + t * (b.x - a.x)
  y := a.y + t * (b.y - a.y)
  z := a.z + t * (b.z - a.z)

/-- The closed segment. -/
def Vec.segment (a b : Vec K) : Set (Vec K) := {p | ∃ t, 0 ≤ t ∧ t ≤ 1 ∧ p = a.toward b t}

/-- A component of a displacement that is zero or not below the tolerance. -/
def Clear (d : K) : Prop := d = 0 ∨ 1 / 1000000 ≤ |d|

/-- The displacement from `a` to `b`. -/
structure Vec.ClearOf (a b : Vec K) : Prop where
  x : Clear (b.x - a.x)
  y : Clear (b.y - a.y)

theorem Clear.neg {d : K} (h : Clear d) : Clear (-d) := by
  unfold Clear at h ⊢
  rwa [neg_eq_zero, abs_neg]

theorem Clear.eq_zero {d : K} (h : Clear d) (hlt : |d| < 1 / 1000000) : d = 0 :=
  h.resolve_right (not_le.mpr hlt)

variable [IsStrictOrderedRing K]

/-! ### Clipping a segment -/

/-- **Step lemma.** The parameters that are left after a clip. -/
theorem clipLine_represents {denom num tMin tMax : K} {s : Set K} (hd : Clear denom)
    (h : Represents (some (tMin, tMax)) s) :
    Represents (clipLine denom num tMin tMax) (s ∩ halfLine num denom) := by
  unfold clipLine
  split
  · next hlt =>
      rw [hd.eq_zero hlt]
      exact h.inter_zero
  · next hge =>
      dsimp only
      split
      · next hpos =>
          rw [halfLine_of_pos hpos, ← max_def_lt]
          exact h.inter_Ici
      · next hnpos =>
          have hne : denom ≠ 0 := by
            rintro rfl
            exact hge (by rw [abs_zero]; positivity)
          have hneg : denom < 0 := lt_of_le_of_ne (not_lt.mp hnpos) hne
          rw [halfLine_of_neg hneg, ← min_def_lt, min_comm]
          exact h.inter_Iic

theorem mem_clipped_iff {start stop : Vec K} {minX maxX minY maxY t : K} :
    t ∈ Set.Icc 0 1 ∩ halfLine (minX - start.x) (stop.x - start.x) ∩
        halfLine (start.x - maxX) (-(stop.x - start.x)) ∩
        halfLine (minY - start.y) (stop.y - start.y) ∩
        halfLine (start.y - maxY) (-(stop.y - start.y)) ↔
      (0 ≤ t ∧ t ≤ 1) ∧ isPointInRectangle (start.toward stop t) minX maxX minY maxY = true := by
  have hlow : ∀ a m d : K, m - a ≤ t * d ↔ m ≤ a + t * d := by
    intro a m d
    rw [sub_le_iff_le_add']
  have hhigh : ∀ a m d : K, a ≤ m + t * -d ↔ a + t * d ≤ m := by
    intro a m d
    rw [mul_neg, ← sub_eq_add_neg, le_sub_iff_add_le]
  unfold isPointInRectangle Vec.toward
  simp only [Set.mem_inter_iff, Set.mem_Icc, mem_halfLine, hlow, hhigh, decide_eq_true_eq, ge_iff_le]
  tauto

/-- **Clipping is exact**, also for a rectangle without points. -/
theorem doesLineIntersectRectangle_iff {start stop : Vec K} (h : start.ClearOf stop)
    (minX maxX minY maxY : K) :
    doesLineIntersectRectangle start stop minX maxX minY maxY = true ↔
      ∃ p ∈ start.segment stop, isPointInRectangle p minX maxX minY maxY = true := by
  have hsegment : (∃ p ∈ start.segment stop, isPointInRectangle p minX maxX minY maxY = true) ↔
      ∃ t, (0 ≤ t ∧ t ≤ 1) ∧
        isPointInRectangle (start.toward stop t) minX maxX minY maxY = true := by
    constructor
    · rintro ⟨_, ⟨t, h0, h1, rfl⟩, ht⟩
      exact ⟨t, ⟨h0, h1⟩, ht⟩
    · rintro ⟨t, ⟨h0, h1⟩, ht⟩
      exact ⟨_, ⟨t, h0, h1, rfl⟩, ht⟩
  rw [hsegment]
  unfold doesLineIntersectRectangle
  dsimp only
  split
  · next hpoint =>
      have hstart : ∀ t, isPointInRectangle (start.toward stop t) minX maxX minY maxY =
          isPointInRectangle start minX maxX minY maxY := by
        intro t
        unfold isPointInRectangle Vec.toward
        simp only [h.x.eq_zero hpoint.1, h.y.eq_zero hpoint.2, mul_zero, add_zero]
      simp only [hstart]
      exact ⟨fun hin => ⟨0, ⟨le_refl _, zero_le_one⟩, hin⟩, fun ⟨_, _, hin⟩ => hin⟩
  · have hclipped : Represents (do
        let (tMin, tMax) ← clipLine (stop.x - start.x) (minX - start.x) 0 1
        let (tMin, tMax) ← clipLine (-(stop.x - start.x)) (start.x - maxX) tMin tMax
        let (tMin, tMax) ← clipLine (stop.y - start.y) (minY - start.y) tMin tMax
        clipLine (-(stop.y - start.y)) (start.y - maxY) tMin tMax)
        {t | (0 ≤ t ∧ t ≤ 1) ∧
          isPointInRectangle (start.toward stop t) minX maxX minY maxY = true} := by
      rw [← Set.ext fun t => mem_clipped_iff]
      refine (clipLine_represents h.x (represents_Icc zero_le_one)).bind ?_ fun i hi => ?_
      · exact fun t ht => ht.1.1.1
      refine (clipLine_represents h.x.neg hi).bind ?_ fun i hi => ?_
      · exact fun t ht => ht.1.1
      refine (clipLine_represents h.y hi).bind ?_ fun i hi => ?_
      · exact fun t ht => ht.1
      exact clipLine_represents h.y.neg hi
    generalize (do
        let (tMin, tMax) ← clipLine (stop.x - start.x) (minX - start.x) 0 1
        let (tMin, tMax) ← clipLine (-(stop.x - start.x)) (start.x - maxX) tMin tMax
        let (tMin, tMax) ← clipLine (stop.y - start.y) (minY - start.y) tMin tMax
        clipLine (-(stop.y - start.y)) (start.y - maxY) tMin tMax) = clipped at hclipped ⊢
    refine Iff.trans ?_ hclipped.isSome_iff
    cases clipped with
    | none => simp
    | some i => simpa using hclipped.1

/-! ### The frame of an obstacle -/

/-- The closed rectangle before the rotation. -/
def RectangularObstacle.upright (o : RectangularObstacle K) : Set (Vec K) :=
  {q | q.x ≥ o.centerX - o.width / 2 ∧ q.x ≤ o.centerX + o.width / 2 ∧
    q.y ≥ o.centerY - o.height / 2 ∧ q.y ≤ o.centerY + o.height / 2}

namespace Trig

variable (T : Trig K) (o : RectangularObstacle K)

/-- The point in the frame of the obstacle.  An angle below the tolerance counts as no
rotation. -/
def toFrame (p : Vec K) : Vec K :=
  if |o.rotationAngle| < 1 / 1000000 then p
  else T.inverseRotatePoint p o.centerX o.centerY o.rotationAngle

omit [IsStrictOrderedRing K] in
theorem isPointInRotatedRectangle_eq (p : Vec K) :
    T.isPointInRotatedRectangle p o = isPointInRectangle (T.toFrame o p)
      (o.centerX - o.width / 2) (o.centerX + o.width / 2)
      (o.centerY - o.height / 2) (o.centerY + o.height / 2) := by
  unfold isPointInRotatedRectangle toFrame
  split
  · rfl
  · rfl

omit [IsStrictOrderedRing K] in
theorem doesLineIntersectRotatedRectangle_eq (a b : Vec K) :
    T.doesLineIntersectRotatedRectangle a b o =
      doesLineIntersectRectangle (T.toFrame o a) (T.toFrame o b)
        (o.centerX - o.width / 2) (o.centerX + o.width / 2)
        (o.centerY - o.height / 2) (o.centerY + o.height / 2) := by
  unfold doesLineIntersectRotatedRectangle toFrame
  split
  · rfl
  · rfl

omit [IsStrictOrderedRing K] in
theorem toFrame_toward (a b : Vec K) (t : K) :
    T.toFrame o (a.toward b t) = (T.toFrame o a).toward (T.toFrame o b) t := by
  unfold toFrame
  split
  · rfl
  · unfold inverseRotatePoint rotatePoint Vec.toward
    simp only [Vec.mk.injEq]
    refine ⟨?_, ?_, trivial⟩
    · ring
    · ring

omit [IsStrictOrderedRing K] in
theorem image_toFrame_segment (a b : Vec K) :
    T.toFrame o '' a.segment b = (T.toFrame o a).segment (T.toFrame o b) := by
  ext q
  constructor
  · rintro ⟨_, ⟨t, h0, h1, rfl⟩, rfl⟩
    exact ⟨t, h0, h1, T.toFrame_toward o a b t⟩
  · rintro ⟨t, h0, h1, rfl⟩
    exact ⟨a.toward b t, ⟨t, h0, h1, rfl⟩, T.toFrame_toward o a b t⟩

theorem doesLineIntersectRotatedRectangle_iff {a b : Vec K}
    (h : (T.toFrame o a).ClearOf (T.toFrame o b)) :
    T.doesLineIntersectRotatedRectangle a b o = true ↔
      ∃ p ∈ a.segment b, T.isPointInRotatedRectangle p o = true := by
  rw [doesLineIntersectRotatedRectangle_eq, doesLineIntersectRectangle_iff h,
    ← image_toFrame_segment]
  simp only [Set.exists_mem_image, isPointInRotatedRectangle_eq]

omit [LinearOrder K] [IsStrictOrderedRing K] in
/-- The two rotations are inverse to each other. -/
theorem rotatePoint_inverseRotatePoint (p : Vec K) (cx cy angle : K) :
    T.rotatePoint (T.inverseRotatePoint p cx cy angle) cx cy angle = p ∧
      T.inverseRotatePoint (T.rotatePoint p cx cy angle) cx cy angle = p := by
  have hone : T.cos angle * T.cos angle + T.sin angle * T.sin angle = 1 := by
    rw [← sq, ← sq]
    exact T.cos_sq_add_sin_sq angle
  unfold inverseRotatePoint rotatePoint
  rw [T.cos_neg, T.sin_neg]
  generalize T.cos angle = c at hone ⊢
  generalize T.sin angle = s at hone ⊢
  obtain ⟨x, y, z⟩ := p
  constructor
  · simp only [Vec.mk.injEq]
    refine ⟨?_, ?_, trivial⟩
    · linear_combination (x - cx) * hone
    · linear_combination (y - cy) * hone
  · simp only [Vec.mk.injEq]
    refine ⟨?_, ?_, trivial⟩
    · linear_combination (x - cx) * hone
    · linear_combination (y - cy) * hone

/-- The closed rectangle of an obstacle: the upright one around its centre, rotated. -/
def region : Set (Vec K) :=
  if |o.rotationAngle| < 1 / 1000000 then o.upright
  else (fun q => T.rotatePoint q o.centerX o.centerY o.rotationAngle) '' o.upright

omit [IsStrictOrderedRing K] in
theorem isPointInRotatedRectangle_iff {p : Vec K} :
    T.isPointInRotatedRectangle p o = true ↔ p ∈ T.region o := by
  rw [isPointInRotatedRectangle_eq, toFrame, region]
  have hupright : ∀ q : Vec K, isPointInRectangle q (o.centerX - o.width / 2)
      (o.centerX + o.width / 2) (o.centerY - o.height / 2) (o.centerY + o.height / 2) = true ↔
        q ∈ o.upright := fun q => decide_eq_true_iff
  rw [hupright]
  split
  · rfl
  · constructor
    · exact fun hp => ⟨_, hp, (T.rotatePoint_inverseRotatePoint p _ _ _).1⟩
    · rintro ⟨q, hq, rfl⟩
      simp only [(T.rotatePoint_inverseRotatePoint q _ _ _).2]
      exact hq

end Trig

/-- **Clipping is exact**, for upright and for rotated rectangles. -/
theorem segmentClipping_iff (T : Trig K) :
    (∀ (start stop : Vec K) (minX maxX minY maxY : K), start.ClearOf stop →
      (doesLineIntersectRectangle start stop minX maxX minY maxY = true ↔
        ∃ p ∈ start.segment stop, isPointInRectangle p minX maxX minY maxY = true)) ∧
    ∀ (start stop : Vec K) (o : RectangularObstacle K),
      (T.toFrame o start).ClearOf (T.toFrame o stop) →
        (T.doesLineIntersectRotatedRectangle start stop o = true ↔
          ∃ p ∈ start.segment stop, T.isPointInRotatedRectangle p o = true) :=
  ⟨fun _ _ _ _ _ _ h => doesLineIntersectRectangle_iff h _ _ _ _,
    fun _ _ o h => T.doesLineIntersectRotatedRectangle_iff o h⟩

/-! ### The prediction -/

/-- The position after the time `τ` at the velocity `v`. -/
def Vec.after (p v : Vec K) (τ : K) : Vec K where
  x := p.x + v.x * τ
  y := p.y + v.y * τ
  z := p.z

/-- The speed is at least 0.1. -/
def Vec.Moving (v : Vec K) : Prop := v.x * v.x + v.y * v.y ≥ (1 / 10) ^ 2

omit [LinearOrder K] [IsStrictOrderedRing K] in
@[simp] theorem Vec.after_zero (p v : Vec K) : p.after v 0 = p := by
  unfold after
  simp only [mul_zero, add_zero]

omit [LinearOrder K] [IsStrictOrderedRing K] in
theorem Vec.toward_after (p v : Vec K) (D t : K) : p.toward (p.after v D) t = p.after v (t * D) := by
  unfold toward after
  simp only [Vec.mk.injEq]
  refine ⟨?_, ?_, ?_⟩
  · ring
  · ring
  · ring

theorem Vec.mem_segment_after {p v q : Vec K} {D : K} (hD : 0 ≤ D) :
    q ∈ p.segment (p.after v D) ↔ ∃ τ, 0 ≤ τ ∧ τ ≤ D ∧ q = p.after v τ := by
  constructor
  · rintro ⟨t, h0, h1, rfl⟩
    exact ⟨t * D, mul_nonneg h0 hD, mul_le_of_le_one_left hD h1, Vec.toward_after p v D t⟩
  · rintro ⟨τ, h0, h1, rfl⟩
    rcases hD.eq_or_lt with rfl | hpos
    · obtain rfl : τ = 0 := le_antisymm h1 h0
      exact ⟨0, le_refl _, zero_le_one, by rw [Vec.toward_after, mul_zero]⟩
    · refine ⟨τ / D, div_nonneg h0 hD, (div_le_one hpos).mpr h1, ?_⟩
      rw [Vec.toward_after, div_mul_cancel₀ _ hpos.ne']

namespace Trig

variable (T : Trig K)

omit [IsStrictOrderedRing K] in
theorem isCloseToObs_eq (obstacles : List (RectangularObstacle K)) (now : K) {m : Kinematics K}
    {rnti : ℤ} {p v : Vec K} {last : K} (hp : m.position.get? rnti = some p)
    (hv : m.velocity.get? rnti = some v) (hlast : m.tLastUpdate.get? rnti = some last) :
    T.isCloseToObs obstacles now m rnti = true ↔ ∃ o ∈ obstacles,
      T.isPointInRotatedRectangle p o = true ∨
        T.isPointInRotatedRectangle (p.after v (1 + (now - last))) o = true ∨
          v.Moving ∧ T.doesLineIntersectRotatedRectangle p (p.after v (1 + (now - last))) o = true := by
  unfold isCloseToObs
  rw [hp, hv, hlast]
  dsimp only
  simp only [List.any_eq_true, Bool.or_eq_true, Bool.and_eq_true, decide_eq_true_eq, mul_zero,
    add_zero, or_assoc]
  rfl

/-- The three tests for the positions from `p` on: now, at the end, and on the way. -/
theorem meets_iff (obstacles : List (RectangularObstacle K)) {p v : Vec K} {D : K} (hD : 0 ≤ D)
    (hclear : ∀ o ∈ obstacles, (T.toFrame o p).ClearOf (T.toFrame o (p.after v D))) :
    (∃ o ∈ obstacles, T.isPointInRotatedRectangle p o = true ∨
        T.isPointInRotatedRectangle (p.after v D) o = true ∨
          v.Moving ∧ T.doesLineIntersectRotatedRectangle p (p.after v D) o = true) ↔
      ∃ τ, 0 ≤ τ ∧ τ ≤ D ∧ (v.Moving ∨ τ = 0 ∨ τ = D) ∧
        ∃ o ∈ obstacles, p.after v τ ∈ T.region o := by
  simp only [← isPointInRotatedRectangle_iff]
  constructor
  · rintro ⟨o, ho, hin | hin | ⟨hmoving, hline⟩⟩
    · refine ⟨0, le_refl _, hD, Or.inr (Or.inl rfl), o, ho, ?_⟩
      rwa [Vec.after_zero]
    · exact ⟨D, hD, le_refl _, Or.inr (Or.inr rfl), o, ho, hin⟩
    · obtain ⟨q, hq, hin⟩ := (T.doesLineIntersectRotatedRectangle_iff o (hclear o ho)).mp hline
      obtain ⟨τ, h0, h1, rfl⟩ := (Vec.mem_segment_after hD).mp hq
      exact ⟨τ, h0, h1, Or.inl hmoving, o, ho, hin⟩
  · rintro ⟨τ, h0, h1, hmoving | rfl | rfl, o, ho, hin⟩
    · have hline := (T.doesLineIntersectRotatedRectangle_iff o (hclear o ho)).mpr
        ⟨_, (Vec.mem_segment_after hD).mpr ⟨τ, h0, h1, rfl⟩, hin⟩
      exact ⟨o, ho, Or.inr (Or.inr ⟨hmoving, hline⟩)⟩
    · rw [Vec.after_zero] at hin
      exact ⟨o, ho, Or.inl hin⟩
    · exact ⟨o, ho, Or.inr (Or.inl hin)⟩

/-- **The prediction** is true exactly if the UE is in an obstacle at some time up to the
prediction: at any such time when it moves, now or at the end when it does not. -/
theorem isCloseToObs_iff (obstacles : List (RectangularObstacle K)) (now : K) {m : Kinematics K}
    {rnti : ℤ} {p v : Vec K} {last : K} (hp : m.position.get? rnti = some p)
    (hv : m.velocity.get? rnti = some v) (hlast : m.tLastUpdate.get? rnti = some last)
    (hD : 0 ≤ 1 + (now - last))
    (hclear : ∀ o ∈ obstacles,
      (T.toFrame o p).ClearOf (T.toFrame o (p.after v (1 + (now - last))))) :
    T.isCloseToObs obstacles now m rnti = true ↔
      ∃ τ, 0 ≤ τ ∧ τ ≤ 1 + (now - last) ∧ (v.Moving ∨ τ = 0 ∨ τ = 1 + (now - last)) ∧
        ∃ o ∈ obstacles, p.after v τ ∈ T.region o :=
  (T.isCloseToObs_eq obstacles now hp hv hlast).trans (T.meets_iff obstacles hD hclear)

end Trig

/-! ### The interface -/

def Vector3.toVec (p : Vector3) : Vec ℚ := ⟨p.x, p.y, p.z⟩

namespace Ns3DrlInterface

def kinematics (itf : Ns3DrlInterface) : Kinematics ℚ where
  position := ⟨itf.position.keys, fun k => (itf.position.get? k).map Vector3.toVec, by
    simp [itf.position.mem_keys]⟩
  velocity := ⟨itf.velocity.keys, fun k => (itf.velocity.get? k).map Vector3.toVec, by
    simp [itf.velocity.mem_keys]⟩
  tLastUpdate := itf.tLastUpdate

/-- `GetCloseToObs`. -/
def getCloseToObs (T : Trig ℚ) (obstacles : List (RectangularObstacle ℚ)) (itf : Ns3DrlInterface)
    (rnti : ℤ) (now : ℚ) : Bool :=
  T.isCloseToObs obstacles now itf.kinematics rnti

variable (T : Trig ℚ) (obstacles : List (RectangularObstacle ℚ)) (itf : Ns3DrlInterface)

/-- **The flag of a UE** the interface knows. -/
theorem getCloseToObs_iff {rnti : ℤ} {now : ℚ} {p v : Vector3} {last : ℚ}
    (hp : itf.position.get? rnti = some p) (hv : itf.velocity.get? rnti = some v)
    (hlast : itf.tLastUpdate.get? rnti = some last) (hD : 0 ≤ 1 + (now - last))
    (hclear : ∀ o ∈ obstacles, (T.toFrame o p.toVec).ClearOf
      (T.toFrame o (p.toVec.after v.toVec (1 + (now - last))))) :
    itf.getCloseToObs T obstacles rnti now = true ↔
      ∃ τ, 0 ≤ τ ∧ τ ≤ 1 + (now - last) ∧ (v.toVec.Moving ∨ τ = 0 ∨ τ = 1 + (now - last)) ∧
        ∃ o ∈ obstacles, p.toVec.after v.toVec τ ∈ T.region o := by
  have hp' : itf.kinematics.position.get? rnti = some p.toVec :=
    (congrArg (Option.map Vector3.toVec) hp).trans rfl
  have hv' : itf.kinematics.velocity.get? rnti = some v.toVec :=
    (congrArg (Option.map Vector3.toVec) hv).trans rfl
  exact (T.isCloseToObs_eq obstacles now hp' hv' hlast).trans (T.meets_iff obstacles hD hclear)

theorem getCloseToObs_reset (rnti : ℤ) (now : ℚ) :
    itf.reset.getCloseToObs T obstacles rnti now = false := by
  unfold getCloseToObs Trig.isCloseToObs
  have hvel : itf.reset.kinematics.velocity.get? rnti = none := rfl
  rw [hvel]
  cases itf.reset.kinematics.position.get? rnti with
  | none => rfl
  | some p => rfl

end Ns3DrlInterface

/-! ### A post in front of a UE -/

/-- The rational angles 0 and those of the triangle with sides 3, 4 and 5. -/
def Trig.pythagorean : Trig ℚ where
  cos := fun a => if a = 0 then 1 else 3 / 5
  sin := fun a => if a = 0 then 0 else if 0 < a then 4 / 5 else -(4 / 5)
  cos_sq_add_sin_sq := by
    intro a
    split
    · norm_num
    · split <;> norm_num
  cos_neg := by
    intro a
    simp only [neg_eq_zero]
  sin_neg := by
    intro a
    simp only [neg_eq_zero, Left.neg_pos_iff]
    rcases lt_trichotomy a 0 with h | rfl | h
    · rw [if_neg h.ne, if_pos h, if_neg h.ne, if_neg h.le.not_gt, neg_neg]
    · simp
    · rw [if_neg h.ne', if_neg h.le.not_gt, if_neg h.ne', if_pos h]

/-- A UE in the origin that moves along the first axis. -/
def Kinematics.alongX (speed : ℚ) : Kinematics ℚ where
  position := UMap.empty.set 0 ⟨0, 0, 0⟩
  velocity := UMap.empty.set 0 ⟨speed, 0, 0⟩
  tLastUpdate := UMap.empty.set 0 0

/-- A post one metre in front of the UE. -/
def RectangularObstacle.post : RectangularObstacle ℚ := ⟨1, 0, 1 / 10, 1 / 10, 0⟩

/-- The UE moves by 0.05 a second, was updated 39 seconds ago, and has passed the post. -/
theorem not_isCloseToObs_slow :
    ¬ (Trig.pythagorean.isCloseToObs [.post] 39 (.alongX (1 / 20)) 0 = true ↔
      ∃ τ, 0 ≤ τ ∧ τ ≤ 1 + ((39 : ℚ) - 0) ∧ ∃ o ∈ [RectangularObstacle.post],
        Vec.after ⟨0, 0, 0⟩ ⟨1 / 20, 0, 0⟩ τ ∈ Trig.pythagorean.region o) := by
  intro h
  have hin : Vec.after ⟨0, 0, 0⟩ ⟨1 / 20, 0, 0⟩ 20 ∈ Trig.pythagorean.region .post :=
    (Trig.isPointInRotatedRectangle_iff _ _).mp (by decide +kernel)
  have hpasses := h.mpr ⟨20, by norm_num, by norm_num, _, List.mem_singleton.mpr rfl, hin⟩
  exact absurd hpasses (by decide +kernel)

/-- A UE at a speed of one is seen to pass the post. -/
theorem isCloseToObs_passing :
    Trig.pythagorean.isCloseToObs [.post] 1 (.alongX 1) 0 = true :=
  (Trig.pythagorean.isCloseToObs_iff [.post] 1 (m := .alongX 1) rfl rfl rfl (by norm_num) (by
    intro o ho
    obtain rfl := List.mem_singleton.mp ho
    exact ⟨Or.inr (by decide +kernel), Or.inl (by decide +kernel)⟩)).mpr
    ⟨1, by norm_num, by norm_num, Or.inl (by unfold Vec.Moving; norm_num), _,
      List.mem_singleton.mpr rfl, (Trig.isPointInRotatedRectangle_iff _ _).mp (by decide +kernel)⟩

/-- The same segment meets the post, and the post turned. -/
theorem segmentClipping_post :
    doesLineIntersectRectangle (K := ℚ) ⟨0, 0, 0⟩ ⟨2, 0, 0⟩
        (19 / 20) (21 / 20) (-1 / 20) (1 / 20) = true ∧
      Trig.pythagorean.doesLineIntersectRotatedRectangle ⟨0, 0, 0⟩ ⟨2, 0, 0⟩
        { RectangularObstacle.post with rotationAngle := 1 } = true := by
  constructor
  · exact ((segmentClipping_iff Trig.pythagorean).1 _ _ _ _ _ _
      ⟨Or.inr (by norm_num), Or.inl (by norm_num)⟩).mpr
        ⟨_, ⟨1 / 2, by norm_num, by norm_num, rfl⟩, by decide +kernel⟩
  · exact ((segmentClipping_iff Trig.pythagorean).2 _ _ _
      ⟨Or.inr (by decide +kernel), Or.inr (by decide +kernel)⟩).mpr
        ⟨_, ⟨1 / 2, by norm_num, by norm_num, rfl⟩, by decide +kernel⟩

end Rbis
