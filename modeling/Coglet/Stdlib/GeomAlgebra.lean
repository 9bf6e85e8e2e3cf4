import Coglet.Stdlib.Geom
import Mathlib.Algebra.Quaternion
import Mathlib.LinearAlgebra.Matrix.Determinant.Basic
import Mathlib.Tactic.FieldSimp
import Mathlib.Tactic.LinearCombination

namespace Coglet.Stdlib.Geom

namespace Vec3

variable {T : Type*} [Field T]

def toVector (v : Vec3 T) : Fin 3 → T := ![v.x, v.y, v.z]

-- A point has the homogeneous coordinate 1.
def toPoint (v : Vec3 T) : Fin 4 → T := ![v.x, v.y, v.z, 1]

def toQuaternion (v : Vec3 T) : Quaternion T := ⟨0, v.x, v.y, v.z⟩

@[simp] theorem toQuaternion_re (v : Vec3 T) : v.toQuaternion.re = 0 := rfl
@[simp] theorem toQuaternion_imI (v : Vec3 T) : v.toQuaternion.imI = v.x := rfl
@[simp] theorem toQuaternion_imJ (v : Vec3 T) : v.toQuaternion.imJ = v.y := rfl
@[simp] theorem toQuaternion_imK (v : Vec3 T) : v.toQuaternion.imK = v.z := rfl

omit [Field T] in
theorem toVector_injective {v w : Vec3 T} (h : v.toVector = w.toVector) : v = w :=
  Vec3.ext (congrFun h 0) (congrFun h 1) (congrFun h 2)

theorem toPoint_injective {v w : Vec3 T} (h : v.toPoint = w.toPoint) : v = w :=
  Vec3.ext (congrFun h 0) (congrFun h 1) (congrFun h 2)

theorem toQuaternion_injective {v w : Vec3 T} (h : v.toQuaternion = w.toQuaternion) : v = w := by
  injection h with _ hx hy hz
  exact Vec3.ext hx hy hz

theorem dot_eq_re (v w : Vec3 T) : v.dot w = -(v.toQuaternion * w.toQuaternion).re := by
  simp [dot]
  ring

end Vec3

namespace Quat

section

variable {T : Type*} [Field T] {p q : Quat T}

def toQuaternion (q : Quat T) : Quaternion T := ⟨q.w, q.x, q.y, q.z⟩

@[simp] theorem toQuaternion_re (q : Quat T) : q.toQuaternion.re = q.w := rfl
@[simp] theorem toQuaternion_imI (q : Quat T) : q.toQuaternion.imI = q.x := rfl
@[simp] theorem toQuaternion_imJ (q : Quat T) : q.toQuaternion.imJ = q.y := rfl
@[simp] theorem toQuaternion_imK (q : Quat T) : q.toQuaternion.imK = q.z := rfl

theorem toQuaternion_injective (h : p.toQuaternion = q.toQuaternion) : p = q := by
  injection h with hw hx hy hz
  exact Quat.ext hx hy hz hw

@[simp] theorem toQuaternion_identity : (identity : Quat T).toQuaternion = 1 := rfl

@[simp] theorem toQuaternion_conjugate (q : Quat T) :
    q.conjugate.toQuaternion = star q.toQuaternion := by
  ext <;> simp [conjugate]

@[simp] theorem toQuaternion_scale (q : Quat T) (a : T) :
    (q.scale a).toQuaternion = a • q.toQuaternion := by
  ext <;> simp [scale, mul_comm]

@[simp] theorem toQuaternion_multiply (p q : Quat T) :
    (p.multiply q).toQuaternion = p.toQuaternion * q.toQuaternion := by
  ext <;> simp [multiply]

theorem lengthSquared_eq_normSq (q : Quat T) : q.lengthSquared = q.toQuaternion.normSq := by
  simp [lengthSquared, dot, Quaternion.normSq_def']
  ring

theorem lengthSquared_multiply (p q : Quat T) :
    (p.multiply q).lengthSquared = p.lengthSquared * q.lengthSquared := by
  simp [lengthSquared_eq_normSq]

theorem multiply_inverse (h : q.lengthSquared ≠ 0) : q.multiply q.inverse = identity := by
  apply toQuaternion_injective
  rw [toQuaternion_multiply, inverse, toQuaternion_scale, toQuaternion_conjugate,
    mul_smul_comm, Quaternion.self_mul_star, ← lengthSquared_eq_normSq, toQuaternion_identity]
  rw [← Quaternion.coe_mul_eq_smul, ← Quaternion.coe_mul, one_div, inv_mul_cancel₀ h,
    Quaternion.coe_one]

theorem toQuaternion_rotateVector (v : Vec3 T) (h : q.lengthSquared = 1) :
    (q.rotateVector v).toQuaternion = q.toQuaternion * v.toQuaternion * star q.toQuaternion := by
  simp only [lengthSquared, dot] at h
  ext <;> simp [rotateVector, Vec3.add, Vec3.scale, Vec3.cross]
  · ring
  · linear_combination -v.x * h
  · linear_combination -v.y * h
  · linear_combination -v.z * h

theorem rotateVector_multiply (v : Vec3 T) (hp : p.lengthSquared = 1) (hq : q.lengthSquared = 1) :
    (p.multiply q).rotateVector v = p.rotateVector (q.rotateVector v) := by
  have hpq : (p.multiply q).lengthSquared = 1 := by
    rw [lengthSquared_multiply, hp, hq, one_mul]
  apply Vec3.toQuaternion_injective
  rw [toQuaternion_rotateVector v hpq, toQuaternion_rotateVector _ hp,
    toQuaternion_rotateVector v hq, toQuaternion_multiply, star_mul]
  simp only [mul_assoc]

theorem re_conjugation (a : Quaternion T) (h : q.lengthSquared = 1) :
    (q.toQuaternion * a * star q.toQuaternion).re = a.re := by
  simp only [lengthSquared, dot] at h
  simp
  linear_combination a.re * h

-- The real part of a product does not change under the rotation of both factors.
theorem dot_rotateVector (v w : Vec3 T) (h : q.lengthSquared = 1) :
    (q.rotateVector v).dot (q.rotateVector w) = v.dot w := by
  have hstar : star q.toQuaternion * q.toQuaternion = 1 := by
    rw [Quaternion.star_mul_self, ← lengthSquared_eq_normSq, h, Quaternion.coe_one]
  calc (q.rotateVector v).dot (q.rotateVector w)
      = -(q.toQuaternion * v.toQuaternion * star q.toQuaternion
          * (q.toQuaternion * w.toQuaternion * star q.toQuaternion)).re := by
        rw [Vec3.dot_eq_re, toQuaternion_rotateVector v h, toQuaternion_rotateVector w h]
    _ = -(q.toQuaternion * (v.toQuaternion * w.toQuaternion) * star q.toQuaternion).re := by
        simp only [mul_assoc]
        rw [← mul_assoc (star q.toQuaternion) q.toQuaternion, hstar, one_mul]
    _ = v.dot w := by
        rw [re_conjugation _ h, Vec3.dot_eq_re]

end

section

variable {T : Type*} [Floating T] {q : Quat T}

theorem normalized_eq (h : q.lengthSquared = 1) : q.normalized = q := by
  ext <;> simp [normalized, length, scale, h]

end

end Quat

namespace Mat3

section

variable {T : Type*} [Field T]

def toMatrix (A : Mat3 T) : Matrix (Fin 3) (Fin 3) T :=
  !![A.m00, A.m01, A.m02; A.m10, A.m11, A.m12; A.m20, A.m21, A.m22]

omit [Field T] in
theorem toMatrix_injective {A B : Mat3 T} (h : A.toMatrix = B.toMatrix) : A = B := by
  have entry (i j : Fin 3) : A.toMatrix i j = B.toMatrix i j := by rw [h]
  exact Mat3.ext (entry 0 0) (entry 0 1) (entry 0 2) (entry 1 0) (entry 1 1) (entry 1 2)
    (entry 2 0) (entry 2 1) (entry 2 2)

@[simp] theorem toMatrix_multiply (A B : Mat3 T) :
    (A.multiply B).toMatrix = A.toMatrix * B.toMatrix := by
  ext i j
  rw [Matrix.mul_apply, Fin.sum_univ_three]
  fin_cases i <;> fin_cases j <;> rfl

omit [Field T] in
@[simp] theorem toMatrix_transpose (A : Mat3 T) : A.transpose.toMatrix = A.toMatrix.transpose := by
  ext i j
  fin_cases i <;> fin_cases j <;> simp [toMatrix, transpose]

theorem determinant_eq_det (A : Mat3 T) : A.determinant = A.toMatrix.det := by
  simp [Matrix.det_fin_three, determinant, toMatrix]
  ring

@[simp] theorem toVector_transformVector (A : Mat3 T) (v : Vec3 T) :
    (A.transformVector v).toVector = A.toMatrix.mulVec v.toVector := by
  ext i
  fin_cases i <;>
    simp [transformVector, Vec3.toVector, toMatrix, Matrix.mulVec, dotProduct, Fin.sum_univ_three]

theorem transformVector_multiply (A B : Mat3 T) (v : Vec3 T) :
    (A.multiply B).transformVector v = A.transformVector (B.transformVector v) := by
  apply Vec3.toVector_injective
  simp [Matrix.mulVec_mulVec]

theorem determinant_multiply (A B : Mat3 T) :
    (A.multiply B).determinant = A.determinant * B.determinant := by
  simp [determinant_eq_det, Matrix.det_mul]

theorem transpose_multiply (A B : Mat3 T) :
    (A.multiply B).transpose = B.transpose.multiply A.transpose := by
  apply toMatrix_injective
  simp [Matrix.transpose_mul]

end

theorem transformVector_fromQuat {T : Type*} [Floating T] {q : Quat T} (v : Vec3 T)
    (h : q.lengthSquared = 1) : (fromQuat q).transformVector v = q.rotateVector v := by
  rw [fromQuat, Quat.normalized_eq h]
  ext <;> simp [transformVector, Quat.rotateVector, Vec3.add, Vec3.scale, Vec3.cross] <;> ring

end Mat3

namespace Mat4

section

variable {T : Type*} [Field T]

def toMatrix (A : Mat4 T) : Matrix (Fin 4) (Fin 4) T :=
  !![A.m00, A.m01, A.m02, A.m03; A.m10, A.m11, A.m12, A.m13;
     A.m20, A.m21, A.m22, A.m23; A.m30, A.m31, A.m32, A.m33]

-- The last row of an affine transformation.
def Affine (A : Mat4 T) : Prop :=
  A.m30 = 0 ∧ A.m31 = 0 ∧ A.m32 = 0 ∧ A.m33 = 1

omit [Field T] in
theorem toMatrix_injective {A B : Mat4 T} (h : A.toMatrix = B.toMatrix) : A = B := by
  have entry (i j : Fin 4) : A.toMatrix i j = B.toMatrix i j := by rw [h]
  exact Mat4.ext (entry 0 0) (entry 0 1) (entry 0 2) (entry 0 3)
    (entry 1 0) (entry 1 1) (entry 1 2) (entry 1 3) (entry 2 0) (entry 2 1) (entry 2 2) (entry 2 3)
    (entry 3 0) (entry 3 1) (entry 3 2) (entry 3 3)

@[simp] theorem toMatrix_multiply (A B : Mat4 T) :
    (A.multiply B).toMatrix = A.toMatrix * B.toMatrix := by
  ext i j
  rw [Matrix.mul_apply, Fin.sum_univ_four]
  fin_cases i <;> fin_cases j <;> rfl

omit [Field T] in
@[simp] theorem toMatrix_transpose (A : Mat4 T) : A.transpose.toMatrix = A.toMatrix.transpose := by
  ext i j
  fin_cases i <;> fin_cases j <;> simp [toMatrix, transpose]

theorem transpose_multiply (A B : Mat4 T) :
    (A.multiply B).transpose = B.transpose.multiply A.transpose := by
  apply toMatrix_injective
  simp [Matrix.transpose_mul]

-- Only the first three rows of the matrix take part.
theorem transformPoint_eq (A : Mat4 T) (v : Vec3 T) :
    A.transformPoint v =
      { x := A.toMatrix.mulVec v.toPoint 0
        y := A.toMatrix.mulVec v.toPoint 1
        z := A.toMatrix.mulVec v.toPoint 2 } := by
  ext <;>
    simp [transformPoint, Vec3.toPoint, toMatrix, Matrix.mulVec, dotProduct, Fin.sum_univ_four]

theorem Affine.toPoint_transformPoint {A : Mat4 T} (h : A.Affine) (v : Vec3 T) :
    (A.transformPoint v).toPoint = A.toMatrix.mulVec v.toPoint := by
  obtain ⟨h0, h1, h2, h3⟩ := h
  ext i
  fin_cases i <;>
    simp [transformPoint, Vec3.toPoint, toMatrix, Matrix.mulVec, dotProduct, Fin.sum_univ_four,
      h0, h1, h2, h3]

theorem transformPoint_multiply (A : Mat4 T) {B : Mat4 T} (v : Vec3 T) (h : B.Affine) :
    (A.multiply B).transformPoint v = A.transformPoint (B.transformPoint v) := by
  rw [transformPoint_eq, transformPoint_eq A, h.toPoint_transformPoint, Matrix.mulVec_mulVec,
    toMatrix_multiply]

theorem scaling_affine (s : Vec3 T) : (scaling s).Affine := ⟨rfl, rfl, rfl, rfl⟩

theorem transformPoint_scaling (s v : Vec3 T) : (scaling s).transformPoint v = s.mul v := by
  ext <;> simp [transformPoint, scaling, Vec3.mul]

theorem transformPoint_translation (t v : Vec3 T) :
    (translation t).transformPoint v = t.add v := by
  ext <;> simp [transformPoint, translation, Vec3.add, add_comm]

end

section

variable {T : Type*} [Floating T]

theorem fromQuat_affine (q : Quat T) : (fromQuat q).Affine := ⟨rfl, rfl, rfl, rfl⟩

theorem transformPoint_fromQuat (q : Quat T) (v : Vec3 T) :
    (fromQuat q).transformPoint v = (Mat3.fromQuat q).transformVector v := by
  ext <;> simp [transformPoint, fromQuat, Mat3.transformVector]

theorem transformPoint_fromTrs {q : Quat T} (t s v : Vec3 T) (h : q.lengthSquared = 1) :
    (fromTrs t q s).transformPoint v = t.add (q.rotateVector (s.mul v)) := by
  rw [fromTrs, transformPoint_multiply _ v (scaling_affine s), transformPoint_scaling,
    transformPoint_multiply _ _ (fromQuat_affine q), transformPoint_translation,
    transformPoint_fromQuat, Mat3.transformVector_fromQuat _ h]

end

end Mat4

structure TransformsCompose (T : Type*) [Floating T] : Prop where
  rotate_multiply (p q : Quat T) (v : Vec3 T) :
    p.lengthSquared = 1 → q.lengthSquared = 1 →
      (p.multiply q).rotateVector v = p.rotateVector (q.rotateVector v)
  fromQuat_rotates (q : Quat T) (v : Vec3 T) :
    q.lengthSquared = 1 → (Mat3.fromQuat q).transformVector v = q.rotateVector v
  fromQuat_dot (q : Quat T) (v w : Vec3 T) :
    q.lengthSquared = 1 →
      ((Mat3.fromQuat q).transformVector v).dot ((Mat3.fromQuat q).transformVector w) = v.dot w
  transformVector_multiply (A B : Mat3 T) (v : Vec3 T) :
    (A.multiply B).transformVector v = A.transformVector (B.transformVector v)
  transformPoint_multiply (A B : Mat4 T) (v : Vec3 T) :
    B.Affine → (A.multiply B).transformPoint v = A.transformPoint (B.transformPoint v)
  determinant_multiply (A B : Mat3 T) :
    (A.multiply B).determinant = A.determinant * B.determinant
  transpose_multiply (A B : Mat3 T) :
    (A.multiply B).transpose = B.transpose.multiply A.transpose
  transpose_multiply_mat4 (A B : Mat4 T) :
    (A.multiply B).transpose = B.transpose.multiply A.transpose
  multiply_inverse (q : Quat T) :
    q.lengthSquared ≠ 0 → q.multiply q.inverse = Quat.identity
  fromTrs_places (t s v : Vec3 T) (q : Quat T) :
    q.lengthSquared = 1 → (Mat4.fromTrs t q s).transformPoint v = t.add (q.rotateVector (s.mul v))

theorem transforms_compose (T : Type*) [Floating T] : TransformsCompose T where
  rotate_multiply _ _ v hp hq := Quat.rotateVector_multiply v hp hq
  fromQuat_rotates _ v h := Mat3.transformVector_fromQuat v h
  fromQuat_dot _ v w h := by
    rw [Mat3.transformVector_fromQuat v h, Mat3.transformVector_fromQuat w h,
      Quat.dot_rotateVector v w h]
  transformVector_multiply := Mat3.transformVector_multiply
  transformPoint_multiply A _ v h := Mat4.transformPoint_multiply A v h
  determinant_multiply := Mat3.determinant_multiply
  transpose_multiply := Mat3.transpose_multiply
  transpose_multiply_mat4 := Mat4.transpose_multiply
  multiply_inverse _ h := Quat.multiply_inverse h
  fromTrs_places t s v _ h := Mat4.transformPoint_fromTrs t s v h

def tiltedTurn : Quat ℚ := { x := 3 / 5, y := 0, z := 0, w := 4 / 5 }

def quarterTurns : Quat ℚ := { x := 1 / 2, y := 1 / 2, z := 1 / 2, w := 1 / 2 }

def corner : Vec3 ℚ := { x := 1, y := 2, z := 3 }

theorem transforms_compose_rational :
    (tiltedTurn.multiply quarterTurns).rotateVector corner =
      tiltedTurn.rotateVector (quarterTurns.rotateVector corner) ∧
    (Mat4.fromTrs corner quarterTurns corner).transformPoint corner =
      corner.add (quarterTurns.rotateVector { x := 1, y := 4, z := 9 }) := by
  have tilted : tiltedTurn.lengthSquared = 1 := by decide +kernel
  have turns : quarterTurns.lengthSquared = 1 := by decide +kernel
  have scaled : corner.mul corner = { x := 1, y := 4, z := 9 } := by decide +kernel
  refine ⟨(transforms_compose ℚ).rotate_multiply _ _ _ tilted turns, ?_⟩
  rw [(transforms_compose ℚ).fromTrs_places _ _ _ _ turns, scaled]

end Coglet.Stdlib.Geom
