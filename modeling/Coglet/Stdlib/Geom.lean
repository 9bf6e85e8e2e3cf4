import Mathlib.Algebra.Field.Basic
import Mathlib.Algebra.Field.Rat
import Mathlib.Data.Rat.Sqrt

namespace Coglet.Stdlib.Geom

-- The arithmetic of the element type is that of a field, and `math.sqrt` is some function on it.
class Floating (T : Type*) extends Field T where
  sqrt : T → T
  sqrt_one : sqrt 1 = 1

attribute [simp] Floating.sqrt_one

instance : Floating ℚ where
  sqrt := Rat.sqrt
  sqrt_one := by simp

@[ext]
structure Vec3 (T : Type*) where
  x : T
  y : T
  z : T
deriving DecidableEq

namespace Vec3

variable {T : Type*} [Field T]

def add (self other : Vec3 T) : Vec3 T where
  x := self.x + other.x
  y := self.y + other.y
  z := self.z + other.z

def mul (self other : Vec3 T) : Vec3 T where
  x := self.x * other.x
  y := self.y * other.y
  z := self.z * other.z

def scale (self : Vec3 T) (scalar : T) : Vec3 T where
  x := self.x * scalar
  y := self.y * scalar
  z := self.z * scalar

def dot (self other : Vec3 T) : T :=
  self.x * other.x + self.y * other.y + self.z * other.z

def cross (self other : Vec3 T) : Vec3 T where
  x := self.y * other.z - self.z * other.y
  y := self.z * other.x - self.x * other.z
  z := self.x * other.y - self.y * other.x

end Vec3

@[ext]
structure Quat (T : Type*) where
  x : T
  y : T
  z : T
  w : T
deriving DecidableEq

namespace Quat

section

variable {T : Type*} [Field T]

def identity : Quat T := { x := 0, y := 0, z := 0, w := 1 }

def scale (self : Quat T) (scalar : T) : Quat T where
  x := self.x * scalar
  y := self.y * scalar
  z := self.z * scalar
  w := self.w * scalar

def dot (self other : Quat T) : T :=
  self.x * other.x + self.y * other.y + self.z * other.z + self.w * other.w

def lengthSquared (self : Quat T) : T :=
  self.dot self

def conjugate (self : Quat T) : Quat T :=
  { x := -self.x, y := -self.y, z := -self.z, w := self.w }

def inverse (self : Quat T) : Quat T :=
  self.conjugate.scale (1 / self.lengthSquared)

def multiply (self other : Quat T) : Quat T where
  x := self.w * other.x + self.x * other.w + self.y * other.z - self.z * other.y
  y := self.w * other.y - self.x * other.z + self.y * other.w + self.z * other.x
  z := self.w * other.z + self.x * other.y - self.y * other.x + self.z * other.w
  w := self.w * other.w - self.x * other.x - self.y * other.y - self.z * other.z

def rotateVector (self : Quat T) (value : Vec3 T) : Vec3 T :=
  let qv : Vec3 T := { x := self.x, y := self.y, z := self.z }
  let twiceCross := (qv.cross value).scale 2
  (value.add (twiceCross.scale self.w)).add (qv.cross twiceCross)

end

variable {T : Type*} [Floating T]

def length (self : Quat T) : T :=
  Floating.sqrt self.lengthSquared

def normalized (self : Quat T) : Quat T :=
  self.scale (1 / self.length)

end Quat

@[ext]
structure Mat3 (T : Type*) where
  (m00 m01 m02 : T)
  (m10 m11 m12 : T)
  (m20 m21 m22 : T)
deriving DecidableEq

namespace Mat3

section

variable {T : Type*} [Field T]

def transpose (self : Mat3 T) : Mat3 T where
  m00 := self.m00; m01 := self.m10; m02 := self.m20
  m10 := self.m01; m11 := self.m11; m12 := self.m21
  m20 := self.m02; m21 := self.m12; m22 := self.m22

def determinant (self : Mat3 T) : T :=
  self.m00 * (self.m11 * self.m22 - self.m12 * self.m21)
    - self.m01 * (self.m10 * self.m22 - self.m12 * self.m20)
    + self.m02 * (self.m10 * self.m21 - self.m11 * self.m20)

def multiply (self other : Mat3 T) : Mat3 T where
  m00 := self.m00 * other.m00 + self.m01 * other.m10 + self.m02 * other.m20
  m01 := self.m00 * other.m01 + self.m01 * other.m11 + self.m02 * other.m21
  m02 := self.m00 * other.m02 + self.m01 * other.m12 + self.m02 * other.m22
  m10 := self.m10 * other.m00 + self.m11 * other.m10 + self.m12 * other.m20
  m11 := self.m10 * other.m01 + self.m11 * other.m11 + self.m12 * other.m21
  m12 := self.m10 * other.m02 + self.m11 * other.m12 + self.m12 * other.m22
  m20 := self.m20 * other.m00 + self.m21 * other.m10 + self.m22 * other.m20
  m21 := self.m20 * other.m01 + self.m21 * other.m11 + self.m22 * other.m21
  m22 := self.m20 * other.m02 + self.m21 * other.m12 + self.m22 * other.m22

def transformVector (self : Mat3 T) (value : Vec3 T) : Vec3 T where
  x := self.m00 * value.x + self.m01 * value.y + self.m02 * value.z
  y := self.m10 * value.x + self.m11 * value.y + self.m12 * value.z
  z := self.m20 * value.x + self.m21 * value.y + self.m22 * value.z

end

def fromQuat {T : Type*} [Floating T] (rotation : Quat T) : Mat3 T :=
  let q := rotation.normalized
  let xx := q.x * q.x
  let yy := q.y * q.y
  let zz := q.z * q.z
  let xy := q.x * q.y
  let xz := q.x * q.z
  let yz := q.y * q.z
  let wx := q.w * q.x
  let wy := q.w * q.y
  let wz := q.w * q.z
  { m00 := 1 - 2 * (yy + zz)
    m01 := 2 * (xy - wz)
    m02 := 2 * (xz + wy)
    m10 := 2 * (xy + wz)
    m11 := 1 - 2 * (xx + zz)
    m12 := 2 * (yz - wx)
    m20 := 2 * (xz - wy)
    m21 := 2 * (yz + wx)
    m22 := 1 - 2 * (xx + yy) }

end Mat3

@[ext]
structure Mat4 (T : Type*) where
  (m00 m01 m02 m03 : T)
  (m10 m11 m12 m13 : T)
  (m20 m21 m22 m23 : T)
  (m30 m31 m32 m33 : T)
deriving DecidableEq

namespace Mat4

section

variable {T : Type*} [Field T]

def translation (offset : Vec3 T) : Mat4 T where
  m00 := 1; m01 := 0; m02 := 0; m03 := offset.x
  m10 := 0; m11 := 1; m12 := 0; m13 := offset.y
  m20 := 0; m21 := 0; m22 := 1; m23 := offset.z
  m30 := 0; m31 := 0; m32 := 0; m33 := 1

def scaling (amount : Vec3 T) : Mat4 T where
  m00 := amount.x; m01 := 0; m02 := 0; m03 := 0
  m10 := 0; m11 := amount.y; m12 := 0; m13 := 0
  m20 := 0; m21 := 0; m22 := amount.z; m23 := 0
  m30 := 0; m31 := 0; m32 := 0; m33 := 1

def transpose (self : Mat4 T) : Mat4 T where
  m00 := self.m00; m01 := self.m10; m02 := self.m20; m03 := self.m30
  m10 := self.m01; m11 := self.m11; m12 := self.m21; m13 := self.m31
  m20 := self.m02; m21 := self.m12; m22 := self.m22; m23 := self.m32
  m30 := self.m03; m31 := self.m13; m32 := self.m23; m33 := self.m33

def multiply (self other : Mat4 T) : Mat4 T where
  m00 := self.m00 * other.m00 + self.m01 * other.m10 + self.m02 * other.m20 + self.m03 * other.m30
  m01 := self.m00 * other.m01 + self.m01 * other.m11 + self.m02 * other.m21 + self.m03 * other.m31
  m02 := self.m00 * other.m02 + self.m01 * other.m12 + self.m02 * other.m22 + self.m03 * other.m32
  m03 := self.m00 * other.m03 + self.m01 * other.m13 + self.m02 * other.m23 + self.m03 * other.m33
  m10 := self.m10 * other.m00 + self.m11 * other.m10 + self.m12 * other.m20 + self.m13 * other.m30
  m11 := self.m10 * other.m01 + self.m11 * other.m11 + self.m12 * other.m21 + self.m13 * other.m31
  m12 := self.m10 * other.m02 + self.m11 * other.m12 + self.m12 * other.m22 + self.m13 * other.m32
  m13 := self.m10 * other.m03 + self.m11 * other.m13 + self.m12 * other.m23 + self.m13 * other.m33
  m20 := self.m20 * other.m00 + self.m21 * other.m10 + self.m22 * other.m20 + self.m23 * other.m30
  m21 := self.m20 * other.m01 + self.m21 * other.m11 + self.m22 * other.m21 + self.m23 * other.m31
  m22 := self.m20 * other.m02 + self.m21 * other.m12 + self.m22 * other.m22 + self.m23 * other.m32
  m23 := self.m20 * other.m03 + self.m21 * other.m13 + self.m22 * other.m23 + self.m23 * other.m33
  m30 := self.m30 * other.m00 + self.m31 * other.m10 + self.m32 * other.m20 + self.m33 * other.m30
  m31 := self.m30 * other.m01 + self.m31 * other.m11 + self.m32 * other.m21 + self.m33 * other.m31
  m32 := self.m30 * other.m02 + self.m31 * other.m12 + self.m32 * other.m22 + self.m33 * other.m32
  m33 := self.m30 * other.m03 + self.m31 * other.m13 + self.m32 * other.m23 + self.m33 * other.m33

def transformPoint (self : Mat4 T) (value : Vec3 T) : Vec3 T :=
  let x := self.m00 * value.x + self.m01 * value.y + self.m02 * value.z + self.m03
  let y := self.m10 * value.x + self.m11 * value.y + self.m12 * value.z + self.m13
  let z := self.m20 * value.x + self.m21 * value.y + self.m22 * value.z + self.m23
  { x, y, z }

end

variable {T : Type*} [Floating T]

def fromQuat (rotation : Quat T) : Mat4 T :=
  let r := Mat3.fromQuat rotation
  { m00 := r.m00, m01 := r.m01, m02 := r.m02, m03 := 0
    m10 := r.m10, m11 := r.m11, m12 := r.m12, m13 := 0
    m20 := r.m20, m21 := r.m21, m22 := r.m22, m23 := 0
    m30 := 0,     m31 := 0,     m32 := 0,     m33 := 1 }

def fromTrs (position : Vec3 T) (rotation : Quat T) (scaleAmount : Vec3 T) : Mat4 T :=
  ((translation position).multiply (fromQuat rotation)).multiply (scaling scaleAmount)

end Mat4

end Coglet.Stdlib.Geom
