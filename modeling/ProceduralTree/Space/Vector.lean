import ProceduralTree.Scalar.Basic

/-!
# Vectors of space

A `Vec3` serves both as a point and as a displacement.

## Main definitions

* `Vec3.dot`, `Vec3.cross`, `Vec3.norm` — the usual products and the length.
* `Vec3.normalize`, `Vec3.normalize?` — the direction of a vector; the second refuses a vector
  that is too short to have one.
* `Vec3.angle` — the angle between two vectors.
-/

namespace ProceduralTree

@[ext]
structure Vec3 (α : Type) where
  x : α
  y : α
  z : α
deriving Repr

namespace Vec3

variable {α : Type} [Scalar α]

instance : Zero (Vec3 α) := ⟨⟨0, 0, 0⟩⟩

@[inline] instance : Add (Vec3 α) := ⟨fun v w => ⟨v.x + w.x, v.y + w.y, v.z + w.z⟩⟩

@[inline] instance : Sub (Vec3 α) := ⟨fun v w => ⟨v.x - w.x, v.y - w.y, v.z - w.z⟩⟩

@[inline] instance : SMul α (Vec3 α) := ⟨fun a v => ⟨a * v.x, a * v.y, a * v.z⟩⟩

@[inline] instance : HDiv (Vec3 α) α (Vec3 α) := ⟨fun v a => ⟨v.x / a, v.y / a, v.z / a⟩⟩

def xAxis : Vec3 α := ⟨1, 0, 0⟩
def yAxis : Vec3 α := ⟨0, 1, 0⟩
def zAxis : Vec3 α := ⟨0, 0, 1⟩

@[inline] def dot (v w : Vec3 α) : α := v.x * w.x + v.y * w.y + v.z * w.z

@[inline] def cross (v w : Vec3 α) : Vec3 α :=
  ⟨v.y * w.z - v.z * w.y, v.z * w.x - v.x * w.z, v.x * w.y - v.y * w.x⟩

@[inline] def normSq (v : Vec3 α) : α := v.dot v

@[inline] def norm (v : Vec3 α) : α := Scalar.sqrt v.normSq

@[inline] def normalize (v : Vec3 α) : Vec3 α := v / v.norm

/-- The direction of `v`, unless `v` is no longer than `floor`. -/
def normalize? (floor : α) (v : Vec3 α) : Option (Vec3 α) :=
  if v.norm ≤ floor then none else some (v / v.norm)

/-- The angle between two vectors in radians; zero if one of them is too short for a direction. -/
def angle (v w : Vec3 α) : α :=
  if v.norm < Scalar.tolerance ∨ w.norm < Scalar.tolerance then 0
  else Scalar.arccos (Scalar.clamp (-1) 1 (v.dot w / (v.norm * w.norm)))

@[simp] theorem add_x (v w : Vec3 α) : (v + w).x = v.x + w.x := rfl
@[simp] theorem add_y (v w : Vec3 α) : (v + w).y = v.y + w.y := rfl
@[simp] theorem add_z (v w : Vec3 α) : (v + w).z = v.z + w.z := rfl
@[simp] theorem sub_x (v w : Vec3 α) : (v - w).x = v.x - w.x := rfl
@[simp] theorem sub_y (v w : Vec3 α) : (v - w).y = v.y - w.y := rfl
@[simp] theorem sub_z (v w : Vec3 α) : (v - w).z = v.z - w.z := rfl
@[simp] theorem smul_x (a : α) (v : Vec3 α) : (a • v).x = a * v.x := rfl
@[simp] theorem smul_y (a : α) (v : Vec3 α) : (a • v).y = a * v.y := rfl
@[simp] theorem smul_z (a : α) (v : Vec3 α) : (a • v).z = a * v.z := rfl
@[simp] theorem div_x (v : Vec3 α) (a : α) : (v / a).x = v.x / a := rfl
@[simp] theorem div_y (v : Vec3 α) (a : α) : (v / a).y = v.y / a := rfl
@[simp] theorem div_z (v : Vec3 α) (a : α) : (v / a).z = v.z / a := rfl
@[simp] theorem zero_x : (0 : Vec3 α).x = 0 := rfl
@[simp] theorem zero_y : (0 : Vec3 α).y = 0 := rfl
@[simp] theorem zero_z : (0 : Vec3 α).z = 0 := rfl

end Vec3

end ProceduralTree
