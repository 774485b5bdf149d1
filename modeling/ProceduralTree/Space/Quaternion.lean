import ProceduralTree.Space.Vector

/-!
# Rotations as quaternions

A quaternion `w + i·𝐢 + j·𝐣 + k·𝐤` of norm one turns space about its vector part. Products of
such quaternions drift away from norm one under rounding; `Quaternion.renormalize` is one step of
the iteration that pulls them back without a square root.
-/

namespace ProceduralTree

@[ext]
structure Quaternion (α : Type) where
  i : α
  j : α
  k : α
  w : α
deriving Repr

namespace Quaternion

variable {α : Type} [Scalar α]

instance : One (Quaternion α) := ⟨⟨0, 0, 0, 1⟩⟩

@[inline] instance : Mul (Quaternion α) := ⟨fun p q =>
  ⟨p.w * q.i + p.i * q.w + p.j * q.k - p.k * q.j,
   p.w * q.j - p.i * q.k + p.j * q.w + p.k * q.i,
   p.w * q.k + p.i * q.j - p.j * q.i + p.k * q.w,
   p.w * q.w - p.i * q.i - p.j * q.j - p.k * q.k⟩⟩

@[inline] instance : SMul α (Quaternion α) := ⟨fun a q => ⟨a * q.i, a * q.j, a * q.k, a * q.w⟩⟩

/-- The vector part. -/
def vector (q : Quaternion α) : Vec3 α := ⟨q.i, q.j, q.k⟩

def normSq (q : Quaternion α) : α := (q.i * q.i + q.k * q.k) + (q.j * q.j + q.w * q.w)

/-- The turn by `angle` about the unit vector `axis`. -/
def ofAxisAngle (axis : Vec3 α) (angle : α) : Quaternion α :=
  let v := Scalar.sin (angle / (2 : Nat)) • axis
  ⟨v.x, v.y, v.z, Scalar.cos (angle / (2 : Nat))⟩

/-- Scales `q` by `(3 - |q|²) / 2`, which brings a norm close to one closer. -/
def renormalize (q : Quaternion α) : Quaternion α := (Scalar.ratio 1 2 * ((3 : Nat) - q.normSq)) • q

/-- The image of `v` under the rotation that `q` stands for. -/
def rotate (q : Quaternion α) (v : Vec3 α) : Vec3 α :=
  let t := ((2 : Nat) : α) • q.vector.cross v
  q.w • t + q.vector.cross t + v

@[simp] theorem one_i : (1 : Quaternion α).i = 0 := rfl
@[simp] theorem one_j : (1 : Quaternion α).j = 0 := rfl
@[simp] theorem one_k : (1 : Quaternion α).k = 0 := rfl
@[simp] theorem one_w : (1 : Quaternion α).w = 1 := rfl
@[simp] theorem mul_i (p q : Quaternion α) :
    (p * q).i = p.w * q.i + p.i * q.w + p.j * q.k - p.k * q.j := rfl
@[simp] theorem mul_j (p q : Quaternion α) :
    (p * q).j = p.w * q.j - p.i * q.k + p.j * q.w + p.k * q.i := rfl
@[simp] theorem mul_k (p q : Quaternion α) :
    (p * q).k = p.w * q.k + p.i * q.j - p.j * q.i + p.k * q.w := rfl
@[simp] theorem mul_w (p q : Quaternion α) :
    (p * q).w = p.w * q.w - p.i * q.i - p.j * q.j - p.k * q.k := rfl
@[simp] theorem smul_i (a : α) (q : Quaternion α) : (a • q).i = a * q.i := rfl
@[simp] theorem smul_j (a : α) (q : Quaternion α) : (a • q).j = a * q.j := rfl
@[simp] theorem smul_k (a : α) (q : Quaternion α) : (a • q).k = a * q.k := rfl
@[simp] theorem smul_w (a : α) (q : Quaternion α) : (a • q).w = a * q.w := rfl

end Quaternion

end ProceduralTree
