/-!
# Colors
-/

namespace ProceduralTree

/-- A color by its linear channels. -/
structure Rgb where
  r : Float32
  g : Float32
  b : Float32
deriving BEq, Repr

namespace Rgb

/-- A color by channels of eight bits, of which 255 stands for full intensity. -/
def ofBytes (r g b : UInt8) : Rgb :=
  ⟨r.toFloat32 / 255.0, g.toFloat32 / 255.0, b.toFloat32 / 255.0⟩

def white : Rgb := ⟨1.0, 1.0, 1.0⟩

/-- The dark brown of branches. -/
def bark : Rgb := ofBytes 54 43 20

/-- The dark green of leaves. -/
def foliage : Rgb := ofBytes 43 79 14

end Rgb

end ProceduralTree
