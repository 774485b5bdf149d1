import ProceduralTree.Curve.Circle
import ProceduralTree.Growth.Generator
import ProceduralTree.Proofs.Curve.Advance
import ProceduralTree.Proofs.Curve.Handedness
import ProceduralTree.Proofs.Curve.Hull
import ProceduralTree.Proofs.Curve.Tangents
import ProceduralTree.Proofs.Grammar.Conservation
import ProceduralTree.Proofs.Growth.Assembly
import ProceduralTree.Proofs.Growth.Decoration
import ProceduralTree.Proofs.Growth.Placement
import ProceduralTree.Proofs.Growth.Radii
import ProceduralTree.Proofs.Growth.Samples
import ProceduralTree.Proofs.Growth.Sentences
import ProceduralTree.Proofs.Mesh.Associativity
import ProceduralTree.Proofs.Mesh.Deposits
import ProceduralTree.Proofs.Mesh.TubeOrientation
import ProceduralTree.Proofs.Model.History
import ProceduralTree.Proofs.Random.Uniform
import ProceduralTree.Proofs.Skeleton.Addresses
import ProceduralTree.Proofs.Skeleton.Connectedness
import ProceduralTree.Proofs.Skeleton.Openings
import ProceduralTree.Proofs.Skeleton.Rejection
import ProceduralTree.Proofs.Skeleton.Siblings
import ProceduralTree.Proofs.Skeleton.Spacing
import ProceduralTree.Proofs.Skeleton.Tapering
