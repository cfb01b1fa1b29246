import Directional.Tree.Batch
import Directional.Tree.Capabilities
import Directional.Tree.Gradient
import Directional.Tree.Root
import Directional.Model.NeoHooke
import Directional.DomainError.Message
import Directional.Proofs.Tree.Alike
import Directional.Proofs.Tree.Absorption
import Directional.Proofs.Tree.Batch
import Directional.Proofs.Tree.Rejection
import Directional.Proofs.Tree.Consistency
import Directional.Proofs.Tree.Degree
import Directional.Proofs.Formula.Rebuild
import Directional.Proofs.Tree.Symmetry
import Directional.Proofs.Tree.Gradient
import Directional.Proofs.Tree.ArgumentForm
import Directional.Proofs.Tree.Composition
import Directional.Proofs.Taylor.Expansion
import Directional.Proofs.Tree.Isolation
import Directional.Proofs.Tree.Domain
import Directional.Proofs.Formula.Recovery
import Directional.Proofs.Tree.Absent
import Directional.Proofs.Taylor.Product
import Directional.Proofs.Tree.Multiplication
import Directional.Proofs.Tree.Duality
import Directional.Proofs.Tree.Correspondence
import Directional.Proofs.Tree.Truncation
import Directional.Proofs.Exact.Power
import Directional.Proofs.Taylor.Determinant
import Directional.Proofs.Taylor.Power
import Directional.Proofs.Rounded.Basic
import Directional.Proofs.Rounded.Unpacked
import Directional.Proofs.Rounded.Binary64
import Directional.Proofs.Rounded.Power
import Directional.Proofs.Taylor.Quadratic
import Directional.Proofs.Tree.SquaredNorm
import Directional.Proofs.Tree.PrincipalInvariants
import Directional.Proofs.Taylor.Root
import Directional.Proofs.Taylor.Elementary
import Directional.Proofs.Model.Incompressible
import Directional.Proofs.Model.Compressible
import Directional.Proofs.Model.Admissible
