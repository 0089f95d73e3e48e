import SignatureAlgebra.Analysis.Naming
import SignatureAlgebra.Analysis.Receiver
import SignatureAlgebra.Proofs.Analysis.AbsoluteNames
import SignatureAlgebra.Proofs.Analysis.ClassTypes
import SignatureAlgebra.Proofs.Analysis.History
import SignatureAlgebra.Proofs.Analysis.Hygiene
import SignatureAlgebra.Proofs.Analysis.HygienicInstantiation
import SignatureAlgebra.Proofs.Analysis.Instances
import SignatureAlgebra.Proofs.Analysis.Normality
import SignatureAlgebra.Proofs.Analysis.Optional
import SignatureAlgebra.Proofs.Analysis.Predicates
import SignatureAlgebra.Proofs.Analysis.Privacy
import SignatureAlgebra.Proofs.Analysis.Recursion
import SignatureAlgebra.Proofs.Analysis.RespelledInterfaces
import SignatureAlgebra.Proofs.Analysis.Scope
import SignatureAlgebra.Proofs.Analysis.Structures
import SignatureAlgebra.Proofs.Analysis.Unfolding
import SignatureAlgebra.Proofs.Analysis.Walks
import SignatureAlgebra.Proofs.Analysis.WellFormedness
import SignatureAlgebra.Proofs.Conversion.Finding
import SignatureAlgebra.Proofs.Conversion.Growth
import SignatureAlgebra.Proofs.Conversion.Refusals
import SignatureAlgebra.Proofs.Conversion.Remembered
import SignatureAlgebra.Proofs.Conversion.RenamedNames
import SignatureAlgebra.Proofs.Conversion.RoundTrip
import SignatureAlgebra.Proofs.Declared.Names
import SignatureAlgebra.Proofs.Declared.Places
import SignatureAlgebra.Proofs.Declared.Traversal
import SignatureAlgebra.Proofs.Environment.Innermost
import SignatureAlgebra.Proofs.Interface.Union
import SignatureAlgebra.Proofs.MethodType.Joins
import SignatureAlgebra.Proofs.MethodType.RoundTrip
import SignatureAlgebra.Proofs.Name.Bijection
import SignatureAlgebra.Proofs.Params.Combining
import SignatureAlgebra.Proofs.Substitution.Composition
import SignatureAlgebra.Proofs.Ty.Connecting
import SignatureAlgebra.Proofs.TypeName.Text
