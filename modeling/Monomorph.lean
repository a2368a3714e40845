import Monomorph.NativeCode
import Monomorph.Proofs.Callees
import Monomorph.Proofs.Closure
import Monomorph.Proofs.ContextData
import Monomorph.Proofs.EarlyChecks
import Monomorph.Proofs.EntryPoints
import Monomorph.Proofs.Failure
import Monomorph.Proofs.Growth
import Monomorph.Proofs.Holds
import Monomorph.Proofs.Interleaving
import Monomorph.Proofs.KeyCopies
import Monomorph.Proofs.KeyMap
import Monomorph.Proofs.Leaves
import Monomorph.Proofs.Mixing
import Monomorph.Proofs.Publication
import Monomorph.Proofs.Realizing
import Monomorph.Proofs.Registry
import Monomorph.Proofs.Reset
import Monomorph.Proofs.Transparency
import Monomorph.Proofs.Validation
import Monomorph.Proofs.VirtualCalls
import Monomorph.Records
