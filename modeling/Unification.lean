import Unification.Session
import Unification.Proofs.Completeness
import Unification.Proofs.ConstraintFilter
import Unification.Proofs.GroundMatching
import Unification.Proofs.Matching
import Unification.Proofs.Reverification
import Unification.Proofs.Symmetry
import Unification.Proofs.Extension
import Unification.Proofs.EventLog
import Unification.Proofs.RepeatedVariable
import Unification.Proofs.Derivations
import Unification.Proofs.Composition
import Unification.Proofs.Relaxation
import Unification.Proofs.Constants
import Unification.Proofs.Conversion
import Unification.Proofs.Names
import Unification.Proofs.Extraction
import Unification.Proofs.Reflexivity
import Unification.Proofs.Reachable
import Unification.Proofs.Renaming
import Unification.Proofs.Views
import Unification.Proofs.Instantiation
import Unification.Proofs.OpenRecords
import Unification.Proofs.Independence
import Unification.Proofs.Commutation
import Unification.Proofs.Weakening
import Unification.Proofs.Chains
import Unification.Proofs.Contexts
import Unification.Proofs.RoundTrip
import Unification.Proofs.Identity
import Unification.Proofs.Drafts
