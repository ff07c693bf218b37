import ScopedScript.CommandLine
import ScopedScript.Main
import ScopedScript.Proofs.Storage
import ScopedScript.Proofs.TypeSoundness
import ScopedScript.Proofs.Finality
import ScopedScript.Proofs.Annotation
import ScopedScript.Proofs.FrameEffect
import ScopedScript.Proofs.StaticScoping
import ScopedScript.Proofs.OrderIndependence
import ScopedScript.Proofs.Sight
import ScopedScript.Proofs.Structured
import ScopedScript.Proofs.Refinement
import ScopedScript.Proofs.Returning
import ScopedScript.Proofs.Termination
import ScopedScript.Proofs.Dispatch
import ScopedScript.Proofs.Bisimilarity
import ScopedScript.Proofs.ReadBack
import ScopedScript.Proofs.Derivation
import ScopedScript.Proofs.Spelling
import ScopedScript.Proofs.Domain
import ScopedScript.Proofs.Cutoff
import ScopedScript.Proofs.CallLimit
import ScopedScript.Proofs.Shadowing
import ScopedScript.Proofs.RenumberedRun
import ScopedScript.Proofs.LineLocality
import ScopedScript.Proofs.Loosening
import ScopedScript.Proofs.Descent
import ScopedScript.Proofs.LineFile
import ScopedScript.Proofs.Mistakes
import ScopedScript.Proofs.Arithmetic
import ScopedScript.Proofs.Elements
import ScopedScript.Proofs.Outcome
import ScopedScript.Proofs.Agreement
import ScopedScript.Proofs.Allocation
import ScopedScript.Proofs.Sorting
import ScopedScript.Proofs.Numerals
import ScopedScript.Proofs.Rendering
import ScopedScript.Proofs.MapContent
import ScopedScript.Proofs.Enclosure
import ScopedScript.Proofs.Outline
import ScopedScript.Proofs.FileModes
import ScopedScript.Proofs.Coverage
