import HealthTree.Config.Encode
import HealthTree.Health.Reader
import HealthTree.Json.Reader
import HealthTree.Main
import HealthTree.Proofs.Agreement
import HealthTree.Proofs.Ancestry
import HealthTree.Proofs.AnyOrder
import HealthTree.Proofs.AtOnce
import HealthTree.Proofs.CacheHistory
import HealthTree.Proofs.Contract
import HealthTree.Proofs.Derivation
import HealthTree.Proofs.Dropped
import HealthTree.Proofs.FirstSuccess
import HealthTree.Proofs.Interruption
import HealthTree.Proofs.Namesakes
import HealthTree.Proofs.Occurrences
import HealthTree.Proofs.OnePass
import HealthTree.Proofs.Problems
import HealthTree.Proofs.Punctual
import HealthTree.Proofs.Readings
import HealthTree.Proofs.ReportLines
import HealthTree.Proofs.ReportOnce
import HealthTree.Proofs.SteadyState
import HealthTree.Proofs.Stopped
import HealthTree.Proofs.Telling
import HealthTree.Proofs.Truthful
import HealthTree.Proofs.Unresolved
import HealthTree.Proofs.Worsening
import HealthTree.Proofs.HalfInterval
import HealthTree.Proofs.Panics
import HealthTree.Proofs.Durations
import HealthTree.Proofs.Abridged
import HealthTree.Proofs.Endings
