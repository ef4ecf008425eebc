import FactorSearch.Composition
import FactorSearch.Config.Json
import FactorSearch.Proofs.Acceptance
import FactorSearch.Proofs.Postorder
import FactorSearch.Proofs.Completion
import FactorSearch.Proofs.Fragments
import FactorSearch.Proofs.Operands
import FactorSearch.Proofs.ActionIds
import FactorSearch.Proofs.Equality
import FactorSearch.Proofs.Numbering
import FactorSearch.Proofs.Blocks
import FactorSearch.Proofs.Permission
import FactorSearch.Proofs.Writes
import FactorSearch.Proofs.Calls
import FactorSearch.Proofs.History
import FactorSearch.Proofs.Composing
import FactorSearch.Proofs.Guidance
import FactorSearch.Proofs.Forms
import FactorSearch.Proofs.EpisodeLength
import FactorSearch.Proofs.Progress
import FactorSearch.Proofs.Lockstep
import FactorSearch.Proofs.Records
import FactorSearch.Proofs.Refusals
import FactorSearch.Proofs.FreshStart
import FactorSearch.Proofs.Scoring
import FactorSearch.Proofs.Readability
import FactorSearch.Proofs.FirstFault
import FactorSearch.Proofs.OnePass
import FactorSearch.Proofs.RoundTrip
import FactorSearch.Proofs.Members
import FactorSearch.Proofs.Admission
