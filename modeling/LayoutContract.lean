import LayoutContract.Main
import LayoutContract.Proofs.AllowedNames
import LayoutContract.Proofs.CleanRoots
import LayoutContract.Proofs.DeclarationOrder
import LayoutContract.Proofs.MemberOrder
import LayoutContract.Proofs.NestedOffenders
import LayoutContract.Proofs.EditedGraphs
import LayoutContract.Proofs.MissingConstructor
import LayoutContract.Proofs.AllowedOffender
import LayoutContract.Proofs.Json.Lexing
import LayoutContract.Proofs.DescriptionRenderings
import LayoutContract.Proofs.EmitterRuns
import LayoutContract.Proofs.ExitStatus
import LayoutContract.Proofs.RootContract
import LayoutContract.Proofs.TransparentWrappers
import LayoutContract.Proofs.WrappedMembers
import LayoutContract.Proofs.ArrayRoots
import LayoutContract.Proofs.ForgetfulWalks
import LayoutContract.Proofs.NestedFaults
import LayoutContract.Proofs.WarningThreshold
import LayoutContract.Proofs.ImplicitNames
import LayoutContract.Proofs.LedgerVerdicts
import LayoutContract.Proofs.NestedCalls
import LayoutContract.Proofs.ArenaIds
import LayoutContract.Proofs.WellFormedFindings
import LayoutContract.Proofs.GenericSpellings
import LayoutContract.Proofs.AllowedArguments
import LayoutContract.Proofs.TextRenderings
import LayoutContract.Proofs.LedgerRuns
import LayoutContract.Proofs.QueueRuns
