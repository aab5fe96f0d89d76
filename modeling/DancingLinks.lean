import DancingLinks.Encoding
import DancingLinks.Main
import DancingLinks.Problem.Strip
import DancingLinks.Problem.Table
import DancingLinks.Queens.Lines
import DancingLinks.Solver.Describe
import DancingLinks.Proofs.Links
import DancingLinks.Proofs.Roster
import DancingLinks.Proofs.CoveredRoster
import DancingLinks.Proofs.Woven
import DancingLinks.Proofs.ArenaCovers
import DancingLinks.Proofs.BranchChoice
import DancingLinks.Proofs.ArenaSearch
import DancingLinks.Proofs.RestingArena
import DancingLinks.Proofs.ArenaBuilding
import DancingLinks.Proofs.SheetSolve
import DancingLinks.Proofs.SuspendedSearch
import DancingLinks.Proofs.PartialEnumeration
import DancingLinks.Proofs.History
import DancingLinks.Proofs.SolveReports
import DancingLinks.Proofs.SolveAnswers
import DancingLinks.Proofs.ExhaustiveSearch
import DancingLinks.Proofs.ExactCovers
import DancingLinks.Proofs.EnumerationLockstep
import DancingLinks.Proofs.AbandonedSearch
import DancingLinks.Proofs.RingsRead
import DancingLinks.Proofs.EditedTorus
import DancingLinks.Proofs.OutOfPlay
import DancingLinks.Proofs.OrderlySearch
import DancingLinks.Proofs.Journal
import DancingLinks.Proofs.OrderlyCovers
import DancingLinks.Proofs.WriterBudget
import DancingLinks.Proofs.StoppedSearch
import DancingLinks.Proofs.LoadedSolver
import DancingLinks.Proofs.CollectedReadings
import DancingLinks.Proofs.EncodingMeaning
import DancingLinks.Proofs.Placements
import DancingLinks.Proofs.QueensMatrix
import DancingLinks.Proofs.Sessions
import DancingLinks.Proofs.EncodingChanges
import DancingLinks.Proofs.RowLayout
import DancingLinks.Proofs.RejectedCalls
import DancingLinks.Proofs.LinkLanes
import DancingLinks.Proofs.PacedWalks
import DancingLinks.Proofs.PacedSearch
import DancingLinks.Proofs.BoundedSearch
import DancingLinks.Proofs.SiteRoles
import DancingLinks.Proofs.CoveredView
import DancingLinks.Proofs.NestedCovers
import DancingLinks.Proofs.Indexing
import DancingLinks.Proofs.Renumbering
import DancingLinks.Proofs.QueensInStep
import DancingLinks.Proofs.DisabledFilter
import DancingLinks.Proofs.TorusOutline
import DancingLinks.Proofs.EntryPlacement
import DancingLinks.Proofs.SearchOutline
import DancingLinks.Proofs.WrittenTexts
import DancingLinks.Proofs.DrawnPicture
import DancingLinks.Proofs.Diagrams
import DancingLinks.Proofs.UnlimitedSink
import DancingLinks.Proofs.PrintedOutput
