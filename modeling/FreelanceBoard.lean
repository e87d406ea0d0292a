import FreelanceBoard.Number.Decimal
import FreelanceBoard.Number.Shortest
import FreelanceBoard.Text.Blank
import FreelanceBoard.Text.Quoted
import FreelanceBoard.Text.Relevance
import FreelanceBoard.Value.Path
import FreelanceBoard.Value.Display
import FreelanceBoard.Value.Access
import FreelanceBoard.Schema.Scalar
import FreelanceBoard.Predicate.Written
import FreelanceBoard.Plan.Compiled
import FreelanceBoard.Document
import FreelanceBoard.Store.Table
import FreelanceBoard.Store.Memory
import FreelanceBoard.Search
import FreelanceBoard.Catalog.Operation
import FreelanceBoard.Server.Indices
import FreelanceBoard.Server.Script
import FreelanceBoard.Settings
import FreelanceBoard.Indexing
import FreelanceBoard.Main
import FreelanceBoard.Proofs.Values
import FreelanceBoard.Proofs.Sorting
import FreelanceBoard.Proofs.FilterPlan
import FreelanceBoard.Proofs.Admission
import FreelanceBoard.Proofs.MemorySearch
import FreelanceBoard.Proofs.WantedProjects
import FreelanceBoard.Proofs.DottedPaths
import FreelanceBoard.Proofs.QueryMeaning
import FreelanceBoard.Proofs.SearchServer
import FreelanceBoard.Proofs.ServerSearch
import FreelanceBoard.Proofs.DocumentServer
import FreelanceBoard.Proofs.ServerProjects
import FreelanceBoard.Proofs.Documents
import FreelanceBoard.Proofs.Keyed
import FreelanceBoard.Proofs.Ledger
import FreelanceBoard.Proofs.RecordStore
import FreelanceBoard.Proofs.CatalogReads
import FreelanceBoard.Proofs.CatalogRun
import FreelanceBoard.Proofs.MemoryStore
import FreelanceBoard.Proofs.CatalogMemory
import FreelanceBoard.Proofs.OwnedProjects
import FreelanceBoard.Proofs.DocumentStore
import FreelanceBoard.Proofs.CatalogAnswers
import FreelanceBoard.Proofs.CatalogServer
import FreelanceBoard.Proofs.MadeProposals
import FreelanceBoard.Proofs.MemoryRuns
import FreelanceBoard.Proofs.Deeds
import FreelanceBoard.Proofs.Authorization
import FreelanceBoard.Proofs.CanonicalRecords
import FreelanceBoard.Proofs.WrittenQueries
import FreelanceBoard.Proofs.Rounding
import FreelanceBoard.Proofs.FilterRefusals
import FreelanceBoard.Proofs.BudgetBounds
import FreelanceBoard.Proofs.HiredFreelancers
import FreelanceBoard.Proofs.PostingChanges
import FreelanceBoard.Proofs.Moves
import FreelanceBoard.Proofs.Interleaving
import FreelanceBoard.Proofs.Desk
import FreelanceBoard.Proofs.Trails
import FreelanceBoard.Proofs.Courses
import FreelanceBoard.Proofs.SerialRuns
import FreelanceBoard.Proofs.Serializability
import FreelanceBoard.Proofs.FilterGrammar
import FreelanceBoard.Proofs.Exchanges
import FreelanceBoard.Proofs.FiledRecords
import FreelanceBoard.Proofs.StoreFailures
import FreelanceBoard.Proofs.OwnFilters
import FreelanceBoard.Proofs.ClauseMeaning
import FreelanceBoard.Proofs.StagedSearch
import FreelanceBoard.Proofs.PlanLikeness
import FreelanceBoard.Proofs.EqualPlans
import FreelanceBoard.Proofs.FailedCalls
import FreelanceBoard.Proofs.Pages
import FreelanceBoard.Proofs.RequestsSent
import FreelanceBoard.Proofs.SettledSearches
import FreelanceBoard.Proofs.LeastEdits
import FreelanceBoard.Proofs.FuzzyScores
import FreelanceBoard.Proofs.RankedSearch
import FreelanceBoard.Proofs.Batches
import FreelanceBoard.Proofs.JsonReadings
import FreelanceBoard.Proofs.ReadBack
import FreelanceBoard.Proofs.UserProjects
import FreelanceBoard.Proofs.ConfinedWrites
import FreelanceBoard.Proofs.Hirings
import FreelanceBoard.Proofs.WordRuns
import FreelanceBoard.Proofs.FailFast
import FreelanceBoard.Proofs.ClosedSessions
import FreelanceBoard.Proofs.Clusters
import FreelanceBoard.Proofs.CutRuns
import FreelanceBoard.Proofs.IndexSetup
