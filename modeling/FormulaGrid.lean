import FormulaGrid.Binary64
import FormulaGrid.Cascade
import FormulaGrid.CellKey
import FormulaGrid.CellStore
import FormulaGrid.Command
import FormulaGrid.DependencyGraph
import FormulaGrid.Digits
import FormulaGrid.Evaluation
import FormulaGrid.EventLoop
import FormulaGrid.EventText
import FormulaGrid.Fault
import FormulaGrid.Formula
import FormulaGrid.IntegerText
import FormulaGrid.NumberDisplay
import FormulaGrid.Numeral
import FormulaGrid.Proofs.AmpleLimits
import FormulaGrid.Proofs.CanonicalReferences
import FormulaGrid.Proofs.CascadeReach
import FormulaGrid.Proofs.CellViews
import FormulaGrid.Proofs.CircularEdits
import FormulaGrid.Proofs.ColumnOrder
import FormulaGrid.Proofs.CompletedWrites
import FormulaGrid.Proofs.ComposedShifts
import FormulaGrid.Proofs.ComputedResults
import FormulaGrid.Proofs.CorrectRounding
import FormulaGrid.Proofs.CycleGuard
import FormulaGrid.Proofs.DisplayedNumbers
import FormulaGrid.Proofs.EvaluationLoops
import FormulaGrid.Proofs.EventData
import FormulaGrid.Proofs.EventFeed
import FormulaGrid.Proofs.ExactInvalidation
import FormulaGrid.Proofs.ExactResults
import FormulaGrid.Proofs.FeedReadings
import FormulaGrid.Proofs.FieldIntegers
import FormulaGrid.Proofs.FilledRectangles
import FormulaGrid.Proofs.FoldedProducts
import FormulaGrid.Proofs.GraphLockstep
import FormulaGrid.Proofs.GridBounds
import FormulaGrid.Proofs.GuardedWalk
import FormulaGrid.Proofs.Inquiries
import FormulaGrid.Proofs.Invalidation
import FormulaGrid.Proofs.LastRecords
import FormulaGrid.Proofs.LedgerBalance
import FormulaGrid.Proofs.LongestNumerals
import FormulaGrid.Proofs.LookedUpCells
import FormulaGrid.Proofs.LoopCallbacks
import FormulaGrid.Proofs.LoopSteps
import FormulaGrid.Proofs.MalformedLayouts
import FormulaGrid.Proofs.Memoization
import FormulaGrid.Proofs.MissedResults
import FormulaGrid.Proofs.MixedPrecedence
import FormulaGrid.Proofs.MovedEvaluation
import FormulaGrid.Proofs.MovedFormulas
import FormulaGrid.Proofs.MovedLiterals
import FormulaGrid.Proofs.MovedReferences
import FormulaGrid.Proofs.Moves
import FormulaGrid.Proofs.NearestRanks
import FormulaGrid.Proofs.NumberLayout
import FormulaGrid.Proofs.NumeralGrammar
import FormulaGrid.Proofs.OverlongOperands
import FormulaGrid.Proofs.PlainSheet
import FormulaGrid.Proofs.Precedence
import FormulaGrid.Proofs.PreferredMatches
import FormulaGrid.Proofs.ReaderChains
import FormulaGrid.Proofs.ReadingFrame
import FormulaGrid.Proofs.ReadingOutcomes
import FormulaGrid.Proofs.RecastSheets
import FormulaGrid.Proofs.ReferenceCodec
import FormulaGrid.Proofs.RefreshConservation
import FormulaGrid.Proofs.RefreshLedger
import FormulaGrid.Proofs.RequestEffects
import FormulaGrid.Proofs.RoundedOrder
import FormulaGrid.Proofs.RowLoading
import FormulaGrid.Proofs.ScannedNumerals
import FormulaGrid.Proofs.ServiceTurns
import FormulaGrid.Proofs.ShiftedText
import FormulaGrid.Proofs.ShortestDigits
import FormulaGrid.Proofs.ShownCells
import FormulaGrid.Proofs.ShownDependencies
import FormulaGrid.Proofs.SplitBodies
import FormulaGrid.Proofs.StaleResults
import FormulaGrid.Proofs.Steps
import FormulaGrid.Proofs.StoreAbstraction
import FormulaGrid.Proofs.TornFills
import FormulaGrid.Proofs.TrimmedText
import FormulaGrid.Proofs.TurnRuns
import FormulaGrid.Proofs.Turns
import FormulaGrid.Proofs.UnguardedWalk
import FormulaGrid.Proofs.UnguardedWrites
import FormulaGrid.Proofs.UnreadableCells
import FormulaGrid.Proofs.WritableCells
import FormulaGrid.RefShift
import FormulaGrid.Reference
import FormulaGrid.Refresh
import FormulaGrid.Request
import FormulaGrid.Route
import FormulaGrid.Service
import FormulaGrid.Session
import FormulaGrid.Settings
import FormulaGrid.Sheet
import FormulaGrid.ShortestDecimal
import FormulaGrid.Text
import FormulaGrid.Total
