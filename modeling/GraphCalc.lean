import GraphCalc.Session
import GraphCalc.Main
import GraphCalc.Proofs.StackSteps
import GraphCalc.Proofs.WellFormed
import GraphCalc.Proofs.Balance
import GraphCalc.Proofs.Boundaries
import GraphCalc.Proofs.Nesting
import GraphCalc.Proofs.Outline
import GraphCalc.Proofs.StackOutline
import GraphCalc.Proofs.Order
import GraphCalc.Proofs.Arguments
import GraphCalc.Proofs.Formula
import GraphCalc.Proofs.FormulaItems
import GraphCalc.Proofs.Precedence
import GraphCalc.Proofs.Failures
import GraphCalc.Proofs.Nodes
import GraphCalc.Proofs.Soundness
import GraphCalc.Proofs.Equations
import GraphCalc.Proofs.Moves
import GraphCalc.Proofs.Spelling
import GraphCalc.Proofs.OpenParens
import GraphCalc.Proofs.CommandArguments
import GraphCalc.Proofs.Tokenize
import GraphCalc.Proofs.Lines
import GraphCalc.Proofs.Stop
import GraphCalc.Proofs.Composition
import GraphCalc.Proofs.Memory
import GraphCalc.Proofs.Cells
import GraphCalc.Proofs.HomeScreen
import GraphCalc.Proofs.Shape
import GraphCalc.Proofs.Sessions
import GraphCalc.Proofs.Literals
import GraphCalc.Proofs.Rounding
import GraphCalc.Proofs.Packing
import GraphCalc.Proofs.FiniteValues
import GraphCalc.Proofs.FiniteFunctions
import GraphCalc.Proofs.Finiteness
import GraphCalc.Proofs.FailedStatements
import GraphCalc.Proofs.Entrywise
import GraphCalc.Proofs.LongestSpelling
import GraphCalc.Proofs.NumberText
import GraphCalc.Proofs.ListNames
import GraphCalc.Proofs.Determinant
import GraphCalc.Proofs.Inverse
import GraphCalc.Proofs.KeyOrder
import GraphCalc.Proofs.Modes
import GraphCalc.Proofs.MatrixLiterals
import GraphCalc.Proofs.Exactness
import GraphCalc.Proofs.Combinations
import GraphCalc.Proofs.Permutations
import GraphCalc.Proofs.Transposition
import GraphCalc.Proofs.Median
import GraphCalc.Proofs.Unreadable
import GraphCalc.Proofs.Blocks
import GraphCalc.Proofs.Output
import GraphCalc.Proofs.StackLimits
import GraphCalc.Proofs.Lookahead
import GraphCalc.Proofs.Progress
