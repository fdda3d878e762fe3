import SeqQuad.CentralDifference
import SeqQuad.Expression
import SeqQuad.LinearSystem.Elimination
import SeqQuad.Nonlinear.Solve
import SeqQuad.Report.Log
import SeqQuad.Scalar.Double
import SeqQuad.Script
import SeqQuad.Proofs.Exact.Extended
import SeqQuad.Proofs.Exact.Vector
import SeqQuad.Proofs.Exact.Matrix
import SeqQuad.Proofs.LineSearch
import SeqQuad.Proofs.SparseMatrix.Pattern
import SeqQuad.Proofs.SparseMatrix.Triplets
import SeqQuad.Proofs.Curvature.Shift
import SeqQuad.Proofs.Nonlinear.Events
import SeqQuad.Proofs.Nonlinear.Run
import SeqQuad.Proofs.Nonlinear.Reals
import SeqQuad.Proofs.Exact.Infeasibility
import SeqQuad.Proofs.Nonlinear.Coherence
import SeqQuad.Proofs.Nonlinear.Descent
import SeqQuad.Proofs.Curvature.RankTwo
import SeqQuad.Proofs.SparseMatrix.Full
import SeqQuad.Proofs.Curvature.Update
import SeqQuad.Proofs.Nonlinear.LimitedMemory
import SeqQuad.Proofs.Quadratic.Interior
import SeqQuad.Proofs.Quadratic.Pairs
import SeqQuad.Proofs.Quadratic.Certificate
import SeqQuad.Proofs.Quadratic.Positivity
import SeqQuad.Proofs.Quadratic.SlackResidual
import SeqQuad.Proofs.Exact.Undefined
import SeqQuad.Proofs.Nonlinear.Undefined
import SeqQuad.Proofs.Exact.Largest
import SeqQuad.Proofs.Nonlinear.NonMonotone
import SeqQuad.Proofs.Nonlinear.Box
import SeqQuad.Proofs.Nonlinear.Failures
import SeqQuad.Proofs.Nonlinear.Secant
import SeqQuad.Proofs.Nonlinear.Quadratic
import SeqQuad.Proofs.Nonlinear.OneStep
import SeqQuad.Proofs.Nonlinear.Answers
import SeqQuad.Proofs.Nonlinear.Termination
import SeqQuad.Proofs.Nonlinear.Truncation
import SeqQuad.Proofs.Nonlinear.Contraction
import SeqQuad.Proofs.Nonlinear.Penalty
import SeqQuad.Proofs.Nonlinear.SearchLimit
import SeqQuad.Proofs.Nonlinear.Calls
import SeqQuad.Proofs.Nonlinear.Statistics
import SeqQuad.Proofs.Nonlinear.Dimensions
import SeqQuad.Proofs.Nonlinear.Refusals
import SeqQuad.Proofs.Nonlinear.Recast
import SeqQuad.Proofs.Alike
import SeqQuad.Proofs.Nonlinear.RecastStep
import SeqQuad.Proofs.Nonlinear.RecastRun
import SeqQuad.Proofs.LineSearch.FinalTrial
import SeqQuad.Proofs.Curvature.Circles
import SeqQuad.Proofs.SparseMatrix.Blocks
import SeqQuad.Proofs.Quadratic.Newton
import SeqQuad.Proofs.Quadratic.Dimensions
import SeqQuad.Proofs.Curvature.Guard
import SeqQuad.Proofs.Quadratic.Encoding
import SeqQuad.Proofs.Quadratic.Regular
import SeqQuad.Proofs.Quadratic.EqualityOnly
import SeqQuad.Proofs.Exact.Carried
import SeqQuad.Proofs.Quadratic.Matching
import SeqQuad.Proofs.Quadratic.Rewriting
import SeqQuad.Proofs.Quadratic.ConstraintForms
import SeqQuad.Proofs.CentralDifference.Points
import SeqQuad.Proofs.Quadratic.LongestStep
import SeqQuad.Proofs.CentralDifference.Shapes
import SeqQuad.Proofs.CentralDifference.Quadratics
import SeqQuad.Proofs.Nonlinear.Differences
import SeqQuad.Proofs.SparseMatrix.Bordered
