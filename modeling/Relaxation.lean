import Relaxation.Background.Course
import Relaxation.Cloth
import Relaxation.CommandLine
import Relaxation.Fit.Circle
import Relaxation.Fit.Sphere
import Relaxation.Linear.Svd3
import Relaxation.Main
import Relaxation.Proofs.Fault
import Relaxation.Proofs.Goal.Make
import Relaxation.Proofs.Goal.Built
import Relaxation.Proofs.Goal.Response
import Relaxation.Proofs.Solver.Attach
import Relaxation.Proofs.Solver.WellFormed
import Relaxation.Proofs.Solver.Reachable
import Relaxation.Proofs.Scalar.Real
import Relaxation.Proofs.Indexing.Goal
import Relaxation.Proofs.Indexing.Solver
import Relaxation.Proofs.Geometry.Vec3
import Relaxation.Proofs.Solver.Mean
import Relaxation.Proofs.Geometry.Vec2
import Relaxation.Proofs.Goal.Polygon
import Relaxation.Proofs.Linear.DenseMatrix
import Relaxation.Proofs.Linear.Reflector
import Relaxation.Proofs.Linear.Bidiagonal
import Relaxation.Proofs.Linear.Accumulation
import Relaxation.Proofs.Linear.Cancellation
import Relaxation.Proofs.Linear.Svd
import Relaxation.Proofs.Solver.Replay
import Relaxation.Proofs.Geometry.Mat3
import Relaxation.Proofs.Geometry.Quaternion
import Relaxation.Proofs.Linear.Jacobi
import Relaxation.Proofs.Linear.Svd3
import Relaxation.Proofs.Linear.Procrustes
import Relaxation.Proofs.Goal.ShapeMatching
import Relaxation.Proofs.Geometry.ClosestPoint
import Relaxation.Proofs.Shape
import Relaxation.Proofs.Solver.Reordering
import Relaxation.Proofs.Solver.Identity
import Relaxation.Proofs.Solver.Independence
import Relaxation.Proofs.Solver.Merging
import Relaxation.Proofs.Goal.Proper
import Relaxation.Proofs.Solver.InPlace
import Relaxation.Proofs.Scenario
import Relaxation.Proofs.Solver.Onlookers
import Relaxation.Proofs.Domain.Basic
import Relaxation.Proofs.Domain.Pairwise
import Relaxation.Proofs.Domain.Shape
import Relaxation.Proofs.Domain.Collision
import Relaxation.Proofs.Domain.Fit
import Relaxation.Proofs.Domain.ShapeMatching
import Relaxation.Proofs.Domain.Goal
import Relaxation.Proofs.Goal.Parameter
import Relaxation.Proofs.Goal.InPlace
import Relaxation.Proofs.Scalar.Order
import Relaxation.Proofs.Goal.Lawful
import Relaxation.Proofs.Interaction
import Relaxation.Proofs.Solver.Session
import Relaxation.Proofs.Background
import Relaxation.Proofs.Goal.Momentum
import Relaxation.Proofs.Solver.Pairs
import Relaxation.Proofs.Solver.Settling
import Relaxation.Proofs.Goal.ClosedMesh
import Relaxation.Proofs.Solver.Execute
import Relaxation.Proofs.Solver.Lawful
import Relaxation.Proofs.Solver.Reweighing
import Relaxation.Proofs.Goal.SeparatingAxis
import Relaxation.Proofs.Description
import Relaxation.Proofs.Goal.Angle
import Relaxation.Proofs.Goal.Lengths
import Relaxation.Proofs.Goal.Alignment
import Relaxation.Proofs.Goal.Similarity
import Relaxation.Proofs.Fit.Sphere
import Relaxation.Proofs.Linear.Semidefinite
import Relaxation.Proofs.Fit.Scatter
import Relaxation.Proofs.Fit.Axes
import Relaxation.Proofs.Goal.Segments
import Relaxation.Proofs.Goal.Spheres
import Relaxation.Proofs.Goal.Containment
import Relaxation.Proofs.Fit.Circle
import Relaxation.Proofs.Goal.Orientation
import Relaxation.Proofs.Projection
import Relaxation.Proofs.Solver.Apart
import Relaxation.Proofs.Domain.Bidiagonal
import Relaxation.Proofs.Domain.Svd
import Relaxation.Proofs.Scalar.Total
import Relaxation.Proofs.Scalar.Exact
import Relaxation.Proofs.Cloth
import Relaxation.Proofs.Linear.Sorting
import Relaxation.Proofs.Linear.Conjugation
import Relaxation.Proofs.Linear.Contraction
