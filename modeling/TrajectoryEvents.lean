import TrajectoryEvents.Configuration
import TrajectoryEvents.Detector.Inspect
import TrajectoryEvents.Scenario.Session
import TrajectoryEvents.Proofs.Binary64.Rounding
import TrajectoryEvents.Proofs.Binary64.Significand
import TrajectoryEvents.Proofs.Binary64.Arithmetic
import TrajectoryEvents.Proofs.Binary64.Midpoint
import TrajectoryEvents.Proofs.Epoch.Duration
import TrajectoryEvents.Proofs.Detector.Formula
import TrajectoryEvents.Proofs.Detector.Meaning
import TrajectoryEvents.Proofs.Detector.NormalForm
import TrajectoryEvents.Proofs.Detector.Passing
import TrajectoryEvents.Proofs.Search.Account
import TrajectoryEvents.Proofs.Search.Grid
import TrajectoryEvents.Proofs.Search.Outline
import TrajectoryEvents.Proofs.Search.Course
import TrajectoryEvents.Proofs.Search.Run
import TrajectoryEvents.Proofs.Search.Crossing
import TrajectoryEvents.Proofs.Search.Narrowing
import TrajectoryEvents.Proofs.Search.Exactness
import TrajectoryEvents.Proofs.Search.Completeness
import TrajectoryEvents.Proofs.Search.Simulation
import TrajectoryEvents.Proofs.Search.Equivalence
import TrajectoryEvents.Proofs.Search.Mirror
import TrajectoryEvents.Proofs.Search.Stopping
import TrajectoryEvents.Proofs.Search.Origin
import TrajectoryEvents.Proofs.Search.Alternation
import TrajectoryEvents.Proofs.Search.Seam
import TrajectoryEvents.Proofs.Search.Progress
import TrajectoryEvents.Proofs.Search.Convergence
import TrajectoryEvents.Proofs.Search.Extent
import TrajectoryEvents.Proofs.Search.Composition
import TrajectoryEvents.Proofs.Detector.Construction
import TrajectoryEvents.Proofs.Search.Landing
import TrajectoryEvents.Proofs.Detector.Lockstep
import TrajectoryEvents.Proofs.Search.Notification
import TrajectoryEvents.Proofs.Detector.Watching
import TrajectoryEvents.Proofs.Search.History
import TrajectoryEvents.Proofs.Search.Exhaustion
import TrajectoryEvents.Proofs.Search.Extension
import TrajectoryEvents.Proofs.Search.Tightening
import TrajectoryEvents.Proofs.Search.Arrival
import TrajectoryEvents.Proofs.Search.Timeline
import TrajectoryEvents.Proofs.Detector.Rebuilding
import TrajectoryEvents.Proofs.Detector.Recipe
import TrajectoryEvents.Proofs.Epoch.Succession
import TrajectoryEvents.Proofs.Configuration.RoundTrip
