import OpenHRP.Dynamics.Momentum
import OpenHRP.Dynamics.MassMatrix
import OpenHRP.Planner.ShortcutOptimizer
import OpenHRP.Planner.RandomShortcutOptimizer
import OpenHRP.Planner.DepthFirstSearch
import OpenHRP.Planner.RoadmapEdges
import OpenHRP.Planner.RRTFailure
import OpenHRP.Planner.TGT
import OpenHRP.SDims.ContactForce
import OpenHRP.ConstraintForce.GaussSeidel
import OpenHRP.ModelLoader.LinkNumbers
import OpenHRP.ModelLoader.ModelPose
import OpenHRP.ModelLoader.ModelCache
import OpenHRP.Dynamics.TestForces
import OpenHRP.Util.Lines
import OpenHRP.Util.Numerals
import OpenHRP.GrxUI.LogRoundTrip
import OpenHRP.GrxUI.SavedLog
import OpenHRP.SDims.LCPSearch
import OpenHRP.ModelLoader.LinkIndices
import OpenHRP.Model.LinkHeap
import OpenHRP.Kinematics.InverseKinematics
import OpenHRP.ModelLoader.SensorRegistry
import OpenHRP.Collision.TriOverlap
import OpenHRP.MeshShaper.FaceAttributes
import OpenHRP.MeshShaper.ShapedScene
import OpenHRP.Util.SkippedNodes
import OpenHRP.Collision.NeighborTriangles
import OpenHRP.Collision.BoundingBoxCounts
import OpenHRP.Collision.MergedContacts
import OpenHRP.ConstraintForce.ActionReaction
import OpenHRP.ConstraintForce.Initialization
import OpenHRP.Collision.SegmentDistance
import OpenHRP.Collision.CircleTriangle
import OpenHRP.Dynamics.ForceSensors
import OpenHRP.ControllerBridge.PeriodicRate
import OpenHRP.ControllerBridge.ParsedOptions
import OpenHRP.ModelLoader.SegmentParameters
import OpenHRP.Model.ModelNodeSet
import OpenHRP.ModelLoader.ListedShapes
import OpenHRP.Collision.LinkColdetModel
import OpenHRP.SDims.LCPPivot
import OpenHRP.GrxUI.ReaderAgreement
import OpenHRP.Dynamics.ScrewMotion
import OpenHRP.SDims.EulerAngles
import OpenHRP.SDims.PseudoInverse
import OpenHRP.SDims.AdaptiveEuler
import OpenHRP.SDims.FirstGoal
import OpenHRP.SDims.SecondJacobian
import OpenHRP.SDims.CenterOfMass
import OpenHRP.SDims.DefaultSchedule
import OpenHRP.Kinematics.PathWalks
import OpenHRP.Dynamics.NextState
