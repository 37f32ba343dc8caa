import FrpProvisioner.Effect.Interleaving
import FrpProvisioner.Controller.Reconciling
import FrpProvisioner.Controller.Store
import FrpProvisioner.Controller.Ownership
import FrpProvisioner.Controller.NeedlessWrites
import FrpProvisioner.Controller.Serving
import FrpProvisioner.Controller.Convergence
import FrpProvisioner.Controller.FinalizerGuard
import FrpProvisioner.Controller.CachedReads
import FrpProvisioner.Controller.Updates
import FrpProvisioner.Controller.RacingManagers
import FrpProvisioner.Controller.Releasing
import FrpProvisioner.Controller.SmoothRuns
import FrpProvisioner.Controller.Sweeps
import FrpProvisioner.Controller.LabelDrift
import FrpProvisioner.Controller.Independence
import FrpProvisioner.Controller.StatusReports
import FrpProvisioner.Controller.PendingFirst
import FrpProvisioner.Controller.FrpServerValidator
import FrpProvisioner.Controller.Admission
import FrpProvisioner.Controller.AdmissionPanics
import FrpProvisioner.Controller.Defaulting
import FrpProvisioner.FrpClient.TempFiles
import FrpProvisioner.FrpClient.ServiceLogin
import FrpProvisioner.Config.Validation
import FrpProvisioner.Config.SecondParse
import FrpProvisioner.Controller.TemplatePods
import FrpProvisioner.Server.ManagerServer
import FrpProvisioner.Safe.TaskManager
import FrpProvisioner.Runtime.Controller
import FrpProvisioner.Runtime.AtRest
import FrpProvisioner.Effect.Feed
import FrpProvisioner.Runtime.DeltaFIFO
import FrpProvisioner.Runtime.Informer
import FrpProvisioner.Runtime.Notices
import FrpProvisioner.Runtime.Watch
import FrpProvisioner.Runtime.Handlers
import FrpProvisioner.Runtime.Watching
import FrpProvisioner.Runtime.ThreadSafeStore
import FrpProvisioner.Runtime.CacheReader
import FrpProvisioner.Controller.ServiceController
import FrpProvisioner.Controller.QuietRuns
import FrpProvisioner.Controller.ServicesAtRest
import FrpProvisioner.Controller.FrpServersAtRest
import FrpProvisioner.Server.FieldIndexes
import FrpProvisioner.Runtime.Retries
import FrpProvisioner.Runtime.Backoff
import FrpProvisioner.Election.Electorate
import FrpProvisioner.Election.Grace
import FrpProvisioner.Election.OneLeader
import FrpProvisioner.Election.TwoLeaders
