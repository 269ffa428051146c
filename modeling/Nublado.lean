import Nublado.Client.Properties.Execution
import Nublado.Client.Properties.Loops
import Nublado.Client.Properties.Redirects
import Nublado.Client.Properties.SpawnForm
import Nublado.Client.Properties.Tokens
import Nublado.Docker.Properties.Authentication
import Nublado.Docker.Properties.Credentials
import Nublado.Docker.Properties.Listing
import Nublado.Fileserver.Properties.Manager
import Nublado.Fileserver.Properties.Reconcile
import Nublado.Fileserver.Properties.State
import Nublado.Fileserver.Properties.Waiting
import Nublado.Hub.Properties.Events
import Nublado.Hub.Properties.Wakeups
import Nublado.Images.Properties.Adding
import Nublado.Images.Properties.AliasTracking
import Nublado.Images.Properties.Candidates
import Nublado.Images.Properties.Composition
import Nublado.Images.Properties.Construction
import Nublado.Images.Properties.Deletion
import Nublado.Images.Properties.Equality
import Nublado.Images.Properties.Partition
import Nublado.Images.Properties.Pruning
import Nublado.Images.Properties.References
import Nublado.Images.Properties.Selection
import Nublado.Images.Properties.Sharing
import Nublado.Images.Properties.Subtraction
import Nublado.Images.Properties.TagOrdering
import Nublado.Kubernetes.Properties.Waiting
import Nublado.Lab.Manager.Effects
import Nublado.Lab.Properties.Cleanup
import Nublado.InitHome.Properties.Provisioning
import Nublado.Lab.Properties.Completion
import Nublado.Lab.Properties.Convergence
import Nublado.Lab.Properties.MutualExclusion
import Nublado.Lab.Properties.Options
import Nublado.Lab.Properties.Quantity
import Nublado.Lab.Properties.Reaper
import Nublado.Lab.Properties.Rejection
import Nublado.Lab.Properties.Request
import Nublado.Lab.Properties.Restart
import Nublado.Lab.Properties.SpawnEvents
import Nublado.Lab.Properties.Volumes
import Nublado.Purger.Properties.HumanSize
import Nublado.Purger.Properties.Removal
import Nublado.Purger.Properties.Tidying
import Nublado.Purger.Properties.Unreadable
import Nublado.Startup.Properties.Abnormal
import Nublado.Startup.Properties.Credentials
import Nublado.Startup.Properties.Dask
