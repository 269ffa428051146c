import Mathlib.Data.Rat.Defs

/-!
# Lab models

The data the lab manager reads and returns: the user and the specification in a request, the
configuration it consults, the state it keeps of a lab, and the events it publishes. Fields that no
modelled function reads are left out. Amounts of CPU are exact rationals.
-/

namespace Nublado

/-- Allowable names for pod sizes. -/
inductive LabSize
  | fine | diminutive | tiny | small | medium | large | huge | gargantuan | colossal
  | custom
  deriving DecidableEq

/-- Possible states the user's lab may be in. -/
inductive LabStatus
  | pending | running | terminating | terminated | failed
  deriving DecidableEq

/-- Phases of a Kubernetes pod. -/
inductive PodPhase
  | pending | running | succeeded | failed | unknown
  deriving DecidableEq

namespace LabStatus

/-- Convert a Kubernetes pod phase to a lab status. -/
def fromPhase : PodPhase → LabStatus
  | .pending => .pending
  | .running => .running
  | .succeeded | .failed => .terminated
  | .unknown => .failed

/-- Kubernetes has no phase for a pod that is being shut down. -/
theorem fromPhase_ne_terminating (p : PodPhase) : fromPhase p ≠ .terminating := by
  cases p <;> decide

end LabStatus

/-- A Kubernetes resource request or limit. -/
structure ResourceQuantity where
  cpu : ℚ
  memory : ℤ
  deriving DecidableEq

/-- Resource requests and limits for a lab. -/
structure LabResources where
  limits : ResourceQuantity
  requests : ResourceQuantity
  deriving DecidableEq

/-- Group membership. -/
structure UserGroup where
  name : String
  id : ℤ
  deriving DecidableEq

/-- Metadata about the user who owns the lab. -/
structure UserInfo where
  username : String
  name : Option String := none
  uid : ℤ
  gid : ℤ
  groups : List UserGroup := []
  deriving DecidableEq

/-- The notebook part of a user's quota. -/
structure NotebookQuota where
  cpu : ℚ
  memoryBytes : ℤ
  spawn : Bool := true
  deriving DecidableEq

/-- User information from Gafaelfawr supplemented with the user's token. `quota` is the quota's
notebook part, absent when either the quota or that part of it is. -/
structure GafaelfawrUser where
  username : String
  name : Option String := none
  uid : Option ℤ := none
  gid : Option ℤ := none
  groups : List UserGroup := []
  quota : Option NotebookQuota := none
  token : String
  deriving DecidableEq

/-- Supported classes of images. -/
inductive ImageClass
  | recommended | latestRelease | latestWeekly | latestDaily
  deriving DecidableEq

/-- Whether an optional string counts as true: it is there and not empty. -/
def truthy (s : Option String) : Bool := s.any (· ≠ "")

/-- User-provided lab configuration options. -/
structure LabRequestOptions where
  size : LabSize
  enableDebug : Bool := false
  resetUserEnv : Bool := false
  imageList : Option String := none
  imageDropdown : Option String := none
  imageClass : Option ImageClass := none
  imageTag : Option String := none
  deriving DecidableEq

/-- Specification of lab to spawn, sent by the JupyterHub spawner. -/
structure LabSpecification where
  options : LabRequestOptions
  env : List (String × String)
  deriving DecidableEq

/-- The part of an image that spawning a lab needs. -/
structure RSPImage where
  referenceWithDigest : String
  deriving DecidableEq

/-- Options for the lab, specified at creation time. -/
structure LabOptions where
  size : LabSize
  enableDebug : Bool := false
  resetUserEnv : Bool := false
  image : String
  deriving DecidableEq

/-- Current state of the user's lab. -/
structure LabState where
  user : UserInfo
  options : LabOptions
  status : LabStatus
  internalUrl : Option String := none
  resources : LabResources
  quota : Option ResourceQuantity := none
  deriving DecidableEq

namespace LabState

instance : Inhabited LabState :=
  ⟨{ user := { username := "", uid := 0, gid := 0 }
     options := { size := .custom, image := "" }
     status := .failed
     resources := { limits := ⟨0, 0⟩, requests := ⟨0, 0⟩ } }⟩

/-- Whether the lab is currently running. -/
def isRunning (s : LabState) : Bool := s.status ≠ .terminated && s.status ≠ .failed

/-- Create state for a new lab that is about to be spawned. -/
def fromRequest (user : UserInfo) (notebookQuota : Option NotebookQuota) (spec : LabSpecification)
    (image : RSPImage) (resources : LabResources) : LabState where
  user := user
  options :=
    { size := spec.options.size
      enableDebug := spec.options.enableDebug
      resetUserEnv := spec.options.resetUserEnv
      image := image.referenceWithDigest }
  status := .pending
  resources := resources
  quota := notebookQuota.map fun q ↦ { cpu := q.cpu, memory := q.memoryBytes }

theorem isRunning_eq_false_iff {s : LabState} :
    s.isRunning = false ↔ s.status = .terminated ∨ s.status = .failed := by
  rw [isRunning]
  cases s.status <;> decide

end LabState

/-- One of the sizes a lab may have. -/
structure LabSizeDefinition where
  size : LabSize
  resources : LabResources
  deriving DecidableEq

/-- A secret the lab receives: one key of one Kubernetes secret, and where to mount it. -/
structure LabSecret where
  secretName : String
  secretKey : String
  path : Option String := none
  deriving DecidableEq

/-- Where a volume comes from. -/
inductive VolumeSource
  | hostPath (path : String)
  | nfs (server serverPath : String) (readOnly : Bool)
  | persistentVolumeClaim (readOnly : Bool)
  deriving DecidableEq

/-- A volume that may be mounted inside a container. -/
structure VolumeConfig where
  name : String
  source : VolumeSource
  deriving DecidableEq

/-- The mount of a volume inside a container. -/
structure VolumeMountConfig where
  containerPath : String
  subPath : Option String := none
  readOnly : Bool := false
  volumeName : String
  deriving DecidableEq

/-- A container to run before the user's lab. -/
structure LabInitContainer where
  name : String
  volumeMounts : List VolumeMountConfig := []
  deriving DecidableEq

/-- Where the space for empty directories comes from. -/
inductive EmptyDirSource
  | disk | memory
  deriving DecidableEq

/-- Configuration for user labs. -/
structure LabConfig where
  namespacePrefix : String
  sizes : List LabSizeDefinition
  secrets : List LabSecret := []
  pullSecret : Option String := none
  emptyDirSource : EmptyDirSource := .memory
  /-- Additional environment variables. -/
  env : List (String × String) := []
  /-- Files to create inside the lab, with their contents. -/
  files : List (String × String) := []
  homeVolumeName : String := "home"
  initContainers : List LabInitContainer := []
  runtimeMountsDir : String := "/etc/nublado"
  standardInithome : Bool := false
  volumes : List VolumeConfig := []
  volumeMounts : List VolumeMountConfig := []

namespace LabConfig

/-- Return the definition for a given lab size. -/
def getSizeDefinition (config : LabConfig) (size : LabSize) : Option LabSizeDefinition :=
  config.sizes.find? fun definition ↦ definition.size = size

/-- The namespace of a user's lab. -/
def namespaceOf (config : LabConfig) (username : String) : String :=
  config.namespacePrefix ++ "-" ++ username

/-- The user whose lab a namespace belongs to, for the namespaces that have the prefix. -/
def usernameOf (config : LabConfig) (namespace_ : String) : Option String :=
  (namespace_.toList.dropPrefix? (config.namespacePrefix ++ "-").toList).map String.ofList

/-- Determine the URL of a newly-spawned lab, if JupyterHub sent the local part of it. -/
def buildInternalUrl (config : LabConfig) (username : String) (env : List (String × String)) :
    Option String :=
  (env.lookup "JUPYTERHUB_SERVICE_PREFIX").map fun path ↦
    "http://lab." ++ config.namespaceOf username ++ ":8888" ++ path

end LabConfig

/-- Type of message. -/
inductive EventType
  | complete | error | failed | info
  deriving DecidableEq

/-- One lab operation event for a user. -/
structure Event where
  type : EventType
  message : String
  progress : Option ℕ := none
  deriving DecidableEq

/-- The exceptions the lab manager raises or lets through. -/
inductive LabException
  | permissionDenied (message : String)
  | invalidLabSize (size : LabSize)
  | insufficientQuota (message : String)
  | labExists (message : String)
  | operationConflict (message : String)
  | noOperation (message : String)
  | unknownUser (message : String)
  | labDeletion (message : String)
  | kubernetes (message : String)
  | controllerTimeout (operation : String)
  | missingSecret (name : String)
  | keyError (key : String)
  | attributeError (message : String)
  | runtimeError (message : String)
  | cancelled
  | other (message : String)
  deriving DecidableEq

namespace LabException

/-- The text of an exception. -/
def text : LabException → String
  | .permissionDenied m | .insufficientQuota m | .labExists m | .noOperation m | .unknownUser m
  | .labDeletion m | .kubernetes m | .attributeError m | .runtimeError m | .other m => m
  | .invalidLabSize _ => "Invalid lab size"
  | .operationConflict m => m
  | .controllerTimeout op => op ++ " timed out"
  | .missingSecret n => n
  | .keyError k => k
  | .cancelled => ""

end LabException

end Nublado
