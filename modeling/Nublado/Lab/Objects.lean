import Nublado.Foundations.Dict
import Nublado.Foundations.JsonText
import Nublado.Images.Source
import Nublado.Lab.Quantity

/-!
# What Kubernetes keeps of a lab

The objects of a lab from which its state is recreated when the controller has been restarted: the
config map with the lab's environment, the annotations and the containers' identities in its pod, and
the quota of its namespace.

* **Building them** (`LabBuilder.buildLab`) spreads the state over them. The variables of the environment
  come from JupyterHub, from the user's options, from the builder and from the configuration, in this
  order, and the annotations from the builder and from the configuration; what comes later overrides.
* **Reading them back** (`LabBuilder.recreateLabState`) has fallbacks of its own for what is not there.
  What raises an exception is absent, as is an amount of CPU that is no number.

The validators that keep the configuration from overriding variables are here as well.
-/

namespace Nublado

open Lab (Numerals validateQuantity validateResources)

/-! ### Names -/

/-- The keyword for a lab size. -/
def LabSize.value : LabSize → String
  | .fine => "fine"
  | .diminutive => "diminutive"
  | .tiny => "tiny"
  | .small => "small"
  | .medium => "medium"
  | .large => "large"
  | .huge => "huge"
  | .gargantuan => "gargantuan"
  | .colossal => "colossal"
  | .custom => "custom"

namespace PodPhase

/-- The keyword for a phase. -/
def value : PodPhase → String
  | .pending => "Pending"
  | .running => "Running"
  | .succeeded => "Succeeded"
  | .failed => "Failed"
  | .unknown => "Unknown"

/-- `PodPhase(text)` -/
def ofText (text : String) : Option PodPhase :=
  [pending, running, succeeded, failed, unknown].find? fun phase ↦ phase.value = text

theorem ofText_value (phase : PodPhase) : ofText phase.value = some phase := by
  cases phase <;> rfl

end PodPhase

/-- A character that a shell takes literally. -/
def isShellSafe (c : Char) : Bool := c.isAlphanum || c ∈ "_@%+=:,./-".toList

/-- `shlex.quote(text)` -/
def shellQuote (text : String) : String :=
  if text = "" then "''"
  else if text.toList.all isShellSafe then text
  else "'" ++ Images.replaceText text "'" "'\"'\"'" ++ "'"

/-! ### What the configuration and requests are checked for -/

/-- Environment variables reserved to the controller or JupyterHub. -/
def reservedEnv : List String :=
  ["ACCESS_TOKEN", "DEBUG", "CONTAINER_SIZE", "CPU_GUARANTEE", "CPU_LIMIT", "EXTERNAL_INSTANCE_URL",
    "IMAGE_DIGEST", "IMAGE_DESCRIPTION", "JPY_API_TOKEN", "JUPYTER_IMAGE", "JUPYTER_IMAGE_SPEC",
    "KUBERNETES_NODE_NAME", "MEM_GUARANTEE", "MEM_LIMIT", "RESET_USER_ENV"]

/-- Reject reserved environment variables. -/
def rejectReservedEnv (v : String) : Except String String :=
  if v ∈ reservedEnv ∨ "JUPYTERHUB_".toList.isPrefixOf v.toList = true then
    .error ("Lab environment variable " ++ v ++ " reserved for Nublado")
  else .ok v

/-- Sizes are distinct; `seen` are those before. -/
def validateDistinctSizes : List LabSizeDefinition → List LabSize → Except String Unit
  | [], _ => .ok ()
  | definition :: definitions, seen =>
    if definition.size ∈ seen then .error ("Duplicate lab size " ++ definition.size.value)
    else validateDistinctSizes definitions (definition.size :: seen)

/-- There are sizes, and they are distinct. -/
def validateSizes (sizes : List LabSizeDefinition) : Except String Unit :=
  if sizes = [] then .error "At least one lab size must be defined" else validateDistinctSizes sizes []

/-- Ensure that JupyterHub has said which path the lab is served at. -/
def validateEnv (env : List (String × String)) : Except String (List (String × String)) :=
  if (env.lookup "JUPYTERHUB_SERVICE_PREFIX").isNone then
    .error "JUPYTERHUB_SERVICE_PREFIX must be set"
  else .ok env

/-- The configuration for labs with what the builder reads of it besides. -/
structure SpawnConfig extends LabConfig where
  /-- How frequently the lab should report activity, in microseconds. -/
  activityInterval : ℤ := 3600000000
  /-- Annotations of the pod besides those for tracking metadata. -/
  extraAnnotations : List (String × String) := []
  jupyterlabConfigDir : String := "/opt/lsst/software/jupyterlab"
  labStartCommand : List String := ["/opt/lsst/software/jupyterlab/runlab.sh"]

/-- The validators let the variables and sizes of the configuration through. -/
structure SpawnConfig.Accepted (config : SpawnConfig) : Prop where
  env : ∀ p ∈ config.env, rejectReservedEnv p.1 = .ok p.1
  /-- It is a dictionary. -/
  annotations : DistinctKeys config.extraAnnotations
  sizes : validateSizes config.sizes = .ok ()
  resources : ∀ d ∈ config.sizes,
    validateResources (.finite d.resources.limits.cpu, d.resources.limits.memory)
      (.finite d.resources.requests.cpu, d.resources.requests.memory) = .ok ()

/-! ### Kubernetes objects -/

/-- Which user and group a container runs as. -/
structure V1SecurityContext where
  runAsUser : Option ℤ := none
  runAsGroup : Option ℤ := none
  deriving DecidableEq

/-- A container of a lab's pod, as far as the lab's state is in it. -/
structure LabContainer where
  name : String
  securityContext : Option V1SecurityContext := none
  deriving DecidableEq

/-- A lab's pod, as far as the lab's state is in it. A pod that has just been built has no phase. -/
structure LabPod where
  annotations : Option (List (String × String)) := none
  containers : List LabContainer
  phase : Option String := none
  deriving DecidableEq

/-- All of the Kubernetes objects required to reconstruct lab state. -/
structure LabStateObjects where
  /-- The data of the config map that holds the environment of the lab. -/
  envConfigMap : List (String × String)
  /-- The hard limits of the quota for the user's namespace, if any. -/
  quota : Option (List (String × String)) := none
  pod : LabPod
  deriving DecidableEq

/-- The objects, when Kubernetes has added the phase of the pod. -/
def LabStateObjects.observed (objects : LabStateObjects) (phase : PodPhase) : LabStateObjects :=
  { objects with pod := { objects.pod with phase := some phase.value } }

/-- What other packages do. -/
structure Libraries where
  numerals : Numerals
  /-- The text of an amount of memory. -/
  bytesToSi : ℤ → String
  /-- The memory of a quota, in GiB. -/
  quotaMemory : NotebookQuota → ℚ
  /-- The group that a JSON value stands for. -/
  validateGroup : Json → Option UserGroup

/-- The builder of labs: its configuration, the URL of the instance, and the variable
`REPERTOIRE_BASE_URL` of its own environment. -/
structure LabBuilder where
  config : SpawnConfig
  baseUrl : String
  repertoireBaseUrl : Option String := none

namespace LabBuilder

/-- `int(x)` -/
def truncated (x : ℚ) : ℤ := x.num.tdiv x.den

/-- Annotations that tell Argo CD to leave an object alone. -/
def argoCdAnnotations : List (String × String) :=
  [("argocd.argoproj.io/compare-options", "IgnoreExtraneous"),
    ("argocd.argoproj.io/sync-options", "Prune=false")]

def groupsKey : String := "nublado.lsst.io/user-groups"

def nameKey : String := "nublado.lsst.io/user-name"

/-- `group.model_dump(mode="json")` -/
def groupJson (group : UserGroup) : Json :=
  .object [("name", .string group.name), ("id", .number (.finite group.id))]

variable (b : LabBuilder) (lib : Libraries)

/-! ### Building -/

/-- The text of an amount of CPU. -/
def cpuText (x : ℚ) : String := String.ofList (lib.numerals.floatText x)

/-- The text of an amount of memory. -/
def memoryText (n : ℤ) : String := String.ofList (Json.intText n)

/-- A lab size with its limits. -/
def sizeText (definition : LabSizeDefinition) : String :=
  String.capitalize definition.size.value ++ " (" ++ cpuText lib definition.resources.limits.cpu ++
    " CPU, " ++ lib.bytesToSi definition.resources.limits.memory ++ " RAM)"

/-- The standard environment variables. -/
def standardEnv (definition : LabSizeDefinition) (image : Images.RSPImage) : List (String × String) :=
  let resources := definition.resources
  [("JUPYTER_IMAGE", image.referenceWithDigest),
    ("JUPYTER_IMAGE_SPEC", image.referenceWithDigest),
    ("IMAGE_DESCRIPTION", image.displayName),
    ("IMAGE_DIGEST", image.digest),
    ("CONTAINER_SIZE", sizeText lib definition),
    ("CPU_GUARANTEE", cpuText lib resources.requests.cpu),
    ("CPU_LIMIT", cpuText lib resources.limits.cpu),
    ("MEM_GUARANTEE", memoryText resources.requests.memory),
    ("MEM_LIMIT", memoryText resources.limits.memory),
    ("JUPYTERHUB_ACTIVITY_INTERVAL", memoryText (b.config.activityInterval.tdiv 1000000)),
    ("EXTERNAL_INSTANCE_URL", b.baseUrl),
    ("JUPYTERLAB_CONFIG_DIR", b.config.jupyterlabConfigDir),
    ("JUPYTERLAB_START_COMMAND", " ".intercalate (b.config.labStartCommand.map shellQuote)),
    ("NUBLADO_RUNTIME_MOUNTS_DIR", b.config.runtimeMountsDir)]

/-- The variables from JupyterHub and from the user's options. -/
def requestedEnv (lab : LabSpecification) : List (String × String) :=
  let env := if lab.options.enableDebug then setKey lab.env "DEBUG" "TRUE" else lab.env
  if lab.options.resetUserEnv then setKey env "RESET_USER_ENV" "TRUE" else env

/-- Build the config map holding the lab environment variables. -/
def buildEnvConfigMap (lab : LabSpecification) (image : Images.RSPImage)
    (definition : LabSizeDefinition) : List (String × String) :=
  let env := dictUpdate (requestedEnv lab) (b.standardEnv lib definition image)
  let env :=
    if truthy b.repertoireBaseUrl then
      setKey env "REPERTOIRE_BASE_URL" (b.repertoireBaseUrl.getD "")
    else env
  dictUpdate env b.config.env

/-- Construct the annotations for the user's pod. -/
def buildPodAnnotations (user : GafaelfawrUser) : List (String × String) :=
  let groups := Json.dumps lib.numerals.floatText (.array (user.groups.map groupJson))
  let annotations := [(groupsKey, String.ofList groups)]
  let annotations :=
    match user.name with
    | some name => setKey annotations nameKey name
    | none => annotations
  dictUpdate annotations b.config.extraAnnotations

/-- Construct the namespace quota for a user's lab. -/
def buildQuota (user : GafaelfawrUser) : Option (List (String × String)) :=
  user.quota.map fun quota ↦
    [("limits.cpu", cpuText lib quota.cpu),
      ("limits.memory", memoryText (truncated (lib.quotaMemory quota * 1024 * 1024 * 1024)))]

/-- Construct the objects that make up a user's lab, unless its size is not defined. -/
def buildLab (user : GafaelfawrUser) (lab : LabSpecification) (image : Images.RSPImage) :
    Option LabStateObjects :=
  (b.config.getSizeDefinition lab.options.size).map fun definition ↦
    { envConfigMap := b.buildEnvConfigMap lib lab image definition
      quota := buildQuota lib user
      pod :=
        { annotations := some (dictUpdate argoCdAnnotations (b.buildPodAnnotations lib user))
          containers := [⟨"notebook", some ⟨user.uid, user.gid⟩⟩] } }

/-! ### Reading back -/

/-- The exact value of a number. -/
def exactValue : FloatValue → Option ℚ
  | .finite x => some x
  | _ => none

/-- `ResourceQuantity(cpu=cpu, memory=memory)` -/
def acceptQuantity (cpu : ℚ) (memory : ℤ) : Option ResourceQuantity := do
  let q ← (validateQuantity lib.numerals cpu memory).toOption
  let cpu ← exactValue q.1
  some ⟨cpu, q.2⟩

/-- Two amounts of a dictionary, as a `ResourceQuantity`. -/
def readQuantity (data : List (String × String)) (cpu memory : String) : Option ResourceQuantity := do
  let cpu ← (data.lookup cpu).bind fun text ↦ floatPadded text.toList
  let memory ← (data.lookup memory).bind fun text ↦ intOf (strip text.toList)
  let cpu ← exactValue cpu
  acceptQuantity lib cpu memory

/-- What a loop over a JSON value goes through. -/
def jsonElements : Json → Option (List Json)
  | .array elements => some elements
  | .string s => some (s.toList.map fun c ↦ .string (String.singleton c))
  | .object items => some (items.map fun p ↦ .string p.1)
  | _ => none

/-- The groups that an annotation stands for. -/
def readGroups (text : String) : Option (List UserGroup) :=
  ((Json.loads text.toList).bind jsonElements).bind fun elements ↦ elements.mapM lib.validateGroup

/-- Recreate user group information from a pod's annotations. -/
def recreateGroups (annotations : List (String × String)) : Option (List UserGroup) :=
  readGroups lib ((annotations.lookup groupsKey).getD "[]")

/-- Recreate the user's quota information, if there is a quota. -/
def recreateQuota : Option (List (String × String)) → Option (Option ResourceQuantity)
  | none => some none
  | some hard => (readQuantity lib hard "limits.cpu" "limits.memory").map some

/-- Recreate the lab size from the resources. -/
def recreateSize (resources : LabResources) : LabSize :=
  let limits := resources.limits
  let requests := resources.requests
  ((b.config.sizes.find? fun definition ↦
    definition.resources.limits.cpu = limits.cpu ∧ definition.resources.requests.cpu = requests.cpu ∧
      definition.resources.limits.memory = limits.memory ∧
      definition.resources.requests.memory = requests.memory).map
    LabSizeDefinition.size).getD .custom

/-- The resources of a lab, from its environment. -/
def recreateResources (env : List (String × String)) : Option LabResources := do
  let limits ← readQuantity lib env "CPU_LIMIT" "MEM_LIMIT"
  let requests ← readQuantity lib env "CPU_GUARANTEE" "MEM_GUARANTEE"
  let _ ← (validateResources (.finite limits.cpu, limits.memory)
    (.finite requests.cpu, requests.memory)).toOption
  some ⟨limits, requests⟩

/-- The options of a lab, from its environment. -/
def recreateOptions (env : List (String × String)) (resources : LabResources) : Option LabOptions := do
  let image ← env.lookup "JUPYTER_IMAGE_SPEC"
  some
    { size := b.recreateSize resources
      enableDebug := (env.lookup "DEBUG").getD "FALSE" = "TRUE"
      resetUserEnv := (env.lookup "RESET_USER_ENV").getD "FALSE" = "TRUE"
      image }

/-- The user of a lab, from its pod. -/
def recreateUser (username : String) (pod : LabPod) (container : LabContainer) : Option UserInfo := do
  let annotations ← pod.annotations
  let context ← container.securityContext
  let uid ← context.runAsUser
  let gid ← context.runAsGroup
  let groups ← recreateGroups lib annotations
  some { username, name := annotations.lookup nameKey, uid, gid, groups }

/-- Recreate user lab state from Kubernetes. -/
def recreateLabState (username : String) (objects : Option LabStateObjects) : Option LabState := do
  let objects ← objects
  let container ← objects.pod.containers.find? fun container ↦ container.name = "notebook"
  let resources ← recreateResources lib objects.envConfigMap
  let options ← b.recreateOptions objects.envConfigMap resources
  let user ← recreateUser lib username objects.pod container
  let phase ← objects.pod.phase.bind PodPhase.ofText
  let url ← b.config.buildInternalUrl username objects.envConfigMap
  let quota ← recreateQuota lib objects.quota
  some { user, options, status := .fromPhase phase, internalUrl := some url, resources, quota }

end LabBuilder

end Nublado
