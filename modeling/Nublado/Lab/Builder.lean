import Nublado.Foundations.Dict
import Nublado.Lab.Models

/-!
# Building a lab's pod

The part of `LabBuilder` that decides which volumes a lab's pod has, where its containers mount them, and
what is in the config map that configured files are mounted from. Each volume that the controller adds by
itself is built together with its mount (`MountedVolume`); the volumes of the configuration and their
mounts come from two lists of it.

The name of a file's volume and the key of its contents are both made from the last component of the
file's path. Whatever else is in the pod and its containers is left out, and sizes are exact.
-/

namespace Nublado

/-! ### What the configuration is checked for -/

/-- Paths within the lab that are reserved for special purposes. -/
def reservedPaths : List String := ["/etc/group", "/etc/passwd", "/tmp"]

/-- Reject reserved paths. -/
def rejectReservedPaths (v : String) : Except String String :=
  if v ∈ reservedPaths then .error ("Cannot mount volume over " ++ v) else .ok v

/-- Whether a text matches the pattern for Kubernetes names. -/
def isKubernetesName (s : String) : Bool :=
  let inside := fun c : Char ↦ c.isLower || c.isDigit
  s.toList.head?.any inside && s.toList.getLast?.any inside &&
    s.toList.all fun c ↦ inside c || c == '-'

/-- Secret keys are distinct and not reserved; `keys` are those seen so far. -/
def validateSecrets : List LabSecret → List String → Except String Unit
  | [], _ => .ok ()
  | secret :: secrets, keys =>
    if secret.secretKey = "token" then
      .error "secret_key \"token\" is reserved and may not be used"
    else if secret.secretKey ∈ keys then .error ("Duplicate secret_key " ++ secret.secretKey)
    else validateSecrets secrets (secret.secretKey :: keys)

/-- The mounted volumes are among the given ones. -/
def validateMounts (volumes : List String) : List VolumeMountConfig → Except String Unit
  | [] => .ok ()
  | mount :: mounts =>
    if mount.volumeName ∉ volumes then .error ("Unknown mounted volume " ++ mount.volumeName)
    else validateMounts volumes mounts

namespace LabConfig

/-- Mounted volumes are defined, and there is a home volume. -/
def validateVolumes (config : LabConfig) : Except String Unit := do
  let volumes := config.volumes.map VolumeConfig.name
  validateMounts volumes config.volumeMounts
  validateMounts volumes (config.initContainers.flatMap LabInitContainer.volumeMounts)
  if config.homeVolumeName ∉ volumes then .error "A home volume is required" else .ok ()

/-- The validators let the configuration through. -/
structure Accepted (config : LabConfig) : Prop where
  names : ∀ v ∈ config.volumes, isKubernetesName v.name = true
  mounts : ∀ m ∈ config.volumeMounts ++ config.initContainers.flatMap LabInitContainer.volumeMounts,
    m.containerPath.toList.head? = some '/' ∧
      rejectReservedPaths m.containerPath = .ok m.containerPath
  files : ∀ f ∈ config.files, rejectReservedPaths f.1 = .ok f.1
  secrets : validateSecrets config.secrets [] = .ok ()
  volumes : config.validateVolumes = .ok ()

end LabConfig

/-! ### Kubernetes objects -/

/-- Where a key of a config map appears in a volume. -/
structure V1KeyToPath where
  mode : ℕ
  key : String
  path : String
  deriving DecidableEq

/-- Where a volume comes from. -/
inductive V1VolumeSource
  | hostPath (path : String)
  | nfs (path : String) (readOnly : Bool) (server : String)
  | persistentVolumeClaim (claimName : String) (readOnly : Bool)
  | configMap (name : String) (items : Option (List V1KeyToPath))
  | secret (secretName : String)
  | emptyDir (medium : Option String) (sizeLimit : String)
  /-- Fields of the resources of a container, with the files they appear in. -/
  | downwardAPI (containerName : String) (items : List (String × String))
  deriving DecidableEq

/-- A volume of a pod. -/
structure V1Volume where
  name : String
  source : V1VolumeSource
  deriving DecidableEq

/-- A mount of a volume in a container. -/
structure V1VolumeMount where
  mountPath : String
  name : String
  readOnly : Bool
  subPath : Option String := none
  deriving DecidableEq

/-- A volume along with its corresponding mount. -/
structure MountedVolume where
  volume : V1Volume
  volumeMount : V1VolumeMount
  deriving DecidableEq

/-- A config map. -/
structure V1ConfigMap where
  name : String
  data : List (String × String)
  deriving DecidableEq

/-- A container of a pod. -/
structure V1Container where
  name : String
  volumeMounts : List V1VolumeMount
  deriving DecidableEq

/-- A pod. -/
structure V1Pod where
  initContainers : List V1Container
  containers : List V1Container
  volumes : List V1Volume
  deriving DecidableEq

/-! ### Names made from paths -/

/-- `Path(path).name`: the last component of a path. Empty components and dots are no components. -/
def pathName (path : String) : String :=
  String.ofList (((path.toList.splitOn '/').filter fun c ↦ c ≠ [] ∧ c ≠ ['.']).getLastD [])

/-- `re.sub(r"[_.]", "-", name)` -/
def dashed (name : String) : String :=
  String.ofList (name.toList.map fun c ↦ if c = '_' ∨ c = '.' then '-' else c)

/-- The key of a file's contents, and the name of its volume. -/
def fileKey (path : String) : String := dashed (pathName path)

/-! ### Volumes -/

namespace VolumeBuilder

/-- Construct volume mounts for configured volumes. -/
def buildMounts (mounts : List VolumeMountConfig) : List V1VolumeMount :=
  mounts.map fun m ↦
    { name := m.volumeName, mountPath := m.containerPath, subPath := m.subPath
      readOnly := m.readOnly }

/-- Construct volumes for configured volumes. -/
def buildVolumes (volumes : List VolumeConfig) (pvcPrefix : String) : List V1Volume :=
  volumes.map fun spec ↦
    match spec.source with
    | .hostPath path => { name := spec.name, source := .hostPath path }
    | .nfs server serverPath readOnly =>
      { name := spec.name, source := .nfs serverPath readOnly server }
    | .persistentVolumeClaim readOnly =>
      { name := spec.name
        source := .persistentVolumeClaim (pvcPrefix ++ "-pvc-" ++ spec.name) readOnly }

end VolumeBuilder

namespace LabBuilder

variable (config : LabConfig) (username : String)

/-- Build the config map holding supplemental mounted files; `discovery` is what the discovery service
says. -/
def buildFileConfigMap (discovery : String) : V1ConfigMap where
  name := username ++ "-nb-files"
  data :=
    let extraFiles := dictUpdate [] (config.files.map fun f ↦ (fileKey f.1, f.2))
    dictUpdate [("discovery-v1-json", discovery)] extraFiles

/-- Construct the mounted volume for a file from a config map. -/
def buildPodConfigMapVolume (configMap path : String) (key : Option String := none) :
    MountedVolume :=
  let subpath := pathName path
  let name := key.getD (dashed subpath)
  { volume :=
      { name
        source := .configMap configMap (some [{ mode := 0o0644, key := name, path := subpath }]) }
    volumeMount := { mountPath := path, name, readOnly := true, subPath := some subpath } }

/-- Construct the volumes that mount files from a config map. -/
def buildPodFileVolumes : List MountedVolume :=
  (config.files.map fun f ↦ buildPodConfigMapVolume (username ++ "-nb-files") f.1) ++
    [buildPodConfigMapVolume (username ++ "-nb-files") "/etc/nublado/discovery/v1.json"
      (some "discovery-v1-json")]

/-- Construct the volumes for NSS files. -/
def buildPodNssVolumes : List MountedVolume :=
  ["/etc/passwd", "/etc/group"].map fun f ↦
    buildPodConfigMapVolume (username ++ "-nb-nss") f

/-- Construct the volume that mounts the lab secrets. -/
def buildPodSecretVolume : MountedVolume where
  volume := { name := "secrets", source := .secret (username ++ "-nb") }
  volumeMount :=
    { mountPath := config.runtimeMountsDir ++ "/secrets", name := "secrets", readOnly := true }

/-- Build the volume that mounts the environment inside the pod. -/
def buildPodEnvVolume : MountedVolume where
  volume := { name := "env", source := .configMap (username ++ "-nb-env") none }
  volumeMount :=
    { mountPath := config.runtimeMountsDir ++ "/environment", name := "env", readOnly := true }

/-- Build the volume that provides a writable `/tmp`, a quarter of the memory in size. -/
def buildPodTmpVolume (memSize : ℤ) : MountedVolume where
  volume :=
    { name := "tmp"
      source := .emptyDir (if config.emptyDirSource = .memory then some "Memory" else none)
        (toString (memSize.tdiv 4)) }
  volumeMount := { mountPath := "/tmp", name := "tmp", readOnly := false }

/-- Build the volume shared between init containers and the running lab, which only reads it. -/
def buildPodStartupVolume (size : ℕ) (lab : Bool) : MountedVolume where
  volume := { name := "lab-startup", source := .emptyDir (some "Memory") (toString size) }
  volumeMount := { mountPath := "/etc/nublado/startup", name := "lab-startup", readOnly := lab }

/-- Build the volume that mounts downward API information. -/
def buildPodDownwardApiVolume : MountedVolume where
  volume :=
    { name := "runtime"
      source := .downwardAPI "notebook"
        [("limits.cpu", "limits_cpu"), ("requests.cpu", "requests_cpu"),
          ("limits.memory", "limits_memory"), ("requests.memory", "requests_memory")] }
  volumeMount :=
    { mountPath := config.runtimeMountsDir ++ "/runtime", name := "runtime", readOnly := true }

/-! ### The pod -/

/-- Construct the volumes that will be mounted by the user's pod. -/
def buildPodVolumes (mountedVolumes : List MountedVolume) : List V1Volume :=
  VolumeBuilder.buildVolumes config.volumes (username ++ "-nb") ++
    mountedVolumes.map MountedVolume.volume

/-- Construct the volume mounts for the user's pod. -/
def buildPodVolumeMounts (mountedVolumes : List MountedVolume) : List V1VolumeMount :=
  VolumeBuilder.buildMounts config.volumeMounts ++
    mountedVolumes.map MountedVolume.volumeMount ++
    config.secrets.filterMap fun spec ↦
      if truthy spec.path then
        some
          { mountPath := spec.path.getD "", name := "secrets", readOnly := true
            subPath := some spec.secretKey }
      else none

/-- An init container of the controller's own. -/
def buildNubladoInitcontainer (function : String) (mounts : List V1VolumeMount) : V1Container :=
  ⟨"nublado-std-" ++ function, mounts⟩

/-- Build init containers for the pod. -/
def buildPodInitContainers (mounts : List V1VolumeMount) : List V1Container :=
  let homeMounts := mounts.filter fun x ↦ x.name = config.homeVolumeName
  (if config.standardInithome then [buildNubladoInitcontainer "inithome" homeMounts] else []) ++
    config.initContainers.map (fun spec ↦
      ⟨spec.name, VolumeBuilder.buildMounts spec.volumeMounts⟩) ++
    (if (config.env.lookup "RSP_SITE_TYPE").getD "" = "science" then
      [buildNubladoInitcontainer "landingpage" mounts] else []) ++
    [buildNubladoInitcontainer "startup" mounts]

/-- Construct the containers for the user's lab pod. -/
def buildPodContainers (mounts : List V1VolumeMount) : List V1Container := [⟨"notebook", mounts⟩]

/-- The volumes that the controller adds, with their mounts in init containers and in the lab. -/
def sharedMountedVolumes (resources : LabResources) : List MountedVolume :=
  buildPodNssVolumes username ++ buildPodFileVolumes config username ++
    [buildPodSecretVolume config username, buildPodEnvVolume config username,
      buildPodTmpVolume config resources.limits.memory, buildPodDownwardApiVolume config]

/-- Construct the user's lab pod. The exception is a `KeyError`. -/
def buildPod (lab : LabSpecification) : Except String V1Pod :=
  match config.getSizeDefinition lab.options.size with
  | none => .error "Lab size not defined"
  | some size =>
    let shared := sharedMountedVolumes config username size.resources
    let initMountedVolumes := shared ++ [buildPodStartupVolume (640 * 1024) false]
    let labMountedVolumes := shared ++ [buildPodStartupVolume (640 * 1024) true]
    .ok
      { initContainers :=
          buildPodInitContainers config (buildPodVolumeMounts config initMountedVolumes)
        containers := buildPodContainers (buildPodVolumeMounts config labMountedVolumes)
        volumes := buildPodVolumes config username labMountedVolumes }

end LabBuilder

end Nublado
