import Nublado.Foundations.Dict
import Nublado.Foundations.Except

/-!
# The storage layer for file servers

`FileserverStorage.read_fileserver_state`, which finds out at the start of a reconciliation which file
servers there are. It lists the jobs, and reads for the first job of each user its pod and its
ingress.

A `Cluster` is what there is in the namespace of the file servers, and which calls of the API fail. Of
an object only its name and its labels are kept.

## The local variables of the loop

`ReadLoop` has the map of what was found, and `pod`. The latter is not reset by an iteration: where
there are several pods for a job it keeps the value it had, and it has none before the first
assignment.
-/

namespace Nublado.Fileserver

/-- The labels of an object. -/
abbrev Labels := List (String × String)

structure V1Job where
  name : String
  labels : Labels
  deriving DecidableEq

structure V1Pod where
  name : String
  labels : Labels
  deriving DecidableEq

structure V1Ingress where
  name : String
  deriving DecidableEq

/-- What there is of a file server. -/
structure FileserverStateObjects where
  job : V1Job
  pod : Option V1Pod
  ingress : Option V1Ingress
  deriving DecidableEq

/-- The calls of the API. -/
inductive ApiCall
  | listJobs
  | listPods (job : String)
  | readIngress (name : String)
  deriving DecidableEq

/-- Why a call of the API fails. -/
inductive ApiError
  | kubernetes
  | timeout
  deriving DecidableEq

/-- What there is in the namespace. -/
structure Cluster where
  /-- The jobs, in the order in which they are listed. -/
  jobs : List V1Job
  pods : List V1Pod
  ingresses : List V1Ingress
  /-- The calls that fail. -/
  fails : ApiCall → Option ApiError := fun _ ↦ none

/-- The exceptions of this module. -/
inductive ReadError
  | api (e : ApiError)
  | duplicateObject
  /-- A local variable is read that has no value. -/
  | unboundLocal
  deriving DecidableEq

/-- The user that a job is labelled with. -/
def V1Job.user (job : V1Job) : Option String :=
  (job.labels.lookup "nublado.lsst.io/user").filter (· ≠ "")

/-- The local variables of the loop. -/
structure ReadLoop where
  state : List (String × FileserverStateObjects) := []
  /-- The variable `pod`, once it has a value. -/
  pod : Option (Option V1Pod) := none
  deriving DecidableEq

namespace Cluster

variable (k : Cluster)

/-- The result of a call of the API. -/
def call {α : Type} (c : ApiCall) (result : α) : Except ReadError α :=
  match k.fails c with
  | some e => .error (.api e)
  | none => .ok result

/-- The jobs of file servers. -/
def fileserverJobs : List V1Job :=
  k.jobs.filter fun job ↦ job.labels.lookup "nublado.lsst.io/category" = some "fileserver"

/-- The pods of a job. -/
def podsOf (name : String) : List V1Pod :=
  k.pods.filter fun pod ↦ pod.labels.lookup "job-name" = some name

/-- The ingress of a name. -/
def ingressOf (name : String) : Option V1Ingress :=
  k.ingresses.find? fun ingress ↦ ingress.name = name

/-- `_get_pod_for_job` -/
def getPodForJob (name : String) : Except ReadError (Option V1Pod) :=
  (k.call (.listPods name) (k.podsOf name)).bind fun pods ↦
    match pods with
    | [] => .ok none
    | [pod] => .ok (some pod)
    | _ => .error .duplicateObject

/-- The pod of a job; several are ignored. -/
def readPod (loop : ReadLoop) (job : V1Job) : Except ReadError ReadLoop :=
  match k.getPodForJob job.name with
  | .ok pod => .ok { loop with pod := some pod }
  | .error .duplicateObject => .ok loop
  | .error e => .error e

/-- The objects of one job, which is the first of its user. -/
def readObjects (loop : ReadLoop) (username : String) (job : V1Job) : Except ReadError ReadLoop :=
  (k.readPod loop job).bind fun loop ↦
    (k.call (.readIngress job.name) (k.ingressOf job.name)).bind fun ingress ↦
      match loop.pod with
      | none => .error .unboundLocal
      | some pod => .ok { loop with state := loop.state ++ [(username, ⟨job, pod, ingress⟩)] }

/-- One iteration: jobs without a user and further jobs of a user are ignored. -/
def readJob (loop : ReadLoop) (job : V1Job) : Except ReadError ReadLoop :=
  match job.user with
  | none => .ok loop
  | some username =>
    if (loop.state.lookup username).isSome then .ok loop else k.readObjects loop username job

/-- The state of all file servers, by user. -/
def readFileserverState : Except ReadError (List (String × FileserverStateObjects)) :=
  (k.call .listJobs k.fileserverJobs).bind fun jobs ↦
    (jobs.foldlM k.readJob {}).bind fun loop ↦ .ok loop.state

end Cluster

end Nublado.Fileserver
