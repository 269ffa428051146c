import Nublado.Images.Source
import Nublado.Lab.Manager.Calls
import Nublado.Lab.Options
import Nublado.Lab.Quantity

/-!
# A request for a lab

`createLab` is `LabManager.create_lab` from its first check to its last exception, as one call sees it.
What other calls may have changed meanwhile, at the points where it waits, is its argument
(`Encounter`); what it does to the manager's records is the subject of the manager's own model
(`Manager.Calls`), with which it shares the checks. Kubernetes and the registry are taken to answer.

`postNewLab` is the handler, which adds to some exceptions the field of the request that they are about.
-/

namespace Nublado.Lab

open Images (ImageService)

/-- The validation of a user's quota, when the state of the new lab is created. -/
def validateQuota (numerals : Numerals) : Option NotebookQuota → Except String Unit
  | none => .ok ()
  | some quota => (validateQuantity numerals quota.cpu quota.memoryBytes).map fun _ ↦ ()

/-! ### Creating the lab -/

/-- `options.image_list or options.image_dropdown` -/
def selection (options : LabRequestOptions) : Option String :=
  if truthy options.imageList then options.imageList else options.imageDropdown

/-- Determine the image to spawn. -/
def selectImage (service : ImageService) (options : LabRequestOptions) :
    Except SelectionError Images.RSPImage :=
  if truthy (selection options) then do
    let reference ← (DockerReference.fromStr ((selection options).getD "")).mapError .valueError
    service.imageForReference reference
  else match options.imageClass with
    | some imageClass => service.imageForClass imageClass
    | none =>
      if truthy options.imageTag then service.imageForTagName (options.imageTag.getD "")
      else .error (.runtimeError "Unhandled case in image selection")

section SelectImage

variable {service : ImageService} {options : LabRequestOptions}

theorem selectImage_reference {s : String} (h : selection options = some s)
    (hs : truthy (some s) = true) :
    selectImage service options =
      (DockerReference.fromStr s).mapError .valueError >>= service.imageForReference := by
  rw [selectImage, h, if_pos hs]
  rfl

theorem selectImage_class {c : ImageClass} (h : truthy (selection options) = false)
    (hc : options.imageClass = some c) :
    selectImage service options = service.imageForClass c := by
  rw [selectImage, h, if_neg Bool.false_ne_true, hc]

theorem selectImage_tag {s : String} (h : truthy (selection options) = false)
    (hc : options.imageClass = none) (ht : options.imageTag = some s)
    (hs : truthy (some s) = true) :
    selectImage service options = service.imageForTagName s := by
  rw [selectImage, h, if_neg Bool.false_ne_true, hc, ht]
  exact if_pos hs

end SelectImage

/-- What a call of `create_lab` comes upon. -/
structure Encounter where
  /-- The image service, when the image is chosen. -/
  service : ImageService
  /-- The user's lab, when the image is known. -/
  recorded : Option LabState
  /-- The phase of the user's pod, if there is a pod. -/
  phase : Option PodPhase
  /-- The operation in progress and the user's lab at the last check, unless the user has no record. -/
  current : Option (Option LabOperation × Option LabState)
  /-- An operation has begun while the call was waiting for the monitor. -/
  overtaken : Bool

/-- The exceptions that `create_lab` raises. -/
inductive CreateError
  | selection (x : SelectionError)
  | lab (x : LabException)
  /-- The validation library's exception. -/
  | validation (message : String)
  deriving DecidableEq

/-- The lab state as Kubernetes knows it: a missing pod makes the lab failed, and a lab that was running
has the status of its pod. -/
def labStateFromKubernetes (recorded : Option LabState) (phase : Option PodPhase) :
    Option LabState :=
  recorded.map fun state ↦
    match phase with
    | none => { state with status := .failed }
    | some p =>
      if state.status = .running then { state with status := LabStatus.fromPhase p } else state

/-- The last part of `create_lab`, when everything else is known. -/
def createStart (numerals : Numerals) (d : CreateData) (e : Encounter) : Except CreateError Unit :=
  let username := d.user.username
  let state := labStateFromKubernetes e.recorded e.phase
  let deleteFirst := state.any fun state ↦ !state.isRunning
  match e.current with
  | none => .error (.lab (.keyError username))
  | some (some operation, _) =>
    .error (.lab (.operationConflict
      ("Operation in progress for " ++ username ++ ": " ++ operation.value)))
  | some (none, lab) =>
    if lab.isSome && !deleteFirst then
      .error (.lab (.labExists ("Lab already exists for " ++ username)))
    else do
      -- creating the new lab's state validates the quota
      let _ ← (validateQuota numerals d.quota).mapError .validation
      if e.overtaken then .error (.lab (.operationConflict username)) else .ok ()

/-- Create a lab, as far as the monitor taking over. -/
def createLab (numerals : Numerals) (config : LabConfig) (user : GafaelfawrUser)
    (spec : LabSpecification) (e : Encounter) : Except CreateError Unit := do
  (ManagerState.createAllowed user).mapError .lab
  let image ← (selectImage e.service spec.options).mapError .selection
  let d ← (ManagerState.createResources config user spec ⟨image.referenceWithDigest⟩).mapError .lab
  createStart numerals d e

/-- The field of the request that an exception is about, according to the handler or to the exception
itself. -/
def fieldPath (options : LabRequestOptions) : CreateError → Option (List String)
  | .lab (.insufficientQuota _) | .lab (.invalidLabSize _) => some ["options", "size"]
  | .selection (.invalidDockerReference _) | .selection (.unknownDockerImage _) =>
    some ["options", options.imageAttribute.name]
  | _ => none

/-- Create a lab for the user named in the route. Exceptions come with the field they are about. -/
def postNewLab (numerals : Numerals) (config : LabConfig) (username : String)
    (spec : LabSpecification) (user : GafaelfawrUser) (e : Encounter) :
    Except (CreateError × Option (List String)) Unit :=
  if username ≠ user.username then
    .error (.lab (.permissionDenied "Permission denied"), none)
  else (createLab numerals config user spec e).mapError fun x ↦ (x, fieldPath spec.options x)

end Nublado.Lab
