import Nublado.Lab.Manager.Step
import Nublado.Lab.Properties.Options

/-!
# How a request for a lab fails

What `createLab` raises, when neither the registry nor Kubernetes fails. Each part of it has its
exceptions: the first checks refuse permission, the choice of the image refuses a reference, the lookup
of the size refuses a size or a quota, and the last checks find an operation or a lab. `answered_of_error`
puts them together. All of them are answers to the client, with two exceptions that have other
reasons: a text that is no Docker reference, and a quota that is no amount of resources. They are left
out here, and so is the `KeyError` of a user whose record is gone because the monitors are being stopped.

A reference without a tag is refused only where a tag is needed: `untagged_eq_ok` says that the digest of
an image that the source knows will do.
-/

namespace Nublado.Lab

open Images (ImageService ImageSource RSPImageCollection)
open ManagerState (createAllowed createResources)
open LabRequestOptions

/-! ### The exceptions of each part -/

/-- The exceptions that `create_lab` documents. -/
inductive CreateError.Documented : CreateError → Prop
  | invalidDockerReference (message : String) :
      Documented (.selection (.invalidDockerReference message))
  | invalidLabSize (size : LabSize) : Documented (.lab (.invalidLabSize size))
  | labExists (message : String) : Documented (.lab (.labExists message))
  | operationConflict (message : String) : Documented (.lab (.operationConflict message))
  | permissionDenied (message : String) : Documented (.lab (.permissionDenied message))

/-- The other exceptions that the handler of the request turns into an answer about a field. -/
inductive CreateError.Handled : CreateError → Prop
  | unknownDockerImage (message : String) : Handled (.selection (.unknownDockerImage message))
  | insufficientQuota (message : String) : Handled (.lab (.insufficientQuota message))

section Parts

variable {config : LabConfig} {user : GafaelfawrUser} {spec : LabSpecification}

/-- The first checks raise nothing but a refusal of permission. -/
theorem permissionDenied_of_createAllowed {x : LabException}
    (h : createAllowed user = .error x) : ∃ message, x = .permissionDenied message := by
  unfold createAllowed at h
  split at h
  · exact ⟨_, (Except.error.inj h).symm⟩
  · split at h
    · exact ⟨_, (Except.error.inj h).symm⟩
    · split at h
      · exact ⟨_, (Except.error.inj h).symm⟩
      · cases h

/-- The lookup of the size refuses the size or the quota. -/
theorem cases_of_createResources {image : RSPImage} {x : LabException}
    (h : createResources config user spec image = .error x) :
    x = .invalidLabSize spec.options.size ∨ ∃ message, x = .insufficientQuota message := by
  unfold createResources at h
  split at h
  · exact .inl (Except.error.inj h).symm
  · dsimp only at h
    split at h
    · exact .inr ⟨_, (Except.error.inj h).symm⟩
    · cases h

/-- What goes on to the last checks is about the user and has the user's quota. -/
theorem user_of_createResources {image : RSPImage} {d : CreateData}
    (h : createResources config user spec image = .ok d) : d.user = user ∧ d.quota = user.quota := by
  unfold createResources at h
  split at h
  · cases h
  · dsimp only at h
    split at h
    · cases h
    · obtain rfl := Except.ok.inj h
      exact ⟨rfl, rfl⟩

/-- Accepted options whose reference can be parsed raise nothing but refusals. -/
theorem refuses_of_selectImage {service : ImageService} {options : LabRequestOptions}
    (h : options.Accepted)
    (hparsed : ∀ s, selection options = some s → truthy (some s) = true →
      ∃ reference, DockerReference.fromStr s = .ok reference)
    {x : SelectionError} (hx : selectImage service options = .error x) : x.Refuses := by
  obtain ⟨value, hvalue, -⟩ := exists_of_isSet h.isSet_imageAttribute
  rcases (selectImage_chooses h hvalue).refuses hx with hrefuses | ⟨message, rfl⟩
  · exact hrefuses
  · -- it is the parser's exception
    rcases hset : truthy (selection options) with _ | _
    · rw [selectImage, hset, if_neg Bool.false_ne_true] at hx
      split at hx
      · cases service.refuses_of_class hx
      · split at hx
        · cases service.refuses_of_tagName hx
        · cases hx
    · obtain ⟨s, hs⟩ : ∃ s, selection options = some s := by
        rcases hnone : selection options with _ | s
        · rw [hnone] at hset
          cases hset
        · exact ⟨s, rfl⟩
      rw [hs] at hset
      obtain ⟨reference, hreference⟩ := hparsed s hs hset
      rw [selectImage_reference hs hset, hreference] at hx
      cases service.refuses_of_reference hx

/-- The last checks find an operation or a lab, if the user's record is there and the quota is an amount
of resources. -/
theorem cases_of_createStart {numerals : Numerals} {d : CreateData} {e : Encounter}
    (hquota : validateQuota numerals d.quota = .ok ()) {x : CreateError}
    (h : createStart numerals d e = .error x) :
    x.Documented ∨ e.current = none ∧ x = .lab (.keyError d.user.username) := by
  unfold createStart at h
  dsimp only at h
  split at h
  · next hcurrent => exact .inr ⟨hcurrent, (Except.error.inj h).symm⟩
  · obtain rfl := Except.error.inj h
    exact .inl (.operationConflict _)
  · split at h
    · obtain rfl := Except.error.inj h
      exact .inl (.labExists _)
    · rw [hquota] at h
      change (if e.overtaken then _ else _) = _ at h
      split at h
      · obtain rfl := Except.error.inj h
        exact .inl (.operationConflict _)
      · cases h

end Parts
/-! ### The whole request -/

section Request

variable {numerals : Numerals} {config : LabConfig} {user : GafaelfawrUser}
  {spec : LabSpecification} {e : Encounter}

/-- The exceptions of `createLab`. -/
theorem answered_of_error (hspec : spec.options.Accepted)
    (hparsed : ∀ s, selection spec.options = some s → truthy (some s) = true →
      ∃ reference, DockerReference.fromStr s = .ok reference)
    (hquota : validateQuota numerals user.quota = .ok ()) {x : CreateError}
    (h : createLab numerals config user spec e = .error x) :
    x.Documented ∨ x.Handled ∨ e.current = none ∧ x = .lab (.keyError user.username) := by
  rw [createLab] at h
  rcases bind_eq_error.1 h with h | ⟨_, -, h⟩
  · obtain ⟨y, hy, rfl⟩ := mapError_eq_error.1 h
    obtain ⟨message, rfl⟩ := permissionDenied_of_createAllowed hy
    exact .inl (.permissionDenied message)
  rcases bind_eq_error.1 h with h | ⟨image, -, h⟩
  · obtain ⟨y, hy, rfl⟩ := mapError_eq_error.1 h
    cases refuses_of_selectImage hspec hparsed hy with
    | invalidDockerReference message => exact .inl (.invalidDockerReference message)
    | unknownDockerImage message => exact .inr (.inl (.unknownDockerImage message))
  rcases bind_eq_error.1 h with h | ⟨d, hd, h⟩
  · obtain ⟨y, hy, rfl⟩ := mapError_eq_error.1 h
    rcases cases_of_createResources hy with rfl | ⟨message, rfl⟩
    · exact .inl (.invalidLabSize _)
    · exact .inr (.inl (.insufficientQuota message))
  · obtain ⟨huser, hsame⟩ := user_of_createResources (mapError_eq_ok.1 hd)
    rw [← hsame] at hquota
    rcases cases_of_createStart hquota h with hdocumented | ⟨hnone, hx⟩
    · exact .inl hdocumented
    · rw [huser] at hx
      exact .inr (.inr ⟨hnone, hx⟩)

/-- What the choice of the image raises is what the call raises, if the user may spawn labs. -/
theorem createLab_eq_selection (hallowed : createAllowed user = .ok ()) {x : SelectionError}
    (h : selectImage e.service spec.options = .error x) :
    createLab numerals config user spec e = .error (.selection x) := by
  rw [createLab, hallowed, h]
  rfl

end Request

namespace Sample

/-- An image. -/
def weekly : Images.RSPImage :=
  { tag := "w_2023_07", imageType := .weekly, displayName := "Weekly 2023_07"
    registry := "lsst.io", repository := "lab", digest := "sha256:1234" }

/-- A collection of that image. -/
def weeklies : RSPImageCollection where
  images := .alloc .empty weekly
  byDigest digest := if digest = weekly.digest then some 0 else none
  unresolvedAliases _ := []
  collection := Images.RSPImageTagCollection.empty.insert (fun _ ↦ weekly.toRSPImageTag) 0

/-- An image service that has that image. -/
def service : ImageService where
  source := .docker
    { registry := "lsst.io", repository := "lab", tags := .empty, images := weeklies
      getImageDigest := fun _ ↦ weekly.digest }
  toPrepull := weeklies
  recommendedTag := "recommended"

/-- There is nothing in the way of a new lab. -/
def clear : Encounter where
  service := service
  recorded := none
  phase := none
  current := some (none, none)
  overtaken := false

/-- A user with a quota. -/
def limited (cpu : ℚ) : GafaelfawrUser :=
  { user with quota := some { cpu, memoryBytes := 4 } }

/-- The texts of one amount. -/
def numerals : Numerals where
  floatText _ := "4.0".toList
  parseBytes _ := .ok 4

/-- A request for an image by its reference. -/
def byReference (reference : String) : LabSpecification :=
  { spec with options := { size := .small, imageList := some reference } }

end Sample

end Nublado.Lab
