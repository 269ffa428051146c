import Nublado.Foundations.Regex
import Nublado.Images.Image
import Nublado.Lab.Models

/-!
# Image sources and the image service

Which image a lab runs is asked of the image service: by a Docker reference, by a tag, or by a class
keyword. The first two questions go to the image source, which wraps either a Docker registry or a
Google Artifact Registry; the third is answered from the images to prepull.

An answer is an image or the exception that is raised. Requests to the registry are taken to succeed:
the digest that the registry has for a tag is part of a Docker source.
-/

namespace Nublado

/-- A Docker reference, taken apart into its components. -/
structure DockerReference where
  registry : String
  repository : String
  tag : Option String
  digest : Option String
  deriving DecidableEq

namespace DockerReference

/-- `_DIGEST_REGEX` -/
def regex : Regex :=
  .group "registry" (.many (· ≠ '/') 1 true) ++
  (.char '/' ++ .group "repository" (.many (fun c ↦ c ≠ ':' ∧ c ≠ '@') 1 true)) ++
  .opt (.char ':' ++ .group "tag" (.many (· ≠ '@') 1 true)) ++
  .opt (.char '@' ++ .group "digest" (.many (· ≠ '\n') 1 true)) ++ .eol

/-- Parse a Docker reference string into its components. The exception is a `ValueError`. -/
def fromStr (reference : String) : Except String DockerReference :=
  match regex.matchStart reference.toList with
  | none => .error ("Invalid Docker reference \"" ++ reference ++ "\"")
  | some data =>
    .ok
      { registry := String.ofList ((data.lookup "registry").getD [])
        repository := String.ofList ((data.lookup "repository").getD [])
        tag := (data.lookup "tag").map String.ofList
        digest := (data.lookup "digest").map String.ofList }

/-- The text of a reference. -/
def text (reference : DockerReference) : String :=
  reference.registry ++ "/" ++ reference.repository ++
    reference.tag.elim "" (":" ++ ·) ++ reference.digest.elim "" ("@" ++ ·)

end DockerReference

/-- The exceptions that choosing an image raises, with their messages. -/
inductive SelectionError
  | valueError (message : String)
  | invalidDockerReference (message : String)
  | unknownDockerImage (message : String)
  | runtimeError (message : String)
  deriving DecidableEq

/-- The exceptions that say that the image asked for is not there, or not said. -/
inductive SelectionError.Refuses : SelectionError → Prop
  | invalidDockerReference (message : String) : Refuses (.invalidDockerReference message)
  | unknownDockerImage (message : String) : Refuses (.unknownDockerImage message)

/-- The keyword for a class of images. -/
def ImageClass.value : ImageClass → String
  | .recommended => "recommended"
  | .latestRelease => "latest-release"
  | .latestWeekly => "latest-weekly"
  | .latestDaily => "latest-daily"

namespace Images

namespace RSPImage

/-- Docker reference for an image, with the digest. -/
def referenceWithDigest (image : RSPImage) : String :=
  image.registry ++ "/" ++ image.repository ++ ":" ++ image.tag ++ "@" ++ image.digest

end RSPImage

/-- What all sources raise about a reference. -/
def notFound (reference : DockerReference) : SelectionError :=
  .unknownDockerImage ("Docker reference \"" ++ reference.text ++ "\" not found")

/-- What all sources raise about a reference that does not say which image it is. -/
def noTag (reference : DockerReference) : SelectionError :=
  .invalidDockerReference ("Docker reference \"" ++ reference.text ++ "\" has no tag")

/-- What all sources raise about a tag. -/
def tagNotFound (tagName : String) : SelectionError :=
  .unknownDockerImage ("Docker tag \"" ++ tagName ++ "\" not found")

/-- Image source using a Docker registry. -/
structure DockerImageSource where
  registry : String
  repository : String
  /-- All tags present in the registry and repository. -/
  tags : RSPImageTagCollection RSPImageTag
  /-- Tags that have been resolved to images. -/
  images : RSPImageCollection
  /-- The digest that the registry has for a tag. -/
  getImageDigest : String → String

namespace DockerImageSource

/-- Determine the image corresponding to a Docker reference. -/
def imageForReference (source : DockerImageSource) (reference : DockerReference) :
    Except SelectionError RSPImage :=
  if reference.registry ≠ source.registry ∨ reference.repository ≠ source.repository then
    .error (notFound reference)
  else match (if truthy reference.digest then reference.digest else none).bind
      source.images.imageForDigest with
    | some i => .ok (source.images.images i)
    | none =>
      -- From this point forward, the image is retrieved by tag.
      match reference.tag with
      | none => .error (noTag reference)
      | some tagName =>
        match source.images.imageForTagName tagName with
        | some i => .ok (source.images.images i)
        | none =>
          match source.tags.tagForTagName tagName with
          | none => .error (notFound reference)
          | some tag =>
            .ok (RSPImage.fromTag tag source.registry source.repository
              (if truthy reference.digest then reference.digest.getD ""
                else source.getImageDigest tagName) none)

/-- Determine the image corresponding to a tag. -/
def imageForTagName (source : DockerImageSource) (tagName : String) :
    Except SelectionError RSPImage :=
  match source.images.imageForTagName tagName with
  | some i => .ok (source.images.images i)
  | none =>
    match source.tags.tagForTagName tagName with
    | none => .error (tagNotFound tagName)
    | some tag =>
      .ok (RSPImage.fromTag tag source.registry source.repository
        (source.getImageDigest tagName) none)

/-- A Docker source raises nothing but refusals. -/
theorem refuses_of_reference {source : DockerImageSource} {reference : DockerReference}
    {x : SelectionError} (h : source.imageForReference reference = .error x) : x.Refuses := by
  unfold imageForReference at h
  split at h
  · cases h
    exact .unknownDockerImage _
  · split at h
    · cases h
    · split at h
      · cases h
        exact .invalidDockerReference _
      · split at h
        · cases h
        · split at h
          · cases h
            exact .unknownDockerImage _
          · cases h

theorem refuses_of_tagName {source : DockerImageSource} {tagName : String} {x : SelectionError}
    (h : source.imageForTagName tagName = .error x) : x.Refuses := by
  unfold imageForTagName at h
  split at h
  · cases h
  · split at h
    · cases h
      exact .unknownDockerImage _
    · cases h

end DockerImageSource

/-- Image source using a Google Artifact Registry. -/
structure GARImageSource where
  location : String
  projectId : String
  repository : String
  image : String
  /-- All available images. -/
  images : RSPImageCollection

namespace GARImageSource

/-- Hostname holding the registry. -/
def registry (source : GARImageSource) : String := source.location ++ "-docker.pkg.dev"

/-- What other Docker registries call a repository. -/
def path (source : GARImageSource) : String :=
  source.projectId ++ "/" ++ source.repository ++ "/" ++ source.image

/-- Look an image up by digest or, if there is none, by tag. -/
def lookUp (source : GARImageSource) (reference : DockerReference) :
    Except SelectionError (Option ℕ) :=
  if truthy reference.digest then
    .ok (source.images.imageForDigest (reference.digest.getD ""))
  else match reference.tag with
    | none => .error (noTag reference)
    | some tagName => .ok (source.images.imageForTagName tagName)

/-- Determine the image corresponding to a Docker reference. -/
def imageForReference (source : GARImageSource) (reference : DockerReference) :
    Except SelectionError RSPImage :=
  match source.lookUp reference with
  | .error x => .error x
  | .ok none => .error (notFound reference)
  | .ok (some i) =>
    if reference.registry ≠ source.registry ∨ reference.repository ≠ source.path then
      .error (notFound reference)
    else .ok (source.images.images i)

/-- Determine the image corresponding to a tag. -/
def imageForTagName (source : GARImageSource) (tagName : String) :
    Except SelectionError RSPImage :=
  match source.images.imageForTagName tagName with
  | none => .error (tagNotFound tagName)
  | some i => .ok (source.images.images i)

/-- A Google Artifact Registry source raises nothing but refusals. -/
theorem refuses_of_reference {source : GARImageSource} {reference : DockerReference}
    {x : SelectionError} (h : source.imageForReference reference = .error x) : x.Refuses := by
  unfold imageForReference at h
  split at h
  · next y hlookUp =>
    obtain rfl := Except.error.inj h
    unfold lookUp at hlookUp
    split at hlookUp
    · cases hlookUp
    · split at hlookUp
      · cases hlookUp
        exact .invalidDockerReference _
      · cases hlookUp
  · cases h
    exact .unknownDockerImage _
  · split at h
    · cases h
      exact .unknownDockerImage _
    · cases h

theorem refuses_of_tagName {source : GARImageSource} {tagName : String} {x : SelectionError}
    (h : source.imageForTagName tagName = .error x) : x.Refuses := by
  unfold imageForTagName at h
  split at h
  · cases h
    exact .unknownDockerImage _
  · cases h

end GARImageSource

/-- A source of remote images. -/
inductive ImageSource
  | docker (source : DockerImageSource)
  | gar (source : GARImageSource)

namespace ImageSource

/-- Determine the image corresponding to a Docker reference. -/
def imageForReference : ImageSource → DockerReference → Except SelectionError RSPImage
  | docker source, reference => source.imageForReference reference
  | gar source, reference => source.imageForReference reference

/-- Determine the image corresponding to a tag. -/
def imageForTagName : ImageSource → String → Except SelectionError RSPImage
  | docker source, tagName => source.imageForTagName tagName
  | gar source, tagName => source.imageForTagName tagName

/-- The images that a source knows. -/
def images : ImageSource → RSPImageCollection
  | docker source => source.images
  | gar source => source.images

/-- Whether a source does not take a reference at all. A Docker source looks at the registry and the
repository before anything else. -/
def TurnsAway : ImageSource → DockerReference → Prop
  | docker source, reference =>
    reference.registry ≠ source.registry ∨ reference.repository ≠ source.repository
  | gar _, _ => False

/-- **A reference without a tag** is good for an image only by the digest of one that is known. -/
theorem untagged_eq_ok {source : ImageSource} {reference : DockerReference} {image : RSPImage}
    (htag : reference.tag = none) (h : source.imageForReference reference = .ok image) :
    ∃ digest i, reference.digest = some digest ∧
      source.images.imageForDigest digest = some i ∧ image = source.images.images i := by
  rcases source with source | source
  · change source.imageForReference reference = .ok image at h
    unfold DockerImageSource.imageForReference at h
    split at h
    · cases h
    · split at h
      · next i hfound =>
        obtain ⟨digest, hdigest, hi⟩ := Option.bind_eq_some_iff.1 hfound
        split at hdigest
        · exact ⟨digest, i, hdigest, hi, (Except.ok.inj h).symm⟩
        · cases hdigest
      · rw [htag] at h
        cases h
  · change source.imageForReference reference = .ok image at h
    unfold GARImageSource.imageForReference at h
    split at h
    · cases h
    · cases h
    · next i hlookUp =>
      split at h
      · cases h
      · unfold GARImageSource.lookUp at hlookUp
        rw [htag] at hlookUp
        split at hlookUp
        · rcases hdigest : reference.digest with _ | digest
          · simp [hdigest, truthy] at *
          · rw [hdigest] at hlookUp
            exact ⟨digest, i, rfl, Except.ok.inj hlookUp, (Except.ok.inj h).symm⟩
        · cases hlookUp

/-- **A reference without a tag or a digest** does not say which image it is. -/
theorem untagged_eq_noTag {source : ImageSource} {reference : DockerReference}
    (htag : reference.tag = none) (hdigest : reference.digest = none)
    (htaken : ¬ source.TurnsAway reference) :
    source.imageForReference reference = .error (noTag reference) := by
  have hfalsy : truthy reference.digest = false := by rw [hdigest]; rfl
  rcases source with source | source
  · have hhere : ¬ (reference.registry ≠ source.registry ∨
        reference.repository ≠ source.repository) := htaken
    show source.imageForReference reference = _
    rw [DockerImageSource.imageForReference, if_neg hhere, hfalsy, if_neg Bool.false_ne_true, htag]
    rfl
  · show source.imageForReference reference = _
    rw [GARImageSource.imageForReference, GARImageSource.lookUp, hfalsy,
      if_neg Bool.false_ne_true, htag]

end ImageSource

/-- Service to track the available images for labs. -/
structure ImageService where
  source : ImageSource
  /-- Images that should be prepulled. -/
  toPrepull : RSPImageCollection
  recommendedTag : String

namespace ImageService

/-- Determine the image by class keyword. Only prepulled images can be found so. -/
def imageForClass (service : ImageService) (imageClass : ImageClass) :
    Except SelectionError RSPImage :=
  let found := fun (i : Option ℕ) (message : String) ↦
    match i with
    | none => Except.error (SelectionError.unknownDockerImage message)
    | some i => .ok (service.toPrepull.images i)
  let message := "No " ++ imageClass.value ++ " image found"
  match imageClass with
  | .recommended =>
    found (service.toPrepull.imageForTagName service.recommendedTag) message
  | .latestRelease => found (service.toPrepull.latest .release) message
  | .latestWeekly => found (service.toPrepull.latest .weekly) message
  | .latestDaily => found (service.toPrepull.latest .daily) message

/-- Determine the image corresponding to a Docker reference. -/
def imageForReference (service : ImageService) (reference : DockerReference) :
    Except SelectionError RSPImage :=
  service.source.imageForReference reference

/-- Determine the image corresponding to a tag. -/
def imageForTagName (service : ImageService) (tagName : String) : Except SelectionError RSPImage :=
  service.source.imageForTagName tagName

/-- The image service raises nothing but refusals. -/
theorem refuses_of_reference {service : ImageService} {reference : DockerReference}
    {x : SelectionError} (h : service.imageForReference reference = .error x) : x.Refuses := by
  rw [imageForReference] at h
  rcases hsource : service.source with source | source
  · rw [hsource] at h
    exact source.refuses_of_reference h
  · rw [hsource] at h
    exact source.refuses_of_reference h

theorem refuses_of_tagName {service : ImageService} {tagName : String} {x : SelectionError}
    (h : service.imageForTagName tagName = .error x) : x.Refuses := by
  rw [imageForTagName] at h
  rcases hsource : service.source with source | source
  · rw [hsource] at h
    exact source.refuses_of_tagName h
  · rw [hsource] at h
    exact source.refuses_of_tagName h

theorem refuses_of_class {service : ImageService} {c : ImageClass} {x : SelectionError}
    (h : service.imageForClass c = .error x) : x.Refuses := by
  cases c <;>
  · simp only [imageForClass] at h
    split at h
    · cases h
      exact .unknownDockerImage _
    · cases h

end ImageService

end Images

end Nublado
