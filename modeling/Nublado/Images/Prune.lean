import Nublado.Images.Image

/-!
# Pruning a registry

The images managers for the Docker API and for Google Artifact Registry, on a registry whose content is
a list of images with their digests and tags. Deleting a digest removes the image with every tag that
points to it.

* The managers work on one image name (repository) of the registry.
* A deletion run is described by the digests deleted, in order, and by what is returned or raised.
  `DockerImagesManager.prune_images` looks the digest of every tag up again before it deletes it, and
  the look-up fails for a tag that an earlier deletion removed.
* The Docker API returns the tags as a set, whose iteration order is the `SetOrder`.
* The runs of `GARImagesManager` are described by what they ask to delete. `served` is what becomes of
  them when the registry answers the requests, one batch after the other.
-/

namespace Nublado.Images

/-- An image in a registry. -/
structure RegistryImage where
  /-- The image name, which is the last component of its URI without the digest. -/
  name : String
  digest : String
  tags : List String
  /-- Size of the image in bytes. -/
  size : Option ℕ := none
  deriving DecidableEq

/-- The content of a registry, in the order in which it lists it. -/
abbrev Registry := List RegistryImage

namespace Registry

/-- The tags of an image name with their digests. -/
def tagged (reg : Registry) (name : String) : List (String × String) :=
  (reg.filter fun image ↦ image.name = name).flatMap fun image ↦
    image.tags.map fun tag ↦ (tag, image.digest)

/-- `DockerStorageClient.list_tags` -/
def listTags (reg : Registry) (name : String) : Finset String :=
  ((reg.tagged name).map Prod.fst).toFinset

/-- `DockerStorageClient.get_image_digest`; `none` where the registry reports an error. -/
def getImageDigest (reg : Registry) (name tag : String) : Option String :=
  (reg.tagged name).lookup tag

/-- `DockerStorageClient.delete_image` -/
def deleteImage (reg : Registry) (name digest : String) : Registry :=
  reg.filter fun image ↦ ¬ (image.name = name ∧ image.digest = digest)

/-- `batch_delete_versions`, one request for several digests; `none` where the registry reports an
error, since it does not have one of them. -/
def batchDeleteVersions (reg : Registry) (name : String) (digests : List String) : Option Registry :=
  if ∀ digest ∈ digests, ∃ image ∈ reg, image.name = name ∧ image.digest = digest then
    some (digests.foldl (fun reg digest ↦ reg.deleteImage name digest) reg)
  else none

/-- Tags are nonempty, and a tag points to one digest. -/
structure WellFormed (reg : Registry) (name : String) : Prop where
  tags_nodup : ((reg.tagged name).map Prod.fst).Nodup
  tag_ne : ∀ p ∈ reg.tagged name, p.1 ≠ ""

end Registry

/-- Exceptions of a pruning run. -/
inductive PruneError
  /-- A date that a filter computes is out of range. -/
  | overflowError
  /-- The registry reports an error for a tag. -/
  | dockerError (tag : String)
  /-- An image collection raises. -/
  | imageError (error : ImageError)
  /-- Artifact Registry reports an error for a batch of digests. -/
  | googleError (digests : List String)
  deriving DecidableEq

/-- What a run of `prune_images` does and returns. -/
structure PruneRun where
  /-- The digests deleted, in order. -/
  deleted : List String
  result : Except PruneError (List String)

variable [Ord Version] (order : SetOrder) (title : String → String)

namespace DockerImagesManager

omit [Ord Version] in
/-- Delete the images of the tags; `deleted` is the record of digests processed. -/
def deleteTagged (name : String) : List String → Registry → List String → PruneRun
  | [], _, deleted => ⟨deleted, .ok []⟩
  | tag :: tags, reg, deleted =>
    match reg.getImageDigest name tag with
    | none => ⟨deleted, .error (.dockerError tag)⟩
    | some digest =>
      if digest ∈ deleted then deleteTagged name tags reg deleted
      else deleteTagged name tags (reg.deleteImage name digest) (deleted ++ [digest])

omit [Ord Version] in
/-- `DockerImagesManager.delete_tags`, which returns nothing -/
def deleteTags (name : String) : List String → Registry → PruneRun
  | [], _ => ⟨[], .ok []⟩
  | tag :: tags, reg =>
    match reg.getImageDigest name tag with
    | none => ⟨[], .error (.dockerError tag)⟩
    | some digest =>
      let run := deleteTags name tags (reg.deleteImage name digest)
      ⟨digest :: run.deleted, run.result⟩

/-- `DockerImagesManager.prune_images` -/
def pruneImages (name : String) (policy : ImageFilterPolicy) (now : Datetime) (dryRun : Bool)
    (reg : Registry) : PruneRun :=
  match (RSPImageTagCollection.fromTagNames title (order.toList (reg.listTags name))).bind
      fun c ↦ c.filter id policy now true false with
  | none => ⟨[], .error .overflowError⟩
  | some toDelete =>
    let tags := toDelete.map RSPImageTag.tag
    if dryRun then ⟨[], .ok tags⟩
    else
      let run := deleteTagged name tags reg []
      ⟨run.deleted, run.result.map fun _ ↦ tags⟩

end DockerImagesManager

namespace GARImagesManager

/-- Google rejects deletion of more images in one request. -/
def garDeleteBatchSize : ℕ := 50

omit [Ord Version] in
/-- `GARStorageClient._fetch_image_list` -/
def fetchImageList (registry path name : String) (reg : Registry) : List RSPImage :=
  (reg.filter fun image ↦ image.name = name).flatMap fun image ↦ image.tags.map fun tag ↦
    RSPImage.fromTag (.fromStr tag) registry path image.digest image.size

/-- `GARStorageClient.list_images` -/
def listImages (registry path name : String) (reg : Registry) :
    Except ImageError RSPImageCollection :=
  let images := fetchImageList registry path name reg
  RSPImageCollection.init order title (Heap.ofList images) (List.range images.length)

omit [Ord Version] in
/-- `itertools.batched`, where `batch` is the batch being filled. -/
def batched (size : ℕ) (batch : List String) : List String → List (List String)
  | [] => if batch = [] then [] else [batch]
  | name :: names =>
    if batch.length + 1 = size then (batch ++ [name]) :: batched size [] names
    else batched size (batch ++ [name]) names

omit [Ord Version] in
/-- `GARStorageClient.delete_images`: the digests deleted, request by request. -/
def deleteImages (digests : List String) : List String :=
  (batched garDeleteBatchSize [] digests).flatten

/-- `GARImagesManager.prune_images` -/
def pruneImages (registry path name : String) (policy : ImageFilterPolicy) (now : Datetime)
    (dryRun : Bool) (reg : Registry) : PruneRun :=
  match listImages order title registry path name reg with
  | .error e => ⟨[], .error (.imageError e)⟩
  | .ok c =>
    match c.filter policy now true false with
    | none => ⟨[], .error .overflowError⟩
    | some toDelete =>
      let tags := toDelete.map fun i ↦ (c.images i).tag
      let digests := toDelete.map fun i ↦ (c.images i).digest
      ⟨if dryRun then [] else deleteImages digests, .ok tags⟩

/-- `GARImagesManager.delete_tags`, which returns nothing -/
def deleteTags (registry path name : String) (tags : List String) (reg : Registry) : PruneRun :=
  match listImages order title registry path name reg with
  | .error e => ⟨[], .error (.imageError e)⟩
  | .ok c => ⟨deleteImages (tags.filterMap fun tag ↦
      (c.imageForTagName tag).map fun i ↦ (c.images i).digest), .ok []⟩

omit [Ord Version] in
/-- The requests of a run, as the registry answers them: an error ends the run. -/
def sendBatches (name : String) : List (List String) → Registry → PruneRun
  | [], _ => ⟨[], .ok []⟩
  | batch :: batches, reg =>
    match reg.batchDeleteVersions name batch with
    | none => ⟨[], .error (.googleError batch)⟩
    | some reg =>
      let run := sendBatches name batches reg
      ⟨batch ++ run.deleted, run.result⟩

omit [Ord Version] in
/-- A run whose deletions are sent to the registry. -/
def served (name : String) (reg : Registry) (run : PruneRun) : PruneRun :=
  let sent := sendBatches name (batched garDeleteBatchSize [] run.deleted) reg
  ⟨sent.deleted, sent.result.bind fun _ ↦ run.result⟩

end GARImagesManager

end Nublado.Images
