import Mathlib.Data.Finset.Card
import Nublado.Foundations.Heap
import Nublado.Images.TagCollection

/-!
# Images and image collections

An `RSPImage` is a tag with a digest and what is known of its aliases. Images are objects that an
`RSPImageCollection` and its callers share and that the collection changes in place, so they live in a
heap and the collection holds references.

* Every method returns the new state or the exception it raises. Exceptions include the one that
  iterating over a set raises when the set grows meanwhile: `forAliases` checks for it as the
  iterator does, before every element and at the end.
* The index by digest is a dictionary. Only `subtract` visits its keys, in an order, `Digests`, that
  is a parameter.
* Collections share images. A method that makes a new collection starts from the objects as they are,
  and the state that it returns holds what it made of them.
-/

namespace Nublado.Images

/-- Exceptions that image collections can raise, with their messages. -/
inductive ImageError
  | typeError (message : String)
  | valueError (message : String)
  | runtimeError (message : String)
  deriving DecidableEq

/-- A tagged image. -/
structure RSPImage extends RSPImageTag where
  /-- Docker registry from which this image comes. -/
  registry : String
  /-- Docker repository from which this image comes. -/
  repository : String
  /-- Image digest for the image. -/
  digest : String
  /-- Size of the image in bytes if known. -/
  size : Option ℕ := none
  /-- Known aliases for this image. -/
  aliases : Finset String := ∅
  /-- The tag of the image for which this is an alias, if known. -/
  aliasTarget : Option String := none
  /-- Names of nodes on which this image is present. -/
  nodes : Finset String := ∅
  deriving DecidableEq

namespace RSPImage

instance : Inhabited RSPImage :=
  ⟨{ tag := "", imageType := .unknown, displayName := "", registry := "", repository := "",
     digest := "" }⟩

/-- Construct an image from an existing tag. -/
def fromTag (tag : RSPImageTag) (registry repository digest : String) (size : Option ℕ) : RSPImage :=
  { tag with registry, repository, digest, size }

/-- Whether this tag could be an alias. -/
def isPossibleAlias (image : RSPImage) : Bool := image.imageType.isAliasType

section Comparing

variable [Ord Version]

/-- Whether two versions that may be none are equal, which is a matter of their precedence. -/
def versionEq : Option Version → Option Version → Bool
  | none, none => true
  | some version, some version' => Ord.compare version version' == .eq
  | _, _ => false

/-- `self == other`. The class is a data class that does not define equality, and so it has the one
that compares all fields. -/
def eq (self other : RSPImage) : Bool :=
  self.tag = other.tag ∧ self.imageType = other.imageType ∧ self.displayName = other.displayName ∧
  self.base = other.base ∧ versionEq self.version other.version ∧ self.semantic = other.semantic ∧
  self.cycle = other.cycle ∧ self.cycleBuild = other.cycleBuild ∧ self.build = other.build ∧
  self.architecture = other.architecture ∧ self.extra = other.extra ∧ self.date = other.date ∧
  self.registry = other.registry ∧ self.repository = other.repository ∧
  self.digest = other.digest ∧ self.size = other.size ∧ self.aliases = other.aliases ∧
  self.aliasTarget = other.aliasTarget ∧ self.nodes = other.nodes

/-- `self < other`, which is that of the tags -/
def lt (self other : RSPImage) : Option Bool := self.toRSPImageTag.lt other.toRSPImageTag

/-- `self <= other`, which is derived from the other two -/
def le (self other : RSPImage) : Option Bool := (self.lt other).map (· || self.eq other)

end Comparing

/-- The display name of a resolved alias; `title` is `str.title`. -/
def aliasDisplayName (title : String → String) (image target : RSPImage) : String :=
  let baseDisplayName := title (replaceText (image.base.elim image.tag fun base ↦
    if base = "" then image.tag else base) "_" " ")
  -- Nested parentheses are ugly, so convert those of the target to another stanza.
  let extra :=
    if hasText target.displayName " (" then
      replaceText (replaceText target.displayName " (" ", ") ")" ""
    else target.displayName
  let extra := replaceText extra (" [" ++ image.architecture.getD "None" ++ "]") ""
  s!"{baseDisplayName} ({extra})" ++
    (image.architecture.elim "" fun arch ↦ if arch = "" then "" else s!" [{arch}]")

end RSPImage

/-- Provides operations on a collection of images, together with the image objects. -/
structure RSPImageCollection where
  /-- The image objects, in the collection or not. -/
  images : Heap RSPImage
  byDigest : String → Option ℕ
  /-- Unresolved aliases by digest. -/
  unresolvedAliases : String → List ℕ
  collection : RSPImageTagCollection ℕ

namespace RSPImageCollection

/-- The tag fields of an image object. -/
def view (c : RSPImageCollection) (i : ℕ) : RSPImageTag := (c.images i).toRSPImageTag

/-- `image.aliases.add(tag)` -/
def addAlias (c : RSPImageCollection) (i : ℕ) (tag : String) : RSPImageCollection :=
  { c with images := c.images.modify i fun image ↦
      { image with aliases := insert tag image.aliases } }

/-- `self._by_digest[digest] = image` -/
def setByDigest (c : RSPImageCollection) (digest : String) (i : ℕ) : RSPImageCollection :=
  { c with byDigest := Function.update c.byDigest digest (some i) }

/-- `self._unresolved_aliases[digest].append(image)` -/
def appendUnresolved (c : RSPImageCollection) (digest : String) (i : ℕ) : RSPImageCollection :=
  { c with unresolvedAliases :=
      Function.update c.unresolvedAliases digest (c.unresolvedAliases digest ++ [i]) }

/-- `image.resolve_alias(target)`: resolve an alias tag with information about its target. -/
def resolveAlias (title : String → String) (i target : ℕ) (c : RSPImageCollection) :
    Except ImageError RSPImageCollection :=
  if !(c.images i).isPossibleAlias then
    .error (.valueError "Can only resolve alias and unknown images")
  else
    let c := { c with images := c.images.modify i fun image ↦
      { image with
        imageType := .alias
        aliasTarget := some (c.images target).tag
        aliases := image.aliases ∪ (c.images target).aliases.erase image.tag } }
    let c := c.addAlias target (c.images i).tag
    let c := { c with images := c.images.modify i fun image ↦
      { image with
        cycle := (c.images target).cycle
        architecture := image.architecture.or (c.images target).architecture
        date := image.date.or (c.images target).date } }
    .ok { c with images := c.images.modify i fun image ↦
      { image with displayName := image.aliasDisplayName title (c.images target) } }

/-- `for alias in image.aliases: ...`, where `size` is the size of the set when the loop starts. -/
def forAliases (i size : ℕ)
    (body : String → RSPImageCollection → Except ImageError RSPImageCollection) :
    List String → RSPImageCollection → Except ImageError RSPImageCollection
  | aliases, c =>
    if (c.images i).aliases.card ≠ size then
      .error (.runtimeError "Set changed size during iteration")
    else match aliases with
      | [] => .ok c
      | name :: aliases => body name c >>= forAliases i size body aliases

variable (order : SetOrder) (title : String → String)

/-- `new` is a possible alias: resolve it as an alias of `old`, or, if `old` is a possible alias too,
mark the two as aliases of each other and add `new` to the unresolved aliases. -/
def markAlias (new old : ℕ) (c : RSPImageCollection) : Except ImageError RSPImageCollection :=
  if (c.images old).isPossibleAlias then
    .ok (((c.addAlias new (c.images old).tag).addAlias old (c.images new).tag).appendUnresolved
      (c.images new).digest new)
  else resolveAlias title new old c

/-- List a new possible alias under one of the aliases of the old image. -/
def listUnder (newTag name : String) (c : RSPImageCollection) :
    Except ImageError RSPImageCollection :=
  match c.collection.tagForTagName name with
  | none => .ok c
  | some other => .ok (if name = newTag then c else c.addAlias other newTag)

/-- Hand one of the aliases of the old image over to the new target. -/
def handOver (new : ℕ) (newTag oldTag name : String) (c : RSPImageCollection) :
    Except ImageError RSPImageCollection :=
  match c.collection.tagForTagName name with
  | none => .ok c
  | some other =>
    if name = newTag then .ok c
    else
      let c := c.addAlias new name
      if (c.images other).aliasTarget = some oldTag then
        (resolveAlias title other new c).map fun c ↦ c.addAlias other oldTag
      else .ok (c.addAlias other newTag)

/-- Handle images with the same digest; `new` will be returned for the digest and be the target of
alias tags, unless it is a possible alias. -/
def resolveDuplicate (new old : ℕ) (c : RSPImageCollection) :
    Except ImageError RSPImageCollection :=
  let newTag := (c.images new).tag
  let oldTag := (c.images old).tag
  let digest := (c.images new).digest
  if digest ≠ (c.images old).digest then
    .error (.runtimeError "Resolving duplicates with differing digests")
  else if (c.images new).isPossibleAlias then do
    let c ← markAlias title new old c
    let aliases := (c.images old).aliases
    forAliases old aliases.card (listUnder newTag) (order.toList aliases) c
  else do
    let c := c.addAlias new oldTag
    let aliases := (c.images old).aliases
    let c ← forAliases old aliases.card (handOver title new newTag oldTag) (order.toList aliases) c
    .ok ((c.addAlias old newTag).setByDigest digest new)

/-- First pass: store all images other than unresolved aliases by digest, and return the images that
may be aliases. -/
def firstPass : List ℕ → RSPImageCollection → Except ImageError (List ℕ × RSPImageCollection)
  | [], c => pure ([], c)
  | i :: rest, c => do
    if (c.images i).isPossibleAlias then
      let (unresolved, c) ← firstPass rest c
      pure (i :: unresolved, c)
    else match c.byDigest (c.images i).digest with
      | some other => resolveDuplicate order title other i c >>= firstPass rest
      | none => firstPass rest (c.setByDigest (c.images i).digest i)

/-- Second pass: add the unresolved images now that any images they alias should have been found. -/
def secondPass : List ℕ → RSPImageCollection → Except ImageError RSPImageCollection
  | [], c => pure c
  | i :: rest, c => do
    let digest := (c.images i).digest
    match c.byDigest digest with
    | some other => resolveDuplicate order title i other c >>= secondPass rest
    | none =>
      secondPass rest ((c.appendUnresolved digest i).setByDigest digest i)

variable [Ord Version]

/-- Rebuild the tag collection from the images. -/
def reindexTags (images : List ℕ) (c : RSPImageCollection) : Except ImageError RSPImageCollection :=
  match RSPImageTagCollection.init c.view images with
  | none => .error (.typeError "'<' not supported between instances of 'RSPImage' and 'RSPImage'")
  | some collection => .ok { c with collection }

/-- Replace the contents of the collection with the provided images. -/
def replaceContents (images : List ℕ) (cycle : Option ℕ) (c : RSPImageCollection) :
    Except ImageError RSPImageCollection := do
  let c := { c with byDigest := fun _ ↦ none, unresolvedAliases := fun _ ↦ [] }
  let images := images.filter fun i ↦ cycle = none ∨ (c.images i).cycle = cycle
  let c ← reindexTags images c
  let (unresolved, c) ← firstPass order title images c
  let c ← secondPass order title unresolved c
  -- The types of images may have changed, which affects the indexing.
  reindexTags images c

/-- The constructor, with the image objects there are. -/
def init (heap : Heap RSPImage) (images : List ℕ) (cycle : Option ℕ := none) :
    Except ImageError RSPImageCollection :=
  replaceContents order title images cycle ⟨heap, fun _ ↦ none, fun _ ↦ [], .empty⟩

omit [Ord Version] in
/-- Whether an image is not itself an alias and one of its aliases in the collection is an alias
image that points to it. -/
def isImageAliased (c : RSPImageCollection) (i : ℕ) : Bool :=
  (c.images i).imageType ≠ .alias ∧ ∃ name ∈ (c.images i).aliases,
    ∃ other ∈ c.collection.tagForTagName name,
      (c.images other).imageType = .alias ∧ (c.images other).aliasTarget = some (c.images i).tag

omit [Ord Version] in
/-- All images in sorted order. -/
def allImages (c : RSPImageCollection) (hideAliased : Bool := false)
    (hideArchSpecific : Bool := true) (hideResolvedAliases : Bool := false) : List ℕ :=
  (c.collection.allTags c.view hideArchSpecific).filter fun i ↦
    !(hideAliased && c.isImageAliased i) &&
    !(hideResolvedAliases && ((c.images i).aliasTarget.any fun target ↦
      target ≠ "" && (c.collection.tagForTagName target).isSome))

omit [Ord Version] in
/-- The step of `add` for images that need no reindexing: resolve the image against the one found
under its digest, if any. -/
def addByDigest (i : ℕ) (c : RSPImageCollection) : Except ImageError RSPImageCollection :=
  match c.byDigest (c.images i).digest with
  | some other => resolveDuplicate order title i other c
  | none => .ok (c.setByDigest (c.images i).digest i)

/-- Add an image to the collection. -/
def add (i : ℕ) (c : RSPImageCollection) : Except ImageError RSPImageCollection := do
  let digest := (c.images i).digest
  -- A non-alias image with unresolved aliases for its digest reindexes the entire collection.
  if !(c.images i).isPossibleAlias && !(c.unresolvedAliases digest).isEmpty then
    replaceContents order title (c.allImages ++ [i]) none c
  else
    let c ← addByDigest order title i c
    match c.collection.add c.view i with
    | none => .error (.typeError "'<' not supported between instances of 'RSPImage' and 'RSPImage'")
    | some collection => .ok { c with collection }

omit [Ord Version] in
/-- Find an image by digest. -/
def imageForDigest (c : RSPImageCollection) (digest : String) : Option ℕ := c.byDigest digest

omit [Ord Version] in
/-- Find an image by tag name. -/
def imageForTagName (c : RSPImageCollection) (tag : String) : Option ℕ :=
  c.collection.tagForTagName tag

omit [Ord Version] in
/-- Get the latest image of a given type. -/
def latest (c : RSPImageCollection) (t : RSPImageType) : Option ℕ := c.collection.latest t

omit [Ord Version] in
/-- An image was seen on a node; a size of zero counts as none. -/
def seeOnNode (i : ℕ) (node : String) (imageSize : Option ℕ) (c : RSPImageCollection) :
    RSPImageCollection :=
  { c with images := c.images.modify i fun image ↦
      { image with
        nodes := insert node image.nodes
        size := match imageSize with
          | none | some 0 => image.size
          | some (n + 1) => some (n + 1) } }

omit [Ord Version] in
/-- Mark an image as seen on a node, with its aliases. -/
def markImageSeenOnNode (digest node : String) (imageSize : Option ℕ) (c : RSPImageCollection) :
    RSPImageCollection :=
  match c.byDigest digest with
  | none => c
  | some i =>
    (order.toList (c.images i).aliases).foldl (fun c name ↦
      match c.collection.tagForTagName name with
      | none => c
      | some other => c.seeOnNode other node imageSize) (c.seeOnNode i node imageSize)

/-- Return a subset of the image collection. -/
def subset (releases weeklies dailies : ℕ) (included : Finset String) (removeArchSpecific : Bool)
    (c : RSPImageCollection) : Except ImageError RSPImageCollection :=
  match c.collection.subset c.view order releases weeklies dailies included removeArchSpecific with
  | none => .error (.typeError "'<' not supported between instances of 'RSPImage' and 'RSPImage'")
  | some images => init order title c.images (images.allTags c.view false)

/-- The order of the keys of the index by digest. -/
structure Digests (c : RSPImageCollection) where
  toList : List String
  mem_toList : ∀ d, d ∈ toList ↔ (c.byDigest d).isSome
  nodup_toList : toList.Nodup

/-- Find the images in this collection missing from another one, one for each digest. -/
def subtract (c other : RSPImageCollection) (digests : c.Digests) :
    Except ImageError RSPImageCollection :=
  let present := { other with images := c.images }.allImages.map fun i ↦ (c.images i).digest
  init order title c.images ((digests.toList.filter (· ∉ present)).filterMap c.byDigest)

/-- Apply a filter policy and return the remaining images. -/
def filter (c : RSPImageCollection) (policy : ImageFilterPolicy) (ageBasis : Datetime)
    (invert : Bool := false) (removeArchSpecific : Bool := true) : Option (List ℕ) :=
  c.collection.filter c.view policy ageBasis invert removeArchSpecific

end RSPImageCollection

end Nublado.Images
