import Nublado.Images.Source
import Nublado.Lab.Objects
import Nublado.Lab.Options

/-!
# The spawn form, from the client to the controller

A client says which image it wants as one of three kinds of `NubladoImage`, turns that into the data of
JupyterHub's spawn form and posts it. JupyterHub makes a list of each submitted field, and the spawner
passes those on to the controller, which reads them as `LabRequestOptions`.

The names of fields, sizes and classes are written down on both sides. What the controller should make
of them is `NubladoImage.options`.
-/

namespace Nublado.Client

/-! ### What a client asks for -/

/-- Acceptable sizes of images to spawn. -/
inductive NubladoImageSize
  | fine | diminutive | tiny | small | medium | large | huge | gargantuan | colossal
  deriving DecidableEq

/-- The name of a size in the client. -/
def NubladoImageSize.value : NubladoImageSize → String
  | .fine => "Fine"
  | .diminutive => "Diminutive"
  | .tiny => "Tiny"
  | .small => "Small"
  | .medium => "Medium"
  | .large => "Large"
  | .huge => "Huge"
  | .gargantuan => "Gargantuan"
  | .colossal => "Colossal"

/-- The ways of selecting an image by its class. -/
inductive NubladoImageClass
  | recommended | latestRelease | latestWeekly | latestDaily
  deriving DecidableEq

/-- The name of a class in the client. -/
def NubladoImageClass.value : NubladoImageClass → String
  | .recommended => "recommended"
  | .latestRelease => "latest-release"
  | .latestWeekly => "latest-weekly"
  | .latestDaily => "latest-daily"

/-- What distinguishes the kinds of images. -/
inductive ImageChoice
  /-- `NubladoImageByReference` -/
  | byReference (reference : String)
  /-- `NubladoImageByTag` -/
  | byTag (tag : String)
  /-- `NubladoImageByClass` -/
  | byClass (imageClass : NubladoImageClass)
  deriving DecidableEq

/-- An image to spawn. -/
structure NubladoImage where
  choice : ImageChoice
  size : NubladoImageSize := .large
  debug : Bool := false
  deriving DecidableEq

namespace NubladoImage

variable (image : NubladoImage)

/-- Convert to data suitable for posting to Nublado's spawn form. -/
def toSpawnForm : List (String × String) :=
  let result :=
    match image.choice with
    | .byReference reference => [("image_list", reference), ("size", image.size.value)]
    | .byTag tag => [("image_tag", tag), ("size", image.size.value)]
    | .byClass imageClass => [("image_class", imageClass.value), ("size", image.size.value)]
  if image.debug then result ++ [("enable_debug", "true")] else result

end NubladoImage

/-- The options that JupyterHub makes of a submitted form: each field is a list. -/
def userOptions {Object : Type} (form : List (String × String)) : List (String × Value Object) :=
  form.map fun field ↦ (field.1, .list [.str field.2])

/-! ### What the controller should understand -/

/-- The size, by the controller's name. -/
def NubladoImageSize.toLabSize : NubladoImageSize → LabSize
  | .fine => .fine
  | .diminutive => .diminutive
  | .tiny => .tiny
  | .small => .small
  | .medium => .medium
  | .large => .large
  | .huge => .huge
  | .gargantuan => .gargantuan
  | .colossal => .colossal

/-- The class, by the controller's name. -/
def NubladoImageClass.toImageClass : NubladoImageClass → ImageClass
  | .recommended => .recommended
  | .latestRelease => .latestRelease
  | .latestWeekly => .latestWeekly
  | .latestDaily => .latestDaily

namespace NubladoImage

variable (image : NubladoImage)

/-- The options that say the same. -/
def options : LabRequestOptions where
  size := image.size.toLabSize
  enableDebug := image.debug
  imageList :=
    match image.choice with
    | .byReference reference => some reference
    | .byTag _ | .byClass _ => none
  imageClass :=
    match image.choice with
    | .byClass imageClass => some imageClass.toImageClass
    | .byReference _ | .byTag _ => none
  imageTag :=
    match image.choice with
    | .byTag tag => some tag
    | .byReference _ | .byClass _ => none

/-- The option that is used for the kind of image. -/
def imageAttribute : ImageAttribute :=
  match image.choice with
  | .byReference _ => .imageList
  | .byTag _ => .imageTag
  | .byClass _ => .imageClass

/-- The value of that option. -/
def value : ImageValue :=
  match image.choice with
  | .byReference reference => .text reference
  | .byTag tag => .text tag
  | .byClass imageClass => .imageClass imageClass.toImageClass

/-- The client names an image: no text is empty, and the reference is not the value that defers to the
dropdown menu of the form. -/
def Names : Prop := image.value.truthy = true ∧ image.choice ≠ .byReference dropdownSentinelValue

instance : Decidable image.Names := by
  unfold Names
  infer_instance

end NubladoImage

/-- What the runtime does with texts: `str` fields keep them, enumerations are read by their values,
and ASCII letters are made lower case. -/
structure ReadsText {Object : Type} (runtime : Runtime Object) : Prop where
  string : ∀ s, runtime.string (.str s) = .ok s
  labSize : ∀ size : LabSize, runtime.labSize (.str size.value) = .ok size
  imageClass : ∀ c : ImageClass, runtime.imageClass (.str c.value) = .ok c
  lower : ∀ s : String, (∀ c ∈ s.toList, c.toNat < 128) →
    runtime.lower s = String.ofList (s.toList.map Char.toLower)

end Nublado.Client
