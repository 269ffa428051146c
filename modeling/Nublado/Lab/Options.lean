import Mathlib.Data.List.Sort
import Nublado.Lab.Models

/-!
# Reading the options of a request

`LabRequestOptions` is read from a mapping of option names to values, which is either what an API client
sends or what JupyterHub received from its form, where every value is a list. `validateLists` takes the
lists off, the fields are validated one by one, and `validateOneImage` makes sure that the image is
specified in one way.

Validators of this class are here. Those that the validation library has for the types of the fields are
parameters, and so are the language's own conversions of text (`Runtime`). The library collects the
errors of all fields, and prefixes the message of a validator that raises a `ValueError`.
-/

namespace Nublado

/-- A value in a request. The class distinguishes some kinds of values; the rest are `other`. -/
inductive Value (Object : Type)
  | null
  | bool (b : Bool)
  | str (s : String)
  | list (l : List (Value Object))
  | size (size : LabSize)
  | other (o : Object)

/-- An error of the validation: the field it is about, if any, and a message. -/
structure FieldError where
  field : Option String
  message : String
  deriving DecidableEq

/-- What the class relies on. -/
structure Runtime (Object : Type) where
  /-- `str`, as it is used in messages -/
  text : Value Object → String
  /-- `str.lower` -/
  lower : String → String
  /-- Validation of a field whose type is `str`. -/
  string : Value Object → Except String String
  /-- Validation of a field whose type is `LabSize`. -/
  labSize : Value Object → Except String LabSize
  /-- Validation of a field whose type is `ImageClass`. -/
  imageClass : Value Object → Except String ImageClass

variable {Object : Type}

/-- The error of a validator that raises a `ValueError`. -/
def valueError (field : Option String) (message : String) : FieldError :=
  ⟨field, "Value error, " ++ message⟩

/-- The value of an option without the list around it, if there is a value. -/
def unwrap (key : String) : Value Object → Except FieldError (Option (Value Object))
  | .null | .list [] => .ok none
  | .list [value] => .ok (some value)
  | .list _ => .error (valueError none ("Too many values for " ++ key))
  | value => .ok (some value)

/-- Convert from lists of length one to values. -/
def validateLists :
    List (String × Value Object) → Except FieldError (List (String × Value Object))
  | [] => .ok []
  | (key, value) :: data => do
    let value ← unwrap key value
    let newData ← validateLists data
    .ok (value.elim newData fun value ↦ (key, value) :: newData)

/-- Convert boolean values from strings. -/
def validateBooleans (runtime : Runtime Object) : Value Object → Except String Bool
  | .bool b => .ok b
  | .str "true" => .ok true
  | .str "false" => .ok false
  | value => .error ("Value error, Invalid boolean value " ++ runtime.text value)

/-- Lab sizes may be title-cased, so convert them to lowercase. -/
def validateSize (runtime : Runtime Object) : Value Object → Except String LabSize
  | .str s => runtime.labSize (.str (runtime.lower s))
  | value => runtime.labSize value

/-- Validation of a field that may be none. -/
def validateOptional {α : Type} (validate : Value Object → Except String α) :
    Value Object → Except String (Option α)
  | .null => .ok none
  | value => (validate value).map some

/-- Validate a field, which has the default if the mapping does not mention it. -/
def validateField {α : Type} (validate : Value Object → Except String α)
    (default : Except String α) (data : List (String × Value Object)) (field : String) :
    Except (List FieldError) α :=
  (match data.lookup field with
    | none => default
    | some value => validate value).mapError fun message ↦ [⟨some field, message⟩]

/-- Go on to the next field, keeping the errors of both. -/
def andField {α β : Type} (f : Except (List FieldError) (α → β)) (x : Except (List FieldError) α) :
    Except (List FieldError) β :=
  match f, x with
  | .ok f, .ok a => .ok (f a)
  | .ok _, .error e => .error e
  | .error e, .ok _ => .error e
  | .error e, .error e' => .error (e ++ e')

/-- The ways to specify an image. -/
inductive ImageAttribute
  | imageList | imageDropdown | imageClass | imageTag
  deriving DecidableEq

/-- The name of an attribute. -/
def ImageAttribute.name : ImageAttribute → String
  | .imageList => "image_list"
  | .imageDropdown => "image_dropdown"
  | .imageClass => "image_class"
  | .imageTag => "image_tag"

/-- The value of an image attribute. -/
inductive ImageValue
  | text (s : String)
  | imageClass (c : ImageClass)
  deriving DecidableEq

/-- Whether a value counts as true. -/
def ImageValue.truthy : ImageValue → Bool
  | .text s => s ≠ ""
  | .imageClass _ => true

/-- A special value of `image_list` that defers to `image_dropdown`. -/
def dropdownSentinelValue : String := "use_image_from_dropdown"

namespace LabRequestOptions

/-- `getattr(self, attr)` -/
def getattr (options : LabRequestOptions) : ImageAttribute → Option ImageValue
  | .imageList => options.imageList.map .text
  | .imageDropdown => options.imageDropdown.map .text
  | .imageClass => options.imageClass.map .imageClass
  | .imageTag => options.imageTag.map .text

/-- Whether an image attribute is set. -/
def isSet (options : LabRequestOptions) (attr : ImageAttribute) : Bool :=
  (options.getattr attr).any ImageValue.truthy

/-- The image attribute that was set. -/
def imageAttribute (options : LabRequestOptions) : ImageAttribute :=
  if truthy options.imageList then .imageList
  else if truthy options.imageDropdown then .imageDropdown
  else if options.imageClass.isSome then .imageClass
  else .imageTag

/-- The image attributes that are set. -/
def valuesSet (options : LabRequestOptions) : List ImageAttribute :=
  [.imageList, .imageDropdown, .imageClass, .imageTag].filter options.isSet

/-- The image attributes without the sentinel, and without the value that the dropdown has if the list
is used. -/
def dropSpurious (options : LabRequestOptions) : LabRequestOptions :=
  let options :=
    if options.imageList = some dropdownSentinelValue then { options with imageList := none }
    else options
  -- The dropdown has a spurious value if the list is used, due to the form design.
  if truthy options.imageList then { options with imageDropdown := none } else options

/-- Ensure that the image is only specified in one way. -/
def validateOneImage (options : LabRequestOptions) : Except FieldError LabRequestOptions :=
  let options := options.dropSpurious
  if options.valuesSet.length < 1 then
    .error (valueError none "No image to spawn specified")
  else if 1 < options.valuesSet.length then
    let keys := ", ".intercalate ((options.valuesSet.map ImageAttribute.name).mergeSort)
    .error (valueError none ("Image specified multiple ways (" ++ keys ++ ")"))
  else .ok options

/-- Validate the fields, in the order in which the classes define them. Options that are not fields are
ignored. -/
def validateFields (runtime : Runtime Object) (data : List (String × Value Object)) :
    Except (List FieldError) LabRequestOptions :=
  let string := validateOptional runtime.string
  let imageClass := validateOptional runtime.imageClass
  let options : Except (List FieldError) (LabSize → Bool → Bool → Option String → Option String →
    Option ImageClass → Option String → LabRequestOptions) := .ok LabRequestOptions.mk
  let options := andField options
    (validateField (validateSize runtime) (.error "Field required") data "size")
  let options := andField options
    (validateField (validateBooleans runtime) (.ok false) data "enable_debug")
  let options := andField options
    (validateField (validateBooleans runtime) (.ok false) data "reset_user_env")
  let options := andField options (validateField string (.ok none) data "image_list")
  let options := andField options (validateField string (.ok none) data "image_dropdown")
  let options := andField options (validateField imageClass (.ok none) data "image_class")
  andField options (validateField string (.ok none) data "image_tag")

/-- Read the options from a mapping of option names to values. -/
def validate (runtime : Runtime Object) (data : List (String × Value Object)) :
    Except (List FieldError) LabRequestOptions := do
  let data ← (validateLists data).mapError ([·])
  let options ← validateFields runtime data
  options.validateOneImage.mapError ([·])

end LabRequestOptions

end Nublado
