import Nublado.Client.SpawnForm
import Nublado.Lab.Properties.Options

/-!
# The controller spawns what the client asked for

What a client puts in the spawn form arrives at the controller as the options that say the same, and the
controller selects the image by exactly the value that the client gave, **if and only if the client
names an image** (`spawn_form_understood`). Otherwise, which is for an empty text or for the reference
that the form uses as a sentinel, the request is rejected for naming none.

The two sides agree on the names of sizes although one writes them with capitals
(`lower_value`), and no option of the form counts as an image besides the one that was given
(`isSet_options`).
-/

namespace Nublado.Client

open Images (ImageService)

variable {Object : Type} {runtime : Runtime Object}

/-- The controller's name of a size is the client's in lower case. -/
theorem lower_value (h : ReadsText runtime) (size : NubladoImageSize) :
    runtime.lower size.value = size.toLabSize.value := by
  have hascii : ∀ c ∈ size.value.toList, c.toNat < 128 := by
    cases size <;> simp [NubladoImageSize.value]
  rw [h.lower _ hascii]
  cases size <;> rfl

theorem value_toImageClass (c : NubladoImageClass) : c.toImageClass.value = c.value := by
  cases c <;> rfl

/-- The lists are taken off. -/
theorem validateLists_userOptions (form : List (String × String)) :
    validateLists (userOptions form : List (String × Value Object)) =
      .ok (form.map fun field ↦ (field.1, .str field.2)) := by
  induction form with
  | nil => rfl
  | cons field form ih =>
    show (do
      let value ← unwrap field.1 (.list [.str field.2])
      let newData ← validateLists (userOptions form : List (String × Value Object))
      .ok (value.elim newData fun value ↦ (field.1, value) :: newData)) = _
    rw [ih]
    rfl

namespace NubladoImage

variable (image : NubladoImage)

/-- **Every field is read** as the client meant it. -/
theorem validateFields_toSpawnForm (h : ReadsText runtime) :
    LabRequestOptions.validateFields runtime
      (image.toSpawnForm.map fun field ↦ (field.1, .str field.2)) = .ok image.options := by
  obtain ⟨choice, size, debug⟩ := image
  have hsize : validateSize runtime (.str size.value) = .ok size.toLabSize := by
    rw [validateSize, lower_value h, h.labSize]
  have hstring : ∀ s, validateOptional runtime.string (.str s) = .ok (some s) := by
    intro s
    show (runtime.string (.str s)).map some = _
    rw [h.string]
    rfl
  have hclass : ∀ c : NubladoImageClass,
      validateOptional runtime.imageClass (.str c.value) = .ok (some c.toImageClass) := by
    intro c
    show (runtime.imageClass (.str c.value)).map some = _
    rw [← value_toImageClass, h.imageClass]
    rfl
  cases choice <;> cases debug <;>
    simp [LabRequestOptions.validateFields, toSpawnForm, validateField, List.lookup_cons, hsize,
      hstring, hclass, validateBooleans, andField, options, Except.mapError]

/-- **No other option counts** as an image. -/
theorem isSet_options (attr : ImageAttribute) :
    image.options.isSet attr = (decide (attr = image.imageAttribute) && image.value.truthy) := by
  obtain ⟨choice, size, debug⟩ := image
  cases choice <;> cases attr <;>
    simp [options, imageAttribute, value, truthy, ImageValue.truthy]

theorem valuesSet_options : image.options.valuesSet =
    if image.value.truthy = true then [image.imageAttribute] else [] := by
  have hfilter : image.options.valuesSet =
      [ImageAttribute.imageList, .imageDropdown, .imageClass, .imageTag].filter fun attr ↦
        decide (attr = image.imageAttribute) && image.value.truthy :=
    List.filter_congr fun attr _ ↦ image.isSet_options attr
  rw [hfilter]
  cases image.imageAttribute <;> cases image.value.truthy <;> rfl

/-- The last validator only takes away the sentinel. -/
theorem dropSpurious_options (h : image.choice ≠ .byReference dropdownSentinelValue) :
    image.options.dropSpurious = image.options := by
  have hlist : image.options.imageList ≠ some dropdownSentinelValue := by
    obtain ⟨choice, size, debug⟩ := image
    cases choice with
    | byReference reference =>
      intro hsome
      exact h (congrArg ImageChoice.byReference (Option.some.inj hsome))
    | byTag tag => simp [options]
    | byClass imageClass => simp [options]
  rw [LabRequestOptions.dropSpurious, if_neg hlist]
  split <;> rfl

/-- **The last validator** lets through what names an image. -/
theorem validateOneImage_options : image.options.validateOneImage =
    if image.Names then .ok image.options
    else .error (valueError none "No image to spawn specified") := by
  by_cases hsentinel : image.choice = .byReference dropdownSentinelValue
  · rw [if_neg fun hnames ↦ hnames.2 hsentinel]
    obtain ⟨choice, size, debug⟩ := image
    obtain rfl : choice = _ := hsentinel
    rfl
  · have hnames : image.Names ↔ image.value.truthy = true :=
      ⟨fun hnames ↦ hnames.1, fun htruthy ↦ ⟨htruthy, hsentinel⟩⟩
    rw [LabRequestOptions.validateOneImage, image.dropSpurious_options hsentinel, valuesSet_options]
    by_cases htruthy : image.value.truthy = true
    · rw [if_pos htruthy, if_pos (hnames.2 htruthy)]
      rfl
    · rw [if_neg htruthy, if_neg (hnames.not.2 htruthy)]
      rfl

/-- What the controller makes of the form. -/
theorem validate_toSpawnForm (h : ReadsText runtime) :
    LabRequestOptions.validate runtime (userOptions image.toSpawnForm) =
      if image.Names then .ok image.options
      else .error [valueError none "No image to spawn specified"] := by
  rw [LabRequestOptions.validate, validateLists_userOptions]
  show LabRequestOptions.validateFields runtime _ >>= _ = _
  rw [image.validateFields_toSpawnForm h]
  show image.options.validateOneImage.mapError ([·]) = _
  rw [validateOneImage_options]
  split <;> rfl

end NubladoImage

/-- **The controller understands what the client asked for** exactly if that names an image, and then
selects the image by the value that the client gave. -/
theorem spawn_form_understood (runtime : Runtime Object) (h : ReadsText runtime)
    (image : NubladoImage) :
    (LabRequestOptions.validate runtime (userOptions image.toSpawnForm) = .ok image.options ↔
      image.Names) ∧
      (¬ image.Names → LabRequestOptions.validate runtime (userOptions image.toSpawnForm) =
        .error [valueError none "No image to spawn specified"]) ∧
      (image.Names → ∀ service : ImageService,
        Lab.Chooses service image.imageAttribute image.value
          (Lab.selectImage service image.options)) := by
  have hvalidate := image.validate_toSpawnForm h
  refine ⟨⟨fun hok ↦ ?_, fun hnames ↦ ?_⟩, fun hnot ↦ ?_, fun hnames service ↦ ?_⟩
  · by_contra hnot
    rw [hvalidate, if_neg hnot] at hok
    cases hok
  · rw [hvalidate, if_pos hnames]
  · rw [hvalidate, if_neg hnot]
  · rw [if_pos hnames] at hvalidate
    have haccepted := LabRequestOptions.accepted_of_validate hvalidate
    have hattribute : image.imageAttribute = image.options.imageAttribute :=
      haccepted.eq_imageAttribute.1 (by rw [image.isSet_options, hnames.1]; simp)
    have hvalue : image.options.getattr image.imageAttribute = some image.value := by
      obtain ⟨choice, size, debug⟩ := image
      cases choice <;> rfl
    rw [hattribute] at hvalue ⊢
    exact Lab.selectImage_chooses haccepted hvalue

/-! ### A request for a tag -/

namespace Sample

/-- The texts of a sample are read like that. -/
theorem readsText : ReadsText Lab.Sample.runtime where
  string _ := rfl
  labSize size := by cases size <;> rfl
  imageClass c := by cases c <;> rfl
  lower _ _ := rfl

/-- A large lab with an image for debugging. -/
def image : NubladoImage where
  choice := .byTag "w_2023_07"
  debug := true

end Sample

theorem spawn_form_understood_sample :
    LabRequestOptions.validate Lab.Sample.runtime (userOptions Sample.image.toSpawnForm) =
      .ok { size := .large, enableDebug := true, imageTag := some "w_2023_07" } :=
  (spawn_form_understood Lab.Sample.runtime Sample.readsText Sample.image).1.2 (by decide)

end Nublado.Client
