import Nublado.Foundations.Except
import Nublado.Lab.Request

/-!
# Normalised request options

Two functions of the lab manager find out which image a request asks for: `imageAttribute` says which
option it was, for messages, and `selectImage` uses the option. Both go by whether options are there and
not empty, in orders of their own. They agree because an accepted request sets exactly one
(`Accepted.eq_imageAttribute`): the validator that runs last has taken away the sentinel and the value
that the form leaves in the dropdown, and counts what remains.

The lists around the values make no difference (`validate_wrap`), since they are taken off before
anything else looks at the values. Only one list is taken off: a value that is a list already says
something else when there is another one around it.
-/

namespace Nublado

variable {Object : Type}

/-! ### Lists around values -/

namespace Value

/-- Whether a value is a list. -/
def isList : Value Object → Bool
  | .list _ => true
  | _ => false

/-- Put a value in a list of its own, unless it is null. -/
def wrap : Value Object → Value Object
  | .null => .null
  | value => .list [value]

end Value

/-- Put the chosen ones of the values that are not null in lists of their own. -/
def wrap (chosen : String → Bool) (data : List (String × Value Object)) :
    List (String × Value Object) :=
  data.map fun p ↦ if chosen p.1 then (p.1, p.2.wrap) else p

/-- A list around a value that is not a list is taken off. -/
theorem unwrap_wrap (key : String) {value : Value Object} (h : value.isList = false) :
    unwrap key value.wrap = unwrap key value := by
  cases value with
  | list l => exact absurd h (by simp [Value.isList])
  | _ => rfl

/-- Taking lists off does not depend on which values, other than lists, have been put in one. -/
theorem validateLists_wrap {chosen : String → Bool} {data : List (String × Value Object)}
    (h : ∀ p ∈ data, chosen p.1 = true → p.2.isList = false) :
    validateLists (wrap chosen data) = validateLists data := by
  induction data with
  | nil => rfl
  | cons p data ih =>
    have htail := ih fun q hq ↦ h q (List.mem_cons_of_mem _ hq)
    have hhead : unwrap p.1 (if chosen p.1 then (p.1, p.2.wrap) else p).2 = unwrap p.1 p.2 := by
      split
      · next hchosen => exact unwrap_wrap _ (h p List.mem_cons_self hchosen)
      · rfl
    have hkey : (if chosen p.1 then (p.1, p.2.wrap) else p).1 = p.1 := by
      split <;> rfl
    show validateLists ((if chosen p.1 then (p.1, p.2.wrap) else p) :: wrap chosen data) =
      validateLists (p :: data)
    simp only [validateLists, hkey, hhead, htail]

namespace LabRequestOptions

/-- Options are read the same whether or not values are in lists of their own. -/
theorem validate_wrap (runtime : Runtime Object) {chosen : String → Bool}
    {data : List (String × Value Object)}
    (h : ∀ p ∈ data, chosen p.1 = true → p.2.isList = false) :
    validate runtime (wrap chosen data) = validate runtime data := by
  rw [validate, validate, validateLists_wrap h]

/-! ### The image attribute -/

/-- The options have passed the last validator. -/
def Accepted (options : LabRequestOptions) : Prop :=
  ∃ raw : LabRequestOptions, raw.validateOneImage = .ok options

/-- What is read from a mapping is accepted. -/
theorem accepted_of_validate {runtime : Runtime Object} {data : List (String × Value Object)}
    {options : LabRequestOptions} (h : validate runtime data = .ok options) : options.Accepted := by
  obtain ⟨newData, -, h⟩ := bind_eq_ok.1 h
  obtain ⟨raw, -, h⟩ := bind_eq_ok.1 h
  exact ⟨raw, mapError_eq_ok.1 h⟩

section Attributes

variable {options : LabRequestOptions} {attr : ImageAttribute}

@[simp] theorem isSet_imageList : options.isSet .imageList = truthy options.imageList := by
  unfold isSet getattr truthy
  cases options.imageList <;> rfl

@[simp] theorem isSet_imageDropdown :
    options.isSet .imageDropdown = truthy options.imageDropdown := by
  unfold isSet getattr truthy
  cases options.imageDropdown <;> rfl

@[simp] theorem isSet_imageClass : options.isSet .imageClass = options.imageClass.isSome := by
  unfold isSet getattr
  cases options.imageClass <;> rfl

@[simp] theorem isSet_imageTag : options.isSet .imageTag = truthy options.imageTag := by
  unfold isSet getattr truthy
  cases options.imageTag <;> rfl

theorem mem_valuesSet : attr ∈ options.valuesSet ↔ options.isSet attr = true := by
  rw [valuesSet, List.mem_filter]
  cases attr <;> simp

/-- The last validator lets options through that set exactly one attribute. -/
theorem Accepted.exists_valuesSet (h : options.Accepted) : ∃ attr, options.valuesSet = [attr] := by
  obtain ⟨raw, hraw⟩ := h
  unfold validateOneImage at hraw
  generalize raw.dropSpurious = settled at hraw
  dsimp only at hraw
  split at hraw
  · cases hraw
  · next hsome =>
    split at hraw
    · cases hraw
    · next hmany =>
      obtain rfl := Except.ok.inj hraw
      exact List.length_eq_one_iff.1 (by omega)

/-- An attribute of accepted options that is set is the only one. -/
theorem Accepted.eq_of_isSet (h : options.Accepted) {attr' : ImageAttribute}
    (hattr : options.isSet attr = true) (hattr' : options.isSet attr' = true) : attr = attr' := by
  obtain ⟨only, honly⟩ := h.exists_valuesSet
  have hmem := mem_valuesSet.2 hattr
  have hmem' := mem_valuesSet.2 hattr'
  rw [honly, List.mem_singleton] at hmem hmem'
  exact hmem.trans hmem'.symm

/-- The attribute that is named for messages is one that is set. -/
theorem Accepted.isSet_imageAttribute (h : options.Accepted) :
    options.isSet options.imageAttribute = true := by
  unfold imageAttribute
  split
  · next hlist => rwa [isSet_imageList]
  · next hlist =>
    split
    · next hdropdown => rwa [isSet_imageDropdown]
    · next hdropdown =>
      split
      · next hclass => rwa [isSet_imageClass]
      · next hclass =>
        -- the others are not set, and one of the four is
        obtain ⟨only, honly⟩ := h.exists_valuesSet
        have hset : options.isSet only = true := mem_valuesSet.1 (by rw [honly]; simp)
        cases only with
        | imageList => exact absurd (isSet_imageList.symm.trans hset) hlist
        | imageDropdown => exact absurd (isSet_imageDropdown.symm.trans hset) hdropdown
        | imageClass => exact absurd (isSet_imageClass.symm.trans hset) hclass
        | imageTag => exact hset

/-- The attribute that is named for messages is the only one that is set. -/
theorem Accepted.eq_imageAttribute (h : options.Accepted) :
    options.isSet attr = true ↔ attr = options.imageAttribute := by
  constructor
  · exact fun hattr ↦ h.eq_of_isSet hattr h.isSet_imageAttribute
  · rintro rfl
    exact h.isSet_imageAttribute

/-- A set attribute has a value that counts as true. -/
theorem exists_of_isSet (h : options.isSet attr = true) :
    ∃ value, options.getattr attr = some value ∧ value.truthy = true := by
  unfold isSet at h
  exact (Option.any_eq_true _ _).1 h

end Attributes

end LabRequestOptions

namespace Lab

open Images (ImageService)
open LabRequestOptions

/-- What it means to choose the image by the value of an attribute. -/
inductive Chooses (service : ImageService) :
    ImageAttribute → ImageValue → Except SelectionError Images.RSPImage → Prop
  | reference {attr : ImageAttribute} (s : String)
      (hattr : attr = .imageList ∨ attr = .imageDropdown) :
      Chooses service attr (.text s)
        ((DockerReference.fromStr s).mapError .valueError >>= service.imageForReference)
  | keyword (c : ImageClass) :
      Chooses service .imageClass (.imageClass c) (service.imageForClass c)
  | tag (s : String) : Chooses service .imageTag (.text s) (service.imageForTagName s)

variable {service : ImageService} {options : LabRequestOptions}

/-- The image is chosen by the value of the only attribute that is set. -/
theorem selectImage_chooses (h : options.Accepted) {value : ImageValue}
    (hvalue : options.getattr options.imageAttribute = some value) :
    Chooses service options.imageAttribute value (selectImage service options) := by
  have honly : ∀ attr, options.isSet attr = true ↔ attr = options.imageAttribute :=
    fun attr ↦ h.eq_imageAttribute
  have hlist := honly .imageList
  have hdropdown := honly .imageDropdown
  have hclass := honly .imageClass
  have htag := honly .imageTag
  rw [isSet_imageList] at hlist
  rw [isSet_imageDropdown] at hdropdown
  rw [isSet_imageClass] at hclass
  rw [isSet_imageTag] at htag
  generalize options.imageAttribute = attr at *
  have hunset : attr ≠ .imageList → attr ≠ .imageDropdown →
      truthy (selection options) = false := by
    intro hne hne'
    have hnoList : truthy options.imageList = false := by simpa [hne.symm] using hlist
    have hnoDropdown : truthy options.imageDropdown = false := by simpa [hne'.symm] using hdropdown
    rw [selection, hnoList, if_neg Bool.false_ne_true, hnoDropdown]
  cases attr with
  | imageList =>
    obtain ⟨s, hs, rfl⟩ := Option.map_eq_some_iff.1 hvalue
    have hset : truthy options.imageList = true := hlist.2 rfl
    have hselection : selection options = some s := by rw [selection, if_pos hset, hs]
    rw [selectImage_reference hselection (hs ▸ hset)]
    exact .reference s (.inl rfl)
  | imageDropdown =>
    obtain ⟨s, hs, rfl⟩ := Option.map_eq_some_iff.1 hvalue
    have hset : truthy options.imageDropdown = true := hdropdown.2 rfl
    have hnoList : ¬ truthy options.imageList = true := by simp [hlist]
    have hselection : selection options = some s := by rw [selection, if_neg hnoList, hs]
    rw [selectImage_reference hselection (hs ▸ hset)]
    exact .reference s (.inr rfl)
  | imageClass =>
    obtain ⟨c, hc, rfl⟩ := Option.map_eq_some_iff.1 hvalue
    rw [selectImage_class (hunset (by simp) (by simp)) hc]
    exact .keyword c
  | imageTag =>
    obtain ⟨s, hs, rfl⟩ := Option.map_eq_some_iff.1 hvalue
    have hset : truthy options.imageTag = true := htag.2 rfl
    have hnone : options.imageClass = none := by simpa using hclass
    rw [selectImage_tag (hunset (by simp) (by simp)) hnone hs (hs ▸ hset)]
    exact .tag s

/-- Choosing by an attribute raises what the image service raises, or a reference cannot be parsed. -/
theorem Chooses.refuses {attr : ImageAttribute} {value : ImageValue}
    {r : Except SelectionError Images.RSPImage} (h : Chooses service attr value r)
    {x : SelectionError} (hx : r = .error x) : x.Refuses ∨ ∃ message, x = .valueError message := by
  cases h with
  | reference s hattr =>
    rcases bind_eq_error.1 hx with hx | ⟨reference, -, hx⟩
    · obtain ⟨message, -, rfl⟩ := mapError_eq_error.1 hx
      exact .inr ⟨message, rfl⟩
    · exact .inl (service.refuses_of_reference hx)
  | keyword c => exact .inl (service.refuses_of_class hx)
  | tag s => exact .inl (service.refuses_of_tagName hx)

/-- Accepted options always say which image it is. -/
theorem selectImage_ne_runtimeError (h : options.Accepted) (message : String) :
    selectImage service options ≠ .error (.runtimeError message) := by
  intro hx
  obtain ⟨value, hvalue, -⟩ := exists_of_isSet h.isSet_imageAttribute
  rcases (selectImage_chooses h hvalue).refuses hx with hrefuses | ⟨message', hne⟩
  · cases hrefuses
  · cases hne

/-- **Request options are normalised consistently.** Values other than lists may be put in lists of
their own, with the same outcome of the validation. Options that are accepted set exactly one of the
four image attributes, the one that `imageAttribute` names, and the image is chosen by its value. -/
theorem options_normalised (runtime : Runtime Object) (data : List (String × Value Object)) :
    (∀ chosen : String → Bool, (∀ p ∈ data, chosen p.1 = true → p.2.isList = false) →
      validate runtime (wrap chosen data) = validate runtime data) ∧
    ∀ options, validate runtime data = .ok options →
      (∀ attr, options.isSet attr = true ↔ attr = options.imageAttribute) ∧
      ∀ service : ImageService,
        (∃ value, options.getattr options.imageAttribute = some value ∧ value.truthy = true ∧
          Chooses service options.imageAttribute value (selectImage service options)) ∧
        ∀ message, selectImage service options ≠ .error (.runtimeError message) := by
  refine ⟨fun chosen ↦ validate_wrap runtime, fun options hvalidate ↦ ?_⟩
  have haccepted : options.Accepted := accepted_of_validate hvalidate
  refine ⟨fun attr ↦ haccepted.eq_imageAttribute, fun service ↦
    ⟨?_, selectImage_ne_runtimeError haccepted⟩⟩
  obtain ⟨value, hvalue, htruthy⟩ := exists_of_isSet haccepted.isSet_imageAttribute
  exact ⟨value, hvalue, htruthy, selectImage_chooses haccepted hvalue⟩

/-! ### Requests of plain values -/

namespace Sample

/-- Reading a lab size by its name. -/
def sizes : List (String × LabSize) :=
  [("fine", .fine), ("diminutive", .diminutive), ("tiny", .tiny), ("small", .small),
    ("medium", .medium), ("large", .large), ("huge", .huge), ("gargantuan", .gargantuan),
    ("colossal", .colossal), ("custom", .custom)]

/-- The validation of requests in which there are only strings and lists. -/
def runtime : Runtime Empty where
  text
    | .str s => s
    | _ => ""
  lower s := String.ofList (s.toList.map Char.toLower)
  string
    | .str s => .ok s
    | _ => .error "Input should be a valid string"
  labSize
    | .str s => (sizes.lookup s).elim (.error "Input should be a lab size") .ok
    | _ => .error "Input should be a lab size"
  imageClass
    | .str "recommended" => .ok .recommended
    | .str "latest-release" => .ok .latestRelease
    | .str "latest-weekly" => .ok .latestWeekly
    | .str "latest-daily" => .ok .latestDaily
    | _ => .error "Input should be a class of images"

/-- What a client asks for. -/
def asked : List (String × Value Empty) :=
  [("size", .str "Small"), ("image_list", .str dropdownSentinelValue),
    ("image_dropdown", .str "lsst/sciplat-lab:w_2023_07"), ("image_tag", .str "")]

/-- What is read from it. -/
def read : LabRequestOptions where
  size := .small
  imageDropdown := some "lsst/sciplat-lab:w_2023_07"
  imageTag := some ""

end Sample

/-- What JupyterHub's form sends is read like what a client sends. -/
theorem options_normalised_sample :
    validate Sample.runtime (wrap (fun _ ↦ true) Sample.asked) = .ok Sample.read ∧
    ∀ attr, Sample.read.isSet attr = true ↔ attr = .imageDropdown := by
  have hread : validate Sample.runtime Sample.asked = .ok Sample.read := by decide
  obtain ⟨hwrap, haccepted⟩ := options_normalised Sample.runtime Sample.asked
  refine ⟨(hwrap (fun _ ↦ true) ?_).trans hread, (haccepted _ hread).1⟩
  intro p hp _
  simp only [Sample.asked, List.mem_cons, List.not_mem_nil, or_false] at hp
  rcases hp with rfl | rfl | rfl | rfl <;> rfl

/-- A value that is a list of length one is not read when it is put in another list. -/
theorem list_wrapped : ¬ ∀ (chosen : String → Bool) (data : List (String × Value Empty)),
    validate Sample.runtime (wrap chosen data) = validate Sample.runtime data := by
  intro h
  have hplain := h (· = "image_tag")
    [("size", .str "small"), ("image_tag", .list [.str "w_2023_07"])]
  revert hplain
  decide

end Lab

end Nublado
