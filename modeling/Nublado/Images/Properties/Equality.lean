import Nublado.Images.Image
import Nublado.Images.Properties.TagOrdering

/-!
# Equality, hashing and order

Tags are equal if they compare so, and the comparison does not look at their texts; they are hashed by
their texts. Images are ordered as tags are, but equality is that of data classes, which compares every
field. `eq_hash_order_iff` says exactly when the three agree nevertheless.

* Two equal tags have the same hash exactly if the hashes of their texts coincide, as they do for the
  same text. Different texts can have the same components: `w_2021_1` and `w_2021_01`.
* Of two images exactly one of less, equal and greater holds exactly if they agree in everything as soon
  as they agree in what the order looks at. Two weekly images that differ in their digest only are not
  equal and neither is less (`eq_hash_order_disagree`).
-/

namespace Nublado.Images

/-- Exactly one of three statements holds. -/
def ExactlyOne (p q r : Prop) : Prop := (p ∧ ¬q ∧ ¬r) ∨ (¬p ∧ q ∧ ¬r) ∨ (¬p ∧ ¬q ∧ r)

namespace RSPImageTag

variable [Ord Version]

/-- **Two tags are alike** in everything that the comparison looks at. -/
structure Alike (a b : RSPImageTag) : Prop where
  version : ∀ v ∈ a.version, ∀ w ∈ b.version, Ord.compare v w = .eq
  base : a.version = none ∨ b.version = none → a.base = b.base
  cycle : a.cycle = b.cycle
  cycleBuild : a.cycleBuild = b.cycleBuild
  build : a.build = b.build
  extra : a.extra = b.extra
  architecture : a.architecture = b.architecture

/-- Comparing what follows the versions or base names. -/
def compareRest (a b : RSPImageTag) : Ordering :=
  (compareInt a.cycle b.cycle).then <| (compareInt a.cycleBuild b.cycleBuild).then <|
    (compareInt a.build b.build).then <| (compareStr a.extra b.extra).then <|
    compareStr a.architecture b.architecture true

omit [Ord Version] in
theorem compareRest_eq {a b : RSPImageTag} : compareRest a b = .eq ↔ a.cycle = b.cycle ∧
    a.cycleBuild = b.cycleBuild ∧ a.build = b.build ∧ a.extra = b.extra ∧
    a.architecture = b.architecture := by
  simp only [compareRest, compareInt, compareStr, Ordering.then_eq_eq, compareOptional_eq_eq]

omit [Ord Version] in
theorem compareInt_swap (left right : Option ℕ) :
    compareInt right left = (compareInt left right).swap := Std.OrientedCmp.eq_swap

omit [Ord Version] in
theorem compareStr_swap (left right : Option String) (noneLast : Bool) :
    compareStr right left noneLast = (compareStr left right noneLast).swap := by
  have horiented : Std.OrientedCmp fun a b ↦ compareStr a b noneLast := inferInstance
  exact horiented.eq_swap

omit [Ord Version] in
theorem compareRest_swap (a b : RSPImageTag) : compareRest b a = (compareRest a b).swap := by
  simp only [compareRest, Ordering.swap_then, ← compareInt_swap, ← compareStr_swap]

/-- **Tags of one type can be compared**, the other way round with the opposite outcome, and they
compare equal exactly if they are alike. -/
theorem exists_compare [Std.OrientedOrd Version] {a b : RSPImageTag}
    (htype : a.imageType = b.imageType) :
    ∃ o, a.compare b = some o ∧ b.compare a = some o.swap ∧ (o = .eq ↔ Alike a b) := by
  have hcomparable : a.isComparableType b = true ∧ b.isComparableType a = true := by
    simp [isComparableType, htype]
  have hrest : Alike a b ↔ ((∀ v ∈ a.version, ∀ w ∈ b.version, Ord.compare v w = .eq) ∧
      (a.version = none ∨ b.version = none → a.base = b.base)) ∧ compareRest a b = .eq := by
    rw [compareRest_eq]
    constructor
    · exact fun h ↦ ⟨⟨h.version, h.base⟩, h.cycle, h.cycleBuild, h.build, h.extra, h.architecture⟩
    · rintro ⟨⟨hversion, hbase⟩, hcycle, hcycleBuild, hbuild, hextra, harchitecture⟩
      exact ⟨hversion, hbase, hcycle, hcycleBuild, hbuild, hextra, harchitecture⟩
  have hbases : (a.version = none ∨ b.version = none) →
      a.compare b = some ((compareStr a.base b.base).then (compareRest a b)) ∧
        b.compare a = some ((compareStr b.base a.base).then (compareRest b a)) := by
    intro hnone
    rw [compare, compare, hcomparable.1, hcomparable.2]
    rcases hnone with hnone | hnone
    · rw [hnone]
      rcases b.version with _ | w <;> exact ⟨rfl, rfl⟩
    · rw [hnone]
      rcases a.version with _ | v <;> exact ⟨rfl, rfl⟩
  by_cases hnone : a.version = none ∨ b.version = none
  · refine ⟨_, (hbases hnone).1, ?_, ?_⟩
    · rw [(hbases hnone).2, Ordering.swap_then, ← compareRest_swap, ← compareStr_swap]
    · rw [hrest, Ordering.then_eq_eq, compareStr, compareOptional_eq_eq]
      refine and_congr_left fun _ ↦ ⟨fun h ↦ ⟨fun v hv w hw ↦ ?_, fun _ ↦ h⟩, fun h ↦ h.2 hnone⟩
      rcases hnone with hnone | hnone
      · rw [hnone] at hv
        cases hv
      · rw [hnone] at hw
        cases hw
  · obtain ⟨hv, hw⟩ := not_or.1 hnone
    obtain ⟨v, hv⟩ := Option.ne_none_iff_exists'.1 hv
    obtain ⟨w, hw⟩ := Option.ne_none_iff_exists'.1 hw
    refine ⟨(Ord.compare v w).then (compareRest a b), ?_, ?_, ?_⟩
    · rw [compare, hcomparable.1, hv, hw]
      rfl
    · rw [Ordering.swap_then, ← compareRest_swap, ← Std.OrientedOrd.eq_swap, compare, hcomparable.2,
        hv, hw]
      rfl
    · rw [hrest, Ordering.then_eq_eq, hv, hw]
      simp

/-- Tags of one type are equal exactly if they are alike. -/
theorem eq_iff [Std.OrientedOrd Version] {a b : RSPImageTag} (htype : a.imageType = b.imageType) :
    a.eq b = true ↔ Alike a b := by
  obtain ⟨o, ho, -, halike⟩ := exists_compare htype
  rw [eq, ho, ← halike]
  simp

end RSPImageTag

namespace RSPImage

variable [Ord Version]

/-- **Two images agree otherwise**, in what the comparison does not look at. -/
structure AgreeOtherwise (a b : RSPImage) : Prop where
  tag : a.tag = b.tag
  displayName : a.displayName = b.displayName
  base : a.base = b.base
  version : a.version.isSome = b.version.isSome
  semantic : a.semantic = b.semantic
  date : a.date = b.date
  registry : a.registry = b.registry
  repository : a.repository = b.repository
  digest : a.digest = b.digest
  size : a.size = b.size
  aliases : a.aliases = b.aliases
  aliasTarget : a.aliasTarget = b.aliasTarget
  nodes : a.nodes = b.nodes

/-- Versions are equal if both are there with the same precedence, or neither is. -/
theorem versionEq_iff {v w : Option Version} : versionEq v w = true ↔
    v.isSome = w.isSome ∧ ∀ x ∈ v, ∀ y ∈ w, Ord.compare x y = .eq := by
  rcases v with _ | v <;> rcases w with _ | w <;> simp [versionEq]

/-- **Images of one type are equal** exactly if they are alike and agree otherwise. -/
theorem eq_iff {a b : RSPImage} (htype : a.imageType = b.imageType) :
    a.eq b = true ↔ a.toRSPImageTag.Alike b.toRSPImageTag ∧ AgreeOtherwise a b := by
  simp only [eq, decide_eq_true_eq, versionEq_iff]
  constructor
  · rintro ⟨htag, -, hname, hbase, ⟨hsome, hversion⟩, hsemantic, hcycle, hcycleBuild, hbuild,
      harchitecture, hextra, hdate, hregistry, hrepository, hdigest, hsize, haliases, htarget, hnodes⟩
    exact ⟨⟨hversion, fun _ ↦ hbase, hcycle, hcycleBuild, hbuild, hextra, harchitecture⟩,
      htag, hname, hbase, hsome, hsemantic, hdate, hregistry, hrepository, hdigest, hsize, haliases,
      htarget, hnodes⟩
  · rintro ⟨halike, h⟩
    exact ⟨h.tag, htype, h.displayName, h.base, ⟨h.version, halike.version⟩, h.semantic,
      halike.cycle, halike.cycleBuild, halike.build, halike.architecture, halike.extra, h.date,
      h.registry, h.repository, h.digest, h.size, h.aliases, h.aliasTarget, h.nodes⟩

/-- **When images are ordered as they should be**: exactly one of less, equal and greater holds exactly
if images that are alike agree otherwise. -/
theorem exactlyOne_iff [Std.OrientedOrd Version] {a b : RSPImage}
    (htype : a.imageType = b.imageType) :
    ExactlyOne (a.lt b = some true) (a.eq b = true) (b.lt a = some true) ↔
      (a.toRSPImageTag.Alike b.toRSPImageTag → AgreeOtherwise a b) := by
  obtain ⟨o, hab, hba, halike⟩ := RSPImageTag.exists_compare htype
  have heq := eq_iff htype
  rw [lt, lt, RSPImageTag.lt, RSPImageTag.lt, hab, hba, heq, ← halike]
  cases o with
  | lt | gt => simp [ExactlyOne]
  | eq => simp [ExactlyOne]

end RSPImage

/-- **Equality, hashing and order agree** exactly as far as this: two tags of one type that are alike
have texts with the same hash, and two images of one type that are alike agree otherwise. An image is at
most another one exactly if it is less or equal. -/
theorem eq_hash_order_iff [Ord Version] [Std.TransOrd Version] (title : String → String)
    (strHash : String → ℤ) :
    (∀ a b : RSPImageTag, a.Parsed title → b.Parsed title → a.imageType = b.imageType →
      ((a.eq b = true → a.hash strHash = b.hash strHash) ↔
        (RSPImageTag.Alike a b → strHash a.tag = strHash b.tag))) ∧
    ∀ a b : RSPImage, a.imageType = b.imageType →
      (ExactlyOne (a.lt b = some true) (a.eq b = true) (b.lt a = some true) ↔
        (a.toRSPImageTag.Alike b.toRSPImageTag → a.AgreeOtherwise b)) ∧
      (a.le b = some true ↔ a.lt b = some true ∨ a.eq b = true) := by
  refine ⟨fun a b _ _ htype ↦ ?_, fun a b htype ↦ ⟨RSPImage.exactlyOne_iff htype, ?_⟩⟩
  · rw [RSPImageTag.eq_iff htype]
    rfl
  · obtain ⟨o, hab, -, -⟩ := RSPImageTag.exists_compare htype
    rw [RSPImage.le, RSPImage.lt, RSPImageTag.lt, hab]
    simp

section Sample

local instance equalityPrecedence : Ord Version := semverPrecedence

local instance equalityPrecedence_transOrd : Std.TransOrd Version := semverPrecedence_transOrd

/-- The image of a tag with a digest. -/
def imageOf (tag digest : String) : RSPImage :=
  .fromTag (.fromStr tag) "lighthouse.ceres" "library/sketchbook" digest none

/-- Two weekly tags that are not alike, and images of them. -/
theorem eq_hash_order_sample :
    let a := RSPImageTag.fromStr "w_2021_21"
    let b := RSPImageTag.fromStr "w_2021_22"
    (a.eq b = true → a.hash (fun s ↦ s.length) = b.hash fun s ↦ s.length) ∧
      ExactlyOne ((imageOf "w_2021_21" "d").lt (imageOf "w_2021_22" "d") = some true)
        ((imageOf "w_2021_21" "d").eq (imageOf "w_2021_22" "d") = true)
        ((imageOf "w_2021_22" "d").lt (imageOf "w_2021_21" "d") = some true) := by
  intro a b
  have hbuild : ¬ a.Alike b := fun h ↦ absurd h.version (by decide +kernel)
  obtain ⟨htags, himages⟩ := eq_hash_order_iff id fun s ↦ (s.length : ℤ)
  refine ⟨(htags a b ⟨_, Or.inl rfl⟩ ⟨_, Or.inl rfl⟩ (by decide +kernel)).2
    fun h ↦ (hbuild h).elim, ?_⟩
  refine (himages (imageOf "w_2021_21" "d") (imageOf "w_2021_22" "d") (by decide +kernel)).1.2 ?_
  exact fun h ↦ (hbuild ⟨h.version, h.base, h.cycle, h.cycleBuild, h.build, h.extra,
    h.architecture⟩).elim

/-- **Where they disagree.** Two tags of the same week are equal, but hashing by length of the text
tells them apart; two images with the same tag and different digests are not equal, and neither is less. -/
theorem eq_hash_order_disagree :
    ((RSPImageTag.fromStr "w_2021_1").eq (RSPImageTag.fromStr "w_2021_01") = true ∧
      (RSPImageTag.fromStr "w_2021_1").hash (fun s ↦ s.length) ≠
        (RSPImageTag.fromStr "w_2021_01").hash fun s ↦ s.length) ∧
    (imageOf "w_2021_22" "sha256:1").imageType = (imageOf "w_2021_22" "sha256:2").imageType ∧
    ¬ ExactlyOne ((imageOf "w_2021_22" "sha256:1").lt (imageOf "w_2021_22" "sha256:2") = some true)
      ((imageOf "w_2021_22" "sha256:1").eq (imageOf "w_2021_22" "sha256:2") = true)
      ((imageOf "w_2021_22" "sha256:2").lt (imageOf "w_2021_22" "sha256:1") = some true) := by
  have hlt : (imageOf "w_2021_22" "sha256:1").lt (imageOf "w_2021_22" "sha256:2") = some false := by
    decide +kernel
  have heq : (imageOf "w_2021_22" "sha256:1").eq (imageOf "w_2021_22" "sha256:2") = false := by
    decide +kernel
  have hgt : (imageOf "w_2021_22" "sha256:2").lt (imageOf "w_2021_22" "sha256:1") = some false := by
    decide +kernel
  refine ⟨⟨by decide +kernel, by decide +kernel⟩, rfl, ?_⟩
  rw [hlt, heq, hgt]
  simp [ExactlyOne]

end Sample

end Nublado.Images
