import Nublado.Foundations.Comparison
import Nublado.Foundations.Decimal
import Nublado.Foundations.Regex
import Nublado.Images.Models

/-!
# Image tags

How a tag string is parsed into an `RSPImageTag`, and how two parsed tags are compared.

## Parsing

`tagRegexes` is tried in order. A match whose components do not make sense (a date that does not
exist, a number too long to convert) raises, the exception is suppressed, and the next expression is
tried: `fromMatch` returns `none` there. An experimental tag is parsed by parsing the tag it is built
on, so parsing is recursive; the inner text is strictly shorter, and `fromStr` runs on fuel that the
length of the text bounds.

## Comparing

`RSPImageTag.compare` is `none` where the source returns `NotImplemented`. The precedence of
versions is the `Ord Version` instance. Two tags are equal if they compare so, but a tag is hashed by
its text.
-/

namespace Nublado.Images

/-! ### Numbers in tags -/

/-- The integer that a text of decimal digits denotes. -/
def toInt (digits : List Char) : Option ℕ :=
  if digits.length > maxIntDigits then none
  else digits.foldl (fun n c ↦ n.bind fun n ↦ (decimalDigit c).map fun d ↦ 10 * n + d) (some 0)

/-! ### Regular expressions -/

namespace TagRegex

open Regex

/-- `\d+` -/
def digits : Regex := many isDecimal 1 true

/-- `.` -/
@[grind =] def notNewline (c : Char) : Bool := c != '\n'

/-- `[a-z0-9]` -/
@[grind =] def lowerOrDigit (c : Char) : Bool := ('a' ≤ c && c ≤ 'z') || ('0' ≤ c && c ≤ '9')

/-- r22_0_1 -/
def release : Regex :=
  char 'r' ++ group "major" digits ++ char '_' ++ group "minor" digits ++ char '_' ++
    group "patch" digits

/-- r23_0_0_rc1 -/
def candidate : Regex :=
  char 'r' ++ group "major" digits ++ char '_' ++ group "minor" digits ++ char '_' ++
    group "patch" digits ++ char '_' ++ group "pre" (text "rc" ++ digits)

/-- w_2021_13 -/
def weekly : Regex :=
  text "w_" ++ group "year" digits ++ char '_' ++ group "week" digits

/-- d_2021_05_13 -/
def daily : Regex :=
  text "d_" ++ group "year" digits ++ char '_' ++ group "month" digits ++ char '_' ++
    group "day" digits

/-- exp_ -/
@[grind =] def experimental : Regex := text "exp_" ++ group "rest" (many notNewline 1 true)

/-- recommended (non-greedy since architecture may follow) -/
def unknown : Regex := group "tag" (many notNewline 0 false)

/-- recommended_c0020 (used for alias tags) (non-greedy for architecture) -/
def unknownWithCycle : Regex :=
  group "tag" (many notNewline 0 false) ++ text "_c" ++ group "cycle" digits

/-- c0020.002 -/
def cycle : Regex :=
  opt (text "_c" ++ group "cycle" digits ++ char '.' ++ group "cbuild" digits)

/-- rsp19 -/
def rsp : Regex := opt (text "_rsp" ++ group "build" digits)

/-- _whatever_your_heart_desires (non-greedy since architecture may follow) -/
def rest : Regex := opt (char '_' ++ group "rest" (many notNewline 1 false))

/-- -amd64 or -arm64 -/
def arch : Regex := opt (char '-' ++ group "arch" (many lowerOrDigit 1 true))

/-- r170 (obsolete) (no new ones, no additional parts) -/
def obsoleteRelease : Regex :=
  char 'r' ++ group "major" (one isDecimal ++ one isDecimal) ++ group "minor" (one isDecimal) ++ eol

/-- The optional parts of a tag, in the order in which they are attempted. -/
@[grind =] def optionalParts : Regex := cycle ++ rsp ++ rest ++ arch ++ eol

end TagRegex

/-- An ordered list of pairs, each of which contains a tag type followed by a regular expression
defining something that matches that type. The release candidate images must precede the release
images. -/
@[grind =] def tagRegexes : List (RSPImageType × Regex) :=
  [(.candidate, TagRegex.candidate ++ TagRegex.optionalParts),
    (.release, TagRegex.release ++ TagRegex.optionalParts),
    (.release, TagRegex.obsoleteRelease),
    (.weekly, TagRegex.weekly ++ TagRegex.optionalParts),
    (.daily, TagRegex.daily ++ TagRegex.optionalParts),
    (.experimental, TagRegex.experimental ++ Regex.eol),
    (.unknown, TagRegex.unknownWithCycle ++ TagRegex.arch ++ Regex.eol),
    (.unknown, TagRegex.unknown ++ TagRegex.arch ++ Regex.eol)]

/-! ### Tags -/

/-- Implicit tag used when no tag is specified. -/
def dockerDefaultTag : String := "latest"

/-- A sortable image tag. -/
structure RSPImageTag where
  /-- The tag itself, unmodified. -/
  tag : String
  /-- Type (release series) of image identified by this tag. -/
  imageType : RSPImageType
  /-- Human-readable display name. -/
  displayName : String
  /-- Base tag name for unknown and alias tags. -/
  base : Option String := none
  /-- Version information as a semantic version. -/
  version : Option Version := none
  /-- Whether this tag has an underlying semantic version. -/
  semantic : Bool := false
  /-- XML schema version implemented by this image. -/
  cycle : Option ℕ := none
  /-- XML schema build number. -/
  cycleBuild : Option ℕ := none
  /-- Version number of the RSP build machinery. -/
  build : Option ℕ := none
  /-- Architecture of image, if specified. -/
  architecture : Option String := none
  /-- Additional information about the image. -/
  extra : Option String := none
  /-- When the image was created, or as close as we can get to that. -/
  date : Option Datetime := none
  deriving DecidableEq

namespace RSPImageTag

/-- Whether the tag is for a specific architecture. -/
def isArchSpecific (t : RSPImageTag) : Bool := t.architecture.any (· ≠ "")

/-- `int(x) if x else None` on a captured group. -/
@[grind =] def optionalInt (group : Option (List Char)) : Option (Option ℕ) :=
  match group with
  | none | some [] => some none
  | some (c :: cs) => (toInt (c :: cs)).map some

/-- Calculate the date when the image should have been created. -/
@[grind =] def calculateDate (data : Captures) : Option (Option Datetime) :=
  match data.lookup "year", data.lookup "week", data.lookup "month", data.lookup "day" with
  | none, _, _, _ => some none
  | some year, some week, _, _ => do
    -- We build on Thursday, which is ISO day 4.
    let stamp ← Datetime.ofIsoCalendar (← toInt year) (← toInt week) 4
    some (some stamp)
  | some year, none, some month, some day => do
    let stamp ← Datetime.ofYmd (← toInt year) (← toInt month) (← toInt day)
    some (some stamp)
  | some _, none, _, _ => some none

/-- Turn the regex parse results into a display name and version. -/
@[grind =] def parseVersion (imageType : RSPImageType) (data : Captures) : Option (String × Version) :=
  if imageType.isSemantic then do
    let major ← toInt (← data.lookup "major")
    let minor ← toInt (← data.lookup "minor")
    let patch ← toInt ((data.lookup "patch").getD ['0'])
    let pre := (data.lookup "pre").map String.ofList
    let displayName := imageType.value ++ s!" r{major}.{minor}.{patch}" ++
      (pre.elim "" fun pre ↦ "-" ++ pre)
    some (displayName, { major, minor, patch, prerelease := pre })
  else do
    let year ← data.lookup "year"
    let major ← toInt year
    if imageType = .weekly then
      let week ← data.lookup "week"
      let displayName := imageType.value ++ " " ++ String.ofList year ++ "_" ++ String.ofList week
      some (displayName, { major, minor := ← toInt week, patch := 0 })
    else
      let month ← data.lookup "month"
      let day ← data.lookup "day"
      let displayName := imageType.value ++ " " ++ String.ofList year ++ "_" ++
        String.ofList month ++ "_" ++ String.ofList day
      some (displayName, { major, minor := ← toInt month, patch := ← toInt day })

/-- The part of a display name that comes from the optional parts of a tag. -/
def displaySuffix (cycle cycleBuild build extra architecture : Option String) : String :=
  (match cycle, cycleBuild with
    | some cycle, some cycleBuild => s!" (SAL Cycle {cycle}, Build {cycleBuild})"
    | some cycle, none => s!" (SAL Cycle {cycle})"
    | none, _ => "") ++
  (build.elim "" fun build ↦ s!" (RSP Build {build})") ++
  (extra.elim "" fun extra ↦ if extra = "" then "" else s!" [{extra}]") ++
  (architecture.elim "" fun arch ↦ if arch = "" then "" else s!" [{arch}]")

/-- The display name, base name and version of a match that is not experimental. -/
@[grind =] def nameAndVersion (imageType : RSPImageType) (data : Captures) (tag : List Char) :
    Option (String × Option String × Option Version) :=
  if imageType = .unknown then
    -- Capture the base tag name (without any cycle or architecture information) for sorting.
    let base := String.ofList ((data.lookup "tag").getD tag)
    some (base, some base, none)
  else
    (parseVersion imageType data).map fun (displayName, version) ↦
      (displayName, none, some version)

/-- Create a tag from a regex match; `parse` parses the tag an experimental tag is built on. -/
@[grind =] def fromMatch (parse : List Char → RSPImageTag) (imageType : RSPImageType) (data : Captures)
    (tag : List Char) : Option RSPImageTag :=
  let group := fun name ↦ (data.lookup name).map String.ofList
  if imageType = .experimental then
    match data.lookup "rest" with
    | none | some [] => none
    | some (c :: cs) =>
      let subtag := parse (c :: cs)
      some { subtag with
        imageType
        tag := String.ofList tag
        displayName := imageType.value ++ " " ++ subtag.displayName }
  else do
    let (displayName, base, version) ← nameAndVersion imageType data tag
    some {
      tag := String.ofList tag
      imageType
      displayName := displayName ++ displaySuffix (group "cycle") (group "cbuild") (group "build")
        (group "rest") (group "arch")
      version
      semantic := imageType.isSemantic
      base
      cycle := ← optionalInt (data.lookup "cycle")
      cycleBuild := ← optionalInt (data.lookup "cbuild")
      build := ← optionalInt (data.lookup "build")
      architecture := group "arch"
      extra := group "rest"
      date := ← calculateDate data }

/-- No matches, so return the unknown tag type. -/
@[grind =] def unmatched (tag : List Char) : RSPImageTag :=
  { tag := String.ofList tag, imageType := .unknown, displayName := String.ofList tag }

/-- Parse a nonempty tag. The fuel bounds how deep experimental tags nest. -/
@[grind =] def fromChars : ℕ → List Char → RSPImageTag
  | 0, tag => unmatched tag
  | fuel + 1, tag =>
    (tagRegexes.findSome? fun (imageType, regex) ↦
      (regex.matchStart tag).bind fun data ↦
        fromMatch (fromChars fuel) imageType data tag).getD (unmatched tag)

/-- Parse a tag into an `RSPImageTag`. -/
@[grind =] def fromStr (tag : String) : RSPImageTag :=
  let tag := if tag = "" then dockerDefaultTag else tag
  fromChars (tag.toList.length + 1) tag.toList

/-- Create an alias tag. `title` is `str.title`, the language's conversion to title case. -/
def «alias» (title : String → String) (tag : String) : Option RSPImageTag :=
  let displayFor := fun base : String ↦ title (replaceText base "_" " ")
  let finish := fun (base : String) (cycle architecture : Option (List Char)) ↦ do
    let displayName := displayFor base ++
      (cycle.elim "" fun cycle ↦ s!" (SAL Cycle {String.ofList cycle})")
    some {
      tag
      imageType := .alias
      displayName := displayName ++
        (architecture.elim "" fun arch ↦ if arch = [] then "" else s!" [{String.ofList arch}]")
      base := some base
      cycle := ← optionalInt cycle
      architecture := architecture.map String.ofList : RSPImageTag }
  match (TagRegex.unknownWithCycle ++ TagRegex.arch ++ Regex.eol).matchStart tag.toList with
  | some data =>
    finish (String.ofList ((data.lookup "tag").getD [])) (data.lookup "cycle") (data.lookup "arch")
  | none =>
    match (TagRegex.unknown ++ TagRegex.arch ++ Regex.eol).matchStart tag.toList with
    | some data => finish (String.ofList ((data.lookup "tag").getD [])) none (data.lookup "arch")
    | none => finish tag none none

/-! ### Comparison -/

/-- Compare two integers that may be none. -/
def compareInt (left right : Option ℕ) : Ordering := compareOptional left right false

/-- Compare two strings that may be none. -/
def compareStr (left right : Option String) (noneLast : Bool := false) : Ordering :=
  compareOptional left right noneLast

/-- Only two image tags of the same underlying type can be compared. -/
def isComparableType (self other : RSPImageTag) : Bool := self.imageType == other.imageType

variable [Ord Version]

/-- Compare two image tags for sorting purposes; `none` when they are not comparable. -/
def compare (self other : RSPImageTag) : Option Ordering :=
  if !self.isComparableType other then none
  else
    -- If either tag has no semantic version, compare the base tag name first.
    let rank :=
      match self.version, other.version with
      | some version, some version' => Ord.compare version version'
      | _, _ => compareStr self.base other.base
    -- For the architecture, images without one sort after images with one.
    some <| rank.then <| (compareInt self.cycle other.cycle).then <|
      (compareInt self.cycleBuild other.cycleBuild).then <|
      (compareInt self.build other.build).then <|
      (compareStr self.extra other.extra).then <|
      compareStr self.architecture other.architecture true

/-- `self < other`; `none` when they are not comparable. -/
def lt (self other : RSPImageTag) : Option Bool := (self.compare other).map (· == .lt)

/-- `self == other` -/
def eq (self other : RSPImageTag) : Bool := self.compare other == some .eq

omit [Ord Version] in
/-- `hash(self)`, where `strHash` is the hash of a text -/
def hash (strHash : String → ℤ) (self : RSPImageTag) : ℤ := strHash self.tag

end RSPImageTag

end Nublado.Images
