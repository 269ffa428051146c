import Mathlib.Data.Finset.Card
import Mathlib.Data.Int.Notation
import Mathlib.Data.List.Sort
import Mathlib.Data.Nat.Notation
import Mathlib.Data.String.Basic

/-!
# Image models

The plain data of image tags: two operations on texts, the type (release series) of an image,
semantic versions, points in time, and the policy by which images are filtered.

* **Sets** are iterated in an order that the language does not specify. It is a parameter, `SetOrder`,
  of everything that iterates over one.

* **Versions** come from a package outside the repository. The model has their fields; their
  precedence is the `Ord Version` instance that the developments below take as a variable.
* **Points in time** are whole microseconds in UTC since the first day of year 1, the resolution of
  the language's own type. The calendar functions are the standard library's, with `none` where it
  raises.
-/

namespace Nublado.Images

/-! ### Texts -/

/-- `s.replace(old, new)` on characters, from left to right; `skip` characters belong to the last
occurrence found. -/
def replaceChars (old new : List Char) : ℕ → List Char → List Char
  | _, [] => []
  | skip + 1, _ :: cs => replaceChars old new skip cs
  | 0, c :: cs =>
    if old.isPrefixOf (c :: cs) then new ++ replaceChars old new (old.length - 1) cs
    else c :: replaceChars old new 0 cs

/-- `s.replace(old, new)` for a nonempty `old` -/
def replaceText (s old new : String) : String :=
  String.ofList (replaceChars old.toList new.toList 0 s.toList)

/-- `part in s` -/
def hasText (s part : String) : Bool := s.toList.tails.any part.toList.isPrefixOf

/-! ### Sets -/

/-- The order in which the members of a set of strings are visited. -/
structure SetOrder where
  toList : Finset String → List String
  mem_toList : ∀ s a, a ∈ toList s ↔ a ∈ s
  nodup_toList : ∀ s, (toList s).Nodup

/-- Visit the members of a set in alphabetical order, by a sort that can be evaluated. -/
def insertionOrder : SetOrder where
  toList s := Quot.liftOn s.1 (List.insertionSort (· ≤ ·)) fun l l' (hperm : l.Perm l') ↦
    List.Perm.eq_of_pairwise (fun _ _ _ _ ↦ le_antisymm) (List.pairwise_insertionSort _ l)
      (List.pairwise_insertionSort _ l')
      ((List.perm_insertionSort _ l).trans (hperm.trans (List.perm_insertionSort _ l').symm))
  mem_toList := by
    rintro ⟨⟨l⟩, hnodup⟩ a
    exact List.mem_insertionSort _
  nodup_toList := by
    rintro ⟨⟨l⟩, hnodup⟩
    exact (List.perm_insertionSort _ l).nodup_iff.2 hnodup

/-! ### Types and versions -/

/-- The type (generally, release series) of the identified image. -/
inductive RSPImageType
  | «alias» | release | weekly | daily | candidate | experimental | unknown
  deriving DecidableEq

namespace RSPImageType

/-- The enumeration's values. -/
def value : RSPImageType → String
  | «alias» => "Alias"
  | release => "Release"
  | weekly => "Weekly"
  | daily => "Daily"
  | candidate => "Release Candidate"
  | experimental => "Experimental"
  | unknown => "Unknown"

/-- The types in order of priority when constructing menus, which is how iteration over the
enumeration runs. -/
def all : List RSPImageType :=
  [«alias», release, weekly, daily, candidate, experimental, unknown]

theorem mem_all (t : RSPImageType) : t ∈ all := by
  cases t <;> decide

theorem nodup_all : all.Nodup := by
  decide

/-- Types of tags that have meaningful semantic versions, used for filtering. -/
def isSemantic (t : RSPImageType) : Bool :=
  t == release || t == candidate

/-- Image types that may be aliases and can be resolved. -/
def isAliasType (t : RSPImageType) : Bool :=
  t == «alias» || t == unknown

end RSPImageType

/-- A semantic version. -/
structure Version where
  major : ℕ
  minor : ℕ
  patch : ℕ
  prerelease : Option String := none
  build : Option String := none
  deriving DecidableEq

/-! ### Points in time -/

/-- Microseconds since the first moment of year 1, in UTC. -/
abbrev Datetime := ℤ

/-- A length of time in microseconds. -/
abbrev Timedelta := ℤ

namespace Datetime

def minYear : ℕ := 1
def maxYear : ℕ := 9999

def isLeap (year : ℕ) : Bool :=
  year % 4 == 0 && (year % 100 != 0 || year % 400 == 0)

/-- The number of days before January 1st of the year. -/
def daysBeforeYear (year : ℕ) : ℕ :=
  (year - 1) * 365 + (year - 1) / 4 - (year - 1) / 100 + (year - 1) / 400

def daysInMonth (year month : ℕ) : ℕ :=
  if month == 2 then (if isLeap year then 29 else 28)
  else if month == 4 || month == 6 || month == 9 || month == 11 then 30
  else 31

/-- The number of days in the year before the first day of the month. -/
def daysBeforeMonth (year month : ℕ) : ℕ :=
  (List.range (month - 1)).foldl (fun days m ↦ days + daysInMonth year (m + 1)) 0

/-- The ordinal of a day, counting January 1st of year 1 as day 1. -/
def ymdToOrd (year month day : ℕ) : ℕ :=
  daysBeforeYear year + daysBeforeMonth year month + day

/-- The ordinal of the Monday that starts week 1 of the year. -/
def isoWeek1Monday (year : ℕ) : ℕ :=
  let firstDay := ymdToOrd year 1 1
  let firstWeekday := (firstDay + 6) % 7
  let week1Monday := firstDay - firstWeekday
  if firstWeekday > 3 then week1Monday + 7 else week1Monday

/-- Midnight of a day. -/
def ofOrdinal (ord : ℕ) : Datetime := ((ord : ℤ) - 1) * 86400000000

/-- Midnight of a calendar day. -/
def ofYmd (year month day : ℕ) : Option Datetime :=
  if minYear ≤ year ∧ year ≤ maxYear ∧ 1 ≤ month ∧ month ≤ 12 ∧ 1 ≤ day ∧
      day ≤ daysInMonth year month then
    some (ofOrdinal (ymdToOrd year month day))
  else none

/-- Midnight of a day given by year, week and day of the week. -/
def ofIsoCalendar (year week day : ℕ) : Option Datetime :=
  if ¬ (minYear ≤ year ∧ year ≤ maxYear) then none
  else if ¬ (0 < week ∧ week < 53) ∧ ¬ (week = 53 ∧
      (ymdToOrd year 1 1 % 7 = 4 ∨ ymdToOrd year 1 1 % 7 = 3 ∧ isLeap year = true)) then none
  else if ¬ (0 < day ∧ day < 8) then none
  else some (ofOrdinal (isoWeek1Monday year + ((week - 1) * 7 + (day - 1))))

/-- A point in time less a length of time; `none` where the result is not a date. -/
def minus (t : Datetime) (d : Timedelta) : Option Datetime :=
  if 0 ≤ t - d ∧ t - d < ofOrdinal (ymdToOrd (maxYear + 1) 1 1) then some (t - d) else none

/-- Whether the calendar has a point in time. -/
def Exists (t : ℤ) : Prop := 0 ≤ t ∧ t < ofOrdinal (ymdToOrd (maxYear + 1) 1 1)

instance (t : ℤ) : Decidable (Exists t) := inferInstanceAs (Decidable (_ ∧ _))

/-- A point in time plus a length of time; `none` where the result is not a date. -/
def plus (t : Datetime) (d : Timedelta) : Option Datetime :=
  if Exists (t + d) then some (t + d) else none

end Datetime

/-! ### Filter policies -/

/-- Policy for images to display within a given category. -/
structure ImageFilter where
  /-- Number of images to retain. -/
  number : Option ℕ := none
  /-- Maximum age of image to retain. -/
  age : Option Timedelta := none
  /-- Minimum build number for images containing a build number. -/
  cutoffBuild : Option ℤ := none
  /-- Minimum date of image to display. -/
  cutoffDate : Option Datetime := none
  /-- Minimum version of image to display. -/
  cutoffVersion : Option Version := none

/-- Configuration for display of images. -/
structure ImageFilterPolicy where
  release : ImageFilter := {}
  weekly : ImageFilter := {}
  daily : ImageFilter := {}
  releaseCandidate : ImageFilter := {}
  experimental : ImageFilter := {}

/-- The filter for images of a type; aliases and unknown tags are not filtered. -/
def ImageFilterPolicy.forImageType (policy : ImageFilterPolicy) :
    RSPImageType → Option ImageFilter
  | .alias => none
  | .release => some policy.release
  | .weekly => some policy.weekly
  | .daily => some policy.daily
  | .candidate => some policy.releaseCandidate
  | .experimental => some policy.experimental
  | .unknown => none

end Nublado.Images
