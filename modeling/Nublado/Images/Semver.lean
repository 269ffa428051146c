import Nublado.Foundations.Comparison
import Nublado.Foundations.Decimal
import Nublado.Images.Models

/-!
# Precedence of semantic versions

Versions are compared by major, minor and patch number, and then by pre-release, where a version that
has none comes last. A pre-release is a list of identifiers, separated by dots: those that consist of
digits are compared as numbers and precede all others, which are compared as texts, character by
character; and a list precedes its extensions.
-/

namespace Nublado.Images

namespace Version

/-- What an identifier is compared by: whether it is a text, its number and its text. -/
def identifierKey (identifier : List Char) : Bool × ℕ × List Char :=
  if identifier ≠ [] ∧ identifier.all Char.isDigit then (false, digitsValue identifier, [])
  else (true, 0, identifier)

/-- Compare two identifiers of a pre-release. -/
def compareIdentifiers : List Char → List Char → Ordering :=
  compareLex (compareOn fun identifier ↦ (identifierKey identifier).1) <|
  compareLex (compareOn fun identifier ↦ (identifierKey identifier).2.1)
    (compareOn fun identifier ↦ (identifierKey identifier).2.2)

/-- The identifiers of the pre-release; an empty one counts as none. -/
def identifiers (version : Version) : Option (List (List Char)) :=
  (version.prerelease.filter (· ≠ "")).map fun prerelease ↦ prerelease.toList.splitOn '.'

/-- Compare two versions that may be pre-releases of the same version. -/
def comparePrerelease (a b : Version) : Ordering :=
  (compare a.identifiers.isNone b.identifiers.isNone).then <|
    (a.identifiers.getD []).compareLex compareIdentifiers (b.identifiers.getD [])

/-- `self.compare(other)` -/
def precedence : Version → Version → Ordering :=
  compareLex (compareOn major) <| compareLex (compareOn minor) <|
    compareLex (compareOn patch) comparePrerelease

instance : Std.TransCmp compareIdentifiers := by
  have hkey : Std.TransCmp <| compareLex
      (compareOn fun identifier ↦ (identifierKey identifier).1) <|
      compareLex (compareOn fun identifier ↦ (identifierKey identifier).2.1)
        (compareOn fun identifier ↦ (identifierKey identifier).2.2) := inferInstance
  exact hkey

/-- **Precedence is a total preorder.** -/
instance : Std.TransCmp precedence := by
  have hnone : Std.TransCmp fun a b : Version ↦
      compare a.identifiers.isNone b.identifiers.isNone :=
    transCmp_comap compare fun version : Version ↦ version.identifiers.isNone
  have hlist : Std.TransCmp fun a b : Version ↦
      (a.identifiers.getD []).compareLex compareIdentifiers (b.identifiers.getD []) :=
    transCmp_comap (List.compareLex compareIdentifiers) fun version : Version ↦
      version.identifiers.getD []
  have hprerelease : Std.TransCmp comparePrerelease := inferInstanceAs <| Std.TransCmp <| compareLex
    (fun a b : Version ↦ compare a.identifiers.isNone b.identifiers.isNone) fun a b ↦
      (a.identifiers.getD []).compareLex compareIdentifiers (b.identifiers.getD [])
  exact inferInstanceAs <| Std.TransCmp <| compareLex (compareOn major) <|
    compareLex (compareOn minor) <| compareLex (compareOn patch) comparePrerelease

/-- The order of versions that image tags are sorted by. -/
abbrev semanticOrder : Ord Version := ⟨precedence⟩

/-- Texts are compared as texts. -/
theorem compareIdentifiers_text {a b : List Char} (ha : a.all Char.isDigit = false)
    (hb : b.all Char.isDigit = false) : compareIdentifiers a b = compare a b := by
  have hkey : ∀ {cs : List Char}, cs.all Char.isDigit = false → identifierKey cs = (true, 0, cs) :=
    fun h ↦ by rw [identifierKey, if_neg (by simp [h])]
  simp only [compareIdentifiers, compareLex, compareOn, hkey ha, hkey hb]
  simp

/-- **Versions that differ in a pre-release of one text identifier** are ordered by the texts. -/
theorem precedence_text (major minor patch : ℕ) {a b : List Char} (ha : a.all Char.isDigit = false)
    (hb : b.all Char.isDigit = false) (hdot : '.' ∉ a) (hdot' : '.' ∉ b) :
    precedence { major, minor, patch, prerelease := some (String.ofList a) }
      { major, minor, patch, prerelease := some (String.ofList b) } = compare a b := by
  have hidentifiers : ∀ {cs : List Char}, cs.all Char.isDigit = false → '.' ∉ cs →
      identifiers { major, minor, patch, prerelease := some (String.ofList cs) } = some [cs] := by
    intro cs hcs hcsDot
    have hne : cs ≠ [] := fun h ↦ by simp [h] at hcs
    rw [identifiers, Option.filter_some, if_pos (by simpa [String.ext_iff] using hne),
      Option.map_some, String.toList_ofList, List.splitOn_eq_singleton]
    exact hcsDot
  simp only [precedence, compareLex, compareOn, comparePrerelease, hidentifiers ha hdot,
    hidentifiers hb hdot', Option.getD_some, List.compareLex_cons_cons, List.compareLex_nil_nil,
    compareIdentifiers_text ha hb]
  simp

end Version

end Nublado.Images
