import Nublado.Images.Candidates
import Nublado.Images.Properties.Partition
import Nublado.Images.Properties.TagOrdering
import Nublado.Images.Semver

/-!
# Candidates of a release are ordered as texts

`sortsNumerically_iff`: two candidates of a release are ordered by their numbers, as is what a
collection calls its latest candidate and what a filter keeps, **exactly when** the smaller number is
at most what the leading digits of the larger form, as many of them as the smaller has. So candidates
zero to nine of a release are in order, and ninety-nine follows nine, but ten precedes it.

## What this rests on

* The pre-release of a candidate's version is one identifier that begins with letters, and such
  identifiers are compared as texts (`Version.precedence_text`): `rc10` precedes `rc9`.
* All other parts of the tags are the same, so the numerals decide (`compare_candidate`).
* How numerals compare as texts is `compare_numeral_eq_iff`.
-/

namespace Nublado.Images

/-! ### Order in collections -/

namespace RSPImageTagCollection

/-- `c` is a collection that holds `members`, all of which were parsed. -/
structure Collects [Ord Version] (title : String → String) (c : RSPImageTagCollection RSPImageTag)
    (members : List RSPImageTag) : Prop where
  parsed : ∀ t ∈ members, t.Parsed title
  indexed : Indexed id c members
  sorted : c.Sorted

variable [Ord Version] {title : String → String} {c : RSPImageTagCollection RSPImageTag}
  {members : List RSPImageTag} {a b : RSPImageTag}

/-- **Building a collection** of parsed tags gives one that holds them. -/
theorem collects_build {tags added : List RSPImageTag}
    (hparsed : ∀ t ∈ tags ++ added, t.Parsed title) (h : build tags added = some c) :
    Collects title c (tags ++ added) := by
  obtain ⟨c', hc', hindexed, hsorted⟩ := build_spec tags added
  obtain rfl := Option.some.inj (h.symm.trans hc')
  exact ⟨hparsed, hindexed, hsorted⟩

variable [Std.TransOrd Version]

/-- Lists are sorted from greatest to least. -/
theorem Collects.pairwise (h : Collects title c members) (type : RSPImageType) :
    (c.byType type).Pairwise fun a b ↦ RSPImageTag.rank a b ≠ .lt :=
  h.sorted.pairwise h.indexed (fun t ht ↦ (h.parsed t ht).ranked) type

/-- The latest tag is not less than another of its type. -/
theorem Collects.latest (h : Collects title c members) {type : RSPImageType}
    (ha : c.latest type = some a) (hb : b ∈ members) (htype : b.imageType = type) :
    RSPImageTag.rank a b ≠ .lt :=
  not_lt_of_head (h.pairwise type) ha (h.indexed.mem_byType.2 ⟨hb, htype⟩)

/-- **A filter that keeps a tag keeps a greater one** unless it hides or rejects that. -/
theorem Collects.kept (h : Collects title c members) {policy : ImageFilterPolicy}
    {ageBasis : Datetime} {removeArchSpecific : Bool} {kept : List RSPImageTag}
    (hfilter : c.filter id policy ageBasis false removeArchSpecific = some kept) (ha : a ∈ kept)
    (hb : b ∈ members) (htype : b.imageType = a.imageType) (hrank : RSPImageTag.rank a b = .lt)
    (harch : b.isArchSpecific = a.isArchSpecific)
    (hrejects : ∀ f date, rejects f date a = false → rejects f date b = false) : b ∈ kept := by
  rw [filter_eq, Option.ite_none_right_eq_some] at hfilter
  have hkept := Option.some.inj hfilter.2
  subst hkept
  simp only [Bool.false_eq_true, if_false, List.mem_flatMap] at ha ⊢
  obtain ⟨t, ht, ha⟩ := ha
  refine ⟨t, ht, ?_⟩
  have hcandidate : a ∈ candidates id (c.byType t) removeArchSpecific :=
    (accepted_sublist id _ _ _ _).subset ha
  obtain ⟨hlisted, hshown⟩ := List.mem_filter.1 hcandidate
  have hbCandidate : b ∈ candidates id (c.byType t) removeArchSpecific := by
    have hbListed : b ∈ c.byType t :=
      h.indexed.mem_byType.2 ⟨hb, htype.trans (h.indexed.mem_byType.1 hlisted).2⟩
    have hbShown : (!(removeArchSpecific && b.isArchSpecific)) = true := by
      rw [harch]
      exact hshown
    exact List.mem_filter.2 ⟨hbListed, hbShown⟩
  generalize policy.forImageType t = filter at ha ⊢
  rcases filter with _ | f
  · exact hbCandidate
  · rw [accepted, Option.elim_some, takeAccepted_eq] at ha ⊢
    have hpairwise : (candidates id (c.byType t) removeArchSpecific).Pairwise fun a b ↦
        RSPImageTag.rank a b ≠ .lt := (h.pairwise t).sublist List.filter_sublist
    have haccepted := List.mem_filter.1 (newest_subset ha)
    refine mem_newest_of_pairwise (hpairwise.sublist List.filter_sublist) ha
      (List.mem_filter.2 ⟨hbCandidate, ?_⟩) (not_not.2 hrank)
    simpa using hrejects f _ (by simpa using haccepted.2)

end RSPImageTagCollection

/-! ### Candidates -/

namespace RSPImageTag.Release

/-- Tags are compared with the precedence of semantic versions. -/
local instance candidateOrder : Ord Version := Version.semanticOrder

local instance candidateOrder_transOrd : Std.TransOrd Version :=
  inferInstanceAs (Std.TransCmp Version.precedence)

variable {r : Release}

/-- **Versions of candidates compare like their numerals.** -/
theorem compare_version (r : Release) (i j : ℕ) :
    Ord.compare (r.version i) (r.version j) = Ord.compare (numeral i) (numeral j) := by
  have hletter : ∀ n, (pre n).all Char.isDigit = false := fun n ↦ rfl
  have hdot : ∀ n, '.' ∉ pre n := by
    intro n hmem
    rcases List.mem_append.1 hmem with hmem | hmem
    · exact absurd hmem (by decide)
    · exact absurd (isDigit_of_mem_numeral hmem) (by decide)
  have htext : Version.precedence (r.version i) (r.version j) = Ord.compare (pre i) (pre j) :=
    Version.precedence_text _ _ _ (hletter i) (hletter j) (hdot i) (hdot j)
  have hsame : ∀ c : Char, Ord.compare c c = .eq := fun c ↦ Std.ReflCmp.compare_self
  have hprefix : Ord.compare (pre i) (pre j) = Ord.compare (numeral i) (numeral j) := by
    show Ord.compare ('r' :: 'c' :: numeral i) ('r' :: 'c' :: numeral j) = _
    rw [List.compare_cons_cons, List.compare_cons_cons, hsame, hsame]
    rfl
  exact htext.trans hprefix

/-- So do the candidates, which agree in everything else. -/
theorem compare_candidate (h : r.Convertible) (i j : ℕ) :
    (fromStr (r.candidate i)).compare (fromStr (r.candidate j)) =
      some (Ord.compare (numeral i) (numeral j)) := by
  obtain ⟨displayName, hi⟩ := fromStr_candidate h i
  obtain ⟨displayName', hj⟩ := fromStr_candidate h j
  have hint : ∀ k : Option ℕ, compareInt k k = .eq := fun k ↦ compareOptional_eq_eq.2 rfl
  have hstr : ∀ (s : Option String) (noneLast : Bool), compareStr s s noneLast = .eq :=
    fun s noneLast ↦ compareOptional_eq_eq.2 rfl
  rw [hi, hj]
  simp [RSPImageTag.compare, isComparableType, compare_version, hint, hstr]

/-- A filter that does not reject a candidate does not reject a greater one. -/
theorem not_rejects_candidate (h : r.Convertible) {i j : ℕ}
    (hlt : Ord.compare (numeral i) (numeral j) = .lt) (f : ImageFilter) (date : Option Datetime)
    (hi : RSPImageTagCollection.rejects f date (fromStr (r.candidate i)) = false) :
    RSPImageTagCollection.rejects f date (fromStr (r.candidate j)) = false := by
  obtain ⟨displayName, htag⟩ := fromStr_candidate h i
  obtain ⟨displayName', htag'⟩ := fromStr_candidate h j
  rw [htag] at hi
  rw [htag']
  have hversion : Ord.compare (r.version i) (r.version j) = .lt :=
    (compare_version r i j).trans hlt
  have hcutoff : ∀ cutoff, Ord.compare (r.version i) cutoff ≠ .lt →
      Ord.compare (r.version j) cutoff ≠ .lt := fun cutoff hnot hless ↦
    hnot (Std.TransCmp.lt_trans hversion hless)
  simp only [RSPImageTagCollection.rejects, Bool.or_false, Bool.true_and,
    Bool.or_eq_false_iff] at hi ⊢
  refine ⟨hi.1, ?_⟩
  generalize f.cutoffVersion = cutoffVersion at hi ⊢
  rcases cutoffVersion with _ | cutoff
  · rfl
  · exact beq_eq_false_iff_ne.2 (hcutoff cutoff (beq_eq_false_iff_ne.1 hi.2))

/-- **Two candidates of a release are ordered by their numbers**, and collections and filters go by
that order. -/
structure SortsNumerically (title : String → String) (r : Release) (i j : ℕ) : Prop where
  /-- Both tags are taken for candidates. -/
  candidates : ∀ n ∈ [i, j], (fromStr (r.candidate n)).imageType = .candidate
  /-- One sorts before the other just when its number is less. -/
  lt_iff : (fromStr (r.candidate i)).lt (fromStr (r.candidate j)) = some (decide (i < j))
  /-- They are equal only if their numbers are. -/
  eq_imp : (fromStr (r.candidate i)).eq (fromStr (r.candidate j)) = true → i = j
  /-- A collection that has both does not take the lesser number for its latest candidate. -/
  latest : ∀ (tags added : List RSPImageTag) (c : RSPImageTagCollection RSPImageTag),
    (∀ t ∈ tags ++ added, t.Parsed title) →
    RSPImageTagCollection.build tags added = some c →
    fromStr (r.candidate j) ∈ tags ++ added →
    c.latest .candidate = some (fromStr (r.candidate i)) → j ≤ i
  /-- A filter, whatever number of candidates it keeps, does not keep only the lesser number. -/
  kept : ∀ (tags added : List RSPImageTag) (c : RSPImageTagCollection RSPImageTag),
    (∀ t ∈ tags ++ added, t.Parsed title) →
    RSPImageTagCollection.build tags added = some c →
    fromStr (r.candidate j) ∈ tags ++ added →
    ∀ (policy : ImageFilterPolicy) (ageBasis : Datetime) (removeArchSpecific : Bool)
      (kept : List RSPImageTag),
      c.filter id policy ageBasis false removeArchSpecific = some kept →
      fromStr (r.candidate i) ∈ kept → i < j → fromStr (r.candidate j) ∈ kept

/-- **Candidates sort numerically exactly when** no other number of the tags is too long to be
converted, and the smaller candidate number is at most what the leading digits of the larger form. -/
theorem sortsNumerically_iff (title : String → String) (r : Release) (i j : ℕ) :
    SortsNumerically title r i j ↔ r.Convertible ∧ LeadingDigitsOrdered i j := by
  constructor
  · intro h
    have hconvertible : r.Convertible := convertible_of_candidate (h.candidates i (by simp))
    refine ⟨hconvertible, compare_numeral_eq_iff.1 ?_⟩
    have hlt : (Ord.compare (numeral i) (numeral j) == .lt) = decide (i < j) := by
      have h := h.lt_iff
      rw [RSPImageTag.lt, compare_candidate hconvertible] at h
      exact Option.some.inj h
    have heq : Ord.compare (numeral i) (numeral j) = .eq → i = j := by
      intro heq
      have h := h.eq_imp
      rw [RSPImageTag.eq, compare_candidate hconvertible, heq] at h
      exact h rfl
    rcases lt_trichotomy i j with hij | rfl | hij
    · rw [compare_lt_iff_lt.2 hij]
      simpa [hij] using hlt
    · have hnumeral : Ord.compare (numeral i) (numeral i) = .eq := Std.ReflCmp.compare_self
      rw [hnumeral, compare_eq_iff_eq.2 rfl]
    · rw [compare_gt_iff_gt.2 hij]
      rcases hcompare : Ord.compare (numeral i) (numeral j)
      · simp [hcompare, hij.not_gt] at hlt
      · exact absurd (heq hcompare) hij.ne'
      · rfl
  · rintro ⟨hconvertible, hordered⟩
    have hcompare : (fromStr (r.candidate i)).compare (fromStr (r.candidate j)) =
        some (Ord.compare i j) := by
      rw [compare_candidate hconvertible, compare_numeral_eq_iff.2 hordered]
    have htype : ∀ n, (fromStr (r.candidate n)).imageType = .candidate := fun n ↦ by
      obtain ⟨displayName, hn⟩ := fromStr_candidate hconvertible n
      rw [hn]
    have hrank : rank (fromStr (r.candidate i)) (fromStr (r.candidate j)) = Ord.compare i j :=
      Option.some.inj ((compare_eq_rank (fromStr_ranked _) (fromStr_ranked _)
        ((htype i).trans (htype j).symm)).symm.trans hcompare)
    refine ⟨fun n _ ↦ htype n, ?_, ?_, ?_, ?_⟩
    · rw [RSPImageTag.lt, hcompare, Option.map_some, Option.some_inj, Bool.eq_iff_iff, beq_iff_eq,
        decide_eq_true_iff]
      exact compare_lt_iff_lt
    · intro heq
      rw [RSPImageTag.eq, hcompare, beq_iff_eq, Option.some_inj] at heq
      exact compare_eq_iff_eq.1 heq
    · intro tags added c hparsed hbuild hj hi
      have hnot := (RSPImageTagCollection.collects_build hparsed hbuild).latest hi hj (htype j)
      rw [hrank, ne_eq, compare_lt_iff_lt] at hnot
      exact Nat.le_of_not_lt hnot
    · intro tags added c hparsed hbuild hj policy ageBasis removeArchSpecific kept hfilter hi hij
      have hless : Ord.compare i j = .lt := compare_lt_iff_lt.2 hij
      refine (RSPImageTagCollection.collects_build hparsed hbuild).kept hfilter hi hj
        ((htype j).trans (htype i).symm) (hrank.trans hless) ?_ (not_rejects_candidate hconvertible
          ((compare_numeral_eq_iff.2 hordered).trans hless))
      obtain ⟨displayName, htag⟩ := fromStr_candidate hconvertible i
      obtain ⟨displayName', htag'⟩ := fromStr_candidate hconvertible j
      rw [htag, htag']
      rfl

/-- Release 23.0.0, without optional parts. -/
def plainRelease : Release where
  major := 23
  minor := 0
  patch := 0
  suffix := { text := [], data := [], matchStart_eq := by decide +kernel }

/-- **Candidate ten precedes candidate nine**, which therefore remains the latest. -/
theorem candidate_ten_precedes_nine :
    (plainRelease.candidate 9 = "r23_0_0_rc9" ∧ plainRelease.candidate 10 = "r23_0_0_rc10" ∧
      ¬ SortsNumerically id plainRelease 9 10) ∧
    ∃ c, RSPImageTagCollection.build [fromStr "r23_0_0_rc9", fromStr "r23_0_0_rc10"] [] = some c ∧
      c.latest .candidate = some (fromStr "r23_0_0_rc9") := by
  refine ⟨⟨by decide +kernel, by decide +kernel, fun h ↦ ?_⟩, ?_⟩
  · have hgreater : (fromStr (plainRelease.candidate 9)).lt (fromStr (plainRelease.candidate 10)) =
        some false := by decide +kernel
    rw [h.lt_iff] at hgreater
    exact absurd hgreater (by decide)
  · obtain ⟨c, hc, -⟩ := RSPImageTagCollection.build_spec
      [fromStr "r23_0_0_rc9", fromStr "r23_0_0_rc10"] []
    have hlatest : (RSPImageTagCollection.build [fromStr "r23_0_0_rc9", fromStr "r23_0_0_rc10"]
        []).map (fun c ↦ c.latest .candidate) = some (some (fromStr "r23_0_0_rc9")) := by
      decide +kernel
    rw [hc] at hlatest
    exact ⟨c, hc, Option.some.inj hlatest⟩

end RSPImageTag.Release

end Nublado.Images
