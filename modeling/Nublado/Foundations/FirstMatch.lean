import Mathlib.Data.Fintype.Defs
import Mathlib.Data.Set.Finite.List
import Mathlib.Data.List.Basic

/-!
# First-match lists of patterns

A `Pattern` names a value for some of the fields of a point, and leaves the others open. A list of rules,
each a pattern with a result, gives a point the result of the first rule that matches it (`firstMatch`).

Where a field has infinitely many values, every pattern has a *generic* point: the rules of a given list
that match it match all points of the pattern (`exists_generic`). So whether two lists give the same
results everywhere can be told from their rules alone, two at a time (`firstMatch_congr_iff`).
-/

namespace Nublado

/-- A pattern: a value for each field, or any. -/
abbrev Pattern (F α : Type*) := F → Option α

namespace Pattern

variable {F α : Type*} {p q r : Pattern F α} {c : F → α}

/-- The pattern matches the point. -/
def Matches (p : Pattern F α) (c : F → α) : Prop := ∀ f, ∀ a ∈ p f, c f = a

instance [Fintype F] [DecidableEq α] (p : Pattern F α) (c : F → α) : Decidable (p.Matches c) :=
  inferInstanceAs (Decidable (∀ f, ∀ a ∈ p f, c f = a))

/-- Every point that `q` matches, `p` matches. -/
def Covers (p q : Pattern F α) : Prop := ∀ f, ∀ a ∈ p f, q f = some a

/-- Some point is matched by both. -/
def Overlaps (p q : Pattern F α) : Prop := ∀ f, ∀ a ∈ p f, ∀ b ∈ q f, a = b

/-- The points that both match. -/
def meet (p q : Pattern F α) : Pattern F α := fun f ↦ (p f).or (q f)

theorem Covers.matches (h : p.Covers q) (hq : q.Matches c) : p.Matches c :=
  fun f a ha ↦ hq f a (h f a ha)

theorem overlaps_of_matches (hp : p.Matches c) (hq : q.Matches c) : p.Overlaps q :=
  fun f a ha b hb ↦ (hp f a ha).symm.trans (hq f b hb)

theorem matches_meet (hp : p.Matches c) (hq : q.Matches c) : (p.meet q).Matches c := by
  intro f a ha
  have ha : (p f).or (q f) = some a := ha
  rcases Option.or_eq_some_iff.1 ha with h | ⟨-, h⟩
  · exact hp f a h
  · exact hq f a h

/-- The first of two overlapping patterns covers what they share, and so does the second. -/
theorem Overlaps.covers_meet (h : p.Overlaps q) : p.Covers (p.meet q) ∧ q.Covers (p.meet q) := by
  constructor
  · intro f a ha
    exact Option.or_eq_some_iff.2 (Or.inl ha)
  · intro f b hb
    refine Option.or_eq_some_iff.2 ?_
    rcases hp : p f with _ | a
    · exact Or.inr ⟨rfl, hb⟩
    · exact Or.inl (by rw [h f a hp b hb])

/-- **Generic points.** A pattern matches a point that only those of finitely many patterns match that
cover it. -/
theorem exists_generic [Infinite α] (p : Pattern F α) (qs : List (Pattern F α)) :
    ∃ c, p.Matches c ∧ ∀ q ∈ qs, q.Matches c → q.Covers p := by
  have hfresh : ∀ f, ∃ a, ∀ q ∈ qs, q f ≠ some a := by
    intro f
    obtain ⟨a, ha⟩ := (List.finite_toSet (qs.filterMap fun q ↦ q f)).exists_notMem
    refine ⟨a, fun q hq heq ↦ ha ?_⟩
    exact List.mem_filterMap.2 ⟨q, hq, heq⟩
  choose fresh hfresh using hfresh
  refine ⟨fun f ↦ (p f).getD (fresh f), ?_, ?_⟩
  · intro f a ha
    show (p f).getD (fresh f) = a
    rw [Option.mem_def.1 ha, Option.getD_some]
  · intro q hq hmatches f a ha
    have hvalue : (p f).getD (fresh f) = a := hmatches f a ha
    rcases hp : p f with _ | b
    · rw [hp, Option.getD_none] at hvalue
      exact absurd (hvalue ▸ ha) (hfresh f q hq)
    · rw [hp, Option.getD_some] at hvalue
      rw [hvalue]

end Pattern

/-! ### First matches -/

section FirstMatch

variable {F α β : Type*} [Fintype F] [DecidableEq α] {rules rules' : List (Pattern F α × β)}
  {c : F → α} {b : β}

/-- The result of the first rule that matches. -/
def firstMatch (rules : List (Pattern F α × β)) (c : F → α) : Option β :=
  (rules.find? fun rule ↦ decide (rule.1.Matches c)).map Prod.snd

/-- No rule matches. -/
theorem firstMatch_eq_none : firstMatch rules c = none ↔ ∀ rule ∈ rules, ¬ rule.1.Matches c := by
  simp [firstMatch]

/-- A rule matches, and none of those before it. -/
theorem firstMatch_eq_some : firstMatch rules c = some b ↔ ∃ before rule after,
    rules = before ++ rule :: after ∧ (∀ r ∈ before, ¬ r.1.Matches c) ∧ rule.1.Matches c ∧
      rule.2 = b := by
  constructor
  · intro h
    obtain ⟨rule, hfind, hb⟩ := Option.map_eq_some_iff.1 h
    obtain ⟨hrule, before, after, rfl, hbefore⟩ := List.find?_eq_some_iff_append.1 hfind
    refine ⟨before, rule, after, rfl, fun r hr ↦ ?_, of_decide_eq_true hrule, hb⟩
    simpa using hbefore r hr
  · rintro ⟨before, rule, after, rfl, hbefore, hrule, rfl⟩
    refine Option.map_eq_some_iff.2 ⟨rule, ?_, rfl⟩
    exact List.find?_eq_some_iff_append.2
      ⟨decide_eq_true hrule, before, after, rfl, fun r hr ↦ by simpa using hbefore r hr⟩

/-- A rule comes first for some of the points that it shares with another pattern: no rule before it covers
what they share. -/
def IsFirst (before : List (Pattern F α × β)) (shared : Pattern F α) : Prop :=
  ∀ r ∈ before, ¬ r.1.Covers shared

/-- Two lists of rules agree: each pattern of one is covered by one of the other, and rules of the two that
share points for which both come first have the same result. -/
structure Agree (rules rules' : List (Pattern F α × β)) : Prop where
  covered : ∀ rule ∈ rules, ∃ rule' ∈ rules', rule'.1.Covers rule.1
  covered' : ∀ rule' ∈ rules', ∃ rule ∈ rules, rule.1.Covers rule'.1
  results : ∀ before rule after before' rule' after', rules = before ++ rule :: after →
    rules' = before' ++ rule' :: after' → rule.1.Overlaps rule'.1 →
    IsFirst before (rule.1.meet rule'.1) → IsFirst before' (rule.1.meet rule'.1) → rule.2 = rule'.2

/-- **Lists of rules give the same results** exactly if they agree. -/
theorem firstMatch_congr_iff [Infinite α] :
    (∀ c, firstMatch rules c = firstMatch rules' c) ↔ Agree rules rules' := by
  constructor
  · intro h
    have hcovered : ∀ {rules rules' : List (Pattern F α × β)},
        (∀ c, firstMatch rules c = firstMatch rules' c) →
        ∀ rule ∈ rules, ∃ rule' ∈ rules', rule'.1.Covers rule.1 := by
      intro rules rules' h rule hrule
      obtain ⟨c, hmatches, hgeneric⟩ := Pattern.exists_generic rule.1 (rules'.map Prod.fst)
      by_contra hnone
      push Not at hnone
      have hno : firstMatch rules' c = none := by
        refine firstMatch_eq_none.2 fun rule' hrule' hmatches' ↦ hnone rule' hrule' ?_
        exact hgeneric _ (List.mem_map_of_mem hrule') hmatches'
      rw [← h] at hno
      exact firstMatch_eq_none.1 hno rule hrule hmatches
    refine ⟨hcovered h, hcovered fun c ↦ (h c).symm, ?_⟩
    rintro before rule after before' rule' after' rfl rfl hoverlaps hfirst hfirst'
    -- the generic point of what the rules share has their results
    obtain ⟨c, hmatches, hgeneric⟩ := Pattern.exists_generic (rule.1.meet rule'.1)
      (before.map Prod.fst ++ before'.map Prod.fst)
    obtain ⟨hcovers, hcovers'⟩ := hoverlaps.covers_meet
    have hleft : firstMatch (before ++ rule :: after) c = some rule.2 := by
      refine firstMatch_eq_some.2 ⟨before, rule, after, rfl, ?_, hcovers.matches hmatches, rfl⟩
      intro r hr hr'
      exact hfirst r hr (hgeneric _ (List.mem_append_left _ (List.mem_map_of_mem hr)) hr')
    have hright : firstMatch (before' ++ rule' :: after') c = some rule'.2 := by
      refine firstMatch_eq_some.2 ⟨before', rule', after', rfl, ?_, hcovers'.matches hmatches, rfl⟩
      intro r hr hr'
      exact hfirst' r hr (hgeneric _ (List.mem_append_right _ (List.mem_map_of_mem hr)) hr')
    rw [h c, hright] at hleft
    exact (Option.some.inj hleft).symm
  · intro hagree c
    have hnone : ∀ {rules rules' : List (Pattern F α × β)},
        (∀ rule' ∈ rules', ∃ rule ∈ rules, rule.1.Covers rule'.1) →
        firstMatch rules c = none → firstMatch rules' c = none := by
      intro rules rules' hcovered h
      refine firstMatch_eq_none.2 fun rule' hrule' hmatches ↦ ?_
      obtain ⟨rule, hrule, hcovers⟩ := hcovered rule' hrule'
      exact firstMatch_eq_none.1 h rule hrule (hcovers.matches hmatches)
    rcases hleft : firstMatch rules c with _ | b
    · exact (hnone hagree.covered' hleft).symm
    · rcases hright : firstMatch rules' c with _ | b'
      · rw [hnone hagree.covered hright] at hleft
        cases hleft
      · obtain ⟨before, rule, after, hrules, hbefore, hmatches, rfl⟩ := firstMatch_eq_some.1 hleft
        obtain ⟨before', rule', after', hrules', hbefore', hmatches', rfl⟩ :=
          firstMatch_eq_some.1 hright
        have hmeet := Pattern.matches_meet hmatches hmatches'
        rw [hagree.results before rule after before' rule' after' hrules hrules'
          (Pattern.overlaps_of_matches hmatches hmatches')
          (fun r hr hcovers ↦ hbefore r hr (hcovers.matches hmeet))
          (fun r hr hcovers ↦ hbefore' r hr (hcovers.matches hmeet))]

end FirstMatch

end Nublado
