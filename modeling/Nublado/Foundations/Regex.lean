import Mathlib.Data.List.Basic

/-!
# Backtracking regular expressions

The fragment of a backtracking regular expression language that tag parsing needs: single
characters, repetition of a character class (greedy or not), optional parts, named groups and the
end-of-text anchor. `Regex.go` is the matcher, in continuation-passing style: alternatives are tried
in the order in which a backtracking engine tries them, and the first success is the result, so the
captured groups are the engine's.

## What the rules rest on

* `Regex.Derives` says what an expression *may* consume, without any priorities.
* `Regex.derives_of_go` is **soundness**: a successful match is a derivation.
* `Regex.go_isSome` is **completeness**: where a derivation exists whose continuation succeeds, the
  matcher succeeds, though perhaps with another derivation that its priorities put first.

Together they are how facts about a match are proved without following the matcher.
-/

namespace Nublado

/-- Captured groups by name, the latest first. A group that took no part in the match is absent. -/
abbrev Captures := List (String × List Char)

/-- A regular expression. -/
inductive Regex
  /-- The empty expression. -/
  | empty
  /-- One character of a class. -/
  | one (p : Char → Bool)
  /-- At least `min` characters of a class, as many as possible or as few as possible. -/
  | many (p : Char → Bool) (min : ℕ) (greedy : Bool)
  /-- One expression after the other. -/
  | seq (r r' : Regex)
  /-- `(?:r)?`: the expression is tried before it is left out. -/
  | opt (r : Regex)
  /-- `(?P<name>r)`. -/
  | group (name : String) (r : Regex)
  /-- `$`: the end of the text, or just before a newline that ends it. -/
  | eol

namespace Regex

instance : Append Regex := ⟨seq⟩

/-- A literal character. -/
def char (c : Char) : Regex := one (· == c)

/-- A literal text. -/
def text (s : String) : Regex := s.toList.foldr (fun c r ↦ seq (char c) r) empty

/-- Try to take characters of the class `p`, at least as many as the first argument says. -/
@[grind =] def takeMany {α : Type} (p : Char → Bool) (greedy : Bool) :
    ℕ → List Char → (List Char → Option α) → Option α
  | _ + 1, [], _ => none
  | min + 1, c :: cs, k => if p c then takeMany p greedy min cs k else none
  | 0, [], k => k []
  | 0, c :: cs, k =>
    if greedy then
      ((if p c then takeMany p greedy 0 cs k else none).or (k (c :: cs)))
    else
      ((k (c :: cs)).or (if p c then takeMany p greedy 0 cs k else none))

/-- Match a prefix of the text and pass what is left to the continuation; when the continuation
fails, the next alternative is tried. -/
@[grind =] def go {α : Type} : Regex → List Char → Captures → (List Char → Captures → Option α) → Option α
  | empty, s, caps, k => k s caps
  | one _, [], _, _ => none
  | one p, c :: cs, caps, k => if p c then k cs caps else none
  | many p min greedy, s, caps, k => takeMany p greedy min s fun rest ↦ k rest caps
  | seq r r', s, caps, k => r.go s caps fun rest caps' ↦ r'.go rest caps' k
  | opt r, s, caps, k => (r.go s caps k).or (k s caps)
  | group name r, s, caps, k =>
    r.go s caps fun rest caps' ↦ k rest ((name, s.take (s.length - rest.length)) :: caps')
  | eol, s, caps, k => if s = [] ∨ s = ['\n'] then k s caps else none

/-- `re.match`: match at the beginning of the text. -/
@[grind =] def matchStart (r : Regex) (s : List Char) : Option Captures :=
  r.go s [] fun _ caps ↦ some caps

/-! ### What an expression may consume -/

/-- `r.Derives s caps rest caps'`: on the text `s`, `r` may leave `rest`, extending the captured
groups `caps` to `caps'`. -/
inductive Derives : Regex → List Char → Captures → List Char → Captures → Prop
  | empty {s : List Char} {caps : Captures} : Derives empty s caps s caps
  | one {p : Char → Bool} {c : Char} {cs : List Char} {caps : Captures} (hp : p c = true) :
      Derives (one p) (c :: cs) caps cs caps
  | many {p : Char → Bool} {min : ℕ} {greedy : Bool} {taken rest : List Char} {caps : Captures}
      (hp : ∀ c ∈ taken, p c = true) (hmin : min ≤ taken.length) :
      Derives (many p min greedy) (taken ++ rest) caps rest caps
  | seq {r r' : Regex} {s mid rest : List Char} {caps caps' caps'' : Captures}
      (h : Derives r s caps mid caps') (h' : Derives r' mid caps' rest caps'') :
      Derives (seq r r') s caps rest caps''
  | took {r : Regex} {s rest : List Char} {caps caps' : Captures} (h : Derives r s caps rest caps') :
      Derives (opt r) s caps rest caps'
  | skipped {r : Regex} {s : List Char} {caps : Captures} : Derives (opt r) s caps s caps
  | group {name : String} {r : Regex} {s rest : List Char} {caps caps' : Captures}
      (h : Derives r s caps rest caps') :
      Derives (group name r) s caps rest ((name, s.take (s.length - rest.length)) :: caps')
  | eol {s : List Char} {caps : Captures} (hs : s = [] ∨ s = ['\n']) : Derives eol s caps s caps

section Inversion

variable {p : Char → Bool} {r r' : Regex} {s rest : List Char} {caps caps' : Captures}

@[simp] theorem derives_empty_iff : empty.Derives s caps rest caps' ↔ rest = s ∧ caps' = caps := by
  constructor
  · rintro ⟨⟩
    exact ⟨rfl, rfl⟩
  · rintro ⟨rfl, rfl⟩
    exact .empty

@[simp] theorem derives_one_iff : (one p).Derives s caps rest caps' ↔
    ∃ c, p c = true ∧ s = c :: rest ∧ caps' = caps := by
  constructor
  · rintro ⟨⟩
    exact ⟨_, ‹_›, rfl, rfl⟩
  · rintro ⟨c, hp, rfl, rfl⟩
    exact .one hp

@[simp] theorem derives_char_iff {c : Char} :
    (char c).Derives s caps rest caps' ↔ s = c :: rest ∧ caps' = caps := by
  simp [char]

@[simp] theorem derives_many_iff {min : ℕ} {greedy : Bool} :
    (many p min greedy).Derives s caps rest caps' ↔
      ∃ taken, s = taken ++ rest ∧ (∀ c ∈ taken, p c = true) ∧ min ≤ taken.length ∧
        caps' = caps := by
  constructor
  · rintro ⟨⟩
    exact ⟨_, rfl, ‹_›, ‹_›, rfl⟩
  · rintro ⟨taken, rfl, hp, hmin, rfl⟩
    exact .many hp hmin

@[simp] theorem derives_append_iff : (r ++ r').Derives s caps rest caps' ↔
    ∃ mid caps'', r.Derives s caps mid caps'' ∧ r'.Derives mid caps'' rest caps' := by
  constructor
  · rintro ⟨⟩
    exact ⟨_, _, ‹_›, ‹_›⟩
  · rintro ⟨mid, caps'', h, h'⟩
    exact .seq h h'

@[simp] theorem derives_opt_iff : (opt r).Derives s caps rest caps' ↔
    r.Derives s caps rest caps' ∨ rest = s ∧ caps' = caps := by
  constructor
  · rintro ⟨⟩
    · exact Or.inl ‹_›
    · exact Or.inr ⟨rfl, rfl⟩
  · rintro (h | ⟨rfl, rfl⟩)
    · exact .took h
    · exact .skipped

@[simp] theorem derives_group_iff {name : String} : (group name r).Derives s caps rest caps' ↔
    ∃ inner, r.Derives s caps rest inner ∧
      caps' = (name, s.take (s.length - rest.length)) :: inner := by
  constructor
  · rintro ⟨⟩
    exact ⟨_, ‹_›, rfl⟩
  · rintro ⟨inner, h, rfl⟩
    exact .group h

@[simp] theorem derives_eol_iff : eol.Derives s caps rest caps' ↔
    (s = [] ∨ s = ['\n']) ∧ rest = s ∧ caps' = caps := by
  constructor
  · rintro ⟨⟩
    exact ⟨‹_›, rfl, rfl⟩
  · rintro ⟨hs, rfl, rfl⟩
    exact .eol hs

@[simp] theorem derives_text_iff {t : String} :
    (text t).Derives s caps rest caps' ↔ s = t.toList ++ rest ∧ caps' = caps := by
  rw [text]
  induction t.toList generalizing s caps with
  | nil => simp [eq_comm]
  | cons c cs ih =>
    show (char c ++ cs.foldr (fun c r ↦ seq (char c) r) empty).Derives s caps rest caps' ↔ _
    rw [derives_append_iff]
    constructor
    · rintro ⟨mid, caps'', h, h'⟩
      obtain ⟨rfl, rfl⟩ := derives_char_iff.1 h
      obtain ⟨rfl, rfl⟩ := ih.1 h'
      exact ⟨rfl, rfl⟩
    · rintro ⟨rfl, rfl⟩
      exact ⟨_, _, derives_char_iff.2 ⟨rfl, rfl⟩, ih.2 ⟨rfl, rfl⟩⟩

end Inversion

variable {α : Type} {p : Char → Bool} {greedy : Bool}

/-- What a repetition takes is a prefix of the class, of the required length. -/
theorem exists_of_takeMany {min : ℕ} {s : List Char} {k : List Char → Option α} {a : α}
    (h : takeMany p greedy min s k = some a) : ∃ taken rest, s = taken ++ rest ∧
      (∀ c ∈ taken, p c = true) ∧ min ≤ taken.length ∧ k rest = some a := by
  -- One more character in front of what the rest of the repetition takes.
  have hcons : ∀ {min : ℕ} {c : Char} {cs : List Char}, p c = true →
      (∃ taken rest, cs = taken ++ rest ∧ (∀ c ∈ taken, p c = true) ∧ min ≤ taken.length ∧
        k rest = some a) →
      ∃ taken rest, c :: cs = taken ++ rest ∧ (∀ c ∈ taken, p c = true) ∧
        min + 1 ≤ taken.length ∧ k rest = some a := by
    rintro min c cs hp ⟨taken, rest, rfl, htaken, hmin, hk⟩
    refine ⟨c :: taken, rest, rfl, ?_, ?_, hk⟩
    · simpa using ⟨hp, htaken⟩
    · simpa using hmin
  have hweak : ∀ {min : ℕ} {s : List Char}, (∃ taken rest, s = taken ++ rest ∧
      (∀ c ∈ taken, p c = true) ∧ min + 1 ≤ taken.length ∧ k rest = some a) →
      ∃ taken rest, s = taken ++ rest ∧ (∀ c ∈ taken, p c = true) ∧ min ≤ taken.length ∧
        k rest = some a := by
    rintro min s ⟨taken, rest, hs, htaken, hmin, hk⟩
    exact ⟨taken, rest, hs, htaken, by omega, hk⟩
  induction s generalizing min with
  | nil =>
    cases min with
    | zero => exact ⟨[], [], rfl, by simp, by simp, h⟩
    | succ min => simp [takeMany] at h
  | cons c cs ih =>
    cases min with
    | succ min =>
      rw [takeMany] at h
      obtain ⟨hp, h⟩ := Option.ite_none_right_eq_some.1 h
      exact hcons hp (ih h)
    | zero =>
      have hor : (p c = true ∧ takeMany p greedy 0 cs k = some a) ∨ k (c :: cs) = some a := by
        rw [takeMany] at h
        split at h
        · rcases Option.or_eq_some_iff.1 h with h | ⟨-, h⟩
          · exact Or.inl (Option.ite_none_right_eq_some.1 h)
          · exact Or.inr h
        · rcases Option.or_eq_some_iff.1 h with h | ⟨-, h⟩
          · exact Or.inr h
          · exact Or.inl (Option.ite_none_right_eq_some.1 h)
      rcases hor with ⟨hp, h⟩ | h
      · exact hweak (hcons hp (ih h))
      · exact ⟨[], c :: cs, rfl, by simp, by simp, h⟩

/-- A repetition succeeds where some prefix it may take lets the continuation succeed. -/
theorem takeMany_isSome {min : ℕ} {taken rest : List Char} {k : List Char → Option α}
    (htaken : ∀ c ∈ taken, p c = true) (hmin : min ≤ taken.length) (hk : (k rest).isSome) :
    (takeMany p greedy min (taken ++ rest) k).isSome := by
  induction taken generalizing min with
  | nil =>
    obtain rfl : min = 0 := by simpa using hmin
    cases rest with
    | nil => simpa [takeMany] using hk
    | cons c cs => cases greedy <;> simp [takeMany, hk]
  | cons c cs ih =>
    have hp : p c = true := htaken c List.mem_cons_self
    have hcs : ∀ c ∈ cs, p c = true := fun c hc ↦ htaken c (List.mem_cons_of_mem _ hc)
    cases min with
    | succ min =>
      rw [List.cons_append, takeMany, if_pos hp]
      exact ih hcs (by simpa using hmin)
    | zero =>
      have := ih hcs (Nat.zero_le _)
      cases greedy <;> simp [takeMany, hp, this]

/-- **Soundness of the matcher.** -/
theorem derives_of_go {r : Regex} {s : List Char} {caps : Captures}
    {k : List Char → Captures → Option α} {a : α} (h : r.go s caps k = some a) :
    ∃ rest caps', r.Derives s caps rest caps' ∧ k rest caps' = some a := by
  induction r generalizing s caps k a with
  | empty => exact ⟨s, caps, .empty, h⟩
  | one p =>
    cases s with
    | nil => simp [go] at h
    | cons c cs =>
      rw [go] at h
      obtain ⟨hp, h⟩ := Option.ite_none_right_eq_some.1 h
      exact ⟨cs, caps, .one hp, h⟩
  | many p min greedy =>
    obtain ⟨taken, rest, rfl, htaken, hmin, hk⟩ := exists_of_takeMany h
    exact ⟨rest, caps, .many htaken hmin, hk⟩
  | seq r r' ih ih' =>
    obtain ⟨mid, caps', hr, h⟩ := ih h
    obtain ⟨rest, caps'', hr', hk⟩ := ih' h
    exact ⟨rest, caps'', .seq hr hr', hk⟩
  | opt r ih =>
    rcases Option.or_eq_some_iff.1 h with h | ⟨-, h⟩
    · obtain ⟨rest, caps', hr, hk⟩ := ih h
      exact ⟨rest, caps', .took hr, hk⟩
    · exact ⟨s, caps, .skipped, h⟩
  | group name r ih =>
    obtain ⟨rest, caps', hr, hk⟩ := ih h
    exact ⟨rest, _, .group hr, hk⟩
  | eol =>
    rw [go] at h
    obtain ⟨hs, h⟩ := Option.ite_none_right_eq_some.1 h
    exact ⟨s, caps, .eol hs, h⟩

/-- **Completeness of the matcher.** -/
theorem go_isSome {r : Regex} {s rest : List Char} {caps caps' : Captures}
    (h : r.Derives s caps rest caps') {k : List Char → Captures → Option α}
    (hk : (k rest caps').isSome) : (r.go s caps k).isSome := by
  induction h generalizing k with
  | empty => exact hk
  | one hp => simpa [go, hp] using hk
  | many htaken hmin => exact takeMany_isSome htaken hmin hk
  | seq _ _ ih ih' => exact ih (ih' hk)
  | took _ ih => simp [go, ih hk]
  | skipped => simp [go, hk]
  | group _ ih => exact ih hk
  | eol hs => simpa [go, hs] using hk

/-- A match is a derivation from the empty set of groups. -/
theorem derives_of_matchStart {r : Regex} {s : List Char} {caps : Captures}
    (h : r.matchStart s = some caps) : ∃ rest, r.Derives s [] rest caps := by
  obtain ⟨rest, caps', hr, hk⟩ := derives_of_go h
  obtain rfl := Option.some.inj hk
  exact ⟨rest, hr⟩

/-- Where a derivation exists there is a match. -/
theorem matchStart_isSome {r : Regex} {s rest : List Char} {caps : Captures}
    (h : r.Derives s [] rest caps) : (r.matchStart s).isSome :=
  go_isSome h rfl

/-! ### What a text begins with -/

/-- The expression only consumes what begins with the character. -/
def Begins (c : Char) (r : Regex) : Prop :=
  ∀ (s rest : List Char) (caps caps' : Captures), r.Derives s caps rest caps' → s.head? = some c

theorem begins_char (c : Char) : Begins c (char c) := by
  intro s rest caps caps' h
  obtain ⟨rfl, -⟩ := derives_char_iff.1 h
  rfl

theorem begins_text {c : Char} {t : String} (ht : t.toList.head? = some c) : Begins c (text t) := by
  intro s rest caps caps' h
  obtain ⟨rfl, -⟩ := derives_text_iff.1 h
  rw [List.head?_append, ht, Option.some_or]

/-- The first of two expressions decides. -/
theorem Begins.append {c : Char} {r r' : Regex} (h : Begins c r) : Begins c (r ++ r') := by
  intro s rest caps caps' hseq
  obtain ⟨_, _, hr, -⟩ := derives_append_iff.1 hseq
  exact h _ _ _ _ hr

/-! ### What a match is -/

section Matching

variable {r r' : Regex} {s rest taken : List Char} {caps caps₀ : Captures}
  {k : List Char → Captures → Option α} {a : α}

theorem go_append : (r ++ r').go s caps k = r.go s caps fun rest caps' ↦ r'.go rest caps' k := rfl

theorem go_char (c : Char) : (char c).go (c :: s) caps k = k s caps := by
  simp [char, go]

theorem go_text (t : String) : (text t).go (t.toList ++ s) caps k = k s caps := by
  rw [text]
  induction t.toList with
  | nil => rfl
  | cons c cs ih =>
    show (char c ++ cs.foldr (fun c r ↦ seq (char c) r) empty).go (c :: (cs ++ s)) caps k = _
    rw [go_append, go_char, ih]

/-- **A greedy repetition takes all it can** if the continuation accepts that. -/
theorem takeMany_all {min : ℕ} {k : List Char → Option α} (htaken : ∀ c ∈ taken, p c = true)
    (hmin : min ≤ taken.length) (hstop : ∀ c ∈ rest.head?, p c = false) (hk : k rest = some a) :
    takeMany p true min (taken ++ rest) k = some a := by
  induction taken generalizing min with
  | nil =>
    obtain rfl : min = 0 := by simpa using hmin
    rcases rest with _ | ⟨c, cs⟩
    · exact hk
    · show ((if p c then _ else none).or (k (c :: cs))) = some a
      rw [if_neg (by simp [hstop c rfl]), Option.none_or, hk]
  | cons c cs ih =>
    have hc := htaken c List.mem_cons_self
    have hcs : ∀ c ∈ cs, p c = true := fun c hc ↦ htaken c (List.mem_cons_of_mem _ hc)
    rcases min with _ | min
    · show ((if p c then takeMany p true 0 (cs ++ rest) k else none).or _) = some a
      rw [if_pos hc, ih hcs (Nat.zero_le _), Option.some_or]
    · show (if p c then takeMany p true min (cs ++ rest) k else none) = some a
      rw [if_pos hc]
      exact ih hcs (by simpa using hmin)

/-- **A repetition that is not greedy takes as little as it can**: no less than `taken` if the
continuation rejects what any shorter one leaves. -/
theorem takeMany_least {min : ℕ} {k : List Char → Option α} (htaken : ∀ c ∈ taken, p c = true)
    (hmin : min ≤ taken.length)
    (hshort : ∀ n, min ≤ n → n < taken.length → k (taken.drop n ++ rest) = none)
    (hk : k rest = some a) : takeMany p false min (taken ++ rest) k = some a := by
  induction taken generalizing min with
  | nil =>
    obtain rfl : min = 0 := by simpa using hmin
    rcases rest with _ | ⟨c, cs⟩
    · exact hk
    · show ((k (c :: cs)).or _) = some a
      rw [hk, Option.some_or]
  | cons c cs ih =>
    have hc := htaken c List.mem_cons_self
    have hcs : ∀ c ∈ cs, p c = true := fun c hc ↦ htaken c (List.mem_cons_of_mem _ hc)
    rcases min with _ | min
    · have hnone : k (c :: (cs ++ rest)) = none := hshort 0 (Nat.le_refl _) (Nat.succ_pos _)
      show ((k (c :: (cs ++ rest))).or (if p c then takeMany p false 0 (cs ++ rest) k else none)) = _
      rw [hnone, Option.none_or, if_pos hc]
      exact ih hcs (Nat.zero_le _) fun n _ hn ↦ hshort (n + 1) (Nat.zero_le _) (Nat.succ_lt_succ hn)
    · show (if p c then takeMany p false min (cs ++ rest) k else none) = some a
      rw [if_pos hc]
      refine ih hcs (by simpa using hmin) fun n hn hlt ↦ ?_
      exact hshort (n + 1) (Nat.succ_le_succ hn) (Nat.succ_lt_succ hlt)

/-- Where nothing can be consumed there is no match. -/
theorem go_eq_none (h : ∀ rest caps', ¬ r.Derives s caps rest caps') : r.go s caps k = none := by
  rcases hgo : r.go s caps k with _ | a
  · rfl
  · obtain ⟨rest, caps', hr, -⟩ := derives_of_go hgo
    exact absurd hr (h rest caps')

/-- An optional part that leads to a match is taken. -/
theorem go_opt_of_some (h : r.go s caps k = some a) : (opt r).go s caps k = some a := by
  rw [go, h, Option.some_or]

/-- An optional part that leads to none is left out. -/
theorem go_opt_of_none (h : r.go s caps k = none) : (opt r).go s caps k = k s caps := by
  rw [go, h, Option.none_or]

/-- A group that is a greedy repetition. -/
theorem go_group_all {name : String} (htaken : ∀ c ∈ taken, p c = true) (hne : taken ≠ [])
    (hstop : ∀ c ∈ rest.head?, p c = false) (hk : k rest ((name, taken) :: caps) = some a) :
    (group name (many p 1 true)).go (taken ++ rest) caps k = some a := by
  refine takeMany_all htaken (List.length_pos_iff.2 hne) hstop ?_
  show k rest ((name, (taken ++ rest).take ((taken ++ rest).length - rest.length)) :: caps) = some a
  rw [List.length_append, Nat.add_sub_cancel, List.take_left' rfl]
  exact hk

/-- A group that is a repetition that is not greedy. -/
theorem go_group_least {name : String} (htaken : ∀ c ∈ taken, p c = true) (hne : taken ≠ [])
    (hshort : ∀ (n : ℕ) (caps' : Captures), n < taken.length → k (taken.drop n ++ rest) caps' = none)
    (hk : k rest ((name, taken) :: caps) = some a) :
    (group name (many p 1 false)).go (taken ++ rest) caps k = some a := by
  refine takeMany_least htaken (List.length_pos_iff.2 hne) (fun n _ hn ↦ hshort n _ hn) ?_
  show k rest ((name, (taken ++ rest).take ((taken ++ rest).length - rest.length)) :: caps) = some a
  rw [List.length_append, Nat.add_sub_cancel, List.take_left' rfl]
  exact hk

/-- A repetition does not look at what its continuation returns. -/
theorem takeMany_map {β : Type} (f : α → β) (s : List Char) : ∀ {min : ℕ}
    {k : List Char → Option α},
    takeMany p greedy min s (fun rest ↦ (k rest).map f) = (takeMany p greedy min s k).map f := by
  induction s with
  | nil =>
    intro min k
    rcases min with _ | min <;> rfl
  | cons c cs ih =>
    intro min k
    rcases min with _ | min
    · rcases hc : p c with _ | _ <;> cases greedy <;> simp [takeMany, hc, ih, Option.map_or]
    · rcases hc : p c with _ | _ <;> simp [takeMany, hc, ih]

/-- The matcher does not look at what its continuation returns. -/
theorem go_map {β : Type} (f : α → β) (r : Regex) : ∀ {s : List Char} {caps : Captures}
    {k : List Char → Captures → Option α},
    r.go s caps (fun rest caps' ↦ (k rest caps').map f) = (r.go s caps k).map f := by
  induction r with
  | empty => exact rfl
  | one p =>
    intro s caps k
    rcases s with _ | ⟨c, cs⟩
    · rfl
    · rcases hc : p c with _ | _ <;> simp [go, hc]
  | many p min greedy => exact takeMany_map f _
  | seq r r' ih ih' =>
    intro s caps k
    simp only [go, ih', ih]
  | opt r ih =>
    intro s caps k
    simp only [go, ih, Option.map_or]
  | group name r ih =>
    intro s caps k
    simp only [go, ih]
  | eol =>
    intro s caps k
    simp only [go]
    split <;> rfl

/-- The matcher does not look at the groups captured before. -/
theorem go_caps (r : Regex) (caps₀ : Captures) : ∀ {s : List Char} {caps : Captures}
    {k : List Char → Captures → Option α},
    r.go s (caps ++ caps₀) k = r.go s caps fun rest caps' ↦ k rest (caps' ++ caps₀) := by
  induction r with
  | empty => exact rfl
  | one p =>
    intro s caps k
    rcases s with _ | ⟨c, cs⟩ <;> rfl
  | many p min greedy => exact rfl
  | seq r r' ih ih' =>
    intro s caps k
    simp only [go, ih, ih']
  | opt r ih =>
    intro s caps k
    simp only [go, ih]
  | group name r ih =>
    intro s caps k
    simp only [go, ih, List.cons_append]
  | eol => exact rfl

/-- **A match continues earlier groups.** -/
theorem go_eq_matchStart (r : Regex) (s : List Char) (caps₀ : Captures) :
    r.go s caps₀ (fun _ caps ↦ some caps) = (r.matchStart s).map (· ++ caps₀) := by
  have hcaps : r.go s ([] ++ caps₀) (fun _ caps ↦ some caps) =
      r.go s [] fun _ caps ↦ (some caps).map (· ++ caps₀) := go_caps r caps₀
  rw [List.nil_append, go_map] at hcaps
  exact hcaps

/-- The names of the groups of an expression. -/
def names : Regex → List String
  | empty | one _ | many _ _ _ | eol => []
  | seq r r' => r.names ++ r'.names
  | opt r => r.names
  | group name r => name :: r.names

/-- Groups that a match captures are groups of the expression. -/
theorem Derives.names {rest : List Char} {caps' : Captures} (h : r.Derives s caps rest caps') :
    ∀ pair ∈ caps', pair ∈ caps ∨ pair.1 ∈ r.names := by
  induction h with
  | empty | one | many | skipped | eol => exact fun _ hpair ↦ Or.inl hpair
  | seq _ _ ih ih' =>
    intro pair hpair
    rcases ih' pair hpair with hpair | hpair
    · exact (ih pair hpair).imp_right (List.mem_append_left _)
    · exact Or.inr (List.mem_append_right _ hpair)
  | took _ ih => exact ih
  | group _ ih =>
    intro pair hpair
    rcases List.mem_cons.1 hpair with rfl | hpair
    · exact Or.inr List.mem_cons_self
    · exact (ih pair hpair).imp_right (List.mem_cons_of_mem _)

/-- A match has no other groups. -/
theorem lookup_matchStart {name : String} {data : Captures} (h : r.matchStart s = some data)
    (hname : name ∉ r.names) : data.lookup name = none := by
  obtain ⟨rest, hr⟩ := derives_of_matchStart h
  refine List.lookup_eq_none_iff.2 fun pair hpair ↦ bne_iff_ne.2 ?_
  rintro rfl
  exact hname ((hr.names pair hpair).resolve_left List.not_mem_nil)

end Matching

end Regex

end Nublado
