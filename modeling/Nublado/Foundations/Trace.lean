import Mathlib.Data.List.Basic

/-!
# Traces of a labelled transition function

A system is a partial function `step : σ → ℓ → Option σ`: the label carries everything the
environment decides, so a step is deterministic once its label is known and undefined when the label
is not enabled. A `Trace` is a run of such a system together with the list of transitions it took.

## What the rules rest on

* `Trace.invariant_of` is the run lemma: a predicate that holds at the start and is preserved by
  every *admissible* transition holds at the end of every trace whose transitions are all
  admissible. Conditions on a run ("no step of this kind happens") are stated as admissibility, so a
  conditional safety theorem is one application of this rule.
* `Trace.invariant` is the unconditional case.
* `Trace.history` is the rule for relations between a state and the whole run that led to it.
* `Trace.countP_add_le_of` bounds how often a kind of step can be taken, by a rank.
* `Trace.mem_elim` cuts a trace at one of its transitions; it is how facts about "every step of the
  run" are read off an invariant of the states.

`replay` runs a list of labels. It is what concrete runs are evaluated with, and `exists_of_replay`
turns an evaluation into a statement about a trace. `stateAt` follows a sequence of labels that has no
end; since a step is determined by its label, there is at most one state at each point of it.
-/

namespace Nublado

/-- One step of a run: the state before it, its label and the state after it. -/
structure Transition (σ ℓ : Type*) where
  /-- The state in which the step is taken. -/
  pre : σ
  /-- The environment's choice. -/
  label : ℓ
  /-- The state the step leads to. -/
  post : σ

variable {σ ℓ : Type*} {step : σ → ℓ → Option σ}

/-- `Trace step s τ s'`: from `s` the system can take the transitions `τ`, in that order, and end in
`s'`. -/
inductive Trace (step : σ → ℓ → Option σ) : σ → List (Transition σ ℓ) → σ → Prop
  | nil {s : σ} : Trace step s [] s
  | cons {s a s' : σ} {l : ℓ} {τ : List (Transition σ ℓ)} :
      step s l = some a → Trace step a τ s' → Trace step s (⟨s, l, a⟩ :: τ) s'

namespace Trace

variable {s s' s'' : σ} {τ τ' : List (Transition σ ℓ)}

/-- A single step is a trace. -/
theorem single {l : ℓ} (h : step s l = some s') : Trace step s [⟨s, l, s'⟩] s' :=
  cons h nil

/-- Traces compose. -/
theorem append (h : Trace step s τ s') (h' : Trace step s' τ' s'') :
    Trace step s (τ ++ τ') s'' := by
  induction h with
  | nil => exact h'
  | cons hstep _ ih => exact cons hstep (ih h')

/-- **The conditional run lemma.** A predicate that holds at the start and is preserved by every
admissible transition holds at the end of a trace of admissible transitions. -/
theorem invariant_of {P : σ → Prop} {C : Transition σ ℓ → Prop}
    (hstep : ∀ a l b, P a → step a l = some b → C ⟨a, l, b⟩ → P b)
    (h : Trace step s τ s') (h₀ : P s) (hok : ∀ x ∈ τ, C x) : P s' := by
  induction h with
  | nil => exact h₀
  | cons hab _ ih =>
    have hfirst := hstep _ _ _ h₀ hab (hok _ List.mem_cons_self)
    exact ih hfirst fun x hx ↦ hok x (List.mem_cons_of_mem _ hx)

/-- **The run lemma.** An inductive invariant holds at the end of every trace. -/
theorem invariant {P : σ → Prop} (hstep : ∀ a l b, P a → step a l = some b → P b)
    (h : Trace step s τ s') (h₀ : P s) : P s' :=
  h.invariant_of (C := fun _ ↦ True) (fun a l b hP hab _ ↦ hstep a l b hP hab) h₀
    fun _ _ ↦ trivial

/-- A trace of an appended list splits at the join. -/
theorem split : ∀ {τ : List (Transition σ ℓ)} {s : σ}, Trace step s (τ ++ τ') s' →
    ∃ a, Trace step s τ a ∧ Trace step a τ' s'
  | [], s, h => ⟨s, nil, h⟩
  | _ :: _, _, .cons hab htail => by
    obtain ⟨a, hpre, hpost⟩ := split htail
    exact ⟨a, cons hab hpre, hpost⟩

/-- **Cutting at a transition.** A transition of a trace is a step of the system taken from a state
that the trace reaches, and the trace goes on from its result. -/
theorem mem_elim (h : Trace step s τ s') {x : Transition σ ℓ} (hx : x ∈ τ) :
    step x.pre x.label = some x.post ∧
      ∃ τ₁ τ₂, τ = τ₁ ++ x :: τ₂ ∧ Trace step s τ₁ x.pre ∧ Trace step x.post τ₂ s' := by
  obtain ⟨τ₁, τ₂, rfl⟩ := List.append_of_mem hx
  obtain ⟨a, hpre, hpost⟩ := h.split
  cases hpost with
  | cons hab htail => exact ⟨hab, τ₁, τ₂, rfl, hpre, htail⟩

/-- A conditional invariant holds before every transition of a trace. -/
theorem invariant_pre_of {P : σ → Prop} {C : Transition σ ℓ → Prop}
    (hstep : ∀ a l b, P a → step a l = some b → C ⟨a, l, b⟩ → P b)
    (h : Trace step s τ s') (h₀ : P s) (hok : ∀ x ∈ τ, C x) {x : Transition σ ℓ} (hx : x ∈ τ) :
    P x.pre := by
  obtain ⟨-, τ₁, τ₂, rfl, hpre, -⟩ := h.mem_elim hx
  exact hpre.invariant_of hstep h₀ fun y hy ↦ hok y (List.mem_append_left _ hy)

end Trace

/-! ### Histories -/

/-- **The run lemma with history.** A relation between a run and the state it reaches that holds at
the start, and that every further transition preserves, holds of every trace. -/
theorem Trace.history {P : List (Transition σ ℓ) → σ → Prop} {s s' : σ}
    {τ : List (Transition σ ℓ)} (hstep : ∀ τ a l b, Trace step s τ a → P τ a → step a l = some b →
      P (τ ++ [⟨a, l, b⟩]) b) (h : Trace step s τ s') (h₀ : P [] s) : P τ s' := by
  have hext : ∀ {a τ' s'}, Trace step a τ' s' → ∀ τ, Trace step s τ a → P τ a →
      P (τ ++ τ') s' := by
    intro a τ' s' h
    induction h with
    | nil =>
      intro τ _ hP
      simpa using hP
    | @cons a b s' l τ' hab _ ih =>
      intro τ hτ hP
      have := ih (τ ++ [⟨a, l, b⟩]) (hτ.append (.single hab)) (hstep τ a l b hτ hP hab)
      simpa using this
  simpa using hext h [] .nil h₀

/-! ### Counting steps -/

/-- **The conditional rank lemma.** Where each counted step uses up one unit of a rank that no other
admissible step increases, a run of admissible steps takes at most as many counted steps as the rank
goes down. -/
theorem Trace.countP_add_le_of {P : σ → Prop} {r : σ → ℕ} {C : Transition σ ℓ → Bool}
    {A : Transition σ ℓ → Prop}
    (hstep : ∀ a l b, P a → step a l = some b → A ⟨a, l, b⟩ →
      P b ∧ r b + (if C ⟨a, l, b⟩ then 1 else 0) ≤ r a)
    {s s' : σ} {τ : List (Transition σ ℓ)} (h : Trace step s τ s') (h₀ : P s)
    (hok : ∀ x ∈ τ, A x) : τ.countP C + r s' ≤ r s := by
  induction h with
  | nil => simp
  | cons hab _ ih =>
    obtain ⟨hP, hle⟩ := hstep _ _ _ h₀ hab (hok _ List.mem_cons_self)
    have htail := ih hP fun x hx ↦ hok x (List.mem_cons_of_mem _ hx)
    rw [List.countP_cons]
    omega

/-- **The rank lemma.** The unconditional case. -/
theorem Trace.countP_add_le {P : σ → Prop} {r : σ → ℕ} {C : Transition σ ℓ → Bool}
    (hstep : ∀ a l b, P a → step a l = some b →
      P b ∧ r b + (if C ⟨a, l, b⟩ then 1 else 0) ≤ r a)
    {s s' : σ} {τ : List (Transition σ ℓ)} (h : Trace step s τ s') (h₀ : P s) :
    τ.countP C + r s' ≤ r s :=
  h.countP_add_le_of (A := fun _ ↦ True) (fun a l b hP hab _ ↦ hstep a l b hP hab) h₀
    fun _ _ ↦ trivial

/-! ### Replaying labels -/

/-- Run the labels in order, recording the transitions; undefined as soon as one of the labels is not
enabled. -/
def replay (step : σ → ℓ → Option σ) (s : σ) : List ℓ → Option (List (Transition σ ℓ) × σ)
  | [] => some ([], s)
  | l :: ls => (step s l).bind fun s' ↦ (replay step s' ls).map fun r ↦ (⟨s, l, s'⟩ :: r.1, r.2)

/-- A successful replay is a trace. -/
theorem trace_of_replay {ls : List ℓ} {s : σ} {r : List (Transition σ ℓ) × σ}
    (h : replay step s ls = some r) : Trace step s r.1 r.2 := by
  induction ls generalizing s r with
  | nil =>
    obtain rfl := Option.some.inj h
    exact Trace.nil
  | cons l ls ih =>
    obtain ⟨a, ha, hrest⟩ := Option.bind_eq_some_iff.1 h
    obtain ⟨r', hr', rfl⟩ := Option.map_eq_some_iff.1 hrest
    exact Trace.cons ha (ih hr')

/-- What a replay shows of the run it makes. -/
theorem exists_of_replay {ls : List ℓ} {s : σ} {P : List (Transition σ ℓ) → σ → Prop}
    [∀ τ s, Decidable (P τ s)] (h : (replay step s ls).any (fun r ↦ decide (P r.1 r.2)) = true) :
    ∃ τ s', Trace step s τ s' ∧ P τ s' := by
  rcases hr : replay step s ls with _ | r
  · simp [hr] at h
  · exact ⟨r.1, r.2, trace_of_replay hr, by simpa [hr] using h⟩

/-- What two replays, one after the other, show of the runs they make. -/
theorem exists_of_replay_replay {ls ls' : List ℓ} {s : σ}
    {P : List (Transition σ ℓ) → σ → List (Transition σ ℓ) → σ → Prop}
    [∀ τ a τ' s', Decidable (P τ a τ' s')]
    (h : (replay step s ls).any (fun r ↦ (replay step r.2 ls').any fun r' ↦
      decide (P r.1 r.2 r'.1 r'.2)) = true) :
    ∃ τ a τ' s', Trace step s τ a ∧ Trace step a τ' s' ∧ P τ a τ' s' := by
  rcases hr : replay step s ls with _ | r
  · simp [hr] at h
  · rw [hr, Option.any_some] at h
    obtain ⟨τ', s', htrace, hP⟩ := @exists_of_replay _ _ _ _ _ (fun τ' s' ↦ P r.1 r.2 τ' s') _ h
    exact ⟨r.1, r.2, τ', s', trace_of_replay hr, htrace, hP⟩

/-! ### Sequences of labels -/

/-- The state after the first `n` labels of a sequence, if each of them is enabled when its turn comes. -/
def stateAt (step : σ → ℓ → Option σ) (s : σ) (label : ℕ → ℓ) : ℕ → Option σ
  | 0 => some s
  | n + 1 => (stateAt step s label n).bind fun a ↦ step a (label n)

@[simp] theorem stateAt_zero {s : σ} {label : ℕ → ℓ} : stateAt step s label 0 = some s := rfl

theorem stateAt_succ {s a : σ} {label : ℕ → ℓ} {n : ℕ} (h : stateAt step s label n = some a) :
    stateAt step s label (n + 1) = step a (label n) := by
  rw [stateAt, h]
  rfl

/-- Nothing comes after a state that does not take its label. -/
theorem stateAt_eq_none {s a : σ} {label : ℕ → ℓ} {m n : ℕ} (h : stateAt step s label m = some a)
    (hstuck : step a (label m) = none) (hlt : m < n) : stateAt step s label n = none := by
  induction hlt with
  | refl => rw [stateAt_succ h, hstuck]
  | step _ ih => rw [stateAt, ih, Option.bind_none]

end Nublado
