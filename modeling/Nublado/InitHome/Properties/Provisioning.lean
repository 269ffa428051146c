import Nublado.InitHome.Provisioner

/-!
# Provisioning may be interrupted and repeated

`home_provisioned`: whatever runs were begun on a home directory, wherever they were interrupted and
however they overlap, **a run that is left alone succeeds exactly if what was there at first is
acceptable**, and then the directory is the user's. Whenever any run has returned, the directory is the
user's. What is not acceptable is never touched.

## What this rests on

* `Kept`: steps only bring a home directory closer to its user. What is a directory remains one, what
  is the user's remains theirs, what is acceptable remains so, and what is not stays as it is.
* `Justified`: what a run has learned remains true, since it is kept. In particular a run that is about
  to change the owner of a directory that it found empty changes it to the same owner, or the
  directory is still empty: only its owner writes in it.
* A run that is left alone goes through at most five system calls (`alone`).
-/

namespace Nublado.InitHome

namespace Provisioner

variable {p : Provisioner} {created : Owner} {home home' : Home} {r r' : ProvisionRun}

theorem Owns.acceptable (h : p.Owns home) : p.Acceptable home := by
  obtain ⟨d, rfl, hd⟩ := h
  exact Or.inr ⟨d, rfl, Or.inl hd⟩

theorem not_acceptable_dangling : ¬ p.Acceptable .dangling := by simp [Acceptable]

theorem not_acceptable_other : ¬ p.Acceptable .other := by simp [Acceptable]

theorem acceptable_directory_iff {d : Directory} :
    p.Acceptable (.directory d) ↔ d.owner = p.owner ∨ d.entries = [] := by
  simp [Acceptable]

/-! ### What steps keep -/

/-- The home directory comes closer to its user. -/
structure Kept (p : Provisioner) (home home' : Home) : Prop where
  isDir : home.isDir = true → home'.isDir = true
  owns : p.Owns home → p.Owns home'
  acceptable : p.Acceptable home → p.Acceptable home'
  eq : ¬ p.Acceptable home → home' = home

theorem Kept.refl (home : Home) : Kept p home home := ⟨id, id, id, fun _ ↦ rfl⟩

/-- Giving an acceptable directory to the user. -/
theorem kept_give {d : Directory} (h : p.Acceptable (.directory d)) :
    Kept p (.directory d) (.directory { d with owner := p.owner }) :=
  ⟨fun _ ↦ rfl, fun _ ↦ ⟨_, rfl, rfl⟩, fun _ ↦ Or.inr ⟨_, rfl, Or.inl rfl⟩, fun hnot ↦ absurd h hnot⟩

/-- Making a directory. -/
theorem kept_make : Kept p .absent (.directory ⟨created, 0o700, []⟩) := by
  refine ⟨fun h ↦ absurd h (by decide), fun h ↦ ?_, fun _ ↦ Or.inr ⟨_, rfl, Or.inr rfl⟩, fun h ↦ ?_⟩
  · obtain ⟨d, hd, -⟩ := h
    cases hd
  · exact absurd (Or.inl rfl) h

/-- Using a directory. -/
theorem kept_use {d : Directory} {entries : List String} {mode : ℕ} (h : d.owner = p.owner) :
    Kept p (.directory d) (.directory { d with entries, mode }) :=
  ⟨fun _ ↦ rfl, fun _ ↦ ⟨_, rfl, h⟩, fun _ ↦ Or.inr ⟨_, rfl, Or.inl h⟩,
    fun hnot ↦ absurd (Or.inr ⟨d, rfl, Or.inl h⟩) hnot⟩

/-! ### What a run has learned -/

/-- What a run may rely on at the point at which it is. -/
def Justified (p : Provisioner) (home : Home) (r : ProvisionRun) : Prop :=
  match r.pc with
  | .pathExists | .mkdir | .isDir | .done (.raised _) => True
  | .stat | .iterdir .. => home.isDir = true
  | .chownNew | .chown _ => home.isDir = true ∧ p.Acceptable home
  | .done .returned => p.Owns home

/-- What is kept remains true. -/
theorem Justified.kept (h : Justified p home r) (hkept : Kept p home home') :
    Justified p home' r := by
  obtain ⟨pc, warnings⟩ := r
  cases pc with
  | pathExists | mkdir | isDir => trivial
  | stat | iterdir => exact hkept.isDir h
  | chownNew | chown => exact ⟨hkept.isDir h.1, hkept.acceptable h.2⟩
  | done outcome =>
    cases outcome with
    | returned => exact hkept.owns h
    | raised => trivial

/-- The last lines return. -/
theorem checkMode_eq (p : Provisioner) (mode : ℕ) (r : ProvisionRun) :
    ∃ warnings, p.checkMode mode r = ⟨.done .returned, warnings⟩ := by
  rw [checkMode]
  split
  · exact ⟨_, rfl⟩
  · exact ⟨_, rfl⟩

theorem justified_checkMode {mode : ℕ} (h : p.Owns home) :
    Justified p home (p.checkMode mode r) := by
  obtain ⟨warnings, hdone⟩ := p.checkMode_eq mode r
  rw [hdone]
  exact h

/-- **The step lemma for one system call.** -/
theorem call_kept (h : Justified p home r) (hcall : p.call created home r = some (home', r')) :
    Kept p home home' ∧ Justified p home' r' := by
  obtain ⟨pc, warnings⟩ := r
  cases pc with
  | pathExists =>
    obtain ⟨rfl, rfl⟩ := Prod.mk.inj (Option.some.inj hcall)
    refine ⟨.refl _, ?_⟩
    cases home <;> trivial
  | mkdir =>
    cases home with
    | absent =>
      obtain ⟨rfl, rfl⟩ := Prod.mk.inj (Option.some.inj hcall)
      exact ⟨kept_make, rfl, acceptable_directory_iff.2 (Or.inr rfl)⟩
    | dangling | other | directory =>
      obtain ⟨rfl, rfl⟩ := Prod.mk.inj (Option.some.inj hcall)
      exact ⟨.refl _, trivial⟩
  | chownNew =>
    obtain ⟨hdir, hacceptable⟩ := h
    cases home with
    | absent | dangling | other => cases hdir
    | directory d =>
      obtain ⟨rfl, rfl⟩ := Prod.mk.inj (Option.some.inj hcall)
      exact ⟨kept_give hacceptable, _, rfl, rfl⟩
  | isDir =>
    obtain ⟨rfl, rfl⟩ := Prod.mk.inj (Option.some.inj hcall)
    refine ⟨.refl _, ?_⟩
    cases home with
    | absent | dangling | other => trivial
    | directory d => exact rfl
  | stat =>
    cases home with
    | absent | dangling | other => cases h
    | directory d =>
      obtain ⟨rfl, rfl⟩ := Prod.mk.inj (Option.some.inj hcall)
      refine ⟨.refl _, ?_⟩
      by_cases howner : d.owner = p.owner
      · rw [if_neg (not_not.2 howner)]
        exact justified_checkMode ⟨d, rfl, howner⟩
      · rw [if_pos howner]
        exact rfl
  | iterdir owner mode =>
    cases home with
    | absent | dangling | other => cases h
    | directory d =>
      obtain ⟨rfl, rfl⟩ := Prod.mk.inj (Option.some.inj hcall)
      refine ⟨.refl _, ?_⟩
      by_cases hempty : d.entries = []
      · rw [if_neg (not_not.2 hempty)]
        exact ⟨rfl, acceptable_directory_iff.2 (Or.inr hempty)⟩
      · rw [if_pos hempty]
        trivial
  | chown mode =>
    obtain ⟨hdir, hacceptable⟩ := h
    cases home with
    | absent | dangling | other => cases hdir
    | directory d =>
      obtain ⟨rfl, rfl⟩ := Prod.mk.inj (Option.some.inj hcall)
      exact ⟨kept_give hacceptable, justified_checkMode ⟨_, rfl, rfl⟩⟩
  | done => cases hcall

/-! ### Runs of the system -/

/-- Every run is justified. -/
def AllJustified (p : Provisioner) (s : System) : Prop := ∀ r ∈ s.runs, Justified p s.home r

/-- **The step lemma.** -/
theorem AllJustified.step {s s' : System} {l : Label} (h : AllJustified p s)
    (hstep : p.step created s l = some s') : AllJustified p s' ∧ Kept p s.home s'.home := by
  -- The others are where they were.
  have hset : ∀ {home : Home} {i : ℕ} {r : ProvisionRun}, Kept p s.home home → Justified p home r →
      AllJustified p ⟨home, s.runs.set i r⟩ := by
    intro home i r hkept hr r' hmem
    rcases List.mem_or_eq_of_mem_set hmem with hmem | rfl
    · exact (h r' hmem).kept hkept
    · exact hr
  cases l with
  | begin =>
    obtain rfl := Option.some.inj hstep
    refine ⟨fun r hr ↦ ?_, .refl _⟩
    rcases List.mem_append.1 hr with hr | hr
    · exact h r hr
    · obtain rfl := List.mem_singleton.1 hr
      trivial
  | call i =>
    obtain ⟨r, hr, hstep⟩ := Option.bind_eq_some_iff.1 hstep
    obtain ⟨next, hcall, rfl⟩ := Option.map_eq_some_iff.1 hstep
    obtain ⟨hkept, hnext⟩ := call_kept (h r (List.mem_of_getElem? hr)) hcall
    exact ⟨hset hkept hnext, hkept⟩
  | fail i =>
    obtain ⟨r, hr, hstep⟩ := Option.bind_eq_some_iff.1 hstep
    have hs' : s' = { s with runs := s.runs.set i (r.raise .osError) } := by
      split at hstep
      · cases hstep
      · exact (Option.some.inj hstep).symm
    subst hs'
    exact ⟨hset (.refl _) trivial, .refl _⟩
  | use entries mode =>
    obtain ⟨home, runs⟩ := s
    cases home with
    | absent | dangling | other => cases hstep
    | directory d =>
      obtain ⟨howner, hstep⟩ := Option.ite_none_right_eq_some.1 hstep
      obtain rfl := Option.some.inj hstep
      have hkept : Kept p (.directory d) (.directory { d with entries, mode }) := kept_use howner
      exact ⟨fun r hr ↦ (h r hr).kept hkept, hkept⟩

/-- **The run lemma.** All runs are justified, and what was acceptable still is; nothing else was
touched. -/
theorem reached {home₀ : Home} {τ : List (Transition System Label)} {s : System}
    (h : Trace (p.step created) ⟨home₀, []⟩ τ s) :
    AllJustified p s ∧ (p.Acceptable home₀ → p.Acceptable s.home) ∧
      (¬ p.Acceptable home₀ → s.home = home₀) := by
  refine h.invariant (P := fun s ↦ AllJustified p s ∧ (p.Acceptable home₀ → p.Acceptable s.home) ∧
    (¬ p.Acceptable home₀ → s.home = home₀)) (fun a l b hP hstep ↦ ?_)
    ⟨fun r hr ↦ absurd hr List.not_mem_nil, id, fun _ ↦ rfl⟩
  obtain ⟨hjustified, hacceptable, heq⟩ := hP
  obtain ⟨hjustified', hkept⟩ := hjustified.step hstep
  refine ⟨hjustified', fun h ↦ hkept.acceptable (hacceptable h), fun h ↦ ?_⟩
  have ha := heq h
  rw [← ha] at h ⊢
  exact hkept.eq h

/-! ### A run that is left alone -/

/-- `n` system calls of the run with the number `i`, with nothing else in between. -/
inductive Calls (p : Provisioner) (created : Owner) (i : ℕ) : ℕ → System → System → Prop
  | nil {s : System} : Calls p created i 0 s s
  | cons {n : ℕ} {s a s' : System} (h : p.step created s (.call i) = some a)
      (hrest : Calls p created i n a s') : Calls p created i (n + 1) s s'

/-- The last run makes its next system call. -/
theorem step_last {runs : List ProvisionRun} (hcall : p.call created home r = some (home', r')) :
    p.step created ⟨home, runs ++ [r]⟩ (.call runs.length) = some ⟨home', runs ++ [r']⟩ := by
  have hlast : (runs ++ [r])[runs.length]? = some r := by simp
  rw [step, hlast, Option.bind_some, hcall]
  simp

section Calls

variable {d : Directory} {owner : Owner} {mode : ℕ} {warnings : List String}

theorem call_stat (h : d.owner = p.owner) : p.call created (.directory d) ⟨.stat, warnings⟩ =
    some (.directory d, p.checkMode d.mode ⟨.stat, warnings⟩) := by
  simp [call, h]

theorem call_stat_foreign (h : d.owner ≠ p.owner) :
    p.call created (.directory d) ⟨.stat, warnings⟩ =
      some (.directory d, ⟨.iterdir d.owner d.mode, warnings⟩) := by
  simp [call, h, ProvisionRun.goto]

theorem call_iterdir_empty (h : d.entries = []) :
    p.call created (.directory d) ⟨.iterdir owner mode, warnings⟩ =
      some (.directory d, ⟨.chown mode,
        warnings ++ [p.wrongOwner owner ++ " but is empty, resetting ownership"]⟩) := by
  simp [call, h, ProvisionRun.goto, ProvisionRun.warn]

theorem call_iterdir_nonempty (h : d.entries ≠ []) :
    p.call created (.directory d) ⟨.iterdir owner mode, warnings⟩ =
      some (.directory d, ⟨.done (.raised (.invalidHome
        (p.wrongOwner owner ++ " and is not empty"))), warnings⟩) := by
  simp [call, h, ProvisionRun.goto, ProvisionRun.raise]

theorem call_chown : p.call created (.directory d) ⟨.chown mode, warnings⟩ =
    some (.directory { d with owner := p.owner }, p.checkMode mode ⟨.chown mode, warnings⟩) := rfl

end Calls

/-- **Left alone, a run comes to an end** after at most five system calls. It returns if what it finds
is acceptable and raises otherwise. -/
theorem alone (home : Home) (runs : List ProvisionRun) : ∃ n ≤ 5, ∃ home' outcome warnings,
    Calls p created runs.length n ⟨home, runs ++ [.fresh]⟩
        ⟨home', runs ++ [⟨.done outcome, warnings⟩]⟩ ∧
      (outcome = .returned ↔ p.Acceptable home) := by
  cases home with
  | absent =>
    exact ⟨3, by omega, _, .returned, _, .cons (step_last rfl) <| .cons (step_last rfl) <|
      .cons (step_last rfl) .nil, iff_of_true rfl (Or.inl rfl)⟩
  | dangling =>
    exact ⟨2, by omega, _, .raised .osError, _, .cons (step_last rfl) <|
      .cons (step_last rfl) .nil, iff_of_false (by simp) not_acceptable_dangling⟩
  | other =>
    exact ⟨2, by omega, _, .raised (.invalidHome p.notDirectory), _, .cons (step_last rfl) <|
      .cons (step_last rfl) .nil, iff_of_false (by simp) not_acceptable_other⟩
  | directory d =>
    by_cases howner : d.owner = p.owner
    · obtain ⟨warnings, hdone⟩ := p.checkMode_eq d.mode ⟨.stat, []⟩
      have hstat := @call_stat p created d [] howner
      rw [hdone] at hstat
      exact ⟨3, by omega, _, .returned, _, .cons (step_last rfl) <| .cons (step_last rfl) <|
        .cons (step_last hstat) .nil, iff_of_true rfl (acceptable_directory_iff.2 (Or.inl howner))⟩
    by_cases hempty : d.entries = []
    · have hchown := @call_chown p created d d.mode
        [p.wrongOwner d.owner ++ " but is empty, resetting ownership"]
      obtain ⟨warnings, hdone⟩ := p.checkMode_eq d.mode ⟨.chown d.mode,
        [p.wrongOwner d.owner ++ " but is empty, resetting ownership"]⟩
      rw [hdone] at hchown
      exact ⟨5, by omega, _, .returned, _, .cons (step_last rfl) <| .cons (step_last rfl) <|
        .cons (step_last (call_stat_foreign howner)) <|
        .cons (step_last (call_iterdir_empty hempty)) <| .cons (step_last hchown) .nil,
        iff_of_true rfl (acceptable_directory_iff.2 (Or.inr hempty))⟩
    · exact ⟨4, by omega, _, .raised _, _, .cons (step_last rfl) <| .cons (step_last rfl) <|
        .cons (step_last (call_stat_foreign howner)) <|
        .cons (step_last (call_iterdir_nonempty hempty)) .nil,
        iff_of_false (by simp) (by simp [acceptable_directory_iff, howner, hempty])⟩

/-- Calls make a trace. -/
theorem Calls.trace {i n : ℕ} {s s' : System} (h : Calls p created i n s s') :
    ∃ τ, Trace (p.step created) s τ s' := by
  induction h with
  | nil => exact ⟨[], .nil⟩
  | cons hstep _ ih =>
    obtain ⟨τ, hτ⟩ := ih
    exact ⟨_, .cons hstep hτ⟩

/-- **Home directories are provisioned.** After any steps of any runs, failures and interruptions
included: where a run has returned, the directory is the user's; what was not acceptable at first is as
it was; and a further run that is left alone ends within five system calls and returns exactly if what
was there at first is acceptable, in which case the directory is the user's. -/
theorem home_provisioned (p : Provisioner) (created : Owner) (home₀ : Home)
    (τ : List (Transition System Label)) (s : System)
    (h : Trace (p.step created) ⟨home₀, []⟩ τ s) :
    ((∃ r ∈ s.runs, r.pc = .done .returned) → p.Owns s.home) ∧
      (¬ p.Acceptable home₀ → s.home = home₀) ∧
      ∃ n ≤ 5, ∃ home' outcome warnings,
        Calls p created s.runs.length n ⟨s.home, s.runs ++ [.fresh]⟩
            ⟨home', s.runs ++ [⟨.done outcome, warnings⟩]⟩ ∧
          (outcome = .returned ↔ p.Acceptable home₀) ∧ (p.Acceptable home₀ → p.Owns home') := by
  have howns : ∀ {τ : List (Transition System Label)} {s : System},
      Trace (p.step created) ⟨home₀, []⟩ τ s →
      ∀ r ∈ s.runs, r.pc = .done .returned → p.Owns s.home := by
    intro τ s h r hr hpc
    have hjustified := (reached h).1 r hr
    rwa [Justified, hpc] at hjustified
  obtain ⟨-, hacceptable, heq⟩ := reached h
  refine ⟨fun ⟨r, hr, hpc⟩ ↦ howns h r hr hpc, heq, ?_⟩
  obtain ⟨n, hn, home', outcome, warnings, hcalls, hiff⟩ :=
    @alone p created s.home s.runs
  have hsame : p.Acceptable s.home ↔ p.Acceptable home₀ := by
    refine ⟨fun hs ↦ ?_, hacceptable⟩
    by_contra hnot
    exact hnot (heq hnot ▸ hs)
  refine ⟨n, hn, home', outcome, warnings, hcalls, hiff.trans hsame, fun h₀ ↦ ?_⟩
  obtain ⟨τ', hτ'⟩ := hcalls.trace
  have hbegin : p.step created s .begin = some ⟨s.home, s.runs ++ [.fresh]⟩ := rfl
  refine howns (h.append (.cons hbegin hτ')) ⟨.done outcome, warnings⟩ (by simp) ?_
  rw [(hiff.trans hsame).2 h₀]

end Provisioner

/-! ### An interrupted run -/

/-- The home directory of the user 2247 with the group 200. -/
def sampleProvisioner : Provisioner where
  home := "/home/gregorsamsa"
  uid := ⟨2247, by decide⟩
  gid := ⟨200, by decide⟩

/-- A run was killed after it had made the directory, which is root's. The next run, left alone, returns
and gives it to the user. -/
theorem home_provisioned_sample : ∃ τ s,
    Trace (sampleProvisioner.step ⟨0, 0⟩) ⟨.absent, []⟩ τ s ∧
      s.home = .directory ⟨⟨0, 0⟩, 0o700, []⟩ ∧
      ∃ n ≤ 5, ∃ home' warnings,
        Provisioner.Calls sampleProvisioner ⟨0, 0⟩ s.runs.length n ⟨s.home, s.runs ++ [.fresh]⟩
            ⟨home', s.runs ++ [⟨.done .returned, warnings⟩]⟩ ∧
          sampleProvisioner.Owns home' := by
  obtain ⟨τ, s, htrace, hhome⟩ : ∃ τ s, Trace (sampleProvisioner.step ⟨0, 0⟩) ⟨.absent, []⟩ τ s ∧
      s.home = .directory ⟨⟨0, 0⟩, 0o700, []⟩ :=
    @exists_of_replay Provisioner.System Provisioner.Label _ [.begin, .call 0, .call 0, .fail 0] _
      (fun _ s ↦ s.home = .directory ⟨⟨0, 0⟩, 0o700, []⟩) _ (by decide)
  obtain ⟨-, -, n, hn, home', outcome, warnings, hcalls, hiff, howns⟩ :=
    Provisioner.home_provisioned sampleProvisioner ⟨0, 0⟩ .absent τ s htrace
  have habsent : sampleProvisioner.Acceptable .absent := Or.inl rfl
  obtain rfl := hiff.2 habsent
  exact ⟨τ, s, htrace, hhome, n, hn, home', warnings, hcalls, howns habsent⟩

end Nublado.InitHome
