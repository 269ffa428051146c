import Nublado.Lab.Manager.Effects

/-!
# Deleting incomplete namespaces

While it gathers the current state, `reconcile` deletes namespaces that do not make up a lab. The
deletion is outside the user's monitor, so it should not overlap with an operation of that user.

* A deletion starts only when no operation of the user is in progress: the check and the start are
  one segment (`purge_begins`).
* Nothing stops an operation from starting while the deletion is running. `purges_idle_iff` says that
  this is the only way the two can overlap: in a run, no deletion overlaps with an operation exactly
  if no request is granted the lock of its monitor, with no operation on record, while the namespace
  of its user is being deleted.
-/

namespace Nublado.Lab

/-- The user whose namespace a `reconcile` at this point is deleting. -/
def CallPc.purges : CallPc → Option String
  | .caller (.reconcilePurge _ username _ _) => some username
  | _ => none

namespace ManagerState

variable {config : LabConfig} {s s' : ManagerState} {l : Label} {t u e : ℕ} {username : String}

/-- **No operation of a user is in progress while a `reconcile` deletes that user's namespace.** -/
def PurgesIdle (s : ManagerState) : Prop :=
  ∀ u < s.calls.size, ∀ username, (s.calls u).pc.purges = some username →
    ∀ e, s.labs.lookup username = some e → (s.monitors e).operation = none

/-- In this step a request is at the head of its monitor's line and finds no operation on record,
while a `reconcile` is deleting the namespace of the same user. -/
def GrantedDuringPurge (x : Transition ManagerState Label) : Prop :=
  ∃ t e req k, x.label = .exec t .go ∧ t < x.pre.calls.size ∧
    (x.pre.calls t).pc = .method e (.inside (.critical (.monitor req))) k ∧
    (x.pre.monitors e).operation = none ∧
    ∃ u < x.pre.calls.size, ∃ username, (x.pre.calls u).pc.purges = some username ∧
      x.pre.labs.lookup username = some e

theorem eq_of_purges {pc : CallPc} (h : pc.purges = some username) :
    ∃ cutoff rest observed, pc = .caller (.reconcilePurge cutoff username rest observed) := by
  unfold CallPc.purges at h
  split at h
  · obtain rfl := Option.some.inj h
    exact ⟨_, _, _, rfl⟩
  · cases h

/-- **A deletion begins only when the user has no operation in progress.** -/
theorem purge_begins (hs : s.step config l = some s') (hu : u < s'.calls.size)
    (hp : (s'.calls u).pc.purges = some username) :
    (u < s.calls.size ∧ (s.calls u).pc.purges = some username) ∨
      s'.labs = s.labs ∧ s'.monitors = s.monitors ∧
        ∀ e, s.labs.lookup username = some e → (s.monitors e).operation = none := by
  obtain ⟨cutoff, rest, observed, hpc⟩ := eq_of_purges hp
  cases callerMove hs hu hpc with
  | stayed hu hpc => exact Or.inl ⟨hu, by rw [hpc]; rfl⟩
  | @made c _ hc => cases c <;> cases hc
  | resumed _ _ hq => exact absurd (resumes_of_frameBlock hq) (by simp [CallerPc.resumes])
  | @went p r b hturn hpc' hb hq =>
    cases goto_of_callBlock hb hq with
    | service h => cases h
    | purge hidle =>
      have hshared : b.1 = s.toShared := by
        simp only [callBlock, hidle] at hb
        obtain rfl := Option.some.inj hb
        rfl
      refine Or.inr ⟨by simp [hshared], by simp, fun e he ↦ ?_⟩
      rw [he] at hidle
      simp only [Option.any_some, modifiedSince, Bool.or_eq_false_iff] at hidle
      exact inProgress_eq_none_iff.1 (Option.not_isSome_iff_eq_none.1 (by simp [hidle.1]))

/-- **A step that does not grant a request during a deletion keeps the two apart.** -/
theorem PurgesIdle.step (h : PurgesIdle s) (hserved : Served s) (hs : s.step config l = some s')
    (hl : l.stops = false) (hgranted : ¬ GrantedDuringPurge ⟨s, l, s'⟩) : PurgesIdle s' := by
  intro u hu username hp e he
  rcases purge_begins hs hu hp with ⟨hu', hp'⟩ | ⟨hlabs, hmonitors, hidle⟩
  · have hold : (s.monitors e).operation = none := by
      rcases hlookup : s.labs.lookup username with _ | e'
      · exact hserved.idle_of_new hs hl hlookup he
      · have hsame := hserved.lookup_step hs hl hlookup
        rw [he] at hsame
        obtain rfl := Option.some.inj hsame
        exact h u hu' username hp' e hlookup
    cases hserved.sound.recordMove hs e with
    | same heq => exact heq.trans hold
    | @started t req k ht hpc hnone =>
      exact absurd ⟨t, e, req, k, rfl, ht, hpc, hnone, u, hu', username, hp', he⟩ hgranted
    | cleared _ _ _ _ hrec => rw [hold] at hrec; cases hrec
  · rw [hlabs] at he
    rw [hmonitors]
    exact hidle e he

/-- **Granting a request during a deletion makes the two overlap.** -/
theorem GrantedDuringPurge.overlaps (h : GrantedDuringPurge ⟨s, l, s'⟩)
    (hs : s.step config l = some s') : ¬ PurgesIdle s' := by
  obtain ⟨t, e, req, k, hl, ht, hpc, hnone, u, hu, username, hp, he⟩ := h
  dsimp only at hl ht hpc hnone hu hp he
  subst hl
  intro hidle
  have hut : u ≠ t := by
    rintro rfl
    rw [hpc] at hp
    cases hp
  obtain ⟨hu', -, hpc'⟩ := call_step hs hu
  have hp' : (s'.calls u).pc.purges = some username := by
    rcases hpc' with hpc' | ⟨r, hr⟩
    · rw [hpc', hp]
    · exact absurd (Label.exec.inj hr).1.symm hut
  cases move_of_step hs with
  | block _ hpc'' | acquire _ hpc'' | resume _ hpc'' => rw [hpc] at hpc''; cases hpc''
  | method _ hpc'' ha =>
    rw [hpc] at hpc''
    cases hpc''
    cases methodMove_of_eq_some ha with
    | conflict ho => rw [hnone] at ho; cases ho
    | started =>
      have := hidle u hu' username hp' e he
      simp at this

end ManagerState

open ManagerState

variable {config : LabConfig} {τ : List (Transition ManagerState Label)} {s : ManagerState}

/-- **When a reconcile destroys a live lab.** In a run before the monitors are stopped, no operation
of a user is in progress while a reconcile deletes that user's namespace, exactly if no request of the
user is granted, with no operation on record, during such a deletion. -/
theorem purges_idle_iff (hrun : Run config .initial τ s) (hserving : Serving τ) :
    (∀ x ∈ τ, PurgesIdle x.post) ↔ ∀ x ∈ τ, ¬ GrantedDuringPurge x := by
  constructor
  · intro h x hx hgranted
    exact hgranted.overlaps (hrun.mem_elim hx).1 (h x hx)
  · intro h x hx
    have hkeep : ∀ a l b, Served a ∧ PurgesIdle a → a.step config l = some b →
        Stopless ⟨a, l, b⟩ ∧ ¬ GrantedDuringPurge ⟨a, l, b⟩ → Served b ∧ PurgesIdle b := by
      rintro a l b ⟨hserved, hidle⟩ hab ⟨hl, hgranted⟩
      exact ⟨hserved.step hab hl, hidle.step hserved hab hl hgranted⟩
    have hinitial : Served initial ∧ PurgesIdle initial :=
      ⟨served_initial, fun u hu ↦ absurd hu (Nat.not_lt_zero u)⟩
    have hok : ∀ y ∈ τ, Stopless y ∧ ¬ GrantedDuringPurge y := fun y hy ↦ ⟨hserving y hy, h y hy⟩
    have hpre := hrun.invariant_pre_of hkeep hinitial hok hx
    exact (hkeep _ _ _ hpre (hrun.mem_elim hx).1 (hok x hx)).2

/-- Call `t` is a `reconcile` that deletes the namespace of the user. -/
def Sample.purge (t : ℕ) : List Label :=
  [.call .reconcile, .exec t .go, .exec t (.namespaces (.ok ["nb-rachel"])), .exec t .go,
    .exec t (.labObjects (.ok none))]

/-- A deletion for a user without a record overlaps with nothing. -/
theorem purges_idle_sample : ∃ τ s, Run Sample.config .initial τ s ∧
    (s.calls 0).pc.purges = some "rachel" ∧ ∀ x ∈ τ, PurgesIdle x.post := by
  obtain ⟨τ, s, hrun, hserving, hpurges, hlabs⟩ := Sample.exists_run (Sample.purge 0)
    (fun τ s ↦ Serving τ ∧ (s.calls 0).pc.purges = some "rachel" ∧ ∀ x ∈ τ, x.pre.labs = [])
    (by decide +kernel)
  refine ⟨τ, s, hrun, hpurges, (purges_idle_iff hrun hserving).2 ?_⟩
  rintro x hx ⟨t, e, req, k, -, -, -, -, u, -, username, -, he⟩
  rw [hlabs x hx] at he
  cases he

/-- A spawn that starts while the namespace of its user is being deleted: `create_lab` was waiting for
the image when the reconcile began. -/
theorem purge_overlaps_spawn : ∃ τ s, Run Sample.config .initial τ s ∧ Serving τ ∧
    ¬ ∀ x ∈ τ, PurgesIdle x.post := by
  obtain ⟨τ, s, hrun, hserving, x, hx, hlt, hpurges, he, ho⟩ := Sample.exists_run
    ([.call (.createLab Sample.user Sample.spec), .exec 0 .go] ++ Sample.purge 1 ++
      [.exec 0 (.image (.ok Sample.image)), .exec 0 .go, .exec 0 .go, .exec 0 .go])
    (fun τ s ↦ Serving τ ∧ ∃ x ∈ τ, 1 < x.post.calls.size ∧
      (x.post.calls 1).pc.purges = some "rachel" ∧ x.post.labs.lookup "rachel" = some 0 ∧
      (x.post.monitors 0).operation = some 0)
    (by decide +kernel)
  refine ⟨τ, s, hrun, hserving, fun hidle ↦ ?_⟩
  have := hidle x hx 1 hlt "rachel" hpurges 0 he
  rw [ho] at this
  cases this

end Nublado.Lab
