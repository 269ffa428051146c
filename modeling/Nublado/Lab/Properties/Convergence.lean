import Nublado.Lab.Manager.Effects

/-!
# What the passes of `reconcile` do

`reconcile` walks over the users it knows and then over the users that only Kubernetes knows. Without
operations in progress the result does not depend on the order of either walk: `view_reconcilePasses`
gives what is recorded of each user afterwards as a function of what was recorded before and of what
was observed.

The source intends the passes to bring the recorded labs in line with Kubernetes. They do, except for
users who have a record without a lab: such a user is skipped by the first pass, because there is no
lab to correct, and by the second, because the user is already known.
`reconcile_converges_iff` says that this is the only exception.
-/

namespace Nublado.Lab

/-- What reconciling makes of the lab of a known user. -/
def reconciled (observed : List (String × LabState)) (username : String) (x : LabState) :
    LabState :=
  { x with
    status :=
      if x.status = .failed then .failed
      else ((observed.lookup username).map LabState.status).getD .failed }

/-- Whether reconciling the lab of a known user turns its status to pending. -/
def turnsPending (observed : List (String × LabState)) (username : String) (x : LabState) : Bool :=
  x.status ≠ .failed && x.status ≠ .pending &&
    (observed.lookup username).any fun y ↦ y.status = .pending

namespace ManagerState

variable {config : LabConfig} {s s' : ManagerState} {cutoff t : ℕ}
  {observed : List (String × LabState)}

/-- **No operation is in progress and nothing was modified since the cutoff**, in a state that
represents a mapping of users to labs: references are valid, and no two users share a lab. -/
structure Quiet (s : ManagerState) (cutoff : ℕ) : Prop where
  valid : s.toShared.Valid
  separate : ∀ p ∈ s.labs, ∀ q ∈ s.labs, ∀ σ, (s.records p.2).state = some σ →
    (s.records q.2).state = some σ → p = q
  idle : ∀ p ∈ s.labs, (s.monitors p.2).operation = none
  unmodified : ∀ p ∈ s.labs, (s.records p.2).lastModified ≤ cutoff

theorem Quiet.modifiedSince_eq_false (h : Quiet s cutoff) {p : String × ℕ} (hp : p ∈ s.labs) :
    s.modifiedSince p.2 cutoff = false := by
  have hidle := h.idle p hp
  have hold := h.unmodified p hp
  simp [modifiedSince, inProgress, hidle, hold]

/-! ### The first pass -/

/-- Writing the status that is there changes nothing. -/
theorem setStatus_of_eq {sh : Shared} {σ : ℕ} {status : LabStatus}
    (h : (sh.states σ).status = status) : sh.setStatus σ status = sh := by
  subst h
  have hcell :
      (sh.states.modify σ fun x ↦ { x with status := (sh.states σ).status }) = sh.states := by
    rw [Heap.modify, Heap.mk.injEq]
    refine ⟨rfl, funext fun j ↦ ?_⟩
    split
    · next h => rw [h]
    · rfl
  rw [Shared.setStatus, hcell]

/-- One user of the first pass. -/
theorem reconcileUser_eq {sh : Shared} {username : String} {e σ : ℕ}
    (hmodified : s.modifiedSince e cutoff = false) (hσ : (sh.records e).state = some σ) :
    s.reconcileUser observed cutoff sh username e =
      (sh.setStatus σ (reconciled observed username (sh.states σ)).status,
        turnsPending observed username (sh.states σ)) := by
  unfold reconcileUser reconciled turnsPending
  simp only [hσ, hmodified]
  by_cases hfailed : (sh.states σ).status = .failed
  · simp [hfailed, setStatus_of_eq hfailed]
  · rcases hobs : observed.lookup username with _ | y
    · simp [hfailed]
    · by_cases hsame : y.status = (sh.states σ).status
      · simp [hfailed, hsame, setStatus_of_eq]
      · by_cases hpending : y.status = .pending
        · have hne : (sh.states σ).status ≠ .pending := Ne.symm (hpending ▸ hsame)
          simp [hfailed, hpending, hne, hne.symm]
        · simp [hfailed, hsame, hpending]

theorem reconcileUser_of_none {sh : Shared} {username : String} {e : ℕ}
    (hσ : (sh.records e).state = none) :
    s.reconcileUser observed cutoff sh username e = (sh, false) := by
  simp [reconcileUser, hσ]

/-- What the first pass does to one user, and to nobody else. -/
structure UserReconciled (s : ManagerState) (observed : List (String × LabState)) (p : String × ℕ)
    (sh : Shared) (r : Shared × Bool) : Prop where
  labs : r.1.labs = sh.labs
  records : r.1.records = sh.records
  states : r.1.states.size = sh.states.size
  recorded : ∀ q ∈ s.labs, r.1.recorded q.2 =
    if q = p then (sh.recorded q.2).map (reconciled observed p.1) else sh.recorded q.2
  pending : r.2 = (sh.recorded p.2).any (turnsPending observed p.1)

theorem reconcileUser_spec (h : Quiet s cutoff) {p : String × ℕ} (hp : p ∈ s.labs) {sh : Shared}
    (hrecords : sh.records = s.records) :
    UserReconciled s observed p sh (s.reconcileUser observed cutoff sh p.1 p.2) := by
  rcases hσ : (sh.records p.2).state with _ | σ
  · rw [reconcileUser_of_none hσ]
    have hnone : sh.recorded p.2 = none := by simp [Shared.recorded, hσ]
    refine ⟨rfl, rfl, rfl, fun q _ ↦ ?_, by simp [hnone]⟩
    split
    · next hq => rw [hq, hnone]; rfl
    · rfl
  · rw [reconcileUser_eq (h.modifiedSince_eq_false hp) hσ]
    refine ⟨rfl, rfl, rfl, fun q hq ↦ ?_, by simp [Shared.recorded, hσ]⟩
    have hother : q ≠ p → (sh.records q.2).state ≠ some σ := by
      intro hne hq'
      rw [hrecords] at hσ hq'
      exact hne (h.separate q hq p hp σ hq' hσ)
    simp only [Shared.recorded, Shared.setStatus]
    split
    · next hqp =>
      rw [hqp, hσ, Option.map_some, Option.map_some, Option.map_some, Heap.modify_self]
      rfl
    · next hqp =>
      have := hother hqp
      rcases hq' : (sh.records q.2).state with _ | σ'
      · rfl
      · simp only [Option.map_some, Option.some.injEq]
        refine Heap.modify_of_ne _ _ ?_
        rintro rfl
        exact this hq'

/-- One step of the first pass. -/
def knownStep (s : ManagerState) (observed : List (String × LabState)) (cutoff : ℕ)
    (acc : Shared × List String) (p : String × ℕ) : Shared × List String :=
  let r := s.reconcileUser observed cutoff acc.1 p.1 p.2
  (r.1, if r.2 then acc.2 ++ [p.1] else acc.2)

/-- What the first pass has done after the users in `l`. -/
structure KnownReconciled (s : ManagerState) (observed : List (String × LabState))
    (l : List (String × ℕ)) (acc r : Shared × List String) : Prop where
  labs : r.1.labs = acc.1.labs
  records : r.1.records = acc.1.records
  states : r.1.states.size = acc.1.states.size
  recorded : ∀ q ∈ s.labs, r.1.recorded q.2 =
    if q ∈ l then (acc.1.recorded q.2).map (reconciled observed q.1) else acc.1.recorded q.2
  pending : ∀ username, username ∈ r.2 ↔ username ∈ acc.2 ∨
    ∃ q ∈ l, q.1 = username ∧ (acc.1.recorded q.2).any (turnsPending observed q.1) = true

/-- The first pass over any part of the mapping, by induction on that part. -/
theorem foldl_knownStep (h : Quiet s cutoff) {l : List (String × ℕ)} (hl : ∀ p ∈ l, p ∈ s.labs)
    (hnodup : l.Nodup) {acc : Shared × List String} (hrecords : acc.1.records = s.records) :
    KnownReconciled s observed l acc (l.foldl (s.knownStep observed cutoff) acc) := by
  induction l generalizing acc with
  | nil => exact ⟨rfl, rfl, rfl, fun q _ ↦ by simp, fun username ↦ by simp⟩
  | cons p l ih =>
    obtain ⟨hp, hrest⟩ := List.nodup_cons.1 hnodup
    have hpmem := hl p List.mem_cons_self
    have hone : UserReconciled s observed p acc.1 _ := reconcileUser_spec h hpmem hrecords
    have hmany : KnownReconciled s observed l (s.knownStep observed cutoff acc p) _ := ih
      (fun q hq ↦ hl q (List.mem_cons_of_mem _ hq)) hrest (hone.records.trans hrecords)
    rw [List.foldl_cons]
    refine ⟨hmany.labs.trans hone.labs, hmany.records.trans hone.records,
      hmany.states.trans hone.states, fun q hq ↦ ?_, fun username ↦ ?_⟩
    · have hq₁ : (s.knownStep observed cutoff acc p).1.recorded q.2 = _ := hone.recorded q hq
      rw [hmany.recorded q hq, hq₁]
      rcases eq_or_ne q p with rfl | hne
      · simp [hp]
      · simp [hne]
    · -- users later in the walk have not been touched by this step
      have hlater : ∀ q ∈ l,
          (s.knownStep observed cutoff acc p).1.recorded q.2 = acc.1.recorded q.2 := by
        intro q hq
        have hq₁ : (s.knownStep observed cutoff acc p).1.recorded q.2 = _ :=
          hone.recorded q (hl q (List.mem_cons_of_mem _ hq))
        have hne : q ≠ p := by
          rintro rfl
          exact hp hq
        rw [hq₁, if_neg hne]
      have hfirst : username ∈ (s.knownStep observed cutoff acc p).2 ↔ username ∈ acc.2 ∨
          p.1 = username ∧ (acc.1.recorded p.2).any (turnsPending observed p.1) = true := by
        rw [← hone.pending]
        unfold knownStep
        dsimp only
        split
        · next hr => simp [hr, eq_comm]
        · next hr => simp [hr]
      rw [hmany.pending, hfirst, or_assoc]
      refine or_congr_right ?_
      constructor
      · rintro (⟨huser, hany⟩ | ⟨q, hq, huser, hany⟩)
        · exact ⟨p, List.mem_cons_self, huser, hany⟩
        · rw [hlater q hq] at hany
          exact ⟨q, List.mem_cons_of_mem _ hq, huser, hany⟩
      · rintro ⟨q, hq, huser, hany⟩
        rcases List.mem_cons.1 hq with rfl | hq
        · exact Or.inl ⟨huser, hany⟩
        · refine Or.inr ⟨q, hq, huser, ?_⟩
          rwa [hlater q hq]

theorem reconcileKnownUsers_eq (observed : List (String × LabState)) (cutoff : ℕ) :
    s.reconcileKnownUsers observed cutoff =
      s.labs.foldl (s.knownStep observed cutoff) (s.toShared, []) := rfl

theorem knownReconciled (h : Quiet s cutoff) :
    KnownReconciled s observed s.labs (s.toShared, []) (s.reconcileKnownUsers observed cutoff) :=
  foldl_knownStep h (fun _ hp ↦ hp) (List.Nodup.of_map _ h.valid.keys) rfl

/-! ### The second pass -/

/-- One step of the second pass. -/
def unknownStep (now : ℕ) (acc : Shared × List String) (p : String × LabState) :
    Shared × List String :=
  ((acc.1.allocState p.2).insertLab p.1 (some acc.1.states.size) now,
    if p.2.status = .pending then acc.2 ++ [p.1] else acc.2)

/-- A new user has the observed lab, and nobody else is affected. -/
theorem view_insert {sh : Shared} (hv : sh.Valid) {username : String}
    (hnone : sh.labs.lookup username = none) (x : LabState) (now : ℕ) (username' : String) :
    ((sh.allocState x).insertLab username (some sh.states.size) now).view username' =
      if username' = username then some x else sh.view username' := by
  have hlookup : ∀ e, ((sh.allocState x).insertLab username (some sh.states.size) now).labs.lookup
      username' = some e ↔ sh.labs.lookup username' = some e ∨
        username' = username ∧ e = sh.records.size := fun e ↦
    lookup_concat_eq_some_iff hnone
  split
  · next huser =>
    subst huser
    rw [Shared.view, (hlookup sh.records.size).2 (Or.inr ⟨rfl, rfl⟩), Option.bind_some]
    simp [Shared.recorded, Shared.insertLab, Shared.allocState]
  · next huser =>
    rcases he : sh.labs.lookup username' with _ | e
    · rw [Shared.view, Shared.view, he, Option.bind_none, Option.bind_eq_none_iff]
      intro e he'
      rcases (hlookup e).1 he' with h | ⟨h, -⟩
      · rw [he] at h; cases h
      · exact absurd h huser
    · have hlt := (hv.labs _ (mem_of_lookup he)).1
      rw [Shared.view, Shared.view, (hlookup e).2 (Or.inl he), he, Option.bind_some,
        Option.bind_some]
      simp only [Shared.recorded, Shared.insertLab, Shared.allocState,
        Heap.alloc_of_lt _ _ hlt]
      rcases hσ : (sh.records e).state with _ | σ
      · rfl
      · exact congrArg some (Heap.alloc_of_lt _ _ (hv.state e hlt σ hσ))

/-- What the second pass has done after the users in `l`. -/
structure UnknownReconciled (l : List (String × LabState)) (acc r : Shared × List String) :
    Prop where
  view : ∀ username, r.1.view username = (l.lookup username).or (acc.1.view username)
  pending : ∀ username, username ∈ r.2 ↔ username ∈ acc.2 ∨
    (l.lookup username).any (fun x ↦ x.status = .pending) = true

/-- The second pass over any list of new users, by induction on the list. -/
theorem foldl_unknownStep {now : ℕ} {l : List (String × LabState)} (hl : DistinctKeys l)
    {acc : Shared × List String} (hv : acc.1.Valid)
    (hnone : ∀ p ∈ l, acc.1.labs.lookup p.1 = none) :
    UnknownReconciled l acc (l.foldl (unknownStep now) acc) := by
  induction l generalizing acc with
  | nil => exact ⟨fun _ ↦ rfl, fun _ ↦ by simp⟩
  | cons p l ih =>
    obtain ⟨hp, hrest⟩ := List.nodup_cons.1 hl
    have hpnone := hnone p List.mem_cons_self
    have hpl : l.lookup p.1 = none := not_mem_keys_iff.1 hp
    have hv' : (unknownStep now acc p).1.Valid := by
      refine (((acc.1.evolves_allocState p.2)).trans (Shared.evolves_insertLab _ _ hpnone ?_)).valid
        hv
      rintro _ ⟨⟩
      exact Nat.lt_succ_self _
    have hnone' : ∀ q ∈ l, (unknownStep now acc p).1.labs.lookup q.1 = none := by
      intro q hq
      rw [Option.eq_none_iff_forall_ne_some]
      intro e he
      rcases (lookup_concat_eq_some_iff hpnone).1 he with he | ⟨hqp, -⟩
      · rw [hnone q (List.mem_cons_of_mem _ hq)] at he
        cases he
      · exact hp (List.mem_map.2 ⟨q, hq, hqp⟩)
    have hmany := ih hrest hv' hnone'
    rw [List.foldl_cons]
    refine ⟨fun username ↦ ?_, fun username ↦ ?_⟩
    · have hone : (unknownStep now acc p).1.view username = _ :=
        view_insert hv hpnone p.2 now username
      rw [hmany.view, hone, List.lookup_cons]
      rcases eq_or_ne username p.1 with rfl | hne
      · simp [hpl]
      · simp [hne, beq_false_of_ne hne]
    · rw [hmany.pending, List.lookup_cons]
      rcases eq_or_ne username p.1 with rfl | hne
      · simp only [hpl, unknownStep, beq_self_eq_true]
        split <;> simp_all
      · simp only [unknownStep, beq_false_of_ne hne]
        split <;> simp_all

/-! ### Both passes -/

/-- What is recorded of a known user after the first pass. -/
theorem view_reconcileKnownUsers (h : Quiet s cutoff) (username : String) :
    (s.reconcileKnownUsers observed cutoff).1.view username =
      (s.view username).map (reconciled observed username) := by
  have hknown : KnownReconciled s observed s.labs _ _ := knownReconciled h
  rw [Shared.view, Shared.view, hknown.labs]
  rcases he : s.labs.lookup username with _ | e
  · rfl
  · have hmem := mem_of_lookup he
    rw [Option.bind_some, Option.bind_some, hknown.recorded _ hmem, if_pos hmem]

/-- The second pass works on the users that are new to the mapping. -/
theorem unknownReconciled (h : Quiet s cutoff) (hobserved : DistinctKeys observed) :
    UnknownReconciled (observed.filter fun p ↦ (s.labs.lookup p.1).isNone)
      (s.reconcileKnownUsers observed cutoff) (s.reconcilePasses observed cutoff) := by
  have hknown : KnownReconciled s observed s.labs _ _ := knownReconciled h
  have hlabs := hknown.labs
  have heq : s.reconcilePasses observed cutoff =
      (observed.filter fun p ↦ (s.labs.lookup p.1).isNone).foldl (unknownStep s.clock)
        (s.reconcileKnownUsers observed cutoff) := by
    rw [reconcilePasses, reconcileUnknownUsers, hlabs]
    rfl
  rw [heq]
  refine foldl_unknownStep (hobserved.sublist (List.filter_sublist.map Prod.fst)) ?_ ?_
  · exact reconcileKnownUsers_rule (P := Shared.Valid)
      (fun sh σ status hv ↦ (sh.evolves_setStatus σ status).valid hv) h.valid
  · intro p hp
    rw [hlabs]
    simpa using (List.mem_filter.1 hp).2

/-- **What is recorded of each user after the passes**: a known user's lab is reconciled, and a user
who had no record has the lab that was observed. -/
theorem view_reconcilePasses (h : Quiet s cutoff) (hobserved : DistinctKeys observed)
    (username : String) :
    (s.reconcilePasses observed cutoff).1.view username =
      match s.labs.lookup username with
      | none => observed.lookup username
      | some _ => (s.view username).map (reconciled observed username) := by
  rw [(unknownReconciled h hobserved).view, lookup_filter fun k ↦ (s.labs.lookup k).isNone,
    view_reconcileKnownUsers h]
  rcases he : s.labs.lookup username with _ | e
  · simp [Shared.view, he]
  · simp

/-- **Who is to be monitored after the passes**: the known users whose labs turned out to be pending,
and the new users with pending labs. -/
theorem mem_reconcilePasses (h : Quiet s cutoff) (hobserved : DistinctKeys observed)
    (username : String) :
    username ∈ (s.reconcilePasses observed cutoff).2 ↔
      match s.labs.lookup username with
      | none => (observed.lookup username).any (fun x ↦ x.status = .pending) = true
      | some _ => (s.view username).any (turnsPending observed username) = true := by
  rw [(unknownReconciled h hobserved).pending, lookup_filter fun k ↦ (s.labs.lookup k).isNone,
    (knownReconciled h).pending]
  rcases he : s.labs.lookup username with _ | e
  · have hno : ∀ q ∈ s.labs, q.1 ≠ username := by
      rintro q hq rfl
      exact not_mem_keys_iff.2 he (List.mem_map.2 ⟨q, hq, rfl⟩)
    simp only [List.not_mem_nil, false_or, Option.isNone_none, if_true]
    refine or_iff_right ?_
    rintro ⟨q, hq, huser, -⟩
    exact hno q hq huser
  · simp only [List.not_mem_nil, false_or, Option.isNone_some, Bool.false_eq_true, if_false,
      Option.any_none, or_false]
    constructor
    · rintro ⟨q, hq, rfl, hany⟩
      have hlookup := lookup_of_mem h.valid.keys hq
      rw [he] at hlookup
      obtain rfl := Option.some.inj hlookup
      simpa [Shared.view, he] using hany
    · intro hany
      exact ⟨(username, e), mem_of_lookup he, rfl, by simpa [Shared.view, he] using hany⟩

/-! ### Convergence -/

/-- **The passes have brought the recorded labs in line with Kubernetes**: `cluster` is the lab found
in Kubernetes for each user, `before` and `after` are what is recorded of each user, and `pending` are
the users to be monitored. -/
structure Converged (cluster before after : String → Option LabState) (pending : List String) :
    Prop where
  /-- A user with a lab in Kubernetes whose recorded lab had not failed has the observed status. -/
  status : ∀ username x, cluster username = some x →
    (before username).map LabState.status ≠ some .failed →
      (after username).map LabState.status = some x.status
  /-- Every other recorded lab has failed. -/
  failed : ∀ username, cluster username = none ∨
    (before username).map LabState.status = some .failed →
      ∀ y, after username = some y → y.status = .failed
  /-- The users to be monitored are those whose status has become pending. -/
  pending : ∀ username, username ∈ pending ↔
    (after username).map LabState.status = some .pending ∧
      (before username).map LabState.status ≠ some .pending

/-- The order of the users to be monitored does not matter. -/
theorem Converged.perm {cluster before after : String → Option LabState} {l l' : List String}
    (h : l.Perm l') : Converged cluster before after l ↔ Converged cluster before after l' :=
  ⟨fun hc ↦ ⟨hc.status, hc.failed, fun u ↦ h.symm.mem_iff.trans (hc.pending u)⟩,
    fun hc ↦ ⟨hc.status, hc.failed, fun u ↦ h.mem_iff.trans (hc.pending u)⟩⟩

/-- No user with a lab in Kubernetes has a record without a lab. -/
def NoBlankRecord (sh : Shared) (cluster : String → Option LabState) : Prop :=
  ∀ username e, sh.labs.lookup username = some e → (sh.records e).state = none →
    cluster username = none

/-- The status that reconciling gives to a known user. -/
theorem status_reconciled (username : String) (x : LabState) :
    (reconciled observed username x).status =
      if x.status = .failed then .failed
      else ((observed.lookup username).map LabState.status).getD .failed := rfl

/-- A user is to be monitored when reconciling changes the status to pending. -/
theorem turnsPending_iff {username : String} {x : LabState} :
    turnsPending observed username x = true ↔
      (reconciled observed username x).status = .pending ∧ x.status ≠ .pending := by
  rw [status_reconciled, turnsPending]
  rcases observed.lookup username with _ | y
  · simp
  · rcases hx : x.status <;> simp

theorem converged_of_noBlankRecord (h : Quiet s cutoff) (hobserved : DistinctKeys observed)
    {cluster : String → Option LabState}
    (hcluster : ∀ username, observed.lookup username = cluster username)
    (hblank : NoBlankRecord s.toShared cluster) :
    Converged cluster s.view (s.reconcilePasses observed cutoff).1.view
      (s.reconcilePasses observed cutoff).2 := by
  obtain rfl : (fun username ↦ observed.lookup username) = cluster := funext hcluster
  -- a known user who was observed has a lab on record
  have hview : ∀ username e x, s.labs.lookup username = some e →
      observed.lookup username = some x → ∃ y, s.view username = some y := by
    intro username e x he hx
    rcases hσ : (s.records e).state with _ | σ
    · exact absurd hx (by rw [hcluster, hblank username e he hσ]; simp)
    · exact ⟨s.states σ, by simp [Shared.view, Shared.recorded, he, hσ]⟩
  have hnew : ∀ username, s.labs.lookup username = none → s.view username = none := by
    intro username he
    simp [Shared.view, he]
  refine ⟨fun username x hx hbefore ↦ ?_, fun username hcase y hy ↦ ?_, fun username ↦ ?_⟩
  · rw [view_reconcilePasses h hobserved]
    rcases he : s.labs.lookup username with _ | e
    · simp [hx]
    · obtain ⟨y, hy⟩ := hview username e x he hx
      have hne : y.status ≠ .failed := by simpa [hy] using hbefore
      simp [hy, status_reconciled, hne, hx]
  · rw [view_reconcilePasses h hobserved] at hy
    rcases he : s.labs.lookup username with _ | e
    · rw [he] at hy
      rcases hcase with hnone | hfailed
      · rw [hnone] at hy
        cases hy
      · simp [hnew username he] at hfailed
    · rw [he] at hy
      obtain ⟨z, hz, rfl⟩ := Option.map_eq_some_iff.1 hy
      rw [status_reconciled]
      rcases hcase with hnone | hfailed
      · simp [hnone]
      · simp_all
  · rw [mem_reconcilePasses h hobserved, view_reconcilePasses h hobserved]
    rcases he : s.labs.lookup username with _ | e
    · rcases hx : observed.lookup username with _ | x <;> simp [hnew username he]
    · rcases hy : s.view username with _ | y
      · simp
      · simp [turnsPending_iff]

/-- **The passes converge exactly when no observed user has a record without a lab.** -/
theorem converged_iff (h : Quiet s cutoff) (hobserved : DistinctKeys observed)
    {cluster : String → Option LabState}
    (hcluster : ∀ username, observed.lookup username = cluster username) :
    Converged cluster s.view (s.reconcilePasses observed cutoff).1.view
      (s.reconcilePasses observed cutoff).2 ↔ NoBlankRecord s.toShared cluster := by
  refine ⟨fun hconv username e he hblank ↦ ?_, converged_of_noBlankRecord h hobserved hcluster⟩
  by_contra hne
  obtain ⟨x, hx⟩ := Option.ne_none_iff_exists'.1 hne
  have hbefore : s.view username = none := by simp [Shared.view, Shared.recorded, he, hblank]
  have := hconv.status username x hx (by simp [hbefore])
  rw [view_reconcilePasses h hobserved, he, hbefore] at this
  cases this

end ManagerState

/-! ### From the start of `reconcile` to its passes -/

/-- The contents of Kubernetes: the namespaces there are, and for each user the lab that the objects
in the user's namespace make up, if they make up one. -/
structure Cluster where
  namespaces : List String
  lab : String → Option LabState

namespace Cluster

/-- What a `reconcile` learns from Kubernetes when nothing fails. -/
def reply (c : Cluster) : CallPc → Reply
  | .caller (.reconcileList _) => .namespaces (.ok c.namespaces)
  | .caller (.reconcileRead _ username _ _) => .labObjects (.ok (c.lab username))
  | .caller (.reconcilePurge ..) => .done (.ok ())
  | _ => .go

/-- The users who have a namespace. -/
def users (c : Cluster) (config : LabConfig) : List String :=
  c.namespaces.filterMap config.usernameOf

/-- The lab found for a user. -/
def found (c : Cluster) (config : LabConfig) (username : String) : Option LabState :=
  if username ∈ c.users config then c.lab username else none

end Cluster

/-- The two passes come next. -/
def CallPc.passes : CallPc → Bool
  | .caller (.reconcilePass ..) => true
  | _ => false

/-- Call `t` takes a step of `reconcile` before its passes, with the answers of the cluster. -/
def Gathers (cluster : Cluster) (t : ℕ) (x : Transition ManagerState Label) : Prop :=
  x.label = .exec t (cluster.reply (x.pre.calls t).pc) ∧ (x.pre.calls t).pc.passes = false

instance (cluster : Cluster) (t : ℕ) : DecidablePred (Gathers cluster t) := fun x ↦
  inferInstanceAs (Decidable (x.label = .exec t (cluster.reply (x.pre.calls t).pc) ∧
    (x.pre.calls t).pc.passes = false))

/-- What has been gathered when the users in `rest` are still to come. -/
structure GatheredUpTo (config : LabConfig) (cluster : Cluster) (rest : List String)
    (observed : List (String × LabState)) : Prop where
  distinct : DistinctKeys observed
  lookup : ∃ done, cluster.users config = done ++ rest ∧
    ∀ username, observed.lookup username = if username ∈ done then cluster.lab username else none

/-- Where a `reconcile` that began at the time `start` is while it gathers. -/
def CallPc.Gathering (config : LabConfig) (cluster : Cluster) (start now : ℕ) : CallPc → Prop
  | .caller .reconcileStart => now = start
  | .caller (.reconcileList cutoff) => cutoff = start
  | .caller (.reconcileGather cutoff rest observed) =>
    cutoff = start ∧ GatheredUpTo config cluster rest observed
  | .caller (.reconcileRead cutoff username rest observed) =>
    cutoff = start ∧ GatheredUpTo config cluster (username :: rest) observed
  | .caller (.reconcilePurge cutoff _ rest observed) =>
    cutoff = start ∧ GatheredUpTo config cluster rest observed
  | .caller (.reconcilePass cutoff observed) =>
    cutoff = start ∧ GatheredUpTo config cluster [] observed
  | _ => False

section Gathered

variable {config : LabConfig} {cluster : Cluster} {username : String} {rest : List String}
  {observed : List (String × LabState)}

theorem gatheredUpTo_start : GatheredUpTo config cluster (cluster.users config) [] :=
  ⟨List.nodup_nil, [], rfl, fun _ ↦ by simp⟩

/-- A namespace that makes up a lab. -/
theorem GatheredUpTo.insert (h : GatheredUpTo config cluster (username :: rest) observed)
    {x : LabState} (hx : cluster.lab username = some x) :
    GatheredUpTo config cluster rest (dictInsert observed username x) := by
  obtain ⟨hdistinct, done, husers, hlookup⟩ := h
  refine ⟨distinctKeys_dictInsert hdistinct username x, done ++ [username],
    by simp [husers], fun k ↦ ?_⟩
  rw [lookup_dictInsert, hlookup]
  rcases eq_or_ne k username with rfl | hne
  · simp [hx]
  · simp [hne]

/-- A namespace that does not. -/
theorem GatheredUpTo.skip (h : GatheredUpTo config cluster (username :: rest) observed)
    (hx : cluster.lab username = none) : GatheredUpTo config cluster rest observed := by
  obtain ⟨hdistinct, done, husers, hlookup⟩ := h
  refine ⟨hdistinct, done ++ [username], by simp [husers], fun k ↦ ?_⟩
  rw [hlookup]
  rcases eq_or_ne k username with rfl | hne
  · simp [hx]
  · simp [hne]

/-- At the end the labs of all users with a namespace have been found. -/
theorem GatheredUpTo.lookup_eq (h : GatheredUpTo config cluster [] observed) (k : String) :
    observed.lookup k = cluster.found config k := by
  obtain ⟨-, done, husers, hlookup⟩ := h
  rw [hlookup, Cluster.found, husers, List.append_nil]

end Gathered

namespace ManagerState

variable {config : LabConfig} {s₀ s s' : ManagerState} {t : ℕ} {cluster : Cluster}

/-- **Nothing but the call has moved** since `s₀`, where it began. -/
structure GatheringFrom (config : LabConfig) (cluster : Cluster) (t : ℕ) (s₀ s : ManagerState) :
    Prop where
  shared : s.toShared = s₀.toShared
  monitors : s.monitors = s₀.monitors
  ops : s.ops = s₀.ops
  pc : (s.calls t).pc.Gathering config cluster s₀.clock s.clock

theorem GatheringFrom.step (h : GatheringFrom config cluster t s₀ s) {l : Label}
    (hs : s.step config l = some s') (hl : Gathers cluster t ⟨s, l, s'⟩) :
    GatheringFrom config cluster t s₀ s' := by
  obtain ⟨hl, hpass⟩ := hl
  dsimp only at hl hpass
  have hpc := h.pc
  -- a block that leaves the shared objects alone and leads to the program point `q`
  have hgoto : ∀ q, (CallPc.caller q).Gathering config cluster s₀.clock (s.clock + 1) →
      t < s.calls.size → GatheringFrom config cluster t s₀ (s.follow t (s.toShared, .goto q)).tick := by
    intro q hq ht
    refine ⟨h.shared, h.monitors, h.ops, ?_⟩
    rw [calls_tick, calls_follow, pc_moved, if_pos rfl]
    exact hq
  cases move_of_step hs with
  | call | op | watch => cases hl
  | acquire _ hpc' | method _ hpc' | resume _ hpc' =>
    obtain ⟨rfl, -⟩ := Label.exec.inj hl
    rw [hpc'] at hpc
    exact absurd hpc id
  | @block _ p r b hturn hpc' hb =>
    obtain ⟨rfl, rfl⟩ := Label.exec.inj hl
    rw [hpc'] at hpc hpass hb
    cases p with
    | reconcileStart =>
      obtain rfl := Option.some.inj hb
      exact hgoto _ hpc hturn.2
    | reconcileList cutoff =>
      obtain rfl := Option.some.inj hb
      exact hgoto _ ⟨hpc, gatheredUpTo_start⟩ hturn.2
    | reconcileGather cutoff rest observed =>
      obtain ⟨hcutoff, hgathered⟩ := hpc
      cases rest <;> obtain rfl := Option.some.inj hb <;>
        exact hgoto _ ⟨hcutoff, hgathered⟩ hturn.2
    | reconcileRead cutoff username rest observed =>
      obtain ⟨hcutoff, hgathered⟩ := hpc
      rcases hx : cluster.lab username with _ | x
      · have hrest := hgathered.skip hx
        simp only [Cluster.reply, hx, callBlock] at hb
        split at hb <;> obtain rfl := Option.some.inj hb <;>
          exact hgoto _ ⟨hcutoff, hrest⟩ hturn.2
      · simp only [Cluster.reply, hx, callBlock] at hb
        obtain rfl := Option.some.inj hb
        exact hgoto _ ⟨hcutoff, hgathered.insert hx⟩ hturn.2
    | reconcilePurge cutoff username rest observed =>
      obtain rfl := Option.some.inj hb
      exact hgoto _ hpc hturn.2
    | reconcilePass => cases hpass
    | _ => exact absurd hpc id

/-- **The passes, seen from the beginning of `reconcile`.** -/
theorem GatheringFrom.passes (h : GatheringFrom config cluster t s₀ s) {observed}
    {cutoff : ℕ} (hpc : (s.calls t).pc = .caller (.reconcilePass cutoff observed))
    (hs : s.step config (.exec t .go) = some s') :
    cutoff = s₀.clock ∧ GatheredUpTo config cluster [] observed ∧
      s'.toShared = (s.reconcilePasses observed cutoff).1 ∧
      (s'.calls t).pc = .caller
        (.reconcilePending ((s.reconcilePasses observed cutoff).2.insertionSort (· ≤ ·))) := by
  have hgathered := h.pc
  rw [hpc] at hgathered
  refine ⟨hgathered.1, hgathered.2, ?_⟩
  cases move_of_step hs with
  | acquire _ hpc' | method _ hpc' | resume _ hpc' =>
    rw [hpc] at hpc'
    cases hpc'
  | block hturn hpc' hb =>
    rw [hpc] at hpc'
    cases hpc'
    obtain rfl := Option.some.inj hb
    exact ⟨by simp, by simp [Next.pc]⟩

theorem Quiet.congr (h : Quiet s₀ cutoff) (hshared : s.toShared = s₀.toShared)
    (hmonitors : s.monitors = s₀.monitors) : Quiet s cutoff := by
  obtain ⟨hvalid, hseparate, hidle, hunmodified⟩ := h
  refine ⟨?_, ?_, ?_, ?_⟩ <;> rw [hshared]
  · exact hvalid
  · exact hseparate
  · rw [hmonitors]
    exact hidle
  · exact hunmodified

end ManagerState

open ManagerState

variable {config : LabConfig} {τ : List (Transition ManagerState Label)} {s₀ s s' : ManagerState}
  {t : ℕ} {cluster : Cluster}

theorem Run.gathering (hrun : Run config s₀ τ s) (hstart : (s₀.calls t).pc = .caller .reconcileStart)
    (hτ : ∀ x ∈ τ, Gathers cluster t x) : GatheringFrom config cluster t s₀ s := by
  refine hrun.invariant_of (C := Gathers cluster t) (fun _ _ _ hP hab hl ↦ hP.step hab hl)
    ⟨rfl, rfl, rfl, ?_⟩ hτ
  rw [hstart]
  exact rfl

/-- **A quiescent reconcile converges to Kubernetes exactly when no user with a lab there has a record
without a lab.** From any state without an operation in progress, whatever Kubernetes contains: once
the two passes are done, the recorded labs are in line with Kubernetes if and only if there is no such
user. -/
theorem reconcile_converges_iff (hquiet : Quiet s₀ s₀.clock)
    (hstart : (s₀.calls t).pc = .caller .reconcileStart) (hrun : Run config s₀ τ s)
    (hτ : ∀ x ∈ τ, Gathers cluster t x) (hpass : (s.calls t).pc.passes = true)
    (hs : s.step config (.exec t .go) = some s') :
    ∃ pending, (s'.calls t).pc = .caller (.reconcilePending pending) ∧
      (Converged (cluster.found config) s₀.view s'.view pending ↔
        NoBlankRecord s₀.toShared (cluster.found config)) := by
  have hgathering := hrun.gathering hstart hτ
  obtain ⟨cutoff, observed, hpc⟩ : ∃ cutoff observed,
      (s.calls t).pc = .caller (.reconcilePass cutoff observed) := by
    unfold CallPc.passes at hpass
    split at hpass
    · next hpc => exact ⟨_, _, hpc⟩
    · cases hpass
  obtain ⟨rfl, hgathered, hshared, hpc'⟩ := hgathering.passes hpc hs
  refine ⟨_, hpc', ?_⟩
  have hiff := converged_iff (hquiet.congr hgathering.shared hgathering.monitors) hgathered.distinct
    hgathered.lookup_eq
  rw [hshared, ← hgathering.shared, Converged.perm (List.perm_insertionSort _ _)]
  exact hiff

namespace Sample

/-- A lab that is running. -/
def runningLab : LabState :=
  { LabState.fromRequest (userInfo user) none spec image ⟨⟨2, 2⟩, ⟨1, 1⟩⟩ with status := .running }

/-- Kubernetes has a running lab of the user. -/
def oneLab : Cluster where
  namespaces := ["nb-rachel"]
  lab username := if username = "rachel" then some runningLab else none

/-- A `create_lab` that fails leaves a record without a lab. -/
def failedCreate : List Label :=
  [.call (.createLab user spec), .exec 0 .go, .exec 0 (.image (.error (.other "Unknown image")))]

/-- Call `t` is a `reconcile` that finds that lab. -/
def gather (t : ℕ) : List Label :=
  [.exec t .go, .exec t (.namespaces (.ok ["nb-rachel"])), .exec t .go,
    .exec t (.labObjects (.ok (some runningLab))), .exec t .go]

end Sample

/-- A reconcile that finds the lab of a user it does not know. -/
theorem reconcile_converges_sample : ∃ s₀ τ s s' pending, Run Sample.config s₀ τ s ∧
    s.step Sample.config (.exec 0 .go) = some s' ∧
    (s'.calls 0).pc = .caller (.reconcilePending pending) ∧
    Converged (Sample.oneLab.found Sample.config) s₀.view s'.view pending := by
  obtain ⟨τ₀, s₀, hrun₀, hlabs, hpc, hrest⟩ := Sample.exists_run [.call .reconcile]
    (fun τ s ↦ s.labs = [] ∧ (s.calls 0).pc = .caller .reconcileStart ∧
      (replay (ManagerState.step Sample.config) s (Sample.gather 0)).any (fun r ↦ decide
        ((∀ x ∈ r.1, Gathers Sample.oneLab 0 x) ∧ (r.2.calls 0).pc.passes = true ∧
          (r.2.step Sample.config (.exec 0 .go)).isSome = true)) = true)
    (by decide +kernel)
  obtain ⟨⟨τ, s⟩, hreplay, hgathered⟩ := (Option.any_eq_true _ _).1 hrest
  have hrun : Run Sample.config s₀ τ s := trace_of_replay hreplay
  obtain ⟨hgathers, hpass, hlast⟩ := of_decide_eq_true hgathered
  obtain ⟨s', hs⟩ := Option.isSome_iff_exists.1 hlast
  have hquiet : Quiet s₀ s₀.clock :=
    ⟨(Run.valid hrun₀).shared, by simp [hlabs], by simp [hlabs], by simp [hlabs]⟩
  obtain ⟨pending, hpc', hiff⟩ := reconcile_converges_iff hquiet hpc hrun hgathers hpass hs
  exact ⟨s₀, τ, s, s', pending, hrun, hs, hpc', hiff.2 fun _ _ he ↦ by simp [hlabs] at he⟩

/-- The states before and after a reconcile that finds a lab of a user whose record has none. -/
theorem reconcile_diverges : ∃ τ₀ s₀ τ s s' pending, Run Sample.config .initial τ₀ s₀ ∧
    Serving τ₀ ∧ Quiet s₀ s₀.clock ∧ (s₀.calls 1).pc = .caller .reconcileStart ∧
    Run Sample.config s₀ τ s ∧ (∀ x ∈ τ, Gathers Sample.oneLab 1 x) ∧
    (s.calls 1).pc.passes = true ∧ s.step Sample.config (.exec 1 .go) = some s' ∧
    (s'.calls 1).pc = .caller (.reconcilePending pending) ∧
    ¬ Converged (Sample.oneLab.found Sample.config) s₀.view s'.view pending := by
  obtain ⟨τ₀, s₀, hrun₀, hserving, hblank, hidle, hold, hpc, hnone, hrest⟩ := Sample.exists_run
    (Sample.failedCreate ++ [.call .reconcile])
    (fun τ s ↦ Serving τ ∧ (∀ p ∈ s.labs, (s.records p.2).state = none) ∧
      (∀ p ∈ s.labs, (s.monitors p.2).operation = none) ∧
      (∀ p ∈ s.labs, (s.records p.2).lastModified ≤ s.clock) ∧
      (s.calls 1).pc = .caller .reconcileStart ∧ s.view "rachel" = none ∧
      (replay (ManagerState.step Sample.config) s (Sample.gather 1)).any (fun r ↦ decide
        ((∀ x ∈ r.1, Gathers Sample.oneLab 1 x) ∧ (r.2.calls 1).pc.passes = true ∧
          (r.2.step Sample.config (.exec 1 .go)).any (fun s' ↦ decide
            ((s'.calls 1).pc = .caller (.reconcilePending []) ∧ s'.view "rachel" = none)) =
              true)) = true)
    (by decide +kernel)
  obtain ⟨⟨τ, s⟩, hreplay, hgathered⟩ := (Option.any_eq_true _ _).1 hrest
  have hrun : Run Sample.config s₀ τ s := trace_of_replay hreplay
  obtain ⟨hgathers, hpass, hlast⟩ := of_decide_eq_true hgathered
  obtain ⟨s', hs, hs'⟩ := (Option.any_eq_true _ _).1 hlast
  obtain ⟨hpc', hnone'⟩ := of_decide_eq_true hs'
  refine ⟨τ₀, s₀, τ, s, s', [], hrun₀, hserving, ⟨(Run.valid hrun₀).shared, ?_, hidle, hold⟩, hpc,
    hrun, hgathers, hpass, hs, hpc', fun hconv ↦ ?_⟩
  · intro p hp q _ σ hσ
    rw [hblank p hp] at hσ
    cases hσ
  · have hfound : Sample.oneLab.found Sample.config "rachel" = some Sample.runningLab := by
      decide +kernel
    have := hconv.status "rachel" _ hfound (by simp [hnone])
    rw [hnone'] at this
    cases this

end Nublado.Lab
