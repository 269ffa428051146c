import Nublado.Fileserver.Properties.Serialization

/-!
# What a reconciliation achieves

A reconciliation that nothing interferes with makes the manager agree with what it has read
(`reconcile_settles`): of the users' file servers exactly those that are there and valid count as running.

* `Keyed` says that no record belongs to two users, in every run.
* `Resting` is the state between two items of work: the valid file servers count as running and none of
  them is to be deleted; each other one that counts as running is still on the list and has not been
  modified, so that its turn will come.
* `working_proceed` goes through the loops of the reconciliation up to the next `await`, by induction on
  the list of work; `Working.step` adds the replies.
-/

namespace Nublado.Fileserver

namespace ManagerState

variable {s s' : ManagerState} {τ τ₀ : List (Transition ManagerState Label)} {t : ℕ}

/-! ### Records and users -/

/-- No user has two records, and no record belongs to two users. -/
structure Keyed (s : ManagerState) : Prop where
  distinct : DistinctKeys s.servers
  own : ∀ u u' r, s.servers.lookup u = some r → s.servers.lookup u' = some r → u = u'

theorem Keyed.addServer (h : Keyed s) (hserial : Serial s) (username : String) (running : Bool) :
    Keyed (s.addServer username running) := by
  have hlt : ∀ u, s.servers.lookup u ≠ some s.records.size :=
    fun u hu ↦ Nat.lt_irrefl _ (hserial.known u _ hu)
  refine ⟨distinctKeys_setKey h.distinct _ _, fun u u' r hu hu' ↦ ?_⟩
  have hlookup : ∀ u, (s.addServer username running).servers.lookup u =
      if u = username then some s.records.size else s.servers.lookup u := lookup_setKey _ _ _
  rw [hlookup] at hu hu'
  split at hu
  · next heq =>
    split at hu'
    · next heq' => rw [heq, heq']
    · rw [← Option.some.inj hu] at hu'
      exact absurd hu' (hlt u')
  · split at hu'
    · rw [← Option.some.inj hu'] at hu
      exact absurd hu (hlt u)
    · exact h.own u u' r hu hu'

theorem Keyed.of_servers (h : Keyed s) (hservers : s'.servers = s.servers) : Keyed s' :=
  ⟨hservers ▸ h.distinct, hservers ▸ h.own⟩

theorem Keyed.learn (h : Keyed s) (hserial : Serial s) (known : List String)
    (objects : List (String × Bool)) : Keyed (objects.foldl (learn known) s) := by
  induction objects generalizing s with
  | nil => exact h
  | cons p objects ih =>
    refine ih ?_ (hserial.learn known [p])
    rw [ManagerState.learn]
    split
    · exact h.addServer hserial p.1 true
    · exact h

theorem Begins.servers (h : Begins s t s') : s'.servers = s.servers := by
  rcases h with _ | _ | _ <;> rfl

theorem Keyed.step {l : Label} (h : Keyed s) (hserial : Serial s) (hstep : s.step l = some s') :
    Keyed s' := by
  cases move_of_step hstep with
  | tick | kept | granted | cancelled => exact h.of_servers rfl
  | called _ hb => exact h.of_servers hb.servers
  | introduced _ hb =>
    have hfresh : Keyed s.fresh := h.of_servers rfl
    exact (hfresh.addServer hserial.fresh _ false).of_servers hb.servers
  | finished _ _ hb => exact h.of_servers hb.servers
  | left _ _ _ _ hb => exact h.of_servers hb.servers
  | continued _ _ hb => exact h.of_servers hb.servers
  | updated _ _ hb => exact (h.learn hserial _ _).of_servers hb.servers

/-- **Users do not share records** in any run. -/
theorem keyed_of_run (h : Run τ s) : Keyed s :=
  (h.invariant (P := fun s ↦ Serial s ∧ Keyed s)
    (fun _ _ _ ⟨hserial, hkeyed⟩ hstep ↦ ⟨hserial.step hstep, hkeyed.step hserial hstep⟩)
    ⟨serial_init, List.nodup_nil, fun _ _ _ hu ↦ by cases hu⟩).2

/-- Tasks are never forgotten. -/
theorem tasks_mono {l : Label} (hstep : s.step l = some s') : s.tasks.size ≤ s'.tasks.size := by
  cases move_of_step hstep with
  | tick | kept | granted | cancelled => exact Nat.le_refl _
  | called _ hb => exact Nat.le_trans (Nat.le_succ _) (Nat.le_of_eq hb.size.symm)
  | introduced _ hb => exact Nat.le_trans (Nat.le_succ _) (Nat.le_of_eq hb.size.symm)
  | finished _ _ hb => exact Nat.le_of_eq hb.size.symm
  | left _ _ _ _ hb => exact Nat.le_of_eq hb.size.symm
  | continued _ _ hb => exact Nat.le_of_eq hb.size.symm
  | updated _ _ hb => exact Nat.le_of_eq (by rw [hb.size, tasks_learn])

/-! ### Between two items of work -/

variable {objects : List (String × Bool)} {begin : ℕ} {work : List Work}

theorem getStatus_of_lookup {u : String} {r : ℕ} (h : s.servers.lookup u = some r) :
    s.getStatus u = (s.records r).running := by
  rw [getStatus, h]

/-- **Between two items of work**, with `work` still to be done for the file servers that were seen. -/
structure Resting (objects : List (String × Bool)) (begin : ℕ) (work : List Work) (s : ManagerState) :
    Prop where
  keyed : ∀ u u' r, s.servers.lookup u = some r → s.servers.lookup u' = some r → u = u'
  free : ∀ u r, s.servers.lookup u = some r →
    (s.records r).lock.free = true ∧ (s.records r).inProgress = false
  valid : ∀ u, (u, true) ∈ objects → s.getStatus u = true ∧ .known u ∉ work
  invalid : ∀ u r, s.servers.lookup u = some r → (s.records r).running = true →
    (u, true) ∉ objects → .known u ∈ work ∧ (s.records r).lastModified ≤ begin

/-- An item of work need not be done: the file server is not running. -/
theorem Resting.skip {w : Work} (h : Resting objects begin (w :: work) s)
    (hidle : ∀ u r, w = .known u → s.servers.lookup u = some r → (s.records r).running = false) :
    Resting objects begin work s := by
  refine ⟨h.keyed, h.free, fun u hu ↦ ?_, fun u r hr hrunning hu ↦ ?_⟩
  · exact ⟨(h.valid u hu).1, fun hmem ↦ (h.valid u hu).2 (List.mem_cons_of_mem _ hmem)⟩
  · obtain ⟨hmem, hold⟩ := h.invalid u r hr hrunning hu
    refine ⟨?_, hold⟩
    rcases List.mem_cons.1 hmem with rfl | hmem
    · rw [hidle u r rfl hr] at hrunning
      cases hrunning
    · exact hmem

/-- The file server of `u` has been deleted. -/
theorem Resting.stopped {a : ManagerState} {u : String} {r : ℕ}
    (h : Resting objects begin (.known u :: work) s) (hr : s.servers.lookup u = some r)
    (hservers : a.servers = s.servers) (hrunning : (a.records r).running = false)
    (hfree : (a.records r).lock.free = true ∧ (a.records r).inProgress = false)
    (hother : ∀ q, q ≠ r → a.records q = s.records q) : Resting objects begin work a := by
  have hne : ∀ u' q, s.servers.lookup u' = some q → u' ≠ u → q ≠ r := by
    rintro u' q hq hu' rfl
    exact hu' (h.keyed u' u q hq hr)
  refine ⟨hservers ▸ h.keyed, fun u' q hq ↦ ?_, fun u' hu' ↦ ?_, fun u' q hq hflag hu' ↦ ?_⟩
  · rcases eq_or_ne q r with rfl | hqr
    · exact hfree
    · rw [hother q hqr]
      exact h.free u' q (hservers ▸ hq)
  · obtain ⟨hstatus, hmem⟩ := h.valid u' hu'
    have hdifferent : u' ≠ u := fun heq ↦ hmem (heq ▸ List.mem_cons_self)
    refine ⟨?_, fun hlater ↦ hmem (List.mem_cons_of_mem _ hlater)⟩
    rw [getStatus] at hstatus ⊢
    rw [hservers]
    split at hstatus
    · cases hstatus
    · next q hq => rwa [hother q (hne u' q hq hdifferent)]
  · have hqr : q ≠ r := by
      rintro rfl
      rw [hrunning] at hflag
      cases hflag
    rw [hservers] at hq
    rw [hother q hqr] at hflag ⊢
    obtain ⟨hmem, hold⟩ := h.invalid u' q hq hflag hu'
    refine ⟨?_, hold⟩
    rcases List.mem_cons.1 hmem with heq | hmem
    · have hsame : u' = u := by injection heq
      rw [hsame, hr] at hq
      exact absurd (Option.some.inj hq).symm hqr
    · exact hmem

/-- **A deletion that is at work** on the file server of `u` leaves the manager at rest whenever it
ends. -/
theorem Resting.close_start {u : String} {r : ℕ} {pc : Pc}
    (h : Resting objects begin (.known u :: work) s) (hr : s.servers.lookup u = some r) (c : ℕ) :
    Resting objects begin work (({ s.start t r pc with clock := c } : ManagerState).close r false) := by
  have hself : (({ s.start t r pc with clock := c } : ManagerState).close r false).records r =
      { running := false, lock := ((s.records r).lock.take t ()).release, inProgress := false,
        lastModified := c } := by
    rw [close, finish, modify_modify, records_modify, if_pos rfl, start, records_setPc, records_modify,
      if_pos rfl]
    rfl
  refine h.stopped hr rfl (by rw [hself]) ?_ fun q hq ↦ ?_
  · rw [hself]
    refine ⟨FifoLock.free_iff.2 ⟨rfl, ?_⟩, rfl⟩
    exact (FifoLock.free_iff.1 (h.free u r hr).1).2
  · rw [close, finish, modify_modify, records_modify, if_neg hq, start, records_setPc, records_modify,
      if_neg hq]

/-- Neither the tasks nor the time matter. -/
theorem Resting.of_eq {a : ManagerState} (h : Resting objects begin work s)
    (hservers : a.servers = s.servers) (hrecords : a.records = s.records) :
    Resting objects begin work a := by
  have hstatus : ∀ u, a.getStatus u = s.getStatus u := by
    intro u
    rw [getStatus, getStatus, hservers, hrecords]
  refine ⟨hservers ▸ h.keyed, ?_, fun u hu ↦ ?_, ?_⟩
  · rw [hservers, hrecords]
    exact h.free
  · rw [hstatus]
    exact h.valid u hu
  · rw [hservers, hrecords]
    exact h.invalid

/-! ### The loops -/

/-- **Where task `t` is in its reconciliation**, once Kubernetes has been read, and how many replies it can
still wait for. -/
inductive Working (objects : List (String × Bool)) (begin t : ℕ) (s : ManagerState) : ℕ → Prop
  | returned : s.tasks t = .ended .returned → Resting objects begin [] s → Working objects begin t s 0
  | removing {u : String} {work : List Work} : s.tasks t = .removing u begin work →
      Resting objects begin work s → Working objects begin t s (work.length + 1)
  | deleting {u : String} {r : ℕ} {work : List Work} :
      s.tasks t = .delete r u (.reconcile begin work) →
      (∀ c, Resting objects begin work (({ s with clock := c } : ManagerState).close r false)) →
      Working objects begin t s (work.length + 1)

/-- **What a reconciliation does until the next reply**: it goes through its work up to the first item
that needs one. -/
theorem working_proceed (h : Resting objects begin work s) :
    ∃ n ≤ work.length, Working objects begin t (s.proceed t begin work) n := by
  induction work with
  | nil => exact ⟨0, Nat.le_refl _, .returned tasks_setPc_self (h.of_eq rfl rfl)⟩
  | cons w work ih =>
    have hlater : Resting objects begin work s →
        ∃ n ≤ (w :: work).length, Working objects begin t (s.proceed t begin work) n := by
      intro hrest
      obtain ⟨n, hn, hworking⟩ := ih hrest
      exact ⟨n, Nat.le_succ_of_le hn, hworking⟩
    rcases w with u | u
    · rw [proceed]
      split
      · next hnone =>
        refine hlater (h.skip fun u' r heq hr ↦ ?_)
        have hsame : u = u' := by injection heq
        rw [← hsame, hnone] at hr
        cases hr
      · next r hr =>
        have hskip : (s.records r).running = false → Resting objects begin work s := by
          refine fun hidle ↦ h.skip fun u' r' heq hr' ↦ ?_
          have hsame : u = u' := by injection heq
          rw [← hsame, hr] at hr'
          rw [← Option.some.inj hr', hidle]
        obtain ⟨hfree, hprogress⟩ := h.free u r hr
        split
        · next hmodified =>
          -- A file server that counts as running and is to be deleted has not been modified.
          refine hlater (hskip (Bool.eq_false_iff.2 fun hrunning ↦ ?_))
          have hunwanted : (u, true) ∉ objects := fun hu ↦ (h.valid u hu).2 List.mem_cons_self
          have hold := (h.invalid u r hr hrunning hunwanted).2
          rw [ServerState.modifiedSince, hprogress, Bool.false_or, decide_eq_true_eq] at hmodified
          exact absurd hold (Nat.not_le.2 hmodified)
        · rw [hfree, Bool.not_true, if_neg Bool.false_ne_true]
          split
          · exact ⟨work.length + 1, Nat.le_refl _, .deleting tasks_setPc_self (h.close_start hr)⟩
          · next hidle => exact hlater (hskip (Bool.eq_false_iff.2 hidle))
    · rw [proceed]
      split
      · exact hlater (h.skip fun _ _ heq _ ↦ by cases heq)
      · exact ⟨work.length + 1, Nat.le_refl _, .removing tasks_setPc_self
          ((h.skip fun _ _ heq _ ↦ by cases heq).of_eq rfl rfl)⟩

/-- A step of a reconciliation that nothing interferes with: a request of it is answered, or time
passes. -/
def undisturbed (t : ℕ) (x : Transition ManagerState Label) : Bool :=
  match x.label with
  | .exec u .ok => u == t
  | .tick _ => true
  | _ => false

theorem undisturbed_cases {x : Transition ManagerState Label} (h : undisturbed t x = true) :
    x.label = .exec t .ok ∨ ∃ d, x.label = .tick d := by
  rw [undisturbed] at h
  split at h
  · next u hlabel => exact Or.inl (by rw [hlabel, beq_iff_eq.1 h])
  · next d hlabel => exact Or.inr ⟨d, hlabel⟩
  · cases h

/-- **A reply brings the reconciliation nearer to its end.** -/
theorem Working.step {n : ℕ} {l : Label} (h : Working objects begin t s n)
    (hstep : s.step l = some s') (hl : undisturbed t ⟨s, l, s'⟩ = true) :
    ∃ n', Working objects begin t s' n' ∧ n' + (if l.task = some t then 1 else 0) ≤ n := by
  rcases undisturbed_cases hl with rfl | ⟨d, rfl⟩
  · have hrespond : s.respond t (s.tasks t) .ok = some s' := by
      rw [ManagerState.step] at hstep
      split at hstep
      · exact hstep
      · cases hstep
    have hone : (if (Label.exec t .ok).task = some t then 1 else 0) = 1 := if_pos rfl
    rw [hone]
    rcases h with ⟨hpc, -⟩ | ⟨hpc, hrest⟩ | @⟨u, r, work, hpc, hrest⟩
    · rw [hpc] at hrespond
      cases hrespond
    · rw [hpc] at hrespond
      obtain rfl := Option.some.inj hrespond
      obtain ⟨n, hn, hworking⟩ := working_proceed (t := t) hrest
      exact ⟨n, hworking, Nat.succ_le_succ hn⟩
    · rw [hpc] at hrespond
      obtain rfl := Option.some.inj hrespond
      obtain ⟨n, hn, hworking⟩ := working_proceed (t := t) (hrest s.clock)
      exact ⟨n, hworking, Nat.succ_le_succ hn⟩
  · obtain rfl := Option.some.inj hstep
    refine ⟨n, ?_, Nat.le_refl _⟩
    rcases h with ⟨hpc, hrest⟩ | ⟨hpc, hrest⟩ | ⟨hpc, hrest⟩
    · exact .returned hpc (hrest.of_eq rfl rfl)
    · exact .removing hpc (hrest.of_eq rfl rfl)
    · exact .deleting hpc hrest

theorem Working.run {n : ℕ} (h : Working objects begin t s n) (hrun : Trace ManagerState.step s τ s')
    (hundisturbed : ∀ x ∈ τ, undisturbed t x = true) :
    ∃ n', Working objects begin t s' n' ∧ τ.countP (fun x ↦ x.label.task = some t) + n' ≤ n := by
  induction hrun generalizing n with
  | nil => exact ⟨n, h, Nat.le_of_eq (Nat.zero_add n)⟩
  | cons hstep _ ih =>
    obtain ⟨n₁, hworking, hn₁⟩ := h.step hstep (hundisturbed _ List.mem_cons_self)
    obtain ⟨n₂, hworking', hn₂⟩ := ih hworking fun x hx ↦ hundisturbed x (List.mem_cons_of_mem _ hx)
    refine ⟨n₂, hworking', ?_⟩
    rw [List.countP_cons]
    simp only [decide_eq_true_eq]
    omega

/-! ### The beginning -/

/-- One object that has been seen. -/
theorem lookup_learn_one (known : List String) (p : String × Bool) (u : String) :
    (learn known s p).servers.lookup u =
      if p = (u, true) ∧ u ∉ known then some s.records.size else s.servers.lookup u := by
  obtain ⟨name, valid⟩ := p
  have hcondition : (valid && name ∉ known) = true ∧ u = name ↔ (name, valid) = (u, true) ∧ u ∉ known := by
    rw [Prod.mk.injEq, Bool.and_eq_true, decide_eq_true_eq]
    constructor
    · rintro ⟨⟨rfl, hnew⟩, rfl⟩
      exact ⟨⟨rfl, rfl⟩, hnew⟩
    · rintro ⟨⟨rfl, rfl⟩, hnew⟩
      exact ⟨⟨rfl, hnew⟩, rfl⟩
  rw [learn]
  split
  · next hlearn =>
    show (setKey s.servers name s.records.size).lookup u = _
    rw [lookup_setKey]
    by_cases heq : u = name
    · rw [if_pos heq, if_pos (hcondition.1 ⟨hlearn, heq⟩)]
    · rw [if_neg heq, if_neg fun h ↦ heq (hcondition.2 h).2]
  · next hlearn => rw [if_neg fun h ↦ hlearn (hcondition.2 h).1]

/-- The users whose valid file servers were not known get new records. -/
theorem lookup_learn {known : List String} {objects : List (String × Bool)}
    (hkeys : (objects.map Prod.fst).Nodup) (u : String) :
    ((u, true) ∈ objects ∧ u ∉ known → (objects.foldl (learn known) s).getStatus u = true) ∧
    (¬((u, true) ∈ objects ∧ u ∉ known) →
      (objects.foldl (learn known) s).servers.lookup u = s.servers.lookup u) := by
  induction objects generalizing s with
  | nil => exact ⟨fun h ↦ absurd h.1 List.not_mem_nil, fun _ ↦ rfl⟩
  | cons p objects ih =>
    obtain ⟨hp, hkeys⟩ := List.nodup_cons.1 hkeys
    have hone := lookup_learn_one (s := s) known p u
    rw [List.foldl_cons]
    refine ⟨fun ⟨hmem, hnew⟩ ↦ ?_, fun hold ↦ ?_⟩
    · rcases List.mem_cons.1 hmem with hfirst | hlater
      · -- Its record is the one that has just been made, and nothing else is seen of the user.
        rw [if_pos ⟨hfirst.symm, hnew⟩] at hone
        have hrest := (ih (s := learn known s p) hkeys).2 fun hlater ↦
          hp (List.mem_map.2 ⟨(u, true), hlater.1, by rw [← hfirst]⟩)
        rw [getStatus_of_lookup (hrest.trans hone)]
        have hlearn : learn known s p = s.addServer u true := by
          rw [learn, ← hfirst, if_pos (by simpa using hnew)]
        rw [hlearn, (learn_old known objects (s.addServer u true)).2 _ (Nat.lt_succ_self _),
          records_addServer_self]
      · exact (ih hkeys).1 ⟨hlater, hnew⟩
    · rw [(ih hkeys).2 fun hlater ↦ hold ⟨List.mem_cons_of_mem _ hlater.1, hlater.2⟩, hone,
        if_neg (fun h : p = (u, true) ∧ u ∉ known ↦ hold ⟨h.1 ▸ List.mem_cons_self, h.2⟩)]

/-- Nobody uses a lock of a new record. -/
theorem free_learn (hserial : Serial s) (known : List String) (objects : List (String × Bool))
    (hfree : ∀ u r, s.servers.lookup u = some r →
      (s.records r).lock.free = true ∧ (s.records r).inProgress = false) :
    ∀ u r, (objects.foldl (learn known) s).servers.lookup u = some r →
      ((objects.foldl (learn known) s).records r).lock.free = true ∧
        ((objects.foldl (learn known) s).records r).inProgress = false := by
  induction objects generalizing s with
  | nil => exact hfree
  | cons p objects ih =>
    refine ih (hserial.learn known [p]) fun u r hr ↦ ?_
    rw [lookup_learn_one] at hr
    split at hr
    · next hnew =>
      have hlearn : learn known s p = s.addServer u true := by
        rw [learn, hnew.1, if_pos (by simpa using hnew.2)]
      rw [hlearn, ← Option.some.inj hr, records_addServer_self]
      exact ⟨rfl, rfl⟩
    · have hsame := (learn_old known [p] s).2 r (hserial.known u r hr)
      rw [List.foldl_cons, List.foldl_nil] at hsame
      rw [hsame]
      exact hfree u r hr

theorem mem_knownUsers (hkeyed : Keyed s) (u : String) :
    u ∈ s.knownUsers ↔ s.getStatus u = true := by
  rw [knownUsers, List.mem_map]
  constructor
  · rintro ⟨⟨name, r⟩, hmem, rfl⟩
    obtain ⟨hmem, hrunning⟩ := List.mem_filter.1 hmem
    rw [getStatus_of_lookup (lookup_of_mem hkeyed.distinct hmem)]
    exact hrunning
  · intro hstatus
    rcases hr : s.servers.lookup u with _ | r
    · rw [getStatus, hr] at hstatus
      cases hstatus
    · rw [getStatus_of_lookup hr] at hstatus
      exact ⟨(u, r), List.mem_filter.2 ⟨mem_of_lookup hr, hstatus⟩, rfl⟩

/-- **Once Kubernetes has been read**, the manager is at rest with the work that the reconciliation has
set itself. -/
theorem resting_update {invalid missing : List String} (unexpected : List String) (hserial : Serial s)
    (hkeyed : Keyed s) (hkeys : (objects.map Prod.fst).Nodup)
    (hinvalid : invalid.Perm (s.invalidUsers objects)) (hmissing : missing.Perm (s.missingUsers objects))
    (hquiet : ∀ p ∈ s.servers,
      (s.records p.2).lock.free = true ∧ (s.records p.2).modifiedSince begin = false) :
    Resting objects begin (invalid.map .known ++ unexpected.map .unexpected ++ missing.map .known)
      (objects.foldl (learn s.knownUsers) s) := by
  have hwork : ∀ u, Work.known u ∈ invalid.map .known ++ unexpected.map .unexpected ++
      missing.map .known ↔ u ∈ s.invalidUsers objects ∨ u ∈ s.missingUsers objects := by
    intro u
    rw [← hinvalid.mem_iff, ← hmissing.mem_iff]
    simp
  have hseen : ∀ u, u ∈ s.invalidUsers objects → (u, true) ∉ objects := by
    intro u hu htrue
    obtain ⟨⟨name, valid⟩, hmem, rfl⟩ := List.mem_map.1 hu
    obtain ⟨hmem, hvalid⟩ := List.mem_filter.1 hmem
    rw [Bool.and_eq_true, Bool.not_eq_true'] at hvalid
    have heq := (lookup_of_mem hkeys hmem).symm.trans (lookup_of_mem hkeys htrue)
    have hfalse : valid = false := hvalid.1
    rw [hfalse] at heq
    cases heq
  refine ⟨(hkeyed.learn hserial _ _).own, free_learn hserial _ _ fun u r hr ↦ ?_, fun u hu ↦ ?_,
    fun u r hr hrunning hu ↦ ?_⟩
  · obtain ⟨hfree, hmodified⟩ := hquiet _ (mem_of_lookup hr)
    exact ⟨hfree, (Bool.or_eq_false_iff.1 hmodified).1⟩
  · refine ⟨?_, fun hmem ↦ ?_⟩
    · by_cases hknown : u ∈ s.knownUsers
      · have hstatus := (mem_knownUsers hkeyed u).1 hknown
        have hsame := (lookup_learn (s := s) hkeys u).2 fun h ↦ h.2 hknown
        rcases hr : s.servers.lookup u with _ | r
        · rw [getStatus, hr] at hstatus
          cases hstatus
        · rw [getStatus_of_lookup hr] at hstatus
          rw [getStatus_of_lookup (hsame.trans hr), (learn_old _ _ s).2 r (hserial.known u r hr)]
          exact hstatus
      · exact (lookup_learn hkeys u).1 ⟨hu, hknown⟩
    · rcases (hwork u).1 hmem with hmem | hmem
      · exact hseen u hmem hu
      · have hgone := (List.mem_filter.1 hmem).2
        rw [Bool.or_eq_true, decide_eq_true_eq, decide_eq_true_eq] at hgone
        rcases hgone with hgone | hgone
        · exact hgone (List.mem_map.2 ⟨_, hu, rfl⟩)
        · exact hseen u hgone hu
  · -- A file server that counts as running and is not a valid one was known.
    rw [(lookup_learn hkeys u).2 fun h ↦ hu h.1] at hr
    rw [(learn_old _ _ s).2 r (hserial.known u r hr)] at hrunning ⊢
    obtain ⟨-, hmodified⟩ := hquiet _ (mem_of_lookup hr)
    have hold := (Bool.or_eq_false_iff.1 hmodified).2
    rw [decide_eq_false_iff_not, Nat.not_lt] at hold
    refine ⟨(hwork u).2 ?_, hold⟩
    have hknown : u ∈ s.knownUsers :=
      (mem_knownUsers hkeyed u).2 ((getStatus_of_lookup hr).trans hrunning)
    by_cases hmem : u ∈ objects.map Prod.fst
    · left
      obtain ⟨⟨name, valid⟩, hobject, rfl⟩ := List.mem_map.1 hmem
      refine List.mem_map.2 ⟨(name, valid), List.mem_filter.2 ⟨hobject, ?_⟩, rfl⟩
      rcases valid with _ | _
      · show (!false && (s.servers.lookup name).isSome) = true
        rw [hr]
        rfl
      · exact absurd hobject hu
    · exact Or.inr (List.mem_filter.2 ⟨hknown, by simp [hmem]⟩)

/-- **A reconciliation that nothing interferes with settles what is running.** Where it has read Kubernetes
while no file server was being worked on or had been modified since it began, and its requests then
succeed, it needs at most one request for each user on its lists, and when it has returned, exactly the
users whose valid file servers have been seen have a running one. -/
theorem reconcile_settles {invalid unexpected missing : List String} {x : Transition ManagerState Label}
    (h₀ : Run τ₀ s) (hpc : s.tasks t = .reading begin)
    (hquiet : ∀ p ∈ s.servers,
      (s.records p.2).lock.free = true ∧ (s.records p.2).modifiedSince begin = false)
    (h : Trace step s (x :: τ) s') (hx : x.label = .exec t (.seen objects invalid unexpected missing))
    (hundisturbed : ∀ y ∈ τ, undisturbed t y = true) :
    τ.countP (fun y ↦ y.label.task = some t) ≤ invalid.length + unexpected.length + missing.length ∧
      (s'.tasks t = .ended .returned ∧ (∀ u, s'.getStatus u = true ↔ (u, true) ∈ objects) ∨
        ∃ b, s'.step (.exec t .ok) = some b) := by
  obtain ⟨hserial, hkeyed⟩ := And.intro (serial_of_run h₀) (keyed_of_run h₀)
  rcases h with _ | @⟨_, s₁, _, l, _, hstep, hrest⟩
  obtain rfl : l = .exec t (.seen objects invalid unexpected missing) := hx
  have ht : t < s'.tasks.size :=
    hrest.invariant (P := fun a ↦ t < a.tasks.size)
      (fun a l b ha hab ↦ Nat.lt_of_lt_of_le ha (tasks_mono hab))
      (Nat.lt_of_lt_of_le (lt_of_exec hstep) (tasks_mono hstep))
  rw [ManagerState.step, if_pos (lt_of_exec hstep), hpc, respond] at hstep
  split at hstep
  · next hreply =>
    obtain ⟨hkeys, hinvalid, -, hmissing⟩ := hreply
    obtain rfl := Option.some.inj hstep
    obtain ⟨n, hn, hworking⟩ := working_proceed (t := t)
      (resting_update unexpected hserial hkeyed hkeys hinvalid hmissing hquiet)
    obtain ⟨n', hworking', hcount⟩ := hworking.run hrest hundisturbed
    rw [List.length_append, List.length_append, List.length_map, List.length_map, List.length_map] at hn
    refine ⟨by omega, ?_⟩
    rcases hworking' with ⟨hend, hrest⟩ | ⟨hend, -⟩ | ⟨hend, -⟩
    · refine Or.inl ⟨hend, fun u ↦ ⟨fun hstatus ↦ ?_, fun hu ↦ (hrest.valid u hu).1⟩⟩
      by_contra hu
      rcases hr : s'.servers.lookup u with _ | r
      · rw [getStatus, hr] at hstatus
        cases hstatus
      · rw [getStatus_of_lookup hr] at hstatus
        exact List.not_mem_nil (hrest.invalid u r hr hstatus hu).1
    · exact Or.inr ⟨_, by rw [ManagerState.step, if_pos ht, hend]; rfl⟩
    · exact Or.inr ⟨_, by rw [ManagerState.step, if_pos ht, hend]; rfl⟩
  · cases hstep

/-- A user's file server has gone, another one is not valid and a third one was not known. -/
theorem reconcile_settles_sample : ∃ τ₀ s τ s', Run τ₀ s ∧ Trace step s τ s' ∧
    s.getStatus "rachel" = true ∧ s'.getStatus "rachel" = false ∧ s'.getStatus "simon" = true := by
  obtain ⟨τ₀, s, τ, s', h₀, h, hpc, hquiet, ⟨x, hmem, hx, hundisturbed⟩, hbefore, hend⟩ :=
    @exists_of_replay_replay _ _ step
      [.create "rachel", .exec 0 .ok, .create "thomas", .exec 1 .ok, .tick 2, .reconcile]
      [.exec 2 (.seen [("simon", true), ("thomas", false)] ["thomas"] [] ["rachel", "thomas"]),
        .exec 2 .ok, .tick 1, .exec 2 .ok] init
      (fun _ s τ s' ↦ s.tasks 2 = .reading 2 ∧ (∀ p ∈ s.servers,
          (s.records p.2).lock.free = true ∧ (s.records p.2).modifiedSince 2 = false) ∧
        (∃ x ∈ τ.head?, x.label = .exec 2 (.seen [("simon", true), ("thomas", false)] ["thomas"] []
          ["rachel", "thomas"]) ∧ ∀ y ∈ τ.tail, undisturbed 2 y = true) ∧
        s.getStatus "rachel" = true ∧ s'.tasks 2 = .ended .returned) _ (by decide)
  obtain ⟨τ, rfl⟩ := List.head?_eq_some_iff.1 hmem
  rcases (reconcile_settles h₀ hpc hquiet h hx hundisturbed).2 with ⟨-, hsettled⟩ | ⟨b, hb⟩
  · refine ⟨τ₀, s, _, s', h₀, h, hbefore, Bool.eq_false_iff.2 fun hstatus ↦ ?_, ?_⟩
    · have hseen := (hsettled "rachel").1 hstatus
      simp at hseen
    · exact (hsettled "simon").2 (by simp)
  · rw [ManagerState.step] at hb
    split at hb
    · rw [hend] at hb
      cases hb
    · cases hb

end ManagerState

end Nublado.Fileserver
