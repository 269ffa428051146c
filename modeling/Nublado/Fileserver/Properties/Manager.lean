import Nublado.Fileserver.Properties.Serialization

/-!
# What the file server manager guarantees

* **Records** (`operations_take_turns`). Of all calls of `create` and `delete`, those made by
  reconciliations included, at most one at a time is at work on a record, and the record says so.
* **Users** (`user_operations_take_turns`). A user can have several records, since a reconciliation may
  give the user a new one. If that never happens while the lock of the old one is in use, at most one
  call at a time is at work for the user.
* **The running flag** (`running_conserved`). Successful creations and deletions of a record alternate:
  it is running if it has been created, or found to be running, once more than it has been deleted.
-/

namespace Nublado.Fileserver

namespace Pc

/-- The record in whose lock the task has a part, and the user. -/
def part (pc : Pc) : Option (ℕ × String) := (pc.held.map fun p ↦ (p.1, p.2.1)).or pc.awaited

theorem part_of_held {pc : Pc} {p : ℕ × String × Bool} (h : pc.held = some p) :
    pc.part = some (p.1, p.2.1) := by
  rw [part, h]
  rfl

theorem part_of_idle {pc : Pc} (h : pc.Idle) : pc.part = none := by
  rw [part, h.1, h.2]
  rfl

theorem part_cases {pc : Pc} {q : ℕ × String} (h : pc.part = some q) :
    (∃ p, pc.held = some p ∧ q = (p.1, p.2.1)) ∨ pc.awaited = some q := by
  rw [part] at h
  rcases hheld : pc.held with _ | p
  · rw [hheld] at h
    exact Or.inr h
  · rw [hheld] at h
    exact Or.inl ⟨p, rfl, (Option.some.inj h).symm⟩

end Pc

namespace ManagerState

variable {s s' : ManagerState} {τ : List (Transition ManagerState Label)} {username : String}

/-! ### Records -/

/-- A lock has one holder. -/
theorem Serial.unique (h : Serial s) {t t' : ℕ} {p p' : ℕ × String × Bool} (ht : t < s.tasks.size)
    (ht' : t' < s.tasks.size) (hp : (s.tasks t).held = some p) (hp' : (s.tasks t').held = some p')
    (hr : p.1 = p'.1) : t = t' := by
  have hholder := (h.holder p.1 t).2 (heldBy_of_held ht hp)
  have hholder' := (h.holder p'.1 t').2 (heldBy_of_held ht' hp')
  rw [← hr, hholder] at hholder'
  exact congrArg Prod.fst (Option.some.inj hholder')

/-- **Operations take turns.** In every run at most one task is at work on a record, which says that an
operation is in progress exactly while a task is, and whose running flag is meanwhile what the task
needs: creations are at work on file servers that are not running, deletions on such that are. -/
theorem operations_take_turns (h : Run τ s) :
    (∀ t t' p p', t < s.tasks.size → t' < s.tasks.size → (s.tasks t).held = some p →
      (s.tasks t').held = some p' → p.1 = p'.1 → t = t') ∧
      (∀ r, (s.records r).inProgress = true ↔ ∃ t p, t < s.tasks.size ∧ (s.tasks t).held = some p ∧
        p.1 = r) ∧
      ∀ t p, t < s.tasks.size → (s.tasks t).held = some p → (s.records p.1).running = p.2.2 := by
  have hserial := serial_of_run h
  refine ⟨fun t t' p p' ht ht' hp hp' hr ↦ hserial.unique ht ht' hp hp' hr, fun r ↦ ?_,
    fun t p ht hp ↦ hserial.running t ht p hp⟩
  · rw [hserial.inProgress, Option.isSome_iff_exists]
    constructor
    · rintro ⟨⟨t, ⟨⟩⟩, ht⟩
      have hheld := (hserial.holder r t).1 ht
      rw [heldBy] at hheld
      split at hheld
      · next hlt =>
        obtain ⟨p, hp, hr⟩ := Option.map_eq_some_iff.1 hheld
        exact ⟨t, p, hlt, hp, hr⟩
      · cases hheld
    · rintro ⟨t, p, ht, hp, rfl⟩
      exact ⟨_, (hserial.holder p.1 t).2 (heldBy_of_held ht hp)⟩

/-- A creation at work. -/
theorem operations_take_turns_sample : ∃ τ s, Run τ s ∧ (s.records 0).inProgress = true ∧
    ∃ t p, t < s.tasks.size ∧ (s.tasks t).held = some p ∧ p.1 = 0 := by
  obtain ⟨τ, s, hrun, hprogress⟩ := exists_run [.create "rachel", .create "rachel"]
    (fun _ s ↦ (s.records 0).inProgress = true) (by decide)
  exact ⟨τ, s, hrun, hprogress, ((operations_take_turns hrun).2.1 0).1 hprogress⟩

/-! ### Users -/

/-- The user is given another record while the lock of the old one is in use. -/
def Replaces (username : String) (x : Transition ManagerState Label) : Prop :=
  ∃ r ∈ x.pre.servers.lookup username, x.post.servers.lookup username ≠ some r ∧
    (x.pre.records r).lock.free = false

instance (username : String) (x : Transition ManagerState Label) : Decidable (Replaces username x) :=
  inferInstanceAs (Decidable (∃ r ∈ x.pre.servers.lookup username,
    x.post.servers.lookup username ≠ some r ∧ (x.pre.records r).lock.free = false))

/-- The other tasks are not new. -/
theorem old_of_fresh {v : ℕ} (hv : v < s.fresh.tasks.size) (hne : v ≠ s.tasks.size) :
    v < s.tasks.size ∧ s.fresh.tasks v = s.tasks v := by
  have hlt : v < s.tasks.size := by
    have hle : v < s.tasks.size + 1 := hv
    omega
  exact ⟨hlt, Heap.alloc_of_lt _ _ hlt⟩

theorem part_first (r : ℕ) (m : Method) : (m.first r).part = some (r, m.username) := by
  rcases m with _ | _ <;> rfl

/-- A task that goes on has a part in the lock of a record that the map of users has then. -/
theorem Begins.part {t : ℕ} (h : Begins s t s') {v : ℕ} {q : ℕ × String}
    (hq : (s'.tasks v).part = some q) :
    (v ≠ t ∧ s'.tasks v = s.tasks v) ∨ s'.servers.lookup q.2 = some q.1 := by
  rcases eq_or_ne v t with rfl | hvt
  · right
    rcases h with @⟨pc, hpc⟩ | @⟨r, m, hr, -⟩ | @⟨r, m, hr, -, -⟩
    · rw [tasks_setPc_self, Pc.part_of_idle hpc] at hq
      cases hq
    · have hpart : ((s.waitFor v r m).tasks v).part = some (r, m.username) :=
        congrArg Pc.part tasks_setPc_self
      rw [hpart] at hq
      rw [← Option.some.inj hq]
      exact hr
    · have hpart : ((s.start v r (m.first r)).tasks v).part = some (r, m.username) :=
        (congrArg Pc.part tasks_setPc_self).trans (part_first r m)
      rw [hpart] at hq
      rw [← Option.some.inj hq]
      exact hr
  · exact Or.inl ⟨hvt, h.tasks_of_ne hvt⟩

/-- **A task's part in a lock** is what it was, or it is in the lock of the user's record. -/
theorem part_step {l : Label} (h : s.step l = some s') {v : ℕ} (hv : v < s'.tasks.size)
    {q : ℕ × String} (hq : (s'.tasks v).part = some q) :
    (v < s.tasks.size ∧ (s.tasks v).part = some q) ∨ s'.servers.lookup q.2 = some q.1 := by
  have hbegins : ∀ {a : ManagerState} {t : ℕ}, Begins a t s' → (∀ v, v ≠ t → v < s'.tasks.size →
      v < s.tasks.size ∧ a.tasks v = s.tasks v) →
      (v < s.tasks.size ∧ (s.tasks v).part = some q) ∨ s'.servers.lookup q.2 = some q.1 := by
    intro a t hb ha
    rcases hb.part hq with ⟨hvt, hsame⟩ | hlookup
    · obtain ⟨hlt, hold⟩ := ha v hvt hv
      rw [hsame, hold] at hq
      exact Or.inl ⟨hlt, hq⟩
    · exact Or.inr hlookup
  cases move_of_step h with
  | tick => exact Or.inl ⟨hv, hq⟩
  | called _ hb =>
    exact hbegins hb fun v hvt hlt ↦ old_of_fresh (Nat.lt_of_lt_of_eq hlt hb.size) hvt
  | introduced _ hb =>
    exact hbegins hb fun v hvt hlt ↦ old_of_fresh (Nat.lt_of_lt_of_eq hlt hb.size) hvt
  | @kept t _ pc p ht hp hpc =>
    left
    rcases eq_or_ne v t with rfl | hvt
    · rw [tasks_setPc_self, Pc.part_of_held hpc] at hq
      exact ⟨ht, by rw [Pc.part_of_held hp, hq]⟩
    · rw [tasks_setPc_of_ne hvt] at hq
      exact ⟨hv, hq⟩
  | finished ht hp hb =>
    exact hbegins hb fun v _ hlt ↦ ⟨hb.size ▸ hlt, rfl⟩
  | @granted t r m ht hpc _ _ _ =>
    left
    rcases eq_or_ne v t with rfl | hvt
    · have hpart : (((s.dropHead r).start v r (m.first r)).tasks v).part = some (r, m.username) :=
        (congrArg Pc.part tasks_setPc_self).trans (part_first r m)
      rw [hpart] at hq
      exact ⟨ht, by rw [hpc, ← hq]; rfl⟩
    · exact ⟨hv, by rwa [ManagerState.start, tasks_setPc_of_ne hvt] at hq⟩
  | left ht hpc _ _ hb => exact hbegins hb fun v _ hlt ↦ ⟨hb.size ▸ hlt, rfl⟩
  | @cancelled t r m ht hpc =>
    rcases eq_or_ne v t with rfl | hvt
    · rw [tasks_setPc_self] at hq
      cases hq
    · exact Or.inl ⟨hv, by rwa [tasks_setPc_of_ne hvt] at hq⟩
  | continued ht _ hb => exact hbegins hb fun v _ hlt ↦ ⟨hb.size ▸ hlt, rfl⟩
  | updated ht hpc hb =>
    exact hbegins hb fun v _ hlt ↦ ⟨by rwa [hb.size, tasks_learn] at hlt, by rw [tasks_learn]⟩

/-- All tasks that have a part in a lock of the user's have it in that of the user's record. -/
def Current (username : String) (s : ManagerState) : Prop :=
  ∀ t < s.tasks.size, ∀ r, (s.tasks t).part = some (r, username) → s.servers.lookup username = some r

/-- The lock in which a task has a part is in use. -/
theorem Serial.not_free (h : Serial s) {t : ℕ} (ht : t < s.tasks.size) {q : ℕ × String}
    (hq : (s.tasks t).part = some q) : (s.records q.1).lock.free = false := by
  rw [Bool.eq_false_iff, Ne, FifoLock.free_iff]
  rintro ⟨hholder, hwaiters⟩
  rcases Pc.part_cases hq with ⟨p, hp, rfl⟩ | hawaited
  · have hsome := (h.holder p.1 t).2 (heldBy_of_held ht hp)
    rw [hholder] at hsome
    cases hsome
  · have hmem := (h.waiter q.1 t).2 (awaitedBy_of_awaited ht hawaited)
    rw [hwaiters] at hmem
    exact List.not_mem_nil hmem

/-- A step that does not replace the record while it is in use keeps all tasks on it. -/
theorem Current.step {l : Label} (hserial : Serial s) (h : Current username s)
    (hstep : s.step l = some s') (hkeeps : ¬Replaces username ⟨s, l, s'⟩) : Current username s' := by
  intro t ht r hr
  rcases part_step hstep ht hr with ⟨hlt, hold⟩ | hlookup
  · by_contra hne
    exact hkeeps ⟨r, h t hlt r hold, hne, hserial.not_free hlt hold⟩
  · exact hlookup

/-- **Operations for a user take turns** in every run in which the user is not given another record while
the lock of the old one is in use. -/
theorem user_operations_take_turns (h : Run τ s) (hkeeps : ∀ x ∈ τ, ¬Replaces username x) {t t' : ℕ}
    (ht : t < s.tasks.size) (ht' : t' < s.tasks.size) {p p' : ℕ × String × Bool}
    (hp : (s.tasks t).held = some p) (hp' : (s.tasks t').held = some p') (hu : p.2.1 = username)
    (hu' : p'.2.1 = username) : t = t' := by
  have hcurrent : Serial s ∧ Current username s := by
    refine h.invariant_of (P := fun s ↦ Serial s ∧ Current username s)
      (fun a l b ⟨hserial, hcurrent⟩ hstep hx ↦ ⟨hserial.step hstep, hcurrent.step hserial hstep hx⟩)
      ⟨serial_init, fun t ht ↦ absurd ht (Nat.not_lt_zero t)⟩ hkeeps
  have hr := hcurrent.2 t ht p.1 (by rw [Pc.part_of_held hp, hu])
  have hr' := hcurrent.2 t' ht' p'.1 (by rw [Pc.part_of_held hp', hu'])
  exact hcurrent.1.unique ht ht' hp hp' (Option.some.inj (hr.symm.trans hr'))

/-- A creation at work, and a deletion that waits for it. -/
theorem user_operations_take_turns_sample : ∃ τ s, Run τ s ∧ s.tasks.size = 2 ∧
    ∀ t p, t < s.tasks.size → (s.tasks t).held = some p → p.2.1 = "rachel" → t = 0 := by
  obtain ⟨τ, s, hrun, hkeeps, hsize, hheld⟩ := exists_run
    [.create "rachel", .tick 1, .delete "rachel", .exec 0 .raised]
    (fun τ s ↦ (∀ x ∈ τ, ¬Replaces "rachel" x) ∧ s.tasks.size = 2 ∧
      (s.tasks 0).held = some (0, "rachel", false)) (by decide)
  exact ⟨τ, s, hrun, hsize, fun t p ht hp hu ↦
    user_operations_take_turns hrun hkeeps ht (by omega) hp hheld hu rfl⟩

/-! ### The running flag -/

/-- The file server of record `r` is created. -/
def creates (r : ℕ) (x : Transition ManagerState Label) : Bool :=
  match x.label with
  | .exec t .ok =>
    match x.pre.tasks t with
    | .create q _ => q == r
    | _ => false
  | _ => false

/-- The file server of record `r` is deleted. -/
def deletes (r : ℕ) (x : Transition ManagerState Label) : Bool :=
  match x.label with
  | .exec t .ok =>
    match x.pre.tasks t with
    | .delete q _ _ => q == r
    | _ => false
  | _ => false

/-- Record `r` is made for a file server that has been found to be running. -/
def finds (r : ℕ) (x : Transition ManagerState Label) : Bool :=
  decide (x.pre.records.size ≤ r) && decide (r < x.post.records.size) && (x.post.records r).running

theorem creates_iff {r : ℕ} {l : Label} :
    creates r ⟨s, l, s'⟩ = true ↔ ∃ t u, l = .exec t .ok ∧ s.tasks t = .create r u := by
  constructor
  · intro h
    rcases l with _ | _ | _ | _ | ⟨t, reply⟩ <;> try cases h
    rcases reply <;> try cases h
    rcases hpc : s.tasks t <;> simp only [creates, hpc, Bool.false_eq_true, beq_iff_eq] at h
    exact ⟨t, _, rfl, by rw [hpc, h]⟩
  · rintro ⟨t, u, rfl, hpc⟩
    simp [creates, hpc]

theorem deletes_iff {r : ℕ} {l : Label} :
    deletes r ⟨s, l, s'⟩ = true ↔
      ∃ t u caller, l = .exec t .ok ∧ s.tasks t = .delete r u caller := by
  constructor
  · intro h
    rcases l with _ | _ | _ | _ | ⟨t, reply⟩ <;> try cases h
    rcases reply <;> try cases h
    rcases hpc : s.tasks t <;> simp only [deletes, hpc, Bool.false_eq_true, beq_iff_eq] at h
    exact ⟨t, _, _, rfl, by rw [hpc, h]⟩
  · rintro ⟨t, u, caller, rfl, hpc⟩
    simp [deletes, hpc]

/-- What is left of a running flag after the last reply to a task. -/
theorem flag_exec (r t : ℕ) (reply : Reply) (running : Bool) :
    (creates r ⟨s, .exec t reply, s'⟩ || running && !deletes r ⟨s, .exec t reply, s'⟩) =
      if (s.tasks t).held.map Prod.fst = some r then (s.tasks t).outcome reply running else running := by
  rcases hpc : s.tasks t <;> rcases reply <;>
    simp [creates, deletes, hpc, Pc.held, Pc.outcome] <;> grind

theorem flag_of_not_exec {r : ℕ} {l : Label} (hl : ∀ t reply, l ≠ .exec t reply) (running : Bool) :
    (creates r ⟨s, l, s'⟩ || running && !deletes r ⟨s, l, s'⟩) = running := by
  rcases l with _ | _ | _ | _ | ⟨t, reply⟩
  case exec => exact absurd rfl (hl t reply)
  all_goals simp [creates, deletes]

theorem running_modify {q : ℕ} {f : ServerState → ServerState}
    (hf : (f (s.records q)).running = (s.records q).running) (r : ℕ) :
    ((s.modify q f).records r).running = (s.records r).running :=
  Heap.modify_field ServerState.running s.records q r f hf

theorem running_waitFor (t q : ℕ) (m : Method) (r : ℕ) :
    ((s.waitFor t q m).records r).running = (s.records r).running := by
  rw [waitFor, records_setPc]
  exact running_modify rfl r

theorem running_start (t q : ℕ) (pc : Pc) (r : ℕ) :
    ((s.start t q pc).records r).running = (s.records r).running := by
  rw [start, records_setPc]
  exact running_modify rfl r

theorem running_finish (q r : ℕ) : ((s.finish q).records r).running = (s.records r).running := by
  rw [finish]
  exact running_modify rfl r

theorem running_dropHead (q r : ℕ) : ((s.dropHead q).records r).running = (s.records r).running := by
  rw [dropHead]
  exact running_modify rfl r

theorem running_leaveLine (t q r : ℕ) :
    ((s.leaveLine t q).records r).running = (s.records r).running := by
  rw [leaveLine]
  exact running_modify rfl r

theorem Begins.running {t : ℕ} (h : Begins s t s') (r : ℕ) :
    (s'.records r).running = (s.records r).running := by
  rcases h with _ | _ | _
  · rfl
  · exact running_waitFor t _ _ r
  · exact running_start t _ _ r

/-- **What a step does to the running flag** of a record. -/
theorem running_step (hserial : Serial s) {l : Label} (h : s.step l = some s') {r : ℕ}
    (hr : r < s.records.size) :
    (s'.records r).running =
      (creates r ⟨s, l, s'⟩ || (s.records r).running && !deletes r ⟨s, l, s'⟩) := by
  have hnone : ∀ {t : ℕ} {reply : Reply}, (s.tasks t).held = none →
      (creates r ⟨s, .exec t reply, s'⟩ ||
        (s.records r).running && !deletes r ⟨s, .exec t reply, s'⟩) = (s.records r).running := by
    intro t reply hheld
    rw [flag_exec, hheld]
    rfl
  cases move_of_step h with
  | tick => rw [flag_of_not_exec (fun _ _ h ↦ by cases h)]
  | called hl hb =>
    rw [flag_of_not_exec hl, hb.running]
    rfl
  | introduced _ hb =>
    rw [flag_of_not_exec (fun _ _ h ↦ by cases h), hb.running]
    exact congrArg ServerState.running (records_addServer_of_ne (Nat.ne_of_lt hr))
  | kept ht hp _ hout =>
    rw [flag_exec, hp]
    split
    · next hheld =>
      obtain rfl := Option.some.inj hheld
      show (s.records _).running = _
      rw [hserial.running _ ht _ hp, hout]
    · rfl
  | finished ht hp hb =>
    rw [flag_exec, hp, hb.running, ManagerState.close, running_finish, records_modify]
    split
    · next hrp =>
      rw [hrp]
      exact (if_pos rfl).symm
    · next hrp => exact (if_neg fun hheld ↦ hrp (Option.some.inj hheld).symm).symm
  | granted ht hpc =>
    rw [hnone (by rw [hpc]; rfl), running_start, running_dropHead]
  | left ht hpc _ _ hb =>
    rw [hnone (by rw [hpc]; rfl), hb.running, running_dropHead]
  | cancelled ht hpc => rw [hnone (by rw [hpc]; rfl), records_setPc, running_leaveLine]
  | continued ht hidle hb => rw [hnone hidle.1, hb.running]
  | updated ht hpc hb =>
    rw [hnone (by rw [hpc]; rfl), hb.running, (learn_old _ _ s).2 r hr]

/-- Only a file server that is not running is created. -/
theorem of_creates (hserial : Serial s) {l : Label} (h : s.step l = some s') {r : ℕ}
    (hx : creates r ⟨s, l, s'⟩ = true) : r < s.records.size ∧ (s.records r).running = false := by
  obtain ⟨t, u, rfl, hpc⟩ := creates_iff.1 hx
  have hheld : (s.tasks t).held = some (r, u, false) := congrArg Pc.held hpc
  exact ⟨hserial.held_lt t r (heldBy_of_held (lt_of_exec h) hheld),
    hserial.running t (lt_of_exec h) _ hheld⟩

/-- Only a file server that is running is deleted. -/
theorem of_deletes (hserial : Serial s) {l : Label} (h : s.step l = some s') {r : ℕ}
    (hx : deletes r ⟨s, l, s'⟩ = true) : r < s.records.size ∧ (s.records r).running = true := by
  obtain ⟨t, u, caller, rfl, hpc⟩ := deletes_iff.1 hx
  have hheld : (s.tasks t).held = some (r, u, true) := congrArg Pc.held hpc
  exact ⟨hserial.held_lt t r (heldBy_of_held (lt_of_exec h) hheld),
    hserial.running t (lt_of_exec h) _ hheld⟩

theorem Begins.records_size {t : ℕ} (h : Begins s t s') : s'.records.size = s.records.size := by
  rcases h with _ | _ | _ <;> rfl

/-- Records are never taken away. -/
theorem records_mono {l : Label} (h : s.step l = some s') : s.records.size ≤ s'.records.size := by
  cases move_of_step h with
  | tick | kept | granted | cancelled => exact Nat.le_refl _
  | called _ hb => exact Nat.le_of_eq hb.records_size.symm
  | introduced _ hb => exact Nat.le_trans (Nat.le_succ _) (Nat.le_of_eq hb.records_size.symm)
  | finished _ _ hb => exact Nat.le_of_eq hb.records_size.symm
  | left _ _ _ _ hb => exact Nat.le_of_eq hb.records_size.symm
  | continued _ _ hb => exact Nat.le_of_eq hb.records_size.symm
  | updated _ _ hb => exact Nat.le_trans (learn_old _ _ s).1 (Nat.le_of_eq hb.records_size.symm)

/-- What has happened to a record accounts for its running flag; nothing has happened to one that is not
there. -/
structure Accounted (r : ℕ) (τ : List (Transition ManagerState Label)) (s : ManagerState) : Prop where
  there : r < s.records.size → τ.countP (creates r) + τ.countP (finds r) =
    τ.countP (deletes r) + if (s.records r).running then 1 else 0
  absent : s.records.size ≤ r →
    τ.countP (creates r) = 0 ∧ τ.countP (finds r) = 0 ∧ τ.countP (deletes r) = 0

/-- How often a step has been taken, with the last one. -/
theorem countP_snoc (c : Transition ManagerState Label → Bool) (x : Transition ManagerState Label) :
    (τ ++ [x]).countP c = τ.countP c + if c x = true then 1 else 0 := by
  rw [List.countP_append, List.countP_singleton]

theorem Accounted.step {r : ℕ} (h : Accounted r τ s) (hserial : Serial s) {l : Label}
    (hstep : s.step l = some s') : Accounted r (τ ++ [⟨s, l, s'⟩]) s' := by
  have hmono := records_mono hstep
  rcases Nat.lt_or_ge r s.records.size with hr | hr
  · refine ⟨fun _ ↦ ?_, fun hle ↦ absurd (Nat.lt_of_lt_of_le hr hmono) (Nat.not_lt.2 hle)⟩
    have hfinds : finds r ⟨s, l, s'⟩ = false := by
      simp [finds, Nat.not_le.2 hr]
    have hbefore := h.there hr
    have hafter := running_step hserial hstep hr
    rw [countP_snoc, countP_snoc, countP_snoc, hfinds, hafter]
    rcases hcreates : creates r ⟨s, l, s'⟩ with _ | _
    · rcases hdeletes : deletes r ⟨s, l, s'⟩ with _ | _
      · simpa using hbefore
      · rw [(of_deletes hserial hstep hdeletes).2] at hbefore ⊢
        simpa using hbefore
    · have hidle := (of_creates hserial hstep hcreates).2
      have hdeletes : deletes r ⟨s, l, s'⟩ = false := by
        refine Bool.eq_false_iff.2 fun hdeletes ↦ ?_
        rw [(of_deletes hserial hstep hdeletes).2] at hidle
        cases hidle
      rw [hidle] at hbefore
      rw [hdeletes]
      simp only [Bool.true_or, if_true, Bool.false_eq_true, if_false] at hbefore ⊢
      omega
  · have hcreates : creates r ⟨s, l, s'⟩ = false :=
      Bool.eq_false_iff.2 fun hx ↦ Nat.not_lt.2 hr (of_creates hserial hstep hx).1
    have hdeletes : deletes r ⟨s, l, s'⟩ = false :=
      Bool.eq_false_iff.2 fun hx ↦ Nat.not_lt.2 hr (of_deletes hserial hstep hx).1
    obtain ⟨hc, hf, hd⟩ := h.absent hr
    refine ⟨fun hlt ↦ ?_, fun hle ↦ ?_⟩
    · rw [countP_snoc, countP_snoc, countP_snoc, hcreates, hdeletes, hc, hf, hd]
      simp [finds, hr, hlt]
    · rw [countP_snoc, countP_snoc, countP_snoc, hcreates, hdeletes, hc, hf, hd]
      simp [finds, Nat.not_lt.2 hle]

/-- **The running flag is the net count** of what has happened to a record: in every run, a record is
running exactly if its file server has been created, or found to be running, once more than it has been
deleted, and otherwise these numbers are equal. -/
theorem running_conserved (h : Run τ s) {r : ℕ} (hr : r < s.records.size) :
    τ.countP (creates r) + τ.countP (finds r) =
      τ.countP (deletes r) + if (s.records r).running then 1 else 0 := by
  have haccounted : Accounted r τ s := by
    refine h.history (fun τ a l b hτ hP hstep ↦ hP.step (serial_of_run hτ) hstep) ⟨fun hlt ↦ ?_, fun _ ↦ ?_⟩
    · exact absurd hlt (Nat.not_lt_zero r)
    · exact ⟨rfl, rfl, rfl⟩
  exact haccounted.there hr

/-- A file server that has been created twice and deleted once is running. -/
theorem running_conserved_sample : ∃ τ s, Run τ s ∧ τ.countP (creates 0) = 2 ∧
    τ.countP (deletes 0) = 1 ∧ (s.records 0).running = true := by
  obtain ⟨τ, s, hrun, hsize, hcreates, hdeletes⟩ := exists_run
    [.create "rachel", .delete "rachel", .exec 0 .ok, .exec 1 .go, .create "rachel", .exec 1 .ok,
      .exec 2 .go, .exec 2 .ok]
    (fun τ s ↦ 0 < s.records.size ∧ τ.countP (creates 0) = 2 ∧ τ.countP (deletes 0) = 1) (by decide)
  refine ⟨τ, s, hrun, hcreates, hdeletes, ?_⟩
  have hflag := running_conserved hrun hsize
  by_contra hidle
  rw [if_neg hidle] at hflag
  omega

end ManagerState

end Nublado.Fileserver
