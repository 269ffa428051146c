import Nublado.Fileserver.Properties.Serialization

/-!
# No task waits for ever

A task that waits for the lock of a record has a bounded wait ahead of it (`waiting_bounded`), whatever
other tasks arrive in the meantime.

* `delay` is the measure: the steps that the operation at work can still take, and five for each task
  that stands ahead in the line, one to take the lock and four for the longest operation.
* `delay_step` says that no step of another task makes it longer, and that a step of the task at work, or
  one that takes the lock, makes it shorter.
* `can_serve` says that such a step is possible as long as the task itself cannot take the lock.
-/

namespace Nublado.Fileserver

namespace ManagerState

variable {s s' : ManagerState} {τ τ₀ : List (Transition ManagerState Label)} {t u r : ℕ} {m : Method}

/-- How long task `t`, which waits for the lock of record `r`, can still have to wait, in steps. -/
def delay (s : ManagerState) (r t : ℕ) : ℕ :=
  ((s.records r).lock.holder.elim 0 fun w ↦ (s.tasks w.1).left) +
    5 * (s.records r).lock.waiters.idxOf (t, ())

/-- A task that holds the lock of record `r` goes on, or one that waits for it takes it. -/
def serves (r : ℕ) (x : Transition ManagerState Label) : Bool :=
  match x.label with
  | .exec u .go => x.pre.heldBy u == some r || x.pre.awaitedBy u == some r
  | .exec u _ => x.pre.heldBy u == some r
  | _ => false

/-! ### The measure -/

/-- The lock and the task that holds it are what they were. -/
theorem delay_congr (hlock : (s'.records r).lock = (s.records r).lock)
    (htask : ∀ u, (s.records r).lock.holder = some (u, ()) → s'.tasks u = s.tasks u) :
    s'.delay r t = s.delay r t := by
  rw [delay, delay, hlock]
  rcases hholder : (s.records r).lock.holder with _ | ⟨u, ⟨⟩⟩
  · rfl
  · rw [Option.elim_some, Option.elim_some, htask u hholder]

/-- The lock of another record changes together with the task that had a part in it. -/
theorem delay_of_ne {q : ℕ} {f : ServerState → ServerState} {pc : Pc} (hq : r ≠ q)
    (hu : (s.records r).lock.holder ≠ some (u, ())) :
    ((s.modify q f).setPc u pc).delay r t = s.delay r t := by
  refine delay_congr (congrArg ServerState.lock (if_neg hq)) fun v hv ↦ if_neg ?_
  rintro rfl
  exact hu hv

theorem Serial.not_holder (h : Serial s) (hu : s.heldBy u = none) (q : ℕ) :
    (s.records q).lock.holder ≠ some (u, ()) := by
  rw [Ne, h.holder, hu]
  exact fun hsome ↦ by cases hsome

/-- Task `t` is in the line of record `r`. -/
theorem Serial.in_line (h : Serial s) (ht : t < s.tasks.size) (hpc : s.tasks t = .lock r m) :
    (t, ()) ∈ (s.records r).lock.waiters :=
  (h.waiter r t).2 (awaitedBy_of_awaited ht (congrArg Pc.awaited hpc))

/-- A task that has no part in any lock goes on. -/
theorem Begins.delay (hb : Begins s u s') (h : Serial s) (hu : (s.tasks u).Idle)
    (ht : t < s.tasks.size) (hpc : s.tasks t = .lock r m) : s'.delay r t = s.delay r t := by
  have hholder := h.not_holder (heldBy_of_idle hu)
  have hline := h.in_line ht hpc
  have hother : ∀ {pc : Pc} v, (s.records r).lock.holder = some (v, ()) →
      (s.setPc u pc).tasks v = s.tasks v := by
    intro pc v hv
    refine if_neg ?_
    rintro rfl
    exact hholder r hv
  rcases hb with _ | @⟨q, m, -, hfree⟩ | @⟨q, m, -, hfree, -⟩
  · exact delay_congr rfl hother
  · rcases eq_or_ne r q with rfl | hne
    · -- A task that arrives stands behind `t`.
      have hlock : ((s.waitFor u r m).records r).lock = (s.records r).lock.enqueue u () :=
        congrArg ServerState.lock (if_pos rfl)
      have hsame : (s.records r).lock.holder.elim 0 (fun w ↦ ((s.waitFor u r m).tasks w.1).left) =
          (s.records r).lock.holder.elim 0 fun w ↦ (s.tasks w.1).left := by
        rcases hv : (s.records r).lock.holder with _ | ⟨v, ⟨⟩⟩
        · rfl
        · exact congrArg Pc.left (hother v hv)
      rw [ManagerState.delay, ManagerState.delay, hlock, FifoLock.holder_enqueue,
        FifoLock.waiters_enqueue, List.idxOf_append_of_mem hline, hsame]
    · exact delay_of_ne hne (hholder r)
  · rcases eq_or_ne r q with rfl | hne
    · rw [(FifoLock.free_iff.1 hfree).2] at hline
      exact absurd hline List.not_mem_nil
    · exact delay_of_ne hne (hholder r)

/-- The operation at work on the record is over. -/
theorem delay_close {running : Bool} {pc : Pc} (hu : (s.records r).lock.holder = some (u, ())) :
    ((s.close r running).setPc u pc).delay r t + (s.tasks u).left = s.delay r t := by
  have hlock : ((s.close r running).records r).lock = (s.records r).lock.release := by
    rw [close, finish, modify_modify, records_modify, if_pos rfl]
  rw [delay, delay, records_setPc, hlock, hu]
  show 0 + 5 * (s.records r).lock.waiters.idxOf (t, ()) + (s.tasks u).left =
    (s.tasks u).left + 5 * (s.records r).lock.waiters.idxOf (t, ())
  omega

/-- The task at the head of the line has left it. -/
theorem delay_dropHead {pc : Pc} (hholder : (s.records r).lock.holder = none) (hne : u ≠ t)
    (hhead : (s.records r).lock.waiters.head? = some (u, ())) :
    ((s.dropHead r).setPc u pc).delay r t + 5 = s.delay r t := by
  have hlock : ((s.dropHead r).records r).lock =
      { holder := none, waiters := (s.records r).lock.waiters.tail } :=
    congrArg ServerState.lock (if_pos rfl)
  obtain ⟨ws, hws⟩ : ∃ ws, (s.records r).lock.waiters = (u, ()) :: ws := List.head?_eq_some_iff.1 hhead
  rw [delay, delay, records_setPc, hlock, hholder, hws, List.idxOf_cons_ne _ (by simpa using hne)]
  show 0 + 5 * ws.idxOf (t, ()) + 5 = 0 + 5 * (ws.idxOf (t, ()) + 1)
  omega

/-- The task at the head of the line has taken the lock. -/
theorem delay_start {pc : Pc} (hholder : (s.records r).lock.holder = none) :
    (s.start u r pc).delay r t = s.delay r t + pc.left := by
  have hlock : ((s.start u r pc).records r).lock = (s.records r).lock.take u () :=
    congrArg ServerState.lock (if_pos rfl)
  rw [delay, delay, hlock, hholder]
  show ((s.start u r pc).tasks u).left + _ = 0 + _ + _
  rw [start, tasks_setPc_self, FifoLock.waiters_take]
  omega

/-- A task that leaves the line does not hold up others. -/
theorem delay_leaveLine {pc : Pc} (hne : t ≠ u) (hu : (s.records r).lock.holder ≠ some (u, ())) :
    ((s.leaveLine u r).setPc u pc).delay r t ≤ s.delay r t := by
  have hlock : ((s.leaveLine u r).records r).lock = { (s.records r).lock with
      waiters := (s.records r).lock.waiters.filter fun w ↦ w.1 ≠ u } :=
    congrArg ServerState.lock (if_pos rfl)
  have hsame : (s.records r).lock.holder.elim 0
      (fun w ↦ (((s.leaveLine u r).setPc u pc).tasks w.1).left) =
      (s.records r).lock.holder.elim 0 fun w ↦ (s.tasks w.1).left := by
    rcases hv : (s.records r).lock.holder with _ | ⟨v, ⟨⟩⟩
    · rfl
    · refine congrArg Pc.left (tasks_setPc_of_ne ?_)
      rintro rfl
      exact hu hv
  rw [delay, delay, records_setPc, hlock, hsame]
  have hle := FifoLock.idxOf_filter_le (p := fun w : ℕ × Unit ↦ w.1 ≠ u) (a := (t, ()))
    (by simpa using hne) (s.records r).lock.waiters
  exact Nat.add_le_add_left (Nat.mul_le_mul_left 5 hle) _

/-! ### Steps -/

theorem not_serves {reply : Reply} (hheld : s.heldBy u ≠ some r) (hawaited : s.awaitedBy u ≠ some r) :
    serves r ⟨s, .exec u reply, s'⟩ = false := by
  rcases reply <;> simp [serves, hheld, hawaited]

theorem not_serves_of_not_exec {l : Label} (hl : ∀ u reply, l ≠ .exec u reply) :
    serves r ⟨s, l, s'⟩ = false := by
  rcases l with _ | _ | _ | _ | ⟨u, reply⟩
  case exec => exact absurd rfl (hl u reply)
  all_goals rfl

/-- A task that holds the lock of another record. -/
theorem Serial.of_held (h : Serial s) {p : ℕ × String × Bool} (hu : u < s.tasks.size)
    (hp : (s.tasks u).held = some p) (hpr : p.1 ≠ r) :
    (∀ reply s', serves r ⟨s, .exec u reply, s'⟩ = false) ∧
      (s.records r).lock.holder ≠ some (u, ()) := by
  have hheld : s.heldBy u ≠ some r := by
    rw [heldBy_of_held hu hp]
    exact fun hsome ↦ hpr (Option.some.inj hsome)
  refine ⟨fun reply s' ↦ not_serves hheld ?_, fun hsome ↦ hheld ((h.holder r u).1 hsome)⟩
  rw [awaitedBy, if_pos hu, Pc.awaited_of_held hp]
  exact fun hsome ↦ by cases hsome

/-- A task that waits for the lock of another record. -/
theorem Serial.of_lock (h : Serial s) {q : ℕ} (hu : u < s.tasks.size) (hpc : s.tasks u = .lock q m) :
    (q ≠ r → ∀ reply s', serves r ⟨s, .exec u reply, s'⟩ = false) ∧
      (s.records r).lock.holder ≠ some (u, ()) := by
  have hheld : s.heldBy u = none := by
    rw [heldBy, if_pos hu, hpc]
    rfl
  refine ⟨fun hqr reply s' ↦ not_serves (by simp [hheld]) ?_, h.not_holder hheld r⟩
  rw [awaitedBy_of_awaited hu (congrArg Pc.awaited hpc)]
  exact fun hsome ↦ hqr (Option.some.inj hsome)

/-- **A step of another task** does not make the wait longer, and makes it shorter if it serves the
record. -/
theorem delay_step (h : Serial s) (ht : t < s.tasks.size) (hpc : s.tasks t = .lock r m) {l : Label}
    (hstep : s.step l = some s') (hl : l.task ≠ some t) :
    s'.delay r t + (if serves r ⟨s, l, s'⟩ = true then 1 else 0) ≤ s.delay r t := by
  have hr : r < s.records.size := h.awaited_lt t r (awaitedBy_of_awaited ht (congrArg Pc.awaited hpc))
  have htFresh : t < s.fresh.tasks.size := Nat.lt_succ_of_lt ht
  have hpcFresh : s.fresh.tasks t = .lock r m := (Heap.alloc_of_lt _ _ ht).trans hpc
  have hfresh : s.fresh.delay r t = s.delay r t := by
    refine delay_congr rfl fun u hu ↦ Heap.alloc_of_lt _ _ ?_
    by_contra hge
    rw [h.holder, heldBy, if_neg hge] at hu
    cases hu
  -- A task that did not hold the lock and that another task waits behind is not `t`.
  have hne : ∀ {u reply}, l = .exec u reply → t ≠ u := by
    rintro u reply rfl rfl
    exact hl rfl
  have hended : ∀ {a : ManagerState} {u : ℕ}, ((a.setPc u (.ended .returned)).tasks u).Idle :=
    fun {a u} ↦ by rw [tasks_setPc_self]; exact ⟨rfl, rfl⟩
  cases move_of_step hstep with
  | tick => exact Nat.le_refl _
  | called hl hb =>
    rw [not_serves_of_not_exec hl, hb.delay h.fresh idle_fresh htFresh hpcFresh, hfresh]
    exact Nat.le_refl _
  | @introduced username _ hnone hb =>
    have hnewer : (s.fresh.addServer username false).delay r t = s.fresh.delay r t :=
      delay_congr (congrArg ServerState.lock (records_addServer_of_ne (Nat.ne_of_lt hr))) fun _ _ ↦ rfl
    rw [not_serves_of_not_exec (fun _ _ h ↦ by cases h),
      hb.delay (h.fresh.addServer username false) idle_fresh htFresh hpcFresh, hnewer, hfresh]
    exact Nat.le_refl _
  | @kept u reply pc p hu hp hpc' _ hleft =>
    rcases eq_or_ne p.1 r with rfl | hpr
    · have hdelay : (s.setPc u pc).delay p.1 t + (s.tasks u).left = s.delay p.1 t + pc.left := by
        rw [delay, delay, records_setPc, (h.holder p.1 u).2 (heldBy_of_held hu hp)]
        show ((s.setPc u pc).tasks u).left + _ + _ = (s.tasks u).left + _ + _
        rw [tasks_setPc_self]
        omega
      split <;> omega
    · have hother := h.of_held hu hp hpr
      have hdelay : (s.setPc u pc).delay r t = s.delay r t := by
        refine delay_congr rfl fun v hv ↦ tasks_setPc_of_ne ?_
        rintro rfl
        exact hother.2 hv
      rw [hother.1, hdelay]
      exact Nat.le_refl _
  | @finished u reply p s' hu hp hb =>
    have hclosed := hb.setPc (.ended .returned)
    have hdelay := (hb.setPc (.ended .returned)).delay (h.close hu hp _ .returned) hended ht
      ((tasks_setPc_of_ne (hne rfl)).trans hpc)
    rw [hdelay]
    rcases eq_or_ne p.1 r with rfl | hpr
    · have hclose := @delay_close s t u p.1 ((s.tasks u).outcome reply (s.records p.1).running)
        (.ended .returned) ((h.holder p.1 u).2 (heldBy_of_held hu hp))
      have hleft := Pc.left_pos hp
      split <;> omega
    · have hother := h.of_held hu hp hpr
      rw [hother.1, close, finish, modify_modify, delay_of_ne (Ne.symm hpr) hother.2]
      exact Nat.le_refl _
  | @granted u q m' hu hpc' hholder hhead _ =>
    have hother := h.of_lock (r := r) hu hpc'
    rcases eq_or_ne q r with rfl | hqr
    · have hdrop := @delay_dropHead s t u q (.ended .returned) hholder (hne rfl).symm hhead
      have hdropped : (((s.dropHead q).setPc u (.ended .returned)).records q).lock.holder = none := by
        rw [records_setPc, dropHead, records_modify, if_pos rfl]
      have hstart := @delay_start _ t u q (m'.first q) hdropped
      have hleft := Pc.left_le (m'.first q)
      rw [start_setPc] at hstart
      rw [hstart]
      split <;> omega
    · rw [hother.1 hqr, start, dropHead, modify_modify, delay_of_ne (Ne.symm hqr) hother.2]
      exact Nat.le_refl _
  | @left u q m' s' hu hpc' hholder hhead hb =>
    have hother := h.of_lock (r := r) hu hpc'
    rw [(hb.setPc (.ended .returned)).delay (h.dropHead hu hpc' hholder hhead .returned) hended ht
      ((tasks_setPc_of_ne (hne rfl)).trans hpc)]
    rcases eq_or_ne q r with rfl | hqr
    · have hdrop := @delay_dropHead s t u q (.ended .returned) hholder (hne rfl).symm hhead
      split <;> omega
    · rw [hother.1 hqr, dropHead, delay_of_ne (Ne.symm hqr) hother.2]
      exact Nat.le_refl _
  | @cancelled u q m' hu hpc' =>
    have hother := h.of_lock (r := r) hu hpc'
    rcases eq_or_ne q r with rfl | hqr
    · have hserves : serves q ⟨s, .exec u .cancelled, (s.leaveLine u q).setPc u (.ended .cancelled)⟩ =
          false := by
        simp [serves, heldBy, hpc', Pc.held]
      rw [hserves]
      exact delay_leaveLine (hne rfl) hother.2
    · rw [hother.1 hqr, leaveLine, delay_of_ne (Ne.symm hqr) hother.2]
      exact Nat.le_refl _
  | continued hu hidle hb =>
    rw [not_serves (by simp [heldBy_of_idle hidle]) (by simp [awaitedBy_of_idle hidle]),
      hb.delay h hidle ht hpc]
    exact Nat.le_refl _
  | @updated u begin objects _ _ _ s' hu hpc' hb =>
    have hidle : (s.tasks u).Idle := by
      rw [hpc']
      exact ⟨rfl, rfl⟩
    have hlearnt : (objects.foldl (learn s.knownUsers) s).delay r t = s.delay r t :=
      delay_congr (congrArg ServerState.lock ((learn_old _ _ s).2 r hr)) fun v _ ↦ by rw [tasks_learn]
    rw [not_serves (by simp [heldBy_of_idle hidle]) (by simp [awaitedBy_of_idle hidle]),
      hb.delay (h.learn _ _) (by rw [tasks_learn]; exact hidle) (by rw [tasks_learn]; exact ht)
        (by rw [tasks_learn]; exact hpc), hlearnt]
    exact Nat.le_refl _

/-- A task that waits for a lock is at the point where it asks for it. -/
theorem lock_of_awaitedBy (h : s.awaitedBy t = some r) :
    t < s.tasks.size ∧ ∃ m, s.tasks t = .lock r m := by
  rw [awaitedBy] at h
  split at h
  · next ht =>
    refine ⟨ht, ?_⟩
    rcases hpc : s.tasks t <;> rw [hpc] at h <;> simp [Pc.awaited] at h
    exact ⟨_, by rw [h]⟩
  · cases h

/-- A task that holds a lock can go on. -/
theorem respond_of_held {pc : Pc} {p : ℕ × String × Bool} (hp : pc.held = some p) :
    ∃ reply b, (reply = .ok ∨ reply = .go) ∧ s.respond u pc reply = some b := by
  rcases pc <;> simp only [Pc.held, reduceCtorEq] at hp
  case create | cleanup | delete => exact ⟨.ok, _, Or.inl rfl, rfl⟩
  case createFailed | cleanupFailed | deleteFailed => exact ⟨.go, _, Or.inr rfl, rfl⟩

/-- **Somebody can take a step** that brings task `t` nearer to the lock, or `t` can take it. -/
theorem can_serve (h : Serial s) (ht : t < s.tasks.size) (hpc : s.tasks t = .lock r m) :
    ∃ u reply b, (reply = .ok ∨ reply = .go) ∧ s.step (.exec u reply) = some b ∧
      serves r ⟨s, .exec u reply, b⟩ = true := by
  have hexec : ∀ {u}, u < s.tasks.size → ∀ reply,
      s.step (.exec u reply) = s.respond u (s.tasks u) reply := fun hu reply ↦ if_pos hu
  rcases hholder : (s.records r).lock.holder with _ | ⟨u, ⟨⟩⟩
  · -- Nobody holds the lock: the head of the line can take it.
    obtain ⟨u, hhead⟩ : ∃ u, (s.records r).lock.waiters.head? = some (u, ()) := by
      have hline := h.in_line ht hpc
      rcases hwaiters : (s.records r).lock.waiters with _ | ⟨⟨u, ⟨⟩⟩, ws⟩
      · rw [hwaiters] at hline
        exact absurd hline List.not_mem_nil
      · exact ⟨u, rfl⟩
    have hawaited := (h.waiter r u).1 (List.mem_of_mem_head? hhead)
    obtain ⟨hu, m', hpc'⟩ := lock_of_awaitedBy hawaited
    refine ⟨u, .go, s.granted u r m', Or.inr rfl, ?_, by simp [serves, hawaited]⟩
    rw [hexec hu, hpc', respond, if_pos ⟨hholder, hhead⟩]
  · -- The task that holds the lock can go on.
    have hheld := (h.holder r u).1 hholder
    have hu : u < s.tasks.size := by
      by_contra hge
      rw [heldBy, if_neg hge] at hheld
      cases hheld
    have hserves : ∀ reply b, reply ≠ .cancelled → serves r ⟨s, .exec u reply, b⟩ = true := by
      rintro (_ | _ | _ | _ | _) b hreply <;> simp [serves, hheld]
    rw [heldBy, if_pos hu, Option.map_eq_some_iff] at hheld
    obtain ⟨p, hp, rfl⟩ := hheld
    obtain ⟨reply, b, hreply, hb⟩ := respond_of_held (s := s) (u := u) hp
    refine ⟨u, reply, b, hreply, (hexec hu reply).trans hb, ?_⟩
    have hserved : s.heldBy u = some p.1 := heldBy_of_held hu hp
    rcases hreply with rfl | rfl <;> simp [serves, hserved]

/-- Another task does not touch what task `t` waits for. -/
theorem task_step {l : Label} (hstep : s.step l = some s') (ht : t < s.tasks.size)
    (hl : l.task ≠ some t) : t < s'.tasks.size ∧ s'.tasks t = s.tasks t := by
  have hne : ∀ {u reply}, l = .exec u reply → t ≠ u := by
    rintro u reply rfl rfl
    exact hl rfl
  have hold : s.fresh.tasks t = s.tasks t := Heap.alloc_of_lt _ _ ht
  have hsize : t < s.fresh.tasks.size := Nat.lt_succ_of_lt ht
  have hnew : t ≠ s.tasks.size := Nat.ne_of_lt ht
  cases move_of_step hstep with
  | tick => exact ⟨ht, rfl⟩
  | called _ hb => exact ⟨hb.size ▸ hsize, (hb.tasks_of_ne hnew).trans hold⟩
  | introduced _ hb => exact ⟨hb.size ▸ hsize, (hb.tasks_of_ne hnew).trans hold⟩
  | kept | granted | cancelled => exact ⟨ht, tasks_setPc_of_ne (hne rfl)⟩
  | finished _ _ hb => exact ⟨hb.size ▸ ht, hb.tasks_of_ne (hne rfl)⟩
  | left _ _ _ _ hb => exact ⟨hb.size ▸ ht, hb.tasks_of_ne (hne rfl)⟩
  | continued _ _ hb => exact ⟨hb.size ▸ ht, hb.tasks_of_ne (hne rfl)⟩
  | updated _ _ hb =>
    rw [hb.size, hb.tasks_of_ne (hne rfl), tasks_learn]
    exact ⟨ht, rfl⟩

/-- **A task that waits for the lock of a record has a bounded wait.** While it waits, the tasks that hold
the lock or take it before it take at most five steps for each task that was ahead of it in the line and
four for the operation that was at work, whoever else arrives; and one of them, or the task itself, can
always take such a step. -/
theorem waiting_bounded (h₀ : Run τ₀ s) (h : Trace step s τ s') (hawaited : s.awaitedBy t = some r)
    (hwaits : ∀ x ∈ τ, x.label.task ≠ some t) :
    τ.countP (serves r) ≤ 5 * (s.records r).lock.waiters.idxOf (t, ()) + 4 ∧
      ∃ u reply b, (reply = .ok ∨ reply = .go) ∧ s'.step (.exec u reply) = some b ∧
        serves r ⟨s', .exec u reply, b⟩ = true := by
  obtain ⟨ht, m, hpc⟩ := lock_of_awaitedBy hawaited
  have hwaiting : ∀ {a l b}, (Serial a ∧ t < a.tasks.size ∧ a.tasks t = .lock r m) →
      a.step l = some b → l.task ≠ some t →
      Serial b ∧ t < b.tasks.size ∧ b.tasks t = .lock r m := by
    rintro a l b ⟨ha, hta, hpca⟩ hstep hl
    obtain ⟨hlt, hsame⟩ := task_step hstep hta hl
    exact ⟨ha.step hstep, hlt, hsame.trans hpca⟩
  have hcount := h.countP_add_le_of (A := fun x ↦ x.label.task ≠ some t)
    (C := serves r) (r := fun s ↦ s.delay r t)
    (fun a l b ha hstep hl ↦ ⟨hwaiting ha hstep hl, delay_step ha.1 ha.2.1 ha.2.2 hstep hl⟩)
    ⟨serial_of_run h₀, ht, hpc⟩ hwaits
  have hdelay : s.delay r t ≤ 5 * (s.records r).lock.waiters.idxOf (t, ()) + 4 := by
    have hleft : (s.records r).lock.holder.elim 0 (fun w ↦ (s.tasks w.1).left) ≤ 4 := by
      rcases (s.records r).lock.holder with _ | w
      · exact Nat.zero_le _
      · exact Pc.left_le _
    rw [delay]
    omega
  obtain ⟨hserial, ht', hpc'⟩ := h.invariant_of
    (P := fun a ↦ Serial a ∧ t < a.tasks.size ∧ a.tasks t = .lock r m)
    (C := fun x ↦ x.label.task ≠ some t) (fun a l b ha hstep hl ↦ hwaiting ha hstep hl)
    ⟨serial_of_run h₀, ht, hpc⟩ hwaits
  exact ⟨by omega, can_serve hserial ht' hpc'⟩

/-- A deletion waits for a creation that fails, and for another creation. -/
theorem waiting_bounded_sample : ∃ τ₀ s τ s', Run τ₀ s ∧ Trace step s τ s' ∧
    (s.records 0).lock.waiters.idxOf (2, ()) = 1 ∧ τ.countP (serves 0) = 5 ∧
    ∃ u reply b, (reply = .ok ∨ reply = .go) ∧ s'.step (.exec u reply) = some b ∧
      serves 0 ⟨s', .exec u reply, b⟩ = true := by
  obtain ⟨τ₀, s, τ, s', h₀, h, hawaited, hidx, hcount, hwaits⟩ := @exists_of_replay_replay _ _ step
    [.create "rachel", .create "rachel", .delete "rachel"]
    [.exec 0 .raised, .exec 0 .go, .exec 0 .raised, .delete "rachel", .exec 0 .go, .exec 1 .go] init
    (fun _ s τ _ ↦ s.awaitedBy 2 = some 0 ∧ (s.records 0).lock.waiters.idxOf (2, ()) = 1 ∧
      τ.countP (serves 0) = 5 ∧ ∀ x ∈ τ, x.label.task ≠ some 2) _ (by decide)
  exact ⟨τ₀, s, τ, s', h₀, h, hidx, hcount, (waiting_bounded h₀ h hawaited hwaits).2⟩

end ManagerState

end Nublado.Fileserver
