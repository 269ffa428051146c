import Nublado.Fileserver.Manager

/-!
# Operations on one record take turns

What a step of the file server manager can do, and the invariant about its locks.

* `Begins` describes what a task does from the point where it has no part in any lock until it waits or
  ends: `create`, `delete` and the loops of `reconcile` all end in one of three ways.
* `Move` has one constructor for each kind of step, and `move_of_step` says that there are no others. No
  later proof looks at `step` itself.
* `Serial` is the invariant. A step changes one record and one task, which has a part in no other lock
  before or after it (`Serial.change`), so that the lock of a record and the tasks that hold it or wait
  for it change together.
-/

namespace Nublado.Fileserver

/-! ### Where a task is -/

/-- The user whose file server the method is about. -/
def Method.username : Method → String
  | .create username => username
  | .delete username _ => username

/-- The value of the running flag that the method needs. -/
def Method.needs : Method → Bool
  | .create _ => false
  | .delete _ _ => true

/-- The first program point of the operation. -/
def Method.first (r : ℕ) : Method → Pc
  | .create username => .create r username
  | .delete username caller => .delete r username caller

namespace Pc

/-- The record whose lock the task holds, the user, and the running flag that the task has found. -/
def held : Pc → Option (ℕ × String × Bool)
  | .create r username | .createFailed r username | .cleanup r username
  | .cleanupFailed r username => some (r, username, false)
  | .delete r username _ | .deleteFailed r username _ => some (r, username, true)
  | _ => none

/-- The record whose lock the task waits for, and the user. -/
def awaited : Pc → Option (ℕ × String)
  | .lock r m => some (r, m.username)
  | _ => none

/-- The running flag after an operation whose last reply is given. -/
def outcome : Pc → Reply → Bool → Bool
  | .create _ _, .ok, _ => true
  | .delete _ _ _, .ok, _ => false
  | _, _, running => running

/-- The longest that an operation can still take, in steps. -/
def left : Pc → ℕ
  | .create _ _ => 4
  | .createFailed _ _ => 3
  | .cleanup _ _ | .delete _ _ _ => 2
  | .cleanupFailed _ _ | .deleteFailed _ _ _ => 1
  | _ => 0

/-- The task has no part in any lock. -/
def Idle (pc : Pc) : Prop := pc.held = none ∧ pc.awaited = none

theorem awaited_of_held {pc : Pc} {p : ℕ × String × Bool} (h : pc.held = some p) :
    pc.awaited = none := by
  rcases pc <;> first | rfl | cases h

theorem left_le (pc : Pc) : pc.left ≤ 4 := by
  rcases pc <;> simp [left]

theorem left_pos {pc : Pc} {p : ℕ × String × Bool} (h : pc.held = some p) : 0 < pc.left := by
  rcases pc <;> first | exact Nat.succ_pos _ | cases h

end Pc

namespace ManagerState

variable {s s' : ManagerState} {t r : ℕ} {username : String} {pc : Pc}

/-! ### Reading -/

@[simp] theorem servers_setPc : (s.setPc t pc).servers = s.servers := rfl
@[simp] theorem records_setPc : (s.setPc t pc).records = s.records := rfl
@[simp] theorem clock_setPc : (s.setPc t pc).clock = s.clock := rfl
@[simp] theorem size_setPc : (s.setPc t pc).tasks.size = s.tasks.size := rfl
@[simp] theorem servers_modify {f : ServerState → ServerState} :
    (s.modify r f).servers = s.servers := rfl
@[simp] theorem tasks_modify {f : ServerState → ServerState} : (s.modify r f).tasks = s.tasks := rfl
@[simp] theorem clock_modify {f : ServerState → ServerState} : (s.modify r f).clock = s.clock := rfl
@[simp] theorem size_modify {f : ServerState → ServerState} :
    (s.modify r f).records.size = s.records.size := rfl

theorem tasks_setPc (u : ℕ) : (s.setPc t pc).tasks u = if u = t then pc else s.tasks u := rfl

theorem records_modify {f : ServerState → ServerState} (q : ℕ) :
    (s.modify r f).records q = if q = r then f (s.records q) else s.records q := rfl

theorem setPc_setPc (pc' : Pc) : (s.setPc t pc).setPc t pc' = s.setPc t pc' :=
  congrArg (ManagerState.mk s.servers s.records · s.clock)
    (Heap.modify_modify s.tasks t (fun _ ↦ pc) fun _ ↦ pc')

/-! ### What a task does until it waits -/

/-- **How a task that has no part in any lock goes on** until it waits or ends: it asks for the lock of
the record of a user, or for no lock. -/
inductive Begins (s : ManagerState) (t : ℕ) : ManagerState → Prop
  | idle {pc : Pc} : pc.Idle → Begins s t (s.setPc t pc)
  | waits {r : ℕ} {m : Method} : s.servers.lookup m.username = some r →
      (s.records r).lock.free = false → Begins s t (s.waitFor t r m)
  | starts {r : ℕ} {m : Method} : s.servers.lookup m.username = some r →
      (s.records r).lock.free = true → (s.records r).running = m.needs →
      Begins s t (s.start t r (m.first r))

theorem begins_proceed (s : ManagerState) (t begin : ℕ) (work : List Work) :
    Begins s t (s.proceed t begin work) := by
  induction work with
  | nil => exact .idle ⟨rfl, rfl⟩
  | cons w work ih =>
    rcases w with username | username
    · rw [proceed]
      split
      · exact ih
      · next r hr =>
        split
        · exact ih
        · split
          · next hfree => exact .waits (m := .delete username _) hr (by simpa using hfree)
          · next hfree =>
            split
            · next hrunning =>
              exact .starts (m := .delete username _) hr (by simpa using hfree) hrunning
            · exact ih
    · rw [proceed]
      split
      · exact ih
      · exact .idle ⟨rfl, rfl⟩

theorem modify_setPc (f : ServerState → ServerState) (pc' : Pc) :
    ((s.setPc t pc).modify r f).setPc t pc' = (s.modify r f).setPc t pc' :=
  @setPc_setPc (s.modify r f) t pc pc'

theorem waitFor_setPc (r : ℕ) (m : Method) : (s.setPc t pc).waitFor t r m = s.waitFor t r m :=
  modify_setPc _ _

theorem start_setPc (r : ℕ) (pc' : Pc) : (s.setPc t pc).start t r pc' = s.start t r pc' :=
  modify_setPc _ _

/-- What the task was doing does not matter any more. -/
theorem Begins.setPc (h : Begins s t s') (pc : Pc) : Begins (s.setPc t pc) t s' := by
  rcases h with @⟨pc', hpc⟩ | ⟨hr, hfree⟩ | ⟨hr, hfree, hrunning⟩
  · rw [← setPc_setPc pc']
    exact .idle hpc
  · rw [← waitFor_setPc]
    exact .waits hr hfree
  · rw [← start_setPc]
    exact .starts hr hfree hrunning

theorem begins_notRunning (s : ManagerState) (t : ℕ) (caller : DeleteCaller) :
    Begins s t (s.notRunning t caller) := by
  rcases caller with _ | ⟨begin, work⟩
  · exact .idle ⟨rfl, rfl⟩
  · exact begins_proceed s t begin work

theorem begins_deleted (s : ManagerState) (t : ℕ) (caller : DeleteCaller) :
    Begins s t (s.deleted t caller) := by
  rcases caller with _ | ⟨begin, work⟩
  · exact .idle ⟨rfl, rfl⟩
  · exact begins_proceed s t begin work

theorem begins_createWith (h : s.servers.lookup username = some r) :
    Begins s t (s.createWith t r username) := by
  rw [createWith]
  split
  · next hfree => exact .waits (m := .create username) h (by simpa using hfree)
  · next hfree =>
    split
    · exact .idle ⟨rfl, rfl⟩
    · next hrunning =>
      exact .starts (m := .create username) h (by simpa using hfree)
        (by simpa [Method.needs] using hrunning)

theorem begins_callDelete (s : ManagerState) (t : ℕ) (username : String) :
    Begins s t (s.callDelete t username) := by
  rw [callDelete]
  split
  · exact .idle ⟨rfl, rfl⟩
  · next r hr =>
    split
    · next hfree => exact .waits (m := .delete username .outside) hr (by simpa using hfree)
    · next hfree =>
      split
      · next hrunning =>
        exact .starts (m := .delete username .outside) hr (by simpa using hfree) hrunning
      · exact .idle ⟨rfl, rfl⟩

/-! ### What a step can do -/

/-- The task at the head of the line has left it; nobody holds the lock. -/
def dropHead (s : ManagerState) (r : ℕ) : ManagerState :=
  s.modify r fun state ↦ { state with lock := { holder := none, waiters := state.lock.waiters.tail } }

/-- A task that holds the lock of record `r` is done. -/
def close (s : ManagerState) (r : ℕ) (running : Bool) : ManagerState :=
  (s.modify r fun state ↦ { state with running := running }).finish r

/-- A new task. -/
def fresh (s : ManagerState) : ManagerState := { s with tasks := s.tasks.alloc default }

theorem close_self (s : ManagerState) (r : ℕ) : s.close r (s.records r).running = s.finish r := by
  have hsame : s.modify r (fun state ↦ { state with running := (s.records r).running }) = s :=
    congrArg (ManagerState.mk s.servers · s.tasks s.clock) (Heap.modify_eq_self rfl)
  rw [close, hsame]

/-- **What a step can do.** -/
inductive Move (s : ManagerState) : Label → ManagerState → Prop
  | tick {d : ℕ} : Move s (.tick d) { s with clock := s.clock + d }
  /-- A method is called. -/
  | called {l : Label} {s' : ManagerState} : (∀ t reply, l ≠ .exec t reply) →
      Begins s.fresh s.tasks.size s' → Move s l s'
  /-- A method is called for a user who was not known. -/
  | introduced {username : String} {s' : ManagerState} : s.servers.lookup username = none →
      Begins (s.fresh.addServer username false) s.tasks.size s' → Move s (.create username) s'
  /-- A task that holds a lock goes on. -/
  | kept {t : ℕ} {reply : Reply} {pc : Pc} {p : ℕ × String × Bool} : t < s.tasks.size →
      (s.tasks t).held = some p → pc.held = some p → (s.tasks t).outcome reply p.2.2 = p.2.2 →
      pc.left < (s.tasks t).left → Move s (.exec t reply) (s.setPc t pc)
  /-- A task that holds a lock is done. -/
  | finished {t : ℕ} {reply : Reply} {p : ℕ × String × Bool} {s' : ManagerState} : t < s.tasks.size →
      (s.tasks t).held = some p →
      Begins (s.close p.1 ((s.tasks t).outcome reply (s.records p.1).running)) t s' →
      Move s (.exec t reply) s'
  /-- The head of the line gets the lock. -/
  | granted {t r : ℕ} {m : Method} : t < s.tasks.size → s.tasks t = .lock r m →
      (s.records r).lock.holder = none → (s.records r).lock.waiters.head? = some (t, ()) →
      (s.records r).running = m.needs →
      Move s (.exec t .go) ((s.dropHead r).start t r (m.first r))
  /-- The head of the line gets the lock but has nothing to do. -/
  | left {t r : ℕ} {m : Method} {s' : ManagerState} : t < s.tasks.size → s.tasks t = .lock r m →
      (s.records r).lock.holder = none → (s.records r).lock.waiters.head? = some (t, ()) →
      Begins (s.dropHead r) t s' → Move s (.exec t .go) s'
  /-- A task gives up waiting. -/
  | cancelled {t r : ℕ} {m : Method} : t < s.tasks.size → s.tasks t = .lock r m →
      Move s (.exec t .cancelled) ((s.leaveLine t r).setPc t (.ended .cancelled))
  /-- A task that has no part in a lock goes on. -/
  | continued {t : ℕ} {reply : Reply} {s' : ManagerState} : t < s.tasks.size → (s.tasks t).Idle →
      Begins s t s' → Move s (.exec t reply) s'
  /-- A reconciliation has read Kubernetes. -/
  | updated {t begin : ℕ} {objects : List (String × Bool)} {invalid unexpected missing : List String}
      {s' : ManagerState} : t < s.tasks.size → s.tasks t = .reading begin →
      Begins (objects.foldl (learn s.knownUsers) s) t s' →
      Move s (.exec t (.seen objects invalid unexpected missing)) s'

theorem modify_modify (f g : ServerState → ServerState) :
    (s.modify r f).modify r g = s.modify r fun state ↦ g (f state) :=
  congrArg (ManagerState.mk s.servers · s.tasks s.clock) (Heap.modify_modify s.records r f g)

/-- **What the head of the line does** when it gets the lock. -/
theorem granted_cases (s : ManagerState) (t r : ℕ) (m : Method) :
    (s.records r).running = m.needs ∧ s.granted t r m = (s.dropHead r).start t r (m.first r) ∨
      Begins (s.dropHead r) t (s.granted t r m) := by
  have hrunning : ((s.modify r fun state ↦ { state with lock := state.lock.grant t () }).records
      r).running = (s.records r).running := by
    rw [records_modify, if_pos rfl]
  have hreleased : (s.modify r fun state ↦ { state with lock := state.lock.grant t () }).modify r
      (fun state ↦ { state with lock := state.lock.release }) = s.dropHead r := modify_modify _ _
  have hstart : ∀ pc, (s.modify r fun state ↦ { state with lock := state.lock.grant t () }).start t r
      pc = (s.dropHead r).start t r pc := by
    intro pc
    rw [start, start, dropHead, modify_modify, modify_modify]
    rfl
  rcases m with username | ⟨username, caller⟩
  · rw [granted]
    simp only [hrunning, hreleased, hstart]
    split
    · exact Or.inr (.idle ⟨rfl, rfl⟩)
    · next hflag => exact Or.inl ⟨by simpa [Method.needs] using hflag, rfl⟩
  · rw [granted]
    simp only [hrunning, hreleased, hstart]
    split
    · next hflag => exact Or.inl ⟨hflag, rfl⟩
    · exact Or.inr (begins_notRunning _ t caller)

/-- A task that holds a lock ends. -/
theorem move_of_finish {reply : Reply} {p : ℕ × String × Bool} {res : Result} (ht : t < s.tasks.size)
    (hp : (s.tasks t).held = some p) (hout : ∀ b, (s.tasks t).outcome reply b = b) :
    Move s (.exec t reply) ((s.finish p.1).setPc t (.ended res)) := by
  refine .finished ht hp ?_
  rw [hout, close_self]
  exact .idle ⟨rfl, rfl⟩

theorem move_of_respond {reply : Reply} (ht : t < s.tasks.size)
    (h : s.respond t (s.tasks t) reply = some s') : Move s (.exec t reply) s' := by
  rcases hpc : s.tasks t with ⟨r, m⟩ | ⟨r, u⟩ | ⟨r, u⟩ | ⟨r, u⟩ | ⟨r, u⟩ | ⟨r, u, caller⟩ |
    ⟨r, u, caller⟩ | begin | ⟨u, begin, work⟩ | res
  all_goals
    rw [hpc] at h
    rcases reply with _ | _ | _ | _ | ⟨objects, invalid, unexpected, missing⟩ <;>
    simp only [respond, reduceCtorEq] at h
  case lock.go =>
    split at h
    · next hturn =>
      obtain rfl := Option.some.inj h
      rcases granted_cases s t r m with ⟨hneeds, heq⟩ | hbegins
      · rw [heq]
        exact .granted ht hpc hturn.1 hturn.2 hneeds
      · exact .left ht hpc hturn.1 hturn.2 hbegins
    · cases h
  case lock.cancelled =>
    obtain rfl := Option.some.inj h
    exact .cancelled ht hpc
  case create.ok =>
    obtain rfl := Option.some.inj h
    exact .finished ht (congrArg Pc.held hpc) (by rw [hpc]; exact .idle ⟨rfl, rfl⟩)
  case delete.ok =>
    obtain rfl := Option.some.inj h
    exact .finished ht (congrArg Pc.held hpc) (by rw [hpc]; exact begins_deleted _ t caller)
  case create.raised | createFailed.go | cleanup.raised | delete.raised =>
    obtain rfl := Option.some.inj h
    exact .kept ht (congrArg Pc.held hpc) rfl (by rw [hpc]; rfl) (by rw [hpc]; exact Nat.lt_succ_self _)
  case create.cancelled | createFailed.raised | createFailed.cancelled | cleanup.ok |
      cleanup.cancelled | cleanupFailed.go | cleanupFailed.raised | cleanupFailed.cancelled |
      delete.cancelled | deleteFailed.go | deleteFailed.raised | deleteFailed.cancelled =>
    obtain rfl := Option.some.inj h
    exact move_of_finish ht (congrArg Pc.held hpc) fun b ↦ by rw [hpc]; rfl
  case reading.seen =>
    split at h
    · obtain rfl := Option.some.inj h
      exact .updated ht hpc (begins_proceed _ t begin _)
    · cases h
  case removing.ok =>
    obtain rfl := Option.some.inj h
    exact .continued ht (by rw [hpc]; exact ⟨rfl, rfl⟩) (begins_proceed _ t begin work)
  case reading.raised | reading.cancelled | removing.raised | removing.cancelled =>
    obtain rfl := Option.some.inj h
    exact .continued ht (by rw [hpc]; exact ⟨rfl, rfl⟩) (.idle ⟨rfl, rfl⟩)

theorem move_of_step {l : Label} (h : s.step l = some s') : Move s l s' := by
  rcases l with username | username | _ | d | ⟨t, reply⟩
  · obtain rfl := Option.some.inj h
    show Move s (.create username) (s.fresh.callCreate s.tasks.size username)
    rw [callCreate]
    split
    · next r hr => exact .called (fun _ _ h ↦ by cases h) (begins_createWith hr)
    · next hnone =>
      refine .introduced hnone (begins_createWith ?_)
      exact (lookup_setKey _ _ _ _).trans (if_pos rfl)
  · obtain rfl := Option.some.inj h
    exact .called (fun _ _ h ↦ by cases h) (begins_callDelete s.fresh s.tasks.size username)
  · obtain rfl := Option.some.inj h
    exact .called (fun _ _ h ↦ by cases h) (.idle ⟨rfl, rfl⟩)
  · obtain rfl := Option.some.inj h
    exact .tick
  · rw [step] at h
    split at h
    · next ht => exact move_of_respond ht h
    · cases h

theorem lt_of_exec {reply : Reply} (h : s.step (.exec t reply) = some s') :
    t < s.tasks.size := by
  rw [step] at h
  split at h
  · assumption
  · cases h

/-! ### Who holds and who waits -/

/-- The record whose lock a task holds. -/
def heldBy (s : ManagerState) (t : ℕ) : Option ℕ :=
  if t < s.tasks.size then (s.tasks t).held.map Prod.fst else none

/-- The record whose lock a task waits for. -/
def awaitedBy (s : ManagerState) (t : ℕ) : Option ℕ :=
  if t < s.tasks.size then (s.tasks t).awaited.map Prod.fst else none

theorem heldBy_setPc (ht : t < s.tasks.size) (u : ℕ) :
    (s.setPc t pc).heldBy u = if u = t then pc.held.map Prod.fst else s.heldBy u := by
  rw [heldBy, heldBy, tasks_setPc, size_setPc]
  split
  · split <;> rfl
  · next hu =>
    rw [if_neg]
    rintro rfl
    exact hu ht

theorem awaitedBy_setPc (ht : t < s.tasks.size) (u : ℕ) :
    (s.setPc t pc).awaitedBy u = if u = t then pc.awaited.map Prod.fst else s.awaitedBy u := by
  rw [awaitedBy, awaitedBy, tasks_setPc, size_setPc]
  split
  · split <;> rfl
  · next hu =>
    rw [if_neg]
    rintro rfl
    exact hu ht

theorem heldBy_of_idle (h : (s.tasks t).Idle) : s.heldBy t = none := by
  rw [heldBy, h.1]
  split <;> rfl

theorem awaitedBy_of_idle (h : (s.tasks t).Idle) : s.awaitedBy t = none := by
  rw [awaitedBy, h.2]
  split <;> rfl

/-- **Operations take turns.** The lock of a record is held by the task that is at work on it, its line
has the tasks that wait for it, and the record says that an operation is in progress exactly while one
is. The running flag is what the operation has found. -/
structure Serial (s : ManagerState) : Prop where
  holder : ∀ r t, (s.records r).lock.holder = some (t, ()) ↔ s.heldBy t = some r
  waiter : ∀ r t, (t, ()) ∈ (s.records r).lock.waiters ↔ s.awaitedBy t = some r
  nodup : ∀ r, (s.records r).lock.waiters.Nodup
  inProgress : ∀ r, (s.records r).inProgress = (s.records r).lock.holder.isSome
  running : ∀ t < s.tasks.size, ∀ p, (s.tasks t).held = some p → (s.records p.1).running = p.2.2
  known : ∀ username r, s.servers.lookup username = some r → r < s.records.size
  held_lt : ∀ t r, s.heldBy t = some r → r < s.records.size
  awaited_lt : ∀ t r, s.awaitedBy t = some r → r < s.records.size

theorem serial_init : Serial init := by
  refine ⟨fun r t ↦ ?_, fun r t ↦ ?_, fun r ↦ List.nodup_nil, fun r ↦ rfl, fun t ht ↦ ?_,
    fun username r hr ↦ ?_, fun t r hr ↦ ?_, fun t r hr ↦ ?_⟩
  · exact iff_of_false (fun h ↦ by cases h) fun h ↦ by cases h
  · exact iff_of_false (fun h ↦ by cases h) fun h ↦ by cases h
  · exact absurd ht (Nat.not_lt_zero t)
  · cases hr
  · cases hr
  · cases hr

/-- A task that has no part in a lock goes on without one. -/
theorem Serial.setPc (h : Serial s) (ht : t < s.tasks.size) (hidle : (s.tasks t).Idle)
    (hpc : pc.Idle) : Serial (s.setPc t pc) := by
  have hheld : ∀ u, (s.setPc t pc).heldBy u = s.heldBy u := by
    intro u
    rw [heldBy_setPc ht, hpc.1]
    split
    · next heq => rw [heq, heldBy_of_idle hidle]; rfl
    · rfl
  have hawaited : ∀ u, (s.setPc t pc).awaitedBy u = s.awaitedBy u := by
    intro u
    rw [awaitedBy_setPc ht, hpc.2]
    split
    · next heq => rw [heq, awaitedBy_of_idle hidle]; rfl
    · rfl
  refine ⟨fun r u ↦ ?_, fun r u ↦ ?_, h.nodup, h.inProgress, fun u hu p hp ↦ ?_, h.known,
    fun u r hr ↦ ?_, fun u r hr ↦ ?_⟩
  · rw [hheld]; exact h.holder r u
  · rw [hawaited]; exact h.waiter r u
  · rw [tasks_setPc] at hp
    split at hp
    · rw [hpc.1] at hp; cases hp
    · exact h.running u hu p hp
  · rw [hheld] at hr; exact h.held_lt u r hr
  · rw [hawaited] at hr; exact h.awaited_lt u r hr

theorem heldBy_of_held {p : ℕ × String × Bool} (ht : t < s.tasks.size)
    (h : (s.tasks t).held = some p) : s.heldBy t = some p.1 := by
  rw [heldBy, if_pos ht, h]
  rfl

theorem awaitedBy_of_awaited {p : ℕ × String} (ht : t < s.tasks.size)
    (h : (s.tasks t).awaited = some p) : s.awaitedBy t = some p.1 := by
  rw [awaitedBy, if_pos ht, h]
  rfl

/-- **One record changes together with one task**, which has a part in no other lock before or after. -/
theorem Serial.change {f : ServerState → ServerState} (h : Serial s) (ht : t < s.tasks.size)
    (hr : r < s.records.size) (hheld : ∀ q, s.heldBy t = some q → q = r)
    (hawaited : ∀ q, s.awaitedBy t = some q → q = r)
    (hpcHeld : ∀ p, pc.held = some p → p.1 = r ∧ (f (s.records r)).running = p.2.2)
    (hpcAwaited : ∀ p, pc.awaited = some p → p.1 = r)
    (hholder : ∀ u, (f (s.records r)).lock.holder = some (u, ()) ↔
      (if u = t then pc.held.map Prod.fst else s.heldBy u) = some r)
    (hwaiter : ∀ u, (u, ()) ∈ (f (s.records r)).lock.waiters ↔
      (if u = t then pc.awaited.map Prod.fst else s.awaitedBy u) = some r)
    (hnodup : (f (s.records r)).lock.waiters.Nodup)
    (hinProgress : (f (s.records r)).inProgress = (f (s.records r)).lock.holder.isSome)
    (hrunning : ∀ u, u ≠ t → s.heldBy u = some r →
      (f (s.records r)).running = (s.records r).running) :
    Serial ((s.modify r f).setPc t pc) := by
  have hheldBy : ∀ u, ((s.modify r f).setPc t pc).heldBy u =
      if u = t then pc.held.map Prod.fst else s.heldBy u := fun u ↦ heldBy_setPc ht u
  have hawaitedBy : ∀ u, ((s.modify r f).setPc t pc).awaitedBy u =
      if u = t then pc.awaited.map Prod.fst else s.awaitedBy u := fun u ↦ awaitedBy_setPc ht u
  have hnewHeld : ∀ q, pc.held.map Prod.fst = some q → q = r := by
    intro q hq
    obtain ⟨p, hp, rfl⟩ := Option.map_eq_some_iff.1 hq
    exact (hpcHeld p hp).1
  have hnewAwaited : ∀ q, pc.awaited.map Prod.fst = some q → q = r := by
    intro q hq
    obtain ⟨p, hp, rfl⟩ := Option.map_eq_some_iff.1 hq
    exact hpcAwaited p hp
  refine ⟨fun q u ↦ ?_, fun q u ↦ ?_, fun q ↦ ?_, fun q ↦ ?_, fun u hu p hp ↦ ?_, h.known,
    fun u q hq ↦ ?_, fun u q hq ↦ ?_⟩
  · rw [hheldBy, records_setPc, records_modify]
    rcases eq_or_ne q r with rfl | hq
    · rw [if_pos rfl]
      exact hholder u
    · rw [if_neg hq, h.holder]
      split
      · next hut =>
        subst hut
        exact iff_of_false (fun hsome ↦ hq (hheld q hsome)) fun hsome ↦ hq (hnewHeld q hsome)
      · rfl
  · rw [hawaitedBy, records_setPc, records_modify]
    rcases eq_or_ne q r with rfl | hq
    · rw [if_pos rfl]
      exact hwaiter u
    · rw [if_neg hq, h.waiter]
      split
      · next hut =>
        subst hut
        exact iff_of_false (fun hsome ↦ hq (hawaited q hsome)) fun hsome ↦ hq (hnewAwaited q hsome)
      · rfl
  · rw [records_setPc, records_modify]
    split
    · next hq => rw [hq]; exact hnodup
    · exact h.nodup q
  · rw [records_setPc, records_modify]
    split
    · next hq => rw [hq]; exact hinProgress
    · exact h.inProgress q
  · rw [tasks_setPc] at hp
    rw [records_setPc, records_modify]
    split at hp
    · obtain ⟨hq, hflag⟩ := hpcHeld p hp
      rw [if_pos hq, hq]
      exact hflag
    · next hut =>
      have hold := h.running u hu p hp
      split
      · next hq =>
        rw [hq] at hold ⊢
        rw [hrunning u hut (hq ▸ heldBy_of_held hu hp), hold]
      · exact hold
  · rw [hheldBy] at hq
    split at hq
    · rw [hnewHeld q hq]; exact hr
    · exact h.held_lt u q hq
  · rw [hawaitedBy] at hq
    split at hq
    · rw [hnewAwaited q hq]; exact hr
    · exact h.awaited_lt u q hq

/-- A task asks for a lock that is not free. -/
theorem Serial.waitFor (h : Serial s) (ht : t < s.tasks.size) (hidle : (s.tasks t).Idle)
    (hr : r < s.records.size) (m : Method) : Serial (s.waitFor t r m) := by
  have hheld := heldBy_of_idle hidle
  have hawaited := awaitedBy_of_idle hidle
  have hnew : (t, ()) ∉ (s.records r).lock.waiters := by
    rw [h.waiter, hawaited]
    exact fun hsome ↦ by cases hsome
  refine h.change ht hr (by simp [hheld]) (by simp [hawaited]) (fun p hp ↦ by cases hp)
    (fun p hp ↦ by cases hp; rfl) (fun u ↦ ?_) (fun u ↦ ?_) ?_ (h.inProgress r) fun _ _ _ ↦ rfl
  · rw [FifoLock.holder_enqueue, h.holder]
    split
    · next hut => rw [hut, hheld]; rfl
    · rfl
  · rw [FifoLock.waiters_enqueue, List.mem_append, h.waiter]
    split
    · next hut => simp [hut, Pc.awaited]
    · next hut => simp [hut]
  · rw [FifoLock.waiters_enqueue]
    exact List.nodup_append.2 ⟨h.nodup r, List.nodup_singleton _, by
      rintro a ha b hb rfl
      rw [List.mem_singleton.1 hb] at ha
      exact hnew ha⟩

/-- A task takes a lock that nobody holds. -/
theorem Serial.start (h : Serial s) (ht : t < s.tasks.size) (hidle : (s.tasks t).Idle)
    (hr : r < s.records.size) (hholder : (s.records r).lock.holder = none) {m : Method}
    (hrunning : (s.records r).running = m.needs) : Serial (s.start t r (m.first r)) := by
  have hheld := heldBy_of_idle hidle
  have hawaited := awaitedBy_of_idle hidle
  have hnone : ∀ u, s.heldBy u ≠ some r := by
    intro u hu
    have hsome := (h.holder r u).2 hu
    rw [hholder] at hsome
    cases hsome
  have hfirst : (m.first r).held = some (r, m.username, m.needs) ∧ (m.first r).awaited = none := by
    rcases m with _ | _ <;> exact ⟨rfl, rfl⟩
  refine h.change ht hr (by simp [hheld]) (by simp [hawaited]) (fun p hp ↦ ?_) (fun p hp ↦ ?_)
    (fun u ↦ ?_) (fun u ↦ ?_) (h.nodup r) rfl fun _ _ _ ↦ rfl
  · rw [hfirst.1] at hp
    obtain rfl := Option.some.inj hp
    exact ⟨rfl, hrunning⟩
  · rw [hfirst.2] at hp
    cases hp
  · rw [FifoLock.holder_take, hfirst.1]
    split
    · next hut => simp [hut]
    · next hut => simp [hnone u, Ne.symm hut]
  · rw [FifoLock.waiters_take, h.waiter, hfirst.2]
    split
    · next hut => rw [hut, hawaited]; rfl
    · rfl

/-- A task that has no part in a lock goes on. -/
theorem Serial.begins (h : Serial s) (ht : t < s.tasks.size) (hidle : (s.tasks t).Idle)
    (hb : Begins s t s') : Serial s' := by
  rcases hb with hpc | ⟨hr, -⟩ | ⟨hr, hfree, hrunning⟩
  · exact h.setPc ht hidle hpc
  · exact h.waitFor ht hidle (h.known _ _ hr) _
  · exact h.start ht hidle (h.known _ _ hr) (FifoLock.free_iff.1 hfree).1 hrunning

/-- A task that holds a lock gives it back. -/
theorem Serial.close (h : Serial s) (ht : t < s.tasks.size) {p : ℕ × String × Bool}
    (hp : (s.tasks t).held = some p) (running : Bool) (res : Result) :
    Serial ((s.close p.1 running).setPc t (.ended res)) := by
  have hheld := heldBy_of_held ht hp
  have hawaited : s.awaitedBy t = none := by
    rw [awaitedBy, if_pos ht, Pc.awaited_of_held hp]
    rfl
  have hunique : ∀ u, s.heldBy u = some p.1 → u = t := by
    intro u hu
    have hut := ((h.holder p.1 u).2 hu).symm.trans ((h.holder p.1 t).2 hheld)
    simpa using hut
  rw [ManagerState.close, finish, modify_modify]
  refine h.change ht (h.held_lt t _ hheld) (fun q hq ↦ ?_) (by simp [hawaited])
    (fun q hq ↦ by cases hq) (fun q hq ↦ by cases hq) (fun u ↦ ?_) (fun u ↦ ?_) (h.nodup _) rfl
    fun u hut hu ↦ absurd (hunique u hu) hut
  · rw [hheld] at hq
    exact (Option.some.inj hq).symm
  · rw [FifoLock.holder_release]
    split
    · exact iff_of_false (fun h ↦ by cases h) fun h ↦ by cases h
    · next hut => exact iff_of_false (fun h ↦ by cases h) fun hu ↦ hut (hunique u hu)
  · rw [FifoLock.waiters_release, h.waiter]
    split
    · next hut => rw [hut, hawaited]; rfl
    · rfl

/-- A task that waits for a lock leaves the line. -/
theorem Serial.unlist {f : ServerState → ServerState} {m : Method} (h : Serial s)
    (ht : t < s.tasks.size) (hpc : s.tasks t = .lock r m)
    (hholder : (f (s.records r)).lock.holder = (s.records r).lock.holder)
    (hinProgress : (f (s.records r)).inProgress = (s.records r).inProgress)
    (hrunning : (f (s.records r)).running = (s.records r).running)
    (hwaiters : ∀ u, (u, ()) ∈ (f (s.records r)).lock.waiters ↔
      (u, ()) ∈ (s.records r).lock.waiters ∧ u ≠ t)
    (hnodup : (f (s.records r)).lock.waiters.Nodup) (res : Result) :
    Serial ((s.modify r f).setPc t (.ended res)) := by
  have hawaited : s.awaitedBy t = some r := awaitedBy_of_awaited ht (congrArg Pc.awaited hpc)
  have hheld : s.heldBy t = none := by
    rw [heldBy, if_pos ht, hpc]
    rfl
  refine h.change ht (h.awaited_lt t r hawaited) (by simp [hheld]) (fun q hq ↦ ?_)
    (fun q hq ↦ by cases hq) (fun q hq ↦ by cases hq) (fun u ↦ ?_) (fun u ↦ ?_) hnodup ?_
    fun _ _ _ ↦ hrunning
  · rw [hawaited] at hq
    exact (Option.some.inj hq).symm
  · rw [hholder, h.holder]
    split
    · next hut => rw [hut, hheld]; rfl
    · rfl
  · rw [hwaiters, h.waiter]
    split
    · next hut => exact iff_of_false (fun hu ↦ hu.2 hut) fun hu ↦ by cases hu
    · next hut => simp [hut]
  · rw [hinProgress, hholder]
    exact h.inProgress r

theorem Serial.dropHead {m : Method} (h : Serial s) (ht : t < s.tasks.size)
    (hpc : s.tasks t = .lock r m) (hholder : (s.records r).lock.holder = none)
    (hhead : (s.records r).lock.waiters.head? = some (t, ())) (res : Result) :
    Serial ((s.dropHead r).setPc t (.ended res)) := by
  obtain ⟨ws, hws⟩ : ∃ ws, (s.records r).lock.waiters = (t, ()) :: ws := by
    rcases hlist : (s.records r).lock.waiters with _ | ⟨w, ws⟩
    · rw [hlist] at hhead
      cases hhead
    · rw [hlist] at hhead
      exact ⟨ws, by rw [Option.some.inj hhead]⟩
  have hnodup := h.nodup r
  rw [hws, List.nodup_cons] at hnodup
  refine h.unlist ht hpc hholder.symm rfl rfl (fun u ↦ ?_) ?_ res
  · show (u, ()) ∈ (s.records r).lock.waiters.tail ↔ _
    rw [hws, List.tail_cons, List.mem_cons, Prod.mk.injEq]
    constructor
    · intro hu
      refine ⟨Or.inr hu, ?_⟩
      rintro rfl
      exact hnodup.1 hu
    · rintro ⟨⟨rfl, -⟩ | hu, hut⟩
      · exact absurd rfl hut
      · exact hu
  · show ((s.records r).lock.waiters.tail).Nodup
    rw [hws]
    exact hnodup.2

theorem Serial.leaveLine {m : Method} (h : Serial s) (ht : t < s.tasks.size)
    (hpc : s.tasks t = .lock r m) (res : Result) :
    Serial ((s.leaveLine t r).setPc t (.ended res)) := by
  refine h.unlist ht hpc rfl rfl rfl (fun u ↦ ?_) ((h.nodup r).filter _) res
  show (u, ()) ∈ (s.records r).lock.waiters.filter _ ↔ _
  simp

/-- A task that holds a lock goes on with it. -/
theorem Serial.kept (h : Serial s) (ht : t < s.tasks.size) {p : ℕ × String × Bool}
    (hp : (s.tasks t).held = some p) (hpc : pc.held = some p) : Serial (s.setPc t pc) := by
  have hheld := heldBy_of_held ht hp
  have hawaited : s.awaitedBy t = none := by
    rw [awaitedBy, if_pos ht, Pc.awaited_of_held hp]
    rfl
  have hself : s.modify p.1 (fun state ↦ state) = s :=
    congrArg (ManagerState.mk s.servers · s.tasks s.clock) (Heap.modify_eq_self rfl)
  rw [← hself]
  refine h.change ht (h.held_lt t _ hheld) (fun q hq ↦ ?_) (by simp [hawaited]) (fun q hq ↦ ?_)
    (fun q hq ↦ ?_) (fun u ↦ ?_) (fun u ↦ ?_) (h.nodup _) (h.inProgress _) fun _ _ _ ↦ rfl
  · rw [hheld] at hq
    exact (Option.some.inj hq).symm
  · rw [hpc] at hq
    obtain rfl := Option.some.inj hq
    exact ⟨rfl, h.running t ht p hp⟩
  · rw [Pc.awaited_of_held hpc] at hq
    cases hq
  · rw [h.holder]
    split
    · next hut => rw [hut, hheld, hpc]; rfl
    · rfl
  · rw [h.waiter]
    split
    · next hut => rw [hut, hawaited, Pc.awaited_of_held hpc]; rfl
    · rfl

/-! ### New tasks and new records -/

/-- A new task is read as one that has no part in a lock. -/
theorem read_fresh {α : Type} (g : Pc → Option α) (hg : g default = none) (t : ℕ) :
    (if t < s.fresh.tasks.size then g (s.fresh.tasks t) else none) =
      if t < s.tasks.size then g (s.tasks t) else none := by
  show (if t < s.tasks.size + 1 then g (if t = s.tasks.size then default else s.tasks t) else none) =
    _
  rcases Nat.lt_trichotomy t s.tasks.size with hlt | rfl | hgt
  · rw [if_pos (by omega), if_pos hlt, if_neg (by omega)]
  · rw [if_pos (Nat.lt_succ_self _), if_pos rfl, if_neg (Nat.lt_irrefl _), hg]
  · rw [if_neg (by omega), if_neg (by omega)]

theorem heldBy_fresh (t : ℕ) : s.fresh.heldBy t = s.heldBy t :=
  read_fresh (fun pc ↦ pc.held.map Prod.fst) rfl t

theorem awaitedBy_fresh (t : ℕ) : s.fresh.awaitedBy t = s.awaitedBy t :=
  read_fresh (fun pc ↦ pc.awaited.map Prod.fst) rfl t

theorem idle_fresh : (s.fresh.tasks s.tasks.size).Idle := by
  show (if s.tasks.size = s.tasks.size then default else s.tasks s.tasks.size : Pc).Idle
  rw [if_pos rfl]
  exact ⟨rfl, rfl⟩

theorem Serial.fresh (h : Serial s) : Serial s.fresh := by
  refine ⟨fun r t ↦ ?_, fun r t ↦ ?_, h.nodup, h.inProgress, fun t ht p hp ↦ ?_, h.known,
    fun t r hr ↦ ?_, fun t r hr ↦ ?_⟩
  · rw [heldBy_fresh]; exact h.holder r t
  · rw [awaitedBy_fresh]; exact h.waiter r t
  · rcases eq_or_ne t s.tasks.size with rfl | hne
    · rw [idle_fresh.1] at hp
      cases hp
    · have hlt : t < s.tasks.size := by
        have hle : t < s.tasks.size + 1 := ht
        omega
      have hold : s.fresh.tasks t = s.tasks t := Heap.alloc_of_lt _ _ hlt
      rw [hold] at hp
      exact h.running t hlt p hp
  · rw [heldBy_fresh] at hr; exact h.held_lt t r hr
  · rw [awaitedBy_fresh] at hr; exact h.awaited_lt t r hr

theorem records_addServer_of_ne {running : Bool} (hr : r ≠ s.records.size) :
    (s.addServer username running).records r = s.records r := if_neg hr

theorem records_addServer_self {running : Bool} :
    (s.addServer username running).records s.records.size =
      { running := running, lastModified := s.clock } := if_pos rfl

/-- A new record has a lock that nobody holds. -/
theorem Serial.addServer (h : Serial s) (username : String) (running : Bool) :
    Serial (s.addServer username running) := by
  have hheld : ∀ t, s.heldBy t ≠ some s.records.size := fun t ht ↦ Nat.lt_irrefl _ (h.held_lt t _ ht)
  have hawaited : ∀ t, s.awaitedBy t ≠ some s.records.size :=
    fun t ht ↦ Nat.lt_irrefl _ (h.awaited_lt t _ ht)
  have hlt : ∀ {r}, r < s.records.size → r < (s.addServer username running).records.size :=
    fun hr ↦ Nat.lt_succ_of_lt hr
  refine ⟨fun r t ↦ ?_, fun r t ↦ ?_, fun r ↦ ?_, fun r ↦ ?_, fun t ht p hp ↦ ?_, fun u r hr ↦ ?_,
    fun t r hr ↦ hlt (h.held_lt t r hr), fun t r hr ↦ hlt (h.awaited_lt t r hr)⟩
  · rcases eq_or_ne r s.records.size with rfl | hne
    · rw [records_addServer_self]
      exact iff_of_false (fun hnone ↦ by cases hnone) (hheld t)
    · rw [records_addServer_of_ne hne]
      exact h.holder r t
  · rcases eq_or_ne r s.records.size with rfl | hne
    · rw [records_addServer_self]
      exact iff_of_false List.not_mem_nil (hawaited t)
    · rw [records_addServer_of_ne hne]
      exact h.waiter r t
  · rcases eq_or_ne r s.records.size with rfl | hne
    · rw [records_addServer_self]
      exact List.nodup_nil
    · rw [records_addServer_of_ne hne]
      exact h.nodup r
  · rcases eq_or_ne r s.records.size with rfl | hne
    · rw [records_addServer_self]
      rfl
    · rw [records_addServer_of_ne hne]
      exact h.inProgress r
  · rw [records_addServer_of_ne (Nat.ne_of_lt (h.held_lt t p.1 (heldBy_of_held ht hp)))]
    exact h.running t ht p hp
  · have hlookup : (setKey s.servers username s.records.size).lookup u = some r := hr
    rw [lookup_setKey] at hlookup
    split at hlookup
    · rw [← Option.some.inj hlookup]
      exact Nat.lt_succ_self _
    · exact hlt (h.known u r hlookup)

theorem Serial.learn (h : Serial s) (known : List String) (objects : List (String × Bool)) :
    Serial (objects.foldl (ManagerState.learn known) s) := by
  induction objects generalizing s with
  | nil => exact h
  | cons p objects ih =>
    refine ih ?_
    rw [ManagerState.learn]
    split
    · exact h.addServer p.1 true
    · exact h

/-- A reconciliation that has read Kubernetes changes no task. -/
theorem tasks_learn (known : List String) (objects : List (String × Bool)) (s : ManagerState) :
    (objects.foldl (learn known) s).tasks = s.tasks := by
  induction objects generalizing s with
  | nil => rfl
  | cons p objects ih =>
    rw [List.foldl_cons, ih, ManagerState.learn]
    split <;> rfl

/-- What a reconciliation learns gets new records. -/
theorem learn_old (known : List String) (objects : List (String × Bool)) (s : ManagerState) :
    s.records.size ≤ (objects.foldl (learn known) s).records.size ∧
      ∀ r < s.records.size, (objects.foldl (learn known) s).records r = s.records r := by
  induction objects generalizing s with
  | nil => exact ⟨Nat.le_refl _, fun _ _ ↦ rfl⟩
  | cons p objects ih =>
    have hone : s.records.size ≤ (learn known s p).records.size ∧
        ∀ r < s.records.size, (learn known s p).records r = s.records r := by
      rw [learn]
      split
      · exact ⟨Nat.le_succ _, fun r hr ↦ records_addServer_of_ne (Nat.ne_of_lt hr)⟩
      · exact ⟨Nat.le_refl _, fun _ _ ↦ rfl⟩
    obtain ⟨hle, hsame⟩ := ih (learn known s p)
    exact ⟨Nat.le_trans hone.1 hle, fun r hr ↦
      (hsame r (Nat.lt_of_lt_of_le hr hone.1)).trans (hone.2 r hr)⟩

/-! ### Steps and runs -/

theorem tasks_setPc_self : (s.setPc t pc).tasks t = pc := if_pos rfl

theorem tasks_setPc_of_ne {v : ℕ} (h : v ≠ t) : (s.setPc t pc).tasks v = s.tasks v := if_neg h

theorem Begins.size {t : ℕ} (h : Begins s t s') : s'.tasks.size = s.tasks.size := by
  rcases h with _ | _ | _ <;> rfl

theorem Begins.tasks_of_ne (h : Begins s t s') {v : ℕ} (hv : v ≠ t) : s'.tasks v = s.tasks v := by
  rcases h with _ | _ | _ <;> exact tasks_setPc_of_ne hv

/-- **Every step keeps the operations in turn.** -/
theorem Serial.step {l : Label} (h : Serial s) (hstep : s.step l = some s') : Serial s' := by
  have hended : ∀ {a : ManagerState} {t : ℕ}, ((a.setPc t (.ended .returned)).tasks t).Idle :=
    fun {a t} ↦ by rw [tasks_setPc_self]; exact ⟨rfl, rfl⟩
  cases move_of_step hstep with
  | tick => exact ⟨h.holder, h.waiter, h.nodup, h.inProgress, h.running, h.known, h.held_lt, h.awaited_lt⟩
  | called _ hb => exact h.fresh.begins (Nat.lt_succ_self _) idle_fresh hb
  | introduced _ hb =>
    exact (h.fresh.addServer _ false).begins (Nat.lt_succ_self _) idle_fresh hb
  | kept ht hp hpc => exact h.kept ht hp hpc
  | finished ht hp hb => exact (h.close ht hp _ .returned).begins ht hended (hb.setPc _)
  | granted ht hpc hholder hhead hrunning =>
    have hawaited := h.awaited_lt _ _ (awaitedBy_of_awaited ht (congrArg Pc.awaited hpc))
    rw [← @start_setPc _ _ (.ended .returned)]
    refine (h.dropHead ht hpc hholder hhead .returned).start ht hended hawaited ?_ ?_
    · rw [records_setPc, ManagerState.dropHead, records_modify, if_pos rfl]
    · rw [records_setPc, ManagerState.dropHead, records_modify, if_pos rfl]
      exact hrunning
  | left ht hpc hholder hhead hb =>
    exact (h.dropHead ht hpc hholder hhead .returned).begins ht hended (hb.setPc _)
  | cancelled ht hpc => exact h.leaveLine ht hpc .cancelled
  | continued ht hidle hb => exact h.begins ht hidle hb
  | updated ht hpc hb =>
    refine (h.learn _ _).begins (by rw [tasks_learn]; exact ht) ?_ hb
    rw [tasks_learn, hpc]
    exact ⟨rfl, rfl⟩

/-- **Operations take turns** in every run. -/
theorem serial_of_run {τ : List (Transition ManagerState Label)} (h : Run τ s) : Serial s :=
  h.invariant (fun _ _ _ hserial hstep ↦ hserial.step hstep) serial_init

end ManagerState

end Nublado.Fileserver
