import Nublado.Asyncio.Lock
import Nublado.Foundations.Dict
import Nublado.Foundations.Heap
import Nublado.Foundations.Trace

/-!
# The file server manager

`FileserverManager` creates and deletes the file servers of users and reconciles what it believes of
them with Kubernetes. Its methods run as tasks of one event loop: a step of a task runs from one `await`
to the next, and tasks take turns in any order.

* **Records.** What the manager knows of a user is a `_State`, an object that tasks keep a reference to
  while they wait; the map of users may get another object for the user meanwhile. Records live in a
  heap.
* **Locks.** `create` and `delete` hold the lock of the record throughout, also while they wait for
  Kubernetes. A task that finds the lock free does not yield.
* **Reconciliation** reads Kubernetes, updates the map in one go and then works off a list of users
  (`Work`): those whose file server is to be deleted through `delete`, and those that are removed from
  Kubernetes without a lock.

## The environment

Replies come from Kubernetes or from the reporting of an exception, at any time and in any order, as
results, as exceptions or as cancellations of the task. The order of a set is part of the reply whose
handling iterates over it. `watch_servers` calls `delete` for a pod that has ended, and a call of it
stands for that too. Time passes between steps (`tick`).

The objects in Kubernetes themselves and `is_valid` are left out: the reply to a reading says of which
users there are file servers, and whether they are valid.
-/

namespace Nublado.Fileserver

/-- State of the file server for a given user, `_State`. -/
structure ServerState where
  /-- Whether the file server is running. -/
  running : Bool
  /-- Lock to prevent two operations from happening at once. -/
  lock : FifoLock ℕ Unit := {}
  /-- Whether an operation is currently in progress. -/
  inProgress : Bool := false
  /-- Last time an operation was started or completed. -/
  lastModified : ℕ

instance : Inhabited ServerState := ⟨{ running := false, lastModified := 0 }⟩

/-- Whether the file server has been modified since the given time. -/
def ServerState.modifiedSince (state : ServerState) (date : ℕ) : Bool :=
  state.inProgress || date < state.lastModified

/-- What a reconciliation has to do for a user. -/
inductive Work
  /-- An iteration of `_delete_invalid_servers` or `_delete_missing_servers`. -/
  | known (username : String)
  /-- An iteration of `_delete_unexpected_servers`. -/
  | unexpected (username : String)
  deriving DecidableEq

/-- Who calls `delete`. -/
inductive DeleteCaller
  /-- A request, or `watch_servers`. -/
  | outside
  /-- A reconciliation that began at `start`, with what it has to do afterwards. -/
  | reconcile (start : ℕ) (work : List Work)
  deriving DecidableEq

/-- What a task wants the lock for. -/
inductive Method
  | create (username : String)
  | delete (username : String) (caller : DeleteCaller)
  deriving DecidableEq

/-- How a task ends. -/
inductive Result
  | returned
  | unknownUser
  | raised
  | cancelled
  deriving DecidableEq

/-- The program point of a task: what it waits for. -/
inductive Pc
  /-- The lock of record `r`. -/
  | lock (r : ℕ) (m : Method)
  /-- `_create_file_server` -/
  | create (r : ℕ) (username : String)
  /-- The creation has failed, which is being reported. -/
  | createFailed (r : ℕ) (username : String)
  /-- `_delete_file_server` after a failure -/
  | cleanup (r : ℕ) (username : String)
  | cleanupFailed (r : ℕ) (username : String)
  /-- `_delete_file_server` -/
  | delete (r : ℕ) (username : String) (caller : DeleteCaller)
  | deleteFailed (r : ℕ) (username : String) (caller : DeleteCaller)
  /-- `read_fileserver_state`, in a reconciliation -/
  | reading (start : ℕ)
  /-- `self._storage.delete` for an unexpected file server -/
  | removing (username : String) (start : ℕ) (work : List Work)
  | ended (result : Result)
  deriving DecidableEq

instance : Inhabited Pc := ⟨.ended .returned⟩

/-- The manager, with the tasks that run its methods. -/
structure ManagerState where
  /-- Mapping of usernames to internal state. -/
  servers : List (String × ℕ)
  records : Heap ServerState
  tasks : Heap Pc
  clock : ℕ

/-- What a task is told. -/
inductive Reply
  /-- The lock is free, or the report has been made. -/
  | go
  | ok
  /-- An exception. -/
  | raised
  | cancelled
  /-- The file servers that there are, with their users and whether they are valid, and the orders in
  which the sets that are computed from them are visited. -/
  | seen (objects : List (String × Bool)) (invalid unexpected missing : List String)
  deriving DecidableEq

/-- What happens next. -/
inductive Label
  | create (username : String)
  | delete (username : String)
  | reconcile
  | tick (d : ℕ)
  | exec (t : ℕ) (reply : Reply)
  deriving DecidableEq

/-- The task that takes a step, unless it is a new one. -/
def Label.task : Label → Option ℕ
  | .exec t _ => some t
  | _ => none

namespace ManagerState

variable (s : ManagerState)

/-- The record of a user. -/
def record (username : String) : Option ServerState := (s.servers.lookup username).map s.records

def modify (r : ℕ) (f : ServerState → ServerState) : ManagerState :=
  { s with records := s.records.modify r f }

def setPc (t : ℕ) (pc : Pc) : ManagerState := { s with tasks := s.tasks.modify t fun _ ↦ pc }

/-- The beginning of an operation: it is in progress from now on. -/
def start (t r : ℕ) (pc : Pc) : ManagerState :=
  (s.modify r fun state ↦
    { state with
      lock := state.lock.take t ()
      inProgress := true
      lastModified := s.clock }).setPc t pc

/-- The end of an operation: the `finally` block, and the end of the block that holds the lock. -/
def finish (r : ℕ) : ManagerState :=
  s.modify r fun state ↦
    { state with lock := state.lock.release, inProgress := false, lastModified := s.clock }

/-- Wait for the lock of a record. -/
def waitFor (t r : ℕ) (m : Method) : ManagerState :=
  (s.modify r fun state ↦ { state with lock := state.lock.enqueue t () }).setPc t (.lock r m)

/-- Continue a reconciliation. -/
def proceed (t begin : ℕ) : List Work → ManagerState
  | [] => s.setPc t (.ended .returned)
  | .known username :: work =>
    match s.servers.lookup username with
    | none => proceed t begin work
    | some r =>
      if (s.records r).modifiedSince begin then proceed t begin work
      else if !(s.records r).lock.free then
        s.waitFor t r (.delete username (.reconcile begin work))
      else if (s.records r).running then
        s.start t r (.delete r username (.reconcile begin work))
      -- `UnknownUserError` is suppressed.
      else proceed t begin work
  | .unexpected username :: work =>
    if (s.servers.lookup username).isSome then proceed t begin work
    else s.setPc t (.removing username begin work)

/-- The record is not that of a running file server: `delete` raises `UnknownUserError`. -/
def notRunning (t : ℕ) : DeleteCaller → ManagerState
  | .outside => s.setPc t (.ended .unknownUser)
  | .reconcile begin work => s.proceed t begin work

/-- `delete` returns. -/
def deleted (t : ℕ) : DeleteCaller → ManagerState
  | .outside => s.setPc t (.ended .returned)
  | .reconcile begin work => s.proceed t begin work

/-- A task whose turn it is gets the lock of record `r`, and leaves it at once if there is nothing to
do. -/
def granted (t r : ℕ) (m : Method) : ManagerState :=
  let s := s.modify r fun state ↦ { state with lock := state.lock.grant t () }
  let released := s.modify r fun state ↦ { state with lock := state.lock.release }
  match m with
  | .create username =>
    if (s.records r).running then released.setPc t (.ended .returned)
    else s.start t r (.create r username)
  | .delete username caller =>
    if (s.records r).running then s.start t r (.delete r username caller)
    else released.notRunning t caller

/-- `self._servers[username] = _State(running=running)` -/
def addServer (username : String) (running : Bool) : ManagerState :=
  { s with
    servers := setKey s.servers username s.records.size
    records := s.records.alloc { running := running, lastModified := s.clock } }

/-- `create` takes the lock of the record of the user. -/
def createWith (t r : ℕ) (username : String) : ManagerState :=
  if !(s.records r).lock.free then s.waitFor t r (.create username)
  else if (s.records r).running then s.setPc t (.ended .returned)
  else s.start t r (.create r username)

/-- `create` is called by task `t`. -/
def callCreate (t : ℕ) (username : String) : ManagerState :=
  match s.servers.lookup username with
  | some r => s.createWith t r username
  | none => (s.addServer username false).createWith t s.records.size username

/-- `delete` is called by task `t`. -/
def callDelete (t : ℕ) (username : String) : ManagerState :=
  match s.servers.lookup username with
  | none => s.setPc t (.ended .unknownUser)
  | some r =>
    if !(s.records r).lock.free then s.waitFor t r (.delete username .outside)
    else if (s.records r).running then s.start t r (.delete r username .outside)
    else s.setPc t (.ended .unknownUser)

/-- Whether the file server of a user is running, `get_status`. -/
def getStatus (username : String) : Bool :=
  match s.servers.lookup username with
  | none => false
  | some r => (s.records r).running

/-! ### Reconciliation -/

/-- The users whose file servers are known to be running; also what `list` returns. -/
def knownUsers : List String :=
  (s.servers.filter fun p ↦ (s.records p.2).running).map Prod.fst

/-- The users whose file servers are not valid, but have a record. -/
def invalidUsers (objects : List (String × Bool)) : List String :=
  (objects.filter fun p ↦ !p.2 && (s.servers.lookup p.1).isSome).map Prod.fst

/-- The users whose file servers are not valid and have no record. -/
def unexpectedUsers (objects : List (String × Bool)) : List String :=
  (objects.filter fun p ↦ !p.2 && (s.servers.lookup p.1).isNone).map Prod.fst

/-- The known users for whom no file server was seen that is not to be deleted. -/
def missingUsers (objects : List (String × Bool)) : List String :=
  s.knownUsers.filter fun username ↦
    username ∉ objects.map Prod.fst || username ∈ s.invalidUsers objects

/-- A valid file server that was not known to be running gets a new record. -/
def learn (known : List String) (s : ManagerState) (p : String × Bool) : ManagerState :=
  if p.2 && p.1 ∉ known then s.addServer p.1 true else s

/-- Kubernetes has been read: update the map of users, and work off what is left to do. -/
def update (t begin : ℕ) (objects : List (String × Bool))
    (invalid unexpected missing : List String) : ManagerState :=
  (objects.foldl (learn s.knownUsers) s).proceed t begin
    (invalid.map .known ++ unexpected.map .unexpected ++ missing.map .known)

/-! ### Steps -/

/-- A task is cancelled while it waits for a lock. -/
def leaveLine (t r : ℕ) : ManagerState :=
  s.modify r fun state ↦
    { state with lock := { state.lock with waiters := state.lock.waiters.filter fun w ↦ w.1 ≠ t } }

/-- A step of task `t`, by its program point. -/
def respond (t : ℕ) : Pc → Reply → Option ManagerState
  | .lock r m, .go =>
    if (s.records r).lock.holder = none ∧ (s.records r).lock.waiters.head? = some (t, ()) then
      some (s.granted t r m)
    else none
  | .lock r _, .cancelled => some ((s.leaveLine t r).setPc t (.ended .cancelled))
  | .create r _, .ok =>
    some (((s.modify r fun state ↦ { state with running := true }).finish r).setPc t
      (.ended .returned))
  | .create r username, .raised => some (s.setPc t (.createFailed r username))
  | .createFailed r username, .go => some (s.setPc t (.cleanup r username))
  | .cleanup r _, .ok => some ((s.finish r).setPc t (.ended .raised))
  | .cleanup r username, .raised => some (s.setPc t (.cleanupFailed r username))
  | .cleanupFailed r _, .go => some ((s.finish r).setPc t (.ended .raised))
  | .delete r _ caller, .ok =>
    some (((s.modify r fun state ↦ { state with running := false }).finish r).deleted t caller)
  | .delete r username caller, .raised => some (s.setPc t (.deleteFailed r username caller))
  | .deleteFailed r _ _, .go => some ((s.finish r).setPc t (.ended .raised))
  -- Reporting an exception may raise another one.
  | .createFailed r _, .raised | .cleanupFailed r _, .raised | .deleteFailed r _ _, .raised =>
    some ((s.finish r).setPc t (.ended .raised))
  -- A cancellation is no `Exception`: nothing is reported or cleaned up.
  | .create r _, .cancelled | .createFailed r _, .cancelled | .cleanup r _, .cancelled
  | .cleanupFailed r _, .cancelled | .delete r _ _, .cancelled | .deleteFailed r _ _, .cancelled =>
    some ((s.finish r).setPc t (.ended .cancelled))
  | .reading begin, .seen objects invalid unexpected missing =>
    if (objects.map Prod.fst).Nodup ∧ invalid.Perm (s.invalidUsers objects) ∧
        unexpected.Perm (s.unexpectedUsers objects) ∧ missing.Perm (s.missingUsers objects) then
      some (s.update t begin objects invalid unexpected missing)
    else none
  | .reading _, .raised => some (s.setPc t (.ended .raised))
  | .reading _, .cancelled => some (s.setPc t (.ended .cancelled))
  | .removing _ begin work, .ok => some (s.proceed t begin work)
  | .removing _ _ _, .raised => some (s.setPc t (.ended .raised))
  | .removing _ _ _, .cancelled => some (s.setPc t (.ended .cancelled))
  | _, _ => none

/-- A new task, which runs until it waits. -/
def spawn (run : ManagerState → ℕ → ManagerState) : ManagerState :=
  run { s with tasks := s.tasks.alloc default } s.tasks.size

/-- One step. -/
def step (s : ManagerState) : Label → Option ManagerState
  | .create username => some (s.spawn fun s t ↦ s.callCreate t username)
  | .delete username => some (s.spawn fun s t ↦ s.callDelete t username)
  | .reconcile => some (s.spawn fun s t ↦ s.setPc t (.reading s.clock))
  | .tick d => some { s with clock := s.clock + d }
  | .exec t reply => if t < s.tasks.size then s.respond t (s.tasks t) reply else none

/-- The manager when the controller starts. -/
def init : ManagerState := ⟨[], .empty, .empty, 0⟩

/-- A run of the manager, from its start. -/
abbrev Run (τ : List (Transition ManagerState Label)) (s : ManagerState) : Prop :=
  Trace step init τ s

/-- What replaying labels shows of the run that they make. -/
theorem exists_run (labels : List Label)
    (P : List (Transition ManagerState Label) → ManagerState → Prop) [∀ τ s, Decidable (P τ s)]
    (h : (replay step init labels).any (fun r ↦ decide (P r.1 r.2)) = true) :
    ∃ τ s, Run τ s ∧ P τ s :=
  exists_of_replay h

end ManagerState

end Nublado.Fileserver
