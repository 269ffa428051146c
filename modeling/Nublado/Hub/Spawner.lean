import Nublado.Asyncio.Events
import Nublado.Foundations.Heap
import Nublado.Foundations.Trace
import Nublado.Hub.Models

/-!
# The spawner

`NubladoSpawner` is the part of JupyterHub's spawner object that `start`, its task `_start` and the
`progress` iterators share, together with these coroutines themselves.

## Coroutines

A `StartTask` is a task that runs `_start`, a `Listener` is one `progress` iterator. Each has the
program point at which it is suspended: `_start` at an `await` (or before its first step, since
`start` only schedules it), an iterator at its `yield` or at the wait for its trigger. Everything
between two suspensions is one step. An `await` that happens not to suspend is a step that no other
coroutine's step precedes.

## Objects

* The tasks and the iterators are numbered in the order they are made.
* Each iterator makes one trigger, which only it waits for and clears; it is kept with the iterator,
  and `triggers` lists the iterators whose triggers the spawner knows.
* A list of events is made by `__init__` and by the first step of each `_start`; it is known by the
  task that made it (`none` for the first), and `events` is the one the spawner has at present.

## The environment

The lab controller's answers and their order are the environment's choice, as are the moments at
which an iterator is asked for its next item and at which a wait times out. An exception raised by
an awaited call is `raised`. JupyterHub arranges for two spawns of one spawner not to run at the same
time, so `start` is called only when no earlier spawn is in progress.
-/

namespace Nublado.Hub

/-! ### The task of a spawn -/

/-- The exceptions a spawn ends with. -/
inductive SpawnError
  /-- `SpawnFailedError`, with the message of the event. -/
  | spawnFailed (message : String)
  /-- `ControllerWebError`, for an error response with this status code. -/
  | controllerWeb (status : ℕ)
  /-- `MissingFieldError` -/
  | missingField
  /-- An event without a message. -/
  | malformedEvent
  /-- Any exception of a call that `_start` awaits. -/
  | raised
  deriving DecidableEq

/-- Program points of `_start`. -/
inductive StartPc
  /-- The task has not taken its first step. -/
  | scheduled
  | createLab
  | stopLab
  | recreateLab
  /-- Waiting for the next server-sent event. -/
  | nextEvent
  | internalUrl
  | done (r : Except SpawnError String)
  deriving DecidableEq

/-- A task that runs `_start`. -/
structure StartTask where
  pc : StartPc := .scheduled
  progress : ℤ := 0
  /-- Every event the task has appended so far. -/
  appended : List SpawnEvent := []
  deriving DecidableEq

instance : Inhabited StartTask := ⟨{}⟩

/-- Whether the task is done. -/
def StartPc.isDone : StartPc → Bool
  | .done _ => true
  | _ => false

/-- What an `await` of `_start` gets. -/
inductive StartReply
  /-- The response to a request that creates or deletes the lab. -/
  | response (status : ℕ)
  | sse (e : ServerSentEvent)
  /-- The event stream ends. -/
  | endOfStream
  /-- The status of the lab, with its internal URL. -/
  | lab (status : ℕ) (internalUrl : Option String)
  | raised
  deriving DecidableEq

/-- Whether `raise_for_status` accepts the status code. -/
def isSuccess (status : ℕ) : Bool := 200 ≤ status ∧ status < 300

/-- What `_start` does with a server-sent event: ignore it, or append an event and go on, finish the
loop or fail. -/
def StartTask.receive (task : StartTask) (sse : ServerSentEvent) : StartTask × Option SpawnEvent :=
  if sse.event = "ping" then (task, none)
  else
    match SpawnEvent.fromSse sse task.progress with
    | none => ({ task with pc := .done (.error .malformedEvent) }, none)
    | some event =>
      let progress := if event.progress = 0 then task.progress else event.progress
      let pc :=
        if event.complete then .internalUrl
        else if event.failed then .done (.error (.spawnFailed event.message))
        else .nextEvent
      ({ task with pc := pc, progress := progress }, some event)

/-- What `_start` does between two suspensions after its first step: the task as it is then, and the
event it has appended. -/
def StartTask.block (task : StartTask) (reply : StartReply) :
    Option (StartTask × Option SpawnEvent) :=
  match task.pc, reply with
  | .createLab, .response status =>
    if status = 409 then some ({ task with pc := .stopLab }, some orphanedLab)
    else if isSuccess status then some ({ task with pc := .nextEvent }, none)
    else some ({ task with pc := .done (.error (.controllerWeb status)) }, none)
  | .stopLab, .response status =>
    if status = 404 ∨ isSuccess status then some ({ task with pc := .recreateLab }, none)
    else some ({ task with pc := .done (.error (.controllerWeb status)) }, none)
  | .recreateLab, .response status =>
    if isSuccess status then some ({ task with pc := .nextEvent }, none)
    else some ({ task with pc := .done (.error (.controllerWeb status)) }, none)
  | .nextEvent, .sse e => some (task.receive e)
  | .nextEvent, .endOfStream => some ({ task with pc := .internalUrl }, none)
  | .internalUrl, .lab status url =>
    if isSuccess status then
      match url with
      | none | some "" => some ({ task with pc := .done (.error .missingField) }, none)
      | some url => some ({ task with pc := .done (.ok url) }, none)
    else some ({ task with pc := .done (.error (.controllerWeb status)) }, none)
  | .scheduled, _ | .done _, _ => none
  | _, .raised => some ({ task with pc := .done (.error .raised) }, none)
  | _, _ => none

/-! ### Progress iterators -/

/-- Program points of `progress`. -/
inductive ProgressPc
  /-- Suspended at the `yield` of the event with this index, of `len_events` events. -/
  | yielding (i lenEvents : ℕ)
  /-- Waiting for the trigger, which had been set this often before. -/
  | waiting (since : ℕ)
  | ended
  deriving DecidableEq

/-- One `progress` iterator. -/
structure Listener where
  pc : ProgressPc
  /-- The future it has captured. -/
  startFuture : Option ℕ
  /-- The event list it has captured. -/
  events : Option ℕ
  trigger : EventFlag := {}
  nextEvent : ℕ := 0
  complete : Bool := false
  /-- The items it has yielded. -/
  yielded : List ProgressDict := []
  /-- Whether one of its waits lasted `start_timeout`. -/
  timedOut : Bool := false

instance : Inhabited Listener := ⟨⟨.ended, none, none, {}, 0, false, [], false⟩⟩

/-- The attributes of the spawner that a spawn and its observers share, with the coroutines. -/
structure NubladoSpawner where
  /-- `_events`: the event list the spawner has at present. -/
  events : Option ℕ := none
  /-- `_triggers`, by the iterators they belong to. -/
  triggers : List ℕ := []
  /-- `_start_future` -/
  startFuture : Option ℕ := none
  /-- The event lists, by the tasks that made them. -/
  lists : Option ℕ → List SpawnEvent := fun _ ↦ []
  starts : Heap StartTask := .empty
  listeners : Heap Listener := .empty

namespace NubladoSpawner

/-- Whether a future is done. -/
def done (s : NubladoSpawner) (future : Option ℕ) : Bool :=
  future.any fun t ↦ (s.starts t).pc.isDone

/-! ### What a spawn does -/

/-- `start`: schedule `_start` and remember its task. -/
def start (s : NubladoSpawner) : NubladoSpawner :=
  { s with starts := s.starts.alloc {}, startFuture := some s.starts.size }

/-- Set every trigger of the trigger list. -/
def setTriggers (s : NubladoSpawner) : NubladoSpawner :=
  let notified (l : ℕ) : Listener :=
    if l ∈ s.triggers then { s.listeners l with trigger := (s.listeners l).trigger.set }
    else s.listeners l
  { s with listeners := { s.listeners with cell := notified } }

/-- The first step of `_start`: replace the event list, set all triggers and forget them. -/
def beginStart (s : NubladoSpawner) (t : ℕ) : NubladoSpawner :=
  { s.setTriggers with
    events := some t
    lists := fun x ↦ if x = some t then [] else s.lists x
    triggers := []
    starts := s.starts.modify t fun task ↦ { task with pc := .createLab } }

/-- Leave `_start` at its next suspension, with the event it has appended to the event list. -/
def goOn (s : NubladoSpawner) (t : ℕ) (task : StartTask) (e : Option SpawnEvent) :
    NubladoSpawner :=
  { s with
    lists := fun x ↦ if x = s.events then s.lists x ++ e.toList else s.lists x
    starts := s.starts.modify t fun _ ↦ { task with appended := task.appended ++ e.toList } }

/-- A further step of `_start`. All triggers are set just before it exits. -/
def resumeStart (s : NubladoSpawner) (t : ℕ) (reply : StartReply) : Option NubladoSpawner :=
  ((s.starts t).block reply).map fun (task, e) ↦
    if task.pc.isDone then (s.goOn t task e).setTriggers else s.goOn t task e

/-! ### What an iterator does -/

/-- Write an iterator back. -/
def put (s : NubladoSpawner) (l : ℕ) (x : Listener) : NubladoSpawner :=
  { s with listeners := s.listeners.modify l fun _ ↦ x }

end NubladoSpawner

namespace Listener

variable (s : NubladoSpawner) (x : Listener)

/-- Wait for the trigger, which is not set. -/
def wait : Listener := { x with pc := .waiting x.trigger.sets }

/-- One pass through the loop of `progress`, up to its first suspension: the trigger is cleared
before the future and the event list are looked at. -/
def pass : Listener :=
  let complete := x.complete || s.done x.startFuture
  let trigger := x.trigger.clear
  match (s.lists x.events)[x.nextEvent]? with
  | some e =>
    { x with
      pc := .yielding x.nextEvent (s.lists x.events).length
      complete := complete
      trigger := trigger
      yielded := x.yielded ++ [e.toDict] }
  | none =>
    if complete then { x with pc := .ended, complete := true, trigger := trigger }
    else { x with trigger := trigger }.wait

/-- The rest of a pass, when the last of its events has been yielded: a trigger that is set already
makes the iterator go round the loop at once. -/
def afterEvents (lenEvents : ℕ) : Listener :=
  let x := { x with nextEvent := lenEvents }
  if x.complete then { x with pc := .ended }
  else if x.trigger.isSet then x.pass s
  else x.wait

/-- The iterator is asked for its next item while it is suspended at the `yield` of event `i`. -/
def afterYield (i lenEvents : ℕ) : Listener :=
  if i + 1 < lenEvents then
    match (s.lists x.events)[i + 1]? with
    | some e =>
      { x with pc := .yielding (i + 1) lenEvents, yielded := x.yielded ++ [e.toDict] }
    | none => { x with pc := .ended }
  else x.afterEvents s lenEvents

end Listener

namespace NubladoSpawner

/-- The first step of `progress`: register a trigger, capture the future and the event list, and
enter the loop unless there is no future. -/
def progress (s : NubladoSpawner) : NubladoSpawner :=
  let x : Listener := { pc := .ended, startFuture := s.startFuture, events := s.events }
  { s with
    triggers := s.triggers ++ [s.listeners.size]
    listeners := s.listeners.alloc (if s.startFuture.isSome then x.pass s else x) }

/-- The iterator is asked for its next item. -/
def next (s : NubladoSpawner) (l : ℕ) : Option NubladoSpawner :=
  match (s.listeners l).pc with
  | .yielding i lenEvents => some (s.put l ((s.listeners l).afterYield s i lenEvents))
  | _ => none

/-- The iterator runs again because its trigger was set. -/
def wake (s : NubladoSpawner) (l : ℕ) : Option NubladoSpawner :=
  match (s.listeners l).pc with
  | .waiting since =>
    if (s.listeners l).trigger.woken since then some (s.put l ((s.listeners l).pass s)) else none
  | _ => none

/-- The wait of the iterator lasts `start_timeout`. -/
def timeOut (s : NubladoSpawner) (l : ℕ) : Option NubladoSpawner :=
  match (s.listeners l).pc with
  | .waiting _ =>
    some (s.put l { s.listeners l with pc := .ended, complete := true, timedOut := true })
  | _ => none

/-! ### Steps -/

end NubladoSpawner

/-- Who takes a step, and the environment's part in it. -/
inductive Label
  /-- JupyterHub calls `start`. -/
  | start
  /-- The first step of a task. -/
  | beginStart (t : ℕ)
  | resumeStart (t : ℕ) (reply : StartReply)
  /-- JupyterHub begins a `progress` iteration. -/
  | progress
  | next (l : ℕ)
  | wake (l : ℕ)
  | timeOut (l : ℕ)
  deriving DecidableEq

namespace NubladoSpawner

/-- One step of the spawner's coroutines. -/
def step (s : NubladoSpawner) : Label → Option NubladoSpawner
  | .start => if s.startFuture.isNone || s.done s.startFuture then some s.start else none
  | .beginStart t =>
    if t < s.starts.size ∧ (s.starts t).pc = .scheduled then some (s.beginStart t) else none
  | .resumeStart t reply => if t < s.starts.size then s.resumeStart t reply else none
  | .progress => some s.progress
  | .next l => if l < s.listeners.size then s.next l else none
  | .wake l => if l < s.listeners.size then s.wake l else none
  | .timeOut l => if l < s.listeners.size then s.timeOut l else none

end NubladoSpawner

/-- A run of a spawner from its construction. -/
abbrev Run := Trace NubladoSpawner.step {}

/-- What replaying labels shows of the run that they make. -/
theorem exists_run (labels : List Label)
    (P : List (Transition NubladoSpawner Label) → NubladoSpawner → Prop)
    [∀ τ s, Decidable (P τ s)]
    (h : (replay NubladoSpawner.step {} labels).any (fun r ↦ decide (P r.1 r.2)) = true) :
    ∃ τ s, Run τ s ∧ P τ s :=
  exists_of_replay h

end Nublado.Hub
