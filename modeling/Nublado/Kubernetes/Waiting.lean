import Nublado.Foundations.Trace
import Mathlib.Algebra.Order.Ring.Int

/-!
# Waiting for an object to be deleted

`wait_for_deletion` of the storage for Kubernetes objects that can be deleted, with the watcher that it
uses and the timeouts that both are given. It reads the object, watches it for as long as the timeout
lasts less two seconds, and reads it once more if the watch has run out of time. The watch is a loop
that starts over whenever its stream has ended.

A `Wait` is one call with the program point it has reached and the time, in microseconds. Time passes
while the call waits for something (`tick`), and only then.

## The environment

* The API server answers a read with the object or with an error, and the stream of a watch delivers
  events, ends, or fails, in any order and at any time. Events for which `WatchEvent.from_event` raises
  an exception, among them all of other types than the three that it knows, and those that are no
  dictionaries, are `unparsable`.
* The timeout of `asyncio` and that of a read do not fire before their time. That of a stream may fire
  at any time.
* `stop` is a call of the watcher's method of that name.

Cancellation of the task from outside is left out.
-/

namespace Nublado.Kubernetes

/-! ### Timeouts -/

/-- A cumulative timeout on a series of operations. -/
structure Timeout where
  timeout : ℤ
  start : ℤ
  deriving DecidableEq

namespace Timeout

/-- The time at which it runs out. -/
def deadline (t : Timeout) : ℤ := t.start + t.timeout

/-- The amount of time remaining; the exception is `ControllerTimeoutError`. -/
@[grind =] def left (t : Timeout) (now : ℤ) : Option ℤ :=
  let left := t.timeout - (now - t.start)
  if left ≤ 0 then none else some left

/-- `partial`: a shorter timeout for a part of the operations, with the same exception. -/
@[grind =] def partialTimeout (t : Timeout) (now timeout : ℤ) : Option Timeout :=
  if timeout < 0 then none
  else
    let left := t.timeout - (now - t.start)
    some { timeout := min left timeout, start := now }

end Timeout

/-- Two seconds, which are kept for the last read. -/
def reserved : ℤ := 2000000

/-! ### The watch -/

/-- What a stream is asked for. -/
structure WatchArgs where
  requestTimeout : ℤ
  /-- In seconds. -/
  timeoutSeconds : ℤ
  resourceVersion : Option String
  deriving DecidableEq

/-- Seconds, rounded up. -/
def ceilSeconds (time : ℤ) : ℤ := -(-time / 1000000)

/-- A watcher that is watching. -/
structure Watch where
  timeout : Timeout
  args : WatchArgs
  stopped : Bool := false
  deriving DecidableEq

/-- Types of watch events. -/
inductive WatchEventType
  | added | modified | deleted
  deriving DecidableEq

/-! ### A call -/

/-- How a call ends. -/
inductive Result
  | returned
  | controllerTimeout
  /-- `KubernetesError`, with the status that the API server has given. -/
  | kubernetesError (status : ℕ)
  /-- `RuntimeError`: the wait unexpectedly stopped. -/
  | unexpectedlyStopped
  deriving DecidableEq

/-- Program points of `wait_for_deletion`. -/
inductive Pc
  | called
  /-- Waiting for the first read. -/
  | reading
  /-- Waiting for the stream of the watch. -/
  | streaming (w : Watch)
  /-- Waiting for the last read. -/
  | readingAgain (t : Timeout)
  | ended (r : Result)
  deriving DecidableEq

/-- A call of `wait_for_deletion`. -/
structure Wait where
  timeout : Timeout
  reconnectTimeout : ℤ
  now : ℤ
  pc : Pc := .called
  deriving DecidableEq

namespace Wait

variable (s : Wait)

/-- The call ends. -/
def finish (r : Result) : Wait := { s with pc := .ended r }

/-- `read`: wait for the API server, if there is time left. -/
def read (t : Timeout) (pc : Pc) : Wait :=
  match t.left s.now with
  | none => s.finish .controllerTimeout
  | some _ => { s with pc := pc }

/-- The watch has run out of time: read the object once more. -/
@[grind =] def timedOut : Wait :=
  match s.timeout.partialTimeout s.now reserved with
  | none => s.finish .controllerTimeout
  | some readTimeout => s.read readTimeout (.readingAgain readTimeout)

/-- Start a stream, for no longer than there is time left. -/
@[grind =] def stream (w : Watch) : Wait :=
  match w.timeout.left s.now with
  | none => s.timedOut
  | some left =>
    let args :=
      if left ≤ s.reconnectTimeout then
        { w.args with requestTimeout := left, timeoutSeconds := ceilSeconds left }
      else w.args
    { s with pc := .streaming { w with args := args } }

/-- Watch the object that has been read. -/
@[grind =] def watch (resourceVersion : Option String) : Wait :=
  match s.timeout.left s.now with
  | none => s.finish .controllerTimeout
  | some left =>
    match s.timeout.partialTimeout s.now (left - reserved) with
    | none => s.finish .controllerTimeout
    | some watchTimeout =>
      s.stream
        { timeout := watchTimeout
          args :=
            { requestTimeout := s.reconnectTimeout
              timeoutSeconds := ceilSeconds s.reconnectTimeout
              resourceVersion := resourceVersion } }

/-- The stream has ended by itself, or was given up. -/
@[grind =] def streamEnded (w : Watch) : Wait :=
  if w.stopped then s.finish .unexpectedlyStopped else s.stream w

end Wait

/-- What happens next. -/
inductive Label
  | call
  /-- Time passes. -/
  | tick (d : ℕ)
  /-- The API server returns the object. -/
  | found (resourceVersion : Option String)
  /-- The API server answers a read with an error. -/
  | readError (status : ℕ)
  | readTimeout
  | event (type : WatchEventType)
  | unparsable
  | streamEnd
  /-- The timeout of the stream. -/
  | clientTimeout
  /-- The stream fails with an error of the API server. -/
  | apiError (status : ℕ)
  /-- The timeout of the watch. -/
  | watchTimeout
  | stop
  deriving DecidableEq

/-- One step of a call in progress, by its program point. -/
@[grind =] def Wait.respond (s : Wait) : Pc → Label → Option Wait
  | .called, .call => some (s.read s.timeout .reading)
  | .reading, .found resourceVersion => some (s.watch resourceVersion)
  | .reading, .readError status =>
    some (s.finish (if status = 404 then .returned else .kubernetesError status))
  | .reading, .readTimeout =>
    if s.timeout.deadline ≤ s.now then some (s.finish .controllerTimeout) else none
  | .streaming _, .event type =>
    some (if type = .deleted then s.finish .returned else s)
  | .streaming w, .unparsable => some (s.streamEnded w)
  | .streaming w, .streamEnd => some (s.streamEnded w)
  | .streaming w, .clientTimeout => some (s.stream w)
  | .streaming w, .apiError status =>
    some (if status = 410 then
      s.stream { w with args := { w.args with resourceVersion := none } }
    else s.finish (.kubernetesError status))
  | .streaming w, .watchTimeout =>
    if w.timeout.deadline ≤ s.now then some s.timedOut else none
  | .streaming w, .stop => some { s with pc := .streaming { w with stopped := true } }
  | .readingAgain _, .found _ => some (s.finish .controllerTimeout)
  | .readingAgain _, .readError status =>
    some (s.finish (if status = 404 then .returned else .kubernetesError status))
  | .readingAgain t, .readTimeout =>
    if t.deadline ≤ s.now then some (s.finish .controllerTimeout) else none
  | _, _ => none

/-- One step: time passes while the call waits, or something comes back. -/
@[grind =] def Wait.step (s : Wait) : Label → Option Wait
  | .tick d =>
    match s.pc with
    | .ended _ => none
    | _ => some { s with now := s.now + d }
  | label => s.respond s.pc label

end Nublado.Kubernetes
