import Mathlib.Data.Int.Notation
import Nublado.Foundations.Dict

/-!
# Spawn events

The events that the spawner keeps for `progress`, and how they are made from the server-sent events
of the lab controller.

The body of a server-sent event is JSON. Two things are asked of a decoded value — what `int` makes
of it and how it reads in a message — so a `JsonValue` is these two answers.
-/

namespace Nublado.Hub

/-- A decoded JSON value. -/
structure JsonValue where
  /-- What `int` makes of it; absent where `int` raises an exception. -/
  int : Option ℤ
  /-- How it is formatted. -/
  text : String
  deriving DecidableEq

/-- A server-sent event of the lab controller. -/
structure ServerSentEvent where
  event : String
  data : String
  /-- The items of the decoded data; absent where the data is not a JSON object. -/
  json : Option (List (String × JsonValue))
  deriving DecidableEq

/-- JupyterHub spawning event. -/
structure SpawnEvent where
  /-- Percentage of progress, from 0 to 100. -/
  progress : ℤ
  message : String
  /-- Log message severity. -/
  severity : String
  /-- Whether the event indicated spawning is done. -/
  complete : Bool := false
  /-- Whether the event indicated spawning failed. -/
  failed : Bool := false
  deriving DecidableEq

namespace SpawnEvent

/-- The message and the progress that are read from the data. A progress value outside of the
allowed range makes the whole data the message, but it has already replaced the progress by then. -/
def readData (sse : ServerSentEvent) (progress : ℤ) : Option String × ℤ :=
  match sse.json with
  | none => (some sse.data, progress)
  | some data =>
    if data.all fun p ↦ ["message", "progress"].contains p.1 then
      match data.lookup "progress" with
      | none => ((data.lookup "message").map JsonValue.text, progress)
      | some value =>
        match value.int with
        | none => (some sse.data, progress)
        | some n =>
          if n < 0 ∨ 100 < n then (some sse.data, n)
          else ((data.lookup "message").map JsonValue.text, n)
    else (some sse.data, progress)

/-- Convert from a server-sent event from the lab controller. `progress` is the current progress
percentage, if the event doesn't specify one. Without a message the constructor raises an
exception. -/
def fromSse (sse : ServerSentEvent) (progress : ℤ) : Option SpawnEvent :=
  let (message, progress) := readData sse progress
  message.map fun message ↦
    if sse.event = "complete" then ⟨75, message, "info", true, false⟩
    else if sse.event = "info" ∨ sse.event = "error" then
      ⟨progress, message, sse.event, false, false⟩
    else if sse.event = "failed" then ⟨progress, message, "error", false, true⟩
    else ⟨progress, message, "unknown", false, false⟩

end SpawnEvent

/-- The dictionary that JupyterHub expects of a progress event. -/
structure ProgressDict where
  progress : ℤ
  message : String
  deriving DecidableEq

/-- Convert to the dictionary expected by JupyterHub. -/
def SpawnEvent.toDict (e : SpawnEvent) : ProgressDict :=
  ⟨e.progress, s!"[{e.severity}] {e.message}"⟩

/-- The event that is recorded when a lab is in the way of the spawn. -/
def orphanedLab : SpawnEvent :=
  { progress := 1, message := "Deleting existing orphaned lab", severity := "warning" }

/-- **An event is not both**: no event says that the spawn is done and that it failed. -/
theorem SpawnEvent.not_complete_and_failed {sse : ServerSentEvent} {progress : ℤ} {e : SpawnEvent}
    (h : fromSse sse progress = some e) : ¬(e.complete = true ∧ e.failed = true) := by
  obtain ⟨message, -, rfl⟩ := Option.map_eq_some_iff.1 h
  split_ifs <;> simp

end Nublado.Hub
