import Nublado.Foundations.Trace
import Nublado.Lab.Manager.Calls
import Nublado.Lab.Manager.Operation

/-!
# Runs of the lab manager

One step is taken by a coroutine call, by the task of an operation or by its helper, and a new call
may be made at any time. Only the call in the middle of an atomic segment can take a step until it
suspends; otherwise whatever is ready may run, in any order.
-/

namespace Nublado.Lab

/-- Who takes a step, and the environment's part in it. -/
inductive Label
  /-- A new call is made. -/
  | call (c : Call)
  | exec (t : ℕ) (r : Reply)
  | op (o : ℕ) (r : OpReply)
  | watch (o : ℕ) (r : WatchReply)
  deriving DecidableEq

namespace ManagerState

variable (config : LabConfig)

/-- Make a call. -/
def begin (s : ManagerState) (c : Call) : ManagerState :=
  { s with calls := s.calls.alloc { call := c, pc := .caller c.start } }

/-- Time passes. -/
def tick (s : ManagerState) : ManagerState := { s with clock := s.clock + 1 }

/-- One step of the manager and its event loop. -/
def step (s : ManagerState) (l : Label) : Option ManagerState :=
  match l with
  | .call c => if s.running = none then some (s.begin c).tick else none
  | .exec t r =>
    if (s.running = none ∨ s.running = some t) ∧ t < s.calls.size then
      (s.execCall config t r).map tick
    else none
  | .op o r =>
    if s.running = none ∧ o < s.ops.size then (s.execOp config o r).map tick else none
  | .watch o r =>
    if s.running = none ∧ o < s.ops.size then (s.execWatch o r).map tick else none

end ManagerState

/-- A run of the manager. -/
abbrev Run (config : LabConfig) := Trace (ManagerState.step config)

/-- Whether the monitors are being stopped. -/
def Label.stops : Label → Bool
  | .call .stopMonitorTasks => true
  | _ => false

/-- The step is not a call of `stop_monitor_tasks`. -/
def Stopless (x : Transition ManagerState Label) : Prop := x.label.stops = false

instance : DecidablePred Stopless := fun x ↦ inferInstanceAs (Decidable (x.label.stops = false))

/-- No call of `stop_monitor_tasks` is made during the run. -/
def Serving (τ : List (Transition ManagerState Label)) : Prop := ∀ x ∈ τ, Stopless x

instance : DecidablePred Serving := fun τ ↦ inferInstanceAs (Decidable (∀ x ∈ τ, Stopless x))

/-! ### A small installation

What concrete runs are made with: one size, no secrets, and a user who may spawn labs. -/

namespace Sample

/-- A configuration with one size of lab. -/
def config : LabConfig where
  namespacePrefix := "nb"
  sizes := [⟨.small, ⟨⟨2, 2⟩, ⟨1, 1⟩⟩⟩]

/-- A user who may spawn labs. -/
def user : GafaelfawrUser := { username := "rachel", uid := some 1, gid := some 1, token := "t" }

/-- What the user asks for. -/
def spec : LabSpecification where
  options := { size := .small, imageTag := some "w_2023_01" }
  env := [("JUPYTERHUB_SERVICE_PREFIX", "/nb/user/rachel/")]

/-- The image the user gets. -/
def image : RSPImage := ⟨"lsst/sciplat-lab@sha256:1234"⟩

/-- Call `t` is `create_lab` of a user without a lab, and starts its spawn. -/
def create (t : ℕ) : List Label :=
  [.call (.createLab user spec), .exec t .go, .exec t (.image (.ok image)), .exec t .go, .exec t .go,
    .exec t .go, .exec t .go]

/-- Operation `o` is a spawn that goes well, up to the point where the pod is awaited. -/
def build (o : ℕ) : List Label := [.op o .go, .op o .done, .op o .done]

/-- The pod starts. -/
def start (o : ℕ) : List Label := [.op o .done, .watch o .go, .op o .go, .op o .done]

/-- Replay labels from an empty manager. -/
def run (ls : List Label) : Option (List (Transition ManagerState Label) × ManagerState) :=
  replay (ManagerState.step config) .initial ls

/-- A replay shows that there is a run. -/
theorem exists_run (ls : List Label)
    (P : List (Transition ManagerState Label) → ManagerState → Prop) [∀ τ s, Decidable (P τ s)]
    (h : (run ls).any (fun r ↦ decide (P r.1 r.2)) = true) :
    ∃ τ s, Run config .initial τ s ∧ P τ s :=
  exists_of_replay h

end Sample

end Nublado.Lab
