import Mathlib.Data.List.Sort
import Nublado.Foundations.Dict
import Nublado.Lab.Manager.Monitor

/-!
# The lab manager's methods

`create_lab`, `delete_lab`, `reconcile`, `reap_spawners` and `stop_monitor_tasks`, cut at the points
where they may suspend and at their calls of a monitor's methods. A block reads the whole manager but
changes only the objects in `Shared`; where the call goes from there is its `Next`. Monitors and
operations are changed by the monitor's own methods alone.

`callBlock` continues from a program point of the manager's methods, `frameBlock` from the return of
a monitor's method.
-/

namespace Nublado.Lab

/-- Where a call goes after a block. -/
inductive Next
  | goto (p : CallerPc)
  /-- Call a method of monitor `e`, and continue at `k`. -/
  | enter (e : ℕ) (m : Method) (k : Frame)
  | finish (r : Except LabException Unit)

namespace CallerPc

/-- Whether a call that reaches this point is suspended there. -/
def suspends : CallerPc → Bool
  | .createImage .. | .createPhase .. | .createReport .. | .reconcileList .. | .reconcileRead ..
  | .reconcilePurge .. | .reconcilePublish | .reapWait .. | .reapReport .. => true
  | _ => false

end CallerPc

/-- The program point at which a call begins. -/
def Call.start : Call → CallerPc
  | .createLab user spec => .createStart user spec
  | .deleteLab username => .deleteStart username .request
  | .reconcile => .reconcileStart
  | .reapSpawners => .reapStart
  | .stopMonitorTasks => .stopStart

/-- The exception a monitor's method raises in its caller. -/
def MethodResult.toExcept (username : String) : MethodResult → Except LabException Unit
  | .ok => .ok ()
  | .operationConflict => .error (.operationConflict username)
  | .noOperation => .error (.noOperation ("No operation in progress for " ++ username))
  | .cancelled => .error .cancelled
  | .failed x => .error x

namespace ManagerState

variable (config : LabConfig) (s : ManagerState)

/-! ### `create_lab` -/

/-- Whether the user may spawn labs at all: the quota, a UID and a GID. -/
def createAllowed (user : GafaelfawrUser) : Except LabException Unit :=
  if user.quota.any fun q ↦ !q.spawn then
    .error (.permissionDenied "Spawning a notebook is not permitted")
  else if user.uid.getD 0 = 0 then .error (.permissionDenied "Must have a UID to spawn labs")
  else if user.gid.getD 0 = 0 then .error (.permissionDenied "Must have a GID to spawn labs")
  else .ok ()

/-- Set up the record of a user who was not previously seen. -/
def ensureRecord (username : String) : Shared :=
  match s.labs.lookup username with
  | some _ => s.toShared
  | none => s.insertLab username none s.clock

/-- The size and quota checks, once the image is known. -/
def createResources (user : GafaelfawrUser) (spec : LabSpecification) (image : RSPImage) :
    Except LabException CreateData :=
  match config.getSizeDefinition spec.options.size with
  | none => .error (.invalidLabSize spec.options.size)
  | some size =>
    let limits := size.resources.limits
    if user.quota.any fun q ↦ q.memoryBytes < limits.memory || q.cpu < limits.cpu then
      .error (.insufficientQuota "Insufficient quota to spawn requested lab")
    else .ok ⟨user, spec, image, user.quota, size.resources⟩

/-- `_get_lab_state_from_kubernetes`, up to the request to Kubernetes. -/
def readLabState (d : CreateData) : Next :=
  match (s.labs.lookup d.user.username).bind fun e ↦ (s.records e).state with
  | none => .goto (.createCheck d none)
  | some σ => .goto (.createPhase d σ)

/-- `_get_lab_state_from_kubernetes`, when the phase is known: a missing pod makes the lab failed,
and a lab that was running has the status of its phase. -/
def refreshState (σ : ℕ) (phase : Option PodPhase) : Shared :=
  match phase with
  | none => s.setStatus σ .failed
  | some p =>
    if (s.states σ).status = .running then s.setStatus σ (LabStatus.fromPhase p) else s.toShared

/-- The user's metadata in the new lab state. -/
def userInfo (user : GafaelfawrUser) : UserInfo where
  username := user.username
  name := user.name
  uid := user.uid.getD 0
  gid := user.gid.getD 0
  groups := user.groups

/-- Hand the spawn of a new lab to the monitor. -/
def createSpawn (d : CreateData) (e : ℕ) (deleteFirst : Bool) : Shared × Next :=
  let state := LabState.fromRequest (userInfo d.user) d.quota d.spec d.image d.resources
  let sh := ((s.clearEvents e).allocState state).allocCoro
    (.spawnLab d.user d.spec d.image deleteFirst)
  (sh, .enter e
    (.monitor
      { operation := .spawn, coro := s.coros.size, state := s.states.size, doneEvent := true })
    (.createStarted s.states.size))

/-- The checks that must not be separated from the start of the operation. -/
def createCheck (d : CreateData) (state : Option ℕ) : Shared × Next :=
  let username := d.user.username
  let deleteFirst := state.any fun σ ↦ !(s.states σ).isRunning
  match s.labs.lookup username with
  | none => (s.toShared, .finish (.error (.keyError username)))
  | some e =>
    match s.inProgress e with
    | some op =>
      (s.toShared, .finish (.error (.operationConflict
        ("Operation in progress for " ++ username ++ ": " ++ op.value))))
    | none =>
      if (s.records e).state.isSome && !deleteFirst then
        (s.toShared, .finish (.error (.labExists ("Lab already exists for " ++ username))))
      else s.createSpawn d e deleteFirst

/-! ### `delete_lab` -/

/-- `delete_lab` returns: to the API, or to the reconcile that is cleaning up, which ignores users
who are gone and gives up on any other exception. -/
def deleteReturn (caller : DeleteCaller) (r : Except LabException Unit) : Next :=
  match caller, r with
  | .request, r => .finish r
  | .reconcile rest, .ok _ => .goto (.reconcileCompleted rest)
  | .reconcile rest, .error (.unknownUser _) => .goto (.reconcileCompleted rest)
  | .reconcile _, .error x => .finish (.error x)

/-- The exception for a user without a lab. -/
def unknownUser (username : String) : LabException := .unknownUser ("Unknown user " ++ username)

/-- No operation is in progress, or the one in progress has been cancelled: start a deletion. -/
def deleteProceed (username : String) (e : ℕ) (caller : DeleteCaller) : Shared × Next :=
  let sh := s.clearEvents e
  match (s.records e).state with
  | none => (sh, deleteReturn caller (.error (unknownUser username)))
  | some σ =>
    let sh := (sh.setStatus σ .terminating)
    let sh := { sh with states := sh.states.modify σ fun x ↦ { x with internalUrl := none } }
    (sh.allocCoro .deleteLab, .enter e
      (.monitor { operation := .delete, coro := s.coros.size, state := σ, doneEvent := false })
      (.deleteStarted username caller))

/-- The beginning of `delete_lab`: wait for a deletion in progress, abort a spawn in progress, or
start a deletion. -/
def deleteStart (username : String) (caller : DeleteCaller) : Shared × Next :=
  match s.labs.lookup username with
  | none => (s.toShared, deleteReturn caller (.error (unknownUser username)))
  | some e =>
    match (s.records e).state, s.inProgress e with
    | none, _ => (s.toShared, deleteReturn caller (.error (unknownUser username)))
    | some _, some .delete => (s.toShared, .enter e .wait (.deleteJoined username caller))
    | some _, some .spawn =>
      (s.toShared, .enter e (.cancel (s.monitors e).operation) (.deleteAborted username caller))
    | some _, none => s.deleteProceed username e caller

/-- The result of `delete_lab`, read off the recorded lab. -/
def deleteResult (sh : Shared) (username : String) (e : ℕ) : Except LabException Unit :=
  match sh.recorded e with
  | none => .ok ()
  | some x =>
    if x.status = .terminated then .ok ()
    else .error (.labDeletion ("Deleting lab for " ++ username ++ " failed"))

/-- `delete_lab` has waited for its own deletion: it clears the recorded lab if that is terminated. -/
def deleteFinish (username : String) (e : ℕ) (caller : DeleteCaller) : Shared × Next :=
  let sh := s.touch e s.clock
  match sh.recorded e with
  | none =>
    (sh, deleteReturn caller
      (.error (.attributeError "'NoneType' object has no attribute 'status'")))
  | some x =>
    let sh := if x.status = .terminated then sh.setState e none else sh
    (sh, deleteReturn caller (deleteResult sh username e))

/-! ### `reconcile` -/

/-- What `_reconcile_known_users` does to one user: the manager's objects afterwards, and whether the
user is to be monitored. -/
def reconcileUser (observed : List (String × LabState)) (cutoff : ℕ) (sh : Shared)
    (username : String) (e : ℕ) : Shared × Bool :=
  match (sh.records e).state with
  | none => (sh, false)
  | some σ =>
    if s.modifiedSince e cutoff then (sh, false)
    else if (sh.states σ).status = .failed then (sh, false)
    else match observed.lookup username with
      | none => (sh.setStatus σ .failed, false)
      | some x =>
        if x.status = (sh.states σ).status then (sh, false)
        else (sh.setStatus σ x.status, x.status = .pending)

/-- `_reconcile_known_users`: the first pass, over the users in the mapping. -/
def reconcileKnownUsers (observed : List (String × LabState)) (cutoff : ℕ) :
    Shared × List String :=
  s.labs.foldl
    (fun acc p ↦
      let r := s.reconcileUser observed cutoff acc.1 p.1 p.2
      (r.1, if r.2 then acc.2 ++ [p.1] else acc.2))
    (s.toShared, [])

/-- The second pass creates the records of users that only Kubernetes knows. The source walks over a
set; here its elements come in the order in which they were observed. -/
def reconcileUnknownUsers (now : ℕ) (observed : List (String × LabState))
    (acc : Shared × List String) : Shared × List String :=
  (observed.filter fun p ↦ (acc.1.labs.lookup p.1).isNone).foldl
    (fun acc p ↦
      ((acc.1.allocState p.2).insertLab p.1 (some acc.1.states.size) now,
        if p.2.status = .pending then acc.2 ++ [p.1] else acc.2))
    acc

/-- Both passes of `reconcile`. -/
def reconcilePasses (observed : List (String × LabState)) (cutoff : ℕ) : Shared × List String :=
  reconcileUnknownUsers s.clock observed (s.reconcileKnownUsers observed cutoff)

/-- `_monitor_pending_spawn`, for the first of the users to monitor. -/
def reconcilePending (username : String) (rest : List String) : Shared × Next :=
  match s.labs.lookup username with
  | none => (s.toShared, .finish (.error (.keyError username)))
  | some e =>
    match (s.records e).state, s.inProgress e with
    | some σ, none =>
      let sh := (s.clearEvents e).putEvent e
        { type := .info
          message := "Monitoring in-progress lab creation for " ++ username
          progress := some 1 }
      (sh.allocCoro .watchLabSpawn, .enter e
        (.monitor { operation := .spawn, coro := s.coros.size, state := σ, doneEvent := true })
        (.pendingStarted rest))
    | _, _ => (s.toShared, .goto (.reconcilePending rest))

/-- `_delete_completed_labs`, for the first of the labs to look at. -/
def reconcileCompleted (username : String) (e : ℕ) (rest : List (String × ℕ)) : Next :=
  if (s.recorded e).any (fun x ↦ !x.isRunning) && (s.inProgress e).isNone then
    .goto (.deleteStart username (.reconcile rest))
  else .goto (.reconcileCompleted rest)

/-! ### `reap_spawners` -/

/-- The head of the reaper's endless loop. -/
def reapLoop (sh : Shared) : Next :=
  if sh.spawnerDone.isSet then .goto .reapWoken else .goto (.reapWait sh.spawnerDone.sets)

/-- A reaper pass begins. -/
def reapBegin : Shared × Next :=
  ({ s.toShared with spawnerDone := s.spawnerDone.clear },
    .goto (.reapScan { dict := s.dict, size := s.labs.length, rest := s.labs }))

/-- The next record in the reaper's loop. A dictionary must not change size while it is iterated
over. -/
def reapScan (loop : ReapLoop) : Next :=
  if s.dictSize loop.dict ≠ loop.size then
    .finish (.error (.runtimeError "dictionary changed size during iteration"))
  else match loop.rest with
    | [] => reapLoop s.toShared
    | (_, e) :: rest =>
      if (s.monitors e).operation.any fun o ↦ (s.ops o).task.ended then
        .enter e .wait (.reaped { loop with rest := rest })
      else .goto (.reapScan { loop with rest := rest })

/-- The report of an unexpected exception is out: the lab counts as failed. -/
def reapFailed (e : ℕ) : Shared :=
  match (s.records e).state with
  | some σ => s.setStatus σ .failed
  | none => s.toShared

/-! ### Blocks -/

/-- One step from a program point of the manager's methods. -/
def callBlock (p : CallerPc) (r : Reply) : Option (Shared × Next) :=
  match p, r with
  | .createStart user spec, .go =>
    match createAllowed user with
    | .error x => some (s.toShared, .finish (.error x))
    | .ok _ => some (s.ensureRecord user.username, .goto (.createImage user spec))
  | .createImage user spec, .image r =>
    match r.bind (createResources config user spec) with
    | .error x => some (s.toShared, .finish (.error x))
    | .ok d => some (s.toShared, s.readLabState d)
  | .createPhase d σ, .phase (.phase p) =>
    some (s.refreshState σ p, .goto (.createCheck d (some σ)))
  | .createPhase d σ, .phase .kubernetesError | .createPhase d σ, .phase .timeout =>
    some (s.toShared, .goto (.createReport d σ))
  | .createPhase _ _, .phase (.error x) => some (s.toShared, .finish (.error x))
  | .createReport d σ, .reported => some (s.toShared, .goto (.createCheck d (some σ)))
  | .createCheck d state, .go => some (s.createCheck d state)
  | .deleteStart username caller, .go => some (s.deleteStart username caller)
  | .reconcileStart, .go => some (s.toShared, .goto (.reconcileList s.clock))
  | .reconcileList cutoff, .namespaces r =>
    match r with
    | .error x => some (s.toShared, .finish (.error x))
    | .ok names =>
      some (s.toShared, .goto (.reconcileGather cutoff (names.filterMap config.usernameOf) []))
  | .reconcileGather cutoff rest observed, .go =>
    match rest with
    | [] => some (s.toShared, .goto (.reconcilePass cutoff observed))
    | username :: rest => some (s.toShared, .goto (.reconcileRead cutoff username rest observed))
  | .reconcileRead cutoff username rest observed, .labObjects r =>
    match r with
    | .error x => some (s.toShared, .finish (.error x))
    | .ok (some x) =>
      some (s.toShared, .goto (.reconcileGather cutoff rest (dictInsert observed username x)))
    | .ok none =>
      if (s.labs.lookup username).any fun e ↦ s.modifiedSince e cutoff then
        some (s.toShared, .goto (.reconcileGather cutoff rest observed))
      else some (s.toShared, .goto (.reconcilePurge cutoff username rest observed))
  | .reconcilePurge cutoff _ rest observed, .done r =>
    match r with
    | .error x => some (s.toShared, .finish (.error x))
    | .ok _ => some (s.toShared, .goto (.reconcileGather cutoff rest observed))
  | .reconcilePass cutoff observed, .go =>
    let r := s.reconcilePasses observed cutoff
    some (r.1, .goto (.reconcilePending (r.2.insertionSort (· ≤ ·))))
  | .reconcilePending rest, .go =>
    match rest with
    | [] => some (s.toShared, .goto (.reconcileCompleted s.labs))
    | username :: rest => some (s.reconcilePending username rest)
  | .reconcileCompleted rest, .go =>
    match rest with
    | [] => some (s.toShared, .goto .reconcilePublish)
    | (username, e) :: rest => some (s.toShared, s.reconcileCompleted username e rest)
  | .reconcilePublish, .done r => some (s.toShared, .finish r)
  | .reapStart, .go => some (s.toShared, reapLoop s.toShared)
  | .reapWait since, .go => if s.spawnerDone.woken since then some s.reapBegin else none
  | .reapWoken, .go => some s.reapBegin
  | .reapScan loop, .go => some (s.toShared, s.reapScan loop)
  | .reapReport loop e, .reported => some (s.reapFailed e, .goto (.reapScan loop))
  | .stopStart, .go =>
    some ({ s.toShared with labs := [], retired := s.retired ++ [s.labs.length] },
      .goto (.stopScan (s.labs.map Prod.snd)))
  | .stopScan rest, .go =>
    match rest with
    | [] => some (s.toShared, .finish (.ok ()))
    | e :: rest => some (s.toShared, .enter e (.cancel none) (.stopped rest))
  | _, _ => none

/-- The caller continues when the method of monitor `e` has returned `r`. -/
def frameBlock (e : ℕ) (k : Frame) (r : MethodResult) : Shared × Next :=
  let raised := r.toExcept (s.records e).username
  match k, r with
  | .createStarted σ, .ok => (s.setState e (some σ), .finish (.ok ()))
  | .createStarted _, _ => (s.toShared, .finish raised)
  | .deleteJoined username caller, .ok =>
    (s.toShared, deleteReturn caller (deleteResult s.toShared username e))
  | .deleteAborted username caller, .ok => s.deleteProceed username e caller
  | .deleteStarted username caller, .ok =>
    (s.toShared, .enter e .wait (.deleteAwaited username caller))
  | .deleteAwaited username caller, .ok => s.deleteFinish username e caller
  | .deleteJoined _ caller, _ | .deleteAborted _ caller, _ | .deleteStarted _ caller, _
  | .deleteAwaited _ caller, _ => (s.toShared, deleteReturn caller raised)
  | .pendingStarted rest, .ok | .pendingStarted rest, .operationConflict =>
    (s.toShared, .goto (.reconcilePending rest))
  | .pendingStarted _, _ => (s.toShared, .finish raised)
  | .reaped loop, .ok => (s.touch e s.clock, .goto (.reapScan loop))
  -- a deletion collects its own operation, and may have done so first
  | .reaped loop, .noOperation => (s.toShared, .goto (.reapScan loop))
  -- a cancellation is not an `Exception`
  | .reaped _, .cancelled => (s.toShared, .finish raised)
  | .reaped loop, _ => (s.touch e s.clock, .goto (.reapReport loop e))
  | .stopped rest, .ok => (s.toShared, .goto (.stopScan rest))
  | .stopped _, _ => (s.toShared, .finish raised)

/-- Take the objects of a block and move the call on. The call keeps running until it is suspended
or ends. -/
def follow (t : ℕ) (b : Shared × Next) : ManagerState :=
  match b.2 with
  | .goto p =>
    { s.setPc t (.caller p) with
      toShared := b.1, running := if p.suspends then none else some t }
  | .enter e m k =>
    { s.setPc t (.method e (.acquire m) k) with toShared := b.1, running := some t }
  | .finish r => { s.setPc t (.finished r) with toShared := b.1, running := none }

/-- One step of call `t`. -/
def execCall (t : ℕ) (r : Reply) : Option ManagerState :=
  match (s.calls t).pc, r with
  | .caller p, r => (s.callBlock config p r).map (s.follow t)
  | .method e (.acquire m) k, .go => some (s.arrive t e m k)
  | .method e (.inside p) k, r => s.methodBlock t e p k r
  | .method e (.returned res) k, .go => some (s.follow t (s.frameBlock e k res))
  | _, _ => none

end ManagerState

end Nublado.Lab
