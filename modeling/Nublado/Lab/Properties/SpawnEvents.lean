import Nublado.Lab.Manager.Cancellation
import Nublado.Lab.Properties.MutualExclusion

/-!
# The events of a spawn

A spawn reports its progress to the user as events on a queue: the task of the operation puts them
there, so does the helper that relays pod events, and `_LabMonitor.cancel` puts one when it cancels the
task. `ManagerState.puts` is what each step puts on behalf of an operation.

* `SpawnLaw` is the law of such a stream: progress never goes back and stays between 1 and 75, and
  nothing follows the first completion event.
* `spawn_events_lawful`: a spawn keeps to the law, and has put exactly one completion event when it
  ends, in every run in which it is cancelled only where its task is `interruptible`, and in which the
  helper of a cancelled task relays nothing more (`Timely`).
* Both conditions fail in practice. A cancellation while the outcome is being published adds a second
  completion event after the first; one that arrives in the `finally` block of `_watch_lab_spawn` is
  suppressed, so that the spawn goes on to announce its outcome; and the helper may have an event at
  hand when the task is cancelled. `spawn_events_unlawful` is a run of the first kind.
-/

namespace Nublado.Lab

/-! ### The law -/

/-- An event after which a reader expects no other. -/
def isCompletion (e : Event) : Bool := e.type = .complete || e.type = .failed

/-- **The law of a spawn's events.** -/
structure SpawnLaw (es : List Event) : Prop where
  /-- Progress never goes back. -/
  ordered : (es.filterMap Event.progress).Pairwise (· ≤ ·)
  /-- Progress lies between 1 and 75. -/
  bounded : ∀ p ∈ es.filterMap Event.progress, 1 ≤ p ∧ p ≤ 75
  /-- Nothing follows a completion event. -/
  last : ∀ init e rest, es = init ++ e :: rest → isCompletion e = true → rest = []

/-- Events before completion, with progress up to `b`. -/
structure Clean (b : ℕ) (es : List Event) : Prop where
  ordered : (es.filterMap Event.progress).Pairwise (· ≤ ·)
  bounded : ∀ p ∈ es.filterMap Event.progress, 1 ≤ p ∧ p ≤ b
  ongoing : ∀ e ∈ es, isCompletion e = false

/-- Events of which the last is the only completion event. -/
def Concluded (es : List Event) : Prop :=
  ∃ init e, es = init ++ [e] ∧ Clean 75 init ∧ isCompletion e = true ∧ e.progress = none

variable {b b' : ℕ} {es : List Event}

theorem clean_nil (b : ℕ) : Clean b [] := ⟨.nil, nofun, nofun⟩

theorem Clean.mono (h : Clean b es) (hb : b ≤ b') : Clean b' es :=
  ⟨h.ordered, fun p hp ↦ ⟨(h.bounded p hp).1, (h.bounded p hp).2.trans hb⟩, h.ongoing⟩

/-- Progress goes on. -/
theorem Clean.info (h : Clean b es) {p : ℕ} (hb : b ≤ p) (hp : 1 ≤ p) (message : String) :
    Clean p (es ++ [{ type := .info, message := message, progress := some p }]) := by
  refine ⟨?_, ?_, ?_⟩
  · rw [List.filterMap_append, List.pairwise_append]
    refine ⟨h.ordered, by simp, fun q hq q' hq' ↦ ?_⟩
    have hq' : q' = p := by simpa using hq'
    exact hq' ▸ (h.bounded q hq).2.trans hb
  · intro q hq
    rw [List.filterMap_append, List.mem_append] at hq
    rcases hq with hq | hq
    · exact ⟨(h.bounded q hq).1, (h.bounded q hq).2.trans hb⟩
    · obtain rfl : q = p := by simpa using hq
      exact ⟨hp, le_rfl⟩
  · intro e he
    rcases List.mem_append.1 he with he | he
    · exact h.ongoing e he
    · rw [List.mem_singleton.1 he]
      rfl

/-- An event without progress that completes nothing. -/
theorem Clean.silent (h : Clean b es) {e : Event} (hprogress : e.progress = none)
    (hongoing : isCompletion e = false) : Clean b (es ++ [e]) := by
  have hsame : (es ++ [e]).filterMap Event.progress = es.filterMap Event.progress := by
    simp [hprogress]
  refine ⟨hsame ▸ h.ordered, fun p hp ↦ h.bounded p (hsame ▸ hp), fun e' he' ↦ ?_⟩
  rcases List.mem_append.1 he' with he' | he'
  · exact h.ongoing e' he'
  · rw [List.mem_singleton.1 he', hongoing]

theorem Clean.law (h : Clean 75 es) : SpawnLaw es where
  ordered := h.ordered
  bounded := h.bounded
  last init e rest hes hcompletion := by
    have hongoing := h.ongoing e (by simp [hes])
    rw [hcompletion] at hongoing
    cases hongoing

/-- Before the last event there is no completion event. -/
theorem SpawnLaw.any_dropLast (h : SpawnLaw es) : es.dropLast.any isCompletion = false := by
  rw [Bool.eq_false_iff]
  intro hany
  obtain ⟨e, he, hcompletion⟩ := List.any_eq_true.1 hany
  obtain ⟨init, rest, hsplit⟩ := List.append_of_mem he
  have hes : es ≠ [] := by
    rintro rfl
    cases he
  have hwhole : es = init ++ e :: (rest ++ [es.getLast hes]) := by
    conv_lhs => rw [← List.dropLast_append_getLast hes, hsplit]
    simp
  exact absurd (h.last init e _ hwhole hcompletion) (by simp)

theorem Concluded.law (h : Concluded es) : SpawnLaw es := by
  obtain ⟨init, e, rfl, hclean, -, hprogress⟩ := h
  have hsame : (init ++ [e]).filterMap Event.progress = init.filterMap Event.progress := by
    simp [hprogress]
  refine ⟨hsame ▸ hclean.ordered, fun p hp ↦ hclean.bounded p (hsame ▸ hp), ?_⟩
  intro init' e' rest hes hcompletion
  rcases List.eq_nil_or_concat rest with rfl | ⟨rest', e'', rfl⟩
  · rfl
  · -- a completion event before the last one would be among the first
    rw [List.concat_eq_append, ← List.cons_append, ← List.append_assoc] at hes
    have hinit := (List.append_inj' hes rfl).1
    have hongoing := hclean.ongoing e' (by simp [hinit])
    rw [hcompletion] at hongoing
    cases hongoing

/-- There is one completion event. -/
theorem Concluded.countP (h : Concluded es) : es.countP isCompletion = 1 := by
  obtain ⟨init, e, rfl, hclean, hcompletion, -⟩ := h
  have hnone : init.countP isCompletion = 0 := by
    rw [List.countP_eq_zero]
    intro e' he'
    rw [hclean.ongoing e' he']
    simp
  rw [List.countP_append, hnone, List.countP_singleton, if_pos hcompletion]

/-! ### Where a task stands -/

/-- Whether the helper has been started and has not ended. -/
def WatchPc.running : WatchPc → Bool
  | .absent | .ended _ => false
  | _ => true

namespace OpTask

variable {k : OpTask}

/-- How far progress may have come. -/
def reach (k : OpTask) : ℕ :=
  match k.pc with
  | .created => 0
  | .deletePod => 5
  | .deleteNamespace => 12
  | .readSecret .. | .readPullSecret | .buildLab | .createObjects => 20
  | .waitForPodStart | .joinWatch _ =>
    match k.watch with
    | .watching progress => progress
    | .reporting | .ended _ => 75
    | _ => 35
  | _ => 75

/-- Whether the pod is being awaited, or the helper joined. -/
def awaitsPod (k : OpTask) : Bool :=
  match k.pc with
  | .waitForPodStart | .joinWatch _ => true
  | _ => false

/-- Whether the outcome has been announced. -/
def announced (k : OpTask) : Bool :=
  match k.pc with
  | .publishFailure | .publishSuccess | .ended _ => true
  | _ => false

/-- **Where the task can be cancelled**: not after its outcome has been announced, and not where it is
about to go on regardless. It does so in the `finally` block of `_watch_lab_spawn`, unless a timeout is
being unwound there, and it will do so if that block raises the exception of a helper that has failed. -/
def interruptible (k : OpTask) : Bool :=
  match k.pc, k.watch with
  | .publishFailure, _ | .publishSuccess, _ | .ended _, _ => false
  | .joinWatch none, _ | .joinWatch (some (.error _)), _ => false
  | .waitForPodStart, .ended (some _) => false
  | _, _ => true

/-- **When a step of the helper is timely**: it relays nothing, and does not fail, once its task has
been cancelled and is only waiting to be run. -/
def timely (k : OpTask) : WatchReply → Bool
  | .podEvent _ | .failed _ => !(k.throwCancel && k.pc = .waitForPodStart)
  | _ => true

/-- What is known of the helper: it runs only while the pod is awaited and while it is joined, and it is
joined only where it has been cancelled and has not failed. -/
structure Attended (k : OpTask) : Prop where
  progress : ∀ p, k.watch = .watching p → 35 ≤ p ∧ p ≤ 75
  joined : ∀ u, k.pc = .joinWatch u → k.watchCancel = true ∧ (∀ x, k.watch ≠ .ended (some x)) ∧
    (k.throwCancel = true → k.watch = .ended none)
  apart : k.watch = .absent ∨ (∃ x, k.watch = .ended x) ∨ k.pc = .waitForPodStart ∨
    ∃ u, k.pc = .joinWatch u

/-- The task has not been cancelled, and its outcome is open. -/
structure Underway (k : OpTask) : Prop where
  requested : k.cancelRequested = false
  throwCancel : k.throwCancel = false
  unwinding : k.pc ≠ .joinWatch (some .cancelled)
  open_ : k.announced = false

/-- The task puts no more events: its outcome has been announced, or it has been cancelled and will
not go on. -/
def Spent (k : OpTask) : Prop :=
  match k.pc with
  | .publishFailure | .publishSuccess | .ended _ => True
  | .joinWatch u => k.cancelRequested = true ∧ (u = some .cancelled ∨ u = some .timeout)
  | .waitForPodStart =>
    k.cancelRequested = true ∧ k.throwCancel = true ∧ ∀ x, k.watch ≠ .ended (some x)
  | _ => k.cancelRequested = true ∧ k.throwCancel = true

/-- Only `_spawn_lab` deletes a lab in the course of a spawn. -/
def Suits (k : OpTask) (body : CoroBody) : Prop :=
  k.pc = .deletePod ∨ k.pc = .deleteNamespace →
    ∃ user spec image deleteFirst, body = .spawnLab user spec image deleteFirst

/-- **The invariant** of a task, which runs a coroutine, and the events it has put. -/
structure Lawful (body : CoroBody) (k : OpTask) (es : List Event) : Prop where
  suits : k.Suits body
  attended : k.Attended
  stands : Clean k.reach es ∧ k.Underway ∨ Concluded es ∧ k.Spent

theorem Attended.reach_le (h : k.Attended) : k.reach ≤ 75 := by
  unfold reach
  split
  · omega
  · omega
  · omega
  · omega
  · omega
  · omega
  · omega
  · split
    · next p hp => exact (h.progress p hp).2
    all_goals omega
  · split
    · next p hp => exact (h.progress p hp).2
    all_goals omega
  · omega

/-- While the helper runs, the pod is awaited or the helper is joined. -/
theorem Attended.waits (h : k.Attended) (hrunning : k.watch.running = true) :
    k.pc = .waitForPodStart ∨ ∃ u, k.pc = .joinWatch u := by
  rcases h.apart with hwatch | ⟨x, hwatch⟩ | hwaits
  · rw [hwatch] at hrunning
    cases hrunning
  · rw [hwatch] at hrunning
    cases hrunning
  · exact hwaits

/-- What the helper is doing says how far progress may have come. -/
theorem reach_watch (hwaits : k.pc = .waitForPodStart ∨ ∃ u, k.pc = .joinWatch u) (w : WatchPc) :
    { k with watch := w }.reach = match w with
      | .watching progress => progress
      | .reporting | .ended _ => 75
      | _ => 35 := by
  rcases hwaits with hpc | ⟨u, hpc⟩ <;> simp only [reach, hpc]

@[simp] theorem watch_cancel (k : OpTask) : k.cancel.watch = k.watch := by
  unfold cancel
  split <;> rfl

@[simp] theorem watchCancel_cancel (k : OpTask) : k.cancel.watchCancel = k.watchCancel := by
  unfold cancel
  split <;> rfl

@[simp] theorem cancelRequested_cancel (k : OpTask) : k.cancel.cancelRequested = true := by
  unfold cancel
  split <;> rfl

/-- A task that joins its helper does not get the cancellation if the helper does. -/
theorem throwCancel_cancel (k : OpTask) : k.cancel.throwCancel = true ∨
    (∃ u, k.pc = .joinWatch u) ∧ (∀ x, k.watch ≠ .ended x) ∧ k.cancel.throwCancel = k.throwCancel := by
  unfold cancel
  split
  · exact Or.inl rfl
  · next hpc hwatch => exact Or.inr ⟨⟨_, hpc⟩, hwatch, rfl⟩
  · exact Or.inl rfl

end OpTask

/-! ### The blocks of a task -/

namespace OpFrame

variable {c : OpContext} {f f' : OpFrame} {past : List Event} {b : ℕ}

/-- The invariant of a task in the middle of a step: `past` are the events of earlier steps. -/
def Lawful (c : OpContext) (past : List Event) (f : OpFrame) : Prop :=
  f.task.Lawful c.coro.body (past ++ f.events)

/-- A task in the middle of a step, while its helper is not running. -/
structure Ready (b : ℕ) (past : List Event) (f : OpFrame) : Prop where
  clean : Clean b (past ++ f.events)
  requested : f.task.cancelRequested = false
  throwCancel : f.task.throwCancel = false
  apart : f.task.watch = .absent ∨ ∃ x, f.task.watch = .ended x

theorem Ready.info (h : Ready b past f) {p : ℕ} (hb : b ≤ p) (hp : 1 ≤ p) (message : String) :
    Ready p past (f.info message p) := by
  refine ⟨?_, h.requested, h.throwCancel, h.apart⟩
  show Clean p (past ++ (f.events ++ _))
  rw [← List.append_assoc]
  exact h.clean.info hb hp message

/-- The task goes on to another program point. -/
theorem Ready.goto (h : Ready b past f) {pc : OpPc} (hreach : b ≤ { f.task with pc := pc }.reach)
    (hopen : { f.task with pc := pc }.announced = false) (hjoin : ∀ u, pc ≠ .joinWatch u)
    (hsuits : { f.task with pc := pc }.Suits c.coro.body) : Lawful c past (f.goto pc) := by
  refine ⟨hsuits, ⟨fun p hp ↦ ?_, fun u hu ↦ absurd hu (hjoin u), ?_⟩,
    Or.inl ⟨h.clean.mono hreach, h.requested, h.throwCancel, hjoin _, hopen⟩⟩
  · replace hp : f.task.watch = .watching p := hp
    rcases h.apart with hwatch | ⟨x, hwatch⟩ <;> rw [hwatch] at hp <;> cases hp
  · exact h.apart.imp_right Or.inl

/-- The outcome is announced, and what follows puts nothing. -/
theorem Ready.announce (h : Ready b past f) (hb : b ≤ 75) {e : Event}
    (hcompletion : isCompletion e = true) (hprogress : e.progress = none) {q : OpPc}
    (hannounced : { f.task with pc := q }.announced = true) {g : OpFrame} (hevents : g.events = f.events ++ [e]) (htask : g.task = { f.task with pc := q }) :
    Lawful c past g := by
  have hspent : g.task.Spent := by
    rw [htask]
    cases q with
    | publishFailure | publishSuccess | ended => trivial
    | _ => cases hannounced
  refine ⟨fun hdelete ↦ ?_, ⟨fun p hp ↦ ?_, fun u hu ↦ ?_, ?_⟩, Or.inr ⟨?_, hspent⟩⟩
  · rw [htask] at hdelete
    rcases hdelete with hpc | hpc <;> replace hpc : q = _ := hpc <;> rw [hpc] at hannounced <;>
      cases hannounced
  · rw [htask] at hp
    replace hp : f.task.watch = .watching p := hp
    rcases h.apart with hwatch | ⟨x, hwatch⟩ <;> rw [hwatch] at hp <;> cases hp
  · rw [htask] at hu
    replace hu : q = .joinWatch u := hu
    rw [hu] at hannounced
    cases hannounced
  · rw [htask]
    exact h.apart.imp_right Or.inl
  · exact ⟨past ++ f.events, e, by rw [hevents, List.append_assoc], h.clean.mono hb, hcompletion,
      hprogress⟩

theorem Ready.unwind (h : Ready b past f) (hb : b ≤ 75) {x : Thrown} (hx : x ≠ .cancelled) :
    Lawful c past (f.unwind c x) := by
  fun_cases OpFrame.unwind c f x
  · exact h.goto hb rfl (by simp) (by simp [OpTask.Suits])
  · exact h.goto hb rfl (by simp) (by simp [OpTask.Suits])
  · next hrequested =>
    rw [h.requested] at hrequested
    cases hrequested
  · exact h.goto hb rfl (by simp) (by simp [OpTask.Suits])
  · exact absurd rfl hx

theorem Ready.podStarted (h : Ready b past f) (hb : b ≤ 75) : Lawful c past (f.podStarted c) := by
  unfold OpFrame.podStarted OpFrame.succeed
  split
  · exact h.announce hb (e := ⟨.complete, _, none⟩) rfl rfl (q := .publishSuccess) rfl rfl rfl
  · exact h.announce hb (e := ⟨.complete, _, none⟩) rfl rfl (q := .ended .returned) rfl rfl rfl

theorem Ready.recordFailure (h : Ready b past f) (hb : b ≤ 75) (x : LabException) :
    Lawful c past (f.recordFailure c x) := by
  have herror : Ready b past (f.put .error x.text) := by
    refine ⟨?_, h.requested, h.throwCancel, h.apart⟩
    show Clean b (past ++ (f.events ++ _))
    rw [← List.append_assoc]
    exact h.clean.silent rfl rfl
  unfold OpFrame.recordFailure
  dsimp only
  split
  · exact herror.announce hb (e := ⟨.failed, _, none⟩) rfl rfl (q := .publishFailure) rfl rfl rfl
  · exact herror.announce hb (e := ⟨.failed, _, none⟩) rfl rfl (q := .ended .returned) rfl rfl rfl

theorem Ready.afterJoin (h : Ready b past f) (hb : b ≤ 75) {u : Option Thrown}
    (hu : u ≠ some .cancelled) : Lawful c past (f.afterJoin c u) := by
  cases u with
  | none => exact h.podStarted hb
  | some x => exact h.unwind hb fun hx ↦ hu (by rw [hx])

theorem Ready.joined (h : Ready b past f) (hb : b ≤ 75) {u : Option Thrown}
    (hu : u ≠ some .cancelled) : Lawful c past (f.joined c u) := by
  unfold OpFrame.joined
  split
  · exact h.unwind hb nofun
  · exact h.afterJoin hb hu

theorem Ready.beginWatch (h : Ready b past f) (hb : b ≤ 35) : Lawful c past f.beginWatch := by
  refine ⟨by simp [OpTask.Suits, OpFrame.beginWatch], ⟨nofun, nofun, Or.inr (Or.inr (Or.inl rfl))⟩,
    Or.inl ⟨h.clean.mono hb, h.requested, h.throwCancel, nofun, rfl⟩⟩

theorem Ready.beginBuild (h : Ready b past f) (hb : b ≤ 20) : Lawful c past f.beginBuild :=
  (⟨h.clean, h.requested, h.throwCancel, h.apart⟩ : Ready b past (f.setStatus .pending)).goto hb rfl
    nofun (by simp [OpTask.Suits])

theorem Ready.afterSecrets (h : Ready b past f) (hb : b ≤ 20) (data : List (String × List String)) :
    Lawful c past (f.afterSecrets c data) := by
  unfold OpFrame.afterSecrets
  split
  · exact h.unwind (by omega) nofun
  · split
    · exact h.goto hb rfl nofun (by simp [OpTask.Suits])
    · exact h.beginBuild hb

theorem Ready.gatherSecrets (h : Ready b past f) (hb : b ≤ 20) : Lawful c past (f.gatherSecrets c) := by
  unfold OpFrame.gatherSecrets
  split
  · exact h.afterSecrets hb _
  · exact h.goto hb rfl nofun (by simp [OpTask.Suits])

theorem Ready.afterBuild (h : Ready b past f) (hb : b ≤ 20) (spec : LabSpecification) :
    Lawful c past (f.afterBuild c spec) := by
  unfold OpFrame.afterBuild
  split
  · exact h.goto hb rfl nofun (by simp [OpTask.Suits])
  · exact h.unwind (by omega) nofun

theorem Ready.afterCreate (h : Ready b past f) (hb : b ≤ 30) (spec : LabSpecification) :
    Lawful c past (f.afterCreate c spec) := by
  have hinfo := h.info hb (by omega) "Created Kubernetes objects for user lab"
  exact (⟨hinfo.clean, hinfo.requested, hinfo.throwCancel, hinfo.apart⟩ : Ready 30 past
    { f.info "Created Kubernetes objects for user lab" 30 with state := _ }).beginWatch (by omega)

/-! ### Deleting a lab first -/

section Deleting

variable {user : GafaelfawrUser} {spec : LabSpecification} {image : RSPImage} {deleteFirst : Bool}
  (hbody : c.coro.body = .spawnLab user spec image deleteFirst)

include hbody

theorem Ready.beginDelete (h : Ready b past f) (hb : b ≤ 5) : Lawful c past (f.beginDelete c) := by
  have hprogress : c.deleteProgress = (5, 20) := by
    unfold OpContext.deleteProgress
    rw [hbody]
  unfold OpFrame.beginDelete
  rw [hprogress]
  exact (h.info hb (by omega) _).goto le_rfl rfl nofun fun _ ↦ ⟨_, _, _, _, hbody⟩

theorem Ready.afterPod (h : Ready b past f) (hb : b ≤ 5) : Lawful c past (f.afterPod c) := by
  have hprogress : c.deleteProgress = (5, 20) := by
    unfold OpContext.deleteProgress
    rw [hbody]
  unfold OpFrame.afterPod
  rw [hprogress]
  exact (h.info (by omega : b ≤ 12) (by omega) _).goto le_rfl rfl nofun fun _ ↦ ⟨_, _, _, _, hbody⟩

theorem Ready.afterNamespace (h : Ready b past f) (hb : b ≤ 12) :
    Lawful c past (f.afterNamespace c) := by
  have hprogress : c.deleteProgress = (5, 20) := by
    unfold OpContext.deleteProgress
    rw [hbody]
  have hinfo := h.info (by omega : b ≤ 20) (by omega) ("Lab for " ++ c.username ++ " deleted")
  unfold OpFrame.afterNamespace
  rw [hprogress, hbody]
  exact (⟨hinfo.clean, hinfo.requested, hinfo.throwCancel, hinfo.apart⟩ : Ready 20 past
    ((f.info ("Lab for " ++ c.username ++ " deleted") 20).setStatus .terminated)).gatherSecrets le_rfl

end Deleting

/-- The first step of a spawn. -/
theorem Ready.beginBody (h : Ready b past f) (hb : b ≤ 0) (hbody : c.coro.body ≠ .deleteLab) :
    Lawful c past (f.beginBody c) := by
  unfold OpFrame.beginBody
  split
  · next user spec image deleteFirst hspawn =>
    have hfirst := h.info (by omega : b ≤ 1) le_rfl ("Starting lab creation for " ++ c.username)
    dsimp only
    split
    · exact (hfirst.info (by omega : 1 ≤ 2) (by omega) _).beginDelete hspawn (by omega)
    · exact hfirst.gatherSecrets (by omega)
  · exact h.beginWatch (by omega)
  · next hdelete => exact absurd hdelete hbody

/-! ### Steps -/

/-- A task whose outcome is open, with its helper not running. -/
theorem Lawful.ready (h : Lawful c past f) (hopen : f.task.Underway)
    (hclean : Clean f.task.reach (past ++ f.events)) (hpc : f.task.awaitsPod = false) :
    Ready f.task.reach past f := by
  refine ⟨hclean, hopen.requested, hopen.throwCancel, ?_⟩
  rcases h.attended.apart with hwatch | hwatch | hwait | ⟨u, hjoin⟩
  · exact Or.inl hwatch
  · exact Or.inr hwatch
  · simp [OpTask.awaitsPod, hwait] at hpc
  · simp [OpTask.awaitsPod, hjoin] at hpc

/-- The pod has been awaited: the helper is joined. -/
theorem Lawful.beginJoin (h : Lawful c past f) (hopen : f.task.Underway)
    (hclean : Clean f.task.reach (past ++ f.events)) (hpc : f.task.pc = .waitForPodStart)
    {u : Option Thrown} (hu : u ≠ some .cancelled) : Lawful c past (f.beginJoin c u) := by
  have hle := h.attended.reach_le
  unfold OpFrame.beginJoin
  split
  · next x hwatch =>
    exact (⟨hclean, hopen.requested, hopen.throwCancel, Or.inr ⟨x, hwatch⟩⟩ : Ready _ past f).joined
      hle hu
  · next hwatch =>
    refine ⟨by simp [OpTask.Suits], ⟨h.attended.progress, ?_, Or.inr (Or.inr (Or.inr ⟨u, rfl⟩))⟩,
      Or.inl ⟨?_, hopen.requested, hopen.throwCancel, ?_, rfl⟩⟩
    · refine fun _ _ ↦ ⟨rfl, fun x hx ↦ hwatch _ hx, fun hthrow ↦ ?_⟩
      replace hthrow : f.task.throwCancel = true := hthrow
      rw [hopen.throwCancel] at hthrow
      cases hthrow
    · have hreach : f.task.reach =
          { f.task with pc := .joinWatch u, watchCancel := true }.reach := by
        unfold OpTask.reach
        rw [hpc]
      rw [← hreach]
      exact hclean
    · exact fun hjoin ↦ hu (OpPc.joinWatch.inj hjoin)

/-- **A task whose outcome is open** goes on lawfully. -/
theorem lawful_resumed {r : OpReply} (h : Lawful c past f) (hbody : c.coro.body ≠ .deleteLab)
    (hopen : f.task.Underway) (hclean : Clean f.task.reach (past ++ f.events))
    (hf : f.resumed c r = some f') : Lawful c past f' := by
  have hle := h.attended.reach_le
  -- except where the pod is awaited, the helper is not running
  have hready : ∀ {pc : OpPc}, f.task.pc = pc → { f.task with pc := pc }.awaitsPod = false →
      Ready f.task.reach past f := by
    rintro pc rfl hpc
    exact h.ready hopen hclean hpc
  have hreach : ∀ {pc : OpPc} {b : ℕ}, f.task.pc = pc → { f.task with pc := pc }.reach = b →
      f.task.reach ≤ b := by
    rintro pc b rfl hb
    exact hb.le
  have hpublished : ∀ {pc : OpPc}, f.task.pc = pc → { f.task with pc := pc }.announced = true →
      Lawful c past f' := by
    rintro pc rfl hannounced
    rw [hopen.open_] at hannounced
    cases hannounced
  revert hf
  fun_cases resumed c f r
  all_goals
    intro hf
    first | (cases hf; done) | obtain rfl := Option.some.inj hf
  case case1 hpc _ => exact (hready hpc rfl).unwind hle (by simp)
  case case2 hpc _ => exact (hready hpc rfl).beginBody (hreach hpc rfl) hbody
  case case4 hpc => exact h.beginJoin hopen hclean hpc (by simp)
  case case5 x hpc => exact h.beginJoin hopen hclean hpc (by simp)
  case case6 hpc => exact h.beginJoin hopen hclean hpc (by simp)
  case case7 u hpc x hwatch =>
    refine (⟨hclean, hopen.requested, hopen.throwCancel, Or.inr ⟨x, hwatch⟩⟩ : Ready _ past f).joined
      hle fun hu ↦ hopen.unwinding ?_
    rw [hpc, hu]
  case case9 hpc =>
    obtain ⟨user, spec, image, deleteFirst, hspawn⟩ := h.suits (Or.inl hpc)
    exact (hready hpc rfl).afterPod hspawn (hreach hpc rfl)
  case case10 hpc =>
    obtain ⟨user, spec, image, deleteFirst, hspawn⟩ := h.suits (Or.inr hpc)
    exact (hready hpc rfl).afterNamespace hspawn (hreach hpc rfl)
  case case11 hpc => exact (hready hpc rfl).afterSecrets (hreach hpc rfl) _
  case case12 hpc =>
    exact (hready hpc rfl).goto (hreach hpc rfl) rfl (by simp) (by simp [OpTask.Suits])
  case case13 hpc => exact (hready hpc rfl).beginBuild (hreach hpc rfl)
  case case14 hpc _ spec _ _ _ => exact (hready hpc rfl).afterBuild (hreach hpc rfl) spec
  case case16 hpc _ spec _ _ _ =>
    have hle20 : f.task.reach ≤ 20 := hreach hpc rfl
    exact (hready hpc rfl).afterCreate (by omega) spec
  case case18 x hpc => exact (hready hpc rfl).recordFailure hle x
  all_goals first
    | next hpc => exact hpublished hpc rfl
    | next hpc => exact (hready hpc rfl).unwind hle (by simp)

/-- What a task does that puts no more events. -/
structure Quiet (c : OpContext) (f f' : OpFrame) : Prop where
  events : f'.events = f.events
  suits : f'.task.Suits c.coro.body
  attended : f'.task.Attended
  spent : f'.task.Spent

theorem quiet_ended (hwatch : f.task.watch = .absent ∨ ∃ x, f.task.watch = .ended x)
    (r : TaskOutcome) : Quiet c f (f.goto (.ended r)) := by
  refine ⟨rfl, by simp [OpTask.Suits, OpFrame.goto], ⟨fun p hp ↦ ?_, nofun, hwatch.imp_right Or.inl⟩,
    trivial⟩
  replace hp : f.task.watch = .watching p := hp
  rcases hwatch with hwatch | ⟨x, hwatch⟩ <;> rw [hwatch] at hp <;> cases hp

/-- A cancelled task ends, also where it was being unwound for a timeout. -/
theorem quiet_afterJoin (hwatch : ∃ x, f.task.watch = .ended x)
    (hrequested : f.task.cancelRequested = true) {u : Option Thrown}
    (hu : u = some .cancelled ∨ u = some .timeout) : Quiet c f (f.afterJoin c u) := by
  have hend : f.afterJoin c u = f.goto (.ended .cancelled) := by
    rcases hu with rfl | rfl
    · rfl
    · exact if_pos hrequested
  rw [hend]
  exact quiet_ended (Or.inr hwatch) _

theorem quiet_joined (hwatch : f.task.watch = .ended none)
    (hrequested : f.task.cancelRequested = true) {u : Option Thrown}
    (hu : u = some .cancelled ∨ u = some .timeout) : Quiet c f (f.joined c u) := by
  unfold OpFrame.joined
  rw [hwatch]
  exact quiet_afterJoin ⟨none, hwatch⟩ hrequested hu

/-- The cancellation reaches a task that awaits its pod. -/
theorem quiet_beginJoin (hattended : f.task.Attended) (hfailed : ∀ x, f.task.watch ≠ .ended (some x))
    (hrequested : f.task.cancelRequested = true) (hthrow : f.task.throwCancel = false) :
    Quiet c f (f.beginJoin c (some .cancelled)) := by
  unfold OpFrame.beginJoin
  split
  · next x hwatch =>
    rcases x with _ | x
    · exact quiet_joined hwatch hrequested (Or.inl rfl)
    · exact absurd hwatch (hfailed x)
  · refine ⟨rfl, by simp [OpTask.Suits], ⟨hattended.progress, fun _ _ ↦ ⟨rfl, hfailed, ?_⟩,
      Or.inr (Or.inr (Or.inr ⟨_, rfl⟩))⟩, hrequested, Or.inl rfl⟩
    intro hthrow'
    replace hthrow' : f.task.throwCancel = true := hthrow'
    rw [hthrow] at hthrow'
    cases hthrow'

/-- Publishing the outcome is the last thing a task does. -/
theorem resumed_of_announced {r : OpReply} (h : f.task.announced = true)
    (hf : f.resumed c r = some f') : ∃ x, f' = f.goto (.ended x) := by
  unfold OpTask.announced at h
  split at h
  · next hpc =>
    cases r <;> simp only [resumed, hpc] at hf <;> first
      | cases hf; done
      | exact ⟨_, (Option.some.inj hf).symm⟩
  · next hpc =>
    cases r <;> simp only [resumed, hpc] at hf <;> first
      | cases hf; done
      | exact ⟨_, (Option.some.inj hf).symm⟩
  · next hpc => simp [resumed, hpc] at hf
  · cases h

/-- A task that joins its helper waits for the helper to end. -/
theorem resumed_of_joinWatch {r : OpReply} {u : Option Thrown} (hpc : f.task.pc = .joinWatch u)
    (hf : f.resumed c r = some f') : ∃ x, f.task.watch = .ended x ∧ f' = f.joined c u := by
  cases r with
  | go =>
    simp only [resumed, hpc] at hf
    split at hf
    · next x hwatch => exact ⟨x, hwatch, (Option.some.inj hf).symm⟩
    · cases hf
  | _ =>
    simp only [resumed, hpc] at hf
    cases hf

/-- **A task that puts no more events** goes on without one. -/
theorem quiet_opBlock {r : OpReply} (hattended : f.task.Attended) (hspent : f.task.Spent)
    (hf : f.opBlock c r = some f') : Quiet c f f' := by
  have hapart : f.task.awaitsPod = false → f.task.watch = .absent ∨ ∃ x, f.task.watch = .ended x := by
    intro hpc
    rcases hattended.apart with hwatch | hwatch | hwait | ⟨u, hjoin⟩
    · exact Or.inl hwatch
    · exact Or.inr hwatch
    · simp [OpTask.awaitsPod, hwait] at hpc
    · simp [OpTask.awaitsPod, hjoin] at hpc
  unfold opBlock at hf
  split at hf
  · next hthrow =>
    revert hf
    fun_cases cancelled c f
    all_goals
      intro hf
      first | (cases hf; done) | obtain rfl := Option.some.inj hf
    · next g hpc =>
      replace hpc : f.task.pc = .waitForPodStart := hpc
      obtain ⟨hrequested, -, hfailed⟩ : f.task.cancelRequested = true ∧ f.task.throwCancel = true ∧
          ∀ x, f.task.watch ≠ .ended (some x) := by
        simpa only [OpTask.Spent, hpc] using hspent
      have hquiet : Quiet c g (g.beginJoin c (some .cancelled)) :=
        quiet_beginJoin ⟨hattended.progress, fun u hu ↦ absurd (hpc.symm.trans hu) (by simp),
          hattended.apart⟩ hfailed hrequested rfl
      exact ⟨hquiet.events, hquiet.suits, hquiet.attended, hquiet.spent⟩
    · next g u hpc =>
      replace hpc : f.task.pc = .joinWatch u := hpc
      obtain ⟨hrequested, hu⟩ : f.task.cancelRequested = true ∧
          (u = some .cancelled ∨ u = some .timeout) := by
        simpa only [OpTask.Spent, hpc] using hspent
      have hquiet : Quiet c g (g.afterJoin c u) :=
        quiet_afterJoin (f := g) ⟨none, (hattended.joined u hpc).2.2 hthrow⟩ hrequested hu
      exact ⟨hquiet.events, hquiet.suits, hquiet.attended, hquiet.spent⟩
    · next g hended hwait hjoin =>
      have hpc : f.task.awaitsPod = false := by
        unfold OpTask.awaitsPod
        split
        · next hpc => exact absurd hpc hwait
        · next hpc => exact absurd hpc (hjoin _)
        · rfl
      have hquiet : Quiet c g (g.goto (.ended .cancelled)) := quiet_ended (f := g) (hapart hpc) _
      exact ⟨hquiet.events, hquiet.suits, hquiet.attended, hquiet.spent⟩
  · next hthrow =>
    -- only the publication of the outcome and the `finally` block are left
    have hwaits : f.task.announced = true ∨ ∃ u, f.task.pc = .joinWatch u := by
      unfold OpTask.Spent at hspent
      unfold OpTask.announced
      split at hspent <;> simp_all
    rcases hwaits with hannounced | ⟨u, hpc⟩
    · have hpc : f.task.awaitsPod = false := by
        unfold OpTask.announced at hannounced
        unfold OpTask.awaitsPod
        split at hannounced <;> simp_all
      obtain ⟨x, rfl⟩ := resumed_of_announced hannounced hf
      exact quiet_ended (hapart hpc) x
    · obtain ⟨hrequested, hu⟩ : f.task.cancelRequested = true ∧
          (u = some .cancelled ∨ u = some .timeout) := by
        simpa only [OpTask.Spent, hpc] using hspent
      obtain ⟨x, hwatch, rfl⟩ := resumed_of_joinWatch hpc hf
      rcases x with _ | x
      · exact quiet_joined hwatch hrequested hu
      · exact absurd hwatch ((hattended.joined u hpc).2.1 x)

/-- **A step of the task** keeps the invariant. -/
theorem Lawful.opBlock {r : OpReply} (h : Lawful c past f) (hbody : c.coro.body ≠ .deleteLab)
    (hf : f.opBlock c r = some f') : Lawful c past f' := by
  rcases h.stands with ⟨hclean, hopen⟩ | ⟨hconcluded, hspent⟩
  · unfold OpFrame.opBlock at hf
    rw [hopen.throwCancel, if_neg (by simp)] at hf
    exact lawful_resumed h hbody hopen hclean hf
  · have hquiet := quiet_opBlock h.attended hspent hf
    refine ⟨hquiet.suits, hquiet.attended, Or.inr ⟨?_, hquiet.spent⟩⟩
    rw [hquiet.events]
    exact hconcluded

/-- The helper moves on without putting an event. -/
theorem Lawful.watch (h : Lawful c past f) {w : WatchPc}
    (hrunning : f.task.watch.running = true)
    (hprogress : ∀ p, w = .watching p → 35 ≤ p ∧ p ≤ 75)
    (hfailed : f.task.watchCancel = true → ∀ x, w ≠ .ended (some x))
    (hspent : f.task.throwCancel = true → f.task.pc = .waitForPodStart → ∀ x, w ≠ .ended (some x))
    (hreach : f.task.reach ≤ { f.task with watch := w }.reach) :
    Lawful c past { f with task := { f.task with watch := w } } := by
  have hwaits := h.attended.waits hrunning
  refine ⟨h.suits, ⟨hprogress, fun u hu ↦ ?_, Or.inr (Or.inr hwaits)⟩, ?_⟩
  · obtain ⟨hcancel, -, hthrown⟩ := h.attended.joined u hu
    refine ⟨hcancel, hfailed hcancel, fun hthrow ↦ ?_⟩
    rw [hthrown hthrow] at hrunning
    cases hrunning
  · rcases h.stands with ⟨hclean, hopen⟩ | ⟨hconcluded, hold⟩
    · exact Or.inl ⟨hclean.mono hreach, hopen.requested, hopen.throwCancel, hopen.unwinding, hopen.open_⟩
    · refine Or.inr ⟨hconcluded, ?_⟩
      rcases hwaits with hpc | ⟨u, hpc⟩
      · simp only [OpTask.Spent, hpc] at hold ⊢
        exact ⟨hold.1, hold.2.1, hspent hold.2.1 hpc⟩
      · simp only [OpTask.Spent, hpc] at hold ⊢
        exact hold

/-- **A timely step of the helper** keeps the invariant. -/
theorem Lawful.watchBlock {r : WatchReply} (h : Lawful c past f) (htimely : f.task.timely r = true)
    (hf : f.watchBlock r = some f') : Lawful c past f' := by
  have hrunning : ∀ {w : WatchPc}, f.task.watch = w → w.running = true →
      f.task.watch.running = true := by
    rintro w rfl hw
    exact hw
  have hreach : ∀ {w : WatchPc}, f.task.watch = w → f.task.reach = { f.task with watch := w }.reach := by
    rintro w rfl
    rfl
  -- the helper ends
  have hends : ∀ {w : WatchPc}, f.task.watch = w → w.running = true →
      Lawful c past { f with task := { f.task with watch := .ended none } } := by
    intro w hwatch hw
    refine h.watch (hrunning hwatch hw) (by simp) (fun _ ↦ by simp) (fun _ _ ↦ by simp) ?_
    rw [OpTask.reach_watch (h.attended.waits (hrunning hwatch hw)) (.ended none)]
    exact h.attended.reach_le
  revert hf
  fun_cases OpFrame.watchBlock f r
  all_goals
    intro hf
    first | (cases hf; done) | obtain rfl := Option.some.inj hf
  case case4 hwatch hcancel =>
    have hwaits := h.attended.waits (hrunning hwatch rfl)
    refine h.watch (hrunning hwatch rfl) ?_ (fun _ ↦ by simp) (fun _ _ ↦ by simp) ?_
    · rintro _ ⟨⟩
      omega
    · rw [hreach hwatch, OpTask.reach_watch hwaits, OpTask.reach_watch hwaits]
  case case6 p hwatch hcancel message =>
    -- the only event of the helper
    have hwaits := h.attended.waits (hrunning hwatch rfl)
    have hp := h.attended.progress p hwatch
    have hpc : f.task.pc = .waitForPodStart := by
      rcases hwaits with hpc | ⟨u, hu⟩
      · exact hpc
      · exact absurd (h.attended.joined u hu).1 hcancel
    rcases h.stands with ⟨hclean, hopen⟩ | ⟨-, hspent⟩
    · refine ⟨h.suits, ⟨?_, fun u hu ↦ absurd (hpc.symm.trans hu) (by simp), Or.inr (Or.inr hwaits)⟩,
        Or.inl ⟨?_, hopen.requested, hopen.throwCancel, hopen.unwinding, hopen.open_⟩⟩
      · intro q hq
        have hq : p + (75 - p) / 3 = q := WatchPc.watching.inj hq
        omega
      · rw [hreach hwatch, OpTask.reach_watch hwaits] at hclean
        have hinfo := hclean.info le_rfl (by omega : 1 ≤ p) message
        rw [List.append_assoc] at hinfo
        refine hinfo.mono ?_
        show p ≤ { f.task with watch := .watching (p + (75 - p) / 3) }.reach
        rw [OpTask.reach_watch hwaits]
        exact Nat.le_add_right _ _
    · simp only [OpTask.Spent, hpc] at hspent
      simp [OpTask.timely, hspent.2.1, hpc] at htimely
  case case8 p hwatch hcancel =>
    refine h.watch (hrunning hwatch rfl) (by simp) (fun _ ↦ by simp) (fun _ _ ↦ by simp) ?_
    rw [OpTask.reach_watch (h.attended.waits (hrunning hwatch rfl)) .reporting]
    exact h.attended.reach_le
  case case9 p hwatch hcancel x =>
    refine h.watch (hrunning hwatch rfl) (by simp) (fun hcancel' ↦ absurd hcancel' hcancel) ?_ ?_
    · intro hthrow hpc
      simp [OpTask.timely, hthrow, hpc] at htimely
    · rw [OpTask.reach_watch (h.attended.waits (hrunning hwatch rfl)) (.ended (some x))]
      exact h.attended.reach_le
  case case3 hwatch _ => exact hends hwatch rfl
  case case5 hwatch _ => exact hends hwatch rfl
  case case7 hwatch _ => exact hends hwatch rfl
  case case11 hwatch => exact hends hwatch rfl
  case case12 hwatch _ => exact hends hwatch rfl

/-! ### Cancellation -/

/-- **A cancellation where the task is interruptible** keeps the invariant: it announces the outcome. -/
theorem Lawful.cancel (h : Lawful c past f) (hinterruptible : f.task.interruptible = true)
    (hrequested : f.task.cancelRequested = false) {e : Event} (hcompletion : isCompletion e = true)
    (hprogress : e.progress = none) :
    Lawful c past { f with task := f.task.cancel, events := f.events ++ [e] } := by
  have hopen : Clean f.task.reach (past ++ f.events) ∧ f.task.Underway := by
    rcases h.stands with hopen | ⟨-, hspent⟩
    · exact hopen
    · exfalso
      unfold OpTask.Spent at hspent
      unfold OpTask.interruptible at hinterruptible
      split at hspent <;> simp_all
  have hconcluded : Concluded (past ++ (f.events ++ [e])) :=
    ⟨past ++ f.events, e, (List.append_assoc _ _ _).symm, hopen.1.mono h.attended.reach_le, hcompletion,
      hprogress⟩
  refine ⟨?_, ⟨?_, ?_, ?_⟩, Or.inr ⟨hconcluded, ?_⟩⟩
  · rw [OpTask.Suits, OpTask.pc_cancel]
    exact h.suits
  · rw [OpTask.watch_cancel]
    exact h.attended.progress
  · rw [OpTask.pc_cancel, OpTask.watch_cancel, OpTask.watchCancel_cancel]
    intro u hu
    obtain ⟨hjoined, hfailed, -⟩ := h.attended.joined u hu
    refine ⟨hjoined, hfailed, fun hthrow ↦ ?_⟩
    rcases hended : f.task.watch with _ | _ | _ | _ | x
    case ended =>
      rcases x with _ | x
      · rfl
      · exact absurd hended (hfailed x)
    all_goals
      rw [OpTask.cancel, hu, hended] at hthrow
      replace hthrow : f.task.throwCancel = true := hthrow
      rw [hopen.2.throwCancel] at hthrow
      cases hthrow
  · rw [OpTask.watch_cancel, OpTask.pc_cancel]
    exact h.attended.apart
  · have hthrow : (∀ u, f.task.pc ≠ .joinWatch u) → f.task.cancel.throwCancel = true := fun hpc ↦
      f.task.throwCancel_cancel.resolve_right fun hjoin ↦ hpc _ hjoin.1.choose_spec
    unfold OpTask.Spent
    rw [OpTask.pc_cancel, OpTask.watch_cancel, OpTask.cancelRequested_cancel]
    split
    · trivial
    · trivial
    · trivial
    · next u hpc =>
      refine ⟨rfl, ?_⟩
      rcases u with _ | (x | _ | _)
      · simp [OpTask.interruptible, hpc] at hinterruptible
      · simp [OpTask.interruptible, hpc] at hinterruptible
      · exact Or.inr rfl
      · exact Or.inl rfl
    · next hpc =>
      refine ⟨rfl, hthrow (by simp [hpc]), fun x hx ↦ ?_⟩
      simp [OpTask.interruptible, hpc, hx] at hinterruptible
    · next hjoin _ => exact ⟨rfl, hthrow fun u hu ↦ hjoin u hu⟩

end OpFrame

/-! ### The events of an operation -/

namespace ManagerState

variable {config : LabConfig} {s s' : ManagerState} {l : Label} {o : ℕ}

/-- Whether the next step of call `t` cancels the task of operation `o`. -/
def aborts (s : ManagerState) (t o : ℕ) : Bool :=
  match (s.calls t).pc with
  | .method e (.inside (.critical (.cancel _))) _ =>
    (s.monitors e).operation = some o && !(s.ops o).task.ended
  | _ => false

/-- **What a step puts on the user's queue on behalf of operation `o`.** -/
def puts (config : LabConfig) (s : ManagerState) (o : ℕ) : Label → List Event
  | .call _ => []
  | .exec t _ => if s.aborts t o then [{ type := .failed, message := "Operation cancelled" }] else []
  | .op o' r =>
    if o' = o then ((s.opFrame o).opBlock (s.opContext config o) r).elim [] OpFrame.events else []
  | .watch o' r => if o' = o then ((s.opFrame o).watchBlock r).elim [] OpFrame.events else []

/-- **When a step is timely** for operation `o`: it cancels the task only where that is interruptible,
and the helper relays nothing once the task has been cancelled. -/
def Timely (s : ManagerState) (o : ℕ) : Label → Prop
  | .exec t _ => s.aborts t o = true → (s.ops o).task.interruptible = true
  | .watch o' r => o' = o → (s.ops o).task.timely r = true
  | _ => True

instance (s : ManagerState) (o : ℕ) (l : Label) : Decidable (s.Timely o l) := by
  unfold Timely
  split <;> infer_instance

/-- What a step does to an operation that has been started. -/
inductive TaskMove (config : LabConfig) (s s' : ManagerState) (o : ℕ) : Label → Prop
  | same {l : Label} : (s'.ops o).task = (s.ops o).task → s.puts config o l = [] →
      TaskMove config s s' o l
  | op {r : OpReply} {f : OpFrame} : (s.opFrame o).opBlock (s.opContext config o) r = some f →
      (s'.ops o).task = f.task → TaskMove config s s' o (.op o r)
  | watch {r : WatchReply} {f : OpFrame} : (s.opFrame o).watchBlock r = some f →
      (s'.ops o).task = f.task → TaskMove config s s' o (.watch o r)
  | cancel {t : ℕ} {r : Reply} : s.aborts t o = true → (s.ops o).task.cancelRequested = false →
      (s'.ops o).task = (s.ops o).task.cancel → TaskMove config s s' o (.exec t r)

theorem aborts_eq_true {t : ℕ} : s.aborts t o = true ↔ ∃ e seen k,
    (s.calls t).pc = .method e (.inside (.critical (.cancel seen))) k ∧
      (s.monitors e).operation = some o ∧ (s.ops o).task.ended = false := by
  constructor
  · intro h
    unfold aborts at h
    split at h
    · next e seen k hpc =>
      obtain ⟨hrecord, hended⟩ : (s.monitors e).operation = some o ∧ (s.ops o).task.ended = false := by
        simpa using h
      exact ⟨e, seen, k, hpc, hrecord, hended⟩
    · cases h
  · rintro ⟨e, seen, k, hpc, hrecord, hended⟩
    simp [aborts, hpc, hrecord, hended]

theorem aborts_of_caller {t : ℕ} {p : CallerPc} (hpc : (s.calls t).pc = .caller p) (o : ℕ) :
    s.aborts t o = false := by
  rw [aborts, hpc]

theorem puts_of_not_aborts {t : ℕ} {r : Reply} (h : s.aborts t o = false) :
    s.puts config o (.exec t r) = [] := by
  simp [puts, h]

/-- Nobody cancels an operation that has been cancelled before. -/
theorem not_requested_of_holder {t e : ℕ} {seen : Option ℕ} (hsound : Sound s)
    (hcancellation : Cancellation s) {k : Frame} (ht : t < s.calls.size)
    (hpc : (s.calls t).pc = .method e (.inside (.critical (.cancel seen))) k)
    (hrecord : (s.monitors e).operation = some o) : (s.ops o).task.cancelRequested = false := by
  by_contra hrequested
  obtain ⟨u, hu, seen', k', hcancels⟩ := hcancellation.held e o hrecord (by simpa using hrequested)
  have hat : (s.slot e).pc u = some (.awaitTask (.cancel seen') o) ∨
      (s.slot e).pc u = some (.report (.cancel seen') o) :=
    hcancels.imp (pc_slot hu) (pc_slot hu)
  have hholder := (hsound.safe e).holder_of_awaitTask hat
  have hholder' := (hsound.safe e).holder_of_critical (pc_slot ht hpc)
  obtain rfl : t = u := congrArg Prod.fst (Option.some.inj (hholder'.symm.trans hholder))
  rcases hcancels with hcancels | hcancels <;> rw [hpc] at hcancels <;> cases hcancels

/-- **Every step makes one of these moves.** -/
theorem taskMove_of_step (hsound : Sound s) (hcancellation : Cancellation s)
    (hs : s.step config l = some s') (ho : o < s.ops.size) : TaskMove config s s' o l := by
  cases move_of_step hs with
  | call => exact .same rfl rfl
  | block _ hpc =>
    exact .same (by simp) (puts_of_not_aborts (aborts_of_caller hpc o))
  | acquire _ hpc => exact .same (by simp) (puts_of_not_aborts (by simp [aborts, hpc]))
  | resume _ hpc => exact .same (by simp) (puts_of_not_aborts (by simp [aborts, hpc]))
  | @method t e p k r a hturn hpc ha =>
    cases methodMove_of_eq_some ha with
    | started =>
      refine .same ?_ (puts_of_not_aborts (by simp [aborts, hpc]))
      simp [Heap.alloc_of_lt _ _ ho]
    | @aborting seen o' ho' =>
      rcases eq_or_ne o o' with rfl | hne
      · rcases hended : (s.ops o).task.ended with _ | _
        · refine .cancel (by simp [aborts, hpc, ho', hended])
            (not_requested_of_holder hsound hcancellation hturn.2 hpc ho') ?_
          rw [ops_tick, ops_inside, cancelTask, if_neg (by simp [hended])]
          simp
        · refine .same ?_ (puts_of_not_aborts (by simp [aborts, hended, hpc]))
          rw [ops_tick, ops_inside, cancelTask, if_pos hended]
      · refine .same ?_ (puts_of_not_aborts ?_)
        · rw [ops_tick, ops_inside, ops_cancelTask_of_ne _ _ hne]
        · have hne' : o' ≠ o := hne.symm
          simp [aborts, hpc, ho', hne']
    | idle hnone => exact .same rfl (puts_of_not_aborts (by simp [aborts, hpc, hnone]))
    | woken => exact .same (by simp) (puts_of_not_aborts (by simp [aborts, hpc]))
    | _ => exact .same rfl (puts_of_not_aborts (by simp [aborts, hpc]))
  | @op o' r f hrun ho' hf =>
    rcases eq_or_ne o' o with rfl | hne
    · exact .op hf (by rw [ops_tick, task_afterOp, if_pos rfl])
    · exact .same (by rw [ops_tick, task_afterOp, if_neg hne.symm]) (by simp [puts, hne])
  | @watch o' r f hrun ho' hf =>
    rcases eq_or_ne o' o with rfl | hne
    · exact .watch hf (by simp [applyFrame])
    · exact .same (by simp [applyFrame, hne.symm]) (by simp [puts, hne])

/-- A new operation has a fresh task. -/
theorem task_of_new (hs : s.step config l = some s') (ho : ¬ o < s.ops.size) (ho' : o < s'.ops.size) :
    (s'.ops o).task = {} := by
  have hgrows : s'.ops.size ≠ s.ops.size := by omega
  cases move_of_step hs with
  | call => exact absurd rfl hgrows
  | block | acquire | resume | op => simp at hgrows
  | watch => exact absurd rfl hgrows
  | method _ _ ha =>
    cases methodMove_of_eq_some ha with
    | started =>
      simp only [ops_tick, ops_leave, ops_startOperation, Heap.size_alloc, Heap.alloc_apply] at ho' ⊢
      rw [if_pos (by omega)]
    | aborting => simp at hgrows
    | woken => simp at hgrows
    | _ => exact absurd rfl hgrows

/-- An operation that has not been started puts nothing. -/
theorem puts_of_new (hsound : Sound s) (hs : s.step config l = some s') (ho : ¬ o < s.ops.size) :
    s.puts config o l = [] := by
  cases l with
  | call => rfl
  | exec t r =>
    refine puts_of_not_aborts ?_
    unfold aborts
    split
    · next e seen k hpc =>
      have hrecord : (s.monitors e).operation ≠ some o := fun hrecord ↦
        ho ((hsound.safe e).recorded o hrecord).1
      simp [hrecord]
    · rfl
  | op o' r =>
    have hne : o' ≠ o := by
      rintro rfl
      have hlt : s.running = none ∧ o' < s.ops.size := by
        by_contra hnot
        simp [step, hnot] at hs
      exact ho hlt.2
    simp [puts, hne]
  | watch o' r =>
    have hne : o' ≠ o := by
      rintro rfl
      have hlt : s.running = none ∧ o' < s.ops.size := by
        by_contra hnot
        simp [step, hnot] at hs
      exact ho hlt.2
    simp [puts, hne]

/-- A coroutine object keeps its body. -/
theorem body_step (hvalid : Valid s) (hs : s.step config l = some s') {i : ℕ}
    (hi : i < s.coros.size) : (s'.coros i).body = (s.coros i).body := by
  have hafter : ∀ {b : Shared × Next}, CorosAfter s b → (b.1.coros i).body = (s.coros i).body := by
    rintro b (⟨hcoros, -⟩ | ⟨body, hcoros, -⟩)
    · rw [hcoros]
    · rw [hcoros, Heap.alloc_of_lt _ _ hi]
  cases move_of_step hs with
  | call => rfl
  | @block t p r b hturn hpc hb =>
    have hp := hvalid.calls t hturn.2
    rw [hpc] at hp
    rw [toShared_tick, toShared_follow]
    exact hafter ((blockMove_of_eq_some hb).corosAfter (by rintro _ _ rfl; exact hp.2))
  | acquire => rw [toShared_tick, toShared_arrive]
  | method _ _ ha =>
    cases methodMove_of_eq_some ha with
    | @conflict req o =>
      exact Heap.modify_field Coro.body s.coros req.coro i (fun c ↦ { c with closed := true }) rfl
    | aborting =>
      rw [toShared_tick, toShared_inside]
      unfold cancelTask
      split <;> rfl
    | woken => rw [toShared_tick, toShared_arrive]
    | _ => rfl
  | @resume t e res k =>
    rw [toShared_tick, toShared_follow]
    exact hafter (frameMove s e k res).corosAfter
  | op => rw [toShared_tick, coros_afterOp]
  | watch => rfl

/-- What an operation puts is what the user's queue grows by. -/
theorem contents_step (hs : s.step config l = some s') (hputs : s.puts config o l ≠ []) :
    (s'.streams (s.records (s.ops o).entry).events).contents =
      (s.streams (s.records (s.ops o).entry).events).contents ++ s.puts config o l := by
  have happly : ∀ f : OpFrame, (((s.applyFrame o f).streams (s.records (s.ops o).entry).events)).contents =
      (s.streams (s.records (s.ops o).entry).events).contents ++ f.events := by
    intro f
    simp [applyFrame]
  cases l with
  | call => exact absurd rfl hputs
  | exec t r =>
    have haborts : s.aborts t o = true := by
      by_contra hnot
      simp [puts, hnot] at hputs
    have hputs' : s.puts config o (.exec t r) =
        [{ type := .failed, message := "Operation cancelled" }] := by simp [puts, haborts]
    obtain ⟨e, seen, k, hpc, hrecord, hended⟩ := aborts_eq_true.1 haborts
    rw [hputs']
    cases move_of_step hs with
    | block _ hpc' | acquire _ hpc' | resume _ hpc' => rw [hpc] at hpc'; cases hpc'
    | method _ hpc' ha =>
      rw [hpc] at hpc'
      cases hpc'
      cases methodMove_of_eq_some ha with
      | idle hnone => rw [hrecord] at hnone; cases hnone
      | aborting ho' =>
        obtain rfl := Option.some.inj (hrecord.symm.trans ho')
        rw [toShared_tick, toShared_inside, cancelTask, if_neg (by simp [hended])]
        simp [Shared.putEvent, Stream.put]
  | op o' r =>
    obtain rfl : o' = o := by
      by_contra hne
      simp [puts, hne] at hputs
    cases move_of_step hs with
    | @op _ _ f _ _ hf =>
      have hputs' : s.puts config o' (.op o' r) = f.events := by simp [puts, hf]
      rw [hputs', ← happly f, toShared_tick]
      unfold afterOp
      split
      · unfold finalize
        dsimp only
        exact Heap.modify_field Stream.contents _ _ _ Stream.close rfl
      · rfl
  | watch o' r =>
    obtain rfl : o' = o := by
      by_contra hne
      simp [puts, hne] at hputs
    cases move_of_step hs with
    | @watch _ _ f _ _ hf =>
      have hputs' : s.puts config o' (.watch o' r) = f.events := by simp [puts, hf]
      rw [hputs', ← happly f, toShared_tick]

end ManagerState

/-- The events that operation `o` puts in the course of a run. -/
def eventsOf (config : LabConfig) (o : ℕ) (τ : List (Transition ManagerState Label)) : List Event :=
  τ.flatMap fun x ↦ x.pre.puts config o x.label

open ManagerState

variable {config : LabConfig} {τ : List (Transition ManagerState Label)} {s : ManagerState} {o : ℕ}

/-- The run lemma: the task of a spawn and the events it has put keep the invariant. -/
theorem Run.lawful (hrun : Run config .initial τ s) (htimely : ∀ x ∈ τ, x.pre.Timely o x.label) :
    if o < s.ops.size then (s.coros (s.ops o).coro).body ≠ .deleteLab →
      (s.ops o).task.Lawful (s.coros (s.ops o).coro).body (eventsOf config o τ)
    else eventsOf config o τ = [] := by
  revert htimely
  refine hrun.history (P := fun τ s ↦ (∀ x ∈ τ, x.pre.Timely o x.label) →
    if o < s.ops.size then (s.coros (s.ops o).coro).body ≠ .deleteLab →
      (s.ops o).task.Lawful (s.coros (s.ops o).coro).body (eventsOf config o τ)
    else eventsOf config o τ = []) ?_ fun _ ↦ by simp [eventsOf, initial, Heap.empty]
  intro τ a l b hτ hP hab htimely
  have hsound := Run.sound hτ
  have hvalid := Run.valid hτ
  have hold := hP fun x hx ↦ htimely x (List.mem_append_left _ hx)
  have hnow : a.Timely o l := htimely _ (List.mem_append_right _ List.mem_cons_self)
  have hevents : eventsOf config o (τ ++ [⟨a, l, b⟩]) = eventsOf config o τ ++ a.puts config o l := by
    simp [eventsOf]
  rw [hevents]
  by_cases ho : o < a.ops.size
  · obtain ⟨ho', hcoro⟩ := op_field_step RunningOperation.coro (fun _ _ ↦ rfl) (fun _ _ ↦ rfl) hab ho
    rw [if_pos ho] at hold
    rw [if_pos ho', hcoro, body_step hvalid hab (hvalid.ops o ho).coro]
    intro hbody
    have hlawful := hold hbody
    have hframe : OpFrame.Lawful (a.opContext config o) (eventsOf config o τ) (a.opFrame o) := by
      unfold OpFrame.Lawful
      rw [show (a.opFrame o).events = [] from rfl, List.append_nil]
      exact hlawful
    cases taskMove_of_step hsound (Run.cancellation hτ) hab ho with
    | same htask hputs =>
      rw [htask, hputs, List.append_nil]
      exact hlawful
    | @op r f hf htask =>
      have hputs : a.puts config o (.op o r) = f.events := by simp [puts, hf]
      rw [htask, hputs]
      exact hframe.opBlock hbody hf
    | @watch r f hf htask =>
      have hputs : a.puts config o (.watch o r) = f.events := by simp [puts, hf]
      rw [htask, hputs]
      exact hframe.watchBlock (hnow rfl) hf
    | @cancel t r haborts hrequested htask =>
      have hputs : a.puts config o (.exec t r) =
          [{ type := .failed, message := "Operation cancelled" }] := by simp [puts, haborts]
      rw [htask, hputs]
      exact hframe.cancel (hnow haborts) hrequested rfl rfl
  · rw [if_neg ho] at hold
    rw [hold, puts_of_new hsound hab ho]
    split
    · next ho' =>
      intro _
      rw [task_of_new hab ho ho']
      exact ⟨by simp [OpTask.Suits], ⟨(by simp), (by simp), Or.inl rfl⟩,
        Or.inl ⟨clean_nil _, rfl, rfl, (by simp), rfl⟩⟩
    · rfl

/-- **The events of a spawn are lawful.** In every run in which every step is timely for it, the events
of a spawn keep to the law, and there is exactly one completion event once its task has ended. -/
theorem spawn_events_lawful (hrun : Run config .initial τ s)
    (htimely : ∀ x ∈ τ, x.pre.Timely o x.label) (ho : o < s.ops.size)
    (hspawn : (s.coros (s.ops o).coro).body ≠ .deleteLab) :
    SpawnLaw (eventsOf config o τ) ∧
      ((s.ops o).task.ended = true → (eventsOf config o τ).countP isCompletion = 1) := by
  have hall := hrun.lawful htimely
  rw [if_pos ho] at hall
  have hlawful := hall hspawn
  rcases hlawful.stands with ⟨hclean, hopen⟩ | ⟨hconcluded, -⟩
  · refine ⟨(hclean.mono hlawful.attended.reach_le).law, fun hended ↦ ?_⟩
    have hopen' := hopen.open_
    unfold OpTask.ended at hended
    split at hended
    · next hpc => simp [OpTask.announced, hpc] at hopen'
    · cases hended
  · exact ⟨hconcluded.law, fun _ ↦ hconcluded.countP⟩

/-- A spawn that relays two pod events and goes well. -/
theorem spawn_events_sample : ∃ τ s, Run Sample.config .initial τ s ∧
    SpawnLaw (eventsOf Sample.config 0 τ) ∧
    (eventsOf Sample.config 0 τ).filterMap Event.progress = [1, 30, 35, 48] := by
  obtain ⟨τ, s, hrun, htimely, ho, hspawn, hprogress⟩ := Sample.exists_run
    (Sample.create 0 ++ Sample.build 0 ++ [.watch 0 .go, .watch 0 (.podEvent "Pulling"),
      .watch 0 (.podEvent "Pulled"), .op 0 .done, .watch 0 .go, .op 0 .go, .op 0 .done])
    (fun τ s ↦ (∀ x ∈ τ, x.pre.Timely 0 x.label) ∧ 0 < s.ops.size ∧
      (s.coros (s.ops 0).coro).body ≠ .deleteLab ∧
      (eventsOf Sample.config 0 τ).filterMap Event.progress = [1, 30, 35, 48])
    (by decide +kernel)
  exact ⟨τ, s, hrun, (spawn_events_lawful hrun htimely ho hspawn).1, hprogress⟩

/-- **A deletion that arrives while the success of a spawn is being published**: the spawn, which has
announced that it is complete, is announced to have failed. -/
theorem spawn_events_unlawful : ∃ τ s, Run Sample.config .initial τ s ∧ Serving τ ∧
    (eventsOf Sample.config 0 τ).countP isCompletion = 2 ∧ ¬ SpawnLaw (eventsOf Sample.config 0 τ) := by
  obtain ⟨τ, s, hrun, hserving, hearly, hcount⟩ := Sample.exists_run
    (Sample.create 0 ++ Sample.build 0 ++ [.op 0 .done, .watch 0 .go, .op 0 .go,
      .call (.deleteLab "rachel"), .exec 1 .go, .exec 1 .go, .exec 1 .go])
    (fun τ s ↦ Serving τ ∧ (eventsOf Sample.config 0 τ).dropLast.any isCompletion = true ∧
      (eventsOf Sample.config 0 τ).countP isCompletion = 2)
    (by decide +kernel)
  refine ⟨τ, s, hrun, hserving, hcount, fun hlaw ↦ ?_⟩
  rw [hlaw.any_dropLast] at hearly
  cases hearly

end Nublado.Lab
