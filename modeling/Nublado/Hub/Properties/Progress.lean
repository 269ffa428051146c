import Nublado.Hub.Properties.Tracking

/-!
# Progress iterators follow their own spawn

A `progress` iteration that is begun after `start` has returned should yield exactly the events of
the spawn that was started, each once and in order, and end once the spawn is done.

* It does if the task of the spawn has taken its first step when the iteration is begun
  (`follows_own_spawn_iff`): from then on what it yields is a prefix of what the spawn has appended,
  it ends with all of it and only after the spawn is done, and when the spawn is done it never waits
  for a trigger that is not set, so that each time it is resumed it yields another event or ends.
  All of this is about iterations of which no single wait lasts `start_timeout`.
* It does not if the task has yet to take its first step. The iteration then has the future of the
  new spawn and the event list of the one before: it yields events of the earlier spawn or, if there
  are none, waits with a trigger that the first step sets and forgets. `progress_mixes_spawns` is a
  run of the first kind.
-/

namespace Nublado.Hub

variable {s s' : NubladoSpawner} {t l : ℕ} {τ : List (Transition NubladoSpawner Label)}

/-- The iterator that takes the step, if one that was there before does. -/
def Label.actor : Label → Option ℕ
  | .next l | .wake l | .timeOut l => some l
  | _ => none

namespace NubladoSpawner

/-! ### The promise -/

/-- Whether the step resumes the iterator. -/
def Resumes (l : ℕ) (x : Transition NubladoSpawner Label) : Bool :=
  x.label = .next l ∨ x.label = .wake l

/-- **What an iterator promises** about the spawn that it is to follow. -/
structure Faithful (s : NubladoSpawner) (l t : ℕ) : Prop where
  /-- It yields the spawn's events in order, each once, and no others. -/
  yields : (s.listeners l).yielded <+: (s.starts t).appended.map SpawnEvent.toDict
  /-- It ends after the spawn is done, with all of its events. -/
  ends : (s.listeners l).pc = .ended → (s.starts t).pc.isDone = true ∧
    (s.listeners l).yielded = (s.starts t).appended.map SpawnEvent.toDict
  /-- When the spawn is done, no wait of the iterator is left to its timeout. -/
  woken : (s.starts t).pc.isDone = true →
    ∀ since, (s.listeners l).pc = .waiting since → (s.listeners l).trigger.woken since = true
  /-- When the spawn is done, the iterator ends, after it has been resumed for each event that is
  left and once more. -/
  concludes : (s.starts t).pc.isDone = true → ∀ τ s', Trace step s τ s' →
    (s.starts t).appended.length - (s.listeners l).yielded.length < τ.countP (Resumes l) →
    (s'.listeners l).pc = .ended

/-- **The iteration begun in this state follows the spawn**, as long as none of its waits lasts
`start_timeout`. -/
def FollowsOwnSpawn (s : NubladoSpawner) (t : ℕ) : Prop :=
  ∀ τ s', Trace step s.progress τ s' → (s'.listeners s.listeners.size).timedOut = false →
    Faithful s' s.listeners.size t

/-! ### What the steps leave alone -/

/-- **Frame.** The steps of others change nothing of an iterator but its trigger. -/
theorem listeners_step (hl : l < s.listeners.size) {label : Label} (hactor : label.actor ≠ some l)
    (hstep : s.step label = some s') : l < s'.listeners.size ∧
      ∃ e, s'.listeners l = { s.listeners l with trigger := e } := by
  have htriggers : ∀ u : NubladoSpawner, u.listeners = s.listeners →
      ∃ e, u.setTriggers.listeners l = { s.listeners l with trigger := e } := by
    intro u hu
    rw [listeners_setTriggers, hu]
    split <;> exact ⟨_, rfl⟩
  have hput : ∀ {l' : ℕ} {x : Listener}, l ≠ l' →
      ∃ e, (s.put l' x).listeners l = { s.listeners l with trigger := e } :=
    fun hne ↦ ⟨_, if_neg hne⟩
  cases label with
  | start =>
    obtain ⟨-, heq⟩ := Option.ite_none_right_eq_some.1 hstep
    obtain rfl := Option.some.inj heq
    exact ⟨hl, _, rfl⟩
  | beginStart t =>
    obtain ⟨-, heq⟩ := Option.ite_none_right_eq_some.1 hstep
    obtain rfl := Option.some.inj heq
    exact ⟨hl, htriggers s rfl⟩
  | resumeStart t reply =>
    obtain ⟨-, hresume⟩ := Option.ite_none_right_eq_some.1 hstep
    obtain ⟨⟨task, e⟩, -, rfl⟩ := Option.map_eq_some_iff.1 hresume
    dsimp only
    split
    · exact ⟨hl, htriggers (s.goOn t task e) rfl⟩
    · exact ⟨hl, _, rfl⟩
  | progress =>
    obtain rfl := Option.some.inj hstep
    exact ⟨Nat.lt_succ_of_lt hl, _, if_neg (by omega)⟩
  | next l' =>
    obtain ⟨-, hnext⟩ := Option.ite_none_right_eq_some.1 hstep
    obtain ⟨i, len, -, rfl⟩ := next_eq_some.1 hnext
    exact ⟨hl, hput fun heq ↦ hactor (congrArg some heq.symm)⟩
  | wake l' =>
    obtain ⟨-, hwake⟩ := Option.ite_none_right_eq_some.1 hstep
    obtain ⟨since, -, -, rfl⟩ := wake_eq_some.1 hwake
    exact ⟨hl, hput fun heq ↦ hactor (congrArg some heq.symm)⟩
  | timeOut l' =>
    obtain ⟨-, htimeOut⟩ := Option.ite_none_right_eq_some.1 hstep
    obtain ⟨since, -, rfl⟩ := timeOut_eq_some.1 htimeOut
    exact ⟨hl, hput fun heq ↦ hactor (congrArg some heq.symm)⟩

/-- **The steps of an iterator** itself: it is asked for its next item at a `yield`, it is woken from
its wait, or its wait is given up. -/
theorem own_step {label : Label} (hactor : label.actor = some l)
    (hstep : s.step label = some s') : ∃ x, s' = s.put l x ∧
      ((∃ i len, label = .next l ∧ (s.listeners l).pc = .yielding i len ∧
          x = (s.listeners l).afterYield s i len) ∨
        (∃ since, (s.listeners l).pc = .waiting since ∧
          (x = (s.listeners l).pass s ∨
            x = { s.listeners l with pc := .ended, complete := true, timedOut := true }))) := by
  cases label with
  | start | beginStart t | resumeStart t reply | progress => cases hactor
  | next l' =>
    obtain rfl : l' = l := Option.some.inj hactor
    obtain ⟨-, hnext⟩ := Option.ite_none_right_eq_some.1 hstep
    obtain ⟨i, len, hpc, rfl⟩ := next_eq_some.1 hnext
    exact ⟨_, rfl, Or.inl ⟨i, len, rfl, hpc, rfl⟩⟩
  | wake l' =>
    obtain rfl : l' = l := Option.some.inj hactor
    obtain ⟨-, hwake⟩ := Option.ite_none_right_eq_some.1 hstep
    obtain ⟨since, hpc, -, rfl⟩ := wake_eq_some.1 hwake
    exact ⟨_, rfl, Or.inr ⟨since, hpc, Or.inl rfl⟩⟩
  | timeOut l' =>
    obtain rfl : l' = l := Option.some.inj hactor
    obtain ⟨-, htimeOut⟩ := Option.ite_none_right_eq_some.1 hstep
    obtain ⟨since, hpc, rfl⟩ := timeOut_eq_some.1 htimeOut
    exact ⟨_, rfl, Or.inr ⟨since, hpc, Or.inr rfl⟩⟩

/-- An iterator that was not there before is begun in the step. -/
theorem eq_progress_of_new (hl : ¬l < s.listeners.size) (hl' : l < s'.listeners.size)
    {label : Label} (hstep : s.step label = some s') :
    l = s.listeners.size ∧ s' = s.progress := by
  cases label with
  | start =>
    obtain ⟨-, heq⟩ := Option.ite_none_right_eq_some.1 hstep
    obtain rfl := Option.some.inj heq
    exact absurd hl' hl
  | beginStart t =>
    obtain ⟨-, heq⟩ := Option.ite_none_right_eq_some.1 hstep
    obtain rfl := Option.some.inj heq
    exact absurd hl' hl
  | resumeStart t reply =>
    obtain ⟨-, hresume⟩ := Option.ite_none_right_eq_some.1 hstep
    obtain ⟨⟨task, e⟩, -, rfl⟩ := Option.map_eq_some_iff.1 hresume
    dsimp only at hl'
    split at hl' <;> exact absurd hl' hl
  | progress =>
    obtain rfl := Option.some.inj hstep
    have hl' : l < s.listeners.size + 1 := hl'
    exact ⟨by omega, rfl⟩
  | next l' | wake l' | timeOut l' =>
    obtain ⟨x, rfl, -⟩ := own_step rfl hstep
    exact absurd hl' hl

/-- **An iterator keeps what it has captured**, so it follows the same spawn from its first step on. -/
theorem follows_step (hl : l < s.listeners.size) {label : Label}
    (hstep : s.step label = some s') : s'.Follows l t ↔ s.Follows l t := by
  by_cases hactor : label.actor = some l
  · obtain ⟨x, rfl, hown⟩ := own_step hactor hstep
    have hself : (s.put l x).listeners l = x := if_pos rfl
    unfold Follows
    rw [hself]
    rcases hown with ⟨i, len, -, -, rfl⟩ | ⟨since, -, rfl | rfl⟩
    · rw [Listener.startFuture_afterYield, Listener.events_afterYield]
      exact Iff.rfl
    · rw [Listener.startFuture_pass, Listener.events_pass]
      exact Iff.rfl
    · exact Iff.rfl
  · obtain ⟨hl', e, hother⟩ := listeners_step hl hactor hstep
    unfold Follows
    rw [hother]
    exact and_congr_left fun _ ↦ iff_of_true hl' hl

theorem Follows.step (h : s.Follows l t) {label : Label} (hstep : s.step label = some s') :
    s'.Follows l t :=
  (follows_step h.1 hstep).2 h

/-- A further step of `_start` moves its own task. -/
theorem starts_resumeStart {reply : StartReply} (h : s.resumeStart t reply = some s') :
    s'.starts.size = s.starts.size ∧ (∃ task e, (s.starts t).block reply = some (task, e) ∧
      s'.starts t = { task with appended := task.appended ++ e.toList }) ∧
      ∀ u, u ≠ t → s'.starts u = s.starts u := by
  obtain ⟨⟨task, e⟩, hblock, rfl⟩ := Option.map_eq_some_iff.1 h
  have hstarts : ∀ b : Bool, (if b then (s.goOn t task e).setTriggers else s.goOn t task e).starts =
      (s.goOn t task e).starts := fun b ↦ by cases b <;> rfl
  dsimp only
  rw [hstarts]
  exact ⟨rfl, ⟨task, e, hblock, if_pos rfl⟩, fun u hu ↦ if_neg hu⟩

/-- **Frame.** A spawn that has begun changes only when its task is resumed. -/
theorem starts_step (hbegun : s.Begun t) {label : Label} (hstep : s.step label = some s') :
    t < s'.starts.size ∧ (s'.starts t = s.starts t ∨
      ∃ reply task e, label = .resumeStart t reply ∧ (s.starts t).block reply = some (task, e) ∧
        s'.starts t = { task with appended := task.appended ++ e.toList }) := by
  obtain ⟨ht, hpc⟩ := hbegun
  cases label with
  | start =>
    obtain ⟨-, heq⟩ := Option.ite_none_right_eq_some.1 hstep
    obtain rfl := Option.some.inj heq
    exact ⟨Nat.lt_succ_of_lt ht, Or.inl (if_neg (by omega))⟩
  | beginStart u =>
    obtain ⟨⟨-, hscheduled⟩, heq⟩ := Option.ite_none_right_eq_some.1 hstep
    obtain rfl := Option.some.inj heq
    refine ⟨ht, Or.inl (if_neg ?_)⟩
    rintro rfl
    exact hpc hscheduled
  | resumeStart u reply =>
    obtain ⟨-, hresume⟩ := Option.ite_none_right_eq_some.1 hstep
    obtain ⟨hsize, ⟨task, e, hblock, hself⟩, hother⟩ := starts_resumeStart hresume
    rw [hsize]
    rcases eq_or_ne t u with rfl | hne
    · exact ⟨ht, Or.inr ⟨reply, task, e, rfl, hblock, hself⟩⟩
    · exact ⟨ht, Or.inl (hother t hne)⟩
  | progress =>
    obtain rfl := Option.some.inj hstep
    exact ⟨ht, Or.inl rfl⟩
  | next l | wake l | timeOut l =>
    obtain ⟨x, rfl, -⟩ := own_step rfl hstep
    exact ⟨ht, Or.inl rfl⟩

/-- A spawn that is done takes no further step. -/
theorem starts_of_isDone (ht : t < s.starts.size) (hdone : (s.starts t).pc.isDone = true)
    {label : Label} (hstep : s.step label = some s') :
    t < s'.starts.size ∧ s'.starts t = s.starts t := by
  have hpc : (s.starts t).pc ≠ .scheduled := by
    intro hpc
    rw [hpc] at hdone
    cases hdone
  obtain ⟨ht', hsame | ⟨reply, task, e, -, hblock, -⟩⟩ := starts_step ⟨ht, hpc⟩ hstep
  · exact ⟨ht', hsame⟩
  · rw [StartPc.isDone_of_inProgress (StartTask.block_spec hblock).1] at hdone
    cases hdone

end NubladoSpawner

/-! ### How often an iterator is resumed -/

namespace Listener

variable {s : NubladoSpawner} {x : Listener} {log : List SpawnEvent}

/-- How often an iterator has yet to be resumed when the spawn is done. -/
def remaining (x : Listener) (log : List SpawnEvent) : ℕ :=
  if x.pc = .ended then 0 else log.length - x.yielded.length + 1

theorem remaining_of_ended (h : x.pc = .ended) : x.remaining log = 0 := if_pos h

/-- A pass yields an event or ends. -/
theorem remaining_pass (hlog : s.lists x.events = log) (hover : s.done x.startFuture = true)
    (hnext : x.nextEvent = x.yielded.length) :
    (x.pass s).remaining log ≤ log.length - x.yielded.length := by
  unfold pass
  rw [hover, Bool.or_true, hlog, hnext]
  dsimp only
  split
  · next e he =>
    have hlt : x.yielded.length < log.length := (List.getElem?_eq_some_iff.1 he).1
    rw [remaining, if_neg (by simp)]
    simp only [List.length_append, List.length_singleton]
    omega
  · rw [if_pos rfl, remaining_of_ended rfl]
    exact Nat.zero_le _

/-- Being asked for the next item, an iterator yields an event or ends. -/
theorem remaining_afterYield (hlog : s.lists x.events = log)
    (hover : s.done x.startFuture = true) (h : x.Tracks log true) {i len : ℕ}
    (hpc : x.pc = .yielding i len) :
    (x.afterYield s i len).remaining log ≤ log.length - x.yielded.length := by
  obtain ⟨hi, hlt, hlen, -⟩ := h.yielding i len hpc
  unfold afterYield
  rw [hlog]
  split
  · next hmore =>
    have he : log[i + 1]? = some log[i + 1] := List.getElem?_eq_getElem (by omega)
    rw [he, remaining, if_neg (by simp)]
    simp only [List.length_append, List.length_singleton]
    omega
  · next hlast =>
    have hcount : len = x.yielded.length := by omega
    unfold afterEvents
    dsimp only
    split
    · rw [remaining_of_ended rfl]
      exact Nat.zero_le _
    · next hcomplete =>
      have hset : x.trigger.isSet = true := h.trigger (by rw [hpc]; simp) (by simpa using hcomplete)
      rw [if_pos hset]
      exact remaining_pass hlog hover hcount

end Listener

namespace NubladoSpawner

/-- The state from which an iterator's resumptions are counted: its spawn is done. -/
structure Winding (s : NubladoSpawner) (l t : ℕ) (log : List SpawnEvent) : Prop where
  sound : s.Sound
  tracking : s.Tracking
  follows : s.Follows l t
  done : (s.starts t).pc.isDone = true
  log : (s.starts t).appended = log

theorem Winding.step {log : List SpawnEvent} (h : s.Winding l t log) {label : Label}
    (hstep : s.step label = some s') : s'.Winding l t log ∧
      (s'.listeners l).remaining log + (if Resumes l ⟨s, label, s'⟩ then 1 else 0) ≤
        (s.listeners l).remaining log := by
  obtain ⟨⟨ht, hpc⟩, htracks, -⟩ := h.tracking l t h.follows
  obtain ⟨-, hsame⟩ := starts_of_isDone ht h.done hstep
  refine ⟨⟨h.sound.step hstep, h.tracking.step h.sound hstep, h.follows.step hstep,
    by rw [hsame]; exact h.done, by rw [hsame]; exact h.log⟩, ?_⟩
  by_cases hactor : label.actor = some l
  · obtain ⟨x, rfl, hown⟩ := own_step hactor hstep
    have hself : (s.put l x).listeners l = x := if_pos rfl
    obtain ⟨hlist, hover⟩ := h.sound.looks ⟨ht, hpc⟩ h.follows.2.1 h.follows.2.2
    rw [h.done] at htracks hover
    rw [h.log] at htracks hlist
    -- the iterator was not at its end, and its new state is one resumption nearer to it
    have hbefore : (s.listeners l).pc ≠ .ended →
        (s.listeners l).remaining log = log.length - (s.listeners l).yielded.length + 1 :=
      fun hpc ↦ if_neg hpc
    have hafter : x.remaining log ≤ log.length - (s.listeners l).yielded.length := by
      rcases hown with ⟨i, len, -, hpc, rfl⟩ | ⟨since, hpc, rfl | rfl⟩
      · exact Listener.remaining_afterYield hlist hover htracks hpc
      · exact Listener.remaining_pass hlist hover (htracks.waiting since hpc).1
      · rw [Listener.remaining_of_ended rfl]
        exact Nat.zero_le _
    rw [hself, hbefore (by rcases hown with ⟨i, len, -, hpc, -⟩ | ⟨since, hpc, -⟩ <;> simp [hpc])]
    split <;> omega
  · obtain ⟨-, e, hother⟩ := listeners_step h.follows.1 hactor hstep
    have hnot : Resumes l ⟨s, label, s'⟩ = false := by
      refine decide_eq_false ?_
      rintro (rfl | rfl) <;> exact hactor rfl
    rw [hnot, hother]
    exact Nat.le_refl _

/-- **The iterator ends**: once its spawn is done it can be resumed only once for each event that is
left and once more. -/
theorem Winding.countP_le {log : List SpawnEvent} (h : s.Winding l t log)
    (htrace : Trace NubladoSpawner.step s τ s') :
    τ.countP (Resumes l) + (s'.listeners l).remaining log ≤ (s.listeners l).remaining log :=
  htrace.countP_add_le (P := fun s ↦ s.Winding l t log)
    (r := fun s ↦ (s.listeners l).remaining log) (fun _ _ _ hw hstep ↦ hw.step hstep) h

/-! ### Begun in time -/

/-- **An iterator that follows the spawn keeps its promise**, in every state of a run. -/
theorem Follows.faithful (h : s.Follows l t) (hsound : s.Sound) (htracking : s.Tracking)
    (htimedOut : (s.listeners l).timedOut = false) : s.Faithful l t := by
  obtain ⟨-, htracks, -⟩ := htracking l t h
  refine ⟨htracks.seen, fun hpc ↦ ?_, fun hdone since hpc ↦ ?_, fun hdone τ s' htrace hlt ↦ ?_⟩
  · rcases htracks.ended hpc with htimedOut' | hall
    · rw [htimedOut] at htimedOut'
      cases htimedOut'
    · exact hall
  · obtain ⟨-, -, -, hwoken⟩ := htracks.waiting since hpc
    exact decide_eq_true (hwoken hdone)
  · have hcount := (Winding.mk hsound htracking h hdone rfl).countP_le htrace
    have hle : (s.listeners l).remaining (s.starts t).appended ≤
        (s.starts t).appended.length - (s.listeners l).yielded.length + 1 := by
      unfold Listener.remaining
      split <;> omega
    by_contra hpc
    have hpos : 0 < (s'.listeners l).remaining (s.starts t).appended := by
      unfold Listener.remaining
      rw [if_neg hpc]
      omega
    omega

theorem followsOwnSpawn_of_begun (hsound : s.Sound) (htracking : s.Tracking)
    (hstart : s.startFuture = some t) (hbegun : s.Begun t) : s.FollowsOwnSpawn t := by
  intro τ s' htrace htimedOut
  have hevents : s.events = some t := hsound.current t ((hsound.latest t).1 hstart) hbegun
  have hfollows : s.progress.Follows s.listeners.size t := by
    obtain ⟨hfuture, hlist⟩ := progress_captures s
    exact ⟨Nat.lt_succ_self _, hfuture.trans hstart, hlist.trans hevents⟩
  obtain ⟨⟨hsound', htracking'⟩, hfollows'⟩ :=
    htrace.invariant (P := fun s' ↦ (s'.Sound ∧ s'.Tracking) ∧ s'.Follows s.listeners.size t)
      (fun _ _ _ h hstep ↦ ⟨⟨h.1.1.step hstep, h.1.2.step h.1.1 hstep⟩, h.2.step hstep⟩)
      ⟨⟨hsound.of_listeners _ _, htracking.progress hsound⟩, hfollows⟩
  exact hfollows'.faithful hsound' htracking' htimedOut

/-! ### Begun too early -/

/-- A pass that finds no event while the spawn is in progress leads to a wait. -/
theorem pass_of_nil {x : Listener} (hlist : s.lists x.events = [])
    (hrunning : s.done x.startFuture = false) (hcomplete : x.complete = false) :
    x.pass s = { x with pc := .waiting x.trigger.sets, trigger := x.trigger.clear } := by
  unfold Listener.pass
  rw [hlist, hrunning, hcomplete]
  rfl

/-- A pass that finds an event yields it. -/
theorem yielded_pass_of_cons {x : Listener} {e : SpawnEvent} {es : List SpawnEvent}
    (hlist : s.lists x.events = e :: es) (hnext : x.nextEvent = 0) :
    (x.pass s).yielded = x.yielded ++ [e.toDict] ∧ (x.pass s).timedOut = x.timedOut := by
  unfold Listener.pass
  rw [hlist, hnext]
  exact ⟨rfl, rfl⟩

/-- **A forgotten trigger.** An iterator whose trigger is not in the list, and that finds no event when
it is woken, is not woken again when the spawn ends. -/
theorem exists_stranded (ht : t < s.starts.size) (hpc : (s.starts t).pc = .createLab)
    (hl : l < s.listeners.size) (htriggers : s.triggers = []) {c : Option ℕ}
    (hlist : s.lists c = [])
    (hlistener : s.listeners l = ⟨.waiting 0, some t, c, ⟨true, 1⟩, 0, false, [], false⟩) :
    ∃ τ s', Trace step s τ s' ∧ (s'.listeners l).timedOut = false ∧
      (s'.starts t).pc.isDone = true ∧ (s'.listeners l).pc = .waiting 1 ∧
      (s'.listeners l).trigger.woken 1 = false := by
  have hrunning : s.done (s.listeners l).startFuture = false := by
    rw [hlistener]
    show (s.starts t).pc.isDone = false
    rw [hpc]
    rfl
  have hpass : (s.listeners l).pass s = ⟨.waiting 1, some t, c, ⟨false, 1⟩, 0, false, [], false⟩ := by
    rw [pass_of_nil (by rw [hlistener]; exact hlist) hrunning (by rw [hlistener]), hlistener]
    rfl
  have hwake : s.step (.wake l) = some (s.put l ((s.listeners l).pass s)) := by
    refine (if_pos hl).trans (wake_eq_some.2 ⟨0, by rw [hlistener], ?_, rfl⟩)
    rw [hlistener]
    rfl
  rw [hpass] at hwake
  obtain ⟨s₁, hs₁⟩ : ∃ s₁, s.put l ⟨.waiting 1, some t, c, ⟨false, 1⟩, 0, false, [], false⟩ = s₁ :=
    ⟨_, rfl⟩
  rw [hs₁] at hwake
  have hstarts₁ : s₁.starts = s.starts := by rw [← hs₁]; rfl
  have hlistener₁ : s₁.listeners l = ⟨.waiting 1, some t, c, ⟨false, 1⟩, 0, false, [], false⟩ := by
    rw [← hs₁]
    exact if_pos rfl
  have htriggers₁ : s₁.triggers = [] := by
    rw [← hs₁]
    exact htriggers
  -- the request to create the lab raises an exception
  have hblock : (s₁.starts t).block .raised =
      some ({ s.starts t with pc := .done (.error .raised) }, none) := by
    rw [hstarts₁]
    unfold StartTask.block
    rw [hpc]
  have hfail : s₁.step (.resumeStart t .raised) = some
      (s₁.goOn t { s.starts t with pc := .done (.error .raised) } none).setTriggers := by
    show (if t < s₁.starts.size then s₁.resumeStart t .raised else none) = _
    rw [if_pos (by rw [hstarts₁]; exact ht), resumeStart, hblock]
    rfl
  have hlast : (s₁.goOn t { s.starts t with pc := .done (.error .raised) } none).setTriggers.listeners
      l = s₁.listeners l := by
    rw [listeners_setTriggers]
    refine if_neg ?_
    show l ∉ s₁.triggers
    rw [htriggers₁]
    exact List.not_mem_nil
  refine ⟨_, _, .cons hwake (.single hfail), ?_, ?_, ?_, ?_⟩
  · rw [hlast, hlistener₁]
  · show (if t = t then _ else s₁.starts t : StartTask).pc.isDone = true
    rw [if_pos rfl]
    rfl
  · rw [hlast, hlistener₁]
  · rw [hlast, hlistener₁]
    rfl

/-- **An iteration begun before the first step of the task breaks the promise**: at once if there was
an earlier event, and otherwise when the first step has woken it and the spawn then fails. -/
theorem not_followsOwnSpawn_of_scheduled (hsound : s.Sound) (hstart : s.startFuture = some t)
    (hpc : (s.starts t).pc = .scheduled) : ¬s.FollowsOwnSpawn t := by
  intro h
  have ht : t < s.starts.size := by
    have hlatest := (hsound.latest t).1 hstart
    omega
  have hrunning : s.done (some t) = false := by
    show (s.starts t).pc.isDone = false
    rw [hpc]
    rfl
  have hnew : s.progress.listeners s.listeners.size =
      Listener.pass s { pc := .ended, startFuture := some t, events := s.events } := by
    rw [listeners_progress, hstart]
    rfl
  rcases hlist : s.lists s.events with _ | ⟨e, es⟩
  · -- the iterator waits, is woken by the first step of the task, and waits again
    have hwaits := hnew.trans (pass_of_nil hlist hrunning rfl)
    have hbegin : s.progress.step (.beginStart t) = some (s.progress.beginStart t) :=
      if_pos ⟨ht, hpc⟩
    have hset : (s.progress.beginStart t).listeners s.listeners.size =
        ⟨.waiting 0, some t, s.events, ⟨true, 1⟩, 0, false, [], false⟩ := by
      have hmem : s.listeners.size ∈ s.progress.triggers :=
        List.mem_append_right _ (List.mem_singleton_self _)
      refine (listeners_setTriggers s.progress _).trans ?_
      rw [if_pos hmem, hwaits]
      rfl
    have hlist' : (s.progress.beginStart t).lists s.events = [] := by
      show (if s.events = some t then [] else s.lists s.events) = []
      split
      · rfl
      · exact hlist
    have hpc' : ((s.progress.beginStart t).starts t).pc = .createLab := by
      show (if t = t then { s.starts t with pc := .createLab } else s.starts t : StartTask).pc = _
      rw [if_pos rfl]
    obtain ⟨τ, s', htrace, htimedOut, hdone, hwaiting, hasleep⟩ :=
      exists_stranded (s := s.progress.beginStart t) ht hpc' (Nat.lt_succ_self _) rfl hlist' hset
    have hwoken := (h _ _ (.cons hbegin htrace) htimedOut).woken hdone 1 hwaiting
    rw [hasleep] at hwoken
    cases hwoken
  · -- an event of an earlier spawn is yielded
    let x : Listener := { pc := .ended, startFuture := some t, events := s.events }
    obtain ⟨hyielded, htimedOut⟩ := yielded_pass_of_cons (x := x) hlist rfl
    have hprefix := (h [] _ .nil (by rw [hnew, htimedOut])).yields
    rw [hnew, hyielded] at hprefix
    have hnone : (s.starts t).appended = [] := hsound.fresh t ht hpc
    have hlength := hprefix.length_le
    rw [show (s.progress.starts t).appended = [] from hnone] at hlength
    simp at hlength

/-- **Progress iterators follow their own spawn** exactly when they are begun after its task has
taken its first step. -/
theorem follows_own_spawn_iff (hrun : Run τ s) (hstart : s.startFuture = some t) :
    s.FollowsOwnSpawn t ↔ (s.starts t).pc ≠ .scheduled := by
  obtain ⟨hsound, htracking⟩ := sound_and_tracking hrun
  constructor
  · intro h hpc
    exact not_followsOwnSpawn_of_scheduled hsound hstart hpc h
  · intro hpc
    have hlatest := (hsound.latest t).1 hstart
    exact followsOwnSpawn_of_begun hsound htracking hstart ⟨by omega, hpc⟩

/-! ### Two spawns -/

namespace Sample

/-- The event of a lab that is ready. -/
def ready : ServerSentEvent := ⟨"complete", "Lab is running", none⟩

/-- A whole spawn, the first of the spawner, and a call of `start` after it. -/
def twoSpawns : List Label :=
  [.start, .beginStart 0, .resumeStart 0 (.response 201), .resumeStart 0 (.sse ready),
    .resumeStart 0 (.lab 200 (some "http://lab.nublado-rachel:8888")), .start]

end Sample

/-- An iteration that is begun when the task of the second spawn has taken its first step. -/
theorem follows_own_spawn_sample : ∃ τ s, Run τ s ∧ s.startFuture = some 1 ∧
    s.lists (some 0) ≠ [] ∧ s.FollowsOwnSpawn 1 := by
  obtain ⟨τ, s, hrun, hstart, hlist, hpc⟩ := exists_run (Sample.twoSpawns ++ [.beginStart 1])
    (fun _ s ↦ s.startFuture = some 1 ∧ s.lists (some 0) ≠ [] ∧ (s.starts 1).pc ≠ .scheduled)
    (by decide +kernel)
  exact ⟨τ, s, hrun, hstart, hlist, (follows_own_spawn_iff hrun hstart).2 hpc⟩

/-- **An iteration that is begun between `start` and the first step of its task** yields the event of
the spawn before. -/
theorem progress_mixes_spawns : ∃ τ s, Run τ s ∧ s.startFuture = some 1 ∧
    (s.progress.listeners 0).yielded = [⟨75, "[info] Lab is running"⟩] ∧
    (s.starts 1).appended = [] ∧ ¬s.FollowsOwnSpawn 1 := by
  obtain ⟨τ, s, hrun, hstart, hlistener, happended, hpc⟩ := exists_run Sample.twoSpawns
    (fun _ s ↦ s.startFuture = some 1 ∧
      (s.progress.listeners 0).yielded = [⟨75, "[info] Lab is running"⟩] ∧
      (s.starts 1).appended = [] ∧ (s.starts 1).pc = .scheduled)
    (by decide +kernel)
  exact ⟨τ, s, hrun, hstart, hlistener, happended,
    not_followsOwnSpawn_of_scheduled (sound_and_tracking hrun).1 hstart hpc⟩

end NubladoSpawner

end Nublado.Hub
