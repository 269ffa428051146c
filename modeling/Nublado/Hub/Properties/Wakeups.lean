import Nublado.Hub.Properties.Progress

/-!
# Waking the progress iterators

An iterator that waits for its trigger should be woken when an event arrives. `_start` sets the
triggers in its first step and just before it exits, but not where it appends an event, so an
iterator that is waiting by then is not woken before the spawn ends.

* `NoLostWakeup` is the law: whoever waits and has not yielded everything has its trigger set.
* `Heeds` is the condition on a step. No event may be appended, other than by the step that ends the
  spawn, while an iterator of the spawn is waiting; and no iterator may come to its wait, while the
  spawn is in progress, after an event was appended since it counted them.
* `no_lost_wakeup_iff`: the law holds in every state of a run exactly when every step of the run
  meets the condition. In the run of `wakeup_lost` an event arrives while an iterator waits.
-/

namespace Nublado.Hub

/-- Whether the reply makes `_start` append an event and go on. -/
def StartTask.announces (task : StartTask) (reply : StartReply) : Bool :=
  match task.pc, reply with
  | .createLab, .response status => status = 409
  | .nextEvent, .sse sse =>
    sse.event ≠ "ping" &&
      (SpawnEvent.fromSse sse task.progress).any fun e ↦ e.complete || !e.failed
  | _, _ => false

/-- Receiving an event that is announced appends it, and `_start` goes on. -/
theorem StartTask.receive_announces {task : StartTask} {sse : ServerSentEvent}
    (hpc : task.pc = .nextEvent) :
    task.announces (.sse sse) = true ↔
      (task.receive sse).2 ≠ none ∧ (task.receive sse).1.pc.isDone = false := by
  have hannounces : task.announces (.sse sse) = (decide (sse.event ≠ "ping") &&
      (SpawnEvent.fromSse sse task.progress).any fun e ↦ e.complete || !e.failed) := by
    unfold announces
    rw [hpc]
  rw [hannounces]
  unfold receive
  split_ifs with hping
  · simp [hping]
  · split
    · next hnone => simp [hnone]
    · next e he =>
      rw [he]
      rcases hcomplete : e.complete with _ | _ <;> rcases hfailed : e.failed with _ | _ <;>
        simp [hping, hcomplete, hfailed, StartPc.isDone]

theorem StartTask.announces_iff {task task' : StartTask} {reply : StartReply}
    {e : Option SpawnEvent} (h : task.block reply = some (task', e)) :
    task.announces reply = true ↔ e ≠ none ∧ task'.pc.isDone = false := by
  revert h
  fun_cases StartTask.block task reply
  case case8 sse hpc =>
    intro h
    obtain ⟨rfl, rfl⟩ := Prod.mk.inj ((Option.some.inj h : task.receive sse = (task', e)))
    exact receive_announces hpc
  case case16 =>
    rintro ⟨⟩
    have hnot : task.announces .raised = false := by
      unfold announces
      split <;> first | rfl | contradiction
    rw [hnot]
    simp
  all_goals
    intro h
    cases h
  all_goals
    simp [announces, StartPc.isDone, *]

namespace NubladoSpawner

variable {s s' : NubladoSpawner} {t l : ℕ} {τ : List (Transition NubladoSpawner Label)}

/-! ### The law and the condition -/

/-- **No wake-up is lost**: an iterator that waits and has not yet yielded everything that its spawn
has appended has its trigger set. -/
def NoLostWakeup (s : NubladoSpawner) : Prop :=
  ∀ l t since, s.Follows l t → (s.listeners l).pc = .waiting since →
    (s.listeners l).yielded.length < (s.starts t).appended.length →
    (s.listeners l).trigger.isSet = true

/-- **The condition on a step**, in the state before it.

* When `_start` appends an event and goes on, no iterator that follows it is waiting.
* When an iterator that follows a spawn in progress is asked for its next item and has no other of
  the `len_events` events that it counted, none has been appended since. -/
def Heeds (s : NubladoSpawner) : Label → Prop
  | .resumeStart t reply => (s.starts t).announces reply = true →
    ∀ l since, s.Follows l t → (s.listeners l).pc ≠ .waiting since
  | .next l => ∀ t i lenEvents, s.Follows l t → (s.starts t).pc.isDone = false →
    (s.listeners l).pc = .yielding i lenEvents → i + 1 = lenEvents →
    (s.starts t).appended.length = lenEvents
  | _ => True

/-! ### One step -/

/-- **What the law is about**: a spawn in progress sets no triggers, and one that is done has set
those of all who wait, so nobody may wait for a spawn in progress unless everything is yielded. -/
theorem Tracking.noLostWakeup_iff (h : s.Tracking) : s.NoLostWakeup ↔
    ∀ l t since, s.Follows l t → (s.starts t).pc.isDone = false →
      (s.listeners l).pc = .waiting since →
      (s.starts t).appended.length ≤ (s.listeners l).yielded.length := by
  have htrigger : ∀ {l t since}, s.Follows l t → (s.listeners l).pc = .waiting since →
      (s.listeners l).trigger.isSet = (s.starts t).pc.isDone := by
    intro l t since hfollows hpc
    obtain ⟨-, htracks, -⟩ := h l t hfollows
    exact htracks.trigger (by rw [hpc]; simp) (htracks.waiting since hpc).2.1
  constructor
  · intro hlaw l t since hfollows hrunning hpc
    by_contra hlt
    have hset := hlaw l t since hfollows hpc (by omega)
    rw [htrigger hfollows hpc, hrunning] at hset
    cases hset
  · intro hseen l t since hfollows hpc hlt
    rw [htrigger hfollows hpc]
    by_contra hrunning
    have hle := hseen l t since hfollows (by simpa using hrunning) hpc
    omega

/-- A pass leads to a wait only when everything is yielded. -/
theorem length_le_of_pass {x : Listener} (hnext : x.nextEvent = x.yielded.length) {since : ℕ}
    (hpc : (x.pass s).pc = .waiting since) :
    (s.lists x.events).length ≤ (x.pass s).yielded.length := by
  have hunread : (x.pass s).yielded.length = x.yielded.length →
      (s.lists x.events)[x.nextEvent]? = none →
      (s.lists x.events).length ≤ (x.pass s).yielded.length := by
    intro hsame hnone
    rw [hsame, ← hnext]
    exact List.getElem?_eq_none_iff.1 hnone
  revert hpc hunread
  unfold Listener.pass
  dsimp only
  split
  · intro hpc
    cases hpc
  · next hnone =>
    intro _ hunread
    refine hunread ?_ hnone
    split <;> rfl

/-- Spawns other than the latest are done. -/
theorem Sound.eq_of_running (h : s.Sound) {u : ℕ} (ht : t < s.starts.size)
    (hu : u < s.starts.size) (htrunning : (s.starts t).pc.isDone = false)
    (hurunning : (s.starts u).pc.isDone = false) : u = t := by
  have htlatest := h.eq_latest ht htrunning
  have hulatest := h.eq_latest hu hurunning
  omega

/-- The part of the law that is about one iterator, while its spawn is in progress. -/
def Seen (s : NubladoSpawner) (l : ℕ) : Prop :=
  ∀ t since, s.Follows l t → (s.starts t).pc.isDone = false →
    (s.listeners l).pc = .waiting since →
    (s.starts t).appended.length ≤ (s.listeners l).yielded.length

/-- An iterator whose own step it is. -/
theorem seen_of_actor (hsound : s.Sound) (htracking : s.Tracking) {label : Label}
    (hactor : label.actor = some l) (hstep : s.step label = some s') (hheeds : s.Heeds label) :
    s'.Seen l := by
  intro t since hfollows' hrunning hpc
  obtain ⟨x, rfl, hown⟩ := own_step hactor hstep
  have hfollows : s.Follows l t := (follows_step (s := s) hfollows'.1 hstep).1 hfollows'
  have hself : (s.put l x).listeners l = x := if_pos rfl
  rw [hself] at hpc ⊢
  show (s.starts t).appended.length ≤ x.yielded.length
  obtain ⟨hbegun, htracks, -⟩ := htracking l t hfollows
  obtain ⟨hlist, -⟩ := hsound.looks hbegun hfollows.2.1 hfollows.2.2
  rw [← hlist]
  rcases hown with ⟨i, len, rfl, hyielding, rfl⟩ | ⟨since', hwaiting, rfl | rfl⟩
  · -- the events that it counted are yielded, and unless its trigger is set there are no others
    revert hpc
    unfold Listener.afterYield Listener.afterEvents
    split
    · split <;> (intro hpc; cases hpc)
    · next hlast =>
      obtain ⟨hi, hlt, -⟩ := htracks.yielding i len hyielding
      have hlen : i + 1 = len := by omega
      dsimp only
      split
      · intro hpc
        cases hpc
      · split
        · exact length_le_of_pass (hlen.symm.trans hi)
        · intro _
          rw [hlist, hheeds t i len hfollows hrunning hyielding hlen]
          show len ≤ (s.listeners l).yielded.length
          omega
  · exact length_le_of_pass (htracks.waiting since' hwaiting).1 hpc
  · cases hpc

/-- **A step that meets the condition keeps the law.** -/
theorem NoLostWakeup.step (hlaw : s.NoLostWakeup) (hsound : s.Sound) (htracking : s.Tracking)
    {label : Label} (hstep : s.step label = some s') (hheeds : s.Heeds label) :
    s'.NoLostWakeup := by
  rw [htracking.noLostWakeup_iff] at hlaw
  rw [(htracking.step hsound hstep).noLostWakeup_iff]
  intro l u since hfollows' hrunning hpc
  by_cases hactor : label.actor = some l
  · exact seen_of_actor hsound htracking hactor hstep hheeds u since hfollows' hrunning hpc
  by_cases hl : l < s.listeners.size
  · -- an iterator that was there before and does not take the step
    have hfollows : s.Follows l u := (follows_step hl hstep).1 hfollows'
    obtain ⟨hbegun, htracks, -⟩ := htracking l u hfollows
    obtain ⟨-, e, hother⟩ := listeners_step hl hactor hstep
    rw [hother] at hpc ⊢
    obtain ⟨-, hsame | ⟨reply, task, event, rfl, hblock, hgrown⟩⟩ := starts_step hbegun hstep
    · rw [hsame] at hrunning ⊢
      exact hlaw l u since hfollows hrunning hpc
    · obtain ⟨hprogress, -, happended⟩ := StartTask.block_spec hblock
      rw [hgrown] at hrunning ⊢
      rcases event with _ | event
      · show (task.appended ++ []).length ≤ _
        rw [List.append_nil, happended]
        exact hlaw l u since hfollows (StartPc.isDone_of_inProgress hprogress) hpc
      · have hannounces := (StartTask.announces_iff hblock).2 ⟨by simp, hrunning⟩
        exact absurd hpc (hheeds hannounces l since hfollows)
  · -- an iterator that is begun in this step
    obtain ⟨rfl, rfl⟩ := eq_progress_of_new hl hfollows'.1 hstep
    obtain ⟨-, hfuture, hevents⟩ := hfollows'
    rw [(progress_captures s).1] at hfuture
    rw [(progress_captures s).2] at hevents
    rw [listeners_progress, if_pos (by rw [hfuture]; rfl)] at hpc ⊢
    have hle := length_le_of_pass rfl hpc
    rw [show s.lists s.events = _ from (congrArg s.lists hevents).trans
      (hsound.log u (hsound.made u hevents))] at hle
    exact hle

/-- **A step that does not meet the condition breaks the law.** -/
theorem heeds_of_noLostWakeup (hsound : s.Sound) (htracking : s.Tracking) {label : Label}
    (hstep : s.step label = some s') (hlaw : s'.NoLostWakeup) : s.Heeds label := by
  rw [(htracking.step hsound hstep).noLostWakeup_iff] at hlaw
  cases label with
  | start | beginStart t | progress | wake l | timeOut l => trivial
  | resumeStart t reply =>
    -- an iterator that waits is not woken, and has not yielded the new event
    intro hannounces l since hfollows hpc
    obtain ⟨-, e, hother⟩ := listeners_step hfollows.1 (by simp [Label.actor]) hstep
    obtain ⟨hbegun, htracks, -⟩ := htracking l t hfollows
    obtain ⟨-, hresume⟩ := Option.ite_none_right_eq_some.1 hstep
    obtain ⟨-, ⟨task, event, hblock, hgrown⟩, -⟩ := starts_resumeStart hresume
    obtain ⟨hevent, hrunning⟩ := (StartTask.announces_iff hblock).1 hannounces
    obtain ⟨-, -, happended⟩ := StartTask.block_spec hblock
    have hle := hlaw l t since (hfollows.step hstep) (by rw [hgrown]; exact hrunning)
      (by rw [hother]; exact hpc)
    have hseen := htracks.seen.length_le
    rw [hgrown, hother] at hle
    obtain ⟨event, rfl⟩ := Option.ne_none_iff_exists'.1 hevent
    simp only [happended, Option.toList_some, List.length_append, List.length_singleton] at hle
    rw [List.length_map] at hseen
    omega
  | next l =>
    -- an iterator that has yielded the events it counted waits, and there are others
    intro t i len hfollows hrunning hpc hlast
    obtain ⟨hbegun, htracks, -⟩ := htracking l t hfollows
    obtain ⟨hi, hlt, hlen, hknown⟩ := htracks.yielding i len hpc
    have hcomplete : (s.listeners l).complete = false := by
      by_contra hcomplete
      have hdone := (hknown (by simpa using hcomplete)).1
      rw [hrunning] at hdone
      cases hdone
    have hunset : (s.listeners l).trigger.isSet = false :=
      (htracks.trigger (by rw [hpc]; simp) hcomplete).trans hrunning
    obtain ⟨-, hnext⟩ := Option.ite_none_right_eq_some.1 hstep
    obtain ⟨i', len', hpc', rfl⟩ := next_eq_some.1 hnext
    obtain ⟨rfl, rfl⟩ := ProgressPc.yielding.inj (hpc.symm.trans hpc')
    have hwait : (s.listeners l).afterYield s i len =
        { s.listeners l with
          nextEvent := len, pc := .waiting (s.listeners l).trigger.sets } := by
      unfold Listener.afterYield Listener.afterEvents
      rw [if_neg (by omega)]
      dsimp only
      rw [if_neg (by rw [hcomplete]; simp), if_neg (by rw [hunset]; simp)]
      rfl
    have hself : (s.put l ((s.listeners l).afterYield s i len)).listeners l = _ :=
      (if_pos rfl).trans hwait
    have hle := hlaw l t (s.listeners l).trigger.sets (hfollows.step hstep) hrunning
      (by rw [hself])
    rw [hself] at hle
    have hle : (s.starts t).appended.length ≤ (s.listeners l).yielded.length := hle
    omega

/-! ### Runs -/

theorem no_lost_wakeup_of_trace (hsound : s.Sound) (htracking : s.Tracking)
    (hlaw : s.NoLostWakeup) (htrace : Trace step s τ s') :
    (∀ x ∈ τ, x.post.NoLostWakeup) ↔ ∀ x ∈ τ, x.pre.Heeds x.label := by
  induction htrace with
  | nil => simp
  | cons hstep _ ih =>
    have hsound' := hsound.step hstep
    have htracking' := htracking.step hsound hstep
    rw [List.forall_mem_cons, List.forall_mem_cons]
    constructor
    · rintro ⟨hlaw', hrest⟩
      exact ⟨heeds_of_noLostWakeup hsound htracking hstep hlaw',
        (ih hsound' htracking' hlaw').1 hrest⟩
    · rintro ⟨hheeds, hrest⟩
      have hlaw' := hlaw.step hsound htracking hstep hheeds
      exact ⟨hlaw', (ih hsound' htracking' hlaw').2 hrest⟩

/-- **No wake-up is lost in a run** exactly when every step of the run meets the condition. -/
theorem no_lost_wakeup_iff (hrun : Run τ s) :
    (∀ x ∈ τ, x.post.NoLostWakeup) ↔ ∀ x ∈ τ, x.pre.Heeds x.label :=
  no_lost_wakeup_of_trace sound_init tracking_init
    (fun _ _ _ hfollows ↦ absurd hfollows.1 (Nat.not_lt_zero _)) hrun

/-! ### A quiet spawn and one with an event -/

namespace Sample

/-- A spawn with an iterator that waits for it. The lab controller has no event to report. -/
def quiet : List Label :=
  [.start, .beginStart 0, .progress, .resumeStart 0 (.response 201), .resumeStart 0 .endOfStream,
    .resumeStart 0 (.lab 200 (some "http://lab.nublado-rachel:8888")), .wake 0]

/-- A spawn with an iterator that waits for it, up to its first event. -/
def eventful : List Label :=
  [.start, .beginStart 0, .progress, .resumeStart 0 (.response 201),
    .resumeStart 0 (.sse ⟨"info", "Creating lab", none⟩)]

theorem heeds_quiet {label : Label} (h : label ∈ quiet) (s : NubladoSpawner) : s.Heeds label := by
  have hsilent : ∀ {t reply}, (∀ task : StartTask, task.announces reply = false) →
      s.Heeds (.resumeStart t reply) := by
    intro t reply hreply hannounces
    rw [hreply] at hannounces
    cases hannounces
  simp only [quiet, List.mem_cons, List.not_mem_nil, or_false] at h
  rcases h with rfl | rfl | rfl | rfl | rfl | rfl | rfl
  case inr.inr.inr.inl =>
    refine hsilent fun task ↦ ?_
    rcases hpc : task.pc <;> simp [StartTask.announces, hpc]
  case inr.inr.inr.inr.inl | inr.inr.inr.inr.inr.inl =>
    refine hsilent fun task ↦ ?_
    rcases hpc : task.pc <;> simp [StartTask.announces, hpc]
  all_goals trivial

end Sample

/-- In a spawn without events every iterator is woken in time. -/
theorem no_lost_wakeup_sample : ∃ τ s, Run τ s ∧ τ.map Transition.label = Sample.quiet ∧
    (s.listeners 0).pc = .ended ∧ ∀ x ∈ τ, x.post.NoLostWakeup := by
  obtain ⟨τ, s, hrun, hlabels, hended⟩ := exists_run Sample.quiet
    (fun τ s ↦ τ.map Transition.label = Sample.quiet ∧ (s.listeners 0).pc = .ended)
    (by decide +kernel)
  refine ⟨τ, s, hrun, hlabels, hended, (no_lost_wakeup_iff hrun).2 fun x hx ↦ ?_⟩
  exact Sample.heeds_quiet (by rw [← hlabels]; exact List.mem_map_of_mem hx) x.pre

/-- **An event that arrives while an iterator waits** does not wake it: `_start` waits for the next
event with one appended that the iterator has not yielded. -/
theorem wakeup_lost : ∃ τ s, Run τ s ∧ (s.starts 0).pc = .nextEvent ∧ ¬s.NoLostWakeup := by
  obtain ⟨τ, s, hrun, hpc, hfollows, hwaiting, hunseen, hunset⟩ := exists_run Sample.eventful
    (fun _ s ↦ (s.starts 0).pc = .nextEvent ∧ s.Follows 0 0 ∧ (s.listeners 0).pc = .waiting 0 ∧
      (s.listeners 0).yielded.length < (s.starts 0).appended.length ∧
      (s.listeners 0).trigger.isSet = false)
    (by decide +kernel)
  refine ⟨τ, s, hrun, hpc, fun hlaw ↦ ?_⟩
  have hset := hlaw 0 0 0 hfollows hwaiting hunseen
  rw [hunset] at hset
  cases hset

end NubladoSpawner

end Nublado.Hub
