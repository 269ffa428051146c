import Nublado.Hub.Spawner

/-!
# What holds of the spawner in every state

Two invariants of every run, whatever the order of the steps.

* `Sound` is about the spawns. Only the latest can be in progress; once it has taken its first step
  the spawner's event list is the one that it made; and that list holds what the spawn has appended.
* `Tracks` is about an iterator and the spawn it follows: the iterator has yielded a prefix of what
  the spawn has appended, and unless it has noticed that the spawn is done, its trigger is set
  exactly when the spawn is done.

`Follows` says which spawn an iterator follows: the one whose future *and* whose event list it has
captured. An iterator that captured them between `start` and the first step of the task has the new
future and the old list, and follows no spawn.
-/

namespace Nublado

/-- A prefix grows by the element that comes next. -/
theorem prefix_concat_of_getElem? {α : Type*} {l m : List α} {a : α} (h : l <+: m)
    (ha : m[l.length]? = some a) : l ++ [a] <+: m := by
  obtain ⟨r, rfl⟩ := h
  rw [List.getElem?_append_right (Nat.le_refl _), Nat.sub_self] at ha
  cases r with
  | nil => cases ha
  | cons b r =>
    obtain rfl : b = a := Option.some.inj ha
    exact ⟨r, by simp⟩

end Nublado

namespace Nublado.Hub

/-! ### What a step of `_start` does -/

/-- Whether the task has taken its first step and not its last. -/
def StartPc.inProgress : StartPc → Bool
  | .scheduled | .done _ => false
  | _ => true

theorem StartPc.ne_scheduled_of_inProgress {pc : StartPc} (h : pc.inProgress = true) :
    pc ≠ .scheduled := by
  rintro rfl
  cases h

theorem StartPc.isDone_of_inProgress {pc : StartPc} (h : pc.inProgress = true) :
    pc.isDone = false := by
  cases pc with
  | done r => cases h
  | _ => rfl

/-- Receiving an event leaves the record of earlier events alone and does not lead back to the first
step. -/
theorem StartTask.receive_spec (task : StartTask) (sse : ServerSentEvent) :
    (task.receive sse).1.appended = task.appended ∧
      (task.pc ≠ .scheduled → (task.receive sse).1.pc ≠ .scheduled) := by
  fun_cases StartTask.receive task sse
  · exact ⟨rfl, id⟩
  · exact ⟨rfl, by simp⟩
  · refine ⟨rfl, fun _ ↦ ?_⟩
    show (if _ then StartPc.internalUrl else if _ then .done _ else .nextEvent) ≠ _
    split_ifs <;> simp

/-- **A step of the task**: it is taken by a task in progress, what comes next is not the first step,
and the record of earlier events is left alone. -/
theorem StartTask.block_spec {task task' : StartTask} {reply : StartReply} {e : Option SpawnEvent}
    (h : task.block reply = some (task', e)) :
    task.pc.inProgress = true ∧ task'.pc ≠ .scheduled ∧ task'.appended = task.appended := by
  revert h
  fun_cases StartTask.block task reply
  case case8 sse hpc =>
    intro h
    obtain rfl : (task.receive sse).1 = task' := congrArg Prod.fst (Option.some.inj h)
    obtain ⟨happended, hnext⟩ := task.receive_spec sse
    exact ⟨by rw [hpc]; rfl, hnext (by rw [hpc]; simp), happended⟩
  case case16 hscheduled hdone =>
    rintro ⟨⟩
    refine ⟨?_, by simp, rfl⟩
    rcases hpc : task.pc with _ | _ | _ | _ | _ | _ | r
    · exact absurd hpc hscheduled
    all_goals first | rfl | exact absurd hpc (hdone r)
  all_goals
    intro h
    cases h
  all_goals
    exact ⟨by simp [StartPc.inProgress, *], by simp, rfl⟩

namespace NubladoSpawner

variable {s s' : NubladoSpawner} {t l : ℕ}

/-! ### What the steps of an iterator are -/

theorem next_eq_some : s.next l = some s' ↔ ∃ i len, (s.listeners l).pc = .yielding i len ∧
    s' = s.put l ((s.listeners l).afterYield s i len) := by
  unfold next
  split
  · next i len hpc =>
    rw [hpc, Option.some_inj]
    constructor
    · intro h
      exact ⟨i, len, rfl, h.symm⟩
    · rintro ⟨_, _, ⟨⟩, h⟩
      exact h.symm
  · next hpc => simpa using fun i len hpc' ↦ absurd hpc' (hpc i len)

theorem wake_eq_some : s.wake l = some s' ↔ ∃ since, (s.listeners l).pc = .waiting since ∧
    (s.listeners l).trigger.woken since = true ∧ s' = s.put l ((s.listeners l).pass s) := by
  unfold wake
  split
  · next since hpc =>
    rw [hpc, Option.ite_none_right_eq_some, Option.some_inj]
    constructor
    · rintro ⟨hwoken, h⟩
      exact ⟨since, rfl, hwoken, h.symm⟩
    · rintro ⟨_, ⟨⟩, hwoken, h⟩
      exact ⟨hwoken, h.symm⟩
  · next hpc => simpa using fun since hpc' ↦ absurd hpc' (hpc since)

theorem timeOut_eq_some : s.timeOut l = some s' ↔ ∃ since, (s.listeners l).pc = .waiting since ∧
    s' = s.put l { s.listeners l with pc := .ended, complete := true, timedOut := true } := by
  unfold timeOut
  split
  · next since hpc =>
    rw [hpc, Option.some_inj]
    constructor
    · intro h
      exact ⟨since, rfl, h.symm⟩
    · rintro ⟨_, ⟨⟩, h⟩
      exact h.symm
  · next hpc => simpa using fun since hpc' ↦ absurd hpc' (hpc since)

/-! ### The spawns -/

/-- The task has taken its first step. -/
def Begun (s : NubladoSpawner) (t : ℕ) : Prop := t < s.starts.size ∧ (s.starts t).pc ≠ .scheduled

instance : Decidable (s.Begun t) := inferInstanceAs (Decidable (_ ∧ _))

/-- What holds of the spawns in every state. -/
structure Sound (s : NubladoSpawner) : Prop where
  /-- The future is that of the latest spawn. -/
  latest : ∀ t, s.startFuture = some t ↔ t + 1 = s.starts.size
  /-- An earlier spawn is done. -/
  earlier : ∀ t, t + 1 < s.starts.size → (s.starts t).pc.isDone = true
  /-- The event list is the one that the latest spawn made, if it has begun. -/
  current : ∀ t, t + 1 = s.starts.size → s.Begun t → s.events = some t
  /-- The event list was made by a spawn that has begun, or by the constructor. -/
  made : ∀ t, s.events = some t → s.Begun t
  /-- The list that a spawn made holds what it has appended. -/
  log : ∀ t, s.Begun t → s.lists (some t) = (s.starts t).appended
  /-- A spawn that has not begun has appended nothing. -/
  fresh : ∀ t, t < s.starts.size → (s.starts t).pc = .scheduled → (s.starts t).appended = []

theorem sound_init : Sound {} := by
  have hnone : ∀ t, ¬t < (Heap.empty : Heap StartTask).size := fun t ↦ Nat.not_lt_zero t
  refine ⟨fun t ↦ ?_, fun t ht ↦ ?_, fun t _ hb ↦ absurd hb.1 (hnone t), fun t ht ↦ ?_,
    fun t hb ↦ absurd hb.1 (hnone t), fun t ht ↦ absurd ht (hnone t)⟩
  · show none = some t ↔ t + 1 = 0
    simp
  · exact absurd ht (Nat.not_lt_zero _)
  · cases ht

/-- A task in progress is that of the latest spawn. -/
theorem Sound.eq_latest (h : s.Sound) (ht : t < s.starts.size)
    (hpc : (s.starts t).pc.isDone = false) : t + 1 = s.starts.size := by
  by_contra hne
  have hearlier := h.earlier t (by omega)
  rw [hpc] at hearlier
  cases hearlier

theorem Sound.start (h : s.Sound) (hdone : s.startFuture.isNone || s.done s.startFuture) :
    s.start.Sound := by
  have hold : ∀ {u}, u < s.starts.size → s.start.starts u = s.starts u := by
    intro u hu
    show (if u = s.starts.size then _ else _) = _
    rw [if_neg (by omega)]
  have hnew : s.start.starts s.starts.size = {} := if_pos rfl
  have hbegun : ∀ {u}, s.start.Begun u → u < s.starts.size ∧ s.Begun u := by
    rintro u ⟨hu, hpc⟩
    rcases Nat.lt_succ_iff_lt_or_eq.1 hu with hu | rfl
    · rw [hold hu] at hpc
      exact ⟨hu, hu, hpc⟩
    · rw [hnew] at hpc
      exact absurd rfl hpc
  refine ⟨fun u ↦ ?_, fun u hu ↦ ?_, fun u hu hb ↦ ?_, fun u hu ↦ ?_, fun u hb ↦ ?_,
    fun u hu hpc ↦ ?_⟩
  · show some s.starts.size = some u ↔ u + 1 = s.starts.size + 1
    rw [Option.some_inj]
    omega
  · have hu : u < s.starts.size := Nat.lt_of_succ_lt_succ hu
    rw [hold hu]
    rcases Nat.lt_or_ge (u + 1) s.starts.size with hlt | hge
    · exact h.earlier u hlt
    · rw [(h.latest u).2 (by omega)] at hdone
      exact hdone
  · have hlt := (hbegun hb).1
    have hu : u + 1 = s.starts.size + 1 := hu
    omega
  · have hmade := h.made u hu
    exact ⟨Nat.lt_succ_of_lt hmade.1, by rw [hold hmade.1]; exact hmade.2⟩
  · obtain ⟨hu, hb⟩ := hbegun hb
    rw [hold hu]
    exact h.log u hb
  · rcases Nat.lt_succ_iff_lt_or_eq.1 hu with hu | rfl
    · rw [hold hu] at hpc ⊢
      exact h.fresh u hu hpc
    · rw [hnew]

theorem Sound.beginStart (h : s.Sound) (ht : t < s.starts.size)
    (hpc : (s.starts t).pc = .scheduled) : (s.beginStart t).Sound := by
  have hlatest : t + 1 = s.starts.size := h.eq_latest ht (by rw [hpc]; rfl)
  have hself : (s.beginStart t).starts t = { s.starts t with pc := .createLab } := if_pos rfl
  have hother : ∀ {u}, u ≠ t → (s.beginStart t).starts u = s.starts u := fun hu ↦ if_neg hu
  refine ⟨h.latest, fun u hu ↦ ?_, fun u hu hb ↦ ?_, fun u hu ↦ ?_, fun u hb ↦ ?_,
    fun u hu hpc' ↦ ?_⟩
  · have hu : u + 1 < s.starts.size := hu
    rw [hother (by omega)]
    exact h.earlier u hu
  · have hu : u + 1 = s.starts.size := hu
    show some t = some u
    rw [Option.some_inj]
    omega
  · obtain rfl : t = u := Option.some.inj hu
    exact ⟨ht, by rw [hself]; simp⟩
  · show (if some u = some t then [] else s.lists (some u)) = _
    rcases eq_or_ne u t with rfl | hne
    · rw [if_pos rfl, hself]
      exact (h.fresh u ht hpc).symm
    · rw [if_neg (by simpa using hne), hother hne]
      exact h.log u ⟨hb.1, by simpa only [hother hne] using hb.2⟩
  · rcases eq_or_ne u t with rfl | hne
    · rw [hself] at hpc'
      cases hpc'
    · rw [hother hne] at hpc' ⊢
      exact h.fresh u hu hpc'

theorem Sound.goOn (h : s.Sound) (ht : t < s.starts.size) {reply : StartReply} {task : StartTask}
    {e : Option SpawnEvent} (hblock : (s.starts t).block reply = some (task, e)) :
    (s.goOn t task e).Sound := by
  obtain ⟨hpc, hnext, happended⟩ := StartTask.block_spec hblock
  have hbegun : s.Begun t := ⟨ht, StartPc.ne_scheduled_of_inProgress hpc⟩
  have hlatest : t + 1 = s.starts.size := h.eq_latest ht (StartPc.isDone_of_inProgress hpc)
  have hevents : s.events = some t := h.current t hlatest hbegun
  have hself : (s.goOn t task e).starts t =
      { task with appended := task.appended ++ e.toList } := if_pos rfl
  have hother : ∀ {u}, u ≠ t → (s.goOn t task e).starts u = s.starts u := fun hu ↦ if_neg hu
  refine ⟨h.latest, fun u hu ↦ ?_, fun u hu hb ↦ ?_, fun u hu ↦ ?_, fun u hb ↦ ?_,
    fun u hu hpc' ↦ ?_⟩
  · have hu : u + 1 < s.starts.size := hu
    rw [hother (by omega)]
    exact h.earlier u hu
  · obtain rfl : u = t := by
      have hu : u + 1 = s.starts.size := hu
      omega
    exact hevents
  · obtain rfl : t = u := Option.some.inj (hevents.symm.trans hu)
    exact ⟨ht, by rw [hself]; exact hnext⟩
  · show (if some u = s.events then s.lists (some u) ++ e.toList else s.lists (some u)) = _
    rcases eq_or_ne u t with rfl | hne
    · rw [if_pos hevents.symm, hself, h.log u hbegun, happended]
    · rw [if_neg (by simpa [hevents] using hne), hother hne]
      exact h.log u ⟨hb.1, by simpa only [hother hne] using hb.2⟩
  · rcases eq_or_ne u t with rfl | hne
    · rw [hself] at hpc'
      exact absurd hpc' hnext
    · rw [hother hne] at hpc' ⊢
      exact h.fresh u hu hpc'

/-- Setting triggers and what iterators do leaves the spawns alone. -/
theorem Sound.of_listeners (h : s.Sound) (triggers : List ℕ) (listeners : Heap Listener) :
    Sound { s with triggers := triggers, listeners := listeners } :=
  ⟨h.latest, h.earlier, h.current, h.made, h.log, h.fresh⟩

/-- **Soundness is preserved** by every step. -/
theorem Sound.step (h : s.Sound) {label : Label} (hstep : s.step label = some s') : s'.Sound := by
  cases label with
  | start =>
    obtain ⟨hdone, heq⟩ := Option.ite_none_right_eq_some.1 hstep
    obtain rfl := Option.some.inj heq
    exact h.start hdone
  | beginStart t =>
    obtain ⟨⟨ht, hpc⟩, heq⟩ := Option.ite_none_right_eq_some.1 hstep
    obtain rfl := Option.some.inj heq
    exact h.beginStart ht hpc
  | resumeStart t reply =>
    obtain ⟨ht, hresume⟩ := Option.ite_none_right_eq_some.1 hstep
    obtain ⟨⟨task, e⟩, hblock, rfl⟩ := Option.map_eq_some_iff.1 hresume
    have hgoOn := h.goOn ht hblock
    dsimp only
    split
    · exact hgoOn.of_listeners _ _
    · exact hgoOn
  | progress =>
    obtain rfl := Option.some.inj hstep
    exact h.of_listeners _ _
  | next l =>
    obtain ⟨-, hnext⟩ := Option.ite_none_right_eq_some.1 hstep
    obtain ⟨i, len, -, rfl⟩ := next_eq_some.1 hnext
    exact h.of_listeners _ _
  | wake l =>
    obtain ⟨-, hwake⟩ := Option.ite_none_right_eq_some.1 hstep
    obtain ⟨since, -, -, rfl⟩ := wake_eq_some.1 hwake
    exact h.of_listeners _ _
  | timeOut l =>
    obtain ⟨-, htimeOut⟩ := Option.ite_none_right_eq_some.1 hstep
    obtain ⟨since, -, rfl⟩ := timeOut_eq_some.1 htimeOut
    exact h.of_listeners _ _

end NubladoSpawner

/-! ### The iterators -/

/-- What holds of an iterator that follows a spawn: `log` is what the spawn has appended so far and
`finished` says whether it is done. -/
structure Listener.Tracks (x : Listener) (log : List SpawnEvent) (finished : Bool) : Prop where
  /-- It has yielded the first of the events, in order. -/
  seen : x.yielded <+: log.map SpawnEvent.toDict
  yielding : ∀ i len, x.pc = .yielding i len → i + 1 = x.yielded.length ∧ i < len ∧
    len ≤ log.length ∧ (x.complete = true → finished = true ∧ len = log.length)
  waiting : ∀ since, x.pc = .waiting since → x.nextEvent = x.yielded.length ∧
    x.complete = false ∧ since ≤ x.trigger.sets ∧ (finished = true → since < x.trigger.sets)
  /-- Until it knows that the spawn is done, its trigger says whether it is. -/
  trigger : x.pc ≠ .ended → x.complete = false → x.trigger.isSet = finished
  /-- It ends when all has been yielded, unless a wait was given up. -/
  ended : x.pc = .ended → x.timedOut = true ∨ finished = true ∧ x.yielded = log.map SpawnEvent.toDict

namespace Listener

variable {s : NubladoSpawner} {x : Listener} {log : List SpawnEvent} {finished : Bool}

@[simp] theorem startFuture_pass : (x.pass s).startFuture = x.startFuture := by
  unfold pass wait
  dsimp only
  split
  · rfl
  · split_ifs <;> rfl

@[simp] theorem events_pass : (x.pass s).events = x.events := by
  unfold pass wait
  dsimp only
  split
  · rfl
  · split_ifs <;> rfl

@[simp] theorem startFuture_afterYield (i len : ℕ) :
    (x.afterYield s i len).startFuture = x.startFuture := by
  unfold afterYield afterEvents
  split_ifs
  · split <;> rfl
  · dsimp only
    split_ifs
    · rfl
    · exact startFuture_pass
    · rfl

@[simp] theorem events_afterYield (i len : ℕ) : (x.afterYield s i len).events = x.events := by
  unfold afterYield afterEvents
  split_ifs
  · split <;> rfl
  · dsimp only
    split_ifs
    · rfl
    · exact events_pass
    · rfl

/-- Yielding the event that comes next. -/
theorem seen_concat (hseen : x.yielded <+: log.map SpawnEvent.toDict) {e : SpawnEvent}
    (he : log[x.yielded.length]? = some e) :
    x.yielded ++ [e.toDict] <+: log.map SpawnEvent.toDict :=
  prefix_concat_of_getElem? hseen (by rw [List.getElem?_map, he]; rfl)

/-- Nothing is left to yield. -/
theorem all_seen (hseen : x.yielded <+: log.map SpawnEvent.toDict)
    (hlen : log.length ≤ x.yielded.length) : x.yielded = log.map SpawnEvent.toDict :=
  hseen.eq_of_length_le (by rwa [List.length_map])

/-- **One pass through the loop**, from a state in which all of the events that were counted have
been yielded. -/
theorem tracks_pass (hlog : s.lists x.events = log) (hover : s.done x.startFuture = finished)
    (hseen : x.yielded <+: log.map SpawnEvent.toDict) (hnext : x.nextEvent = x.yielded.length)
    (hcomplete : x.complete = false) : (x.pass s).Tracks log finished := by
  have hnow : (x.complete || s.done x.startFuture) = finished := by rw [hcomplete, hover]; rfl
  unfold pass
  rw [hnow, hlog, hnext]
  dsimp only
  split
  · next e he =>
    have hlt : x.yielded.length < log.length := (List.getElem?_eq_some_iff.1 he).1
    refine ⟨seen_concat hseen he, fun i len hpc ↦ ?_, by simp, fun _ hfalse ↦ ?_, by simp⟩
    · obtain ⟨rfl, rfl⟩ := ProgressPc.yielding.inj hpc
      exact ⟨by simp, hlt, Nat.le_refl _, fun hcomplete ↦ ⟨hcomplete, rfl⟩⟩
    · exact Eq.symm hfalse
  · next he =>
    have hall := all_seen hseen (List.getElem?_eq_none_iff.1 he)
    split
    · next hover =>
      exact ⟨hseen, by simp, by simp, by simp, fun _ ↦ Or.inr ⟨hover, hall⟩⟩
    · next hover =>
      refine ⟨hseen, by simp [wait], fun since hpc ↦ ?_, fun _ _ ↦ ?_, by simp [wait]⟩
      · obtain rfl := ProgressPc.waiting.inj hpc
        exact ⟨rfl, hcomplete, Nat.le_refl _, fun h ↦ absurd h hover⟩
      · show false = finished
        simpa using hover

/-- **Being asked for the next item** at a `yield`. -/
theorem tracks_afterYield (hlog : s.lists x.events = log) (hover : s.done x.startFuture = finished)
    (h : x.Tracks log finished) {i len : ℕ} (hpc : x.pc = .yielding i len) :
    (x.afterYield s i len).Tracks log finished := by
  obtain ⟨hi, hlt, hlen, hknown⟩ := h.yielding i len hpc
  have htrigger := h.trigger (by rw [hpc]; simp)
  unfold afterYield
  rw [hlog]
  split
  · next hmore =>
    have he : log[i + 1]? = some log[i + 1] := List.getElem?_eq_getElem (by omega)
    rw [he]
    refine ⟨seen_concat h.seen (by rw [← hi, he]), fun i' len' hpc' ↦ ?_, by simp,
      fun _ ↦ htrigger, by simp⟩
    obtain ⟨rfl, rfl⟩ := ProgressPc.yielding.inj hpc'
    exact ⟨by simp [hi], hmore, hlen, hknown⟩
  · next hlast =>
    have hcount : len = x.yielded.length := by omega
    unfold afterEvents
    dsimp only
    split
    · next hcomplete =>
      obtain ⟨hdone, hlen⟩ := hknown hcomplete
      have hall := all_seen h.seen (by omega)
      exact ⟨h.seen, by simp, by simp, by simp, fun _ ↦ Or.inr ⟨hdone, hall⟩⟩
    · next hcomplete =>
      have hcomplete : x.complete = false := by simpa using hcomplete
      split
      · exact tracks_pass hlog hover h.seen hcount hcomplete
      · next hset =>
        refine ⟨h.seen, by simp [wait], fun since hpc' ↦ ?_, fun _ _ ↦ htrigger hcomplete,
          by simp [wait]⟩
        obtain rfl := ProgressPc.waiting.inj hpc'
        exact ⟨hcount, hcomplete, Nat.le_refl _, fun hdone ↦ absurd ((htrigger hcomplete).trans hdone) hset⟩

/-- More events arrive while the spawn is not done. -/
theorem Tracks.grow (h : x.Tracks log false) (es : List SpawnEvent) :
    x.Tracks (log ++ es) false := by
  refine ⟨?_, fun i len hpc ↦ ?_, h.waiting, h.trigger, fun hpc ↦ ?_⟩
  · rw [List.map_append]
    exact h.seen.trans (List.prefix_append _ _)
  · obtain ⟨hi, hlt, hlen, hknown⟩ := h.yielding i len hpc
    refine ⟨hi, hlt, ?_, fun hcomplete ↦ absurd (hknown hcomplete).1 (by simp)⟩
    rw [List.length_append]
    omega
  · rcases h.ended hpc with htimedOut | ⟨hover, -⟩
    · exact Or.inl htimedOut
    · cases hover

/-- The trigger is set when the spawn is done, or later. -/
theorem Tracks.notify (h : x.Tracks log finished) :
    { x with trigger := x.trigger.set }.Tracks log true := by
  refine ⟨h.seen, fun i len hpc ↦ ?_, fun since hpc ↦ ?_, fun _ _ ↦ rfl, fun hpc ↦ ?_⟩
  · obtain ⟨hi, hlt, hlen, hknown⟩ := h.yielding i len hpc
    exact ⟨hi, hlt, hlen, fun hcomplete ↦ ⟨rfl, (hknown hcomplete).2⟩⟩
  · obtain ⟨hnext, hcomplete, hsince, -⟩ := h.waiting since hpc
    have hsets : since < x.trigger.sets + 1 := by omega
    exact ⟨hnext, hcomplete, Nat.le_of_lt hsets, fun _ ↦ hsets⟩
  · rcases h.ended hpc with htimedOut | ⟨-, hall⟩
    · exact Or.inl htimedOut
    · exact Or.inr ⟨rfl, hall⟩

end Listener

namespace NubladoSpawner

variable {s s' : NubladoSpawner} {t l : ℕ}

/-- The iterator follows the spawn: it has captured its future and the event list that it made. -/
def Follows (s : NubladoSpawner) (l t : ℕ) : Prop :=
  l < s.listeners.size ∧ (s.listeners l).startFuture = some t ∧ (s.listeners l).events = some t

instance : Decidable (s.Follows l t) := inferInstanceAs (Decidable (_ ∧ _ ∧ _))

/-- What holds of the iterators in every state. -/
def Tracking (s : NubladoSpawner) : Prop :=
  ∀ l t, s.Follows l t → s.Begun t ∧
    (s.listeners l).Tracks (s.starts t).appended (s.starts t).pc.isDone ∧
    ((s.starts t).pc.isDone = false → l ∈ s.triggers)

theorem tracking_init : Tracking {} := fun _ _ h ↦ absurd h.1 (Nat.not_lt_zero _)

/-- A follower of a state whose iterators are the same. -/
theorem Tracking.start (h : s.Tracking) : s.start.Tracking := by
  intro l t hfollows
  obtain ⟨⟨ht, hpc⟩, htracks, hknown⟩ := h l t hfollows
  have hold : s.start.starts t = s.starts t := if_neg (by omega)
  rw [Begun, hold]
  exact ⟨⟨Nat.lt_succ_of_lt ht, hpc⟩, htracks, hknown⟩

theorem listeners_setTriggers (s : NubladoSpawner) (l : ℕ) :
    s.setTriggers.listeners l =
      if l ∈ s.triggers then { s.listeners l with trigger := (s.listeners l).trigger.set }
      else s.listeners l := rfl

theorem follows_setTriggers : s.setTriggers.Follows l t ↔ s.Follows l t := by
  unfold Follows
  rw [listeners_setTriggers]
  split <;> rfl

/-- Once a spawn is done, setting triggers makes no difference to its followers, and when it ends it
sets those of all of them. -/
theorem tracks_setTriggers {log : List SpawnEvent} {finished : Bool}
    (h : (s.listeners l).Tracks log finished) (hknown : finished = false → l ∈ s.triggers) :
    (s.setTriggers.listeners l).Tracks log true := by
  rw [listeners_setTriggers]
  split
  · exact h.notify
  · next hunknown =>
    cases finished with
    | false => exact absurd (hknown rfl) hunknown
    | true => exact h

theorem Tracking.beginStart (h : s.Tracking) (hsound : s.Sound) (ht : t < s.starts.size)
    (hpc : (s.starts t).pc = .scheduled) : (s.beginStart t).Tracking := by
  intro l u hfollows
  obtain ⟨hbegun, htracks, hknown⟩ := h l u (follows_setTriggers.1 hfollows)
  have hne : u ≠ t := by
    rintro rfl
    exact hbegun.2 hpc
  have hdone : (s.starts u).pc.isDone = true := by
    refine hsound.earlier u ?_
    have hlatest := hsound.eq_latest ht (by rw [hpc]; rfl)
    have hu := hbegun.1
    omega
  have hother : (s.beginStart t).starts u = s.starts u := if_neg hne
  rw [Begun, hother, hdone]
  exact ⟨hbegun, tracks_setTriggers htracks hknown, by simp⟩

theorem Tracking.resumeStart (h : s.Tracking) (hsound : s.Sound) (ht : t < s.starts.size)
    {reply : StartReply} (hresume : s.resumeStart t reply = some s') : s'.Tracking := by
  obtain ⟨⟨task, e⟩, hblock, rfl⟩ := Option.map_eq_some_iff.1 hresume
  obtain ⟨hpc, hnext, happended⟩ := StartTask.block_spec hblock
  have hself : (s.goOn t task e).starts t =
      { task with appended := task.appended ++ e.toList } := if_pos rfl
  have hother : ∀ {u}, u ≠ t → (s.goOn t task e).starts u = s.starts u := fun hu ↦ if_neg hu
  -- the followers of this spawn see the new event, and of another one nothing
  have hgrown : ∀ l u, s.Follows l u → (s.goOn t task e).Begun u ∧
      (s.listeners l).Tracks ((s.goOn t task e).starts u).appended (s.starts u).pc.isDone ∧
      ((s.starts u).pc.isDone = false → l ∈ s.triggers) := by
    intro l u hfollows
    obtain ⟨hbegun, htracks, hknown⟩ := h l u hfollows
    rcases eq_or_ne u t with rfl | hne
    · rw [StartPc.isDone_of_inProgress hpc] at htracks hknown ⊢
      rw [Begun, hself, happended]
      exact ⟨⟨ht, hnext⟩, htracks.grow _, hknown⟩
    · rw [Begun, hother hne]
      exact ⟨hbegun, htracks, hknown⟩
  intro l u hfollows
  dsimp only at hfollows ⊢
  by_cases hdone : task.pc.isDone = true
  · rw [if_pos hdone] at hfollows ⊢
    obtain ⟨hbegun, htracks, hknown⟩ := hgrown l u (follows_setTriggers.1 hfollows)
    have hover : ((s.goOn t task e).starts u).pc.isDone = true := by
      rcases eq_or_ne u t with rfl | hne
      · rw [hself]
        exact hdone
      · rw [hother hne]
        refine hsound.earlier u ?_
        have hlatest := hsound.eq_latest ht (StartPc.isDone_of_inProgress hpc)
        have hu : u < s.starts.size := hbegun.1
        omega
    refine ⟨hbegun, ?_, fun hrunning ↦ ?_⟩
    · show Listener.Tracks _ _ ((s.goOn t task e).starts u).pc.isDone
      rw [hover]
      exact tracks_setTriggers (s := s.goOn t task e) htracks hknown
    · have hrunning : ((s.goOn t task e).starts u).pc.isDone = false := hrunning
      rw [hover] at hrunning
      cases hrunning
  · rw [if_neg hdone] at hfollows ⊢
    obtain ⟨hbegun, htracks, hknown⟩ := hgrown l u hfollows
    have hsame : ((s.goOn t task e).starts u).pc.isDone = (s.starts u).pc.isDone := by
      rcases eq_or_ne u t with rfl | hne
      · rw [hself, StartPc.isDone_of_inProgress hpc]
        simpa using hdone
      · rw [hother hne]
    rw [hsame]
    exact ⟨hbegun, htracks, hknown⟩

theorem Tracking.put (h : s.Tracking) {x : Listener}
    (hfuture : x.startFuture = (s.listeners l).startFuture)
    (hevents : x.events = (s.listeners l).events)
    (hx : ∀ t, s.Follows l t → x.Tracks (s.starts t).appended (s.starts t).pc.isDone) :
    (s.put l x).Tracking := by
  intro l' t hfollows
  rcases eq_or_ne l' l with rfl | hne
  · have hself : (s.put l' x).listeners l' = x := if_pos rfl
    have hold : s.Follows l' t := by
      rw [Follows, hself, hfuture, hevents] at hfollows
      exact hfollows
    obtain ⟨hbegun, -, hknown⟩ := h l' t hold
    rw [hself]
    exact ⟨hbegun, hx t hold, hknown⟩
  · have hother : (s.put l x).listeners l' = s.listeners l' := if_neg hne
    rw [Follows, hother] at hfollows
    rw [hother]
    exact h l' t hfollows

/-- What a follower looks at: the list holds what the spawn has appended. -/
theorem Sound.looks (h : s.Sound) (hbegun : s.Begun t) {x : Listener}
    (hfuture : x.startFuture = some t) (hevents : x.events = some t) :
    s.lists x.events = (s.starts t).appended ∧ s.done x.startFuture = (s.starts t).pc.isDone := by
  rw [hevents, hfuture]
  exact ⟨h.log t hbegun, rfl⟩

/-- The iterator that `progress` makes. -/
theorem listeners_progress (s : NubladoSpawner) :
    s.progress.listeners s.listeners.size =
      if s.startFuture.isSome then
        Listener.pass s { pc := .ended, startFuture := s.startFuture, events := s.events }
      else { pc := .ended, startFuture := s.startFuture, events := s.events } :=
  if_pos rfl

theorem progress_captures (s : NubladoSpawner) :
    (s.progress.listeners s.listeners.size).startFuture = s.startFuture ∧
      (s.progress.listeners s.listeners.size).events = s.events := by
  rw [listeners_progress]
  split <;> simp

/-- **An iterator that is begun in time follows the spawn**, from its first step on. -/
theorem Tracking.progress (h : s.Tracking) (hsound : s.Sound) : s.progress.Tracking := by
  intro l t hfollows
  rcases eq_or_ne l s.listeners.size with rfl | hne
  · obtain ⟨-, hfuture, hevents⟩ := hfollows
    rw [(progress_captures s).1] at hfuture
    rw [(progress_captures s).2] at hevents
    have hbegun := hsound.made t hevents
    refine ⟨hbegun, ?_, fun _ ↦ List.mem_append_right _ (List.mem_singleton_self _)⟩
    rw [listeners_progress, if_pos (by rw [hfuture]; rfl)]
    obtain ⟨hlog, hover⟩ := hsound.looks (x := { pc := .ended, startFuture := s.startFuture, events := s.events }) hbegun hfuture hevents
    exact Listener.tracks_pass hlog hover (List.nil_prefix) rfl rfl
  · have hother : s.progress.listeners l = s.listeners l := if_neg hne
    have hlt : l < s.listeners.size := by
      have hlt : l < s.listeners.size + 1 := hfollows.1
      omega
    rw [Follows, hother] at hfollows
    obtain ⟨hbegun, htracks, hknown⟩ := h l t ⟨hlt, hfollows.2⟩
    rw [hother]
    exact ⟨hbegun, htracks, fun hrunning ↦ List.mem_append_left _ (hknown hrunning)⟩

/-- **Tracking is preserved** by every step. -/
theorem Tracking.step (h : s.Tracking) (hsound : s.Sound) {label : Label}
    (hstep : s.step label = some s') : s'.Tracking := by
  cases label with
  | start =>
    obtain ⟨-, heq⟩ := Option.ite_none_right_eq_some.1 hstep
    obtain rfl := Option.some.inj heq
    exact h.start
  | beginStart t =>
    obtain ⟨⟨ht, hpc⟩, heq⟩ := Option.ite_none_right_eq_some.1 hstep
    obtain rfl := Option.some.inj heq
    exact h.beginStart hsound ht hpc
  | resumeStart t reply =>
    obtain ⟨ht, hresume⟩ := Option.ite_none_right_eq_some.1 hstep
    exact h.resumeStart hsound ht hresume
  | progress =>
    obtain rfl := Option.some.inj hstep
    exact h.progress hsound
  | next l =>
    obtain ⟨-, hnext⟩ := Option.ite_none_right_eq_some.1 hstep
    obtain ⟨i, len, hpc, rfl⟩ := next_eq_some.1 hnext
    refine h.put (Listener.startFuture_afterYield i len) (Listener.events_afterYield i len)
      fun t hfollows ↦ ?_
    obtain ⟨hbegun, htracks, -⟩ := h l t hfollows
    obtain ⟨hlog, hover⟩ := hsound.looks hbegun hfollows.2.1 hfollows.2.2
    exact Listener.tracks_afterYield hlog hover htracks hpc
  | wake l =>
    obtain ⟨-, hwake⟩ := Option.ite_none_right_eq_some.1 hstep
    obtain ⟨since, hpc, -, rfl⟩ := wake_eq_some.1 hwake
    refine h.put Listener.startFuture_pass Listener.events_pass fun t hfollows ↦ ?_
    obtain ⟨hbegun, htracks, -⟩ := h l t hfollows
    obtain ⟨hlog, hover⟩ := hsound.looks hbegun hfollows.2.1 hfollows.2.2
    obtain ⟨hnext, hcomplete, -⟩ := htracks.waiting since hpc
    exact Listener.tracks_pass hlog hover htracks.seen hnext hcomplete
  | timeOut l =>
    obtain ⟨-, htimeOut⟩ := Option.ite_none_right_eq_some.1 hstep
    obtain ⟨since, -, rfl⟩ := timeOut_eq_some.1 htimeOut
    refine h.put rfl rfl fun t hfollows ↦ ?_
    obtain ⟨-, htracks, -⟩ := h l t hfollows
    exact ⟨htracks.seen, by simp, by simp, by simp, fun _ ↦ Or.inl rfl⟩

/-- **Both invariants hold in every state** that a run reaches. -/
theorem sound_and_tracking {τ : List (Transition NubladoSpawner Label)} (hrun : Run τ s) :
    s.Sound ∧ s.Tracking :=
  hrun.invariant (P := fun s ↦ s.Sound ∧ s.Tracking)
    (fun _ _ _ h hstep ↦ ⟨h.1.step hstep, h.2.step h.1 hstep⟩) ⟨sound_init, tracking_init⟩

end NubladoSpawner

end Nublado.Hub
