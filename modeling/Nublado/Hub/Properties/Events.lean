import Nublado.Hub.Properties.Progress

/-!
# Progress events that are not as they should be

What a spawn makes of the server-sent events that it is sent. The data of an event is meant to be an
object with a message and, perhaps, a progress from 0 to 100, but it may be anything.

`handled_iff` says which events become spawn events with a progress in range. Two kinds do not: without
a message the constructor raises (`LacksMessage`), and a progress out of range has replaced the running
one before it is rejected (`OutOfRange`). The event for completion has a progress of its own.
`events_handled_iff` is the same for the events of all spawns in a run, with the failures that they lead
to: as long as no such event arrives, the running progress stays in range (`InRange.step`).
-/

namespace Nublado.Hub

variable {sse : ServerSentEvent} {p : ℤ} {event : SpawnEvent}

/-! ### The data of an event -/

namespace ServerSentEvent

/-- The data is an object without keys other than those of an event. -/
def HasItems (sse : ServerSentEvent) (data : List (String × JsonValue)) : Prop :=
  sse.json = some data ∧ (data.all fun p ↦ ["message", "progress"].contains p.1) = true

/-- The data has a progress that is read as this number. -/
def SaysProgress (sse : ServerSentEvent) (n : ℤ) : Prop :=
  ∃ data value, sse.HasItems data ∧ data.lookup "progress" = some value ∧ value.int = some n

/-- The data has a progress that can be used. -/
def Usable (sse : ServerSentEvent) : Prop := ∃ n, sse.SaysProgress n ∧ 0 ≤ n ∧ n ≤ 100

/-- The data has a progress that is not a percentage. -/
def OutOfRange (sse : ServerSentEvent) : Prop := ∃ n, sse.SaysProgress n ∧ (n < 0 ∨ 100 < n)

/-- The data is accepted, with a progress that can be used or none, and has no message. -/
def LacksMessage (sse : ServerSentEvent) : Prop :=
  ∃ data, sse.HasItems data ∧ data.lookup "message" = none ∧
    (data.lookup "progress" = none ∨ sse.Usable)

end ServerSentEvent

open ServerSentEvent

theorem ServerSentEvent.HasItems.unique {data data' : List (String × JsonValue)}
    (h : sse.HasItems data) (h' : sse.HasItems data') : data = data' :=
  Option.some.inj (h.1.symm.trans h'.1)

theorem ServerSentEvent.SaysProgress.unique {m n : ℤ} (h : sse.SaysProgress m)
    (h' : sse.SaysProgress n) : m = n := by
  obtain ⟨data, value, hitems, hlookup, hint⟩ := h
  obtain ⟨data', value', hitems', hlookup', hint'⟩ := h'
  obtain rfl := hitems.unique hitems'
  obtain rfl := Option.some.inj (hlookup.symm.trans hlookup')
  exact Option.some.inj (hint.symm.trans hint')

theorem not_usable_of_outOfRange (h : sse.OutOfRange) : ¬ sse.Usable := by
  obtain ⟨n, hn, hrange⟩ := h
  rintro ⟨m, hm, hlow, hhigh⟩
  obtain rfl := hm.unique hn
  omega

/-- **What is read from the data.** A progress that cannot be used is either none, so that the running
one stays, or out of range, and then it is kept all the same. -/
theorem readData_cases (sse : ServerSentEvent) (p : ℤ) :
    (sse.LacksMessage ∧ (SpawnEvent.readData sse p).1 = none) ∨
      ¬ sse.LacksMessage ∧ (SpawnEvent.readData sse p).1.isSome = true ∧
        ((sse.Usable ∧ 0 ≤ (SpawnEvent.readData sse p).2 ∧ (SpawnEvent.readData sse p).2 ≤ 100) ∨
          (¬ sse.Usable ∧ ¬ sse.OutOfRange ∧ (SpawnEvent.readData sse p).2 = p) ∨
          (sse.OutOfRange ∧
            ((SpawnEvent.readData sse p).2 < 0 ∨ 100 < (SpawnEvent.readData sse p).2))) := by
  by_cases hitems : ∃ data, sse.HasItems data
  · obtain ⟨data, hdata⟩ := hitems
    obtain ⟨hjson, hkeys⟩ := id hdata
    have hlacks : sse.LacksMessage ↔ data.lookup "message" = none ∧
        (data.lookup "progress" = none ∨ sse.Usable) := by
      constructor
      · rintro ⟨data', hdata', h⟩
        rwa [hdata.unique hdata']
      · exact fun h ↦ ⟨data, hdata, h⟩
    have hreads : ∀ n, sse.SaysProgress n ↔ ∃ value, data.lookup "progress" = some value ∧
        value.int = some n := by
      intro n
      constructor
      · rintro ⟨data', value, hdata', h⟩
        obtain rfl := hdata.unique hdata'
        exact ⟨value, h⟩
      · rintro ⟨value, h⟩
        exact ⟨data, value, hdata, h⟩
    have hmessage : (data.lookup "message").isSome = true ∨ data.lookup "message" = none := by
      rcases data.lookup "message" with _ | value
      · exact Or.inr rfl
      · exact Or.inl rfl
    rcases hprogress : data.lookup "progress" with _ | value
    · -- there is no progress
      have hread : SpawnEvent.readData sse p = ((data.lookup "message").map JsonValue.text, p) := by
        simp only [SpawnEvent.readData, hjson, hkeys, if_true, hprogress]
      have hnone : ∀ n, ¬ sse.SaysProgress n := by
        intro n hn
        obtain ⟨value, hvalue, -⟩ := (hreads n).1 hn
        rw [hprogress] at hvalue
        cases hvalue
      rw [hread, hlacks, hprogress]
      rcases hmessage with hsome | hno
      · refine Or.inr ⟨?_, by simpa using hsome, Or.inr (Or.inl ⟨?_, ?_, rfl⟩)⟩
        · rintro ⟨hno, -⟩
          rw [hno] at hsome
          cases hsome
        · exact fun ⟨n, hn, _⟩ ↦ hnone n hn
        · exact fun ⟨n, hn, _⟩ ↦ hnone n hn
      · exact Or.inl ⟨⟨hno, Or.inl rfl⟩, by rw [hno]; rfl⟩
    · rcases hint : value.int with _ | n
      · -- the progress is no number
        have hread : SpawnEvent.readData sse p = (some sse.data, p) := by
          simp only [SpawnEvent.readData, hjson, hkeys, if_true, hprogress, hint]
        have hnone : ∀ n, ¬ sse.SaysProgress n := by
          intro n hn
          obtain ⟨value', hvalue, hint'⟩ := (hreads n).1 hn
          obtain rfl := Option.some.inj (hprogress.symm.trans hvalue)
          rw [hint] at hint'
          cases hint'
        rw [hread, hlacks, hprogress]
        refine Or.inr ⟨?_, rfl, Or.inr (Or.inl ⟨?_, ?_, rfl⟩)⟩
        · rintro ⟨-, hno | ⟨n, hn, -⟩⟩
          · cases hno
          · exact hnone n hn
        · exact fun ⟨n, hn, _⟩ ↦ hnone n hn
        · exact fun ⟨n, hn, _⟩ ↦ hnone n hn
      · have hn : sse.SaysProgress n := (hreads n).2 ⟨value, hprogress, hint⟩
        by_cases hrange : n < 0 ∨ 100 < n
        · -- the progress has been replaced before it is rejected
          have hread : SpawnEvent.readData sse p = (some sse.data, n) := by
            simp only [SpawnEvent.readData, hjson, hkeys, if_true, hprogress, hint, if_pos hrange]
          have hout : sse.OutOfRange := ⟨n, hn, hrange⟩
          rw [hread, hlacks, hprogress]
          refine Or.inr ⟨?_, rfl, Or.inr (Or.inr ⟨hout, hrange⟩)⟩
          rintro ⟨-, hno | husable⟩
          · cases hno
          · exact not_usable_of_outOfRange hout husable
        · have hread : SpawnEvent.readData sse p =
              ((data.lookup "message").map JsonValue.text, n) := by
            simp only [SpawnEvent.readData, hjson, hkeys, if_true, hprogress, hint, if_neg hrange]
          have husable : sse.Usable := ⟨n, hn, by omega, by omega⟩
          rw [hread, hlacks, hprogress]
          rcases hmessage with hsome | hno
          · refine Or.inr ⟨?_, by simpa using hsome, Or.inl ⟨husable, ?_⟩⟩
            · rintro ⟨hno, -⟩
              rw [hno] at hsome
              cases hsome
            · exact ⟨by omega, by omega⟩
          · exact Or.inl ⟨⟨hno, Or.inr husable⟩, by rw [hno]; rfl⟩
  · -- the data is the message
    have hread : SpawnEvent.readData sse p = (some sse.data, p) := by
      rcases hjson : sse.json with _ | data
      · simp only [SpawnEvent.readData, hjson]
      · simp only [SpawnEvent.readData, hjson]
        exact if_neg fun hkeys ↦ hitems ⟨data, hjson, hkeys⟩
    rw [hread]
    refine Or.inr ⟨?_, rfl, Or.inr (Or.inl ⟨?_, ?_, rfl⟩)⟩
    · exact fun ⟨data, hdata, _⟩ ↦ hitems ⟨data, hdata⟩
    · exact fun ⟨_, ⟨data, _, hdata, _⟩, _⟩ ↦ hitems ⟨data, hdata⟩
    · exact fun ⟨_, ⟨data, _, hdata, _⟩, _⟩ ↦ hitems ⟨data, hdata⟩

/-! ### The event that is made of it -/

/-- An event is made of it whose progress is in range if the running progress is, and is the running
progress if the data carries none that can be used. -/
def Handled (sse : ServerSentEvent) (p : ℤ) : Prop :=
  ∃ event, SpawnEvent.fromSse sse p = some event ∧
    (0 ≤ p → p ≤ 100 → 0 ≤ event.progress ∧ event.progress ≤ 100) ∧
    (¬ sse.Usable → event.progress = p)

/-- There is a message, and a progress that the event takes from the data is in range. An event for
completion takes none, and has 75. -/
def Proper (sse : ServerSentEvent) (p : ℤ) : Prop :=
  ¬ sse.LacksMessage ∧ if sse.event = "complete" then sse.Usable ∨ p = 75 else ¬ sse.OutOfRange

/-- The progress and the failure of an event. -/
theorem fromSse_eq_some (h : SpawnEvent.fromSse sse p = some event) :
    (SpawnEvent.readData sse p).1.isSome = true ∧
      event.progress = (if sse.event = "complete" then 75 else (SpawnEvent.readData sse p).2) ∧
      (event.failed = true → sse.event = "failed") := by
  obtain ⟨message, hmessage, rfl⟩ := Option.map_eq_some_iff.1 h
  have hmessage : (SpawnEvent.readData sse p).1 = some message := hmessage
  rw [hmessage]
  split_ifs with hcomplete hseverity hfailed
  · exact ⟨rfl, rfl, fun h ↦ by cases h⟩
  · exact ⟨rfl, rfl, fun h ↦ by cases h⟩
  · exact ⟨rfl, rfl, fun _ ↦ hfailed⟩
  · exact ⟨rfl, rfl, fun h ↦ by cases h⟩

theorem exists_fromSse (h : (SpawnEvent.readData sse p).1.isSome = true) :
    ∃ event, SpawnEvent.fromSse sse p = some event := by
  obtain ⟨message, hmessage⟩ := Option.isSome_iff_exists.1 h
  exact ⟨_, Option.map_eq_some_iff.2 ⟨message, hmessage, rfl⟩⟩

/-- **The events that are handled**, where the running progress is in range. -/
theorem handled_iff (hlow : 0 ≤ p) (hhigh : p ≤ 100) : Handled sse p ↔ Proper sse p := by
  rcases readData_cases sse p with ⟨hlacks, hnone⟩ | ⟨hlacks, hsome, hcases⟩
  · refine iff_of_false ?_ fun h ↦ h.1 hlacks
    rintro ⟨event, hevent, -⟩
    have hsome := (fromSse_eq_some hevent).1
    rw [hnone] at hsome
    cases hsome
  · obtain ⟨event, hevent⟩ := exists_fromSse hsome
    obtain ⟨-, hprogress, -⟩ := fromSse_eq_some hevent
    have hhandled : Handled sse p ↔ (0 ≤ event.progress ∧ event.progress ≤ 100) ∧
        (¬ sse.Usable → event.progress = p) := by
      constructor
      · rintro ⟨event', hevent', hrange, hkeep⟩
        obtain rfl := Option.some.inj (hevent.symm.trans hevent')
        exact ⟨hrange hlow hhigh, hkeep⟩
      · rintro ⟨hrange, hkeep⟩
        exact ⟨event, hevent, fun _ _ ↦ hrange, hkeep⟩
    rw [hhandled, Proper, hprogress]
    by_cases hcomplete : sse.event = "complete"
    · rw [if_pos hcomplete, if_pos hcomplete]
      constructor
      · rintro ⟨-, hkeep⟩
        refine ⟨hlacks, ?_⟩
        by_cases husable : sse.Usable
        · exact Or.inl husable
        · exact Or.inr (hkeep husable).symm
      · rintro ⟨-, husable | rfl⟩
        · exact ⟨by omega, fun h ↦ absurd husable h⟩
        · exact ⟨by omega, fun _ ↦ rfl⟩
    · rw [if_neg hcomplete, if_neg hcomplete]
      rcases hcases with ⟨husable, hrange⟩ | ⟨-, hout, hkeep⟩ | ⟨hout, hrange⟩
      · refine iff_of_true ⟨hrange, fun h ↦ absurd husable h⟩ ⟨hlacks, ?_⟩
        exact fun h ↦ not_usable_of_outOfRange h husable
      · rw [hkeep]
        exact iff_of_true ⟨⟨hlow, hhigh⟩, fun _ ↦ rfl⟩ ⟨hlacks, hout⟩
      · exact iff_of_false (fun h ↦ by omega) fun h ↦ h.2 hout

/-! ### Steps of a spawn -/

/-- A step of the task: where its progress comes from, and what it fails for while it waits for the next
event. -/
theorem StartTask.block_events {task task' : StartTask} {reply : StartReply} {e : Option SpawnEvent}
    (h : task.block reply = some (task', e)) :
    (task'.progress = task.progress ∨ ∃ sse event, reply = .sse sse ∧ sse.event ≠ "ping" ∧
      SpawnEvent.fromSse sse task.progress = some event ∧ task'.progress = event.progress) ∧
    (task.pc = .nextEvent → ∀ error, task'.pc = .done (.error error) → reply = .raised ∨
      ∃ sse, reply = .sse sse ∧ sse.event ≠ "ping" ∧
        (SpawnEvent.fromSse sse task.progress = none ∨ sse.event = "failed")) := by
  by_cases hpc : task.pc = .nextEvent
  · rcases reply with status | sse | _ | ⟨status, url⟩ | _
    · simp [StartTask.block, hpc] at h
    · have hreceive : task.receive sse = (task', e) := by
        simpa [StartTask.block, hpc] using h
      by_cases hping : sse.event = "ping"
      · rw [StartTask.receive, if_pos hping] at hreceive
        obtain rfl := congrArg Prod.fst hreceive
        refine ⟨Or.inl rfl, fun _ error herror ↦ ?_⟩
        rw [hpc] at herror
        cases herror
      · rw [StartTask.receive, if_neg hping] at hreceive
        rcases hevent : SpawnEvent.fromSse sse task.progress with _ | event
        · rw [hevent] at hreceive
          obtain rfl := congrArg Prod.fst hreceive
          exact ⟨Or.inl rfl, fun _ error _ ↦ Or.inr ⟨sse, rfl, hping, Or.inl hevent⟩⟩
        · rw [hevent] at hreceive
          obtain rfl := congrArg Prod.fst hreceive
          obtain ⟨-, -, hfailed⟩ := fromSse_eq_some hevent
          constructor
          · by_cases hzero : event.progress = 0
            · exact Or.inl (if_pos hzero)
            · exact Or.inr ⟨sse, event, rfl, hping, hevent, if_neg hzero⟩
          · intro _ error herror
            refine Or.inr ⟨sse, rfl, hping, Or.inr (hfailed ?_)⟩
            by_contra hnot
            dsimp only at herror
            rw [if_neg hnot] at herror
            split_ifs at herror
    · obtain rfl : { task with pc := .internalUrl } = task' := by
        simpa [StartTask.block, hpc] using congrArg (Option.map Prod.fst) h
      exact ⟨Or.inl rfl, fun _ error herror ↦ by cases herror⟩
    · simp [StartTask.block, hpc] at h
    · obtain rfl : { task with pc := .done (.error .raised) } = task' := by
        simpa [StartTask.block, hpc] using congrArg (Option.map Prod.fst) h
      exact ⟨Or.inl rfl, fun _ error _ ↦ Or.inl rfl⟩
  · refine ⟨Or.inl ?_, fun h ↦ absurd h hpc⟩
    revert h
    fun_cases StartTask.block task reply
    case case8 hnext => exact absurd hnext hpc
    all_goals
      intro h
      cases h
    all_goals rfl

namespace NubladoSpawner

variable {s s' : NubladoSpawner} {τ : List (Transition NubladoSpawner Label)}

/-- The running progress of every spawn is a percentage. -/
def InRange (s : NubladoSpawner) : Prop :=
  ∀ t < s.starts.size, 0 ≤ (s.starts t).progress ∧ (s.starts t).progress ≤ 100

/-- The step handles the event that a spawn receives, if it receives one and does not ignore it, and
makes no spawn that waits for the next event fail but for an event that says so, or for an exception of
the wait itself. -/
def HandlesEvents (x : Transition NubladoSpawner Label) : Prop :=
  (∀ t sse, x.label = .resumeStart t (.sse sse) → sse.event ≠ "ping" →
    Handled sse (x.pre.starts t).progress) ∧
  ∀ t reply error, x.label = .resumeStart t reply → (x.pre.starts t).pc = .nextEvent →
    (x.post.starts t).pc = .done (.error error) →
    reply = .raised ∨ ∃ sse, reply = .sse sse ∧ sse.event = "failed"

/-- The event that a spawn receives, if it receives one and does not ignore it, is as it should be. -/
def ReceivesProper (x : Transition NubladoSpawner Label) : Prop :=
  ∀ t sse, x.label = .resumeStart t (.sse sse) → sse.event ≠ "ping" →
    Proper sse (x.pre.starts t).progress

/-- The step that resumes a spawn. -/
theorem resumeStart_elim {t : ℕ} {reply : StartReply}
    (hstep : s.step (.resumeStart t reply) = some s') : t < s.starts.size ∧
      ∃ task e, (s.starts t).block reply = some (task, e) ∧
        (s'.starts t).pc = task.pc ∧ (s'.starts t).progress = task.progress ∧
        s'.starts.size = s.starts.size ∧ ∀ u, u ≠ t → s'.starts u = s.starts u := by
  obtain ⟨ht, hresume⟩ := Option.ite_none_right_eq_some.1 hstep
  obtain ⟨hsize, ⟨task, e, hblock, hself⟩, hother⟩ := starts_resumeStart hresume
  exact ⟨ht, task, e, hblock, by rw [hself], by rw [hself], hsize, hother⟩

/-- **The running progress stays in range** in a step that handles its event. -/
theorem InRange.step (h : s.InRange) {label : Label} (hstep : s.step label = some s')
    (hhandles : HandlesEvents ⟨s, label, s'⟩) : s'.InRange := by
  intro t ht
  cases label with
  | start =>
    obtain ⟨-, heq⟩ := Option.ite_none_right_eq_some.1 hstep
    obtain rfl := Option.some.inj heq
    rcases Nat.lt_succ_iff_lt_or_eq.1 ht with hlt | rfl
    · have hsame : s.start.starts t = s.starts t := if_neg (by omega)
      rw [hsame]
      exact h t hlt
    · have hnew : s.start.starts s.starts.size = {} := if_pos rfl
      rw [hnew]
      decide
  | beginStart u =>
    obtain ⟨-, heq⟩ := Option.ite_none_right_eq_some.1 hstep
    obtain rfl := Option.some.inj heq
    have hsame : (s.beginStart u).starts t = s.starts t ∨
        (s.beginStart u).starts t = { s.starts t with pc := .createLab } := by
      rcases eq_or_ne t u with rfl | hne
      · exact Or.inr (if_pos rfl)
      · exact Or.inl (if_neg hne)
    rcases hsame with hsame | hsame
    · rw [hsame]
      exact h t ht
    · rw [hsame]
      exact h t ht
  | resumeStart u reply =>
    obtain ⟨hu, task, e, hblock, -, hprogress, hsize, hother⟩ := resumeStart_elim hstep
    rw [hsize] at ht
    rcases eq_or_ne t u with rfl | hne
    · rw [hprogress]
      obtain ⟨hlow, hhigh⟩ := h t ht
      rcases (StartTask.block_events hblock).1 with hkeep | ⟨sse, event, rfl, hping, hevent, htaken⟩
      · rw [hkeep]
        exact ⟨hlow, hhigh⟩
      · obtain ⟨event', hevent', hrange, -⟩ := hhandles.1 t sse rfl hping
        obtain rfl := Option.some.inj (hevent.symm.trans hevent')
        rw [htaken]
        exact hrange hlow hhigh
    · rw [hother t hne]
      exact h t ht
  | progress =>
    obtain rfl := Option.some.inj hstep
    exact h t ht
  | next l | wake l | timeOut l =>
    obtain ⟨x, rfl, -⟩ := own_step rfl hstep
    exact h t ht

/-- A step handles the event that is received exactly if that is as it should be. -/
theorem handlesEvents_iff (h : s.InRange) {label : Label} (hstep : s.step label = some s') :
    HandlesEvents ⟨s, label, s'⟩ ↔ ReceivesProper ⟨s, label, s'⟩ := by
  have hiff : ∀ t sse, label = .resumeStart t (.sse sse) →
      (Handled sse (s.starts t).progress ↔ Proper sse (s.starts t).progress) := by
    rintro t sse rfl
    obtain ⟨ht, -⟩ := resumeStart_elim hstep
    obtain ⟨hlow, hhigh⟩ := h t ht
    exact handled_iff hlow hhigh
  constructor
  · exact fun hhandles t sse hlabel hping ↦ (hiff t sse hlabel).1 (hhandles.1 t sse hlabel hping)
  · intro hproper
    refine ⟨fun t sse hlabel hping ↦ (hiff t sse hlabel).2 (hproper t sse hlabel hping), ?_⟩
    intro t reply error hlabel hpc herror
    obtain rfl : label = .resumeStart t reply := hlabel
    obtain ⟨-, task, e, hblock, hpc', -⟩ := resumeStart_elim hstep
    rcases (StartTask.block_events hblock).2 hpc error (hpc'.symm.trans herror) with
      hraised | ⟨sse, rfl, hping, hnone | hfailed⟩
    · exact Or.inl hraised
    · -- an event that is as it should be is made into one
      obtain ⟨event, hevent, -⟩ := (hiff t sse rfl).2 (hproper t sse rfl hping)
      rw [hnone] at hevent
      cases hevent
    · exact Or.inr ⟨sse, rfl, hfailed⟩

theorem events_handled_of_trace (h : s.InRange) (htrace : Trace step s τ s') :
    (∀ x ∈ τ, HandlesEvents x) ↔ ∀ x ∈ τ, ReceivesProper x := by
  induction htrace with
  | nil => simp
  | cons hstep _ ih =>
    rw [List.forall_mem_cons, List.forall_mem_cons]
    constructor
    · rintro ⟨hhandles, hrest⟩
      exact ⟨(handlesEvents_iff h hstep).1 hhandles, (ih (h.step hstep hhandles)).1 hrest⟩
    · rintro ⟨hproper, hrest⟩
      have hhandles := (handlesEvents_iff h hstep).2 hproper
      exact ⟨hhandles, (ih (h.step hstep hhandles)).2 hrest⟩

/-- **Every event of a run is handled**, and no spawn fails but for an event that says so or an exception
of the wait, exactly if every event that is received is as it should be. -/
theorem events_handled_iff (hrun : Run τ s) :
    (∀ x ∈ τ, HandlesEvents x) ↔ ∀ x ∈ τ, ReceivesProper x :=
  events_handled_of_trace (fun _ ht ↦ absurd ht (Nat.not_lt_zero _)) hrun

/-! ### A spawn with a progress out of range, and one without a message -/

namespace Sample

/-- A spawn that is told this event first. -/
def told (sse : ServerSentEvent) : List Label :=
  [.start, .beginStart 0, .resumeStart 0 (.response 201), .resumeStart 0 (.sse sse)]

/-- An event whose data is no object. -/
def plainInfo : ServerSentEvent := ⟨"info", "Creating lab", none⟩

/-- An event with more than all of the progress. -/
def overshoot : ServerSentEvent :=
  ⟨"info", "\x7b\"message\": \"Creating lab\", \"progress\": 150\x7d",
    some [("message", ⟨none, "Creating lab"⟩), ("progress", ⟨some 150, "150"⟩)]⟩

/-- An event with a progress and without a message. -/
def silent : ServerSentEvent :=
  ⟨"info", "\x7b\"progress\": 30\x7d", some [("progress", ⟨some 30, "30"⟩)]⟩

end Sample

/-- An event whose data is no object is handled. -/
theorem events_handled_sample : ∃ τ s, Run τ s ∧ τ.map Transition.label = Sample.told Sample.plainInfo ∧
    ∀ x ∈ τ, HandlesEvents x := by
  obtain ⟨τ, s, hrun, hlabels, -⟩ := exists_run (Sample.told Sample.plainInfo)
    (fun τ s ↦ τ.map Transition.label = Sample.told Sample.plainInfo ∧
      (s.starts 0).pc = .nextEvent) (by decide +kernel)
  refine ⟨τ, s, hrun, hlabels, (events_handled_iff hrun).2 ?_⟩
  intro x hx t sse hlabel hping
  have hmem : x.label ∈ Sample.told Sample.plainInfo := by
    rw [← hlabels]
    exact List.mem_map_of_mem hx
  obtain ⟨-, rfl⟩ : t = 0 ∧ sse = Sample.plainInfo := by
    rw [hlabel] at hmem
    simpa [Sample.told] using hmem
  have hitems : ∀ data, ¬ Sample.plainInfo.HasItems data := fun data h ↦ by cases h.1
  refine ⟨fun ⟨data, h, _⟩ ↦ hitems data h, ?_⟩
  rw [if_neg (by decide)]
  exact fun ⟨_, ⟨data, _, h, _⟩, _⟩ ↦ hitems data h

/-- **Events that are not handled.** A progress of 150 becomes the running progress, and without a message
the spawn fails. -/
theorem events_not_handled :
    (∃ τ s, Run τ s ∧ τ.map Transition.label = Sample.told Sample.overshoot ∧
      (s.starts 0).progress = 150 ∧ ¬ ∀ x ∈ τ, HandlesEvents x) ∧
    ∃ τ s, Run τ s ∧ τ.map Transition.label = Sample.told Sample.silent ∧
      (s.starts 0).pc = .done (.error .malformedEvent) ∧ ¬ ∀ x ∈ τ, HandlesEvents x := by
  constructor
  · obtain ⟨τ, s, hrun, hlabels, hsize, hprogress⟩ := exists_run (Sample.told Sample.overshoot)
      (fun τ s ↦ τ.map Transition.label = Sample.told Sample.overshoot ∧ s.starts.size = 1 ∧
        (s.starts 0).progress = 150) (by decide +kernel)
    refine ⟨τ, s, hrun, hlabels, hprogress, fun hhandles ↦ ?_⟩
    have hrange : s.InRange := hrun.invariant_of (C := HandlesEvents)
      (fun _ _ _ h hstep hhandles ↦ h.step hstep hhandles)
      (fun _ ht ↦ absurd ht (Nat.not_lt_zero _)) hhandles
    have hhigh := (hrange 0 (by omega)).2
    omega
  · obtain ⟨τ, s, hrun, hlabels, hpc, hfails⟩ := exists_run (Sample.told Sample.silent)
      (fun τ s ↦ τ.map Transition.label = Sample.told Sample.silent ∧
        (s.starts 0).pc = .done (.error .malformedEvent) ∧
        τ.any (fun x ↦ decide (x.label = .resumeStart 0 (.sse Sample.silent) ∧
          (x.pre.starts 0).pc = .nextEvent ∧
          (x.post.starts 0).pc = .done (.error .malformedEvent))) = true) (by decide +kernel)
    refine ⟨τ, s, hrun, hlabels, hpc, fun hhandles ↦ ?_⟩
    obtain ⟨x, hx, hfailed⟩ := List.any_eq_true.1 hfails
    obtain ⟨hlabel, hpre, hpost⟩ := of_decide_eq_true hfailed
    rcases (hhandles x hx).2 0 _ _ hlabel hpre hpost with hraised | ⟨sse, hsse, hfailed⟩
    · cases hraised
    · obtain rfl := StartReply.sse.inj hsse
      exact absurd hfailed (by decide)

end NubladoSpawner

end Nublado.Hub
