import Nublado.Lab.Manager.Refinement

/-!
# References

Everything that is shared by reference is handed out by a heap, so no reference is ever dangling:
`Valid` says this of the records, the program points of the calls and the operations, together with
whose call is at which program point. It holds in every run.

`Shared.Evolves` is what every block does to the shared objects: objects are only added, a record
keeps its user, and references stay valid. A block is a composition of elementary updates, and each of
them evolves the objects.
-/

namespace Nublado.Lab

namespace Shared

/-! ### Fields of the records -/

@[simp] theorem username_clearEvents (sh : Shared) (e e' : ℕ) :
    ((sh.clearEvents e).records e').username = (sh.records e').username := by
  simp only [clearEvents, Heap.modify_apply]
  split <;> rfl

@[simp] theorem state_clearEvents (sh : Shared) (e e' : ℕ) :
    ((sh.clearEvents e).records e').state = (sh.records e').state := by
  simp only [clearEvents, Heap.modify_apply]
  split <;> rfl

@[simp] theorem lastModified_clearEvents (sh : Shared) (e e' : ℕ) :
    ((sh.clearEvents e).records e').lastModified = (sh.records e').lastModified := by
  simp only [clearEvents, Heap.modify_apply]
  split <;> rfl

@[simp] theorem username_touch (sh : Shared) (e now e' : ℕ) :
    ((sh.touch e now).records e').username = (sh.records e').username := by
  simp only [touch, Heap.modify_apply]
  split <;> rfl

@[simp] theorem state_touch (sh : Shared) (e now e' : ℕ) :
    ((sh.touch e now).records e').state = (sh.records e').state := by
  simp only [touch, Heap.modify_apply]
  split <;> rfl

@[simp] theorem events_touch (sh : Shared) (e now e' : ℕ) :
    ((sh.touch e now).records e').events = (sh.records e').events := by
  simp only [touch, Heap.modify_apply]
  split <;> rfl

theorem lastModified_touch (sh : Shared) (e now e' : ℕ) :
    ((sh.touch e now).records e').lastModified =
      if e' = e then now else (sh.records e').lastModified := by
  simp only [touch, Heap.modify_apply]
  split <;> rfl

@[simp] theorem username_setState (sh : Shared) (e : ℕ) (σ : Option ℕ) (e' : ℕ) :
    ((sh.setState e σ).records e').username = (sh.records e').username := by
  simp only [setState, Heap.modify_apply]
  split <;> rfl

theorem state_setState (sh : Shared) (e : ℕ) (σ : Option ℕ) (e' : ℕ) :
    ((sh.setState e σ).records e').state = if e' = e then σ else (sh.records e').state := by
  simp only [setState, Heap.modify_apply]
  split <;> rfl

@[simp] theorem events_setState (sh : Shared) (e : ℕ) (σ : Option ℕ) (e' : ℕ) :
    ((sh.setState e σ).records e').events = (sh.records e').events := by
  simp only [setState, Heap.modify_apply]
  split <;> rfl

@[simp] theorem lastModified_setState (sh : Shared) (e : ℕ) (σ : Option ℕ) (e' : ℕ) :
    ((sh.setState e σ).records e').lastModified = (sh.records e').lastModified := by
  simp only [setState, Heap.modify_apply]
  split <;> rfl

/-! ### Updates -/

/-- The references among the shared objects are not dangling. -/
structure Valid (sh : Shared) : Prop where
  keys : DistinctKeys sh.labs
  labs : ∀ p ∈ sh.labs, p.2 < sh.records.size ∧ (sh.records p.2).username = p.1
  state : ∀ e < sh.records.size, ∀ σ, (sh.records e).state = some σ → σ < sh.states.size
  events : ∀ e < sh.records.size, (sh.records e).events < sh.streams.size

/-- **What every update of the shared objects does.** -/
structure Evolves (sh sh' : Shared) : Prop where
  records : sh.records.size ≤ sh'.records.size
  states : sh.states.size ≤ sh'.states.size
  streams : sh.streams.size ≤ sh'.streams.size
  coros : sh.coros.size ≤ sh'.coros.size
  username : ∀ e < sh.records.size, (sh'.records e).username = (sh.records e).username
  finished : ∀ i < sh.streams.size, (sh.streams i).finished = true → (sh'.streams i).finished = true
  valid : sh.Valid → sh'.Valid

variable {sh sh' sh'' : Shared}

theorem Evolves.refl (sh : Shared) : sh.Evolves sh :=
  ⟨le_rfl, le_rfl, le_rfl, le_rfl, fun _ _ ↦ rfl, fun _ _ h ↦ h, id⟩

theorem Evolves.trans (h : sh.Evolves sh') (h' : sh'.Evolves sh'') : sh.Evolves sh'' where
  records := h.records.trans h'.records
  states := h.states.trans h'.states
  streams := h.streams.trans h'.streams
  coros := h.coros.trans h'.coros
  username e he := (h'.username e (he.trans_le h.records)).trans (h.username e he)
  finished i hi hf := h'.finished i (hi.trans_le h.streams) (h.finished i hi hf)
  valid hv := h'.valid (h.valid hv)

/-- Changes of the contents of lab states, queues and coroutines. -/
theorem Evolves.of_sizes (hlabs : sh'.labs = sh.labs) (hrecords : sh'.records = sh.records)
    (hstates : sh'.states.size = sh.states.size) (hstreams : sh'.streams.size = sh.streams.size)
    (hcoros : sh.coros.size ≤ sh'.coros.size)
    (hfinished : ∀ i, (sh.streams i).finished = true → (sh'.streams i).finished = true) :
    sh.Evolves sh' where
  records := by rw [hrecords]
  states := hstates.ge
  streams := hstreams.ge
  coros := hcoros
  username e _ := by rw [hrecords]
  finished i _ := hfinished i
  valid hv := by
    refine ⟨hlabs ▸ hv.keys, ?_, ?_, ?_⟩
    · rw [hlabs, hrecords]
      exact hv.labs
    · rw [hrecords, hstates]
      exact hv.state
    · rw [hrecords, hstreams]
      exact hv.events

/-- A change to one queue that does not open it again. -/
theorem finished_modify {α : Type} {streams : Heap (Stream α)} {i j : ℕ} {f : Stream α → Stream α}
    (hf : ∀ q : Stream α, q.finished = true → (f q).finished = true)
    (h : (streams i).finished = true) : (streams.modify j f i).finished = true := by
  rw [Heap.modify_apply]
  split
  · exact hf _ h
  · exact h

theorem evolves_setStatus (sh : Shared) (σ : ℕ) (status : LabStatus) :
    sh.Evolves (sh.setStatus σ status) :=
  .of_sizes rfl rfl rfl rfl le_rfl fun _ h ↦ h

theorem evolves_putEvent (sh : Shared) (e : ℕ) (event : Event) : sh.Evolves (sh.putEvent e event) :=
  .of_sizes rfl rfl rfl rfl le_rfl fun _ h ↦
    finished_modify (f := fun q ↦ q.put event) (fun _ hq ↦ hq) h

theorem evolves_allocCoro (sh : Shared) (body : CoroBody) : sh.Evolves (sh.allocCoro body) :=
  .of_sizes rfl rfl rfl rfl (Nat.le_succ _) fun _ h ↦ h

theorem evolves_allocState (sh : Shared) (x : LabState) : sh.Evolves (sh.allocState x) where
  records := le_rfl
  states := Nat.le_succ _
  streams := le_rfl
  coros := le_rfl
  username _ _ := rfl
  finished _ _ h := h
  valid hv :=
    ⟨hv.keys, hv.labs, fun e he σ hσ ↦ (hv.state e he σ hσ).trans (Nat.lt_succ_self _), hv.events⟩

/-- A change to one record that keeps its user. -/
theorem evolves_modify (sh : Shared) (e : ℕ) {f : LabRecord → LabRecord}
    (husername : ∀ x, (f x).username = x.username) (hevents : ∀ x, (f x).events = x.events)
    (hstate : sh.Valid → e < sh.records.size → ∀ σ, (f (sh.records e)).state = some σ →
      σ < sh.states.size) :
    sh.Evolves { sh with records := sh.records.modify e f } where
  records := le_rfl
  states := le_rfl
  streams := le_rfl
  coros := le_rfl
  username e' _ := Heap.modify_field LabRecord.username _ _ _ _ (husername _)
  finished _ _ h := h
  valid hv := by
    have huser : ∀ e', (sh.records.modify e f e').username = (sh.records e').username := fun e' ↦
      Heap.modify_field LabRecord.username _ _ _ _ (husername _)
    refine ⟨hv.keys, ?_, ?_, ?_⟩
    · simp only [Heap.size_modify, huser]
      exact hv.labs
    · intro e' he' σ hσ
      simp only [Heap.modify_apply] at hσ
      split at hσ
      · next h =>
        subst h
        exact hstate hv he' σ hσ
      · exact hv.state e' he' σ hσ
    · intro e' he'
      have : (sh.records.modify e f e').events = (sh.records e').events :=
        Heap.modify_field LabRecord.events _ _ _ _ (hevents _)
      rw [this]
      exact hv.events e' he'

theorem evolves_touch (sh : Shared) (e now : ℕ) : sh.Evolves (sh.touch e now) :=
  sh.evolves_modify e (fun _ ↦ rfl) (fun _ ↦ rfl) fun hv he ↦ hv.state e he

theorem evolves_setState (sh : Shared) (e : ℕ) {state : Option ℕ}
    (h : ∀ σ, state = some σ → σ < sh.states.size) : sh.Evolves (sh.setState e state) :=
  sh.evolves_modify e (fun _ ↦ rfl) (fun _ ↦ rfl) fun _ _ ↦ h

theorem evolves_clearEvents (sh : Shared) (e : ℕ) : sh.Evolves (sh.clearEvents e) where
  records := le_rfl
  states := le_rfl
  streams := Nat.le_succ _
  coros := le_rfl
  username e' _ := username_clearEvents sh e e'
  finished i hi h := by
    simp only [clearEvents]
    rw [Heap.alloc_of_lt (sh.streams.modify (sh.records e).events Stream.close) {} hi]
    exact finished_modify (fun _ _ ↦ rfl) h
  valid hv := by
    refine ⟨hv.keys, ?_, ?_, ?_⟩
    · intro p hp
      rw [username_clearEvents]
      exact hv.labs p hp
    · intro e' he' σ hσ
      rw [state_clearEvents] at hσ
      exact hv.state e' he' σ hσ
    · intro e' he'
      have hlt : (sh.records e').events < sh.streams.size := hv.events e' he'
      simp only [clearEvents, Heap.modify_apply, Heap.size_alloc, Heap.size_modify]
      split
      · exact Nat.lt_succ_self _
      · exact hlt.trans (Nat.lt_succ_self _)

theorem evolves_insertLab (sh : Shared) {username : String} {state : Option ℕ} (now : ℕ)
    (hnone : sh.labs.lookup username = none) (h : ∀ σ, state = some σ → σ < sh.states.size) :
    sh.Evolves (sh.insertLab username state now) where
  records := Nat.le_succ _
  states := le_rfl
  streams := Nat.le_succ _
  coros := le_rfl
  username e he := by simp only [insertLab, Heap.alloc_of_lt _ _ he]
  finished i hi h := by
    simp only [insertLab]
    rwa [Heap.alloc_of_lt _ _ hi]
  valid hv := by
    refine ⟨hv.keys.concat hnone, ?_, ?_, ?_⟩
    · intro p hp
      rcases List.mem_append.1 hp with hp | hp
      · have := hv.labs p hp
        simp only [insertLab, Heap.size_alloc, Heap.alloc_of_lt _ _ this.1]
        exact ⟨this.1.trans (Nat.lt_succ_self _), this.2⟩
      · obtain rfl := List.mem_singleton.1 hp
        simp [insertLab]
    · intro e he σ hσ
      simp only [insertLab, Heap.size_alloc, Heap.alloc_apply] at he hσ ⊢
      split at hσ
      · exact h σ hσ
      · exact hv.state e (by omega) σ hσ
    · intro e he
      simp only [insertLab, Heap.size_alloc, Heap.alloc_apply] at he ⊢
      split
      · exact Nat.lt_succ_self _
      · exact (hv.events e (by omega)).trans (Nat.lt_succ_self _)

theorem evolves_stop (sh : Shared) (retired : List ℕ) :
    sh.Evolves { sh with labs := [], retired := retired } where
  records := le_rfl
  states := le_rfl
  streams := le_rfl
  coros := le_rfl
  username _ _ := rfl
  finished _ _ h := h
  valid hv :=
    ⟨List.nodup_nil, fun _ hp ↦ absurd hp List.not_mem_nil, hv.state, hv.events⟩

end Shared

namespace ManagerState

variable {config : LabConfig} {s s' : ManagerState} {l : Label} {t e : ℕ}

/-! ### Blocks -/

/-- The first pass of `reconcile` writes the status of labs. -/
theorem reconcileKnownUsers_rule {P : Shared → Prop} {observed : List (String × LabState)}
    {cutoff : ℕ} (hstatus : ∀ sh σ status, P sh → P (sh.setStatus σ status)) (h : P s.toShared) :
    P (s.reconcileKnownUsers observed cutoff).1 := by
  have huser : ∀ sh username e, P sh → P (s.reconcileUser observed cutoff sh username e).1 := by
    intro sh username e hP
    unfold reconcileUser
    repeat' split
    all_goals first | exact hP | exact hstatus _ _ _ hP
  exact List.foldlRecOn (motive := fun acc : Shared × List String ↦ P acc.1) s.labs _ h
    fun acc hP p _ ↦ huser acc.1 p.1 p.2 hP

/-- **The two passes of `reconcile`** write the status of labs and add records for new users. -/
theorem reconcilePasses_rule {P : Shared → Prop} {observed : List (String × LabState)} {cutoff : ℕ}
    (hstatus : ∀ sh σ status, P sh → P (sh.setStatus σ status))
    (hinsert : ∀ sh username x, P sh → sh.labs.lookup username = none →
      P ((sh.allocState x).insertLab username (some sh.states.size) s.clock))
    (hobserved : DistinctKeys observed) (h : P s.toShared) :
    P (s.reconcilePasses observed cutoff).1 := by
  have hknown : P (s.reconcileKnownUsers observed cutoff).1 := reconcileKnownUsers_rule hstatus h
  -- the users added in the second pass are new to the mapping, and stay so until their turn
  have hnew : ∀ (l : List (String × LabState)) (acc : Shared × List String), DistinctKeys l →
      (∀ p ∈ l, acc.1.labs.lookup p.1 = none) → P acc.1 →
      P (l.foldl (fun acc p ↦
        ((acc.1.allocState p.2).insertLab p.1 (some acc.1.states.size) s.clock,
          if p.2.status = .pending then acc.2 ++ [p.1] else acc.2)) acc).1 := by
    intro l
    induction l with
    | nil => exact fun _ _ _ hP ↦ hP
    | cons p l ih =>
      intro acc hl hnone hP
      obtain ⟨hp, hrest⟩ := List.nodup_cons.1 hl
      refine ih _ hrest ?_ (hinsert _ _ _ hP (hnone p List.mem_cons_self))
      intro q hq
      rw [Option.eq_none_iff_forall_ne_some]
      intro e he
      rcases (lookup_concat_eq_some_iff (hnone p List.mem_cons_self)).1 he with he | ⟨hqp, -⟩
      · rw [hnone q (List.mem_cons_of_mem _ hq)] at he
        cases he
      · exact hp (List.mem_map.2 ⟨q, hq, hqp⟩)
  refine hnew _ _ ?_ ?_ hknown
  · exact hobserved.sublist (List.filter_sublist.map Prod.fst)
  · intro p hp
    simpa using (List.mem_filter.1 hp).2

theorem evolves_reconcilePasses {observed : List (String × LabState)} {cutoff : ℕ}
    (hobserved : DistinctKeys observed) :
    s.toShared.Evolves (s.reconcilePasses observed cutoff).1 := by
  refine reconcilePasses_rule (fun sh σ status h ↦ h.trans (sh.evolves_setStatus σ status))
    (fun sh username x h hnone ↦ ?_) hobserved (.refl _)
  refine h.trans ((sh.evolves_allocState x).trans (Shared.evolves_insertLab _ _ hnone ?_))
  rintro _ ⟨⟩
  exact Nat.lt_succ_self _

theorem evolves_marked (σ : ℕ) : s.toShared.Evolves (s.marked e σ) :=
  (s.evolves_clearEvents e).trans (.of_sizes rfl rfl rfl rfl le_rfl fun _ h ↦ h)

theorem evolves_deleteProceed (username : String) (caller : DeleteCaller) :
    s.toShared.Evolves (s.deleteProceed username e caller).1 := by
  rcases hσ : (s.records e).state with _ | σ
  · rw [deleteProceed_of_none hσ]
    exact s.evolves_clearEvents e
  · rw [deleteProceed_of_some hσ]
    exact (evolves_marked σ).trans (Shared.evolves_allocCoro _ _)

/-- What a program point needs of the block that starts there. -/
theorem BlockMove.evolves {p : CallerPc} {r : Reply} {b : Shared × Next} (hb : BlockMove s p r b)
    (hobserved : ∀ cutoff observed, p = .reconcilePass cutoff observed → DistinctKeys observed) :
    s.toShared.Evolves b.1 := by
  cases hb with
  | quiet | joining | aborting | reaping | stopping => exact .refl _
  | ensured hnone => exact s.evolves_insertLab _ hnone nofun
  | refreshed =>
    unfold refreshState
    split
    · exact s.evolves_setStatus _ _
    · split
      · exact s.evolves_setStatus _ _
      · exact .refl _
  | spawning =>
    exact ((s.evolves_clearEvents _).trans (Shared.evolves_allocState _ _)).trans
      (Shared.evolves_allocCoro _ _)
  | deleting => exact evolves_deleteProceed _ _
  | passes => exact evolves_reconcilePasses (hobserved _ _ rfl)
  | pending =>
    exact ((s.evolves_clearEvents _).trans (Shared.evolves_putEvent _ _ _)).trans
      (Shared.evolves_allocCoro _ _)
  | reapBegins => exact .of_sizes rfl rfl rfl rfl le_rfl fun _ h ↦ h
  | reapFailed =>
    unfold ManagerState.reapFailed
    split
    · exact s.evolves_setStatus _ _
    · exact .refl _
  | stopBegins => exact s.evolves_stop _

theorem evolves_deleteFinish (username : String) (caller : DeleteCaller) :
    s.toShared.Evolves (s.deleteFinish username e caller).1 := by
  unfold deleteFinish
  dsimp only
  split
  · exact s.evolves_touch _ _
  · split
    · exact (s.evolves_touch _ _).trans (Shared.evolves_setState _ _ nofun)
    · exact s.evolves_touch _ _

theorem FrameMove.evolves {k : Frame} {res : MethodResult} {b : Shared × Next}
    (hb : FrameMove s e k res b) (hk : ∀ σ, k = .createStarted σ → σ < s.states.size) :
    s.toShared.Evolves b.1 := by
  cases hb with
  | quiet | started => exact .refl _
  | recorded =>
    refine s.evolves_setState _ ?_
    rintro _ ⟨⟩
    exact hk _ rfl
  | aborted => exact evolves_deleteProceed _ _
  | finished => exact evolves_deleteFinish _ _
  | reaped => exact s.evolves_touch _ _

theorem MethodMove.evolves {k : Frame} {p : SlotPc Request ℕ} {r : Reply} {a : ManagerState}
    (ha : MethodMove s t e k p r a) : s.toShared.Evolves a.toShared := by
  cases ha with
  | conflict => exact .of_sizes rfl rfl rfl rfl le_rfl fun _ h ↦ h
  | @aborting seen o =>
    rw [toShared_inside]
    unfold cancelTask
    split
    · exact .refl _
    · exact s.evolves_putEvent _ _
  | woken =>
    rw [toShared_arrive]
    exact .refl _
  | _ => exact .refl _

theorem evolves_applyFrame (o : ℕ) (f : OpFrame) :
    s.toShared.Evolves (s.applyFrame o f).toShared :=
  .of_sizes rfl rfl rfl rfl le_rfl fun _ h ↦ Shared.finished_modify
    (f := fun q ↦ { q with contents := q.contents ++ f.events }) (fun _ hq ↦ hq) h

theorem evolves_afterOp (o : ℕ) (f : OpFrame) : s.toShared.Evolves (s.afterOp o f).toShared := by
  unfold afterOp
  split
  · refine (evolves_applyFrame o f).trans (.of_sizes rfl rfl rfl rfl le_rfl fun _ h ↦ ?_)
    exact Shared.finished_modify (fun _ _ ↦ rfl) h
  · exact evolves_applyFrame o f

end ManagerState

/-! ### Program points -/

/-- The records a reaper pass has still to look at are there. -/
def ReapLoop.Valid (sh : Shared) (loop : ReapLoop) : Prop :=
  ∀ p ∈ loop.rest, p.2 < sh.records.size

namespace CallerPc

/-- The call that can be at a program point. -/
def origin : CallerPc → Call
  | .createStart user spec | .createImage user spec => .createLab user spec
  | .createPhase d _ | .createReport d _ | .createCheck d _ => .createLab d.user d.spec
  | .deleteStart username .request => .deleteLab username
  | .deleteStart _ (.reconcile _) => .reconcile
  | .reconcileStart | .reconcileList _ | .reconcileGather .. | .reconcileRead .. => .reconcile
  | .reconcilePurge .. | .reconcilePass .. | .reconcilePending _ => .reconcile
  | .reconcileCompleted _ | .reconcilePublish => .reconcile
  | .reapStart | .reapWait _ | .reapWoken | .reapScan _ | .reapReport .. => .reapSpawners
  | .stopStart | .stopScan _ => .stopMonitorTasks

/-- The references at a program point are not dangling. -/
def Valid (sh : Shared) : CallerPc → Prop
  | .createPhase _ σ | .createReport _ σ => σ < sh.states.size
  | .createCheck _ state => ∀ σ, state = some σ → σ < sh.states.size
  | .reconcileGather _ _ observed | .reconcileRead _ _ _ observed
  | .reconcilePurge _ _ _ observed | .reconcilePass _ observed => DistinctKeys observed
  | .reapScan loop => loop.Valid sh
  | .reapReport loop e => loop.Valid sh ∧ e < sh.records.size
  | .stopScan rest => ∀ e ∈ rest, e < sh.records.size
  | _ => True

end CallerPc

namespace Frame

/-- The call that can continue at a frame, on record `e`. -/
def Of (sh : Shared) (e : ℕ) (c : Call) : Frame → Prop
  | .createStarted _ =>
    ∃ user spec, c = .createLab user spec ∧ (sh.records e).username = user.username
  | .deleteJoined username caller | .deleteAborted username caller
  | .deleteStarted username caller | .deleteAwaited username caller =>
    (CallerPc.deleteStart username caller).origin = c
  | .pendingStarted _ => c = .reconcile
  | .reaped _ => c = .reapSpawners
  | .stopped _ => c = .stopMonitorTasks

/-- The references at a frame are not dangling. -/
def Valid (sh : Shared) (e : ℕ) : Frame → Prop
  | .createStarted σ => σ < sh.states.size
  | .deleteJoined username _ | .deleteAborted username _ | .deleteStarted username _
  | .deleteAwaited username _ => (sh.records e).username = username
  | .pendingStarted _ => True
  | .reaped loop => loop.Valid sh
  | .stopped rest => ∀ e ∈ rest, e < sh.records.size

end Frame

/-- A request refers to objects that are there. -/
def ValidPurpose (sh : Shared) : Method → Prop
  | .monitor req => req.state < sh.states.size ∧ req.coro < sh.coros.size
  | _ => True

/-- The purpose for which a call is in, or about to enter, a monitor's method. -/
def MethodPc.purpose : MethodPc → Option Method
  | .acquire m => some m
  | .inside p => some p.purpose
  | .returned _ => none

/-- **A call is at a program point of its own, and its references are not dangling.** -/
def CallPc.Valid (sh : Shared) (c : Call) : CallPc → Prop
  | .caller p => p.origin = c ∧ p.Valid sh
  | .method e p k =>
    e < sh.records.size ∧ k.Of sh e c ∧ k.Valid sh e ∧ ∀ m, p.purpose = some m → ValidPurpose sh m
  | .finished _ => True

section Monotone

variable {sh sh' : Shared} (h : sh.Evolves sh')

include h

theorem ReapLoop.Valid.mono {loop : ReapLoop} (hl : loop.Valid sh) : loop.Valid sh' :=
  fun p hp ↦ (hl p hp).trans_le h.records

theorem CallerPc.Valid.mono {p : CallerPc} (hp : p.Valid sh) : p.Valid sh' := by
  cases p with
  | createPhase | createReport => exact hp.trans_le h.states
  | createCheck => exact fun σ hσ ↦ (hp σ hσ).trans_le h.states
  | reconcileGather | reconcileRead | reconcilePurge | reconcilePass => exact hp
  | reapScan => exact ReapLoop.Valid.mono h hp
  | reapReport => exact ⟨hp.1.mono h, hp.2.trans_le h.records⟩
  | stopScan => exact fun e he ↦ (hp e he).trans_le h.records
  | _ => trivial

theorem Frame.Of.mono {e : ℕ} (he : e < sh.records.size) {c : Call} {k : Frame}
    (hk : k.Of sh e c) : k.Of sh' e c := by
  cases k with
  | createStarted =>
    obtain ⟨user, spec, hc, huser⟩ := hk
    exact ⟨user, spec, hc, (h.username e he).trans huser⟩
  | _ => exact hk

theorem Frame.Valid.mono {e : ℕ} (he : e < sh.records.size) {k : Frame} (hk : k.Valid sh e) :
    k.Valid sh' e := by
  cases k with
  | createStarted => exact hk.trans_le h.states
  | deleteJoined | deleteAborted | deleteStarted | deleteAwaited =>
    exact (h.username e he).trans hk
  | pendingStarted => trivial
  | reaped => exact ReapLoop.Valid.mono h hk
  | stopped => exact fun e he ↦ (hk e he).trans_le h.records

theorem ValidPurpose.mono {m : Method} (hm : ValidPurpose sh m) : ValidPurpose sh' m := by
  cases m with
  | monitor req => exact ⟨hm.1.trans_le h.states, hm.2.trans_le h.coros⟩
  | _ => trivial

theorem CallPc.Valid.mono {c : Call} {pc : CallPc} (hpc : pc.Valid sh c) : pc.Valid sh' c := by
  cases pc with
  | caller p => exact ⟨hpc.1, hpc.2.mono h⟩
  | method e p k =>
    obtain ⟨he, hof, hk, hm⟩ := hpc
    exact ⟨he.trans_le h.records, hof.mono h he, hk.mono h he, fun m hp ↦ (hm m hp).mono h⟩
  | finished => trivial

end Monotone

namespace ManagerState

variable {config : LabConfig} {s s' : ManagerState} {l : Label} {t e : ℕ}

/-- A call of `delete_lab` that returns is where its caller goes on. -/
theorem valid_deleteReturn {sh : Shared} {c : Call} {username : String} {caller : DeleteCaller}
    (hc : (CallerPc.deleteStart username caller).origin = c) (r : Except LabException Unit) :
    (deleteReturn caller r).pc.Valid sh c := by
  unfold deleteReturn
  split
  · trivial
  · exact ⟨hc, trivial⟩
  · exact ⟨hc, trivial⟩
  · trivial

/-- Reading the mapping finds a record of the user. -/
theorem valid_of_lookup (hv : s.toShared.Valid) {username : String}
    (h : s.labs.lookup username = some e) :
    e < s.records.size ∧ (s.records e).username = username :=
  hv.labs _ (mem_of_lookup h)

theorem valid_deleteProceed {c : Call} {username : String} {caller : DeleteCaller}
    (hv : s.toShared.Valid) (he : e < s.records.size) (huser : (s.records e).username = username)
    (hc : (CallerPc.deleteStart username caller).origin = c) :
    (s.deleteProceed username e caller).2.pc.Valid (s.deleteProceed username e caller).1 c := by
  have hevolves := evolves_deleteProceed (s := s) (e := e) username caller
  rcases hσ : (s.records e).state with _ | σ
  · rw [deleteProceed_of_none hσ]
    exact valid_deleteReturn hc _
  · have hσ' := hv.state e he σ hσ
    rw [deleteProceed_of_some hσ] at hevolves ⊢
    refine ⟨he.trans_le hevolves.records, hc, (hevolves.username e he).trans huser, ?_⟩
    rintro _ ⟨⟩
    exact ⟨hσ'.trans_le hevolves.states, Nat.lt_succ_self _⟩

theorem valid_createCheck {d : CreateData} {state : Option ℕ} (hv : s.toShared.Valid) :
    (s.createCheck d state).2.pc.Valid (s.createCheck d state).1 (.createLab d.user d.spec) := by
  unfold createCheck
  dsimp only
  split
  · trivial
  · next e he =>
    split
    · trivial
    · split
      · trivial
      · obtain ⟨hlt, huser⟩ := valid_of_lookup hv he
        have hname : ∀ sh, (s.clearEvents e).Evolves sh →
            (sh.records e).username = d.user.username := fun sh h ↦
          ((((s.evolves_clearEvents e).trans h).username e hlt).trans huser)
        refine ⟨hlt, ⟨_, _, rfl, hname _ ?_⟩, Nat.lt_succ_self _, ?_⟩
        · exact (Shared.evolves_allocState _ _).trans (Shared.evolves_allocCoro _ _)
        · rintro _ ⟨⟩
          exact ⟨Nat.lt_succ_self _, Nat.lt_succ_self _⟩

theorem valid_deleteStart {c : Call} {username : String} {caller : DeleteCaller}
    (hv : s.toShared.Valid) (hc : (CallerPc.deleteStart username caller).origin = c) :
    (s.deleteStart username caller).2.pc.Valid (s.deleteStart username caller).1 c := by
  unfold deleteStart
  split
  · exact valid_deleteReturn hc _
  · next e he =>
    obtain ⟨hlt, huser⟩ := valid_of_lookup hv he
    split
    · exact valid_deleteReturn hc _
    · refine ⟨hlt, hc, huser, ?_⟩
      rintro _ ⟨⟩
      trivial
    · refine ⟨hlt, hc, huser, ?_⟩
      rintro _ ⟨⟩
      trivial
    · exact valid_deleteProceed hv hlt huser hc

theorem valid_reconcilePending {username : String} {rest : List String} (hv : s.toShared.Valid) :
    (s.reconcilePending username rest).2.pc.Valid (s.reconcilePending username rest).1
      .reconcile := by
  unfold reconcilePending
  split
  · trivial
  · next e he =>
    obtain ⟨hlt, -⟩ := valid_of_lookup hv he
    split
    · next σ hσ hop =>
      refine ⟨hlt, rfl, trivial, ?_⟩
      rintro _ ⟨⟩
      exact ⟨hv.state e hlt σ hσ, Nat.lt_succ_self _⟩
    · exact ⟨rfl, trivial⟩

theorem valid_reapLoop (sh sh' : Shared) : (reapLoop sh).pc.Valid sh' .reapSpawners := by
  unfold reapLoop
  split <;> exact ⟨rfl, trivial⟩

theorem valid_reapScan {loop : ReapLoop} (hl : loop.Valid s.toShared) :
    (s.reapScan loop).pc.Valid s.toShared .reapSpawners := by
  unfold reapScan
  split
  · trivial
  · split
    · exact valid_reapLoop _ _
    · next rest hrest =>
      have hrest' : ∀ p ∈ rest, p.2 < s.records.size := fun p hp ↦
        hl p (hrest ▸ List.mem_cons_of_mem _ hp)
      split
      · refine ⟨hl _ (hrest ▸ List.mem_cons_self), rfl, hrest', ?_⟩
        rintro _ ⟨⟩
        trivial
      · exact ⟨rfl, hrest'⟩

theorem createResources_user {user : GafaelfawrUser} {spec : LabSpecification} {image : RSPImage}
    {d : CreateData} (h : createResources config user spec image = .ok d) :
    d.user = user ∧ d.spec = spec := by
  unfold createResources at h
  split at h
  · cases h
  · dsimp only at h
    split at h
    · cases h
    · obtain rfl := Except.ok.inj h
      exact ⟨rfl, rfl⟩

theorem valid_readLabState {d : CreateData} (hv : s.toShared.Valid) :
    (s.readLabState d).pc.Valid s.toShared (.createLab d.user d.spec) := by
  unfold readLabState
  split
  · refine ⟨rfl, ?_⟩
    rintro _ ⟨⟩
  · next σ hσ =>
    obtain ⟨e, he, hσ⟩ := Option.bind_eq_some_iff.1 hσ
    exact ⟨rfl, hv.state e (valid_of_lookup hv he).1 σ hσ⟩

theorem valid_reconcileCompleted {username : String} {rest : List (String × ℕ)} (sh : Shared) :
    (s.reconcileCompleted username e rest).pc.Valid sh .reconcile := by
  unfold reconcileCompleted
  split <;> exact ⟨rfl, trivial⟩

/-- **A block leads to a program point of the same call.** -/
theorem valid_callBlock {c : Call} {p : CallerPc} {r : Reply} {b : Shared × Next}
    (hb : s.callBlock config p r = some b) (hv : s.toShared.Valid) (hp : p.Valid s.toShared)
    (hc : p.origin = c) : b.2.pc.Valid b.1 c := by
  have hevolves := (blockMove_of_eq_some hb).evolves
  subst hc
  revert hb
  fun_cases callBlock config s p r
  all_goals intro hb
  all_goals first | (cases hb; done) | obtain rfl := Option.some.inj hb
  all_goals first | trivial | exact ⟨rfl, trivial⟩ | exact ⟨rfl, hp⟩ | skip
  · next image d hd =>
    rcases image with x | image
    · cases hd
    · obtain ⟨rfl, rfl⟩ := createResources_user hd
      exact valid_readLabState hv
  · refine ⟨rfl, ?_⟩
    rintro _ ⟨⟩
    exact hp.trans_le (hevolves (by simp)).states
  · refine ⟨rfl, ?_⟩
    rintro _ ⟨⟩
    exact hp
  · exact valid_createCheck hv
  · exact valid_deleteStart hv rfl
  · exact ⟨rfl, List.nodup_nil⟩
  · exact ⟨rfl, distinctKeys_dictInsert hp _ _⟩
  · exact valid_reconcilePending hv
  · exact valid_reconcileCompleted _
  · exact valid_reapLoop _ _
  · exact ⟨rfl, fun p hp ↦ (hv.labs p hp).1⟩
  · exact ⟨rfl, fun p hp ↦ (hv.labs p hp).1⟩
  · exact valid_reapScan hp
  · exact ⟨rfl, hp.1.mono (hevolves (by simp))⟩
  · refine ⟨rfl, ?_⟩
    intro e he
    obtain ⟨p, hp, rfl⟩ := List.mem_map.1 he
    exact (hv.labs p hp).1
  · refine ⟨hp _ List.mem_cons_self, rfl, fun e he ↦ hp e (List.mem_cons_of_mem _ he), ?_⟩
    rintro _ ⟨⟩
    trivial

theorem valid_deleteFinish {c : Call} {username : String} {caller : DeleteCaller}
    (hc : (CallerPc.deleteStart username caller).origin = c) (sh : Shared) :
    (s.deleteFinish username e caller).2.pc.Valid sh c := by
  unfold deleteFinish
  dsimp only
  split <;> exact valid_deleteReturn hc _

/-- **So does the return from a monitor's method.** -/
theorem valid_frameBlock {c : Call} {k : Frame} {res : MethodResult} (hv : s.toShared.Valid)
    (he : e < s.records.size) (hof : k.Of s.toShared e c) (hk : k.Valid s.toShared e) :
    (s.frameBlock e k res).2.pc.Valid (s.frameBlock e k res).1 c := by
  fun_cases frameBlock s e k res
  all_goals first | trivial | exact valid_deleteReturn hof _ | skip
  · exact valid_deleteProceed hv he hk hof
  · refine ⟨he, hof, hk, ?_⟩
    rintro _ ⟨⟩
    trivial
  · exact valid_deleteFinish hof _
  · exact ⟨hof.symm, trivial⟩
  · exact ⟨hof.symm, trivial⟩
  · exact ⟨hof.symm, ReapLoop.Valid.mono (s.evolves_touch e s.clock) hk⟩
  · exact ⟨hof.symm, hk⟩
  · exact ⟨hof.symm, ReapLoop.Valid.mono (s.evolves_touch e s.clock) hk, he⟩
  · exact ⟨hof.symm, hk⟩

/-! ### Runs -/

/-- The references of an operation are not dangling. -/
structure ValidOp (sh : Shared) (o : RunningOperation) : Prop where
  entry : o.entry < sh.records.size
  state : o.state < sh.states.size
  coro : o.coro < sh.coros.size
  stream : o.stream < sh.streams.size

theorem ValidOp.mono {sh sh' : Shared} (h : sh.Evolves sh') {o : RunningOperation}
    (ho : ValidOp sh o) : ValidOp sh' o :=
  ⟨ho.entry.trans_le h.records, ho.state.trans_le h.states, ho.coro.trans_le h.coros,
    ho.stream.trans_le h.streams⟩

/-- A change that concerns neither the record, the lab state, the coroutine nor the queue of an
operation. -/
theorem ValidOp.congr {sh : Shared} {o o' : RunningOperation} (h : ValidOp sh o)
    (hentry : o'.entry = o.entry) (hstate : o'.state = o.state) (hcoro : o'.coro = o.coro)
    (hstream : o'.stream = o.stream) : ValidOp sh o' :=
  ⟨hentry ▸ h.entry, hstate ▸ h.state, hcoro ▸ h.coro, hstream ▸ h.stream⟩

/-- **No reference is dangling.** -/
structure Valid (s : ManagerState) : Prop where
  shared : s.toShared.Valid
  calls : ∀ t < s.calls.size, (s.calls t).pc.Valid s.toShared (s.calls t).call
  ops : ∀ o < s.ops.size, ValidOp s.toShared (s.ops o)

theorem valid_initial : Valid initial where
  shared := ⟨List.nodup_nil, nofun, fun e he ↦ absurd he (Nat.not_lt_zero e), fun e he ↦ absurd he (Nat.not_lt_zero e)⟩
  calls t ht := absurd ht (Nat.not_lt_zero t)
  ops o ho := absurd ho (Nat.not_lt_zero o)

/-- Operations that are there keep their references. -/
theorem Valid.ops_of {sh : Shared} (h : Valid s) (hevolves : s.toShared.Evolves sh)
    (hsize : s'.ops.size = s.ops.size)
    (hop : ∀ o, (s'.ops o).entry = (s.ops o).entry ∧ (s'.ops o).state = (s.ops o).state ∧
      (s'.ops o).coro = (s.ops o).coro ∧ (s'.ops o).stream = (s.ops o).stream) :
    ∀ o < s'.ops.size, ValidOp sh (s'.ops o) := by
  intro o ho
  obtain ⟨h₁, h₂, h₃, h₄⟩ := hop o
  exact ((h.ops o (hsize ▸ ho)).mono hevolves).congr h₁ h₂ h₃ h₄

/-- Calls that do not move, and one that does. -/
theorem Valid.calls_of (h : Valid s) {sh : Shared} (hevolves : s.toShared.Evolves sh)
    {calls : Heap CallTask} {pc : CallPc} (hcalls : calls = moved s.calls t pc)
    (hpc : pc.Valid sh (s.calls t).call) :
    ∀ u < calls.size, (calls u).pc.Valid sh (calls u).call := by
  subst hcalls
  intro u hu
  rw [size_moved] at hu
  rw [pc_moved, call_moved]
  split
  · next hut => rwa [hut]
  · exact (h.calls u hu).mono hevolves

/-- A call waits in a monitor's queue for its own purpose. -/
theorem Sound.purpose_eq (h : Sound s) {m m' : Method} {k : Frame} (ht : t < s.calls.size)
    (hpc : (s.calls t).pc = .method e (.inside (.queued m)) k)
    (hmem : (t, m') ∈ (s.monitors e).lock.waiters) : m' = m := by
  have hqueued := ((h.safe e).waiters t m').1 hmem
  rw [pc_slot ht hpc] at hqueued
  simpa using hqueued.symm

/-- A step inside a monitor's method keeps the call's frame, and its purpose up to turning from
waiting to collecting. -/
theorem MethodMove.calls {k : Frame} {p : SlotPc Request ℕ} {r : Reply} {a : ManagerState}
    (ha : MethodMove s t e k p r a)
    (hqueue : ∀ m m', p = .queued m → (t, m') ∈ (s.monitors e).lock.waiters → m' = m) :
    ∃ p', a.calls = moved s.calls t (.method e p' k) ∧
      ∀ m, p'.purpose = some m → m = p.purpose ∨ ∃ o, m = .reap o := by
  cases ha with
  | granted hh hw =>
    refine ⟨_, calls_inside _ _ _ _ _ _, ?_⟩
    rintro _ ⟨⟩
    exact Or.inl (hqueue _ _ rfl (hw ▸ List.mem_cons_self))
  | joined =>
    refine ⟨_, calls_inside _ _ _ _ _ _, ?_⟩
    rintro _ ⟨⟩
    exact Or.inr ⟨_, rfl⟩
  | collecting | reporting =>
    refine ⟨_, calls_inside _ _ _ _ _ _, ?_⟩
    rintro _ ⟨⟩
    exact Or.inl rfl
  | @aborting seen o =>
    refine ⟨.inside (.awaitTask (.cancel seen) o), by rw [calls_inside, calls_cancelTask], ?_⟩
    rintro _ ⟨⟩
    exact Or.inl rfl
  | woken =>
    unfold ManagerState.arrive
    split <;>
    · refine ⟨_, calls_inside _ _ _ _ _ _, ?_⟩
      rintro _ ⟨⟩
      exact Or.inl rfl
  | _ => exact ⟨_, calls_leave _ _ _ _ _, nofun⟩

/-- A step inside a monitor's method starts at most one operation, on request. -/
theorem MethodMove.ops {k : Frame} {p : SlotPc Request ℕ} {r : Reply} {a : ManagerState}
    (ha : MethodMove s t e k p r a) :
    (a.ops.size = s.ops.size ∧ ∀ o, (a.ops o).entry = (s.ops o).entry ∧
      (a.ops o).state = (s.ops o).state ∧ (a.ops o).coro = (s.ops o).coro ∧
      (a.ops o).stream = (s.ops o).stream) ∨
    ∃ req, p = .critical (.monitor req) ∧ (s.monitors e).operation = none ∧
      a = (s.startOperation e req).leave t e k .ok := by
  cases ha with
  | started hnone => exact Or.inr ⟨_, rfl, hnone, rfl⟩
  | @aborting seen o =>
    refine Or.inl ⟨by simp, fun o' ↦ ⟨by simp, ?_, ?_, ?_⟩⟩
    · exact s.cancelTask_field o RunningOperation.state (fun _ ↦ rfl) o'
    · exact s.cancelTask_field o RunningOperation.coro (fun _ ↦ rfl) o'
    · exact s.cancelTask_field o RunningOperation.stream (fun _ ↦ rfl) o'
  | woken => exact Or.inl (by simp)
  | _ => exact Or.inl ⟨rfl, fun _ ↦ ⟨rfl, rfl, rfl, rfl⟩⟩

theorem Valid.tick (h : Valid s) : Valid s.tick := ⟨h.shared, h.calls, h.ops⟩

/-- **Every step evolves the shared objects.** -/
theorem Valid.evolves_step (h : Valid s) (hs : s.step config l = some s') :
    s.toShared.Evolves s'.toShared := by
  cases move_of_step hs with
  | call => exact .refl _
  | @block t p r b hturn hpc hb =>
    have hp := h.calls t hturn.2
    rw [hpc] at hp
    rw [toShared_tick, toShared_follow]
    exact (blockMove_of_eq_some hb).evolves (by rintro _ _ rfl; exact hp.2)
  | acquire =>
    rw [toShared_tick, toShared_arrive]
    exact .refl _
  | method _ _ ha => exact (methodMove_of_eq_some ha).evolves
  | @resume t e res k hturn hpc =>
    have hp := h.calls t hturn.2
    rw [hpc] at hp
    rw [toShared_tick, toShared_follow]
    exact (frameMove s e k res).evolves (by rintro σ rfl; exact hp.2.2.1)
  | op => exact evolves_afterOp _ _
  | watch => exact evolves_applyFrame _ _

/-- **Validity is inductive.** -/
theorem Valid.step (h : Valid s) (hsound : Sound s) (hs : s.step config l = some s') :
    Valid s' := by
  have hevolves := h.evolves_step hs
  cases move_of_step hs with
  | @call c hrun =>
    refine Valid.tick ⟨h.shared, fun u hu ↦ ?_, h.ops⟩
    simp only [calls_begin, Heap.size_alloc, Heap.alloc_apply] at hu ⊢
    split
    · cases c <;> exact ⟨rfl, trivial⟩
    · exact h.calls u (by omega)
  | @block t p r b hturn hpc hb =>
    have hp := h.calls t hturn.2
    rw [hpc] at hp
    rw [toShared_tick, toShared_follow] at hevolves
    refine Valid.tick ⟨?_, ?_, ?_⟩
    · rw [toShared_follow]
      exact hevolves.valid h.shared
    · rw [toShared_follow]
      exact h.calls_of hevolves (calls_follow _ _ _) (valid_callBlock hb h.shared hp.2 hp.1)
    · rw [toShared_follow]
      exact h.ops_of hevolves (by simp) (by simp)
  | @acquire t e m k hturn hpc =>
    have hp := h.calls t hturn.2
    rw [hpc] at hp
    obtain ⟨he, hof, hk, hm⟩ := hp
    obtain ⟨p, rfl, hcalls⟩ := s.calls_arrive t e m k
    refine Valid.tick ⟨?_, ?_, ?_⟩
    · rw [toShared_arrive]
      exact h.shared
    · rw [toShared_arrive]
      refine h.calls_of (.refl _) hcalls ⟨he, hof, hk, ?_⟩
      rintro _ ⟨⟩
      exact hm _ rfl
    · rw [toShared_arrive]
      exact h.ops_of (.refl _) (by simp) (by simp)
  | @method t e p k r a hturn hpc ha =>
    replace ha := methodMove_of_eq_some ha
    have hp := h.calls t hturn.2
    rw [hpc] at hp
    obtain ⟨he, hof, hk, hm⟩ := hp
    rw [toShared_tick] at hevolves
    obtain ⟨p', hcalls, hpurpose⟩ := ha.calls fun m m' hm hmem ↦
      hsound.purpose_eq hturn.2 (hm ▸ hpc) hmem
    refine Valid.tick ⟨hevolves.valid h.shared, ?_, ?_⟩
    · refine h.calls_of hevolves hcalls
        ⟨he.trans_le hevolves.records, hof.mono hevolves he, hk.mono hevolves he, ?_⟩
      intro m hm'
      rcases hpurpose m hm' with rfl | ⟨o, rfl⟩
      · exact (hm _ rfl).mono hevolves
      · trivial
    · rcases ha.ops with ⟨hsize, hop⟩ | ⟨req, rfl, -, rfl⟩
      · exact h.ops_of hevolves hsize hop
      · obtain ⟨hstate, hcoro⟩ : ValidPurpose s.toShared (.monitor req) := hm _ rfl
        intro o ho
        simp only [ops_leave, ops_startOperation, Heap.size_alloc, Heap.alloc_apply] at ho ⊢
        split
        · exact ⟨he, hstate, hcoro, h.shared.events e he⟩
        · exact h.ops o (by omega)
  | @resume t e res k hturn hpc =>
    have hp := h.calls t hturn.2
    rw [hpc] at hp
    obtain ⟨he, hof, hk, -⟩ := hp
    rw [toShared_tick, toShared_follow] at hevolves
    refine Valid.tick ⟨?_, ?_, ?_⟩
    · rw [toShared_follow]
      exact hevolves.valid h.shared
    · rw [toShared_follow]
      exact h.calls_of hevolves (calls_follow _ _ _) (valid_frameBlock h.shared he hof hk)
    · rw [toShared_follow]
      exact h.ops_of hevolves (by simp) (by simp)
  | @op o r f hrun ho hf =>
    rw [toShared_tick] at hevolves
    refine Valid.tick ⟨hevolves.valid h.shared, ?_, ?_⟩
    · rw [calls_afterOp]
      exact fun u hu ↦ (h.calls u hu).mono hevolves
    · refine h.ops_of hevolves (by simp) fun o' ↦ ⟨by simp, ?_, ?_, ?_⟩
      · exact s.afterOp_field o f RunningOperation.state (fun _ _ ↦ rfl) (fun _ _ ↦ rfl) o'
      · exact s.afterOp_field o f RunningOperation.coro (fun _ _ ↦ rfl) (fun _ _ ↦ rfl) o'
      · exact s.afterOp_field o f RunningOperation.stream (fun _ _ ↦ rfl) (fun _ _ ↦ rfl) o'
  | @watch o r f hrun ho hf =>
    rw [toShared_tick] at hevolves
    refine Valid.tick ⟨hevolves.valid h.shared, fun u hu ↦ (h.calls u hu).mono hevolves, ?_⟩
    refine h.ops_of hevolves rfl fun o' ↦ ?_
    simp only [applyFrame, Heap.modify_apply]
    split <;> exact ⟨rfl, rfl, rfl, rfl⟩

end ManagerState

/-- **No reference is dangling in any reachable state.** -/
theorem Run.valid {config : LabConfig} {τ : List (Transition ManagerState Label)}
    {s : ManagerState} (h : Run config .initial τ s) : s.Valid := by
  have hboth : s.Sound ∧ s.Valid :=
    h.invariant (P := fun s ↦ s.Sound ∧ s.Valid)
      (fun _ _ _ hP hab ↦ ⟨hP.1.step hab, hP.2.step hP.1 hab⟩)
      ⟨ManagerState.sound_initial, ManagerState.valid_initial⟩
  exact hboth.2

end Nublado.Lab
