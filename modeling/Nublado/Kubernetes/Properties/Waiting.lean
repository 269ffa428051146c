import Nublado.Kubernetes.Waiting

/-!
# What the end of a wait says

`wait_for_deletion` should return only if the object is gone: it has been read as absent, or its
deletion has been seen, since the call. It should raise `ControllerTimeoutError` only if the time has
run out and the object was there when it was last read, and `RuntimeError` only if someone has stopped
the watcher; and no end of a stream and no error for an expired watch should end the wait early.

All of this holds of every run (`wait_truthful`), except that the time is over two seconds before it has
run out: these are reserved for the last read. After a first read that leaves less than that, the call
raises `ControllerTimeoutError` without another look at the object (`gives_up_early`).
-/

namespace Nublado.Kubernetes

variable {s s' : Wait} {τ : List (Transition Wait Label)} {w : Watch}

/-! ### What a run has seen -/

/-- Whether a read has found the object, if it has been completed. -/
def Label.readResult : Label → Option Bool
  | .found _ => some true
  | .readError status => if status = 404 then some false else none
  | _ => none

/-- What the last completed read has found. -/
def lastRead (τ : List (Transition Wait Label)) : Option Bool :=
  (τ.filterMap fun x ↦ x.label.readResult).getLast?

/-- The object has been read as absent, or its deletion has been seen. -/
def Gone (τ : List (Transition Wait Label)) : Prop :=
  ∃ x ∈ τ, x.label = .readError 404 ∨ x.label = .event .deleted

/-- The watcher has been stopped. -/
def Stopped (τ : List (Transition Wait Label)) : Prop := ∃ x ∈ τ, x.label = .stop

/-- The stream of the watch is over, or the watch has expired. -/
def Label.Closes : Label → Prop
  | .unparsable => True
  | .streamEnd => True
  | .clientTimeout => True
  | .apiError status => status = 410
  | _ => False

/-- **The end of a wait says what has happened**, if the time runs out `slack` before the deadline. -/
structure Truthful (slack : ℤ) (τ : List (Transition Wait Label)) (s : Wait) : Prop where
  returned : s.pc = .ended .returned → Gone τ
  timedOut : s.pc = .ended .controllerTimeout →
    s.timeout.deadline - slack ≤ s.now ∧ lastRead τ ≠ some false
  unexpectedlyStopped : s.pc = .ended .unexpectedlyStopped → Stopped τ
  /-- The end of a stream does not end the wait, unless the watcher is stopped or no time is left. -/
  goesOn : ∀ x ∈ τ, x.label.Closes → ∀ r, x.post.pc = .ended r →
    Stopped τ ∨ r = .controllerTimeout ∧ x.post.timeout.deadline ≤ x.post.now

theorem lastRead_concat (τ : List (Transition Wait Label)) (x : Transition Wait Label) :
    lastRead (τ ++ [x]) = x.label.readResult.or (lastRead τ) := by
  rw [lastRead, List.filterMap_append]
  rcases hx : x.label.readResult with _ | found
  · simp [hx, lastRead]
  · simp [hx]

theorem Stopped.concat (h : Stopped τ) (x : Transition Wait Label) : Stopped (τ ++ [x]) := by
  obtain ⟨y, hy, hstop⟩ := h
  exact ⟨y, List.mem_append_left _ hy, hstop⟩

/-! ### Timeouts -/

theorem left_eq_none {t : Timeout} {now : ℤ} (h : t.left now = none) : t.deadline ≤ now := by
  rw [Timeout.left] at h
  rw [Timeout.deadline]
  split at h
  · omega
  · cases h

theorem left_eq_some {t : Timeout} {now left : ℤ} (h : t.left now = some left) :
    left = t.deadline - now ∧ now < t.deadline := by
  rw [Timeout.left] at h
  rw [Timeout.deadline]
  split at h
  · cases h
  · obtain rfl := Option.some.inj h
    omega

/-- A part of the time that is left. -/
theorem partialTimeout_eq_some {t t' : Timeout} {now d : ℤ}
    (h : t.partialTimeout now d = some t') : t'.deadline = min t.deadline (now + d) := by
  rw [Timeout.partialTimeout] at h
  split at h
  · cases h
  · obtain rfl := Option.some.inj h
    show now + min (t.timeout - (now - t.start)) d = min (t.start + t.timeout) (now + d)
    omega

theorem partialTimeout_eq_none {t : Timeout} {now d : ℤ} (h : t.partialTimeout now d = none) :
    d < 0 := by
  rw [Timeout.partialTimeout] at h
  split at h
  · assumption
  · cases h

/-! ### The invariant -/

/-- **The invariant**, by program point. -/
def Good (τ : List (Transition Wait Label)) (deadline now : ℤ) : Pc → Prop
  | .called => lastRead τ = none
  | .reading => lastRead τ = none
  | .streaming w => lastRead τ = some true ∧ w.timeout.deadline = deadline - reserved ∧
      (w.stopped = true → Stopped τ)
  | .readingAgain _ => lastRead τ = some true ∧ deadline - reserved ≤ now
  | .ended .returned => Gone τ
  | .ended .controllerTimeout => lastRead τ ≠ some false ∧ deadline - reserved ≤ now
  | .ended .unexpectedlyStopped => Stopped τ
  | .ended (.kubernetesError _) => True

/-- The invariant of a call. -/
def GoodAt (τ : List (Transition Wait Label)) (s : Wait) : Prop :=
  Good τ s.timeout.deadline s.now s.pc

theorem goodAt_timeout (hread : lastRead τ ≠ some false)
    (hlate : s.timeout.deadline - reserved ≤ s.now) : GoodAt τ (s.finish .controllerTimeout) :=
  ⟨hread, hlate⟩

theorem goodAt_timedOut (hread : lastRead τ = some true)
    (hlate : s.timeout.deadline - reserved ≤ s.now) : GoodAt τ s.timedOut := by
  have hnot : lastRead τ ≠ some false := by rw [hread]; decide
  rw [Wait.timedOut]
  split
  · exact goodAt_timeout hnot hlate
  · rw [Wait.read]
    split
    · exact goodAt_timeout hnot hlate
    · exact ⟨hread, hlate⟩

theorem goodAt_stream (hread : lastRead τ = some true)
    (hw : w.timeout.deadline = s.timeout.deadline - reserved)
    (hstop : w.stopped = true → Stopped τ) : GoodAt τ (s.stream w) := by
  rw [Wait.stream]
  split
  · next hleft =>
    have hover := left_eq_none hleft
    exact goodAt_timedOut hread (by omega)
  · exact ⟨hread, hw, hstop⟩

theorem goodAt_streamEnded (hread : lastRead τ = some true)
    (hw : w.timeout.deadline = s.timeout.deadline - reserved)
    (hstop : w.stopped = true → Stopped τ) : GoodAt τ (s.streamEnded w) := by
  rw [Wait.streamEnded]
  split
  · next hstopped => exact hstop hstopped
  · exact goodAt_stream hread hw hstop

theorem goodAt_watch (hread : lastRead τ = some true) (rv : Option String) :
    GoodAt τ (s.watch rv) := by
  have hnot : lastRead τ ≠ some false := by rw [hread]; decide
  rw [Wait.watch]
  split
  · next hleft =>
    have hover := left_eq_none hleft
    have hreserved : 0 ≤ reserved := by decide
    exact goodAt_timeout hnot (by omega)
  · next left hleft =>
    obtain ⟨rfl, hlt⟩ := left_eq_some hleft
    split
    · next hpart =>
      have hshort := partialTimeout_eq_none hpart
      exact goodAt_timeout hnot (by omega)
    · next watchTimeout hpart =>
      have hdeadline := partialTimeout_eq_some hpart
      have hreserved : 0 ≤ reserved := by decide
      refine goodAt_stream hread ?_ fun hno ↦ by cases hno
      show watchTimeout.deadline = _
      rw [hdeadline]
      omega

/-! ### One step -/

section Step

variable {label : Label} {deadline now : ℤ}

/-- Steps that complete no read. -/
theorem lastRead_of_none (x : Transition Wait Label) (h : x.label.readResult = none) :
    lastRead (τ ++ [x]) = lastRead τ := by
  rw [lastRead_concat, h, Option.none_or]

theorem lastRead_of_some (x : Transition Wait Label) {found : Bool}
    (h : x.label.readResult = some found) : lastRead (τ ++ [x]) = some found := by
  rw [lastRead_concat, h, Option.some_or]

theorem goodAt_reading (h : lastRead τ = none) (hstep : s.respond .reading label = some s') :
    GoodAt (τ ++ [⟨s, label, s'⟩]) s' := by
  cases label
  case found rv =>
    obtain rfl := Option.some.inj hstep
    exact goodAt_watch (lastRead_of_some _ rfl) rv
  case readError status =>
    obtain rfl := Option.some.inj hstep
    split
    · next hstatus =>
      exact ⟨_, List.mem_append_right _ (List.mem_singleton_self _), Or.inl (by rw [hstatus])⟩
    · trivial
  case readTimeout =>
    simp only [Wait.respond] at hstep
    split at hstep
    · next hover =>
      obtain rfl := Option.some.inj hstep
      have hreserved : 0 ≤ reserved := by decide
      refine goodAt_timeout ?_ (by omega)
      rw [lastRead_of_none _ rfl, h]
      exact fun hno ↦ by cases hno
    · cases hstep
  all_goals simp only [Wait.respond, reduceCtorEq] at hstep

theorem goodAt_readingAgain {t : Timeout} (h : lastRead τ = some true)
    (hlate : s.timeout.deadline - reserved ≤ s.now)
    (hstep : s.respond (.readingAgain t) label = some s') :
    GoodAt (τ ++ [⟨s, label, s'⟩]) s' := by
  have hnot : (some true : Option Bool) ≠ some false := by decide
  cases label
  case found rv =>
    obtain rfl := Option.some.inj hstep
    refine goodAt_timeout ?_ hlate
    rw [lastRead_of_some _ rfl]
    exact hnot
  case readError status =>
    obtain rfl := Option.some.inj hstep
    split
    · next hstatus =>
      exact ⟨_, List.mem_append_right _ (List.mem_singleton_self _), Or.inl (by rw [hstatus])⟩
    · trivial
  case readTimeout =>
    simp only [Wait.respond] at hstep
    split at hstep
    · obtain rfl := Option.some.inj hstep
      refine goodAt_timeout ?_ hlate
      rw [lastRead_of_none _ rfl, h]
      exact hnot
    · cases hstep
  all_goals simp only [Wait.respond, reduceCtorEq] at hstep

theorem goodAt_streaming (hpc : s.pc = .streaming w) (h : lastRead τ = some true)
    (hw : w.timeout.deadline = s.timeout.deadline - reserved)
    (hstop : w.stopped = true → Stopped τ) (hstep : s.respond (.streaming w) label = some s') :
    GoodAt (τ ++ [⟨s, label, s'⟩]) s' := by
  have hstop' : ∀ x, w.stopped = true → Stopped (τ ++ [x]) := fun x hs ↦ (hstop hs).concat x
  cases label
  case event type =>
    obtain rfl := Option.some.inj hstep
    split
    · next htype =>
      exact ⟨_, List.mem_append_right _ (List.mem_singleton_self _), Or.inr (by rw [htype])⟩
    · rw [GoodAt, hpc]
      refine ⟨?_, hw, hstop' _⟩
      rw [lastRead_of_none _ rfl, h]
  case unparsable =>
    obtain rfl := Option.some.inj hstep
    refine goodAt_streamEnded ?_ hw (hstop' _)
    rw [lastRead_of_none _ rfl, h]
  case streamEnd =>
    obtain rfl := Option.some.inj hstep
    refine goodAt_streamEnded ?_ hw (hstop' _)
    rw [lastRead_of_none _ rfl, h]
  case clientTimeout =>
    obtain rfl := Option.some.inj hstep
    refine goodAt_stream ?_ hw (hstop' _)
    rw [lastRead_of_none _ rfl, h]
  case apiError status =>
    obtain rfl := Option.some.inj hstep
    split
    · refine goodAt_stream ?_ hw (hstop' _)
      rw [lastRead_of_none _ rfl, h]
    · trivial
  case watchTimeout =>
    simp only [Wait.respond] at hstep
    split at hstep
    · next hover =>
      obtain rfl := Option.some.inj hstep
      refine goodAt_timedOut ?_ (by omega)
      rw [lastRead_of_none _ rfl, h]
    · cases hstep
  case stop =>
    obtain rfl := Option.some.inj hstep
    refine ⟨?_, hw, fun _ ↦ ⟨_, List.mem_append_right _ (List.mem_singleton_self _), rfl⟩⟩
    rw [lastRead_of_none _ rfl, h]
  all_goals simp only [Wait.respond, reduceCtorEq] at hstep

theorem goodAt_called (h : lastRead τ = none) (hstep : s.respond .called label = some s') :
    GoodAt (τ ++ [⟨s, label, s'⟩]) s' := by
  cases label
  case call =>
    obtain rfl := Option.some.inj hstep
    rw [Wait.read]
    split
    · next hleft =>
      have hover := left_eq_none hleft
      have hreserved : 0 ≤ reserved := by decide
      refine goodAt_timeout ?_ (by omega)
      rw [lastRead_of_none _ rfl, h]
      exact fun hno ↦ by cases hno
    · show lastRead _ = none
      rw [lastRead_of_none _ rfl, h]
  all_goals simp only [Wait.respond, reduceCtorEq] at hstep

/-- Time passes, or something comes back. -/
theorem step_cases (h : s.step label = some s') :
    (∃ d : ℕ, label = .tick d ∧ (∀ r, s.pc ≠ .ended r) ∧ s' = { s with now := s.now + d }) ∨
      s.respond s.pc label = some s' := by
  cases label
  case tick d =>
    simp only [Wait.step] at h
    split at h
    · cases h
    · next hopen => exact Or.inl ⟨d, rfl, hopen, (Option.some.inj h).symm⟩
  all_goals exact Or.inr h

/-- Time passes. -/
theorem GoodAt.tick (h : GoodAt τ s) (hopen : ∀ r, s.pc ≠ .ended r) (d : ℕ) {s' : Wait} :
    GoodAt (τ ++ [⟨s, .tick d, s'⟩]) { s with now := s.now + d } := by
  have hread : lastRead (τ ++ [⟨s, .tick d, s'⟩]) = lastRead τ := lastRead_of_none _ rfl
  rw [GoodAt] at h ⊢
  show Good _ s.timeout.deadline (s.now + d) s.pc
  rcases hpc : s.pc with _ | _ | w | t | r <;> rw [hpc] at h
  · exact hread.trans h
  · exact hread.trans h
  · obtain ⟨hfound, hw, hstop⟩ := h
    exact ⟨hread.trans hfound, hw, fun hs ↦ (hstop hs).concat _⟩
  · obtain ⟨hfound, hlate⟩ := h
    exact ⟨hread.trans hfound, by omega⟩
  · exact absurd hpc (hopen r)

theorem GoodAt.step (h : GoodAt τ s) (hstep : s.step label = some s') :
    GoodAt (τ ++ [⟨s, label, s'⟩]) s' := by
  rcases step_cases hstep with ⟨d, rfl, hopen, rfl⟩ | hrespond
  · exact h.tick hopen d
  · rcases hpc : s.pc with _ | _ | w | t | r <;> rw [GoodAt, hpc] at h <;> rw [hpc] at hrespond
    · exact goodAt_called h hrespond
    · exact goodAt_reading h hrespond
    · obtain ⟨hread, hw, hstop⟩ := h
      exact goodAt_streaming hpc hread hw hstop hrespond
    · obtain ⟨hread, hlate⟩ := h
      exact goodAt_readingAgain hread hlate hrespond
    · cases label <;> cases hrespond

end Step

/-! ### Ends of a stream -/

/-- Another stream is started unless there is no time left at all. -/
theorem ended_stream {r : Result} (h : (s.stream w).pc = .ended r) :
    r = .controllerTimeout ∧ (s.stream w).timeout.deadline ≤ (s.stream w).now := by
  rw [Wait.stream] at h ⊢
  split at h
  · rw [Wait.timedOut] at h ⊢
    have hreserved : 0 ≤ reserved := by decide
    split at h
    · next hpart => exact absurd (partialTimeout_eq_none hpart) (not_lt.2 hreserved)
    · next readTimeout hpart =>
      have hdeadline := partialTimeout_eq_some hpart
      rw [Wait.read] at h ⊢
      split at h
      · next hleft =>
        have hover := left_eq_none hleft
        have hpositive : 0 < reserved := by decide
        refine ⟨(Pc.ended.inj h).symm, ?_⟩
        show s.timeout.deadline ≤ s.now
        omega
      · cases h
  · cases h

theorem ended_streamEnded {r : Result} (hstop : w.stopped = true → Stopped τ)
    (h : (s.streamEnded w).pc = .ended r) : Stopped τ ∨ r = .controllerTimeout ∧
      (s.streamEnded w).timeout.deadline ≤ (s.streamEnded w).now := by
  rw [Wait.streamEnded] at h ⊢
  split at h
  · next hstopped => exact Or.inl (hstop hstopped)
  · next hstopped =>
    rw [if_neg hstopped]
    exact Or.inr (ended_stream h)

/-- **The end of a stream does not end the wait early.** -/
theorem GoodAt.ended {label : Label} (h : GoodAt τ s) (hstep : s.step label = some s')
    (hcloses : label.Closes) {r : Result} (hend : s'.pc = .ended r) :
    Stopped τ ∨ r = .controllerTimeout ∧ s'.timeout.deadline ≤ s'.now := by
  rcases step_cases hstep with ⟨d, rfl, -, -⟩ | hrespond
  · exact hcloses.elim
  · rcases hpc : s.pc with _ | _ | w | t | r' <;> rw [hpc] at hrespond
    · cases label <;> first | exact hcloses.elim | cases hrespond
    · cases label <;> first | exact hcloses.elim | cases hrespond
    · rw [GoodAt, hpc] at h
      obtain ⟨-, -, hstop⟩ := h
      cases label
      case unparsable =>
        obtain rfl := Option.some.inj hrespond
        exact ended_streamEnded hstop hend
      case streamEnd =>
        obtain rfl := Option.some.inj hrespond
        exact ended_streamEnded hstop hend
      case clientTimeout =>
        obtain rfl := Option.some.inj hrespond
        exact Or.inr (ended_stream hend)
      case apiError status =>
        obtain rfl := Option.some.inj hrespond
        have hstatus : status = 410 := hcloses
        rw [if_pos hstatus] at hend ⊢
        exact Or.inr (ended_stream hend)
      all_goals exact hcloses.elim
    · cases label <;> first | exact hcloses.elim | cases hrespond
    · cases label <;> cases hrespond

/-! ### Runs -/

/-- What holds of every run, besides the invariant: no end of a stream has ended the wait early. -/
theorem goesOn_of_trace {s₀ : Wait} (hpc : s₀.pc = .called) (hrun : Trace Wait.step s₀ τ s) :
    GoodAt τ s ∧ ∀ x ∈ τ, x.label.Closes → ∀ r, x.post.pc = .ended r →
      Stopped τ ∨ r = .controllerTimeout ∧ x.post.timeout.deadline ≤ x.post.now := by
  refine hrun.history (P := fun τ s ↦ GoodAt τ s ∧ ∀ x ∈ τ, x.label.Closes → ∀ r,
    x.post.pc = .ended r → Stopped τ ∨
      r = .controllerTimeout ∧ x.post.timeout.deadline ≤ x.post.now) ?_ ?_
  · rintro τ s label s' - ⟨hgood, hgoes⟩ hstep
    refine ⟨hgood.step hstep, fun x hx hcloses r hend ↦ ?_⟩
    rcases List.mem_append.1 hx with hx | hx
    · exact (hgoes x hx hcloses r hend).imp_left fun hstop ↦ hstop.concat _
    · obtain rfl := List.mem_singleton.1 hx
      exact (hgood.ended hstep hcloses hend).imp_left fun hstop ↦ hstop.concat _
  · refine ⟨?_, fun x hx ↦ absurd hx List.not_mem_nil⟩
    rw [GoodAt, hpc]
    rfl

/-- **The end of a wait says what has happened**, in every run, where the time runs out two seconds
before the deadline. -/
theorem wait_truthful (timeout : Timeout) (reconnectTimeout now : ℤ)
    (hrun : Trace Wait.step { timeout, reconnectTimeout, now } τ s) : Truthful reserved τ s := by
  obtain ⟨hgood, hgoes⟩ := goesOn_of_trace rfl hrun
  rw [GoodAt] at hgood
  refine ⟨fun hpc ↦ ?_, fun hpc ↦ ?_, fun hpc ↦ ?_, hgoes⟩ <;> rw [hpc] at hgood
  · exact hgood
  · exact ⟨hgood.2, hgood.1⟩
  · exact hgood

/-- A watch that has expired, and goes on. -/
theorem wait_truthful_expired : ∃ τ s, Trace Wait.step ⟨⟨10000000, 0⟩, 60000000, 0, .called⟩ τ s ∧
    s.pc = .ended .returned ∧ (∃ x ∈ τ, x.label = .apiError 410) ∧ Truthful reserved τ s := by
  obtain ⟨τ, s, hrun, hend, hexpired⟩ := @exists_of_replay _ _ Wait.step
    [.call, .found (some "1"), .apiError 410, .event .added, .event .deleted]
    ⟨⟨10000000, 0⟩, 60000000, 0, .called⟩
    (fun τ s ↦ s.pc = .ended .returned ∧ ∃ x ∈ τ, x.label = .apiError 410) _ (by decide)
  exact ⟨τ, s, hrun, hend, hexpired, wait_truthful _ _ _ hrun⟩

/-- **The wait is given up** with one and a half of ten seconds left, since the first read has taken so
long that there are not two seconds for the last one. -/
theorem gives_up_early : ∃ τ s, Trace Wait.step ⟨⟨10000000, 0⟩, 60000000, 0, .called⟩ τ s ∧
    ¬ Truthful 0 τ s := by
  obtain ⟨τ, s, hrun, hend, hnow⟩ := @exists_of_replay _ _ Wait.step
    [.call, .tick 8500000, .found (some "1")] ⟨⟨10000000, 0⟩, 60000000, 0, .called⟩
    (fun _ s ↦ s.pc = .ended .controllerTimeout ∧ s.now < s.timeout.deadline) _ (by decide)
  refine ⟨τ, s, hrun, fun h ↦ ?_⟩
  obtain ⟨hover, -⟩ := h.timedOut hend
  omega

end Nublado.Kubernetes
