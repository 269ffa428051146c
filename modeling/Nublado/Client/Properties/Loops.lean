import Nublado.Client.Discovery
import Nublado.Client.Properties.Redirects
import Nublado.Foundations.Visits

/-!
# Redirects that do not end

`_get` and `_find_lab_base_url` follow redirects themselves. So that they come to an end, no URL should
be requested more than twice: a redirect that leads to a URL for the third time should raise
`NubladoRedirectError`, and otherwise the call should end with the first response that is no redirect.

Both count the URLs they go to in a `Counter`. The URL they start from is passed to its constructor,
which counts the *characters* of a text; so the first request is not counted, and the start may be
requested three times. `redirects_bounded` says when this shows, for both functions and whatever the
servers answer: exactly if the start is the first URL that the redirects lead to for the third time.

## The argument

After `n` responses both calls are in a state that can be written down (`Call.after`,
`Discovery.after`), with the first `n + 1` URLs of the chain requested. So how they end is a matter of
the sequence of these URLs and of where its places have been visited twice, which is
`counts_start_iff`; and they do end, by `exists_end`.
-/

namespace Nublado.Client

variable {hub : BaseUrl} {urljoin : List Char → List Char → List Char} {start : List Char}
  {R : ℕ → Response} {n : ℕ}

/-! ### Where redirects lead -/

/-- The response is a redirect. -/
def Response.isRedirect : Response → Bool
  | .redirect _ => true
  | _ => false

/-- The URLs that a sequence of responses leads to, from the start on. -/
def target (urljoin : List Char → List Char → List Char) (start : List Char) (R : ℕ → Response) :
    ℕ → List Char
  | 0 => start
  | n + 1 =>
    match R n with
    | .redirect (some location) => urljoin (target urljoin start R n) location
    | _ => target urljoin start R n

/-- The base URLs of the lab that a sequence of responses shows, from that of JupyterHub on. -/
def shownBase (username : List Char) (hub : BaseUrl) (R : ℕ → Response) : ℕ → BaseUrl
  | 0 => hub
  | n + 1 =>
    match R n with
    | .redirect (some location) => follow username (shownBase username hub R n) location
    | _ => shownBase username hub R n

/-- **The redirects stay within finitely many URLs of the URL space**: as long as the responses are
redirects, they have a location, and it is one of these URLs. -/
def StaysWithin (F : Finset (List Char)) (inSpace : ℕ → List Char → Bool) (t : ℕ → List Char)
    (R : ℕ → Response) : Prop :=
  ∀ n, (∀ i ≤ n, (R i).isRedirect = true) →
    (∃ location, R n = .redirect (some location)) ∧ t (n + 1) ∈ F ∧ inSpace n (t (n + 1)) = true

/-! ### How a chain should end -/

/-- **What a chain of redirects should come to** with the `n`-th response: an exception if it would lead
to a URL for the third time, and otherwise what the first response says that is no redirect. -/
def Due (t : ℕ → List Char) (n : ℕ) : Response → Option ClientError → Prop
  | .redirect _, raised => visits t (n + 1) (t (n + 1)) = 2 ∧
      raised = some (.redirect "Redirect loop" (t (n + 1)))
  | .success, raised => raised = none
  | .error, raised => raised = some .web
  | .failed, raised => raised = some .web

/-- **A chain is followed as it should be**: it ends, none of the requested URLs is requested more than
twice, and it ends with what is due. `Ended c urls e` says that the chain has ended in `c`, with
requests for these URLs and, if it raised one, the exception `e`. -/
def FollowedRightly {σ ℓ : Type} (step : σ → ℓ → Option σ) (s : σ) (label : ℕ → ℓ)
    (Ended : σ → List (List Char) → Option ClientError → Prop) (t : ℕ → List Char)
    (R : ℕ → Response) : Prop :=
  ∃ n c e, stateAt step s label (n + 1) = some c ∧ Ended c ((List.range (n + 1)).map t) e ∧
    (∀ u, visits t (n + 1) u ≤ 2) ∧ Due t n (R n) e

/-- What the functions end with. -/
def endsWith (t : ℕ → List Char) (n : ℕ) : Response → Option ClientError
  | .redirect _ => some (.redirect "Redirect loop" (t (n + 1)))
  | .success => none
  | .error => some .web
  | .failed => some .web

/-- The responses stop being redirects. -/
abbrev Stops (R : ℕ → Response) (i : ℕ) : Prop := (R i).isRedirect = false

theorem target_succ {location : List Char} (h : R n = .redirect (some location)) :
    target urljoin start R (n + 1) = urljoin (target urljoin start R n) location := by
  rw [target, h]

theorem not_stops {i : ℕ} : ¬ Stops R i ↔ (R i).isRedirect = true := by
  rw [Bool.not_eq_false]

theorem due_endsWith {t : ℕ → List Char} : Due t n (R n) (endsWith t n (R n)) ↔
    (¬ Stops R n → visits t (n + 1) (t (n + 1)) = 2) := by
  rw [not_stops]
  cases R n <;> simp [Due, endsWith, Response.isRedirect]

/-! ### Chains that stay within finitely many URLs -/

section Staying

variable {F : Finset (List Char)} {inSpace : ℕ → List Char → Bool} {t : ℕ → List Char}

theorem StaysWithin.redirect (h : StaysWithin F inSpace t R) (hn : ∀ i ≤ n, ¬ Stops R i) :
    (∃ location, R n = .redirect (some location)) ∧ t (n + 1) ∈ F ∧ inSpace n (t (n + 1)) = true :=
  h n fun i hi ↦ not_stops.1 (hn i hi)

/-- A redirect that passes. -/
theorem StaysWithin.passes (h : StaysWithin F inSpace t R) (hgoes : WalksOn 2 (Stops R) t (n + 1)) :
    ∃ location, R n = .redirect (some location) ∧ inSpace n (t (n + 1)) = true ∧
      Fresh 2 (fun i ↦ t (i + 1)) n := by
  obtain ⟨⟨location, hR⟩, -, hspace⟩ :=
    h.redirect fun i hi ↦ (hgoes i (Nat.lt_succ_of_le hi)).1
  exact ⟨location, hR, hspace, (hgoes n n.lt_succ_self).2⟩

/-- A redirect that does not pass. -/
theorem StaysWithin.loops (h : StaysWithin F inSpace t R) (hgoes : WalksOn 2 (Stops R) t n)
    (hstop : ¬ Stops R n) :
    ∃ location, R n = .redirect (some location) ∧ inSpace n (t (n + 1)) = true := by
  obtain ⟨hR, -, hspace⟩ := h.redirect fun i (hi : i ≤ n) ↦ by
    rcases hi.lt_or_eq with hlt | rfl
    · exact (hgoes i hlt).1
    · exact hstop
  obtain ⟨location, hR⟩ := hR
  exact ⟨location, hR, hspace⟩

end Staying

section Following

variable {σ ℓ : Type} {step : σ → ℓ → Option σ} {s final : σ} {label : ℕ → ℓ}
  {Ended : σ → List (List Char) → Option ClientError → Prop} {t : ℕ → List Char} {state : ℕ → σ}
  {m : ℕ}

/-- **How a chain ends**, for a call whose state is known up to there: it is followed as it should be
exactly if the requests it has made by then are in order. -/
theorem followedRightly_iff (hstate : ∀ i ≤ m, stateAt step s label i = some (state i))
    (hopen : ∀ i ≤ m, ∀ urls e, ¬ Ended (state i) urls e)
    (hfinal : step (state m) (label m) = some final)
    (hended : ∀ e, Ended final ((List.range (m + 1)).map t) e ↔ e = endsWith t m (R m))
    (hstuck : step final (label (m + 1)) = none) :
    FollowedRightly step s label Ended t R ↔ (∀ u, visits t (m + 1) u ≤ 2) ∧
      (¬ Stops R m → visits t (m + 1) (t (m + 1)) = 2) := by
  have hlast : stateAt step s label (m + 1) = some final := by
    rw [stateAt_succ (hstate m le_rfl), hfinal]
  constructor
  · rintro ⟨n, c, e, hc, hend, hle, hdue⟩
    obtain hlt | rfl | hgt := lt_trichotomy n m
    · rw [hstate (n + 1) hlt] at hc
      obtain rfl := Option.some.inj hc
      exact absurd hend (hopen _ hlt _ _)
    · rw [hlast] at hc
      obtain rfl := Option.some.inj hc
      obtain rfl := (hended e).1 hend
      exact ⟨hle, due_endsWith.1 hdue⟩
    · rw [stateAt_eq_none hlast hstuck (Nat.succ_lt_succ hgt)] at hc
      cases hc
  · rintro ⟨hle, hnext⟩
    exact ⟨m, final, _, hlast, (hended _).2 rfl, hle, due_endsWith.2 hnext⟩

end Following

/-! ### The counter -/

/-- The counter after `n` redirects. -/
def counted (start : List Char) (t : ℕ → List Char) (n : ℕ) : List Char → ℕ :=
  fun u ↦ counter start u + visits (fun i ↦ t (i + 1)) n u

theorem counted_zero (t : ℕ → List Char) : counted start t 0 = counter start := by
  funext u
  rw [counted, visits_zero, Nat.add_zero]

theorem update_counted (t : ℕ → List Char) :
    Function.update (counted start t n) (t (n + 1)) (counted start t n (t (n + 1)) + 1) =
      counted start t (n + 1) := by
  funext u
  rw [Function.update_apply, counted, counted, counted, visits_succ]
  split
  · next heq => rw [heq, if_pos rfl, Nat.add_assoc]
  · next hne => rw [if_neg (Ne.symm hne), Nat.add_zero]

/-- A counter of characters has counted no URL. -/
theorem counter_eq_zero {u : List Char} (h : 2 ≤ u.length) : counter start u = 0 := by
  refine List.count_eq_zero_of_not_mem fun hmem ↦ ?_
  obtain ⟨c, -, rfl⟩ := List.mem_map.1 hmem
  simp at h

theorem two_le_length_text (b : BaseUrl) : 2 ≤ b.text.length := by
  have hsep : "://".toList.length = 3 := rfl
  rw [BaseUrl.text, List.length_append, List.length_append, List.length_append, hsep]
  omega

theorem two_le_length_of_checkRedirect {lab : Option BaseUrl} {u : List Char}
    (h : checkRedirect hub lab u = true) : 2 ≤ u.length := by
  obtain ⟨b, hb⟩ : ∃ b : BaseUrl, b.text.isPrefixOf u = true := by
    rcases Bool.or_eq_true_iff.1 h with h | h
    · exact ⟨hub, h⟩
    · obtain ⟨b, -, hb⟩ := (Option.any_eq_true _ _).1 h
      exact ⟨b, hb⟩
  exact (two_le_length_text b).trans (List.isPrefixOf_iff_prefix.1 hb).length_le

/-- The counter lets a redirect pass if its URL is fresh among those behind the start. -/
theorem not_counted_iff {lab : Option BaseUrl} {t : ℕ → List Char}
    (h : checkRedirect hub lab (t (n + 1)) = true) :
    ¬ 1 < counted start t n (t (n + 1)) ↔ Fresh 2 (fun i ↦ t (i + 1)) n := by
  rw [counted, counter_eq_zero (two_le_length_of_checkRedirect h), Nat.zero_add]
  exact not_lt.trans Nat.lt_succ_iff.symm

/-! ### `_get` -/

section Get

variable {c : Call} {t : ℕ → List Char}

namespace Call

/-- The end of a chain. -/
def endPc : Option ClientError → CallPc
  | none => .returned
  | some e => .raised e

/-- The call has come from `c` to its end in `c'`, with GET requests for these URLs. -/
def EndedFrom (c c' : Call) (urls : List (List Char)) (e : Option ClientError) : Prop :=
  c'.pc = endPc e ∧ c'.sent = c.sent ++ urls.map fun url ↦ ⟨.get, url, c.lab⟩

/-- The call that follows redirects, after `n` of them. -/
def after (c : Call) (t : ℕ → List Char) (n : ℕ) : Call :=
  { c with
    pc := .getting (t n) (counted (t 0) t n)
    sent := c.sent ++ ((List.range (n + 1)).map t).map fun url ↦ ⟨.get, url, c.lab⟩ }

theorem get_eq_after : c.get (t 0) = c.after t 0 := by
  rw [after, counted_zero]
  rfl

theorem step_after_redirect {location : List Char} (ht : t (n + 1) = urljoin (t n) location)
    (hcheck : checkRedirect hub c.lab (t (n + 1)) = true) :
    (c.after t n).step hub urljoin (.respond (.redirect (some location))) =
      some (if 1 < counted (t 0) t n (t (n + 1)) then
        (c.after t n).raise (.redirect "Redirect loop" (t (n + 1))) else c.after t (n + 1)) := by
  have hred : (c.after t n).step hub urljoin (.respond (.redirect (some location))) =
      some ((c.after t n).redirectGet hub urljoin (t n) (counted (t 0) t n) location) := rfl
  have hsent : (c.after t n).send .get (t (n + 1)) (.getting (t (n + 1)) (counted (t 0) t (n + 1))) =
      c.after t (n + 1) := by
    rw [after, after, send, List.range_succ (n := n + 1), List.map_append, List.map_append,
      ← List.append_assoc]
    rfl
  rw [hred, redirectGet, ← ht]
  show some (if checkRedirect hub c.lab (t (n + 1)) then _ else _) = _
  rw [if_pos hcheck, update_counted, hsent]

theorem endPc_injective : Function.Injective endPc := by
  intro e e' h
  rcases e with _ | e <;> rcases e' with _ | e'
  · rfl
  · cases h
  · cases h
  · rw [CallPc.raised.inj h]

/-- The call has ended. -/
def finish (c : Call) (e : Option ClientError) : Call := { c with pc := endPc e }

theorem endedFrom_finish {e₀ e : Option ClientError} :
    EndedFrom c ((c.after t n).finish e₀) ((List.range (n + 1)).map t) e ↔ e = e₀ := by
  constructor
  · rintro ⟨hpc, -⟩
    exact endPc_injective hpc.symm
  · rintro rfl
    exact ⟨rfl, rfl⟩

theorem not_endedFrom_after {urls : List (List Char)} {e : Option ClientError} :
    ¬ EndedFrom c (c.after t n) urls e := by
  rintro ⟨hpc, -⟩
  rcases e with _ | e <;> cases hpc

theorem step_finish (e : Option ClientError) (r : Response) :
    (c.finish e).step hub urljoin (.respond r) = none := by
  rcases e with _ | e <;> rcases r with (_ | location) | _ | _ | _ <;> rfl

/-- Redirects that pass lead from one state to the next. -/
theorem stateAt_after {F : Finset (List Char)}
    (hstays : StaysWithin F (fun _ ↦ checkRedirect hub c.lab) (target urljoin start R) R)
    (hgoes : WalksOn 2 (Stops R) (target urljoin start R) n) :
    stateAt (Call.step hub urljoin) (c.get start) (fun i ↦ .respond (R i)) n =
      some (c.after (target urljoin start R) n) := by
  induction n with
  | zero => rw [stateAt_zero, ← get_eq_after]; rfl
  | succ n ih =>
    have hbefore := ih fun i hi ↦ hgoes i (Nat.lt_succ_of_lt hi)
    obtain ⟨location, hR, hcheck, hfresh⟩ := hstays.passes hgoes
    rw [stateAt_succ hbefore, hR, step_after_redirect (target_succ hR) hcheck,
      if_neg ((not_counted_iff hcheck).2 hfresh)]

/-- The response with which a chain ends. -/
theorem step_after_end {F : Finset (List Char)}
    (hstays : StaysWithin F (fun _ ↦ checkRedirect hub c.lab) (target urljoin start R) R)
    (hgoes : WalksOn 2 (Stops R) (target urljoin start R) n)
    (hend : Stops R n ∨ ¬ Fresh 2 (fun i ↦ target urljoin start R (i + 1)) n) :
    (c.after (target urljoin start R) n).step hub urljoin (.respond (R n)) =
      some ((c.after (target urljoin start R) n).finish
        (endsWith (target urljoin start R) n (R n))) := by
  by_cases hstop : Stops R n
  · rcases hR : R n with location | _ | _ | _
    · rw [Stops, hR] at hstop
      cases hstop
    · rfl
    · rfl
    · rfl
  · obtain ⟨location, hR, hcheck⟩ := hstays.loops hgoes hstop
    have hloop : 1 < counted (target urljoin start R 0) (target urljoin start R) n
        (target urljoin start R (n + 1)) :=
      not_not.1 (mt (not_counted_iff hcheck).1 (hend.resolve_left hstop))
    rw [hR, step_after_redirect (target_succ hR) hcheck, if_pos hloop]
    rfl

end Call

/-- **`_get` follows redirects as it should** unless the start is the first URL to come up for the third
time. -/
theorem get_followedRightly_iff {F : Finset (List Char)}
    (hstays : StaysWithin F (fun _ ↦ checkRedirect hub c.lab) (target urljoin start R) R) :
    FollowedRightly (Call.step hub urljoin) (c.get start) (fun i ↦ .respond (R i)) c.EndedFrom
      (target urljoin start R) R ↔ StartsInTime 2 (Stops R) (target urljoin start R) := by
  obtain ⟨m, hgoes, hend⟩ := exists_end (fun _ hn ↦ (hstays.redirect hn).2.1) 2
  rw [← counts_start_iff hgoes hend]
  exact followedRightly_iff (fun i hi ↦ Call.stateAt_after hstays fun j hj ↦ hgoes j (by omega))
    (fun i _ urls e ↦ Call.not_endedFrom_after) (Call.step_after_end hstays hgoes hend)
    (fun e ↦ Call.endedFrom_finish) (Call.step_finish _ _)

end Get

/-! ### `_find_lab_base_url` -/

section Find

variable {username : List Char} {t : ℕ → List Char} {d : Discovery}

namespace Discovery

/-- The end of a chain. -/
def endPc : Option ClientError → DiscoveryPc
  | none => .found
  | some e => .raised e

/-- The call has come to its end with requests for these URLs. -/
def Ended (d : Discovery) (urls : List (List Char)) (e : Option ClientError) : Prop :=
  d.pc = endPc e ∧ d.sent = urls

/-- The call after `n` redirects. -/
def after (username : List Char) (hub : BaseUrl) (R : ℕ → Response) (t : ℕ → List Char) (n : ℕ) :
    Discovery where
  base := shownBase username hub R n
  url := t n
  seen := counted (t 0) t n
  sent := (List.range (n + 1)).map t

theorem start_eq_after (h : t 0 = urlBelow hub (labRoute username)) :
    Discovery.start hub username = after username hub R t 0 := by
  rw [after, counted_zero, h, List.range_succ, List.map_append, List.map_singleton, h]
  rfl

theorem step_after_redirect {location : List Char} (hR : R n = .redirect (some location))
    (ht : t (n + 1) = urljoin (t n) location)
    (hcheck : checkRedirect hub (some (shownBase username hub R (n + 1))) (t (n + 1)) = true) :
    (after username hub R t n).step hub urljoin username (.redirect (some location)) =
      some (if 1 < counted (t 0) t n (t (n + 1)) then
        (after username hub R t n).raise (.redirect "Redirect loop" (t (n + 1)))
      else after username hub R t (n + 1)) := by
  have hbase : shownBase username hub R (n + 1) =
      follow username (shownBase username hub R n) location := by
    rw [shownBase, hR]
  have hred : (after username hub R t n).step hub urljoin username (.redirect (some location)) =
      some ((after username hub R t n).redirected hub urljoin username location) := rfl
  have hsent : (List.range (n + 1)).map t ++ [t (n + 1)] = (List.range (n + 1 + 1)).map t := by
    rw [List.range_succ (n := n + 1), List.map_append]
    rfl
  have hurl : urljoin (after username hub R t n).url location = t (n + 1) := ht.symm
  have hshown : follow username (after username hub R t n).base location =
      shownBase username hub R (n + 1) := hbase.symm
  rw [hred, redirected, hurl, hshown, if_pos hcheck]
  show some (if 1 < counted (t 0) t n (t (n + 1)) then _ else
    (⟨_, _, Function.update (counted (t 0) t n) (t (n + 1)) (counted (t 0) t n (t (n + 1)) + 1), _,
      (List.range (n + 1)).map t ++ [t (n + 1)]⟩ : Discovery)) = _
  rw [update_counted, hsent]
  rfl

theorem endPc_injective : Function.Injective endPc := by
  intro e e' h
  rcases e with _ | e <;> rcases e' with _ | e'
  · rfl
  · cases h
  · cases h
  · rw [DiscoveryPc.raised.inj h]

/-- The call has ended. -/
def finish (d : Discovery) (e : Option ClientError) : Discovery := { d with pc := endPc e }

theorem ended_finish {e₀ e : Option ClientError} :
    Ended ((after username hub R t n).finish e₀) ((List.range (n + 1)).map t) e ↔ e = e₀ := by
  constructor
  · rintro ⟨hpc, -⟩
    exact endPc_injective hpc.symm
  · rintro rfl
    exact ⟨rfl, rfl⟩

theorem not_ended_after {urls : List (List Char)} {e : Option ClientError} :
    ¬ Ended (after username hub R t n) urls e := by
  rintro ⟨hpc, -⟩
  rcases e with _ | e <;> cases hpc

theorem step_finish (e : Option ClientError) (r : Response) :
    (d.finish e).step hub urljoin username r = none := by
  rcases e with _ | e <;> rfl

/-- Where the call of a user starts, and where the responses lead it. -/
abbrev chain (hub : BaseUrl) (urljoin : List Char → List Char → List Char) (username : List Char)
    (R : ℕ → Response) : ℕ → List Char :=
  target urljoin (urlBelow hub (labRoute username)) R

/-- Nublado's URL space, as far as the call knows it after each redirect. -/
abbrev space (hub : BaseUrl) (username : List Char) (R : ℕ → Response) (n : ℕ) :
    List Char → Bool :=
  checkRedirect hub (some (shownBase username hub R (n + 1)))

/-- Redirects that pass lead from one state to the next. -/
theorem stateAt_after {F : Finset (List Char)}
    (hstays : StaysWithin F (space hub username R) (chain hub urljoin username R) R)
    (hgoes : WalksOn 2 (Stops R) (chain hub urljoin username R) n) :
    stateAt (step hub urljoin username) (Discovery.start hub username) R n =
      some (after username hub R (chain hub urljoin username R) n) := by
  induction n with
  | zero => rw [stateAt_zero, start_eq_after (rfl : chain hub urljoin username R 0 = _)]
  | succ n ih =>
    have hbefore := ih fun i hi ↦ hgoes i (Nat.lt_succ_of_lt hi)
    obtain ⟨location, hR, hcheck, hfresh⟩ := hstays.passes hgoes
    rw [stateAt_succ hbefore, hR, step_after_redirect hR (target_succ hR) hcheck,
      if_neg ((not_counted_iff hcheck).2 hfresh)]

/-- The response with which a chain ends. -/
theorem step_after_end {F : Finset (List Char)}
    (hstays : StaysWithin F (space hub username R) (chain hub urljoin username R) R)
    (hgoes : WalksOn 2 (Stops R) (chain hub urljoin username R) n)
    (hend : Stops R n ∨ ¬ Fresh 2 (fun i ↦ chain hub urljoin username R (i + 1)) n) :
    (after username hub R (chain hub urljoin username R) n).step hub urljoin username (R n) =
      some ((after username hub R (chain hub urljoin username R) n).finish
        (endsWith (chain hub urljoin username R) n (R n))) := by
  by_cases hstop : Stops R n
  · rcases hR : R n with location | _ | _ | _
    · rw [Stops, hR] at hstop
      cases hstop
    · rfl
    · rfl
    · rfl
  · obtain ⟨location, hR, hcheck⟩ := hstays.loops hgoes hstop
    have hloop : 1 < counted (chain hub urljoin username R 0) (chain hub urljoin username R) n
        (chain hub urljoin username R (n + 1)) :=
      not_not.1 (mt (not_counted_iff hcheck).1 (hend.resolve_left hstop))
    rw [hR, step_after_redirect hR (target_succ hR) hcheck, if_pos hloop]
    rfl

end Discovery

/-- **`_find_lab_base_url` follows redirects as it should** under the same condition. -/
theorem find_followedRightly_iff {F : Finset (List Char)}
    (hstays : StaysWithin F (Discovery.space hub username R)
      (Discovery.chain hub urljoin username R) R) :
    FollowedRightly (Discovery.step hub urljoin username) (Discovery.start hub username) R
      Discovery.Ended (Discovery.chain hub urljoin username R) R ↔
        StartsInTime 2 (Stops R) (Discovery.chain hub urljoin username R) := by
  obtain ⟨m, hgoes, hend⟩ := exists_end (fun _ hn ↦ (hstays.redirect hn).2.1) 2
  rw [← counts_start_iff hgoes hend]
  exact followedRightly_iff
    (fun i hi ↦ Discovery.stateAt_after hstays fun j hj ↦ hgoes j (by omega))
    (fun i _ urls e ↦ Discovery.not_ended_after) (Discovery.step_after_end hstays hgoes hend)
    (fun e ↦ Discovery.ended_finish) (Discovery.step_finish _ _)

end Find

/-! ### Both functions -/

/-- **Redirects are followed to their end**, and no URL is requested more than twice, exactly if the URL
at which the function starts is not the first one to which the redirects lead for the third time. -/
theorem redirects_bounded (hub : BaseUrl) (urljoin : List Char → List Char → List Char)
    (username start : List Char) (c : Call) (R : ℕ → Response) (F : Finset (List Char)) :
    (StaysWithin F (fun _ ↦ checkRedirect hub c.lab) (target urljoin start R) R →
      (FollowedRightly (Call.step hub urljoin) (c.get start) (fun i ↦ .respond (R i)) c.EndedFrom
        (target urljoin start R) R ↔ StartsInTime 2 (Stops R) (target urljoin start R))) ∧
    (StaysWithin F (Discovery.space hub username R) (Discovery.chain hub urljoin username R) R →
      (FollowedRightly (Discovery.step hub urljoin username) (Discovery.start hub username) R
        Discovery.Ended (Discovery.chain hub urljoin username R) R ↔
          StartsInTime 2 (Stops R) (Discovery.chain hub urljoin username R))) :=
  ⟨get_followedRightly_iff, find_followedRightly_iff⟩

section Samples

/-- The home page of JupyterHub. -/
private def homeSample : List Char := "https://nb.example.org/hub/home".toList

/-- The page for logging in. -/
private def loginSample : List Char := "https://nb.example.org/hub/login".toList

/-- A GET request before it is sent. -/
private def callSample : Call := { method := .get, route := "hub/home".toList, lab := none }

/-- A redirect to the login page. -/
private def loginResponses : ℕ → Response
  | 0 => .redirect (some loginSample)
  | _ + 1 => .success

/-- Two redirects back to the home page. -/
private def homeResponses : ℕ → Response
  | 0 => .redirect (some homeSample)
  | 1 => .redirect (some homeSample)
  | _ + 2 => .success

/-- A start to which no redirect leads. -/
private theorem startsInTime_login {start : List Char} (h : loginSample ≠ start) :
    StartsInTime 2 (Stops loginResponses) (target (fun _ l ↦ l) start loginResponses) := by
  intro n hbefore hstart
  rcases n with _ | _ | n
  · exact Nat.zero_lt_two
  · exact absurd hstart h
  · exact absurd rfl (hbefore 1 (by omega)).1

private theorem staysWithin_login (inSpace : ℕ → List Char → Bool)
    (h : inSpace 0 loginSample = true) (start : List Char) :
    StaysWithin {loginSample} inSpace (target (fun _ l ↦ l) start loginResponses)
      loginResponses := by
  intro n hred
  rcases n with _ | n
  · exact ⟨⟨loginSample, rfl⟩, Finset.mem_singleton_self _, h⟩
  · have hstop : false = true := hred (n + 1) le_rfl
    cases hstop

/-- A login at the first request, in both functions. -/
theorem redirects_bounded_login :
    FollowedRightly (Call.step Sample.separate fun _ l ↦ l) (callSample.get homeSample)
      (fun i ↦ .respond (loginResponses i)) callSample.EndedFrom
      (target (fun _ l ↦ l) homeSample loginResponses) loginResponses ∧
    FollowedRightly (Discovery.step Sample.separate (fun _ l ↦ l) "bob".toList)
      (Discovery.start Sample.separate "bob".toList) loginResponses Discovery.Ended
      (Discovery.chain Sample.separate (fun _ l ↦ l) "bob".toList loginResponses) loginResponses := by
  obtain ⟨hget, hfind⟩ := redirects_bounded Sample.separate (fun _ l ↦ l) "bob".toList homeSample
    callSample loginResponses {loginSample}
  exact ⟨(hget (staysWithin_login _ rfl _)).2 (startsInTime_login (by decide)),
    (hfind (staysWithin_login _ rfl _)).2 (startsInTime_login (by decide))⟩

/-- **The start is requested for the third time**: redirects from the home page back to the home page
should be given up after two requests. -/
theorem start_requested_thrice : ¬ ∀ (hub : BaseUrl) (urljoin : List Char → List Char → List Char)
    (start : List Char) (c : Call) (R : ℕ → Response) (F : Finset (List Char)),
    StaysWithin F (fun _ ↦ checkRedirect hub c.lab) (target urljoin start R) R →
      FollowedRightly (Call.step hub urljoin) (c.get start) (fun i ↦ .respond (R i)) c.EndedFrom
        (target urljoin start R) R := by
  intro hall
  have hstays : StaysWithin {homeSample} (fun _ ↦ checkRedirect Sample.separate callSample.lab)
      (target (fun _ l ↦ l) homeSample homeResponses) homeResponses := by
    intro n hred
    rcases n with _ | _ | n
    · exact ⟨⟨homeSample, rfl⟩, Finset.mem_singleton_self _, rfl⟩
    · exact ⟨⟨homeSample, rfl⟩, Finset.mem_singleton_self _, rfl⟩
    · have hstop : false = true := hred (n + 2) le_rfl
      cases hstop
  have hstart := (get_followedRightly_iff hstays).1 (hall _ _ _ _ _ _ hstays)
  have hthird := hstart 2 (fun i hi ↦ ?_) rfl
  · exact absurd hthird (by decide)
  · have hi : i = 0 ∨ i = 1 := by omega
    rcases hi with rfl | rfl
    · exact ⟨Bool.true_eq_false.mp, Nat.zero_lt_two⟩
    · exact ⟨Bool.true_eq_false.mp, by decide⟩

end Samples

end Nublado.Client
