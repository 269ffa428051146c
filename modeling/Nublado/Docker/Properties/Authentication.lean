import Nublado.Docker.Client

/-!
# Authentication to registries

With configured credentials that the registry accepts, no call should fail because of authentication.

The first call that is answered 401 authenticates and stores the authorization for all others. A call
that takes up a 401 while there is an authorization in the cache takes it as the answer to that
authorization and gives up, but the request may have been sent without one, before the cache was
filled, or with a token that has expired since.

* `Heeds` is the condition on a step: a call takes up a 401 only while nothing is cached for the
  registry, and the challenge is one that the client can read.
* `authentication_iff`: no call fails because of authentication in a run exactly when every step of
  the run meets the condition. In the run of `parallel_calls_rejected` two calls are made at once.
-/

namespace Nublado.Docker

/-- Whether the program point has nothing to do with a retry or a failure of authentication. -/
def CallPc.isPlain : CallPc → Bool
  | .requested .retry | .answered .retry _ | .raised (.auth _) => false
  | _ => true

/-- The challenge of a 401 that is still to be taken up, of a request that is not a retry. -/
def CallPc.challenge? : CallPc → Option (Option (List Char))
  | .answered .first (.unauthorized challenge) => some challenge
  | _ => none

theorem CallPc.mem_challenge? {pc : CallPc} {challenge : Option (List Char)} :
    challenge ∈ pc.challenge? ↔ pc = .answered .first (.unauthorized challenge) := by
  unfold CallPc.challenge?
  split
  · simp
  · next hnot => simpa using fun heq ↦ hnot challenge heq

namespace DockerStorageClient

variable {credentials : DockerCredentialStore} {s s' : DockerStorageClient} {i j : ℕ}
  {τ : List (Transition DockerStorageClient Label)}

/-! ### The promise and the condition -/

/-- **No call fails because of authentication.** -/
def Blameless (s : DockerStorageClient) : Prop :=
  ∀ i, i < s.calls.size → ∀ e, (s.calls i).pc ≠ .raised (.auth e)

/-- **Only what was sent is rejected**: where a call gives up since its authorization was rejected,
the rejected request carried one. All that are ever sent were obtained from the configured
credentials. -/
def FairlyRejected (s : DockerStorageClient) : Prop :=
  ∀ i, i < s.calls.size → ∀ host carried,
    (s.calls i).pc = .raised (.auth (.rejected host carried)) → carried.isSome = true

/-- **The condition on a step**, in the state before it: a 401 is taken up only while there is no
authorization for the registry, and its challenge can be read. -/
def Heeds (s : DockerStorageClient) : Label → Prop
  | .run i => ∀ challenge ∈ (s.calls i).pc.challenge?,
    s.authorization (s.calls i).config.registry = none ∧
      (readChallenge (s.calls i).config.registry challenge).isOk = true
  | _ => True

instance (s : DockerStorageClient) : (label : Label) → Decidable (s.Heeds label)
  | .run i => inferInstanceAs (Decidable (∀ challenge ∈ (s.calls i).pc.challenge?,
      s.authorization (s.calls i).config.registry = none ∧
        (readChallenge (s.calls i).config.registry challenge).isOk = true))
  | .begin _ _ | .serve _ _ | .token _ _ | .expire _ _ => isTrue trivial

/-! ### The invariant -/

/-- What holds of a call in every state: there are credentials for its registry, what it retries with
is accepted, and so the retry is not answered 401. -/
structure CallOk (credentials : DockerCredentialStore) (s : DockerStorageClient) (c : Call) :
    Prop where
  configured : (credentials.get c.config.registry).isSome = true
  accepted : c.pc = .requested .retry → s.accepts credentials c.config.registry c.headers = true
  served : ∀ answer, c.pc = .answered .retry answer → answer.isUnauthorized = false

/-- All calls are as they should be. -/
def Inv (credentials : DockerCredentialStore) (s : DockerStorageClient) : Prop :=
  ∀ i, i < s.calls.size → CallOk credentials s (s.calls i)

/-- What is accepted depends on the issued tokens only, and more of them do no harm. -/
theorem accepts_mono (h : s.issued ⊆ s'.issued) {host : String} {header : Option String}
    (haccepts : s.accepts credentials host header = true) :
    s'.accepts credentials host header = true := by
  cases header with
  | none => cases haccepts
  | some header =>
    simp only [accepts, Bool.or_eq_true, List.contains_iff_mem] at haccepts ⊢
    exact haccepts.imp_right fun hmem ↦ h hmem

theorem CallOk.mono {c : Call} (h : CallOk credentials s c) (hissued : s.issued ⊆ s'.issued) :
    CallOk credentials s' c :=
  ⟨h.configured, fun hpc ↦ accepts_mono hissued (h.accepted hpc), h.served⟩

/-- **One call moves** and more tokens may be issued. -/
theorem Inv.put (h : Inv credentials s) {c : Call} (hc : CallOk credentials s c) :
    Inv credentials (s.put i c) := by
  intro j hj
  rcases eq_or_ne j i with rfl | hne
  · rw [calls_put_self]
    exact hc.mono (List.Subset.refl _)
  · rw [calls_put_of_ne hne]
    exact (h j hj).mono (List.Subset.refl _)

theorem callOk_of_isPlain {c : Call} (hconfigured : (credentials.get c.config.registry).isSome = true)
    (hplain : c.pc.isPlain = true) : CallOk credentials s c := by
  refine ⟨hconfigured, fun hpc ↦ ?_, fun answer hpc ↦ ?_⟩
  · rw [hpc] at hplain
    cases hplain
  · rw [hpc] at hplain
    cases hplain

/-! ### What the steps do -/

/-- A successful response ends the call, without fault of authentication, or leads to a new
request. -/
theorem succeed_spec (c : Call) (payload : Payload) :
    (c.succeed payload).config = c.config ∧ (c.succeed payload).pc.isPlain = true := by
  have hpage : (c.takePage payload).config = c.config ∧ (c.takePage payload).pc.isPlain = true := by
    unfold Call.takePage
    split
    · exact ⟨rfl, rfl⟩
    · dsimp only
      split
      · exact ⟨rfl, rfl⟩
      · split_ifs <;> exact ⟨rfl, rfl⟩
  unfold Call.succeed
  split
  · split <;> exact ⟨rfl, rfl⟩
  · exact hpage
  · exact ⟨rfl, rfl⟩

/-- **What a call does when it runs.** -/
theorem run_cases (h : s.run credentials i = some s') :
    (∃ challenge, (s.calls i).pc = .answered .first (.unauthorized challenge) ∧
      s' = s.authenticate credentials i challenge) ∨
    (∃ challenge, (s.calls i).pc = .answered .retry (.unauthorized challenge)) ∨
    (∃ c, s' = s.put i c ∧ c.config = (s.calls i).config ∧ c.pc.isPlain = true ∧
      ∀ challenge, (s.calls i).pc ≠ .answered .first (.unauthorized challenge)) := by
  unfold run at h
  dsimp only at h
  split at h
  · next challenge hpc =>
    obtain rfl := Option.some.inj h
    exact Or.inl ⟨challenge, hpc, rfl⟩
  · next challenge hpc => exact Or.inr (Or.inl ⟨challenge, hpc⟩)
  · next attempt payload hpc =>
    obtain rfl := Option.some.inj h
    obtain ⟨hconfig, hplain⟩ := succeed_spec (s.calls i) payload
    exact Or.inr (Or.inr ⟨_, rfl, hconfig, hplain, by simp [hpc]⟩)
  · next attempt status hpc =>
    obtain rfl := Option.some.inj h
    exact Or.inr (Or.inr ⟨_, rfl, rfl, rfl, by simp [hpc]⟩)
  · next attempt hpc =>
    obtain rfl := Option.some.inj h
    exact Or.inr (Or.inr ⟨_, rfl, rfl, rfl, by simp [hpc]⟩)
  · cases h

/-- Authenticating while there is an authorization already is the error that was to be excluded. -/
theorem authenticate_of_cached {challenge : Option (List Char)}
    (h : (s.authorization (s.calls i).config.registry).isSome = true) :
    s.authenticate credentials i challenge = s.put i ((s.calls i).raise
      (.auth (.rejected (s.calls i).config.registry (s.calls i).headers))) :=
  if_pos h

/-- **What authenticating does**, with credentials for the registry. -/
theorem authenticate_cases (challenge : Option (List Char)) {known : DockerCredentials}
    (hnone : s.authorization (s.calls i).config.registry = none)
    (hknown : credentials.get (s.calls i).config.registry = some known) :
    (∃ e, readChallenge (s.calls i).config.registry challenge = .error e ∧
      s.authenticate credentials i challenge = s.put i ((s.calls i).raise (.auth e))) ∨
    (readChallenge (s.calls i).config.registry challenge = .ok .basic ∧
      s.authenticate credentials i challenge = s.authorize i known.authorization) ∨
    ∃ realm params, readChallenge (s.calls i).config.registry challenge =
        .ok (.bearer realm params) ∧
      s.authenticate credentials i challenge =
        s.put i { s.calls i with pc := .bearerToken realm params } := by
  unfold authenticate
  dsimp only
  rw [if_neg (by rw [hnone]; simp), hknown]
  dsimp only
  split
  · next e he => exact Or.inl ⟨e, he, rfl⟩
  · next hbasic => exact Or.inr (Or.inl ⟨hbasic, rfl⟩)
  · next realm params hbearer => exact Or.inr (Or.inr ⟨realm, params, hbearer, rfl⟩)

/-! ### One step -/

/-- **The invariant of a retry** that carries what is accepted. -/
theorem Inv.authorize (h : Inv credentials s) (hi : i < s.calls.size) {header : String}
    (haccepts : s.accepts credentials (s.calls i).config.registry (some header) = true) :
    Inv credentials (s.authorize i header) := by
  have hretry : CallOk credentials s ({ s.calls i with headers := some header }.request .retry) :=
    ⟨(h i hi).configured, fun _ ↦ haccepts, fun _ hpc ↦ by cases hpc⟩
  have hstored : Inv credentials { s with
      authorization := Function.update s.authorization (s.calls i).config.registry
        (some header) } := fun j hj ↦ (h j hj).mono (List.Subset.refl _)
  exact hstored.put (hretry.mono (List.Subset.refl _))

/-- More tokens are issued. -/
theorem Inv.issue (h : Inv credentials s) (host header : String) :
    Inv credentials { s with issued := (host, header) :: s.issued } :=
  fun i hi ↦ (h i hi).mono (List.subset_cons_self _ _)

/-- A token expires that nobody is retrying a request with. -/
theorem Inv.expire (h : Inv credentials s) {host token : String}
    (hunused : ∀ i < s.calls.size, (s.calls i).pc = .requested .retry →
      (s.calls i).config.registry = host → (s.calls i).headers ≠ some (bearer token)) :
    Inv credentials { s with issued := s.issued.filter fun p ↦ p ≠ (host, bearer token) } := by
  intro i hi
  refine ⟨(h i hi).configured, fun hpc ↦ ?_, (h i hi).served⟩
  have haccepted := (h i hi).accepted hpc
  rcases hheaders : (s.calls i).headers with _ | header
  · rw [hheaders] at haccepted
    cases haccepted
  · rw [hheaders] at haccepted
    simp only [accepts, Bool.or_eq_true, List.contains_iff_mem, List.mem_filter] at haccepted ⊢
    refine haccepted.imp_right fun hmem ↦ ⟨hmem, ?_⟩
    refine decide_eq_true fun heq ↦ ?_
    obtain ⟨hhost, rfl⟩ := Prod.mk.inj heq
    exact hunused i hi hpc hhost hheaders

theorem Inv.begin (h : Inv credentials s) (operation : Operation) {config : DockerSource}
    (hconfigured : (credentials.get config.registry).isSome = true) :
    Inv credentials (s.begin operation config) := by
  intro j hj
  rcases Nat.lt_succ_iff_lt_or_eq.1 hj with hlt | rfl
  · have hold : (s.begin operation config).calls j = s.calls j := if_neg (by omega)
    rw [hold]
    exact (h j hlt).mono (List.Subset.refl _)
  · have hnew : (s.begin operation config).calls s.calls.size = _ := if_pos rfl
    rw [hnew]
    exact callOk_of_isPlain hconfigured rfl

/-- The credentials for the registry of a call. -/
theorem Inv.exists_credentials (h : Inv credentials s) (hi : i < s.calls.size) :
    ∃ known, credentials.get (s.calls i).config.registry = some known :=
  Option.isSome_iff_exists.1 (h i hi).configured

/-- The configured credentials are accepted. -/
theorem accepts_authorization {host : String} {known : DockerCredentials}
    (hknown : credentials.get host = some known) :
    s.accepts credentials host (some known.authorization) = true := by
  simp [accepts, hknown]

theorem Inv.authenticate (h : Inv credentials s) (hi : i < s.calls.size)
    (challenge : Option (List Char)) : Inv credentials (s.authenticate credentials i challenge) := by
  have hraise : ∀ e, Inv credentials (s.put i ((s.calls i).raise (.auth e))) := fun e ↦
    h.put ⟨(h i hi).configured, fun hpc ↦ (by cases hpc), fun _ hpc ↦ by cases hpc⟩
  obtain ⟨known, hknown⟩ := h.exists_credentials hi
  rcases hcache : s.authorization (s.calls i).config.registry with _ | header
  · rcases authenticate_cases challenge hcache hknown with
      ⟨e, -, heq⟩ | ⟨-, heq⟩ | ⟨realm, params, -, heq⟩
    · rw [heq]
      exact hraise e
    · rw [heq]
      exact h.authorize hi (accepts_authorization hknown)
    · rw [heq]
      exact h.put (callOk_of_isPlain (h i hi).configured rfl)
  · rw [authenticate_of_cached (by rw [hcache]; rfl)]
    exact hraise _

/-- **The invariant is preserved** by every step. -/
theorem Inv.step (h : Inv credentials s) {label : Label}
    (hstep : s.step credentials label = some s') : Inv credentials s' := by
  cases label with
  | begin operation config =>
    obtain ⟨hconfigured, heq⟩ := Option.ite_none_right_eq_some.1 hstep
    obtain rfl := Option.some.inj heq
    exact h.begin operation hconfigured
  | serve i answer =>
    simp only [DockerStorageClient.step] at hstep
    split at hstep
    · next attempt hpc =>
      obtain ⟨⟨hi, hanswer⟩, heq⟩ := Option.ite_none_right_eq_some.1 hstep
      obtain rfl := Option.some.inj heq
      refine h.put ⟨(h i hi).configured, fun hpc' ↦ (by cases hpc'), fun answer' hpc' ↦ ?_⟩
      obtain ⟨rfl, rfl⟩ := CallPc.answered.inj hpc'
      rw [(h i hi).accepted hpc] at hanswer
      exact hanswer
    · cases hstep
  | run i =>
    obtain ⟨hi, hrun⟩ := Option.ite_none_right_eq_some.1 hstep
    rcases run_cases hrun with ⟨challenge, -, rfl⟩ | ⟨challenge, hpc⟩ | ⟨c, rfl, hconfig, hplain, -⟩
    · exact h.authenticate hi challenge
    · cases (h i hi).served _ hpc
    · refine h.put (callOk_of_isPlain ?_ hplain)
      rw [hconfig]
      exact (h i hi).configured
  | token i token =>
    simp only [DockerStorageClient.step] at hstep
    split at hstep
    · next realm params hpc =>
      obtain ⟨hi, heq⟩ := Option.ite_none_right_eq_some.1 hstep
      split at heq
      · obtain rfl := Option.some.inj heq
        exact h.put (callOk_of_isPlain (h i hi).configured rfl)
      · next token =>
        obtain rfl := Option.some.inj heq
        refine (h.issue _ _).authorize hi ?_
        simp [accepts]
    · cases hstep
  | expire host token =>
    obtain ⟨hunused, heq⟩ := Option.ite_none_right_eq_some.1 hstep
    obtain rfl := Option.some.inj heq
    refine h.expire fun i hi hpc hhost ↦ ?_
    have hnot := List.all_eq_true.1 hunused i (List.mem_range.2 hi)
    simpa [hpc, hhost] using hnot

/-! ### Blame -/

/-- A call without fault of authentication moves. -/
theorem Blameless.put (h : s.Blameless) {c : Call} (hc : ∀ e, c.pc ≠ .raised (.auth e)) :
    (s.put i c).Blameless := by
  intro j hj
  rcases eq_or_ne j i with rfl | hne
  · rw [calls_put_self]
    exact hc
  · rw [calls_put_of_ne hne]
    exact h j hj

theorem ne_auth_of_isPlain {c : Call} (hplain : c.pc.isPlain = true) (e : AuthError) :
    c.pc ≠ .raised (.auth e) := by
  intro hpc
  rw [hpc] at hplain
  cases hplain

/-- A retry is without fault. -/
theorem Blameless.authorize (h : s.Blameless) (i : ℕ) (header : String) :
    (s.authorize i header).Blameless := by
  have hstored : Blameless { s with
      authorization := Function.update s.authorization (s.calls i).config.registry
        (some header) } := h
  exact hstored.put fun e hpc ↦ by cases hpc

/-- **A step that meets the condition** makes no call fail because of authentication. -/
theorem Blameless.step (h : s.Blameless) (hinv : Inv credentials s) {label : Label}
    (hstep : s.step credentials label = some s') (hheeds : s.Heeds label) : s'.Blameless := by
  cases label with
  | begin operation config =>
    obtain ⟨hconfigured, heq⟩ := Option.ite_none_right_eq_some.1 hstep
    obtain rfl := Option.some.inj heq
    intro j hj e
    rcases Nat.lt_succ_iff_lt_or_eq.1 hj with hlt | rfl
    · have hold : (s.begin operation config).calls j = s.calls j := if_neg (by omega)
      rw [hold]
      exact h j hlt e
    · have hnew : (s.begin operation config).calls s.calls.size = _ := if_pos rfl
      rw [hnew]
      simp
  | serve i answer =>
    simp only [DockerStorageClient.step] at hstep
    split at hstep
    · obtain ⟨-, heq⟩ := Option.ite_none_right_eq_some.1 hstep
      obtain rfl := Option.some.inj heq
      exact h.put (by simp)
    · cases hstep
  | run i =>
    obtain ⟨hi, hrun⟩ := Option.ite_none_right_eq_some.1 hstep
    rcases run_cases hrun with ⟨challenge, hpc, rfl⟩ | ⟨challenge, hpc⟩ | ⟨c, rfl, -, hplain, -⟩
    · obtain ⟨hnone, hreadable⟩ := hheeds challenge (CallPc.mem_challenge?.2 hpc)
      obtain ⟨known, hknown⟩ := hinv.exists_credentials hi
      rcases authenticate_cases challenge hnone hknown with
        ⟨e, he, -⟩ | ⟨-, heq⟩ | ⟨realm, params, -, heq⟩
      · rw [he] at hreadable
        cases hreadable
      · rw [heq]
        exact h.authorize i _
      · rw [heq]
        exact h.put (by simp)
    · cases (hinv i hi).served _ hpc
    · exact h.put (ne_auth_of_isPlain hplain)
  | token i token =>
    simp only [DockerStorageClient.step] at hstep
    split at hstep
    · obtain ⟨-, heq⟩ := Option.ite_none_right_eq_some.1 hstep
      split at heq
      · obtain rfl := Option.some.inj heq
        exact h.put (by simp [Call.raise])
      · next token =>
        obtain rfl := Option.some.inj heq
        have hissued : Blameless { s with
            issued := ((s.calls i).config.registry, bearer token) :: s.issued } := h
        exact hissued.authorize i _
    · cases hstep
  | expire host token =>
    obtain ⟨-, heq⟩ := Option.ite_none_right_eq_some.1 hstep
    obtain rfl := Option.some.inj heq
    exact h

/-- **A step that does not meet the condition** makes a call fail because of authentication. -/
theorem heeds_of_blameless (hinv : Inv credentials s) {label : Label}
    (hstep : s.step credentials label = some s') (h : s'.Blameless) : s.Heeds label := by
  cases label with
  | begin operation config | serve i answer | token i token | expire host token => trivial
  | run i =>
    intro challenge hchallenge
    have hpc := CallPc.mem_challenge?.1 hchallenge
    obtain ⟨hi, hrun⟩ := Option.ite_none_right_eq_some.1 hstep
    obtain ⟨known, hknown⟩ := hinv.exists_credentials hi
    have hblamed : ∀ e, s' = s.put i ((s.calls i).raise (.auth e)) → False := by
      rintro e rfl
      refine h i hi e ?_
      rw [calls_put_self]
      rfl
    rcases run_cases hrun with ⟨challenge', hpc', heq⟩ | ⟨challenge', hpc'⟩ | ⟨c, -, -, -, hnot⟩
    · obtain rfl : challenge = challenge' := by
        rw [hpc'] at hpc
        simpa using hpc.symm
      rcases hcache : s.authorization (s.calls i).config.registry with _ | header
      · refine ⟨rfl, ?_⟩
        rcases authenticate_cases challenge hcache hknown with
          ⟨e, -, hraise⟩ | ⟨hread, -⟩ | ⟨realm, params, hread, -⟩
        · exact (hblamed e (heq.trans hraise)).elim
        · rw [hread]
          rfl
        · rw [hread]
          rfl
      · exact (hblamed _ (heq.trans (authenticate_of_cached (by rw [hcache]; rfl)))).elim
    · rw [hpc'] at hpc
      cases hpc
    · exact absurd hpc (hnot challenge)

/-! ### Runs -/

/-- Where no call fails because of authentication, none is rejected unfairly. -/
theorem Blameless.fairlyRejected (h : s.Blameless) : s.FairlyRejected :=
  fun i hi _ _ hpc ↦ absurd hpc (h i hi _)

theorem authentication_of_trace (hinv : Inv credentials s) (h : s.Blameless)
    (htrace : Trace (DockerStorageClient.step credentials) s τ s') :
    (∀ x ∈ τ, x.post.Blameless ∧ x.post.FairlyRejected) ↔ ∀ x ∈ τ, x.pre.Heeds x.label := by
  induction htrace with
  | nil => simp
  | cons hstep _ ih =>
    have hinv' := hinv.step hstep
    rw [List.forall_mem_cons, List.forall_mem_cons]
    constructor
    · rintro ⟨⟨hblameless, -⟩, hrest⟩
      exact ⟨heeds_of_blameless hinv hstep hblameless, (ih hinv' hblameless).1 hrest⟩
    · rintro ⟨hheeds, hrest⟩
      have hblameless := h.step hinv hstep hheeds
      exact ⟨⟨hblameless, hblameless.fairlyRejected⟩, (ih hinv' hblameless).2 hrest⟩

/-- **Valid credentials keep working in a run**, and what is rejected was sent, exactly when every
step of the run meets the condition. -/
theorem authentication_iff (hrun : Run credentials τ s) :
    (∀ x ∈ τ, x.post.Blameless ∧ x.post.FairlyRejected) ↔ ∀ x ∈ τ, x.pre.Heeds x.label :=
  authentication_of_trace (fun i hi ↦ absurd hi (Nat.not_lt_zero i))
    (fun i hi ↦ absurd hi (Nat.not_lt_zero i)) hrun

/-! ### Two runs -/

namespace Sample

/-- Credentials for one registry. -/
def store : DockerCredentialStore :=
  [("registry", ⟨"user", "secret", "Basic dXNlcjpzZWNyZXQ="⟩)]

def config : DockerSource := ⟨"registry", "lab"⟩

/-- A challenge for a bearer token. -/
def bearerChallenge : List Char := "Bearer realm=\"https://auth/token\",service=\"registry\"".toList

/-- One call authenticates and is answered. -/
def alone : List Label :=
  [.begin (.getImageDigest "w_2077_43") config,
    .serve 0 (.unauthorized (some bearerChallenge)), .run 0, .token 0 (some "token"),
    .serve 0 (.success { digest := some "sha256:abc" }), .run 0]

/-- Two calls send their first requests before either is answered. -/
def parallel : List Label :=
  [.begin (.getImageDigest "w_2077_43") config, .begin (.getImageDigest "w_2077_44") config,
    .serve 0 (.unauthorized (some "Basic realm=registry".toList)),
    .serve 1 (.unauthorized (some "Basic realm=registry".toList)), .run 0, .run 1]

end Sample

/-- A call that is alone obtains a token and returns. -/
theorem authentication_sample : ∃ τ s, Run Sample.store τ s ∧
    (s.calls 0).pc = .returned (.digest "sha256:abc") ∧
    ∀ x ∈ τ, x.post.Blameless ∧ x.post.FairlyRejected := by
  obtain ⟨τ, s, hrun, hpc, hheeds⟩ := exists_run Sample.store Sample.alone
    (fun τ s ↦ (s.calls 0).pc = .returned (.digest "sha256:abc") ∧ ∀ x ∈ τ, x.pre.Heeds x.label)
    (by decide +kernel)
  exact ⟨τ, s, hrun, hpc, (authentication_iff hrun).2 hheeds⟩

/-- **Two calls at once**: the second gives up over the authorization that the first has obtained in
the meantime, although its own request carried none. -/
theorem parallel_calls_rejected : ∃ τ s, Run Sample.store τ s ∧
    (s.calls 1).pc = .raised (.auth (.rejected "registry" none)) ∧
    ¬s.Blameless ∧ ¬s.FairlyRejected := by
  obtain ⟨τ, s, hrun, hsize, hpc⟩ := exists_run Sample.store Sample.parallel
    (fun _ s ↦ 1 < s.calls.size ∧ (s.calls 1).pc = .raised (.auth (.rejected "registry" none)))
    (by decide +kernel)
  refine ⟨τ, s, hrun, hpc, fun h ↦ h 1 hsize _ hpc, fun h ↦ ?_⟩
  have hcarried := h 1 hsize _ _ hpc
  cases hcarried

end DockerStorageClient

end Nublado.Docker
