import Nublado.Docker.Client

/-!
# Listing tags

`list_tags` follows the next links of the pages that a registry answers with. This module has what a
statement about it needs: registries whose answers are not restricted, what one step does to one
call, and the pages of a registry with the chain of links from one to the next.

* `openStep` is a step of the client with registries that may answer any request in any way, and
  with calls for any registry. `openStep_of_step` says that it allows all that the registries with rules
  of their own do.
* `Call.Moves` is what a step of a call does to it, with one constructor for each outcome, and
  `Refused` names the steps that end a call because a request was not served.
* `Pages` are the pages by URL. `Pages.chain` is the chain of next links from a first page.
-/

namespace Nublado.Docker

/-! ### Registries that answer as they like -/

/-- The call that a step belongs to. -/
def Label.call : Label → Option ℕ
  | .serve i _ | .run i | .token i _ => some i
  | .begin _ _ | .expire _ _ => none

namespace DockerStorageClient

variable {credentials : DockerCredentialStore} {s s' : DockerStorageClient} {i j : ℕ}

/-- One step of the client with registries that may answer in any way. -/
def openStep (credentials : DockerCredentialStore) (s : DockerStorageClient) :
    Label → Option DockerStorageClient
  | .begin operation config => some (s.begin operation config)
  | .serve i answer =>
    let c := s.calls i
    match c.pc with
    | .requested attempt =>
      if i < s.calls.size then some (s.put i { c with pc := .answered attempt answer }) else none
    | _ => none
  | .run i => s.step credentials (.run i)
  | .token i token => s.step credentials (.token i token)
  | .expire host token =>
    some { s with issued := s.issued.filter fun p ↦ p ≠ (host, bearer token) }

/-- **All that registries with rules do** is allowed. -/
theorem openStep_of_step {label : Label} (h : s.step credentials label = some s') :
    s.openStep credentials label = some s' := by
  cases label with
  | begin operation config => exact (Option.ite_none_right_eq_some.1 h).2
  | serve i answer =>
    simp only [DockerStorageClient.step] at h
    split at h
    · next attempt hpc =>
      obtain ⟨⟨hi, -⟩, heq⟩ := Option.ite_none_right_eq_some.1 h
      simp only [openStep, hpc, if_pos hi]
      exact heq
    · cases h
  | run i => exact h
  | token i token => exact h
  | expire host token => exact (Option.ite_none_right_eq_some.1 h).2

end DockerStorageClient

/-! ### What a step does to a call -/

/-- **What a step of a call does** where it is served. -/
inductive Call.Moves (c : Call) (i : ℕ) : Label → Call → Prop
  | serve {attempt : Attempt} (answer : Answer) (hpc : c.pc = .requested attempt) :
      Moves c i (.serve i answer) { c with pc := .answered attempt answer }
  | succeed {attempt : Attempt} {payload : Payload}
      (hpc : c.pc = .answered attempt (.success payload)) :
      Moves c i (.run i) (c.succeed payload)
  | basic {challenge : Option (List Char)} (header : String)
      (hpc : c.pc = .answered .first (.unauthorized challenge)) :
      Moves c i (.run i) ({ c with headers := some header }.request .retry)
  | bearer {challenge : Option (List Char)} (realm : List Char)
      (params : List (List Char × List Char))
      (hpc : c.pc = .answered .first (.unauthorized challenge)) :
      Moves c i (.run i) { c with pc := .bearerToken realm params }
  | token {realm : List Char} {params : List (List Char × List Char)} (token : String)
      (hpc : c.pc = .bearerToken realm params) :
      Moves c i (.token i (some token))
        ({ c with headers := some (Docker.bearer token) }.request .retry)

/-- The exceptions that have to do with a request that is not served. -/
def CallError.isRefusal : CallError → Bool
  | .auth _ | .http => true
  | .parse | .invalidUrl _ _ _ => false

namespace DockerStorageClient

variable {credentials : DockerCredentialStore} {s s' : DockerStorageClient} {i j : ℕ}

/-- **A request is not served**: there is no response or one with an error status, the request is
rejected again after it was authenticated, or there is no way to authenticate it. -/
inductive Refused (credentials : DockerCredentialStore) (s : DockerStorageClient) (i : ℕ) :
    Label → Prop
  | error {attempt : Attempt} {status : ℕ}
      (hpc : (s.calls i).pc = .answered attempt (.error status)) :
      Refused credentials s i (.run i)
  | failed {attempt : Attempt} (hpc : (s.calls i).pc = .answered attempt .failed) :
      Refused credentials s i (.run i)
  | again {challenge : Option (List Char)}
      (hpc : (s.calls i).pc = .answered .retry (.unauthorized challenge)) :
      Refused credentials s i (.run i)
  | cached {challenge : Option (List Char)}
      (hpc : (s.calls i).pc = .answered .first (.unauthorized challenge))
      (hcached : (s.authorization (s.calls i).config.registry).isSome = true) :
      Refused credentials s i (.run i)
  | noCredentials {challenge : Option (List Char)}
      (hpc : (s.calls i).pc = .answered .first (.unauthorized challenge))
      (hnone : credentials.get (s.calls i).config.registry = none) :
      Refused credentials s i (.run i)
  | unreadable {challenge : Option (List Char)} {e : AuthError}
      (hpc : (s.calls i).pc = .answered .first (.unauthorized challenge))
      (herror : readChallenge (s.calls i).config.registry challenge = .error e) :
      Refused credentials s i (.run i)
  | noToken {realm : List Char} {params : List (List Char × List Char)}
      (hpc : (s.calls i).pc = .bearerToken realm params) :
      Refused credentials s i (.token i none)

/-- **What a step does to one call**, served or not. -/
inductive Affects (credentials : DockerCredentialStore) (s : DockerStorageClient) (i : ℕ)
    (label : Label) (c : Call) : Prop
  | moves (h : (s.calls i).Moves i label c)
  | refused (e : CallError) (he : e.isRefusal = true) (h : Refused credentials s i label)
      (heq : c = (s.calls i).raise e)

theorem authorize_calls_self (header : String) :
    (s.authorize i header).calls i = { s.calls i with headers := some header }.request .retry :=
  calls_put_self i _

theorem authorize_calls_of_ne (h : j ≠ i) (header : String) :
    (s.authorize i header).calls j = s.calls j :=
  calls_put_of_ne h _

/-- Authentication changes the call that asks for it. -/
theorem authenticate_affects {challenge : Option (List Char)}
    (hpc : (s.calls i).pc = .answered .first (.unauthorized challenge)) :
    Affects credentials s i (.run i) ((s.authenticate credentials i challenge).calls i) ∧
      (∀ j, j ≠ i → (s.authenticate credentials i challenge).calls j = s.calls j) ∧
      (s.authenticate credentials i challenge).calls.size = s.calls.size := by
  unfold authenticate
  dsimp only
  split
  · next hcached =>
    rw [calls_put_self]
    exact ⟨.refused _ rfl (.cached hpc hcached) rfl, fun j hj ↦ calls_put_of_ne hj _, rfl⟩
  · split
    · next hnone =>
      rw [calls_put_self]
      exact ⟨.refused _ rfl (.noCredentials hpc hnone) rfl, fun j hj ↦ calls_put_of_ne hj _, rfl⟩
    · split
      · next e herror =>
        rw [calls_put_self]
        exact ⟨.refused _ rfl (.unreadable hpc herror) rfl, fun j hj ↦ calls_put_of_ne hj _, rfl⟩
      · rw [authorize_calls_self]
        exact ⟨.moves (.basic _ hpc), fun j hj ↦ authorize_calls_of_ne hj _, rfl⟩
      · rw [calls_put_self]
        exact ⟨.moves (.bearer _ _ hpc), fun j hj ↦ calls_put_of_ne hj _, rfl⟩

/-- A call that is written back is the only one that changes. -/
theorem affects_put {label : Label} {c : Call} (h : Affects credentials s i label c) :
    Affects credentials s i label ((s.put i c).calls i) ∧
      (∀ j, j ≠ i → (s.put i c).calls j = s.calls j) ∧ (s.put i c).calls.size = s.calls.size := by
  rw [calls_put_self]
  exact ⟨h, fun j hj ↦ calls_put_of_ne hj c, rfl⟩

/-- **A step of a call** affects this call, and leaves the others as they are. -/
theorem openStep_call {label : Label} (h : s.openStep credentials label = some s')
    (hcall : label.call = some i) :
    i < s.calls.size ∧ Affects credentials s i label (s'.calls i) ∧
      (∀ j, j ≠ i → s'.calls j = s.calls j) ∧ s'.calls.size = s.calls.size := by
  cases label with
  | begin operation config => cases hcall
  | expire host token => cases hcall
  | serve j answer =>
    obtain rfl := Option.some.inj hcall
    simp only [openStep] at h
    split at h
    · next attempt hpc =>
      obtain ⟨hi, heq⟩ := Option.ite_none_right_eq_some.1 h
      obtain rfl := Option.some.inj heq
      exact ⟨hi, affects_put (.moves (.serve answer hpc))⟩
    · cases h
  | run j =>
    obtain rfl := Option.some.inj hcall
    obtain ⟨hi, hrun⟩ := Option.ite_none_right_eq_some.1 h
    refine ⟨hi, ?_⟩
    unfold run at hrun
    dsimp only at hrun
    split at hrun
    · next challenge hpc =>
      obtain rfl := Option.some.inj hrun
      exact authenticate_affects hpc
    · next challenge hpc =>
      obtain rfl := Option.some.inj hrun
      exact affects_put (.refused _ rfl (.again hpc) rfl)
    · next attempt payload hpc =>
      obtain rfl := Option.some.inj hrun
      exact affects_put (.moves (.succeed hpc))
    · next attempt status hpc =>
      obtain rfl := Option.some.inj hrun
      exact affects_put (.refused _ rfl (.error hpc) rfl)
    · next attempt hpc =>
      obtain rfl := Option.some.inj hrun
      exact affects_put (.refused _ rfl (.failed hpc) rfl)
    · cases hrun
  | token j token =>
    obtain rfl := Option.some.inj hcall
    simp only [openStep, DockerStorageClient.step] at h
    split at h
    · next realm params hpc =>
      obtain ⟨hi, heq⟩ := Option.ite_none_right_eq_some.1 h
      refine ⟨hi, ?_⟩
      split at heq
      · obtain rfl := Option.some.inj heq
        exact affects_put (.refused _ rfl (.noToken hpc) rfl)
      · next token =>
        obtain rfl := Option.some.inj heq
        rw [authorize_calls_self]
        exact ⟨.moves (.token token hpc), fun j hj ↦ authorize_calls_of_ne hj _, rfl⟩
    · cases h

/-- A new call. -/
theorem begin_calls (operation : Operation) (config : DockerSource) :
    (s.begin operation config).calls s.calls.size = {
      operation := operation
      config := config
      pc := .requested .first
      url := operation.url config
      headers := s.authorization config.registry
      seenUrls := [operation.url config] } :=
  if_pos rfl

/-- **One step seen from one call**: it is not affected, it is made, or the step is one of its
own. -/
theorem openStep_cases {label : Label} (h : s.openStep credentials label = some s')
    (hi : i < s'.calls.size) :
    (i < s.calls.size ∧ s'.calls i = s.calls i ∧ label.call ≠ some i) ∨
    (i = s.calls.size ∧ label.call ≠ some i ∧ ∃ operation config,
      s' = s.begin operation config) ∨
    (i < s.calls.size ∧ label.call = some i ∧ Affects credentials s i label (s'.calls i)) := by
  rcases hcall : label.call with _ | j
  · cases label with
    | begin operation config =>
      obtain rfl := Option.some.inj h
      rcases Nat.lt_succ_iff_lt_or_eq.1 hi with hlt | rfl
      · exact Or.inl ⟨hlt, if_neg (by omega), by simp⟩
      · exact Or.inr (Or.inl ⟨rfl, by simp, operation, config, rfl⟩)
    | expire host token =>
      obtain rfl := Option.some.inj h
      exact Or.inl ⟨hi, rfl, by simp⟩
    | serve j answer => cases hcall
    | run j => cases hcall
    | token j token => cases hcall
  · obtain ⟨hj, haffects, hothers, hsize⟩ := openStep_call h hcall
    rcases eq_or_ne i j with rfl | hne
    · exact Or.inr (Or.inr ⟨hj, rfl, haffects⟩)
    · rw [hsize] at hi
      exact Or.inl ⟨hi, hothers i hne, by simpa using hne.symm⟩

end DockerStorageClient

/-! ### Pages -/

/-- A page of tags. -/
structure Page where
  tags : List String
  /-- The next link in its `Link` header, relative or absolute. -/
  link : Option String
  deriving DecidableEq

/-- The pages that registries serve, by URL. -/
structure Pages where
  page : String → Page
  /-- The URL that a link on the page of a URL leads to. -/
  urljoin : String → String → String

namespace Pages

variable (p : Pages)

/-- The URL that the next link of a page leads to; an empty link is none. -/
def next (url : String) : Option String :=
  ((p.page url).link.filter (· ≠ "")).map (p.urljoin url)

/-- A response is the page of a URL. -/
def Gives (url : String) (payload : Payload) : Prop :=
  payload.tags = some (p.page url).tags ∧ payload.nextUrl = p.next url

instance (url : String) (payload : Payload) : Decidable (p.Gives url payload) :=
  inferInstanceAs (Decidable (_ ∧ _))

/-- **The chain of next links** from a first page. -/
def chain (first : String) : ℕ → Option String
  | 0 => some first
  | n + 1 => (chain first n).bind p.next

/-- There is a last page. -/
def Ends (first : String) : Prop := ∃ n url, p.chain first n = some url ∧ p.next url = none

/-- Some URL comes up twice. -/
def Repeats (first : String) : Prop :=
  ∃ m n url, m < n ∧ p.chain first m = some url ∧ p.chain first n = some url

end Pages

/-- A URL belongs to a registry. -/
def DockerSource.Under (config : DockerSource) (url : String) : Prop :=
  ("https://" ++ config.registry ++ "/").toList.isPrefixOf url.toList = true

/-- Some URL of the chain does not belong to the registry. -/
def Pages.Leaves (p : Pages) (config : DockerSource) (first : String) : Prop :=
  ∃ n url, p.chain first n = some url ∧ ¬config.Under url

namespace Pages

variable {p : Pages} {first : String}

/-- A chain goes on in the same way from a URL that comes up again. -/
theorem chain_add_of_eq {m n : ℕ} (h : p.chain first m = p.chain first n) (k : ℕ) :
    p.chain first (m + k) = p.chain first (n + k) := by
  induction k with
  | zero => exact h
  | succ k ih =>
    show (p.chain first (m + k)).bind p.next = (p.chain first (n + k)).bind p.next
    rw [ih]

/-- What comes before a URL of the chain is there, too. -/
theorem chain_isSome_of_le {m n : ℕ} (hmn : m ≤ n) (h : (p.chain first n).isSome = true) :
    (p.chain first m).isSome = true := by
  induction hmn with
  | refl => exact h
  | @step n _ ih =>
    refine ih ?_
    obtain ⟨url, hurl⟩ := Option.isSome_iff_exists.1 h
    obtain ⟨previous, hprevious, -⟩ := Option.bind_eq_some_iff.1 hurl
    rw [hprevious]
    rfl

/-- After the last page the chain is over. -/
theorem chain_eq_none {m n : ℕ} {url : String} (h : p.chain first n = some url)
    (hlast : p.next url = none) (hlt : n < m) : p.chain first m = none := by
  have hnext : p.chain first (n + 1) = none := by
    show (p.chain first n).bind p.next = none
    rw [h]
    exact hlast
  by_contra hsome
  have := chain_isSome_of_le (show n + 1 ≤ m from hlt) (Option.isSome_iff_ne_none.2 hsome)
  rw [hnext] at this
  cases this

/-- **A chain that ends does not repeat a URL**: else it would go on from there for ever. -/
theorem not_repeats_of_ends (h : p.Ends first) : ¬p.Repeats first := by
  rintro ⟨m, n, url, hlt, hm, hn⟩
  obtain ⟨last, lastUrl, hlast, hnone⟩ := h
  have hle : n ≤ last := by
    by_contra hgt
    rw [chain_eq_none hlast hnone (by omega)] at hn
    cases hn
  have hshift := chain_add_of_eq (hm.trans hn.symm) (last - m)
  rw [show m + (last - m) = last by omega] at hshift
  rw [hlast, chain_eq_none hlast hnone (by omega)] at hshift
  cases hshift

end Pages

end Nublado.Docker
