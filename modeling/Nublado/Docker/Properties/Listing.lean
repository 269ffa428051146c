import Mathlib.Data.Finset.Card
import Nublado.Docker.Listing

/-!
# Tag listing terminates and is complete

A registry decides with the links of its pages what `list_tags` requests next. The URLs that were
requested are an initial part of the chain of next links, without repetition and all of the
registry; that is `Listing`, which every step of a call preserves.

What follows from it is in `Lists`, and `listTags_lists` proves it for every run: any number of
other calls, registries that answer as they like, and pages that link to each other in any way.

* A page is obtained at most once from each URL (`rankFor`), and a call takes boundedly many steps
  over finitely many URLs (`Call.rank`).
* When the call has ended it has returned the tags of the whole chain, or found that the chain
  repeats a URL or leaves the registry, or there was a request that was not served.
-/

namespace Nublado.Docker

/-- Whether a call has ended. -/
def CallPc.isFinished : CallPc → Bool
  | .returned _ | .raised _ => true
  | _ => false

/-- Whether the page of the URL may still be answered. -/
def CallPc.awaitsPage : CallPc → Bool
  | .requested _ | .answered _ (.unauthorized _) | .bearerToken _ _ => true
  | _ => false

/-- How many steps there can be before the next page is requested or the call ends. -/
def CallPc.phase : CallPc → ℕ
  | .requested .first => 5
  | .answered .first _ => 4
  | .bearerToken _ _ => 3
  | .requested .retry => 2
  | .answered .retry _ => 1
  | .returned _ | .raised _ => 0

/-- The page that a request of a call is answered with. -/
def Label.payload? (i : ℕ) : Label → Option Payload
  | .serve j (.success payload) => if j = i then some payload else none
  | _ => none

@[simp] theorem Label.payload?_serve (i : ℕ) (payload : Payload) :
    (Label.serve i (.success payload)).payload? i = some payload := if_pos rfl

/-- The first URL of a listing. -/
abbrev DockerSource.firstUrl (config : DockerSource) : String := config.urlFor "tags/list"

/-- The first URL belongs to the registry. -/
theorem DockerSource.under_firstUrl (config : DockerSource) : config.Under config.firstUrl := by
  unfold Under firstUrl urlFor
  rw [List.isPrefixOf_iff_prefix]
  refine ⟨("v2/" ++ config.repository ++ "/" ++ "tags/list").toList, ?_⟩
  simp [toString, String.toList_append]

/-! ### The invariant of a call -/

/-- **What holds of a call of `list_tags`**: it has followed the chain to the URL it is at. -/
structure Listing (p : Pages) (config : DockerSource) (c : Call) : Prop where
  operation : c.operation = .listTags
  config_eq : c.config = config
  nodup : c.seenUrls.Nodup
  /-- It is at the last of the URLs that it has seen. -/
  last : c.seenUrls.dropLast ++ [c.url] = c.seenUrls
  chain : ∀ k url, c.seenUrls[k]? = some url → p.chain config.firstUrl k = some url
  under : ∀ url ∈ c.seenUrls, config.Under url
  /-- What was obtained from the other URLs. -/
  collected : c.pc.isFinished = false → ∀ t, t ∈ c.allTags ↔
    ∃ url ∈ c.seenUrls.dropLast, t ∈ (p.page url).tags
  given : ∀ attempt payload, c.pc = .answered attempt (.success payload) → p.Gives c.url payload
  returned : ∀ result, c.pc = .returned result → p.next c.url = none ∧
    ∃ tags, result = .tags tags ∧ ∀ t, t ∈ tags ↔ ∃ url ∈ c.seenUrls, t ∈ (p.page url).tags
  raised : ∀ e, c.pc = .raised e → e.isRefusal = true ∨
    ∃ message nextUrl, e = .invalidUrl message c.url nextUrl ∧ p.next c.url = some nextUrl ∧
      (nextUrl ∈ c.seenUrls ∨ ¬config.Under nextUrl)

section Calls

variable {p : Pages} {config : DockerSource} {c c' : Call} {i : ℕ} {label : Label}

/-- The URL a call is at was seen. -/
theorem Listing.url_mem (h : Listing p config c) : c.url ∈ c.seenUrls := by
  rw [← h.last]
  exact List.mem_append_right _ List.mem_cons_self

/-- **A page is taken**: it was the last, or leads to a new URL of the registry, or to none that may
be requested. -/
theorem takePage_cases {payload : Payload} (hgives : p.Gives c.url payload) :
    (p.next c.url = none ∧
      c.takePage payload = { c with
        pc := .returned (.tags (c.allTags ++ (p.page c.url).tags))
        allTags := c.allTags ++ (p.page c.url).tags }) ∨
    (∃ nextUrl, p.next c.url = some nextUrl ∧ c.config.Under nextUrl ∧ nextUrl ∉ c.seenUrls ∧
      c.takePage payload = { c with
        pc := .requested .first
        url := nextUrl
        seenUrls := c.seenUrls ++ [nextUrl]
        allTags := c.allTags ++ (p.page c.url).tags }) ∨
    ∃ nextUrl message, p.next c.url = some nextUrl ∧
      (nextUrl ∈ c.seenUrls ∨ ¬c.config.Under nextUrl) ∧
      c.takePage payload = { c with
        pc := .raised (.invalidUrl message c.url nextUrl)
        allTags := c.allTags ++ (p.page c.url).tags } := by
  unfold Call.takePage
  rw [hgives.1, hgives.2]
  dsimp only
  split
  · next hnone => exact Or.inl ⟨hnone, rfl⟩
  · next nextUrl hnext =>
    refine Or.inr ?_
    split_ifs with hunder hseen
    · exact Or.inr ⟨nextUrl, _, hnext, Or.inl hseen, rfl⟩
    · exact Or.inl ⟨nextUrl, hnext, hunder, hseen, rfl⟩
    · exact Or.inr ⟨nextUrl, _, hnext, Or.inr hunder, rfl⟩

/-- Only the program point changes, and the call goes on. -/
theorem Listing.goOn (h : Listing p config c) (hopen : c.pc.isFinished = false) {pc : CallPc}
    (hpc : pc.isFinished = false) (headers : Option String)
    (hgiven : ∀ attempt payload, pc = .answered attempt (.success payload) →
      p.Gives c.url payload) :
    Listing p config { c with pc := pc, headers := headers } where
  operation := h.operation
  config_eq := h.config_eq
  nodup := h.nodup
  last := h.last
  chain := h.chain
  under := h.under
  collected := fun _ ↦ h.collected hopen
  given := hgiven
  returned := by
    rintro result rfl
    cases hpc
  raised := by
    rintro e rfl
    cases hpc

/-- The call fails over a request that is not served. -/
theorem Listing.refuse (h : Listing p config c) {e : CallError} (he : e.isRefusal = true) :
    Listing p config (c.raise e) where
  operation := h.operation
  config_eq := h.config_eq
  nodup := h.nodup
  last := h.last
  chain := h.chain
  under := h.under
  collected := fun hopen ↦ by cases hopen
  given := fun _ _ hpc ↦ by cases hpc
  returned := fun _ hpc ↦ by cases hpc
  raised := fun e' hpc ↦ by
    obtain rfl := CallPc.raised.inj hpc
    exact Or.inl he

/-- What was obtained from all URLs, once the page of the last is there. -/
theorem Listing.collected_append (h : Listing p config c) (hopen : c.pc.isFinished = false)
    (t : String) : t ∈ c.allTags ++ (p.page c.url).tags ↔
      ∃ url ∈ c.seenUrls, t ∈ (p.page url).tags := by
  rw [List.mem_append, h.collected hopen]
  constructor
  · rintro (⟨url, hurl, ht⟩ | ht)
    · exact ⟨url, List.mem_of_mem_dropLast hurl, ht⟩
    · exact ⟨c.url, h.url_mem, ht⟩
  · rintro ⟨url, hurl, ht⟩
    rw [← h.last, List.mem_append, List.mem_singleton] at hurl
    rcases hurl with hurl | rfl
    · exact Or.inl ⟨url, hurl, ht⟩
    · exact Or.inr ht

/-- The last URL has a number in the chain. -/
theorem Listing.chain_url (h : Listing p config c) :
    p.chain config.firstUrl (c.seenUrls.length - 1) = some c.url := by
  refine h.chain _ _ ?_
  rw [← List.getLast?_eq_getElem?, ← h.last, List.getLast?_append_cons]
  rfl

/-- The chain goes on from the last URL. -/
theorem Listing.chain_next (h : Listing p config c) :
    p.chain config.firstUrl c.seenUrls.length = p.next c.url := by
  have hlength : 0 < c.seenUrls.length := List.length_pos_of_mem h.url_mem
  have hlast := h.chain_url
  obtain ⟨n, hn⟩ : ∃ n, c.seenUrls.length = n + 1 := ⟨c.seenUrls.length - 1, by omega⟩
  rw [hn] at hlast ⊢
  show (p.chain config.firstUrl n).bind p.next = _
  rw [show n = n + 1 - 1 from rfl, hlast]
  rfl

/-- **A page is taken** by a call that has followed the chain. -/
theorem Listing.succeed (h : Listing p config c) {attempt : Attempt} {payload : Payload}
    (hpc : c.pc = .answered attempt (.success payload)) : Listing p config (c.succeed payload) := by
  have hopen : c.pc.isFinished = false := by
    rw [hpc]
    rfl
  have htake : c.succeed payload = c.takePage payload := by
    unfold Call.succeed
    rw [h.operation]
  rw [htake]
  rcases takePage_cases (h.given _ _ hpc) with ⟨hnone, heq⟩ |
    ⟨nextUrl, hnext, hunder, hnew, heq⟩ | ⟨nextUrl, message, hnext, hbad, heq⟩
  · rw [heq]
    refine ⟨h.operation, h.config_eq, h.nodup, h.last, h.chain, h.under,
      fun hopen ↦ (by cases hopen), fun _ _ hpc ↦ (by cases hpc), fun result hpc ↦ ?_,
      fun _ hpc ↦ (by cases hpc)⟩
    obtain rfl := CallPc.returned.inj hpc
    exact ⟨hnone, _, rfl, h.collected_append hopen⟩
  · rw [heq]
    have hdrop : (c.seenUrls ++ [nextUrl]).dropLast = c.seenUrls := List.dropLast_concat
    refine ⟨h.operation, h.config_eq, ?_, ?_, ?_, ?_, fun _ t ↦ ?_,
      fun _ _ hpc ↦ (by cases hpc), fun _ hpc ↦ (by cases hpc), fun _ hpc ↦ (by cases hpc)⟩
    · refine List.nodup_append.2 ⟨h.nodup, List.nodup_singleton _, ?_⟩
      rintro url hurl _ (_ | _) rfl
      · exact hnew hurl
      · contradiction
    · show (c.seenUrls ++ [nextUrl]).dropLast ++ [nextUrl] = _
      rw [hdrop]
    · intro k url hk
      rcases lt_or_ge k c.seenUrls.length with hlt | hge
      · rw [List.getElem?_append_left hlt] at hk
        exact h.chain k url hk
      · have hk' : k < (c.seenUrls ++ [nextUrl]).length := (List.getElem?_eq_some_iff.1 hk).1
        rw [List.length_append, List.length_singleton] at hk'
        obtain rfl : k = c.seenUrls.length := by omega
        rw [List.getElem?_concat_length] at hk
        obtain rfl := Option.some.inj hk
        rw [h.chain_next, hnext]
    · intro url hurl
      rcases List.mem_append.1 hurl with hurl | hurl
      · exact h.under url hurl
      · obtain rfl := List.mem_singleton.1 hurl
        rw [← h.config_eq]
        exact hunder
    · show t ∈ c.allTags ++ (p.page c.url).tags ↔
        ∃ url ∈ (c.seenUrls ++ [nextUrl]).dropLast, t ∈ (p.page url).tags
      rw [hdrop]
      exact h.collected_append hopen t
  · rw [heq]
    refine ⟨h.operation, h.config_eq, h.nodup, h.last, h.chain, h.under,
      fun hopen ↦ (by cases hopen), fun _ _ hpc ↦ (by cases hpc), fun _ hpc ↦ (by cases hpc),
      fun e hpc ↦ ?_⟩
    obtain rfl := CallPc.raised.inj hpc
    rw [h.config_eq] at hbad
    exact Or.inr ⟨message, nextUrl, rfl, hnext, hbad⟩

/-- **The invariant is preserved** by a step of the call, if what it is answered are the pages. -/
theorem Listing.moves (h : Listing p config c) (hmoves : c.Moves i label c')
    (hgives : ∀ payload ∈ label.payload? i, p.Gives c.url payload) :
    Listing p config c' := by
  have hopen : c.pc.isFinished = false := by
    rcases hmoves with ⟨_, hpc⟩ | ⟨hpc⟩ | ⟨_, hpc⟩ | ⟨_, _, hpc⟩ | ⟨_, hpc⟩ <;>
    · rw [hpc]
      rfl
  rcases hmoves with ⟨answer, hpc⟩ | ⟨hpc⟩ | ⟨header, hpc⟩ | ⟨realm, params, hpc⟩ | ⟨token, hpc⟩
  · refine h.goOn hopen rfl c.headers fun attempt payload heq ↦ ?_
    obtain ⟨-, rfl⟩ := CallPc.answered.inj heq
    exact hgives payload (Label.payload?_serve i payload)
  · exact h.succeed hpc
  · exact h.goOn hopen rfl _ fun _ _ heq ↦ by cases heq
  · exact h.goOn hopen rfl _ fun _ _ heq ↦ by cases heq
  · exact h.goOn hopen rfl _ fun _ _ heq ↦ by cases heq

/-- A new call is at the first URL. -/
theorem listing_begin (p : Pages) (config : DockerSource) (headers : Option String) :
    Listing p config {
      operation := .listTags
      config := config
      pc := .requested .first
      url := config.firstUrl
      headers := headers
      seenUrls := [config.firstUrl] } where
  operation := rfl
  config_eq := rfl
  nodup := List.nodup_singleton _
  last := rfl
  chain := by
    intro k url hk
    obtain ⟨hlt, heq⟩ := List.getElem?_eq_some_iff.1 hk
    obtain rfl : k = 0 := by simpa using hlt
    subst heq
    rfl
  under := by
    intro url hurl
    obtain rfl := List.mem_singleton.1 hurl
    exact config.under_firstUrl
  collected := fun _ t ↦ by simp
  given := fun _ _ hpc ↦ by cases hpc
  returned := fun _ hpc ↦ by cases hpc
  raised := fun _ hpc ↦ by cases hpc

/-! ### Ranks -/

/-- How many steps a call can still take over `n` URLs. -/
def Call.rank (n : ℕ) (c : Call) : ℕ := 5 * (n - c.seenUrls.length) + c.pc.phase

/-- How often the page of a URL can still be obtained. -/
def Call.rankFor (url : String) (c : Call) : ℕ :=
  if url ∉ c.seenUrls ∨ c.url = url ∧ c.pc.awaitsPage = true then 1 else 0

/-- The URLs that a call has seen are among those of the pages. -/
theorem Listing.subset (h : Listing p config c) {urls : Finset String}
    (hfirst : config.firstUrl ∈ urls)
    (hclosed : ∀ url ∈ urls, ∀ nextUrl, p.next url = some nextUrl → nextUrl ∈ urls) :
    c.seenUrls.length ≤ urls.card := by
  have hmem : ∀ k url, p.chain config.firstUrl k = some url → url ∈ urls := by
    intro k
    induction k with
    | zero =>
      intro url hurl
      obtain rfl := Option.some.inj hurl
      exact hfirst
    | succ k ih =>
      intro url hurl
      obtain ⟨previous, hprevious, hnext⟩ := Option.bind_eq_some_iff.1 hurl
      exact hclosed previous (ih previous hprevious) url hnext
  rw [← List.toFinset_card_of_nodup h.nodup]
  refine Finset.card_le_card fun url hurl ↦ ?_
  obtain ⟨k, hk⟩ := List.mem_iff_getElem?.1 (List.mem_toFinset.1 hurl)
  exact hmem k url (h.chain k url hk)

/-- **Every step uses up some of the rank.** -/
theorem Listing.rank_lt (h : Listing p config c) (hmoves : c.Moves i label c') {n : ℕ}
    (hle : c'.seenUrls.length ≤ n) : c'.rank n + 1 ≤ c.rank n := by
  unfold Call.rank
  rcases hmoves with ⟨answer, hpc⟩ | @⟨attempt, payload, hpc⟩ | ⟨header, hpc⟩ |
    ⟨realm, params, hpc⟩ | ⟨token, hpc⟩
  · rename_i attempt
    rw [hpc]
    cases attempt <;> simp [CallPc.phase]
  · have htake : c.succeed payload = c.takePage payload := by
      unfold Call.succeed
      rw [h.operation]
    have hphase : 1 ≤ c.pc.phase := by
      rw [hpc]
      cases attempt <;> simp [CallPc.phase]
    rw [htake] at hle ⊢
    rcases takePage_cases (h.given _ _ hpc) with ⟨-, heq⟩ | ⟨nextUrl, -, -, -, heq⟩ |
      ⟨nextUrl, message, -, -, heq⟩
    · rw [heq]
      show 5 * (n - c.seenUrls.length) + 0 + 1 ≤ _
      omega
    · rw [heq, List.length_append, List.length_singleton] at hle
      rw [heq, List.length_append, List.length_singleton]
      show 5 * (n - (c.seenUrls.length + 1)) + 5 + 1 ≤ _
      omega
    · rw [heq]
      show 5 * (n - c.seenUrls.length) + 0 + 1 ≤ _
      omega
  · rw [hpc]
    simp [CallPc.phase, Call.request]
  · rw [hpc]
    simp [CallPc.phase]
  · rw [hpc]
    simp [CallPc.phase, Call.request]

/-- A call that only moves on, at the same URL. -/
theorem rankFor_le {url : String} (hseen : c'.seenUrls = c.seenUrls) (hurl : c'.url = c.url)
    (hawaits : c'.pc.awaitsPage = true → c.pc.awaitsPage = true) :
    c'.rankFor url ≤ c.rankFor url := by
  unfold Call.rankFor
  rw [hseen, hurl]
  split_ifs with h h'
  · exact le_rfl
  · exact absurd (h.imp_right fun h ↦ ⟨h.1, hawaits h.2⟩) h'
  · exact Nat.zero_le _
  · exact le_rfl

/-- **A page that is obtained is not obtained again.** -/
theorem Listing.rankFor_add_le (h : Listing p config c) (hmoves : c.Moves i label c')
    (url : String) :
    c'.rankFor url + (if (label.payload? i).isSome && decide (c.url = url) then 1 else 0) ≤
      c.rankFor url := by
  rcases hmoves with ⟨answer, hpc⟩ | @⟨attempt, payload, hpc⟩ | ⟨header, hpc⟩ |
    ⟨realm, params, hpc⟩ | ⟨token, hpc⟩
  · rename_i attempt
    have hawaits : c.pc.awaitsPage = true := by
      rw [hpc]
      rfl
    split_ifs with hpage
    · obtain ⟨hpage, hurl⟩ := Bool.and_eq_true_iff.1 hpage
      obtain rfl := of_decide_eq_true hurl
      rcases answer with _ | payload | _ | _
      · cases hpage
      · have hbefore : c.rankFor c.url = 1 := if_pos (Or.inr ⟨rfl, hawaits⟩)
        have hafter : ({ c with pc := .answered attempt (.success payload) } : Call).rankFor c.url =
            0 := if_neg (by simp [h.url_mem, CallPc.awaitsPage])
        omega
      · cases hpage
      · cases hpage
    · exact rankFor_le rfl rfl fun _ ↦ hawaits
  · have htake : c.succeed payload = c.takePage payload := by
      unfold Call.succeed
      rw [h.operation]
    have hdone : c.pc.awaitsPage = false := by
      rw [hpc]
      rfl
    show (c.succeed payload).rankFor url + 0 ≤ _
    rw [htake]
    rcases takePage_cases (h.given _ _ hpc) with ⟨-, heq⟩ | ⟨nextUrl, -, -, hnew, heq⟩ |
      ⟨nextUrl, message, -, -, heq⟩
    · rw [heq]
      exact rankFor_le rfl rfl fun hawaits ↦ by cases hawaits
    · rw [heq]
      by_cases hseen : url ∈ c.seenUrls
      · have hne : nextUrl ≠ url := fun heq ↦ hnew (heq ▸ hseen)
        have hafter : ({ c with
            pc := .requested .first
            url := nextUrl
            seenUrls := c.seenUrls ++ [nextUrl]
            allTags := c.allTags ++ (p.page c.url).tags } : Call).rankFor url = 0 :=
          if_neg (by simp [hseen, hne])
        omega
      · have hbefore : c.rankFor url = 1 := if_pos (Or.inl hseen)
        rw [hbefore]
        unfold Call.rankFor
        split_ifs <;> omega
    · rw [heq]
      exact rankFor_le rfl rfl fun hawaits ↦ by cases hawaits
  · exact rankFor_le rfl rfl fun _ ↦ by rw [hpc]; rfl
  · exact rankFor_le rfl rfl fun _ ↦ by rw [hpc]; rfl
  · exact rankFor_le rfl rfl fun _ ↦ by rw [hpc]; rfl

/-- A step of a call leaves it what it is. -/
theorem Call.Moves.same (h : c.Moves i label c') :
    c'.operation = c.operation ∧ c'.config = c.config := by
  rcases h with ⟨answer, -⟩ | @⟨attempt, payload, -⟩ | ⟨header, -⟩ | ⟨realm, params, -⟩ | ⟨token, -⟩
  · exact ⟨rfl, rfl⟩
  · have hpage : (c.takePage payload).operation = c.operation ∧
        (c.takePage payload).config = c.config := by
      unfold Call.takePage
      split
      · exact ⟨rfl, rfl⟩
      · dsimp only
        split
        · exact ⟨rfl, rfl⟩
        · split_ifs <;> exact ⟨rfl, rfl⟩
    unfold Call.succeed
    split
    · split <;> exact ⟨rfl, rfl⟩
    · exact hpage
    · exact ⟨rfl, rfl⟩
  · exact ⟨rfl, rfl⟩
  · exact ⟨rfl, rfl⟩
  · exact ⟨rfl, rfl⟩

end Calls

/-! ### Runs -/

namespace DockerStorageClient

variable {credentials : DockerCredentialStore} {s s' : DockerStorageClient} {p : Pages}
  {config : DockerSource} {i : ℕ} {label : Label} {τ : List (Transition DockerStorageClient Label)}

/-- A run with registries that answer as they like. -/
abbrev OpenRun (credentials : DockerCredentialStore) := Trace (openStep credentials) {}

/-- What replaying labels shows of the run that they make. -/
theorem exists_openRun (credentials : DockerCredentialStore) (labels : List Label)
    (P : List (Transition DockerStorageClient Label) → DockerStorageClient → Prop)
    [∀ τ s, Decidable (P τ s)]
    (h : (replay (openStep credentials) {} labels).any (fun r ↦ decide (P r.1 r.2)) = true) :
    ∃ τ s, OpenRun credentials τ s ∧ P τ s :=
  exists_of_replay h

/-- **A call that has been made** stays what it is. -/
theorem openStep_same (h : s.openStep credentials label = some s') (hi : i < s.calls.size) :
    i < s'.calls.size ∧ (s'.calls i).operation = (s.calls i).operation ∧
      (s'.calls i).config = (s.calls i).config := by
  have hsize : s.calls.size ≤ s'.calls.size := by
    rcases hcall : label.call with _ | j
    · cases label with
      | begin operation config =>
        obtain rfl := Option.some.inj h
        exact Nat.le_succ _
      | expire host token =>
        obtain rfl := Option.some.inj h
        exact le_rfl
      | serve j answer => cases hcall
      | run j => cases hcall
      | token j token => cases hcall
    · obtain ⟨-, -, -, hsize⟩ := openStep_call h hcall
      exact hsize.ge
  have hi' : i < s'.calls.size := by omega
  refine ⟨hi', ?_⟩
  rcases openStep_cases h hi' with ⟨-, hsame, -⟩ | ⟨rfl, -⟩ | ⟨-, -, hmoves | ⟨e, -, -, heq⟩⟩
  · rw [hsame]
    exact ⟨rfl, rfl⟩
  · exact absurd hi (lt_irrefl _)
  · exact hmoves.same
  · rw [heq]
    exact ⟨rfl, rfl⟩

theorem same_of_trace (h : Trace (openStep credentials) s τ s') (hi : i < s.calls.size) :
    (s'.calls i).operation = (s.calls i).operation ∧ (s'.calls i).config = (s.calls i).config := by
  have hall := h.invariant (P := fun a ↦ i < a.calls.size ∧
    (a.calls i).operation = (s.calls i).operation ∧ (a.calls i).config = (s.calls i).config)
    (fun a l b ha hab ↦ by
      obtain ⟨hlt, hoperation, hconfig⟩ := openStep_same hab ha.1
      exact ⟨hlt, hoperation.trans ha.2.1, hconfig.trans ha.2.2⟩)
    ⟨hi, rfl, rfl⟩
  exact hall.2

/-- **The steps of a listing**: the call is one of `list_tags`, and it obtains the pages. -/
structure ListsFrom (p : Pages) (config : DockerSource) (i : ℕ)
    (x : Transition DockerStorageClient Label) : Prop where
  made : i < x.post.calls.size →
    (x.post.calls i).operation = .listTags ∧ (x.post.calls i).config = config
  gives : ∀ payload ∈ x.label.payload? i, p.Gives (x.pre.calls i).url payload

/-- **One step of a listing** keeps the invariant, and uses up some of the ranks. -/
theorem listing_step (hinv : i < s.calls.size → Listing p config (s.calls i))
    (h : s.openStep credentials label = some s') (hx : ListsFrom p config i ⟨s, label, s'⟩) :
    i < s'.calls.size → Listing p config (s'.calls i) := by
  intro hi
  rcases openStep_cases h hi with ⟨hlt, hsame, -⟩ | ⟨rfl, -, operation, config', rfl⟩ |
    ⟨hlt, -, hmoves | ⟨e, he, -, heq⟩⟩
  · rw [hsame]
    exact hinv hlt
  · obtain ⟨hoperation, hconfig⟩ := hx.made hi
    rw [begin_calls] at hoperation hconfig ⊢
    obtain rfl : operation = .listTags := hoperation
    obtain rfl : config' = config := hconfig
    exact listing_begin p config' _
  · exact (hinv hlt).moves hmoves hx.gives
  · rw [heq]
    exact (hinv hlt).refuse he

/-- The invariant holds in every state of a run. -/
theorem listing_of_run (hrun : OpenRun credentials τ s) (hlists : ∀ x ∈ τ, ListsFrom p config i x) :
    i < s.calls.size → Listing p config (s.calls i) :=
  hrun.invariant_of (C := ListsFrom p config i) (fun _ _ _ hinv hab hx ↦ listing_step hinv hab hx)
    (fun hi ↦ absurd hi (Nat.not_lt_zero i)) hlists

/-- **Counting the steps of a listing**, by a rank of the call: what is counted uses up some of
it. -/
theorem countP_le_of_rank (r : Call → ℕ) (counts : Call → Label → Bool) {n : ℕ}
    (hrun : OpenRun credentials τ s) (hlists : ∀ x ∈ τ, ListsFrom p config i x)
    (hother : ∀ c l, l.call ≠ some i → counts c l = false)
    (hbegin : ∀ c, Listing p config c → c.seenUrls = [config.firstUrl] → c.pc = .requested .first →
      r c ≤ n)
    (hmoves : ∀ c l c', Listing p config c → c.Moves i l c' → Listing p config c' →
      r c' + (if counts c l then 1 else 0) ≤ r c)
    (hrefused : ∀ (a : DockerStorageClient) l e, Refused credentials a i l →
      r ((a.calls i).raise e) + (if counts (a.calls i) l then 1 else 0) ≤ r (a.calls i)) :
    τ.countP (fun x ↦ counts (x.pre.calls i) x.label) ≤ n := by
  have hcount := hrun.countP_add_le_of (A := ListsFrom p config i)
    (P := fun a ↦ i < a.calls.size → Listing p config (a.calls i))
    (r := fun a ↦ if i < a.calls.size then r (a.calls i) else n)
    (C := fun x ↦ counts (x.pre.calls i) x.label) ?_ (fun hi ↦ absurd hi (Nat.not_lt_zero i)) hlists
  · have hstart : ¬i < ({} : DockerStorageClient).calls.size := Nat.not_lt_zero i
    rw [if_neg hstart] at hcount
    omega
  · intro a l b hinv hab hx
    have hinv' := listing_step hinv hab hx
    refine ⟨hinv', ?_⟩
    by_cases hi : i < b.calls.size
    · rw [if_pos hi]
      rcases openStep_cases hab hi with ⟨hlt, hsame, hcall⟩ |
        ⟨hsize, hcall, operation, config', rfl⟩ | ⟨hlt, -, hmove | ⟨e, -, href, heq⟩⟩
      · rw [if_pos hlt, hsame]
        show r (a.calls i) + (if counts (a.calls i) l = true then 1 else 0) ≤ _
        rw [hother _ _ hcall]
        exact le_rfl
      · have hnot : ¬i < a.calls.size := by omega
        rw [if_neg hnot]
        show r ((a.begin operation config').calls i) +
          (if counts (a.calls i) l = true then 1 else 0) ≤ _
        rw [hother _ _ hcall]
        have hoperation := (hx.made hi).1
        have hconfig := (hx.made hi).2
        refine hbegin _ (hinv' hi) ?_ ?_
        · subst hsize
          rw [begin_calls] at hoperation hconfig ⊢
          obtain rfl : operation = .listTags := hoperation
          obtain rfl : config' = config := hconfig
          rfl
        · subst hsize
          rw [begin_calls]
      · rw [if_pos hlt]
        exact hmoves _ _ _ (hinv hlt) hmove (hinv' hi)
      · rw [if_pos hlt, heq]
        exact hrefused a l e href
    · -- the call is not there yet, and so the step is not one of its own
      have hnot : ¬i < a.calls.size := fun hlt ↦ hi (openStep_same hab hlt).1
      have hcall : l.call ≠ some i := fun hcall ↦ hnot (openStep_call hab hcall).1
      rw [if_neg hi, if_neg hnot]
      show n + (if counts (a.calls i) l = true then 1 else 0) ≤ n
      rw [hother _ _ hcall]
      exact le_rfl

/-- **A listing takes boundedly many steps** over finitely many URLs. -/
theorem countP_call_le (hrun : OpenRun credentials τ s) (hlists : ∀ x ∈ τ, ListsFrom p config i x)
    {urls : Finset String} (hfirst : config.firstUrl ∈ urls)
    (hclosed : ∀ url ∈ urls, ∀ nextUrl, p.next url = some nextUrl → nextUrl ∈ urls) :
    τ.countP (fun x ↦ x.label.call = some i) ≤ 5 * urls.card := by
  refine countP_le_of_rank (Call.rank urls.card) (fun _ l ↦ l.call = some i) hrun hlists
    (fun c l hl ↦ decide_eq_false hl) (fun c h hseen hpc ↦ ?_)
    (fun c l c' h hmoves h' ↦ ?_) (fun a l e href ↦ ?_)
  · have hsubset := h.subset hfirst hclosed
    unfold Call.rank
    rw [hpc]
    rw [hseen] at hsubset ⊢
    show 5 * (urls.card - 1) + 5 ≤ _
    have : 1 ≤ urls.card := hsubset
    omega
  · have hlt := h.rank_lt hmoves (h'.subset hfirst hclosed)
    split <;> omega
  · have hphase : 1 ≤ (a.calls i).pc.phase := by
      rcases href with hpc | hpc | hpc | ⟨hpc, -⟩ | ⟨hpc, -⟩ | ⟨hpc, -⟩ | hpc
      · rename_i attempt _
        rw [hpc]
        cases attempt <;> simp [CallPc.phase]
      · rename_i attempt
        rw [hpc]
        cases attempt <;> simp [CallPc.phase]
      all_goals
        rw [hpc]
        simp [CallPc.phase]
    show 5 * (urls.card - (a.calls i).seenUrls.length) + 0 + _ ≤
      5 * (urls.card - (a.calls i).seenUrls.length) + (a.calls i).pc.phase
    split <;> omega

/-- **Each page is obtained at most once.** -/
theorem countP_page_le_one (hrun : OpenRun credentials τ s)
    (hlists : ∀ x ∈ τ, ListsFrom p config i x) (url : String) :
    τ.countP (fun x ↦ (x.label.payload? i).isSome && decide ((x.pre.calls i).url = url)) ≤ 1 := by
  refine countP_le_of_rank (Call.rankFor url)
    (fun c l ↦ (l.payload? i).isSome && decide (c.url = url)) hrun hlists
    (fun c l hl ↦ ?_) (fun c _ _ _ ↦ ?_) (fun c l c' h hmoves _ ↦ h.rankFor_add_le hmoves url)
    (fun a l e href ↦ ?_)
  · have hnone : l.payload? i = none := by
      unfold Label.payload?
      split
      · next j payload => exact if_neg fun heq ↦ hl (by rw [heq]; rfl)
      · rfl
    simp [hnone]
  · unfold Call.rankFor
    split <;> omega
  · have hnone : l.payload? i = none := by
      rcases href with hpc | hpc | hpc | ⟨hpc, -⟩ | ⟨hpc, -⟩ | ⟨hpc, -⟩ | hpc <;> rfl
    rw [hnone]
    exact rankFor_le rfl rfl fun hawaits ↦ by cases hawaits

/-- **A call fails over a request only where one was not served.** -/
theorem exists_refused (hrun : OpenRun credentials τ s) (hlists : ∀ x ∈ τ, ListsFrom p config i x)
    (hi : i < s.calls.size) {e : CallError} (he : e.isRefusal = true)
    (hpc : (s.calls i).pc = .raised e) : ∃ x ∈ τ, Refused credentials x.pre i x.label := by
  by_contra hnone
  push Not at hnone
  have hinv := hrun.invariant_of
    (P := fun a ↦ (i < a.calls.size → Listing p config (a.calls i)) ∧
      (i < a.calls.size → ∀ e, e.isRefusal = true → (a.calls i).pc ≠ .raised e))
    (C := fun x ↦ ListsFrom p config i x ∧ ¬Refused credentials x.pre i x.label) ?_
    ⟨fun hi ↦ absurd hi (Nat.not_lt_zero i), fun hi ↦ absurd hi (Nat.not_lt_zero i)⟩
    fun x hx ↦ ⟨hlists x hx, hnone x hx⟩
  · exact hinv.2 hi e he hpc
  · rintro a l b ⟨hlisting, hgood⟩ hab ⟨hx, hnot⟩
    refine ⟨listing_step hlisting hab hx, fun hi e he hpc ↦ ?_⟩
    rcases openStep_cases hab hi with ⟨hlt, hsame, -⟩ | ⟨rfl, -, operation, config', rfl⟩ |
      ⟨hlt, -, hmoves | ⟨e', -, href, -⟩⟩
    · rw [hsame] at hpc
      exact hgood hlt e he hpc
    · rw [begin_calls] at hpc
      cases hpc
    · -- only a page can end the call, and not in this way
      generalize b.calls i = c at hmoves hpc
      rcases hmoves with _ | ⟨hanswered⟩ | _ | _ | _
      · cases hpc
      · have hlisting' := hlisting hlt
        rw [Call.succeed, hlisting'.operation] at hpc
        rcases takePage_cases (hlisting'.given _ _ hanswered) with ⟨-, heq⟩ | ⟨_, -, -, -, heq⟩ |
          ⟨nextUrl, message, -, -, heq⟩
        · rw [heq] at hpc
          cases hpc
        · rw [heq] at hpc
          cases hpc
        · rw [heq] at hpc
          obtain rfl := CallPc.raised.inj hpc
          cases he
      · cases hpc
      · cases hpc
      · cases hpc
    · exact hnot href

/-! ### Ends of the chain -/

/-- What a call has seen when it is at the last page is the whole chain. -/
theorem mem_seenUrls_iff {c : Call} (h : Listing p config c) (hlast : p.next c.url = none)
    (url : String) : url ∈ c.seenUrls ↔ ∃ n, p.chain config.firstUrl n = some url := by
  constructor
  · intro hurl
    obtain ⟨k, hk⟩ := List.mem_iff_getElem?.1 hurl
    exact ⟨k, h.chain k url hk⟩
  · rintro ⟨n, hn⟩
    have hlength : 0 < c.seenUrls.length := List.length_pos_of_mem h.url_mem
    have hlt : n < c.seenUrls.length := by
      by_contra hge
      rw [Pages.chain_eq_none h.chain_url hlast (by omega)] at hn
      cases hn
    have hget : c.seenUrls[n]? = some c.seenUrls[n] := List.getElem?_eq_getElem hlt
    have hchain := h.chain n _ hget
    rw [hn] at hchain
    rw [Option.some.inj hchain]
    exact List.getElem_mem hlt

/-- **A call that has returned** has followed the chain to its end, within the registry. -/
theorem ends_of_returned {c : Call} (h : Listing p config c) {result : CallResult}
    (hpc : c.pc = .returned result) :
    p.Ends config.firstUrl ∧ ¬p.Leaves config config.firstUrl ∧ ∃ tags, result = .tags tags ∧
      ∀ t, t ∈ tags ↔ ∃ n url, p.chain config.firstUrl n = some url ∧ t ∈ (p.page url).tags := by
  obtain ⟨hlast, tags, rfl, htags⟩ := h.returned result hpc
  refine ⟨⟨_, _, h.chain_url, hlast⟩, ?_, tags, rfl, fun t ↦ ?_⟩
  · rintro ⟨n, url, hn, houtside⟩
    exact houtside (h.under url ((mem_seenUrls_iff h hlast url).2 ⟨n, hn⟩))
  · rw [htags]
    constructor
    · rintro ⟨url, hurl, ht⟩
      obtain ⟨n, hn⟩ := (mem_seenUrls_iff h hlast url).1 hurl
      exact ⟨n, url, hn, ht⟩
    · rintro ⟨n, url, hn, ht⟩
      exact ⟨url, (mem_seenUrls_iff h hlast url).2 ⟨n, hn⟩, ht⟩

/-- **A call that was not refused** has found that the chain repeats a URL or leaves the
registry. -/
theorem repeats_or_leaves_of_raised {c : Call} (h : Listing p config c) {e : CallError}
    (hpc : c.pc = .raised e) (he : e.isRefusal = false) :
    (∃ message url nextUrl, e = .invalidUrl message url nextUrl) ∧
      (p.Repeats config.firstUrl ∨ p.Leaves config config.firstUrl) := by
  rcases h.raised e hpc with hrefusal | ⟨message, nextUrl, rfl, hnext, hbad⟩
  · rw [he] at hrefusal
    cases hrefusal
  · refine ⟨⟨message, c.url, nextUrl, rfl⟩, ?_⟩
    have hchain := h.chain_next.trans hnext
    refine hbad.imp (fun hseen ↦ ?_) fun houtside ↦ ⟨_, nextUrl, hchain, houtside⟩
    obtain ⟨k, hk⟩ := List.mem_iff_getElem?.1 hseen
    exact ⟨k, _, nextUrl, (List.getElem?_eq_some_iff.1 hk).1, h.chain k _ hk, hchain⟩

/-! ### The result -/

/-- **What is promised of a call of `list_tags`**, the call `i` of a run to the state `s`. -/
structure Lists (credentials : DockerCredentialStore) (p : Pages) (config : DockerSource) (i : ℕ)
    (τ : List (Transition DockerStorageClient Label)) (s : DockerStorageClient) : Prop where
  /-- Each URL is answered with its page at most once. -/
  once : ∀ url,
    τ.countP (fun x ↦ (x.label.payload? i).isSome && decide ((x.pre.calls i).url = url)) ≤ 1
  /-- What is requested belongs to the registry. -/
  within : ∀ x ∈ τ, i < x.post.calls.size → config.Under (x.post.calls i).url
  /-- Over finitely many URLs it takes boundedly many steps, -/
  bounded : ∀ urls : Finset String, config.firstUrl ∈ urls →
    (∀ url ∈ urls, ∀ nextUrl, p.next url = some nextUrl → nextUrl ∈ urls) →
    τ.countP (fun x ↦ x.label.call = some i) ≤ 5 * urls.card
  /-- and until it has ended it goes on, whatever it is answered. -/
  goesOn : (s.calls i).pc.isFinished = false → ∀ answer token,
    ∃ label ∈ [Label.serve i answer, .run i, .token i token],
      (s.openStep credentials label).isSome = true
  /-- **Complete**: where the chain ends, and all requests were served, it returns all tags. -/
  complete : p.Ends config.firstUrl → ¬p.Leaves config config.firstUrl →
    (s.calls i).pc.isFinished = true → (∀ x ∈ τ, ¬Refused credentials x.pre i x.label) →
    ∃ tags, (s.calls i).pc = .returned (.tags tags) ∧
      ∀ t, t ∈ tags ↔ ∃ n url, p.chain config.firstUrl n = some url ∧ t ∈ (p.page url).tags
  /-- **Sound**: where the chain repeats a URL or leaves the registry, and all requests were served,
  it says so. -/
  invalid : p.Repeats config.firstUrl ∨ p.Leaves config config.firstUrl →
    (s.calls i).pc.isFinished = true → (∀ x ∈ τ, ¬Refused credentials x.pre i x.label) →
    ∃ message url nextUrl, (s.calls i).pc = .raised (.invalidUrl message url nextUrl)
  /-- It never returns the tags of a part of the chain. -/
  returned : ∀ result, (s.calls i).pc = .returned result →
    p.Ends config.firstUrl ∧ ¬p.Leaves config config.firstUrl ∧ ∃ tags, result = .tags tags ∧
      ∀ t, t ∈ tags ↔ ∃ n url, p.chain config.firstUrl n = some url ∧ t ∈ (p.page url).tags
  /-- It fails in no other way than over a request that was not served. -/
  raised : ∀ e, (s.calls i).pc = .raised e →
    ((∃ message url nextUrl, e = .invalidUrl message url nextUrl) ∧
      (p.Repeats config.firstUrl ∨ p.Leaves config config.firstUrl)) ∨
    e.isRefusal = true ∧ ∃ x ∈ τ, Refused credentials x.pre i x.label

/-- **A call that has not ended is not stuck.** -/
theorem exists_openStep (hi : i < s.calls.size) (hopen : (s.calls i).pc.isFinished = false)
    (answer : Answer) (token : Option String) :
    ∃ label ∈ [Label.serve i answer, .run i, .token i token],
      (s.openStep credentials label).isSome = true := by
  rcases hpc : (s.calls i).pc with attempt | ⟨attempt, answer'⟩ | ⟨realm, params⟩ | result | e
  · refine ⟨.serve i answer, by simp, ?_⟩
    simp [openStep, hpc, hi]
  · refine ⟨.run i, by simp, ?_⟩
    have hrun : (s.run credentials i).isSome = true := by
      unfold run
      dsimp only
      rw [hpc]
      rcases attempt with _ | _ <;> rcases answer' with _ | _ | _ | _ <;> rfl
    show (if i < s.calls.size then s.run credentials i else none).isSome = true
    rw [if_pos hi]
    exact hrun
  · refine ⟨.token i token, by simp, ?_⟩
    simp only [openStep, DockerStorageClient.step, hpc, if_pos hi]
    rcases token with _ | token <;> rfl
  · rw [hpc] at hopen
    cases hopen
  · rw [hpc] at hopen
    cases hopen

/-- **Tag listing terminates and is complete**, in every run of the client in which the successful
answers to a call of `list_tags` are the pages of their URLs. -/
theorem listTags_lists (hrun : OpenRun credentials τ s) (hi : i < s.calls.size)
    (hlist : (s.calls i).operation = .listTags)
    (hpages : ∀ x ∈ τ, ∀ payload ∈ x.label.payload? i, p.Gives (x.pre.calls i).url payload) :
    Lists credentials p (s.calls i).config i τ s := by
  obtain ⟨config, hconfig⟩ : ∃ config, (s.calls i).config = config := ⟨_, rfl⟩
  rw [hconfig]
  have hlists : ∀ x ∈ τ, ListsFrom p config i x := by
    refine fun x hx ↦ ⟨fun hmade ↦ ?_, hpages x hx⟩
    obtain ⟨-, _, _, -, -, hrest⟩ := hrun.mem_elim hx
    obtain ⟨hoperation, hsame⟩ := same_of_trace hrest hmade
    exact ⟨hoperation.symm.trans hlist, hsame.symm.trans hconfig⟩
  have hlisting := listing_of_run hrun hlists hi
  have hraised : ∀ e, (s.calls i).pc = .raised e →
      ((∃ message url nextUrl, e = .invalidUrl message url nextUrl) ∧
        (p.Repeats config.firstUrl ∨ p.Leaves config config.firstUrl)) ∨
      e.isRefusal = true ∧ ∃ x ∈ τ, Refused credentials x.pre i x.label := by
    intro e hpc
    rcases he : e.isRefusal with _ | _
    · exact Or.inl (repeats_or_leaves_of_raised hlisting hpc he)
    · exact Or.inr ⟨rfl, exists_refused hrun hlists hi he hpc⟩
  refine ⟨countP_page_le_one hrun hlists, fun x hx hmade ↦ ?_,
    fun urls hfirst hclosed ↦ countP_call_le hrun hlists hfirst hclosed,
    fun hopen ↦ exists_openStep hi hopen, fun hends hstays hfinished hserved ↦ ?_,
    fun hbad hfinished hserved ↦ ?_, fun result hpc ↦ ends_of_returned hlisting hpc, hraised⟩
  · obtain ⟨hstep, τ₁, τ₂, rfl, hbefore, -⟩ := hrun.mem_elim hx
    have hafter := listing_of_run (hbefore.append (.single hstep)) (i := i) (fun y hy ↦ by
      refine hlists y ?_
      rcases List.mem_append.1 hy with hy | hy
      · exact List.mem_append_left _ hy
      · rw [List.mem_singleton.1 hy]
        exact hx) hmade
    exact hafter.under _ hafter.url_mem
  · rcases hpc : (s.calls i).pc with _ | _ | _ | result | e
    all_goals rw [hpc] at hfinished
    · cases hfinished
    · cases hfinished
    · cases hfinished
    · obtain ⟨-, -, tags, rfl, htags⟩ := ends_of_returned hlisting hpc
      exact ⟨tags, rfl, htags⟩
    · rcases hraised e hpc with ⟨-, hrepeats | hleaves⟩ | ⟨-, x, hx, href⟩
      · exact absurd hrepeats (Pages.not_repeats_of_ends hends)
      · exact absurd hleaves hstays
      · exact absurd href (hserved x hx)
  · rcases hpc : (s.calls i).pc with _ | _ | _ | result | e
    all_goals rw [hpc] at hfinished
    · cases hfinished
    · cases hfinished
    · cases hfinished
    · obtain ⟨hends, hstays, -⟩ := ends_of_returned hlisting hpc
      rcases hbad with hrepeats | hleaves
      · exact absurd hrepeats (Pages.not_repeats_of_ends hends)
      · exact absurd hleaves hstays
    · rcases hraised e hpc with ⟨⟨message, url, nextUrl, rfl⟩, -⟩ | ⟨-, x, hx, href⟩
      · exact ⟨message, url, nextUrl, rfl⟩
      · exact absurd href (hserved x hx)

/-! ### A run -/

namespace Sample

/-- Credentials for one registry. -/
def accounts : DockerCredentialStore :=
  [("registry", ⟨"user", "secret", "Basic dXNlcjpzZWNyZXQ="⟩)]

/-- Two pages; the link of the first is relative. -/
def twoPages : Pages where
  page url :=
    if url = "https://registry/v2/lab/tags/list" then ⟨["w_2077_43"], some "?last=w_2077_43"⟩
    else ⟨["w_2077_44", "w_2077_43"], none⟩
  urljoin base link := base ++ link

/-- The first request is answered with a challenge. -/
def listing : List Label :=
  [.begin .listTags ⟨"registry", "lab"⟩,
    .serve 0 (.unauthorized (some "Basic realm=registry".toList)), .run 0,
    .serve 0 (.success {
      tags := some ["w_2077_43"]
      nextUrl := some "https://registry/v2/lab/tags/list?last=w_2077_43" }), .run 0,
    .serve 0 (.success { tags := some ["w_2077_44", "w_2077_43"] }), .run 0]

end Sample

/-- A listing of two pages, with an authentication on the way. -/
theorem listTags_sample : ∃ τ s, OpenRun Sample.accounts τ s ∧
    (s.calls 0).pc = .returned (.tags ["w_2077_43", "w_2077_44", "w_2077_43"]) ∧
    Lists Sample.accounts Sample.twoPages ⟨"registry", "lab"⟩ 0 τ s := by
  obtain ⟨τ, s, hrun, hpc, hsize, hlist, hconfig, hpages⟩ := exists_openRun Sample.accounts
    Sample.listing (fun τ s ↦
      (s.calls 0).pc = .returned (.tags ["w_2077_43", "w_2077_44", "w_2077_43"]) ∧
      0 < s.calls.size ∧ (s.calls 0).operation = .listTags ∧
      (s.calls 0).config = ⟨"registry", "lab"⟩ ∧
      ∀ x ∈ τ, ∀ payload ∈ x.label.payload? 0, Sample.twoPages.Gives (x.pre.calls 0).url payload)
    (by decide +kernel)
  refine ⟨τ, s, hrun, hpc, ?_⟩
  rw [← hconfig]
  exact listTags_lists hrun hsize hlist hpages

end DockerStorageClient

end Nublado.Docker
