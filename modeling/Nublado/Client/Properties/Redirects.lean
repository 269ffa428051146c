import Nublado.Client.Http

/-!
# Where the user's token goes

Every request of `get` and `post` carries the user's token, so each should go to a URL below the base
URL of JupyterHub or of the user's lab, and a redirect to anywhere else should be an error.

`_check_redirect` compares texts: it lets a redirect through if its target goes on after the text of
one of the base URLs. `requests_stay_below` says when that is enough: when what follows the base URL
starts a new component of the path, or at least changes neither host nor path
(`BaseUrl.Keeps`; `within_append_iff` shows that this is exactly what a target of this form needs).
Otherwise the token leaves: `token_leaves` is a redirect from a hub at `https://nb.example.org` to a
host whose name goes on.
-/

namespace Nublado.Client

variable {hub : BaseUrl} {urljoin : List Char → List Char → List Char} {c c' : Call}
  {lab : Option BaseUrl} {url : List Char}

/-! ### Where requests may go -/

/-- The URL lies below the base URL of JupyterHub or below the one of the lab. -/
def Allowed (hub : BaseUrl) (lab : Option BaseUrl) (url : List Char) : Prop :=
  Within hub url ∨ ∃ b, lab = some b ∧ Within b url

/-- **The text goes on harmlessly** after the text of one of the base URLs. -/
def GoesOn (hub : BaseUrl) (lab : Option BaseUrl) (url : List Char) : Prop :=
  ∃ b, (b = hub ∨ lab = some b) ∧ ∃ rest, url = b.text ++ rest ∧ b.Keeps rest

/-- **The condition on a step.** A route starts components below its base URL and does not lead back
out of it, and a redirect that is let through goes on harmlessly. -/
def Harmless (hub : BaseUrl) (urljoin : List Char → List Char → List Char) (c : Call) :
    Label → Prop
  | .begin => if isLabRoute c.route then ∀ b, c.lab = some b → b.Keeps ('/' :: c.route)
    else hub.Keeps ('/' :: c.route)
  | .foundLab b => b.Keeps ('/' :: c.route)
  | .respond (.redirect (some location)) => ∀ url, c.pending = some url →
    checkRedirect hub c.lab (urljoin url location) = true →
    GoesOn hub c.lab (urljoin url location)
  | _ => True

theorem GoesOn.allowed (h : GoesOn hub lab url) : Allowed hub lab url := by
  obtain ⟨b, hb, rest, rfl, hkeeps⟩ := h
  have hwithin := (within_append_iff b rest).2 hkeeps
  rcases hb with rfl | hb
  · exact Or.inl hwithin
  · exact Or.inr ⟨b, hb, hwithin⟩

/-! ### One step -/

/-- Every request so far went where it may go. -/
def Contained (hub : BaseUrl) (c : Call) : Prop := ∀ q ∈ c.sent, Allowed hub q.lab q.url

theorem Contained.send (h : Contained hub c) (hurl : Allowed hub c.lab url) (method : Method)
    (pc : CallPc) : Contained hub (c.send method url pc) := by
  intro q hq
  rcases List.mem_append.1 hq with hq | hq
  · exact h q hq
  · obtain rfl := List.mem_singleton.1 hq
    exact hurl

theorem Contained.sendFirst (h : Contained hub c) (hurl : Allowed hub c.lab url) :
    Contained hub (c.sendFirst url) := by
  unfold Call.sendFirst
  split
  · exact h.send hurl _ _
  · exact h.send hurl _ _

/-- A URL that is constructed from a route. -/
theorem goesOn_urlBelow {b : BaseUrl} {route : List Char} (hb : b = hub ∨ lab = some b)
    (hkeeps : b.Keeps ('/' :: route)) : GoesOn hub lab (urlBelow b route) :=
  ⟨b, hb, '/' :: route, rfl, hkeeps⟩

theorem Contained.begin (h : Contained hub c) (hroute : Harmless hub urljoin c .begin) :
    Contained hub (c.begin hub) := by
  have hroute : if isLabRoute c.route then ∀ b, c.lab = some b → b.Keeps ('/' :: c.route)
      else hub.Keeps ('/' :: c.route) := hroute
  unfold Call.begin
  split at hroute
  · next hlab =>
    rw [if_pos hlab]
    split
    · next b hb =>
      exact h.sendFirst (goesOn_urlBelow (Or.inr hb) (hroute b hb)).allowed
    · exact h
  · next hlab =>
    rw [if_neg hlab]
    exact h.sendFirst (goesOn_urlBelow (Or.inl rfl) hroute).allowed

/-- Following a redirect that is let through. -/
theorem Contained.redirected (h : Contained hub c) {location : List Char}
    (hlocation : Harmless hub urljoin c (.respond (.redirect (some location))))
    (hstep : c.redirected hub urljoin (some location) = some c') : Contained hub c' := by
  unfold Call.redirected at hstep
  split at hstep
  · next url location' hpc hsome =>
    obtain rfl := Option.some.inj hsome
    obtain rfl := Option.some.inj hstep
    have hpending : c.pending = some url := by rw [Call.pending, hpc]
    unfold Call.redirectPost
    dsimp only
    split
    · next hcheck => exact h.send (hlocation url hpending hcheck).allowed _ _
    · exact h
  · next url seen location' hpc hsome =>
    obtain rfl := Option.some.inj hsome
    obtain rfl := Option.some.inj hstep
    have hpending : c.pending = some url := by rw [Call.pending, hpc]
    unfold Call.redirectGet
    dsimp only
    split
    · next hcheck =>
      split
      · exact h
      · exact h.send (hlocation url hpending hcheck).allowed _ _
    · exact h
  · next hnone => cases hnone
  · next hnone => cases hnone
  · cases hstep

theorem Contained.step (h : Contained hub c) {label : Label}
    (hstep : c.step hub urljoin label = some c') (hharmless : Harmless hub urljoin c label) :
    Contained hub c' := by
  cases label with
  | begin =>
    simp only [Call.step] at hstep
    split at hstep
    · obtain rfl := Option.some.inj hstep
      exact h.begin hharmless
    · cases hstep
  | foundLab b =>
    simp only [Call.step] at hstep
    split at hstep
    · obtain rfl := Option.some.inj hstep
      have hrecorded : Contained hub { c with lab := some b } := h
      exact hrecorded.sendFirst (goesOn_urlBelow (Or.inr rfl) hharmless).allowed
    · cases hstep
  | labNotFound =>
    simp only [Call.step] at hstep
    split at hstep
    · obtain rfl := Option.some.inj hstep
      exact h
    · cases hstep
  | record b =>
    obtain rfl := Option.some.inj hstep
    exact h
  | respond r =>
    cases r with
    | redirect location =>
      cases location with
      | some location => exact h.redirected hharmless hstep
      | none =>
        change c.redirected hub urljoin none = some c' at hstep
        unfold Call.redirected at hstep
        split at hstep
        · next hsome => cases hsome
        · next hsome => cases hsome
        · obtain rfl := Option.some.inj hstep
          exact h
        · obtain rfl := Option.some.inj hstep
          exact h
        · cases hstep
    | success | error | failed =>
      obtain ⟨url, -, rfl⟩ := Option.map_eq_some_iff.1 hstep
      exact h

/-- **A redirect to anywhere else is an error**, before a request is made. -/
def Refuses (hub : BaseUrl) (urljoin : List Char → List Char → List Char)
    (x : Transition Call Label) : Prop :=
  ∀ location url, x.label = .respond (.redirect (some location)) → x.pre.pending = some url →
    ¬Allowed hub x.pre.lab (urljoin url location) →
    x.post.pc = .raised (.redirect "Unexpected redirect" (urljoin url location)) ∧
      x.post.sent = x.pre.sent

theorem refuses_of_harmless {label : Label} (hstep : c.step hub urljoin label = some c')
    (hharmless : Harmless hub urljoin c label) : Refuses hub urljoin ⟨c, label, c'⟩ := by
  rintro location url rfl hpending hoff
  have hpending : c.pending = some url := hpending
  have hcheck : ¬checkRedirect hub c.lab (urljoin url location) = true := by
    intro hcheck
    exact hoff (hharmless url hpending hcheck).allowed
  change c.redirected hub urljoin (some location) = some c' at hstep
  unfold Call.pending at hpending
  unfold Call.redirected at hstep
  split at hpending
  · next url' hpc =>
    obtain rfl := Option.some.inj hpending
    simp only [hpc] at hstep
    obtain rfl := Option.some.inj hstep
    unfold Call.redirectPost
    dsimp only
    rw [if_neg hcheck]
    exact ⟨rfl, rfl⟩
  · next url' seen hpc =>
    obtain rfl := Option.some.inj hpending
    simp only [hpc] at hstep
    obtain rfl := Option.some.inj hstep
    unfold Call.redirectGet
    dsimp only
    rw [if_neg hcheck]
    exact ⟨rfl, rfl⟩
  · cases hpending

/-! ### Runs -/

/-- **The token stays below the base URLs** in every run whose steps meet the condition, whatever the
servers answer and whichever base URLs of the lab are recorded meanwhile; and a redirect to anywhere
else is an error, before a request is made. -/
theorem requests_stay_below {method : Method} {route : List Char}
    {τ : List (Transition Call Label)} (hrun : Run hub urljoin method route lab τ c)
    (hharmless : ∀ x ∈ τ, Harmless hub urljoin x.pre x.label) :
    Contained hub c ∧ ∀ x ∈ τ, Refuses hub urljoin x := by
  constructor
  · exact hrun.invariant_of (P := Contained hub)
      (C := fun x ↦ Harmless hub urljoin x.pre x.label)
      (fun _ _ _ h hstep hx ↦ h.step hstep hx) (fun q hq ↦ absurd hq List.not_mem_nil) hharmless
  · intro x hx
    exact refuses_of_harmless (hrun.mem_elim hx).1 (hharmless x hx)

/-! ### A login and an escape -/

namespace Sample

/-- JupyterHub below the path of a shared host. -/
def shared : BaseUrl where
  scheme := "https".toList
  authority := "data.example.org".toList
  path := "/nb".toList
  scheme_ok := forall_of_any_eq_false (by decide +kernel)
  authority_ok := forall_of_any_eq_false (by decide +kernel)
  rooted := by decide +kernel
  path_ok := forall_of_any_eq_false (by decide +kernel)
  trimmed := by decide +kernel

/-- JupyterHub on a host of its own. -/
def separate : BaseUrl where
  scheme := "https".toList
  authority := "nb.example.org".toList
  path := []
  scheme_ok := forall_of_any_eq_false (by decide +kernel)
  authority_ok := forall_of_any_eq_false (by decide +kernel)
  rooted := by decide +kernel
  path_ok := forall_of_any_eq_false (by decide +kernel)
  trimmed := by decide +kernel

/-- `urljoin` where the location is a URL of its own. -/
def absolute (_ location : List Char) : List Char := location

/-- A request that is redirected to the login page. -/
def login : List Label :=
  [.begin, .respond (.redirect (some "https://data.example.org/nb/hub/login?next=home".toList)),
    .respond .success]

/-- A request that is redirected to a host whose name goes on. -/
def escape : List Label :=
  [.begin, .respond (.redirect (some "https://nb.example.org.evil.example/hub".toList))]

theorem harmless_login {label : Label} (h : label ∈ login) {c : Call}
    (hroute : c.route = "hub/home".toList) : Harmless shared absolute c label := by
  simp only [login, List.mem_cons, List.not_mem_nil, or_false] at h
  rcases h with rfl | rfl | rfl
  · show if isLabRoute c.route then _ else shared.Keeps ('/' :: c.route)
    rw [hroute, if_neg (by decide +kernel)]
    decide +kernel
  · intro url _ _
    refine ⟨shared, Or.inl rfl, "/hub/login?next=home".toList, ?_, by decide +kernel⟩
    show "https://data.example.org/nb/hub/login?next=home".toList = _
    decide +kernel
  · trivial

end Sample

/-- A login at a shared host: both requests go to URLs below the path of JupyterHub. -/
theorem requests_stay_below_sample : ∃ τ c,
    Run Sample.shared Sample.absolute .get "hub/home".toList none τ c ∧ c.sent.length = 2 ∧
      Contained Sample.shared c ∧ ∀ x ∈ τ, Refuses Sample.shared Sample.absolute x := by
  obtain ⟨τ, c, hrun, hlabels, hroute, hsent⟩ :=
    exists_run Sample.shared Sample.absolute .get "hub/home".toList none Sample.login
      (fun τ c ↦ τ.map Transition.label = Sample.login ∧
        (∀ x ∈ τ, x.pre.route = "hub/home".toList) ∧ c.sent.length = 2)
      (by decide +kernel)
  refine ⟨τ, c, hrun, hsent, requests_stay_below hrun fun x hx ↦ ?_⟩
  exact Sample.harmless_login (by rw [← hlabels]; exact List.mem_map_of_mem hx) (hroute x hx)

/-- **The token leaves**: the text of the redirect's target goes on after that of the base URL, but its
host is another one. -/
theorem token_leaves : ∃ τ c,
    Run Sample.separate Sample.absolute .get "hub/home".toList none τ c ∧
      ∃ q ∈ c.sent, q.lab = none ∧ ¬Within Sample.separate q.url := by
  exact exists_run Sample.separate Sample.absolute .get "hub/home".toList none Sample.escape
    (fun _ c ↦ ∃ q ∈ c.sent, q.lab = none ∧ ¬Within Sample.separate q.url) (by decide +kernel)

end Nublado.Client
