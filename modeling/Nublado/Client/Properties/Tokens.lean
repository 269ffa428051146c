import Nublado.Client.Properties.Redirects
import Nublado.Client.Tokens

/-!
# XSRF tokens and the servers they belong to

The token that the client stores for the lab should be the last `_xsrf` cookie of a response whose URL
is a user route of the lab, the one that it stores for JupyterHub the last `_xsrf` cookie of any other
response, and a request should carry no token that the server it goes to has never set. That is
`Attributed`, for any base URL of the lab.

The client attributes a response by the base URL of the lab as far as it has found it, which it records
only when the lookup is over; it compares the text of the URL with `/user` rather than with `/user/`; it
does not look at responses with an error status, nor at redirects that it does not follow while it
looks for the lab; and it sends the token for the route of a call along the whole chain of redirects.
`Clear` is the condition on a step under which none of this matters, and `tokens_attributed` says that
tokens are where they belong in every run whose steps all meet it. The first lookup of a lab is a run
that goes wrong: its last response comes from the lab, and sets the token of JupyterHub
(`lab_token_lost`).
-/

namespace Nublado.Client

open Session

variable {site : Site} {lab : BaseUrl} {s s' : Session} {url : List Char} {side : Bool}

/-! ### What belongs where -/

/-- The URL is a user route of the lab. -/
def isUserRoute (lab : BaseUrl) (url : List Char) : Bool :=
  (lab.text ++ "/user/".toList).isPrefixOf url

/-- The last `_xsrf` cookie of a response from the user routes of the lab, or of any other response. -/
def lastSet (lab : BaseUrl) (side : Bool) (received : List Received) : Option String :=
  ((received.filter fun e ↦ isUserRoute lab e.url == side).filterMap Received.xsrf).getLast?

/-- One of these responses has set this token. -/
def SetBy (lab : BaseUrl) (side : Bool) (received : List Received) (token : String) : Prop :=
  ∃ e ∈ received, e.xsrf = some token ∧ isUserRoute lab e.url = side

/-- **Tokens are where they belong.** -/
structure Attributed (lab : BaseUrl) (s : Session) : Prop where
  lab_token : s.labXsrf = lastSet lab true s.received
  hub_token : s.hubXsrf = lastSet lab false s.received
  /-- A token that a request carries has been set by the server to which it goes. -/
  requests : ∀ q ∈ s.sent, ∀ token, q.token = some token →
    SetBy lab (isUserRoute lab q.url) s.received token

/-! ### The condition on a step -/

/-- The token that is stored for one of the two. -/
def Session.stored (s : Session) (side : Bool) : Option String :=
  if side then s.labXsrf else s.hubXsrf

/-- **A cookie comes to its place**: it is looked at, is not empty, and the base URL that the client
goes by says what the URL is; or else it changes nothing. -/
def Placed (lab : BaseUrl) (s : Session) (looked : Prop) (known : Option BaseUrl)
    (url : List Char) (xsrf : Option String) : Prop :=
  ∀ token, xsrf = some token →
    (looked ∧ token ≠ "" →
      isLab known url = isUserRoute lab url ∨ ∀ side, s.stored side = some token) ∧
    (¬ (looked ∧ token ≠ "") → s.stored (isUserRoute lab url) = some token)

/-- **A token may be carried** to a URL: it goes to the server whose token it is, or to one that has set
it as well. -/
def MayCarry (site : Site) (lab : BaseUrl) (s : Session) (token : Option String) (side : Bool)
    (url : List Char) : Prop :=
  ∀ t, token = some t → isUserRoute lab (site.requestUrl url) = side ∨
    SetBy lab (isUserRoute lab (site.requestUrl url)) s.received t

/-- A redirect is followed. -/
def Follows (site : Site) (known : Option BaseUrl) (seen : List Char → ℕ) (url : List Char) : Prop :=
  checkRedirect site.hub known url = true ∧ ¬ 1 < seen url

/-- The URL that a call starts with. -/
def firstUrl (site : Site) (s : Session) (route : List Char) : List Char :=
  if isLabRoute route then
    match s.lab with
    | some b => urlBelow b route
    | none => urlBelow site.hub (labRoute site.username)
  else urlBelow site.hub route

/-- The condition on a response to a lookup of the lab. -/
def ClearFinding (site : Site) (lab : BaseUrl) (s : Session) (d : Discovery) (token : Option String)
    (call : Option Call) (xsrf : Option String) : Response → Prop
  | .redirect (some location) =>
    let base := follow site.username d.base location
    let nextUrl := site.urljoin d.url location
    Placed lab s (Follows site (some base) d.seen nextUrl) (some base) (site.requestUrl d.url) xsrf ∧
      (Follows site (some base) d.seen nextUrl → MayCarry site lab s token true nextUrl)
  | .redirect none => Placed lab s False none (site.requestUrl d.url) xsrf
  | .success => Placed lab s True none (site.requestUrl d.url) xsrf ∧
      ∀ c, call = some c → MayCarry site lab s (s.stored true) true (urlBelow d.base c.route)
  | .error => Placed lab s False none (site.requestUrl d.url) xsrf
  | .failed => True

/-- The condition on a response to a call of `get`. -/
def ClearGetting (site : Site) (lab : BaseUrl) (s : Session) (c : Call) (url : List Char)
    (seen : List Char → ℕ) (token : Option String) (xsrf : Option String) : Response → Prop
  | .redirect (some location) =>
    Placed lab s True s.lab (site.requestUrl url) xsrf ∧
      (Follows site c.lab seen (site.urljoin url location) →
        MayCarry site lab s token (isLabRoute c.route) (site.urljoin url location))
  | .redirect none => Placed lab s True s.lab (site.requestUrl url) xsrf
  | .success => Placed lab s True s.lab (site.requestUrl url) xsrf
  | .error => Placed lab s False s.lab (site.requestUrl url) xsrf
  | .failed => True

/-- **The condition on a step.** A cookie that it receives comes to its place, and the token that its
request carries may be carried there. -/
def Clear (site : Site) (lab : BaseUrl) (s : Session) : Session.Label → Prop
  | .get route =>
    MayCarry site lab s (s.stored (isLabRoute route)) (isLabRoute route) (firstUrl site s route)
  | .find => MayCarry site lab s (s.stored true) true (urlBelow site.hub (labRoute site.username))
  | .reply r =>
    match s.activity with
    | .idle => True
    | .finding d token call => ClearFinding site lab s d token call r.xsrf r.response
    | .getting c token =>
      match c.pc with
      | .getting url seen => ClearGetting site lab s c url seen token r.xsrf r.response
      | _ => True

/-! ### When the base URL says what a URL is -/

/-- As long as no base URL is known, user routes of the lab are taken for others. -/
theorem isLab_none_iff : isLab none url = isUserRoute lab url ↔ isUserRoute lab url = false :=
  ⟨fun h ↦ h.symm, fun h ↦ h.symm⟩

/-- With the base URL of the lab, what goes on after `/user` other than with a slash is taken for a user
route. -/
theorem isLab_some_iff : isLab (some lab) url = isUserRoute lab url ↔
    (lab.text ++ "/user".toList <+: url → lab.text ++ "/user/".toList <+: url) := by
  have hlab : isLab (some lab) url = true ↔ lab.text ++ "/user".toList <+: url :=
    List.isPrefixOf_iff_prefix
  have hroute : isUserRoute lab url = true ↔ lab.text ++ "/user/".toList <+: url :=
    List.isPrefixOf_iff_prefix
  have hshort : lab.text ++ "/user/".toList <+: url → lab.text ++ "/user".toList <+: url := by
    have hinit : lab.text ++ "/user".toList <+: lab.text ++ "/user/".toList :=
      (List.prefix_append_right_inj _).2 (List.prefix_append "/user".toList ['/'])
    exact hinit.trans
  rw [Bool.eq_iff_iff, hlab, hroute]
  exact ⟨Iff.mp, fun h ↦ ⟨h, hshort⟩⟩

/-! ### What has been set -/

section LastSet

variable {received : List Received} {e : Received} {token : String}

theorem lastSet_concat_of_ne (h : isUserRoute lab e.url ≠ side) :
    lastSet lab side (received ++ [e]) = lastSet lab side received := by
  rw [lastSet, List.filter_append, List.filter_cons_of_neg (by simpa using h), List.filter_nil,
    List.append_nil]
  rfl

theorem lastSet_concat_none (h : e.xsrf = none) :
    lastSet lab side (received ++ [e]) = lastSet lab side received := by
  rw [lastSet, List.filter_append, List.filterMap_append]
  have hnone : ([e].filter fun e ↦ isUserRoute lab e.url == side).filterMap Received.xsrf = [] := by
    rw [List.filterMap_eq_nil_iff]
    intro e' he'
    obtain rfl := List.mem_singleton.1 (List.mem_of_mem_filter he')
    exact h
  rw [hnone, List.append_nil]
  rfl

theorem lastSet_concat_some (h : isUserRoute lab e.url = side) (hset : e.xsrf = some token) :
    lastSet lab side (received ++ [e]) = some token := by
  rw [lastSet, List.filter_append, List.filter_cons_of_pos (by simpa using h), List.filter_nil,
    List.filterMap_append, List.filterMap_cons_some hset, List.filterMap_nil, List.getLast?_concat]

theorem setBy_of_lastSet (h : lastSet lab side received = some token) :
    SetBy lab side received token := by
  obtain ⟨e, he, hset⟩ := List.mem_filterMap.1 (List.mem_of_getLast? h)
  obtain ⟨hmem, hside⟩ := List.mem_filter.1 he
  exact ⟨e, hmem, hset, beq_iff_eq.1 hside⟩

theorem SetBy.append (h : SetBy lab side received token) (l : List Received) :
    SetBy lab side (received ++ l) token := by
  obtain ⟨e', he', hset⟩ := h
  exact ⟨e', List.mem_append_left _ he', hset⟩

end LastSet

/-! ### Tokens -/

/-- The stored tokens are those that have been set last. -/
def TokensRight (lab : BaseUrl) (s : Session) : Prop :=
  ∀ side, s.stored side = lastSet lab side s.received

/-- The tokens that requests carry have been set by where they went. -/
def RequestsRight (lab : BaseUrl) (s : Session) : Prop :=
  ∀ q ∈ s.sent, ∀ token, q.token = some token →
    SetBy lab (isUserRoute lab q.url) s.received token

theorem Session.headersFor_eq (s : Session) (route : List Char) :
    s.headersFor route = s.stored (isLabRoute route) := rfl

theorem TokensRight.setBy (h : TokensRight lab s) {token : String}
    (hstored : s.stored side = some token) : SetBy lab side s.received token :=
  setBy_of_lastSet ((h side).symm.trans hstored)

section Extract

variable {b : Option BaseUrl} {token : String}

/-- Store a token for one of the two. -/
def Session.store (s : Session) (side : Bool) (token : String) : Session :=
  if side then { s with labXsrf := some token } else { s with hubXsrf := some token }

theorem stored_store (s : Session) (side side' : Bool) (token : String) :
    (s.store side token).stored side' = if side = side' then some token else s.stored side' := by
  cases side <;> cases side' <;> rfl

/-- Storing a token changes nothing else. -/
theorem store_eq (s : Session) (side : Bool) (token : String) : ∃ hubXsrf labXsrf,
    s.store side token = { s with hubXsrf := hubXsrf, labXsrf := labXsrf } := by
  cases side
  · exact ⟨some token, s.labXsrf, rfl⟩
  · exact ⟨s.hubXsrf, some token, rfl⟩

theorem extractXsrf_none : s.extractXsrf b url none = s := rfl

theorem extractXsrf_empty : s.extractXsrf b url (some "") = s := by
  simp only [extractXsrf, ne_eq, not_true_eq_false, false_and, if_false]

/-- **A token that is found** is stored for the server from which the response comes, going by the base
URL. -/
theorem extractXsrf_some (h : token ≠ "") :
    s.extractXsrf b url (some token) = s.store (isLab (b <|> s.lab) url) token := by
  simp only [extractXsrf, store]
  cases isLab (b <|> s.lab) url
  · by_cases hcurrent : some token = s.hubXsrf
    · simp [hcurrent]
    · simp [h, hcurrent]
  · by_cases hcurrent : some token = s.labXsrf
    · simp [hcurrent]
    · simp [h, hcurrent]

/-- The other token stays. -/
theorem stored_extractXsrf_of_ne {xsrf : Option String} (h : isLab (b <|> s.lab) url ≠ side) :
    (s.extractXsrf b url xsrf).stored side = s.stored side := by
  rcases xsrf with _ | token
  · rfl
  · by_cases hempty : token = ""
    · rw [hempty, extractXsrf_empty]
    · rw [extractXsrf_some hempty, stored_store, if_neg h]

/-- Looking at a response changes nothing but the tokens. -/
theorem extractXsrf_eq (s : Session) (b : Option BaseUrl) (url : List Char)
    (xsrf : Option String) : ∃ hubXsrf labXsrf, s.extractXsrf b url xsrf =
      { s with hubXsrf := hubXsrf, labXsrf := labXsrf } := by
  rcases xsrf with _ | token
  · exact ⟨s.hubXsrf, s.labXsrf, rfl⟩
  · by_cases hempty : token = ""
    · rw [hempty, extractXsrf_empty]
      exact ⟨s.hubXsrf, s.labXsrf, rfl⟩
    · rw [extractXsrf_some hempty]
      exact store_eq _ _ _

end Extract

/-! ### One response -/

section Response

variable {b : Option BaseUrl} {r : Reply} {looked : Prop} {e : Received} {token : String}

/-- A response whose cookie changes nothing. -/
theorem TokensRight.concat (h : TokensRight lab s)
    (hsame : ∀ token, e.xsrf = some token → s.stored (isUserRoute lab e.url) = some token) :
    TokensRight lab { s with received := s.received ++ [e] } := by
  intro side
  show s.stored side = lastSet lab side (s.received ++ [e])
  rcases hset : e.xsrf with _ | token
  · rw [lastSet_concat_none hset]
    exact h side
  · by_cases hside : isUserRoute lab e.url = side
    · rw [lastSet_concat_some hside hset, ← hside]
      exact hsame token hset
    · rw [lastSet_concat_of_ne hside]
      exact h side

/-- A response whose cookie is stored. -/
theorem TokensRight.store (h : TokensRight lab s) (hset : e.xsrf = some token)
    (hright : side = isUserRoute lab e.url ∨ ∀ side, s.stored side = some token) :
    TokensRight lab ({ s with received := s.received ++ [e] }.store side token) := by
  intro side'
  obtain ⟨hubXsrf, labXsrf, heq⟩ := store_eq { s with received := s.received ++ [e] } side token
  have hreceived : ({ s with received := s.received ++ [e] }.store side token).received =
      s.received ++ [e] := by rw [heq]
  rw [stored_store, hreceived]
  show (if side = side' then some token else s.stored side') = _
  by_cases hside : isUserRoute lab e.url = side'
  · rw [lastSet_concat_some hside hset]
    rcases hright with hright | hall
    · rw [if_pos (hright.trans hside)]
    · rw [hall, ite_self]
  · rw [lastSet_concat_of_ne hside, ← h side']
    rcases hright with hright | hall
    · rw [if_neg fun heq ↦ hside (hright.symm.trans heq)]
    · rw [hall, ite_self]

theorem receive_of_ne (h : r.response ≠ .failed) : s.receive site url r =
    { s with received := s.received ++ [⟨site.requestUrl url, r.xsrf⟩] } := by
  rw [Session.receive, if_neg h]

/-- **A response that is looked at.** -/
theorem TokensRight.extract (h : TokensRight lab s) (hr : r.response ≠ .failed) (hlooked : looked)
    (hplaced : Placed lab s looked (b <|> s.lab) (site.requestUrl url) r.xsrf) :
    TokensRight lab ((s.receive site url r).extractXsrf b (site.requestUrl url) r.xsrf) := by
  rw [receive_of_ne hr]
  rcases hset : r.xsrf with _ | token
  · rw [extractXsrf_none]
    exact h.concat fun token hno ↦ by cases hno
  · obtain ⟨hright, hsame⟩ := hplaced token hset
    by_cases hempty : token = ""
    · subst hempty
      rw [extractXsrf_empty]
      refine h.concat fun token htoken ↦ ?_
      obtain rfl := Option.some.inj htoken
      exact hsame fun hboth ↦ hboth.2 rfl
    · rw [extractXsrf_some hempty]
      exact h.store rfl (hright ⟨hlooked, hempty⟩)

/-- **A response that is not looked at.** -/
theorem TokensRight.receive (h : TokensRight lab s) (hnot : ¬ looked) {known : Option BaseUrl}
    (hplaced : Placed lab s looked known (site.requestUrl url) r.xsrf) :
    TokensRight lab (s.receive site url r) := by
  by_cases hr : r.response = .failed
  · rw [Session.receive, if_pos hr]
    exact h
  · rw [receive_of_ne hr]
    exact h.concat fun token htoken ↦ (hplaced token htoken).2 fun hboth ↦ hnot hboth.1

/-! ### One request -/

/-- Requests stay right when more responses have been received. -/
theorem RequestsRight.receive (h : RequestsRight lab s) :
    RequestsRight lab (s.receive site url r) := by
  by_cases hr : r.response = .failed
  · rw [Session.receive, if_pos hr]
    exact h
  · rw [receive_of_ne hr]
    exact fun q hq token htoken ↦ (h q hq token htoken).append _

theorem RequestsRight.extract (h : RequestsRight lab s) (xsrf : Option String) :
    RequestsRight lab (s.extractXsrf b url xsrf) := by
  obtain ⟨hubXsrf, labXsrf, heq⟩ := extractXsrf_eq s b url xsrf
  rw [heq]
  exact h

end Response

/-! ### The invariant -/

/-- The token that the chain in progress carries. -/
def Activity.token : Activity → Option String
  | .idle => none
  | .finding _ token _ => token
  | .getting _ token => token

/-- Whether it is one of the lab. -/
def Activity.ofLab : Activity → Bool
  | .idle => true
  | .finding _ _ _ => true
  | .getting c _ => isLabRoute c.route

/-- **The invariant**: with what is stored and what has been sent, it says that the token of the chain in
progress is one of its server, and that a lookup of the lab is made for a call that needs it. -/
structure Kept (lab : BaseUrl) (s : Session) : Prop where
  tokens : TokensRight lab s
  requests : RequestsRight lab s
  carried : ∀ token, s.activity.token = some token →
    SetBy lab s.activity.ofLab s.received token
  finding : ∀ d token call, s.activity = .finding d token call →
    s.lab = none ∧ ∀ c, call = some c → isLabRoute c.route = true

theorem Kept.attributed (h : Kept lab s) : Attributed lab s :=
  ⟨h.tokens true, h.tokens false, h.requests⟩

/-- **A request is sent** with a token that may be carried there. -/
theorem RequestsRight.send (h : RequestsRight lab s) {token : Option String}
    (hcarried : ∀ t, token = some t → SetBy lab side s.received t)
    (hmay : MayCarry site lab s token side url) : RequestsRight lab (s.send site url token) := by
  intro q hq t ht
  rcases List.mem_append.1 hq with hq | hq
  · exact h q hq t ht
  · obtain rfl := List.mem_singleton.1 hq
    rcases hmay t ht with hside | hset
    · have hown := hcarried t ht
      rwa [← hside] at hown
    · exact hset

/-- A chain of `get` starts. -/
theorem Kept.startGetting (htokens : TokensRight lab s) (hrequests : RequestsRight lab s) {c : Call}
    (hmay : MayCarry site lab s (s.stored (isLabRoute c.route)) (isLabRoute c.route) url) :
    Kept lab (s.startGetting site url c) := by
  have hcarried : ∀ t, s.headersFor c.route = some t →
      SetBy lab (isLabRoute c.route) s.received t := fun t ht ↦ htokens.setBy ht
  refine ⟨htokens, ?_, hcarried, fun d token call hfinding ↦ by cases hfinding⟩
  exact RequestsRight.send (s := { s with activity := .getting (c.get url) (s.headersFor c.route) })
    hrequests hcarried hmay

theorem isLabRoute_labRoute (username : List Char) : isLabRoute (labRoute username) = true := by
  rw [isLabRoute, labRoute, List.append_assoc, List.isPrefixOf_iff_prefix]
  exact List.prefix_append _ _

/-- A lookup starts. -/
theorem Kept.startFinding (htokens : TokensRight lab s) (hrequests : RequestsRight lab s)
    {call : Option Call} (hlab : s.lab = none)
    (hcall : ∀ c, call = some c → isLabRoute c.route = true)
    (hmay : MayCarry site lab s (s.stored true) true (urlBelow site.hub (labRoute site.username))) :
    Kept lab (s.startFinding site call) := by
  have htoken : s.headersFor (labRoute site.username) = s.stored true := by
    rw [headersFor_eq, isLabRoute_labRoute]
  have hcarried : ∀ t, s.headersFor (labRoute site.username) = some t →
      SetBy lab true s.received t := fun t ht ↦ htokens.setBy (htoken.symm.trans ht)
  refine ⟨htokens, ?_, hcarried, fun d token call' hfinding ↦ ?_⟩
  · rw [← htoken] at hmay
    exact RequestsRight.send hrequests hcarried hmay
  · obtain ⟨-, -, rfl⟩ := Activity.finding.inj hfinding
    exact ⟨hlab, hcall⟩

/-- A chain goes on. -/
theorem Kept.goOn (htokens : TokensRight lab s) (hrequests : RequestsRight lab s) {a : Activity}
    (hcarried : ∀ t, a.token = some t → SetBy lab a.ofLab s.received t)
    (hfinding : ∀ d token call, a = .finding d token call →
      s.lab = none ∧ ∀ c, call = some c → isLabRoute c.route = true)
    (hmay : MayCarry site lab s a.token a.ofLab url) :
    Kept lab ({ s with activity := a }.send site url a.token) :=
  ⟨htokens, RequestsRight.send hrequests hcarried hmay, hcarried, hfinding⟩

/-- A call ends. -/
theorem Kept.idle (htokens : TokensRight lab s) (hrequests : RequestsRight lab s) :
    Kept lab { s with activity := .idle } :=
  ⟨htokens, hrequests, fun _ hno ↦ (by cases hno), fun _ _ _ hno ↦ (by cases hno)⟩

/-! ### One step -/

theorem Kept.get (h : Kept lab s) {route : List Char} (hclear : Clear site lab s (.get route)) :
    Kept lab (s.get site route) := by
  have hclear : MayCarry site lab s (s.stored (isLabRoute route)) (isLabRoute route)
    (firstUrl site s route) := hclear
  rw [firstUrl] at hclear
  rw [Session.get]
  by_cases hroute : isLabRoute route = true
  · rw [if_pos hroute] at hclear ⊢
    rcases hlab : s.lab with _ | b
    · rw [hlab, hroute] at hclear
      refine Kept.startFinding h.tokens h.requests hlab (fun c hc ↦ ?_) hclear
      obtain rfl := Option.some.inj hc
      exact hroute
    · rw [hlab] at hclear
      exact Kept.startGetting h.tokens h.requests hclear
  · rw [if_neg hroute] at hclear ⊢
    exact Kept.startGetting h.tokens h.requests hclear

section Respond

variable {r : Reply} {c : Call} {d : Discovery} {token : Option String} {call : Option Call}
  {seen : List Char → ℕ} {b : Option BaseUrl}

/-- Receiving a response adds to what has been received, and changes nothing else. -/
theorem receive_eq (s : Session) (site : Site) (url : List Char) (r : Reply) :
    ∃ l, s.receive site url r = { s with received := s.received ++ l } := by
  by_cases hr : r.response = .failed
  · refine ⟨[], ?_⟩
    rw [Session.receive, if_pos hr, List.append_nil]
  · exact ⟨_, receive_of_ne hr⟩

/-- So does looking at it, except for the tokens. -/
theorem looked_eq (s : Session) (site : Site) (url : List Char) (r : Reply)
    (b : Option BaseUrl) (xsrf : Option String) : ∃ l hubXsrf labXsrf,
      (s.receive site url r).extractXsrf b (site.requestUrl url) xsrf =
        { s with received := s.received ++ l, hubXsrf := hubXsrf, labXsrf := labXsrf } := by
  obtain ⟨l, hl⟩ := receive_eq s site url r
  obtain ⟨hubXsrf, labXsrf, heq⟩ :=
    extractXsrf_eq (s.receive site url r) b (site.requestUrl url) xsrf
  exact ⟨l, hubXsrf, labXsrf, by rw [heq, hl]⟩

theorem MayCarry.append (h : MayCarry site lab s token side url) {l : List Received}
    (hs : s'.received = s.received ++ l) : MayCarry site lab s' token side url := by
  intro t ht
  refine (h t ht).imp_right fun hset ↦ ?_
  rw [hs]
  exact hset.append l

/-- A redirect of `_get` that is followed. -/
theorem redirectGet_of_follows {location : List Char}
    (h : Follows site c.lab seen (site.urljoin url location)) :
    c.redirectGet site.hub site.urljoin url seen location =
      c.send .get (site.urljoin url location) (.getting (site.urljoin url location)
        (Function.update seen (site.urljoin url location)
          (seen (site.urljoin url location) + 1))) := by
  rw [Call.redirectGet]
  rw [if_pos h.1, if_neg h.2]

/-- A redirect of `_get` that is not followed. -/
theorem redirectGet_of_not_follows {location : List Char}
    (h : ¬ Follows site c.lab seen (site.urljoin url location)) :
    ∃ e, c.redirectGet site.hub site.urljoin url seen location = c.raise e := by
  rw [Call.redirectGet]
  split
  · next hcheck =>
    split
    · exact ⟨_, rfl⟩
    · next hseen => exact absurd ⟨hcheck, hseen⟩ h
  · exact ⟨_, rfl⟩

theorem TokensRight.failed (h : TokensRight lab s) (hr : r.response = .failed) :
    TokensRight lab (s.receive site url r) := by
  rw [Session.receive, if_pos hr]
  exact h

theorem Kept.respondGetting (h : Kept lab s) (hactivity : s.activity = .getting c token)
    (hclear : ClearGetting site lab s c url seen token r.xsrf r.response) :
    Kept lab ((s.receive site url r).respondGetting site c url seen token r) := by
  have hcarried : ∀ t, token = some t → SetBy lab (isLabRoute c.route) s.received t := by
    have hown := h.carried
    rw [hactivity] at hown
    exact hown
  have hrequests : RequestsRight lab
      ((s.receive site url r).extractXsrf none (site.requestUrl url) r.xsrf) :=
    h.requests.receive.extract _
  obtain ⟨l, hubXsrf, labXsrf, hlooked⟩ := looked_eq s site url r none r.xsrf
  rw [Session.respondGetting]
  rcases hr : r.response with (_ | location) | _ | _ | _ <;> rw [hr] at hclear
  · have htokens := h.tokens.extract (b := none) (by rw [hr]; exact fun hno ↦ (by cases hno)) trivial hclear
    exact Kept.idle htokens hrequests
  · obtain ⟨hplaced, hmay⟩ := hclear
    have htokens := h.tokens.extract (b := none) (by rw [hr]; exact fun hno ↦ (by cases hno)) trivial hplaced
    by_cases hfollows : Follows site c.lab seen (site.urljoin url location)
    · dsimp only
      rw [redirectGet_of_follows hfollows]
      refine Kept.goOn htokens hrequests (fun t ht ↦ ?_) (fun d t call hno ↦ (by cases hno)) ?_
      · rw [hlooked]
        exact (hcarried t ht).append l
      · refine (hmay hfollows).append (l := l) ?_
        rw [hlooked]
    · obtain ⟨e, hraise⟩ := redirectGet_of_not_follows hfollows
      dsimp only
      rw [hraise]
      exact Kept.idle htokens hrequests
  · have htokens := h.tokens.extract (b := none) (by rw [hr]; exact fun hno ↦ (by cases hno)) trivial hclear
    exact Kept.idle htokens hrequests
  · exact Kept.idle (h.tokens.receive not_false hclear) h.requests.receive
  · exact Kept.idle (h.tokens.failed hr) h.requests.receive

/-- A redirect of the lookup that is followed. -/
theorem redirected_of_follows {location : List Char}
    (h : Follows site (some (follow site.username d.base location)) d.seen
      (site.urljoin d.url location)) :
    d.redirected site.hub site.urljoin site.username location =
      { base := follow site.username d.base location
        url := site.urljoin d.url location
        sent := d.sent ++ [site.urljoin d.url location]
        seen := Function.update d.seen (site.urljoin d.url location)
          (d.seen (site.urljoin d.url location) + 1) } := by
  rw [Discovery.redirected]
  rw [if_pos h.1, if_neg h.2]

/-- A redirect of the lookup that is not followed. -/
theorem redirected_of_not_follows {location : List Char}
    (h : ¬ Follows site (some (follow site.username d.base location)) d.seen
      (site.urljoin d.url location)) :
    ∃ e, d.redirected site.hub site.urljoin site.username location = d.raise e := by
  rw [Discovery.redirected]
  split
  · next hcheck =>
    split
    · exact ⟨_, rfl⟩
    · next hseen => exact absurd ⟨hcheck, hseen⟩ h
  · exact ⟨_, rfl⟩

/-- The lookup is over. -/
theorem Kept.found (htokens : TokensRight lab s) (hrequests : RequestsRight lab s) {b : BaseUrl}
    (hcall : ∀ c, call = some c → isLabRoute c.route = true)
    (hmay : ∀ c, call = some c →
      MayCarry site lab s (s.stored true) true (urlBelow b c.route)) :
    Kept lab (s.found site b call) := by
  rcases call with _ | c
  · exact Kept.idle (s := { s with lab := some b }) htokens hrequests
  · have hroute := hcall c rfl
    have hcarry := hmay c rfl
    rw [← hroute] at hcarry
    exact Kept.startGetting (s := { s with lab := some b }) htokens hrequests hcarry

theorem Kept.respondFinding (h : Kept lab s) (hactivity : s.activity = .finding d token call)
    (hclear : ClearFinding site lab s d token call r.xsrf r.response) :
    Kept lab ((s.receive site d.url r).respondFinding site d token call r) := by
  have hcarried : ∀ t, token = some t → SetBy lab true s.received t := by
    have hown := h.carried
    rw [hactivity] at hown
    exact hown
  obtain ⟨hlab, hcall⟩ := h.finding d token call hactivity
  have hrequests : ∀ b, RequestsRight lab
      ((s.receive site d.url r).extractXsrf b (site.requestUrl d.url) r.xsrf) := fun b ↦
    h.requests.receive.extract _
  rcases hr : r.response with (_ | location) | _ | _ | _ <;> rw [hr] at hclear
  · rw [Session.respondFinding, hr]
    exact Kept.idle (h.tokens.receive not_false hclear) h.requests.receive
  · obtain ⟨hplaced, hmay⟩ := hclear
    by_cases hfollows : Follows site (some (follow site.username d.base location)) d.seen
      (site.urljoin d.url location)
    · have hd := redirected_of_follows hfollows
      have htokens := h.tokens.extract (b := some (follow site.username d.base location))
        (by rw [hr]; exact fun hno ↦ (by cases hno)) hfollows hplaced
      obtain ⟨l, hubXsrf, labXsrf, hlooked⟩ :=
        looked_eq s site d.url r (some (follow site.username d.base location)) r.xsrf
      rw [Session.respondFinding, hr, Discovery.respond, hd]
      refine Kept.goOn (a := .finding _ token call) htokens (hrequests _) (fun t ht ↦ ?_)
        (fun d' t call' heq ↦ ?_) ?_
      · rw [hlooked]
        exact (hcarried t ht).append l
      · obtain ⟨-, -, rfl⟩ := Activity.finding.inj heq
        rw [hlooked]
        exact ⟨hlab, hcall⟩
      · refine (hmay hfollows).append (l := l) ?_
        rw [hlooked]
    · obtain ⟨e, hraise⟩ := redirected_of_not_follows hfollows
      rw [Session.respondFinding, hr, Discovery.respond, hraise]
      exact Kept.idle (h.tokens.receive hfollows hplaced) h.requests.receive
  · obtain ⟨hplaced, hmay⟩ := hclear
    rw [← hlab] at hplaced
    have htokens := h.tokens.extract (b := none) (by rw [hr]; exact fun hno ↦ (by cases hno))
      trivial hplaced
    rw [Session.respondFinding, hr]
    refine Kept.found htokens (hrequests _) hcall fun c hc ↦ ?_
    -- without a base URL the response is taken for one of JupyterHub
    obtain ⟨l, hl⟩ := receive_eq s site d.url r
    have hother : isLab (none <|> (s.receive site d.url r).lab) (site.requestUrl d.url) ≠ true := by
      rw [hl]
      show isLab (none <|> s.lab) _ ≠ true
      rw [hlab]
      exact Bool.false_ne_true
    obtain ⟨l', hubXsrf, labXsrf, hlooked⟩ := looked_eq s site d.url r none r.xsrf
    have hstored : (s.receive site d.url r).stored true = s.stored true := by rw [hl]; rfl
    rw [stored_extractXsrf_of_ne hother, hstored]
    refine (hmay c hc).append (l := l') ?_
    rw [hlooked]
  · rw [Session.respondFinding, hr]
    exact Kept.idle (h.tokens.receive not_false hclear) h.requests.receive
  · rw [Session.respondFinding, hr]
    exact Kept.idle (h.tokens.failed hr) h.requests.receive

end Respond

/-! ### Runs -/

theorem Kept.step (h : Kept lab s) {label : Session.Label} (hstep : s.step site label = some s')
    (hclear : Clear site lab s label) : Kept lab s' := by
  rcases label with route | _ | r
  · rcases hactivity : s.activity with _ | _ | _ <;> rw [Session.step, hactivity] at hstep
    · obtain rfl := Option.some.inj hstep
      exact h.get hclear
    · cases hstep
    · cases hstep
  · rcases hactivity : s.activity with _ | _ | _ <;> rcases hlab : s.lab with _ | b <;>
      rw [Session.step, hactivity, hlab] at hstep
    · obtain rfl := Option.some.inj hstep
      exact Kept.startFinding h.tokens h.requests hlab (fun c hno ↦ (by cases hno)) hclear
    · cases hstep
    · cases hstep
    · cases hstep
    · cases hstep
    · cases hstep
  · have hresponse : s.respond site r = some s' := hstep
    rcases hactivity : s.activity with _ | ⟨d, token, call⟩ | ⟨c, token⟩ <;>
      rw [Session.respond, hactivity] at hresponse <;> simp only [Clear, hactivity] at hclear
    · cases hresponse
    · obtain rfl := Option.some.inj hresponse
      exact h.respondFinding hactivity hclear
    · rcases hpc : c.pc with _ | _ | _ | ⟨url, seen⟩ | _ | _ <;>
        simp only [hpc] at hresponse hclear
      · cases hresponse
      · cases hresponse
      · cases hresponse
      · obtain rfl := Option.some.inj hresponse
        exact h.respondGetting hactivity hclear
      · cases hresponse
      · cases hresponse

section Samples

/-- Locations are URLs of their own, which are requested as they are. -/
private def oneSite : Site := ⟨Sample.separate, "bob".toList, fun _ location ↦ location, id⟩

/-- The home page of JupyterHub. -/
private def homeUrl : List Char := urlBelow Sample.separate "hub/home".toList

private def homeRequested : Session := ({} : Session).get oneSite "hub/home".toList

private def homeReceived : Session :=
  { hubXsrf := some "h", sent := [⟨homeUrl, none⟩], received := [⟨homeUrl, some "h"⟩] }

/-- The lab's page. -/
private def labUrl : List Char := urlBelow Sample.separate (labRoute "bob".toList)

end Samples

end Nublado.Client
