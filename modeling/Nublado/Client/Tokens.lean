import Nublado.Client.Discovery

/-!
# XSRF tokens

JupyterHub and the lab each expect a token of their own in the `X-XSRFToken` header of a request, and
announce it in an `_xsrf` cookie, which may come with any response of a chain of redirects. The client
stores one token for each of the two; `_extract_xsrf` decides for a response whose token it sets, by
the base URL of the lab as far as it is known, and `_headers_for` decides which one a call sends.

A `Session` is a client that makes one call after the other: calls of `get`, as in `Call`, and lookups
of the base URL of the lab, as in `Discovery`. It records the requests it has sent, each with its
token, and the responses it has received, each with its `_xsrf` cookie.

## The environment

* The `Site` has the base URL of JupyterHub, the user's name, `urljoin`, and `requestUrl`: the URL that
  the HTTP library makes of a text, in the form in which the response has it.
* The servers answer as they like; `Reply.xsrf` is the `_xsrf` cookie that the library finds in the
  response. A response with two such cookies, at which it raises an exception, is left out.
-/

namespace Nublado.Client

/-- What the client talks to. -/
structure Site where
  hub : BaseUrl
  username : List Char
  urljoin : List Char → List Char → List Char
  requestUrl : List Char → List Char

/-- What comes back for a request, with its `_xsrf` cookie. -/
structure Reply where
  response : Response
  xsrf : Option String
  deriving DecidableEq

/-- A request that was sent, with its `X-XSRFToken` header. -/
structure Sent where
  url : List Char
  token : Option String
  deriving DecidableEq

/-- A response that was received, with its `_xsrf` cookie. -/
structure Received where
  url : List Char
  xsrf : Option String
  deriving DecidableEq

/-- What the client is doing; a chain of requests keeps the token it has started with. -/
inductive Activity
  | idle
  /-- Looking for the lab, for a call of `get` or for another method. -/
  | finding (d : Discovery) (token : Option String) (call : Option Call)
  | getting (c : Call) (token : Option String)

/-- A client that makes one call after the other. -/
structure Session where
  lab : Option BaseUrl := none
  hubXsrf : Option String := none
  labXsrf : Option String := none
  activity : Activity := .idle
  sent : List Sent := []
  received : List Received := []

namespace Session

variable (site : Site) (s : Session)

/-! ### Which token -/

/-- The response comes from the lab, going by this base URL. -/
def isLab (lab : Option BaseUrl) (url : List Char) : Bool :=
  lab.any fun b ↦ (b.text ++ "/user".toList).isPrefixOf url

/-- Extract the XSRF token from the cookies in a response. -/
def extractXsrf (labBaseUrl : Option BaseUrl) (url : List Char) (xsrf : Option String) : Session :=
  let isLab := isLab (labBaseUrl <|> s.lab) url
  let current := if isLab then s.labXsrf else s.hubXsrf
  match xsrf with
  | some token =>
    if token ≠ "" ∧ some token ≠ current then
      if isLab then { s with labXsrf := some token } else { s with hubXsrf := some token }
    else s
  | none => s

/-- The token for a route. -/
def headersFor (route : List Char) : Option String :=
  if isLabRoute route then s.labXsrf else s.hubXsrf

/-! ### Requests and responses -/

/-- Send a request. -/
def send (url : List Char) (token : Option String) : Session :=
  { s with sent := s.sent ++ [⟨site.requestUrl url, token⟩] }

/-- Receive the response to the request for a URL, if there is one. -/
def receive (url : List Char) (r : Reply) : Session :=
  if r.response = .failed then s
  else { s with received := s.received ++ [⟨site.requestUrl url, r.xsrf⟩] }

/-- `_find_lab_base_url` starts. -/
def startFinding (call : Option Call) : Session :=
  let d := Discovery.start site.hub site.username
  let token := s.headersFor (labRoute site.username)
  { s with activity := .finding d token call }.send site d.url token

/-- A call goes on with its URL. -/
def startGetting (url : List Char) (c : Call) : Session :=
  let token := s.headersFor c.route
  { s with activity := .getting (c.get url) token }.send site url token

/-- `get` starts, once the client knows which URL the route is for. -/
def get (route : List Char) : Session :=
  let c : Call := { method := .get, route := route, lab := s.lab }
  if isLabRoute route then
    match s.lab with
    | some b => s.startGetting site (urlBelow b route) c
    | none => s.startFinding site (some { c with pc := .findLab })
  else s.startGetting site (urlBelow site.hub route) c

/-- The base URL of the lab has been found. -/
def found (b : BaseUrl) (call : Option Call) : Session :=
  match call with
  | some c => { s with lab := some b }.startGetting site (urlBelow b c.route) { c with lab := some b }
  | none => { s with lab := some b, activity := .idle }

/-- What `_find_lab_base_url` does with a response: a redirect is looked at once it is clear that it is
followed. -/
def respondFinding (d : Discovery) (token : Option String) (call : Option Call) (r : Reply) :
    Session :=
  let url := site.requestUrl d.url
  let d' := d.respond site.hub site.urljoin site.username r.response
  match d'.pc with
  | .following =>
    { s.extractXsrf (some d'.base) url r.xsrf with activity := .finding d' token call }.send site
      d'.url token
  | .found => (s.extractXsrf none url r.xsrf).found site d'.base call
  | .raised _ => { s with activity := .idle }

/-- What `_get` does with a response: all but those with an error status are looked at. -/
def respondGetting (c : Call) (url : List Char) (seen : List Char → ℕ) (token : Option String)
    (r : Reply) : Session :=
  let looked := s.extractXsrf none (site.requestUrl url) r.xsrf
  match r.response with
  | .redirect (some location) =>
    let c' := c.redirectGet site.hub site.urljoin url seen location
    match c'.pc with
    | .getting nextUrl _ =>
      { looked with activity := .getting c' token }.send site nextUrl token
    | _ => { looked with activity := .idle }
  | .redirect none => { looked with activity := .idle }
  | .success => { looked with activity := .idle }
  | .error => { s with activity := .idle }
  | .failed => { s with activity := .idle }

/-- What is done with a response. -/
def respond (r : Reply) : Option Session :=
  match s.activity with
  | .idle => none
  | .finding d token call => some ((s.receive site d.url r).respondFinding site d token call r)
  | .getting c token =>
    match c.pc with
    | .getting url seen => some ((s.receive site url r).respondGetting site c url seen token r)
    | _ => none

/-- What happens next. -/
inductive Label
  | get (route : List Char)
  /-- Another method needs the base URL of the lab. -/
  | find
  | reply (r : Reply)
  deriving DecidableEq

/-- One step of the client. -/
def step : Label → Option Session
  | .get route =>
    match s.activity with
    | .idle => some (s.get site route)
    | _ => none
  | .find =>
    match s.activity, s.lab with
    | .idle, none => some (s.startFinding site none)
    | _, _ => none
  | .reply r => s.respond site r

end Session

end Nublado.Client
