import Nublado.Foundations.Trace
import Nublado.Foundations.Url

/-!
# The HTTP client

`get` and `post` of the wrapper around an HTTP client that talks to JupyterHub and JupyterLab, from
the URL they construct to the end of the chain of redirects, which they follow themselves.

Every request carries the headers of the call, with the user's token in `Authorization`; so what
matters is which requests are sent. A `Call` is one call with the program point it has reached and
the requests it has sent. Texts of URLs are lists of characters.

## The environment

* `hub` is what `_hub_base_url` returns: the URL of the service in service discovery, without
  trailing slashes.
* The base URL of the lab is an attribute of the client that other calls share. It may be recorded,
  or recorded anew, by another call at any time (`record`). A call for a route of the lab that finds
  none looks for it with `_find_lab_base_url`, which may return any base URL here; `Discovery` is what
  it does.
* `urljoin` is that of the standard library. Nothing is assumed of it.
* The servers answer as they like.

XSRF tokens and cookies are left out, since they do not influence where requests go; so are
`delete` and the streams, which follow no redirects.
-/

namespace Nublado.Client

/-- The methods that follow redirects. -/
inductive Method
  | get | post
  deriving DecidableEq

/-- The exceptions of a call. -/
inductive ClientError
  /-- `NubladoRedirectError` -/
  | redirect (message : String) (url : List Char)
  /-- `NubladoWebError` -/
  | web
  /-- A redirect without a `Location` header. -/
  | missingLocation
  /-- `_find_lab_base_url` raised an exception. -/
  | noLab
  deriving DecidableEq

/-- What comes back for a request. -/
inductive Response
  /-- A redirect, with its `Location` header. -/
  | redirect (location : Option (List Char))
  | success
  /-- An error status. -/
  | error
  /-- The request failed without a response. -/
  | failed
  deriving DecidableEq

/-- A request that was sent, with the base URL of the lab that the client had at that time. -/
structure Request where
  method : Method
  url : List Char
  lab : Option BaseUrl

/-- Program points of `get` and `post`. -/
inductive CallPc
  /-- Before the URL is constructed. -/
  | urlFor
  /-- Waiting for `_find_lab_base_url`. -/
  | findLab
  /-- Waiting for the response to the POST request. -/
  | posting (url : List Char)
  /-- Waiting for the response to a GET request, with the redirects seen so far. -/
  | getting (url : List Char) (seen : List Char → ℕ)
  | returned
  | raised (e : ClientError)

/-- A call of `get` or `post`, with the base URL of the lab that the client has at present. -/
structure Call where
  method : Method
  route : List Char
  lab : Option BaseUrl
  pc : CallPc := .urlFor
  sent : List Request := []

/-- A counter that is initialised with a text counts its characters. -/
def counter (text : List Char) : List Char → ℕ := fun key ↦ (text.map fun c ↦ [c]).count key

/-- Check that a URL is within Nublado's URL space. -/
def checkRedirect (hub : BaseUrl) (lab : Option BaseUrl) (url : List Char) : Bool :=
  hub.text.isPrefixOf url || lab.any fun b ↦ b.text.isPrefixOf url

/-- Whether the route is one of the lab. -/
def isLabRoute (route : List Char) : Bool := "user/".toList.isPrefixOf route

/-- The URL of a route below a base URL. -/
def urlBelow (b : BaseUrl) (route : List Char) : List Char := b.text ++ '/' :: route

namespace Call

variable (hub : BaseUrl) (urljoin : List Char → List Char → List Char) (c : Call)

/-- Send a request. -/
def send (method : Method) (url : List Char) (pc : CallPc) : Call :=
  { c with pc := pc, sent := c.sent ++ [⟨method, url, c.lab⟩] }

/-- End with an exception. -/
def raise (e : ClientError) : Call := { c with pc := .raised e }

/-- `_get`: request a URL and follow redirects from there. -/
def get (url : List Char) : Call := c.send .get url (.getting url (counter url))

/-- The first request, to a URL that has been constructed. -/
def sendFirst (url : List Char) : Call :=
  match c.method with
  | .get => c.get url
  | .post => c.send .post url (.posting url)

/-- `_url_for`, and the first request if the base URL is known. -/
def begin : Call :=
  if isLabRoute c.route then
    match c.lab with
    | some b => c.sendFirst (urlBelow b c.route)
    | none => { c with pc := .findLab }
  else c.sendFirst (urlBelow hub c.route)

/-- A redirect of a POST request is followed with a GET request. -/
def redirectPost (url location : List Char) : Call :=
  let nextUrl := urljoin url location
  if checkRedirect hub c.lab nextUrl then c.get nextUrl
  else c.raise (.redirect "Unexpected redirect" nextUrl)

/-- A redirect of a GET request is followed if the URL has not been seen twice. -/
def redirectGet (url : List Char) (seen : List Char → ℕ) (location : List Char) : Call :=
  let nextUrl := urljoin url location
  if checkRedirect hub c.lab nextUrl then
    if 1 < seen nextUrl then c.raise (.redirect "Redirect loop" nextUrl)
    else c.send .get nextUrl (.getting nextUrl (Function.update seen nextUrl (seen nextUrl + 1)))
  else c.raise (.redirect "Unexpected redirect" nextUrl)

/-- The URL whose response the call waits for. -/
def pending : Option (List Char) :=
  match c.pc with
  | .posting url => some url
  | .getting url _ => some url
  | _ => none

/-- What is done with a redirect. -/
def redirected (location : Option (List Char)) : Option Call :=
  match c.pc, location with
  | .posting url, some location => some (c.redirectPost hub urljoin url location)
  | .getting url seen, some location => some (c.redirectGet hub urljoin url seen location)
  | .posting _, none => some (c.raise .missingLocation)
  | .getting _ _, none => some (c.raise .missingLocation)
  | _, _ => none

/-- What is done with a response. -/
def respond : Response → Option Call
  | .redirect location => c.redirected hub urljoin location
  | .success => c.pending.map fun _ ↦ { c with pc := .returned }
  | .error => c.pending.map fun _ ↦ c.raise .web
  | .failed => c.pending.map fun _ ↦ c.raise .web

end Call

/-- What happens next. -/
inductive Label
  /-- The call constructs its URL. -/
  | begin
  /-- `_find_lab_base_url` returns. -/
  | foundLab (b : BaseUrl)
  | labNotFound
  /-- Another call of the client records the base URL of the lab. -/
  | record (b : BaseUrl)
  | respond (r : Response)
  deriving DecidableEq

/-- One step of a call and its environment. -/
def Call.step (hub : BaseUrl) (urljoin : List Char → List Char → List Char) (c : Call) :
    Label → Option Call
  | .begin =>
    match c.pc with
    | .urlFor => some (c.begin hub)
    | _ => none
  | .foundLab b =>
    match c.pc with
    | .findLab => some ({ c with lab := some b }.sendFirst (urlBelow b c.route))
    | _ => none
  | .labNotFound =>
    match c.pc with
    | .findLab => some (c.raise .noLab)
    | _ => none
  | .record b => some { c with lab := some b }
  | .respond r => c.respond hub urljoin r

/-- A run of one call. -/
abbrev Run (hub : BaseUrl) (urljoin : List Char → List Char → List Char) (method : Method)
    (route : List Char) (lab : Option BaseUrl) :=
  Trace (Call.step hub urljoin) { method := method, route := route, lab := lab }

/-- What replaying labels shows of the run that they make. -/
theorem exists_run (hub : BaseUrl) (urljoin : List Char → List Char → List Char) (method : Method)
    (route : List Char) (lab : Option BaseUrl) (labels : List Label)
    (P : List (Transition Call Label) → Call → Prop) [∀ τ c, Decidable (P τ c)]
    (h : (replay (Call.step hub urljoin) { method := method, route := route, lab := lab }
      labels).any (fun r ↦ decide (P r.1 r.2)) = true) :
    ∃ τ c, Run hub urljoin method route lab τ c ∧ P τ c :=
  exists_of_replay h

end Nublado.Client
