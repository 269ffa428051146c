import Mathlib.Data.List.TakeWhile
import Nublado.Client.Http

/-!
# Finding the base URL of the lab

`_find_lab_base_url` of the HTTP client. It requests the page of the user's lab below the base URL of
JupyterHub and follows the redirects, as `_get` does, except that it looks at where they lead: the
base URL of the lab is that of JupyterHub, with the host of the last redirect whose host name starts
with the name of the user.

A `Discovery` is one call with the program point it has reached and the URLs it has requested. As for
`get` and `post`, the servers answer as they like, `hub` is what `_hub_base_url` returns, and nothing
is assumed of `urljoin`. Host names are taken to be of ASCII characters, and locations for which
`urlparse` raises an exception are left out.
-/

namespace Nublado.Client

/-! ### The parts of a location -/

/-- The characters of a scheme. -/
def isSchemeChar (c : Char) : Bool := c.isAlphanum || c = '+' || c = '-' || c = '.'

/-- A URL without control characters and blanks in front, and without tabs and line breaks. -/
def cleanUrl (url : List Char) : List Char :=
  (url.dropWhile fun c ↦ c ≤ ' ').filter fun c ↦ !(c = '\t' || c = '\r' || c = '\n')

/-- What follows the scheme, or all of it if it has none. -/
def afterScheme (url : List Char) : List Char :=
  let scheme := url.takeWhile fun c ↦ c ≠ ':'
  match url.dropWhile fun c ↦ c ≠ ':' with
  | ':' :: rest =>
    if scheme.head?.any Char.isAlpha && scheme.all isSchemeChar then rest else url
  | _ => url

/-- The `netloc` of `urlparse`. -/
def netloc (url : List Char) : List Char :=
  match afterScheme (cleanUrl url) with
  | '/' :: '/' :: rest => rest.takeWhile fun c ↦ !endsAuthority c
  | _ => []

/-- The `hostname` of `urlparse`, which is empty if there is none. -/
def hostname (netloc : List Char) : List Char :=
  let hostinfo := (netloc.reverse.takeWhile fun c ↦ c ≠ '@').reverse
  let host := match hostinfo.dropWhile fun c ↦ c ≠ '[' with
    | '[' :: bracketed => bracketed.takeWhile fun c ↦ c ≠ ']'
    | _ => hostinfo.takeWhile fun c ↦ c ≠ ':'
  (host.takeWhile fun c ↦ c ≠ '%').map Char.toLower ++ host.dropWhile fun c ↦ c ≠ '%'

theorem netloc_ok (url : List Char) : ∀ c ∈ netloc url, endsAuthority c = false := by
  unfold netloc
  split
  · intro c hc
    have hstays := List.mem_takeWhile_imp hc
    simpa using hstays
  · exact fun c hc ↦ absurd hc List.not_mem_nil

/-- The base URL with the host of a location. -/
def replaceNetloc (b : BaseUrl) (location : List Char) : BaseUrl :=
  { b with authority := netloc location, authority_ok := netloc_ok location }

/-- A redirect to another host that starts with the name of the user shows where the lab is. -/
def follow (username : List Char) (b : BaseUrl) (location : List Char) : BaseUrl :=
  let new := netloc location
  if (username ++ ['.']).isPrefixOf (hostname new) then
    if b.authority ≠ new then replaceNetloc b location else b
  else b

/-! ### A call -/

/-- Program points of `_find_lab_base_url`. -/
inductive DiscoveryPc
  /-- Waiting for the response to a GET request. -/
  | following
  | found
  | raised (e : ClientError)
  deriving DecidableEq

/-- A call of `_find_lab_base_url`. -/
structure Discovery where
  /-- The base URL of the lab, as far as it has been found. -/
  base : BaseUrl
  /-- The URL that was requested last. -/
  url : List Char
  seen : List Char → ℕ
  pc : DiscoveryPc := .following
  sent : List (List Char)

/-- The route of the lab's page. -/
def labRoute (username : List Char) : List Char := "user/".toList ++ username ++ "/lab".toList

namespace Discovery

variable (hub : BaseUrl) (urljoin : List Char → List Char → List Char) (username : List Char)

/-- The first request. -/
def start : Discovery :=
  let nextUrl := urlBelow hub (labRoute username)
  { base := hub, url := nextUrl, seen := counter nextUrl, sent := [nextUrl] }

variable (d : Discovery)

/-- End with an exception. -/
def raise (e : ClientError) : Discovery := { d with pc := .raised e }

/-- A redirect is followed if its URL has not been seen twice. -/
def redirected (location : List Char) : Discovery :=
  let base := follow username d.base location
  let nextUrl := urljoin d.url location
  if checkRedirect hub (some base) nextUrl then
    if 1 < d.seen nextUrl then d.raise (.redirect "Redirect loop" nextUrl)
    else
      { base := base, url := nextUrl, sent := d.sent ++ [nextUrl],
        seen := Function.update d.seen nextUrl (d.seen nextUrl + 1) }
  else d.raise (.redirect "Unexpected redirect" nextUrl)

/-- What is done with a response. -/
def respond : Response → Discovery
  | .redirect (some location) => d.redirected hub urljoin username location
  | .redirect none => d.raise .missingLocation
  | .success => { d with pc := .found }
  | .error => d.raise .web
  | .failed => d.raise .web

/-- One step of a call. -/
def step (r : Response) : Option Discovery :=
  match d.pc with
  | .following => some (d.respond hub urljoin username r)
  | _ => none

end Discovery

end Nublado.Client
