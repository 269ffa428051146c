import Nublado.Foundations.Dict
import Nublado.Foundations.Heap
import Nublado.Foundations.Trace

/-!
# The Docker API client

`DockerStorageClient` with any number of calls of `get_image_digest`, `list_tags` and `delete_image`
on it, and the registries that it talks to.

## The client

All calls share the cache of authorization headers by registry. A `Call` is one call with the
program point it has reached: it waits for the answer to a request, or it has been answered and waits
for its turn to run, or it waits for a bearer token. Everything it does when it runs, up to its next
request, is one step.

## The registries

* A registry answers 401 exactly to requests whose `Authorization` header it does not accept at that
  moment. It accepts the configured credentials, and the bearer tokens it has issued until they
  expire.
* A token does not expire between the moment it is obtained and the retry of the request it was
  obtained for.
* Calls are made for registries with configured credentials.
* Otherwise the answers, and the challenge of a 401 in particular, are the environment's choice.

Of a response only what the client reads is kept: the digest in its headers, the tags in its body and
the URL of the next page that its `Link` header leads to, as the libraries that read them return it.
-/

namespace Nublado.Docker

/-! ### Credentials -/

/-- Credentials for one Docker API server, with the text they have in an `Authorization` header. -/
structure DockerCredentials where
  username : String
  password : String
  authorization : String
  deriving DecidableEq

/-- Credentials by host or domain. -/
abbrev DockerCredentialStore := List (String × DockerCredentials)

/-- The credentials for a host or else for the first parent domain that there are some for. -/
def DockerCredentialStore.get (store : DockerCredentialStore) (host : String) :
    Option DockerCredentials :=
  match store.lookup host with
  | some credentials => some credentials
  | none => (store.find? fun p ↦ ('.' :: p.1.toList).isSuffixOf host.toList).map Prod.snd

/-! ### Challenges -/

/-- Why a call cannot authenticate. -/
inductive AuthError
  /-- There is an authorization for the registry, but a request was rejected; with what the rejected
  request carried. -/
  | rejected (host : String) (carried : Option String)
  | noCredentials (host : String)
  | noChallenge (host : String)
  /-- The challenge or one of its parameters is not of the expected form. -/
  | malformedChallenge
  | unknownChallenge (type : List Char)
  /-- A retried request was rejected. -/
  | stillUnauthorized
  deriving DecidableEq

/-- What a challenge asks for. -/
inductive Challenge
  | basic
  | bearer (realm : List Char) (params : List (List Char × List Char))
  deriving DecidableEq

/-- Split a challenge at the first whitespace. Both parts must be there. -/
def splitChallenge (text : List Char) : Option (List Char × List Char) :=
  let text := text.dropWhile Char.isWhitespace
  let type := text.takeWhile fun c ↦ !c.isWhitespace
  let params := (text.dropWhile fun c ↦ !c.isWhitespace).dropWhile Char.isWhitespace
  if type = [] ∨ params = [] then none else some (type, params)

/-- One parameter of a bearer challenge, without quotation marks. -/
def parseParam (param : List Char) : Option (List Char × List Char) :=
  match param.dropWhile (· ≠ '=') with
  | [] => none
  | _ :: value => some (param.takeWhile (· ≠ '='), value.filter (· ≠ '"'))

/-- The parameters of a bearer challenge; the last of several values of one key counts. -/
def parseBearer (params : List Char) : Except AuthError Challenge :=
  match (params.splitOn ',').mapM parseParam with
  | none => .error .malformedChallenge
  | some params =>
    match params.reverse.lookup "realm".toList with
    | none => .error .malformedChallenge
    | some realm => .ok (.bearer realm params)

/-- What the `WWW-Authenticate` header of a registry asks for. -/
def readChallenge (host : String) (challenge : Option (List Char)) : Except AuthError Challenge :=
  match challenge with
  | none | some [] => .error (.noChallenge host)
  | some text =>
    match splitChallenge text with
    | none => .error .malformedChallenge
    | some (type, params) =>
      let type := type.map Char.toLower
      if type = "basic".toList then .ok .basic
      else if type = "bearer".toList then parseBearer params
      else .error (.unknownChallenge type)

/-! ### Calls -/

/-- Registry and repository. -/
structure DockerSource where
  registry : String
  repository : String
  deriving DecidableEq

/-- The URL of a route of the Docker v2 API. -/
def DockerSource.urlFor (config : DockerSource) (route : String) : String :=
  s!"https://{config.registry}/v2/{config.repository}/{route}"

/-- The methods of the client. -/
inductive Operation
  | getImageDigest (tag : String)
  | listTags
  | deleteImage (digest : String)
  deriving DecidableEq

/-- The URL of the first request. -/
def Operation.url (config : DockerSource) : Operation → String
  | .getImageDigest tag => config.urlFor s!"manifests/{tag}"
  | .listTags => config.urlFor "tags/list"
  | .deleteImage digest => config.urlFor s!"manifests/{digest}"

/-- What the client reads from a successful response. -/
structure Payload where
  /-- The digest in the headers. -/
  digest : Option String := none
  /-- The tags in the body, if it has the expected form. -/
  tags : Option (List String) := none
  /-- The URL of the next page. -/
  nextUrl : Option String := none
  deriving DecidableEq

/-- The answer to a request. -/
inductive Answer
  | unauthorized (challenge : Option (List Char))
  | success (payload : Payload)
  /-- Another error status. -/
  | error (status : ℕ)
  /-- No response. -/
  | failed
  deriving DecidableEq

/-- Whether it is a 401. -/
def Answer.isUnauthorized : Answer → Bool
  | .unauthorized _ => true
  | _ => false

/-- The exceptions a call ends with. The first is what authentication is to blame for. -/
inductive CallError
  | auth (e : AuthError)
  /-- Any other error status, no response, or no token. -/
  | http
  /-- A response is not of the expected form. -/
  | parse
  | invalidUrl (message : String) (url nextUrl : String)
  deriving DecidableEq

/-- What a call returns. -/
inductive CallResult
  | digest (digest : String)
  | tags (tags : List String)
  | deleted
  deriving DecidableEq

/-- Whether a request is the retry after an authentication. -/
inductive Attempt
  | first | retry
  deriving DecidableEq

/-- Program points of a call. -/
inductive CallPc
  /-- Waiting for the answer to a request. -/
  | requested (attempt : Attempt)
  /-- The request has been answered. -/
  | answered (attempt : Attempt) (answer : Answer)
  /-- Waiting for a bearer token. -/
  | bearerToken (realm : List Char) (params : List (List Char × List Char))
  | returned (result : CallResult)
  | raised (e : CallError)
  deriving DecidableEq

/-- One call. -/
structure Call where
  operation : Operation
  config : DockerSource
  pc : CallPc
  url : String
  /-- The `Authorization` entry of `headers`, which the requests carry. -/
  headers : Option String
  seenUrls : List String := []
  allTags : List String := []
  deriving DecidableEq

instance : Inhabited Call :=
  ⟨⟨.listTags, ⟨"", ""⟩, .raised .parse, "", none, [], []⟩⟩

namespace Call

variable (c : Call)

/-- End with an exception. -/
def raise (e : CallError) : Call := { c with pc := .raised e }

/-- Send a request. -/
def request (attempt : Attempt) : Call := { c with pc := .requested attempt }

/-- One page of tags: the tags are added, and the next page is requested unless it was seen or does
not belong to the registry. -/
def takePage (payload : Payload) : Call :=
  match payload.tags with
  | none => c.raise .parse
  | some tags =>
    let c := { c with allTags := c.allTags ++ tags }
    match payload.nextUrl with
    | none => { c with pc := .returned (.tags c.allTags) }
    | some nextUrl =>
      if ("https://" ++ c.config.registry ++ "/").toList.isPrefixOf nextUrl.toList then
        if nextUrl ∈ c.seenUrls then
          c.raise (.invalidUrl "Repeated tag page URL" c.url nextUrl)
        else { c with url := nextUrl, seenUrls := c.seenUrls ++ [nextUrl] }.request .first
      else
        c.raise (.invalidUrl s!"Docker Link URL not relative to {c.config.registry}" c.url nextUrl)

/-- What is done with a successful response. -/
def succeed (payload : Payload) : Call :=
  match c.operation with
  | .getImageDigest _ =>
    match payload.digest with
    | some digest => { c with pc := .returned (.digest digest) }
    | none => c.raise .parse
  | .listTags => c.takePage payload
  | .deleteImage _ => { c with pc := .returned .deleted }

end Call

/-! ### The client and its registries -/

/-- The client, its calls and what the registries accept. -/
structure DockerStorageClient where
  /-- Cached authorization headers by registry. -/
  authorization : String → Option String := fun _ ↦ none
  calls : Heap Call := .empty
  /-- The bearer tokens that registries have issued and that have not expired, as headers. -/
  issued : List (String × String) := []

/-- The header of a bearer token. -/
def bearer (token : String) : String := s!"Bearer {token}"

namespace DockerStorageClient

variable (credentials : DockerCredentialStore) (s : DockerStorageClient)

/-- Whether a registry accepts a header at present. -/
def accepts (host : String) : Option String → Bool
  | none => false
  | some header => (credentials.get host).any (fun c ↦ c.authorization = header) ||
    s.issued.contains (host, header)

/-- Write a call back. -/
def put (i : ℕ) (c : Call) : DockerStorageClient := { s with calls := s.calls.modify i fun _ ↦ c }

variable {s} in
/-- A state that differs in one call. -/
theorem calls_put_self (i : ℕ) (c : Call) : (s.put i c).calls i = c := if_pos rfl

variable {s} in
theorem calls_put_of_ne {i j : ℕ} (h : j ≠ i) (c : Call) : (s.put i c).calls j = s.calls j :=
  if_neg h

/-- Store an authorization, and retry the request of the call with it. -/
def authorize (i : ℕ) (header : String) : DockerStorageClient :=
  let host := (s.calls i).config.registry
  { s with authorization := Function.update s.authorization host (some header) }.put i
    ({ s.calls i with headers := some header }.request .retry)

/-- `_authenticate`, up to its end or to the request for a bearer token. -/
def authenticate (i : ℕ) (challenge : Option (List Char)) : DockerStorageClient :=
  let c := s.calls i
  let host := c.config.registry
  if (s.authorization host).isSome then s.put i (c.raise (.auth (.rejected host c.headers)))
  else
    match credentials.get host with
    | none => s.put i (c.raise (.auth (.noCredentials host)))
    | some known =>
      match readChallenge host challenge with
      | .error e => s.put i (c.raise (.auth e))
      | .ok .basic => s.authorize i known.authorization
      | .ok (.bearer realm params) => s.put i { c with pc := .bearerToken realm params }

/-- A new call, with its first request. -/
def begin (operation : Operation) (config : DockerSource) : DockerStorageClient :=
  let url := operation.url config
  { s with calls := s.calls.alloc {
      operation := operation
      config := config
      pc := .requested .first
      url := url
      headers := s.authorization config.registry
      seenUrls := [url] } }

/-- A call that has been answered runs. -/
def run (i : ℕ) : Option DockerStorageClient :=
  let c := s.calls i
  match c.pc with
  | .answered .first (.unauthorized challenge) => some (s.authenticate credentials i challenge)
  | .answered .retry (.unauthorized _) => some (s.put i (c.raise (.auth .stillUnauthorized)))
  | .answered _ (.success payload) => some (s.put i (c.succeed payload))
  | .answered _ (.error _) => some (s.put i (c.raise .http))
  | .answered _ .failed => some (s.put i (c.raise .http))
  | _ => none

end DockerStorageClient

/-- What happens next. -/
inductive Label
  | begin (operation : Operation) (config : DockerSource)
  /-- A registry answers the request of a call. -/
  | serve (i : ℕ) (answer : Answer)
  | run (i : ℕ)
  /-- The request for a token ends, with a token or without. -/
  | token (i : ℕ) (token : Option String)
  /-- A registry no longer accepts a token. -/
  | expire (host token : String)
  deriving DecidableEq

namespace DockerStorageClient

/-- One step of the client and its registries. -/
def step (credentials : DockerCredentialStore) (s : DockerStorageClient) :
    Label → Option DockerStorageClient
  | .begin operation config =>
    if (credentials.get config.registry).isSome then some (s.begin operation config) else none
  | .serve i answer =>
    let c := s.calls i
    match c.pc with
    | .requested attempt =>
      if i < s.calls.size ∧
          answer.isUnauthorized = !s.accepts credentials c.config.registry c.headers then
        some (s.put i { c with pc := .answered attempt answer })
      else none
    | _ => none
  | .run i => if i < s.calls.size then s.run credentials i else none
  | .token i token =>
    let c := s.calls i
    match c.pc with
    | .bearerToken _ _ =>
      if i < s.calls.size then
        match token with
        | none => some (s.put i (c.raise .http))
        | some token =>
          some ({ s with issued := (c.config.registry, bearer token) :: s.issued }.authorize i
            (bearer token))
      else none
    | _ => none
  | .expire host token =>
    -- no request that was retried with this token is still to be answered
    if (List.range s.calls.size).all fun i ↦ (s.calls i).pc ≠ .requested .retry ||
        (s.calls i).config.registry ≠ host || (s.calls i).headers ≠ some (bearer token) then
      some { s with issued := s.issued.filter fun p ↦ p ≠ (host, bearer token) }
    else none

end DockerStorageClient

/-- A run of a client. -/
abbrev Run (credentials : DockerCredentialStore) := Trace (DockerStorageClient.step credentials) {}

/-- What replaying labels shows of the run that they make. -/
theorem exists_run (credentials : DockerCredentialStore) (labels : List Label)
    (P : List (Transition DockerStorageClient Label) → DockerStorageClient → Prop)
    [∀ τ s, Decidable (P τ s)]
    (h : (replay (DockerStorageClient.step credentials) {} labels).any
      (fun r ↦ decide (P r.1 r.2)) = true) :
    ∃ τ s, Run credentials τ s ∧ P τ s :=
  exists_of_replay h

end Nublado.Docker
