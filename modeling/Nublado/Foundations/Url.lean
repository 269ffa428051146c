import Mathlib.Data.List.Infix

/-!
# URLs and what lies below them

A URL is split at the first `:`, `/`, `?` and `#`, as the generic syntax has it, into its scheme, its
authority and its path; query and fragment play no part here. `Url.parse` is that split, `origin` is
the scheme, host and port it names, and `segments` are the components of its path after the `.` and
`..` segments have been resolved, as a client does before it sends a request.

`BaseUrl` is a URL without query, fragment and trailing slash, and `Within b u` says that the URL `u`
has the origin of `b` and a path below that of `b`, at a boundary between two components.

## Text and structure

A program that compares URLs as texts asks whether `u` is `b.text ++ rest`. What that means is
`within_append_iff`:

* if `b` has a path, the origin is that of `b` whatever follows, but the last component of the path
  goes on with what follows, up to the next `/`, `?` or `#`;
* if `b` has no path, what follows belongs to the authority, up to the next `/`, `?` or `#`, and so
  may name another host or port.

`keeps_of_boundary` is the simple case, in which nothing of the kind follows.
-/

namespace Nublado

/-- The characters that end an authority. -/
def endsAuthority (c : Char) : Bool := c = '/' || c = '?' || c = '#'

/-- The characters that end a path. -/
def endsPath (c : Char) : Bool := c = '?' || c = '#'

/-- A URL with an authority, without query and fragment. -/
structure Url where
  scheme : List Char
  authority : List Char
  path : List Char
  deriving DecidableEq

/-! ### Splitting a text -/

/-- Split the text of a URL; a text without an authority is no URL that a request can be sent to. -/
def Url.parse (u : List Char) : Option Url :=
  let ends (c : Char) : Bool := c = ':' || endsAuthority c
  match u.dropWhile fun c ↦ !ends c with
  | ':' :: '/' :: '/' :: rest =>
    some {
      scheme := u.takeWhile fun c ↦ !ends c
      authority := rest.takeWhile fun c ↦ !endsAuthority c
      path := (rest.dropWhile fun c ↦ !endsAuthority c).takeWhile fun c ↦ !endsPath c }
  | _ => none

/-! ### Origins -/

/-- The port that a scheme implies. -/
def defaultPort (scheme : List Char) : Option ℕ :=
  if scheme = "https".toList then some 443
  else if scheme = "http".toList then some 80
  else none

/-- The host and the text of the port of an authority: user information ends at the last `@`, and a
host in brackets may contain colons. -/
def hostAndPort (authority : List Char) : List Char × List Char :=
  let address := (authority.reverse.takeWhile (· ≠ '@')).reverse
  if address.head? = some '[' then
    (address.takeWhile (· ≠ ']'), (address.dropWhile (· ≠ ']')).drop 1)
  else (address.takeWhile (· ≠ ':'), address.dropWhile (· ≠ ':'))

/-- The scheme, host and port that a scheme and an authority name. -/
def originOf (scheme authority : List Char) : List Char × List Char × Option ℕ :=
  let scheme := scheme.map Char.toLower
  let (host, port) := hostAndPort authority
  (scheme, host.map Char.toLower,
    if port.drop 1 = [] then defaultPort scheme else (String.ofList (port.drop 1)).toNat?)

def Url.origin (u : Url) : List Char × List Char × Option ℕ := originOf u.scheme u.authority

/-! ### Path segments -/

/-- One more component, with dot segments resolved: `..` takes back the last component, but not the
root. -/
def resolveSegment (output : List (List Char)) (component : List Char) : List (List Char) :=
  if component = ['.'] then output
  else if component = ['.', '.'] then
    if output = [] ∨ output = [[]] then output else output.dropLast
  else output ++ [component]

/-- The components of a path, with dot segments resolved. -/
def pathSegments (path : List Char) : List (List Char) :=
  (path.splitOn '/').foldl resolveSegment []

/-! ### Base URLs -/

/-- A URL below which others lie. -/
structure BaseUrl where
  scheme : List Char
  authority : List Char
  path : List Char
  scheme_ok : ∀ c ∈ scheme, (c = ':' || endsAuthority c) = false
  authority_ok : ∀ c ∈ authority, endsAuthority c = false
  /-- The path is empty or starts with a slash. -/
  rooted : path = [] ∨ path.head? = some '/'
  path_ok : ∀ c ∈ path, endsPath c = false
  /-- It does not end with a slash. -/
  trimmed : path.getLast? ≠ some '/'
  deriving DecidableEq

/-- The text of a base URL. -/
def BaseUrl.text (b : BaseUrl) : List Char := b.scheme ++ "://".toList ++ b.authority ++ b.path

/-- A check of all characters, which can be evaluated. -/
theorem forall_of_any_eq_false {l : List Char} {p : Char → Bool} (h : l.any p = false) :
    ∀ c ∈ l, p c = false := by
  simpa using h

/-- **Below a base URL**: the URL has the same scheme, host and port, and the components of its path
begin with those of the base URL's. -/
def Within (b : BaseUrl) (u : List Char) : Prop :=
  ∃ url, Url.parse u = some url ∧ url.origin = originOf b.scheme b.authority ∧
    pathSegments b.path <+: pathSegments url.path

instance (b : BaseUrl) (u : List Char) : Decidable (Within b u) :=
  match h : Url.parse u with
  | none => isFalse (by rintro ⟨url, hurl, -⟩; rw [h] at hurl; cases hurl)
  | some url =>
    decidable_of_iff (url.origin = originOf b.scheme b.authority ∧
      pathSegments b.path <+: pathSegments url.path) (by
        constructor
        · intro hurl
          exact ⟨url, h, hurl⟩
        · rintro ⟨url', hurl, hwithin⟩
          obtain rfl := Option.some.inj (h.symm.trans hurl)
          exact hwithin)

/-! ### Texts that go on after a base URL -/

/-- What follows, up to the next delimiter: it continues the last part of the base URL. -/
def glued (rest : List Char) : List Char := rest.takeWhile fun c ↦ !endsAuthority c

/-- The part of the path that follows. -/
def BaseUrl.pathAfter (b : BaseUrl) (rest : List Char) : List Char :=
  (if b.path = [] then rest.dropWhile fun c ↦ !endsAuthority c else rest).takeWhile
    fun c ↦ !endsPath c

/-- What follows leaves the base URL's host, port and path as they are. -/
structure BaseUrl.Keeps (b : BaseUrl) (rest : List Char) : Prop where
  /-- Without a path, what follows directly must not change what the authority names. -/
  authority : b.path = [] →
    originOf b.scheme (b.authority ++ glued rest) = originOf b.scheme b.authority
  /-- The path must go on with another component, and not lead back. -/
  path : pathSegments b.path <+: pathSegments (b.path ++ b.pathAfter rest)

instance (b : BaseUrl) (rest : List Char) : Decidable (b.Keeps rest) :=
  decidable_of_iff ((b.path = [] →
      originOf b.scheme (b.authority ++ glued rest) = originOf b.scheme b.authority) ∧
    pathSegments b.path <+: pathSegments (b.path ++ b.pathAfter rest))
    ⟨fun h ↦ ⟨h.1, h.2⟩, fun h ↦ ⟨h.authority, h.path⟩⟩

/-- The scheme is what precedes the authority. -/
theorem parse_scheme {scheme : List Char}
    (h : ∀ c ∈ scheme, (c = ':' || endsAuthority c) = false) (rest : List Char) :
    Url.parse (scheme ++ "://".toList ++ rest) = some {
      scheme := scheme
      authority := rest.takeWhile fun c ↦ !endsAuthority c
      path := (rest.dropWhile fun c ↦ !endsAuthority c).takeWhile fun c ↦ !endsPath c } := by
  have hscheme : ∀ c ∈ scheme, (!(decide (c = ':') || endsAuthority c)) = true := by
    intro c hc
    rw [h c hc]
    rfl
  unfold Url.parse
  dsimp only
  rw [List.append_assoc, List.dropWhile_append_of_pos hscheme,
    List.takeWhile_append_of_pos hscheme]
  simp [List.dropWhile_cons, List.takeWhile_cons]

/-- **The text after a base URL**: without a path it belongs to the authority at first, and otherwise
to the path. -/
theorem parse_append (b : BaseUrl) (rest : List Char) :
    Url.parse (b.text ++ rest) = some {
      scheme := b.scheme
      authority := if b.path = [] then b.authority ++ glued rest else b.authority
      path := b.path ++ b.pathAfter rest } := by
  have hauthority : ∀ c ∈ b.authority, (!endsAuthority c) = true := by
    intro c hc
    rw [b.authority_ok c hc]
    rfl
  have hpath : ∀ c ∈ b.path, (!endsPath c) = true := by
    intro c hc
    rw [b.path_ok c hc]
    rfl
  have hassoc : b.text ++ rest = b.scheme ++ "://".toList ++ (b.authority ++ (b.path ++ rest)) := by
    simp only [BaseUrl.text, List.append_assoc]
  rw [hassoc, parse_scheme b.scheme_ok, List.takeWhile_append_of_pos hauthority,
    List.dropWhile_append_of_pos hauthority]
  rcases b.rooted with hempty | hroot
  · simp only [hempty, BaseUrl.pathAfter, glued, if_pos, List.nil_append]
  · obtain ⟨tail, htail⟩ : ∃ tail, b.path = '/' :: tail := List.head?_eq_some_iff.1 hroot
    have hne : b.path ≠ [] := by rw [htail]; exact List.cons_ne_nil _ _
    have hstop : endsAuthority '/' = true := by decide
    have htake : (b.path ++ rest).takeWhile (fun c ↦ !endsAuthority c) = [] := by
      rw [htail, List.cons_append, List.takeWhile_cons, hstop]
      rfl
    have hdrop : (b.path ++ rest).dropWhile (fun c ↦ !endsAuthority c) = b.path ++ rest := by
      rw [htail, List.cons_append, List.dropWhile_cons, hstop]
      rfl
    rw [htake, hdrop, List.takeWhile_append_of_pos hpath, List.append_nil, if_neg hne,
      BaseUrl.pathAfter, if_neg hne]

/-- **Text and structure**: a text that goes on after a base URL is below it exactly when what follows
leaves host, port and path as they are. -/
theorem within_append_iff (b : BaseUrl) (rest : List Char) :
    Within b (b.text ++ rest) ↔ b.Keeps rest := by
  unfold Within
  rw [parse_append]
  constructor
  · rintro ⟨url, hurl, horigin, hpath⟩
    obtain rfl := Option.some.inj hurl
    refine ⟨fun hempty ↦ ?_, hpath⟩
    rw [Url.origin, if_pos hempty] at horigin
    exact horigin
  · intro h
    refine ⟨_, rfl, ?_, h.path⟩
    show originOf b.scheme (if b.path = [] then b.authority ++ glued rest else b.authority) = _
    split
    · next hempty => exact h.authority hempty
    · rfl

/-! ### The simple case -/

/-- Components other than `..` are added to what is there. -/
theorem prefix_foldl_resolveSegment {components : List (List Char)}
    (h : ['.', '.'] ∉ components) (output : List (List Char)) :
    output <+: components.foldl resolveSegment output := by
  induction components generalizing output with
  | nil => exact List.prefix_rfl
  | cons c components ih =>
    rw [List.mem_cons, not_or] at h
    rw [List.foldl_cons]
    refine List.IsPrefix.trans ?_ (ih h.2 _)
    unfold resolveSegment
    rw [if_neg (Ne.symm h.1)]
    split
    · exact List.prefix_rfl
    · exact List.prefix_append _ _

/-- **A new component** that starts right after the base URL, with no `..` component after it, leaves
everything as it is. -/
theorem keeps_of_boundary (b : BaseUrl) {rest : List Char}
    (h : ['.', '.'] ∉ (rest.takeWhile fun c ↦ !endsPath c).splitOn '/') :
    b.Keeps ('/' :: rest) := by
  have hstop : endsAuthority '/' = true := by decide
  have hnotPath : endsPath '/' = false := by decide
  have hafter : b.pathAfter ('/' :: rest) = '/' :: rest.takeWhile fun c ↦ !endsPath c := by
    unfold BaseUrl.pathAfter
    rw [List.dropWhile_cons, hstop]
    simp [hnotPath]
  refine ⟨fun _ ↦ ?_, ?_⟩
  · rw [glued, List.takeWhile_cons, hstop]
    simp
  · rw [hafter, pathSegments, pathSegments, List.splitOn_append_cons_self, List.foldl_append]
    exact prefix_foldl_resolveSegment h _

end Nublado
