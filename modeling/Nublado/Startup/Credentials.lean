import Nublado.Foundations.Dict
import Nublado.Foundations.Numbers

/-!
# Merging Postgres credentials

`_merge_pgpass` of the `CredentialManager`, from the texts of the user's and the site's password file to
the text that the user's file then has. A user's file that was not there has been created empty. The
check of the environment, the directories and the modes of files are left out, and so are the AWS
credentials.
-/

namespace Nublado.Startup

/-- `read_text()`, which turns every end of a line into a newline. -/
@[grind =] def readText : List Char → List Char
  | '\r' :: '\n' :: l => '\n' :: readText l
  | '\r' :: l => '\n' :: readText l
  | c :: l => c :: readText l
  | [] => []

/-- What `splitlines()` ends lines with. Carriage returns and newlines in a row are one end of a line;
there are no carriage returns in a text that was read. -/
def isLineBoundary (c : Char) : Bool :=
  decide (c.toNat ∈ [0xa, 0xb, 0xc, 0xd, 0x1c, 0x1d, 0x1e, 0x85, 0x2028, 0x2029])

/-- The first line and the others, with a character in front. -/
@[grind =] def consLine (c : Char) : List (List Char) → List (List Char)
  | [] => [[c]]
  | line :: lines => (c :: line) :: lines

/-- `splitlines()` -/
@[grind =] def splitlines : List Char → List (List Char)
  | [] => []
  | c :: l => if isLineBoundary c then [] :: splitlines l else consLine c (splitlines l)

/-- `passwd.rstrip()` -/
def rstrip (l : List Char) : List Char := l.rdropWhile isSpace

/-- The connection and the password of a line, before and behind its last colon; none if it has no
colon. -/
@[grind =] def splitCredential (line : List Char) : Option (String × String) :=
  if ':' ∈ line then
    some (String.ofList (line.rdropWhile (· ≠ ':')).dropLast,
      String.ofList (rstrip (line.rtakeWhile (· ≠ ':'))))
  else none

/-- The connections and passwords of a file, in the order of its lines. -/
@[grind =] def credentials (file : List Char) : List (String × String) :=
  (splitlines (readText file)).filterMap splitCredential

/-- The line of a connection and its password. -/
def credentialLine (connection passwd : String) : List Char :=
  connection.toList ++ ':' :: passwd.toList

/-- `CredentialManager._merge_pgpass`: the user's file is updated from the container-supplied one. -/
@[grind =] def mergePgpass (homePgpass roPgpass : List Char) : List Char :=
  let config := dictUpdate [] (credentials homePgpass)
  let config := dictUpdate config (credentials roPgpass)
  config.flatMap fun p ↦ credentialLine p.1 p.2 ++ ['\n']

end Nublado.Startup
