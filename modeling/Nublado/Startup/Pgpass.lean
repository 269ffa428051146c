import Mathlib.Data.List.SplitOn
import Mathlib.Data.List.DropRight
import Nublado.Foundations.FirstMatch

/-!
# Password files

The format of password files: a line has five fields with colons between them, four that say which
connections it is for and the password. A field that is `*` stands for any value, and a backslash takes
the character behind it as it is. Lines that begin with `#` are comments. The first line that matches a
connection gives its password.
-/

namespace Nublado.Startup

/-- What a connection is found by. -/
inductive Field
  | host | port | database | user
  deriving DecidableEq

instance : Fintype Field where
  elems := {.host, .port, .database, .user}
  complete f := by cases f <;> decide

/-- A concrete connection. -/
abbrev Connection := Field → List Char

/-- A line of a password file: the connections that it is for, and the password. -/
abbrev Rule := Pattern Field (List Char) × List Char

namespace Pgpass

/-- Read a field, and what follows the colon behind it if there is one. -/
@[grind =] def takeField : List Char → List Char × Option (List Char)
  | [] => ([], none)
  | ':' :: l => ([], some l)
  | '\\' :: c :: l => (c :: (takeField l).1, (takeField l).2)
  | c :: l => (c :: (takeField l).1, (takeField l).2)

/-- Read a field that stands for any value or for one, and what follows it. -/
@[grind =] def takePattern : List Char → Option (Option (List Char) × List Char)
  | '*' :: ':' :: l => some (none, l)
  | l => (takeField l).2.map fun rest ↦ (some (takeField l).1, rest)

/-- The pattern of four fields. -/
@[grind =] def pattern (host port database user : Option (List Char)) : Pattern Field (List Char)
  | .host => host
  | .port => port
  | .database => database
  | .user => user

/-- Read a line, unless it is a comment or has less than five fields. -/
@[grind =] def parseLine (line : List Char) : Option Rule :=
  if line.head? = some '#' then none
  else
    (takePattern line).bind fun host ↦ (takePattern host.2).bind fun port ↦
      (takePattern port.2).bind fun database ↦ (takePattern database.2).map fun user ↦
        (pattern host.1 port.1 database.1 user.1, (takeField user.2).1)

/-- The lines of a file, without newlines and carriage returns at their ends. -/
def fileLines (file : List Char) : List (List Char) :=
  (file.splitOn '\n').map fun line ↦ line.rdropWhile (· = '\r')

/-- What a file says, line by line. -/
def rules (file : List Char) : List Rule := (fileLines file).filterMap parseLine

/-- The password for a connection, if a line of the file matches it. -/
def lookup (file : List Char) (connection : Connection) : Option (List Char) :=
  firstMatch (rules file) connection

end Pgpass

end Nublado.Startup
