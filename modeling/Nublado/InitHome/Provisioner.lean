import Mathlib.Algebra.Group.Nat.Defs
import Mathlib.Data.Int.Notation
import Nublado.Foundations.Trace

/-!
# Provisioning of home directories

An init container creates the user's home directory before each start of a lab, or checks the one that
is there. The source is one straight method, but it may be interrupted between any two of its system
calls, and runs for several starts may overlap. So a run is a state machine that makes **one system
call in each step**, and a `System` is one home directory with any number of runs.

* `Home` is what the file system has at the path, links followed.
* `Provisioner.call` is the next system call of a run, with the source's messages.
* `Label.fail` covers a call that raises `OSError` as well as a container that is killed.
* `Label.use` is the user, who does what they like in a directory once it is theirs. Nobody else
  writes in it.

Who owns a new directory until `chown` gives it to the user depends on the container and on the parent
directory, and is a parameter. Of the mode, the permission bits are kept.
-/

namespace Nublado.InitHome

/-! ### The home directory -/

/-- The user and the group that a file belongs to. -/
structure Owner where
  uid : ℕ
  gid : ℕ
  deriving DecidableEq

/-- A directory. -/
structure Directory where
  owner : Owner
  mode : ℕ
  entries : List String
  deriving DecidableEq

/-- What is at the path of a home directory. -/
inductive Home
  | absent
  /-- A link that leads nowhere. -/
  | dangling
  /-- Something that is not a directory. -/
  | other
  | directory (d : Directory)
  deriving DecidableEq

namespace Home

/-- `self._home.exists()`, which follows links -/
def pathExists : Home → Bool
  | absent | dangling => false
  | other | directory _ => true

/-- `self._home.is_dir()` -/
def isDir : Home → Bool
  | directory _ => true
  | absent | dangling | other => false

end Home

/-! ### The provisioner -/

/-- Maximum UID or GID. -/
def maxId : ℕ := 2 ^ 32 - 2

/-- Validate that a UID or GID is within range. -/
def validate (ugid : ℤ) : Except String {id : ℕ // id ≤ maxId} :=
  if ugid < 0 then .error s!"UID or GID must be nonnegative, not {ugid}"
  else if h : ugid.toNat ≤ maxId then .ok ⟨ugid.toNat, h⟩
  else .error s!"UID or GID out of range ({ugid} > {maxId})"

/-- Create the user's home directory if it doesn't exist. -/
structure Provisioner where
  home : String
  uid : {id : ℕ // id ≤ maxId}
  gid : {id : ℕ // id ≤ maxId}

/-- Why a run failed. -/
inductive ProvisionError
  /-- The home directory already exists but is not acceptable. -/
  | invalidHome (message : String)
  | osError
  deriving DecidableEq

inductive Outcome
  | returned
  | raised (error : ProvisionError)
  deriving DecidableEq

/-- The system call that a run makes next, with what it remembers of `stat`. -/
inductive Pc
  | pathExists
  | mkdir
  /-- `chown` of the directory that was made. -/
  | chownNew
  | isDir
  | stat
  | iterdir (owner : Owner) (mode : ℕ)
  /-- `chown` of a directory that was found empty. -/
  | chown (mode : ℕ)
  | done (outcome : Outcome)
  deriving DecidableEq

/-- One run of `provision`, with the warnings that it has logged. -/
structure ProvisionRun where
  pc : Pc
  warnings : List String
  deriving DecidableEq

namespace ProvisionRun

/-- A run that has just begun. -/
def fresh : ProvisionRun := ⟨.pathExists, []⟩

variable (r : ProvisionRun)

def goto (pc : Pc) : ProvisionRun := { r with pc }

def raise (error : ProvisionError) : ProvisionRun := r.goto (.done (.raised error))

def warn (message : String) : ProvisionRun := { r with warnings := r.warnings ++ [message] }

end ProvisionRun

namespace Provisioner

/-- `Provisioner(home, uid, gid)` -/
def init (home : String) (uid gid : ℤ) : Except String Provisioner :=
  (validate uid).bind fun uid ↦ (validate gid).map fun gid ↦ ⟨home, uid, gid⟩

variable (p : Provisioner)

/-- Whose home directory it is. -/
def owner : Owner := ⟨p.uid, p.gid⟩

def notDirectory : String := s!"{p.home} exists but is not a directory"

def wrongOwner (owner : Owner) : String :=
  s!"{p.home} is owned by {owner.uid}:{owner.gid}, not {p.uid.val}:{p.gid.val}"

def unexpectedMode (mode : ℕ) : String :=
  s!"{p.home} has unexpected permissions: 0" ++ String.ofList (Nat.toDigits 8 mode) ++ " != 0700"

/-- The last lines, which only care about the permission bits. -/
@[grind =] def checkMode (mode : ℕ) (r : ProvisionRun) : ProvisionRun :=
  let mode := mode &&& 0o777
  if mode ≠ 0o700 then (r.warn (p.unexpectedMode mode)).goto (.done .returned)
  else r.goto (.done .returned)

/-- `os.chown(self._home, self._uid, self._gid)`, with what comes after it. Of what is not a directory,
the owner is not followed. -/
@[grind =] def chown (home : Home) (r : ProvisionRun) (after : ProvisionRun) : Home × ProvisionRun :=
  match home with
  | .absent | .dangling => (home, r.raise .osError)
  | .other => (home, after)
  | .directory d => (.directory { d with owner := p.owner }, after)

/-- The next system call of a run and what it makes of it. -/
@[grind =] def call (created : Owner) (home : Home) (r : ProvisionRun) : Option (Home × ProvisionRun) :=
  match r.pc with
  | .pathExists => some (home, r.goto (if home.pathExists then .isDir else .mkdir))
  | .mkdir =>
    match home with
    -- The umask leaves the permissions to the owner.
    | .absent => some (.directory ⟨created, 0o700, []⟩, r.goto .chownNew)
    | .dangling | .other | .directory _ => some (home, r.raise .osError)
  | .chownNew => some (p.chown home r (r.goto (.done .returned)))
  | .isDir =>
    some (home, if home.isDir then r.goto .stat else r.raise (.invalidHome p.notDirectory))
  | .stat =>
    match home with
    | .directory d =>
      some (home, if d.owner ≠ p.owner then r.goto (.iterdir d.owner d.mode) else p.checkMode d.mode r)
    | .absent | .dangling | .other => some (home, r.raise .osError)
  | .iterdir owner mode =>
    match home with
    | .directory d =>
      some (home, if d.entries ≠ [] then
          r.raise (.invalidHome (p.wrongOwner owner ++ " and is not empty"))
        else (r.warn (p.wrongOwner owner ++ " but is empty, resetting ownership")).goto (.chown mode))
    | .absent | .dangling | .other => some (home, r.raise .osError)
  | .chown mode => some (p.chown home r (p.checkMode mode r))
  | .done _ => none

/-! ### Any number of runs -/

/-- A home directory and the runs that were begun on it. -/
structure System where
  home : Home
  runs : List ProvisionRun := []
  deriving DecidableEq

/-- What happens next. -/
inductive Label
  | begin
  /-- A run makes its next system call. -/
  | call (run : ℕ)
  /-- The call fails, or the run is killed. -/
  | fail (run : ℕ)
  /-- The user changes the contents of the directory and its mode. -/
  | use (entries : List String) (mode : ℕ)
  deriving DecidableEq

/-- One step of the system. -/
@[grind =] def step (created : Owner) (s : System) : Label → Option System
  | .begin => some { s with runs := s.runs ++ [.fresh] }
  | .call i =>
    s.runs[i]?.bind fun r ↦ (p.call created s.home r).map fun next ↦
      { home := next.1, runs := s.runs.set i next.2 }
  | .fail i =>
    s.runs[i]?.bind fun r ↦
      match r.pc with
      | .done _ => none
      | _ => some { s with runs := s.runs.set i (r.raise .osError) }
  | .use entries mode =>
    match s.home with
    | .directory d =>
      if d.owner = p.owner then some { s with home := .directory { d with entries, mode } } else none
    | .absent | .dangling | .other => none

/-- The home directory is the user's. -/
def Owns (home : Home) : Prop := ∃ d, home = .directory d ∧ d.owner = p.owner

/-- What the provisioner accepts: nothing, a directory of the user's, or an empty one. -/
def Acceptable (home : Home) : Prop :=
  home = .absent ∨ ∃ d, home = .directory d ∧ (d.owner = p.owner ∨ d.entries = [])

end Provisioner

end Nublado.InitHome
