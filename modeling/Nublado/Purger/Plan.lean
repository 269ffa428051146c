import Mathlib.Data.List.Sort
import Nublado.Foundations.FileSystem
import Nublado.Images.Models

/-!
# Planning a purge

The purger's configuration and policy, and the scan that decides which files are to be removed.

* File times are whole microseconds; those that the calendar lacks are refused as the standard library
  refuses them, and so are sums of dates that leave the calendar.
* The policy directories are considered from the one with the longest path to the one with the
  shortest. A directory found at or below one that was considered before is passed over.
-/

namespace Nublado.Purger

open Images (Datetime Timedelta)

/-! ### Policy -/

/-- How long it must have been since a file was accessed, created, or modified before it is considered
for purging; none or zero is never. -/
structure Intervals where
  accessInterval : Option Timedelta := none
  creationInterval : Option Timedelta := none
  modificationInterval : Option Timedelta := none
  deriving DecidableEq

/-- Intervals for purging large and small files. -/
structure SizedIntervals where
  large : Intervals := {}
  small : Intervals := {}
  deriving DecidableEq

/-- Policy for purging objects from a directory and its children. -/
structure DirectoryPolicy where
  path : Path
  /-- Size in bytes demarcating large from small files. -/
  threshold : ℤ
  intervals : SizedIntervals
  deriving DecidableEq

/-- Policy for purging objects across multiple directory trees. -/
structure Policy where
  directories : List DirectoryPolicy

/-- The directories specified in this policy, sorted by length, shortest first. -/
def Policy.getDirectories (policy : Policy) : List Path :=
  (policy.directories.map DirectoryPolicy.path).insertionSort fun a b ↦
    a.str.length ≤ b.str.length

/-- Configuration for the purger. -/
structure Config where
  /-- Report rather than execute plan. -/
  dryRun : Bool := false
  /-- Duration into the future to use for planning purposes. -/
  futureDuration : Option Timedelta := none

/-! ### Plans -/

/-- Whether a file is large or small. -/
inductive FileClass
  | large | small
  deriving DecidableEq

/-- Whether a file is to be purged on access, creation, or modification time grounds. -/
inductive FileReason
  | atime | ctime | mtime
  deriving DecidableEq

/-- A file to be purged, and why. -/
structure FileRecord where
  path : Path
  fileClass : FileClass
  fileReason : FileReason
  /-- Time since the appropriate timestamp. -/
  fileInterval : Timedelta
  /-- Interval at which file is marked for deletion. -/
  criterionInterval : Timedelta
  deriving DecidableEq

/-- Files to be purged, and the directories considered. -/
structure Plan where
  directories : List Path
  files : List FileRecord
  deriving DecidableEq

/-- Exceptions of the purger. -/
inductive PurgerError
  /-- A date is out of range. -/
  | dateOutOfRange
  | valueError (message : String)
  /-- The result of a call that failed is used. -/
  | unboundLocalError
  | osError (error : OSError)
  | planNotReady
  | purgeFailed (failedFiles : List (Path × OSError))
  deriving DecidableEq

/-! ### Checking files -/

/-- Status of a file: its size in bytes, and its times. -/
structure Stat where
  size : ℕ
  atime : ℤ
  ctime : ℤ
  mtime : ℤ
  deriving DecidableEq

/-- `datetime.fromtimestamp` -/
def fromTimestamp (t : ℤ) : Except PurgerError Datetime :=
  if Datetime.Exists t then .ok t else .error .dateOutOfRange

/-- Whether a time is older than the maximum. -/
def exceeds (time : Datetime) (max : Option Timedelta) (when : Datetime) :
    Except PurgerError Bool :=
  match max with
  | none | some 0 => .ok false
  | some max =>
    match time.plus max with
    | none => .error .dateOutOfRange
    | some limit => .ok (limit < when)

/-- Check a file against the intervals, in order, and record the first that is exceeded. -/
def checkIntervals (path : Path) (fileClass : FileClass) (when : Datetime) :
    List (FileReason × Datetime × Option Timedelta) → Except PurgerError (Option FileRecord)
  | [] => .ok none
  | (fileReason, time, max) :: rest => do
    if ← exceeds time max when then
      .ok (some ⟨path, fileClass, fileReason, when - time, max.getD 0⟩)
    else checkIntervals path fileClass when rest

/-- The intervals of a policy for a size. -/
def DirectoryPolicy.intervalsFor (policy : DirectoryPolicy) (size : ℕ) : Intervals × FileClass :=
  if size ≥ policy.threshold then (policy.intervals.large, .large)
  else (policy.intervals.small, .small)

/-- The times of a file with the intervals they are compared with. -/
def DirectoryPolicy.limits (policy : DirectoryPolicy) (st : Stat) :
    List (FileReason × Datetime × Option Timedelta) :=
  let ivals := (policy.intervalsFor st.size).1
  [(.atime, st.atime, ivals.accessInterval), (.ctime, st.ctime, ivals.creationInterval),
    (.mtime, st.mtime, ivals.modificationInterval)]

/-- The part of `_check_file` after the status is known. -/
@[grind =] def checkStat (path : Path) (policy : DirectoryPolicy) (when : Datetime) (st : Stat) :
    Except PurgerError (Option FileRecord) := do
  let _ ← fromTimestamp st.atime
  let _ ← fromTimestamp st.ctime
  let _ ← fromTimestamp st.mtime
  checkIntervals path (policy.intervalsFor st.size).2 when (policy.limits st)

/-- Compare a file's times against the removal criteria: if it is a match, return a record of it. -/
@[grind =] def checkFile (fs : FileSystem Stat) (path : Path) (policy : DirectoryPolicy) (when : Datetime) :
    Except PurgerError (Option FileRecord) :=
  match fs.lstat path with
  | .ok (.symlink _) => .ok none
  | _ =>
    match fs.stat path with
    | .error .fileNotFound => .ok none
    | .error .permission => .error .unboundLocalError
    | .error e => .error (.osError e)
    | .ok (.file st) => checkStat path policy when st
    -- A walk lists no directory as a file.
    | .ok _ => .ok none

/-! ### Scanning -/

/-- The policy of a directory. -/
@[grind =] def getDirectoryPolicy (path : Path) (policy : Policy) : Except PurgerError DirectoryPolicy :=
  match policy.directories.find? fun d ↦ d.path = path with
  | none => .error (.valueError s!"Policy for '{path.str}' not found")
  | some d => .ok d

/-- Whether a directory has already been handled by another, more specific policy. -/
@[grind =] def checkVisited (root : Path) (visited : List Path) : Bool :=
  visited.any fun vis ↦ vis = root ∨ vis ∈ root.parents

/-- Check one after the other, and append what is found. -/
@[grind =] def collect {α β ε : Type} (check : α → Except ε (Option β)) (acc : List β) (l : List α) :
    Except ε (List β) :=
  l.foldlM (fun acc a ↦ do
    match ← check a with
    | none => .ok acc
    | some b => .ok (acc ++ [b])) acc

/-- Check the files that one directory lists. -/
@[grind =] def checkFiles (fs : FileSystem Stat) (policy : DirectoryPolicy) (when : Datetime) (visit : Visit)
    (purge : List FileRecord) : Except PurgerError (List FileRecord) :=
  collect (fun file ↦ checkFile fs (visit.dirpath.child file) policy when) purge visit.filenames

/-- The state of the scan: the policy directories considered, and the purge list. -/
structure Scan where
  visited : List Path := []
  purge : List FileRecord := []

/-- Consider one policy directory. -/
@[grind =] def scanDirectory (fs : FileSystem Stat) (policy : Policy) (when : Datetime) (scan : Scan)
    (consider : Path) : Except PurgerError Scan := do
  let currentPolicy ← getDirectoryPolicy consider policy
  let purge ← (fs.walk consider).foldlM (fun purge visit ↦
    if checkVisited visit.dirpath scan.visited then .ok purge
    else checkFiles fs currentPolicy when visit purge) scan.purge
  .ok ⟨consider :: scan.visited, purge⟩

/-- The time for which the plan is made. -/
@[grind =] def planTime (config : Config) (now : Datetime) : Except PurgerError Datetime :=
  match config.futureDuration with
  | none | some 0 => .ok now
  | some later =>
    match now.plus later with
    | none => .error .dateOutOfRange
    | some when => .ok when

/-- Scan our directories and assemble a plan. -/
def makePlan (config : Config) (policy : Policy) (now : Datetime) (fs : FileSystem Stat) :
    Except PurgerError Plan := do
  let when ← planTime config now
  let scan ← policy.getDirectories.reverse.foldlM (scanDirectory fs policy when) {}
  .ok ⟨scan.visited, scan.purge⟩

/-- Object to plan and execute filesystem purges. -/
structure Purger where
  config : Config
  plan : Option Plan := none

/-- `Purger.plan` invalidates the current plan, and keeps the new one unless an exception is raised. -/
def Purger.makePlan (self : Purger) (policy : Policy) (now : Datetime) (fs : FileSystem Stat) :
    Purger × Except PurgerError Unit :=
  match Nublado.Purger.makePlan self.config policy now fs with
  | .error e => ({ self with plan := none }, .error e)
  | .ok plan => ({ self with plan := some plan }, .ok ())

end Nublado.Purger
