import Nublado.Purger.Plan

/-!
# Planning with files that cannot be read

The same scan as in `makePlan`, with an operating system that may refuse the status of a file.

`StatFailures` says which files it refuses, and how: a file is the same file by whatever path it is
reached, and so it is given by its location. A path that is a symbolic link is found to be one before
its status is asked for.
-/

namespace Nublado.Purger

open Images (Datetime Timedelta)

/-- The errors of `path.stat()` that the purger has a handler for. -/
inductive StatError
  | fileNotFound
  | permission
  deriving DecidableEq

/-- The files whose status is refused, by location. -/
abbrev StatFailures := List String → Option StatError

variable (fails : StatFailures)

/-- How the status of the file that a path leads to is refused. -/
def statFailure (fs : FileSystem Stat) (path : Path) : Option StatError :=
  match fs.resolve path with
  | .ok loc => fails loc
  | .error _ => none

/-- `_check_file`. After the handler for `PermissionError` the result of the call is used, which there
is none of. -/
def checkUnreadable (fs : FileSystem Stat) (path : Path) (policy : DirectoryPolicy)
    (when : Datetime) : Except PurgerError (Option FileRecord) :=
  match fs.lstat path, statFailure fails fs path with
  | .ok (.symlink _), _ => .ok none
  | _, some .fileNotFound => .ok none
  | _, some .permission => .error .unboundLocalError
  | _, none => checkFile fs path policy when

/-- Consider one policy directory. -/
def scanUnreadable (fs : FileSystem Stat) (policy : Policy) (when : Datetime) (scan : Scan)
    (consider : Path) : Except PurgerError Scan := do
  let currentPolicy ← getDirectoryPolicy consider policy
  let purge ← (fs.walk consider).foldlM (fun purge visit ↦
    if checkVisited visit.dirpath scan.visited then .ok purge
    else collect (fun file ↦ checkUnreadable fails fs (visit.dirpath.child file) currentPolicy when)
      purge visit.filenames) scan.purge
  .ok ⟨consider :: scan.visited, purge⟩

/-- Scan our directories and assemble a plan. -/
def planUnreadable (config : Config) (policy : Policy) (now : Datetime) (fs : FileSystem Stat) :
    Except PurgerError Plan := do
  let when ← planTime config now
  let scan ← policy.getDirectories.reverse.foldlM (scanUnreadable fails fs policy when) {}
  .ok ⟨scan.visited, scan.purge⟩

/-- A file that is not refused is checked as before. -/
theorem checkUnreadable_of_none {fs : FileSystem Stat} {path : Path}
    (h : statFailure fails fs path = none) (policy : DirectoryPolicy) (when : Datetime) :
    checkUnreadable fails fs path policy when = checkFile fs path policy when := by
  unfold checkUnreadable checkFile
  rw [h]
  rcases fs.lstat path with e | _ | _ | _ <;> rfl

/-- **Where nothing is refused** this is the scan of `makePlan`. -/
theorem planUnreadable_none (config : Config) (policy : Policy) (now : Datetime)
    (fs : FileSystem Stat) :
    planUnreadable (fun _ ↦ none) config policy now fs = makePlan config policy now fs := by
  have hnone : ∀ path, statFailure (fun _ ↦ none) fs path = none := by
    intro path
    unfold statFailure
    split <;> rfl
  unfold planUnreadable makePlan scanUnreadable scanDirectory checkFiles
  simp only [checkUnreadable_of_none _ (hnone _)]

end Nublado.Purger
