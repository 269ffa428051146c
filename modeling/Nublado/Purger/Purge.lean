import Nublado.Foundations.Comparison
import Nublado.Purger.Plan

/-!
# Carrying a plan out

`Purger.purge` on a file system: it removes the files of the plan, and then the directories below the
policy directories that are empty, except those that the policy names or that contain one it names.

* The operating system may refuse any removal, for reasons that the tree does not show: `refused` says
  with which error. Errors that the source does not catch end the run where it stands.
* The directories to be removed are a set. The order in which it is visited is not specified by the
  language; it is a parameter, `PathOrder`.
* A run returns what was removed, in order, beside its result.
-/

namespace Nublado.Purger

open Images (Datetime Timedelta)

/-- The removal of one entry. -/
inductive Removal
  | file (path : Path)
  | directory (path : Path)
  deriving DecidableEq

/-- `path.unlink()` and `path.rmdir()` -/
def remove (fs : FileSystem Stat) : Removal → Except OSError (FileSystem Stat)
  | .file path => fs.unlink path
  | .directory path => fs.rmdir path

/-- The order in which a set of paths, built from these elements in this order, is visited. -/
structure PathOrder where
  toList : List Path → List Path
  mem_toList : ∀ l a, a ∈ toList l ↔ a ∈ l
  nodup_toList : ∀ l, (toList l).Nodup

/-- `failed_files[path] = exc` -/
def setItem (failed : List (Path × OSError)) (path : Path) (e : OSError) : List (Path × OSError) :=
  if failed.any fun p ↦ p.1 = path then failed.map fun p ↦ if p.1 = path then (path, e) else p
  else failed ++ [(path, e)]

/-- How far a run has come: the file system, what was removed, and what failed. -/
structure Progress where
  fs : FileSystem Stat
  removals : List Removal := []
  failed : List (Path × OSError) := []

variable (order : PathOrder) (refused : Removal → Option OSError)

/-- Attempt a removal. -/
def attempt (removal : Removal) (fs : FileSystem Stat) : Except OSError (FileSystem Stat) :=
  match refused removal with
  | some e => .error e
  | none => remove fs removal

/-- Remove one after the other, except those that are skipped when their turn comes. Errors that are
caught are noted, and others end the loop. -/
def removeEach (removal : Path → Removal) (caught : OSError → Bool)
    (skip : FileSystem Stat → Path → Bool) : List Path → Progress → Progress × Option OSError
  | [], s => (s, none)
  | path :: rest, s =>
    if skip s.fs path then removeEach removal caught skip rest s
    else match attempt refused (removal path) s.fs with
      | .ok fs =>
        removeEach removal caught skip rest
          { s with fs, removals := s.removals ++ [removal path] }
      | .error e =>
        if caught e then
          removeEach removal caught skip rest { s with failed := setItem s.failed path e }
        else (s, some e)

/-- Remove the files of the plan. -/
def removeFiles : List Path → Progress → Progress × Option OSError :=
  removeEach refused .file (fun e ↦ e = .fileNotFound ∨ e = .permission) fun _ _ ↦ false

/-- `len(list(victim.glob("*"))) == 0` -/
def globEmpty (fs : FileSystem Stat) (victim : Path) : Bool :=
  match fs.scandir victim with
  | .ok g => g.names.isEmpty
  | .error _ => true

/-- Remove the directories that are empty when their turn comes. -/
def removeDirectories : List Path → Progress → Progress × Option OSError :=
  removeEach refused .directory
    (fun e ↦ e = .fileNotFound ∨ e = .permission ∨ e = .notEmpty) fun fs victim ↦ !globEmpty fs victim

/-- The directories below the policy directories, from the longest path to the shortest. -/
def victimDirs (fs : FileSystem Stat) (planDirs : List Path) : List Path :=
  sortDescending (fun a b ↦ a.str.length < b.str.length) <|
    planDirs.flatMap fun pdir ↦ (fs.walk pdir).flatMap fun v ↦ v.dirnames.map v.dirpath.child

/-- Leave out the directories named in the policy and their parents. -/
def filterVictimDirs (candidates planDirs : List Path) : List Path :=
  let parents := planDirs.flatMap Path.parents
  candidates.filter fun victim ↦ victim ∉ planDirs ∧ victim ∉ parents

/-- What a run of `purge` does: the purger and the file system after it, what was removed, and what is
returned or raised. -/
structure PurgeRun where
  purger : Purger
  fs : FileSystem Stat
  removals : List Removal
  result : Except PurgerError Unit

/-- Remove empty directories, and report what failed. -/
def tidyVictimDirs (self : Purger) (plan : Plan) (s : Progress) : PurgeRun :=
  let victims := order.toList (filterVictimDirs (victimDirs s.fs plan.directories) plan.directories)
  match removeDirectories refused victims s with
  | (s, some e) => ⟨self, s.fs, s.removals, .error (.osError e)⟩
  | (s, none) =>
    if s.failed ≠ [] then ⟨self, s.fs, s.removals, .error (.purgeFailed s.failed)⟩
    -- We've acted on the plan, so it is no longer valid.
    else ⟨{ self with plan := none }, s.fs, s.removals, .ok ()⟩

/-- Remove the files of the plan, and then the empty directories. -/
def carryOut (self : Purger) (plan : Plan) (fs : FileSystem Stat) : PurgeRun :=
  match removeFiles refused (plan.files.map FileRecord.path) { fs } with
  | (s, some e) => ⟨self, s.fs, s.removals, .error (.osError e)⟩
  | (s, none) => tidyVictimDirs order refused self plan s

/-- Carry the plan out, unless there is none or only a report is wanted. -/
def purge (self : Purger) (fs : FileSystem Stat) : PurgeRun :=
  match self.plan with
  | none => ⟨self, fs, [], .error .planNotReady⟩
  | some plan =>
    if self.config.dryRun then ⟨self, fs, [], .ok ()⟩
    else if self.config.futureDuration.getD 0 ≠ 0 then ⟨self, fs, [], .ok ()⟩
    else carryOut order refused self plan fs

end Nublado.Purger
