import Mathlib.Data.List.Dedup
import Nublado.Foundations.Trace
import Nublado.Purger.Properties.ExactPlan
import Nublado.Purger.Purge

/-!
# What a purge removes

A run of `purge` is a trace of removals, and every removal in it is permitted: files that the plan
lists, and directories that are empty at that moment, whose path lies below a policy directory and is
neither the path of a policy directory nor above one (`purge_removes_only`).

* Paths are compared as they are written. A policy directory that is named through a symbolic link is
  not recognised when a walk of another policy directory comes upon it, and a duration of zero does not
  count as a future duration: `purge_surprises` has a run for each.
* `removeEach_trace` is the run lemma of both removal loops. Emptiness at the moment of removal rests on
  the operating system, which removes no other directory (`permitted_of_remove`).
-/

namespace Nublado.Purger

open Images (Datetime Timedelta)

/-- The transition function of removals. -/
def removalStep (fs : FileSystem Stat) (removal : Removal) : Option (FileSystem Stat) :=
  (remove fs removal).toOption

/-- Whether the removal may be made, in a run that started with `fs`: a file, when the plan lists it, or a
directory that is empty now, whose path is below a policy directory and neither the path of one nor above
one. Where the policy's paths were direct, that path is the directory's place in the tree. -/
def Permitted (fs : FileSystem Stat) (policy : Policy) (plan : Plan)
    (x : Transition (FileSystem Stat) Removal) : Prop :=
  (∀ path, x.label = .file path → path ∈ plan.files.map FileRecord.path ∧
    ∃ e, x.pre.lstat path = .ok e ∧ ∀ content, e ≠ .directory content) ∧
  ∀ path, x.label = .directory path → x.pre.lstat path = .ok (.directory .nil) ∧
    (∃ d ∈ policy.directories, d.path.Above path) ∧
    (∀ d ∈ policy.directories, path ≠ d.path ∧ ¬ path.Above d.path) ∧
    (fs.content.WellFormed → (∀ d ∈ policy.directories, fs.Direct d.path) →
      x.pre.HasEntry path (.directory .nil))

variable {policy : Policy} {order : PathOrder} {refused : Removal → Option OSError}

/-- **A removal** takes a file or an empty directory, and leaves a well-formed tree within the one
before. -/
theorem remove_eq_ok {fs fs' : FileSystem Stat} {removal : Removal}
    (h : remove fs removal = .ok fs') :
    (∀ path, removal = .file path →
      ∃ e, fs.lstat path = .ok e ∧ ∀ content, e ≠ .directory content) ∧
    (∀ path, removal = .directory path → fs.lstat path = .ok (.directory .nil)) ∧
    (fs.content.WellFormed → fs'.content.WellFormed ∧ fs'.content.Within fs.content) := by
  have herase : ∀ loc name, fs' = { fs with content := fs.content.eraseAt loc name } →
      fs.content.WellFormed → fs'.content.WellFormed ∧ fs'.content.Within fs.content := by
    rintro loc name rfl hfs
    exact ⟨hfs.eraseAt loc name, Forest.eraseAt_within hfs loc name⟩
  cases removal with
  | file path =>
    obtain ⟨e, he, hfile, loc, name, -, hfs'⟩ := FileSystem.unlink_eq_ok h
    refine ⟨?_, by simp, herase loc name hfs'⟩
    rintro _ ⟨⟩
    exact ⟨e, he, hfile⟩
  | directory path =>
    obtain ⟨he, loc, name, -, hfs'⟩ := FileSystem.rmdir_eq_ok h
    refine ⟨by simp, ?_, herase loc name hfs'⟩
    rintro _ ⟨⟩
    exact he

theorem remove_of_step {fs fs' : FileSystem Stat} {removal : Removal}
    (h : removalStep fs removal = some fs') : remove fs removal = .ok fs' := by
  rw [removalStep] at h
  rcases hremove : remove fs removal with e | fs''
  · rw [hremove] at h
    cases h
  · rw [hremove] at h
    rw [show fs'' = fs' from Option.some.inj h]

/-- Removals leave a tree within the one at the start. -/
theorem within_of_trace {fs fs' : FileSystem Stat} {τ : List (Transition (FileSystem Stat) Removal)}
    (h : Trace removalStep fs τ fs') (hfs : fs.content.WellFormed) :
    fs'.content.WellFormed ∧ fs'.content.Within fs.content := by
  refine h.invariant (P := fun a ↦ a.content.WellFormed ∧ a.content.Within fs.content)
    (fun a removal b ⟨ha, hwithin⟩ hstep ↦ ?_) ⟨hfs, Forest.Within.refl _⟩
  obtain ⟨hb, hstep⟩ := (remove_eq_ok (remove_of_step hstep)).2.2 ha
  exact ⟨hb, hstep.trans hwithin⟩

/-- **The run lemma of the removal loops**: what a loop did is a trace of removals of paths of its
list. -/
theorem removeEach_trace (refused : Removal → Option OSError) (removal : Path → Removal)
    (caught : OSError → Bool) (skip : FileSystem Stat → Path → Bool) (paths : List Path) :
    ∀ s : Progress,
    ∃ τ, let s' := (removeEach refused removal caught skip paths s).1
      Trace removalStep s.fs τ s'.fs ∧ s'.removals = s.removals ++ τ.map Transition.label ∧
        ∀ x ∈ τ, ∃ path ∈ paths, x.label = removal path := by
  induction paths with
  | nil =>
    intro s
    exact ⟨[], .nil, by simp [removeEach], by simp⟩
  | cons path rest ih =>
    intro s
    have hrest : ∀ s', ∃ τ, let s'' := (removeEach refused removal caught skip rest s').1
        Trace removalStep s'.fs τ s''.fs ∧ s''.removals = s'.removals ++ τ.map Transition.label ∧
          ∀ x ∈ τ, ∃ p ∈ path :: rest, x.label = removal p := by
      intro s'
      obtain ⟨τ, hτ, hremovals, hlabels⟩ := ih s'
      exact ⟨τ, hτ, hremovals, fun x hx ↦ (hlabels x hx).imp fun p hp ↦
        ⟨List.mem_cons_of_mem _ hp.1, hp.2⟩⟩
    rw [removeEach]
    by_cases hskip : skip s.fs path = true
    · rw [if_pos hskip]
      exact hrest s
    · rw [if_neg hskip]
      rcases hattempt : attempt refused (removal path) s.fs with e | fs
      · by_cases hcaught : caught e = true
        · simp only [if_pos hcaught]
          exact hrest { s with failed := setItem s.failed path e }
        · simp only [if_neg hcaught]
          exact ⟨[], .nil, by simp, by simp⟩
      · have hremove : remove s.fs (removal path) = .ok fs := by
          rw [attempt] at hattempt
          split at hattempt
          · cases hattempt
          · exact hattempt
        have hstep : removalStep s.fs (removal path) = some fs := by
          rw [removalStep, hremove]
          rfl
        obtain ⟨τ, hτ, hremovals, hlabels⟩ :=
          hrest { s with fs, removals := s.removals ++ [removal path] }
        refine ⟨⟨s.fs, removal path, fs⟩ :: τ, .cons hstep hτ, ?_, ?_⟩
        · simpa using hremovals
        · intro x hx
          rcases List.mem_cons.1 hx with rfl | hx
          · exact ⟨path, List.mem_cons_self, rfl⟩
          · exact hlabels x hx

theorem removeFiles_trace (refused : Removal → Option OSError) (paths : List Path) (s : Progress) :
    ∃ τ, let s' := (removeFiles refused paths s).1
      Trace removalStep s.fs τ s'.fs ∧ s'.removals = s.removals ++ τ.map Transition.label ∧
        ∀ x ∈ τ, ∃ path ∈ paths, x.label = .file path :=
  removeEach_trace refused .file _ _ paths s

theorem removeDirectories_trace (refused : Removal → Option OSError) (paths : List Path)
    (s : Progress) : ∃ τ, let s' := (removeDirectories refused paths s).1
      Trace removalStep s.fs τ s'.fs ∧ s'.removals = s.removals ++ τ.map Transition.label ∧
        ∀ x ∈ τ, ∃ path ∈ paths, x.label = .directory path :=
  removeEach_trace refused .directory _ _ paths s

/-! ### The candidates -/

/-- The directories that a walk lists are below its start, and directly so if the start is direct. -/
theorem above_of_mem_victimDirs {fs : FileSystem Stat} {planDirs : List Path} {path : Path}
    (h : path ∈ victimDirs fs planDirs) :
    ∃ pdir ∈ planDirs, pdir.Above path ∧
      (fs.content.WellFormed → fs.Direct pdir → fs.Direct path) := by
  simp only [victimDirs, mem_sortDescending, List.mem_flatMap, List.mem_map] at h
  obtain ⟨pdir, hpdir, v, hv, name, hname, rfl⟩ := h
  exact ⟨pdir, hpdir, Path.above_child_iff.2 (FileSystem.above_of_mem_walk hv),
    fun hfs hdirect ↦ FileSystem.direct_of_mem_walk hfs hdirect hv hname⟩

theorem mem_filterVictimDirs {candidates planDirs : List Path} {path : Path} :
    path ∈ filterVictimDirs candidates planDirs ↔
      path ∈ candidates ∧ ∀ pdir ∈ planDirs, path ≠ pdir ∧ ¬ path.Above pdir := by
  simp only [filterVictimDirs, List.mem_filter, List.mem_flatMap, Path.mem_parents,
    decide_eq_true_eq, not_exists, not_and]
  refine and_congr_right fun _ ↦ ⟨fun h pdir hpdir ↦ ⟨?_, h.2 pdir hpdir⟩, fun h ↦ ⟨?_, ?_⟩⟩
  · rintro rfl
    exact h.1 hpdir
  · exact fun hmem ↦ (h path hmem).1 rfl
  · exact fun pdir hpdir ↦ (h pdir hpdir).2

/-- The directories of a plan are those of the policy. -/
theorem mem_directories_of_makePlan {fs : FileSystem Stat} {config : Config} {now : Datetime}
    {plan : Plan} (h : makePlan config policy now fs = .ok plan) {path : Path} :
    path ∈ plan.directories ↔ ∃ d ∈ policy.directories, d.path = path := by
  have hloop : ∀ when (paths : List Path) (scan out : Scan),
      paths.foldlM (scanDirectory fs policy when) scan = .ok out →
      out.visited = paths.reverse ++ scan.visited := by
    intro when paths
    induction paths with
    | nil =>
      rintro scan out ⟨⟩
      rfl
    | cons consider paths ih =>
      intro scan out h
      rw [List.foldlM_cons] at h
      obtain ⟨scan', hscan, h⟩ := bind_eq_ok.1 h
      obtain ⟨d, -, hscan⟩ := bind_eq_ok.1 hscan
      obtain ⟨purge, -, hscan⟩ := bind_eq_ok.1 hscan
      rw [ih scan' out h, ← Except.ok.inj hscan]
      simp
  obtain ⟨when, -, h⟩ := bind_eq_ok.1 h
  obtain ⟨out, hscan, h⟩ := bind_eq_ok.1 h
  rw [← Except.ok.inj h, hloop when _ {} out hscan, List.reverse_reverse, List.append_nil,
    Policy.getDirectories, List.mem_insertionSort, List.mem_map]

/-! ### The run -/

/-- A removal that the operating system makes is permitted if its path is. -/
theorem permitted_of_step {fs : FileSystem Stat} {plan : Plan}
    {x : Transition (FileSystem Stat) Removal} (hstep : removalStep x.pre x.label = some x.post)
    (hfile : ∀ path, x.label = .file path → path ∈ plan.files.map FileRecord.path)
    (hdirectory : ∀ path, x.label = .directory path →
      (∃ d ∈ policy.directories, d.path.Above path) ∧
      (∀ d ∈ policy.directories, path ≠ d.path ∧ ¬ path.Above d.path) ∧
      (fs.content.WellFormed → (∀ d ∈ policy.directories, fs.Direct d.path) → x.pre.Direct path)) :
    Permitted fs policy plan x := by
  obtain ⟨hunlink, hrmdir, -⟩ := remove_eq_ok (remove_of_step hstep)
  refine ⟨fun path hlabel ↦ ⟨hfile path hlabel, hunlink path hlabel⟩, fun path hlabel ↦ ?_⟩
  obtain ⟨hbelow, hnamed, hdirect⟩ := hdirectory path hlabel
  exact ⟨hrmdir path hlabel, hbelow, hnamed, fun hfs hpolicy ↦
    (hdirect hfs hpolicy).hasEntry (hrmdir path hlabel)⟩

/-- The directories that a run attempts to remove after `s`. -/
def victims (order : PathOrder) (plan : Plan) (s : Progress) : List Path :=
  order.toList (filterVictimDirs (victimDirs s.fs plan.directories) plan.directories)

theorem tidyVictimDirs_state (order : PathOrder) (refused : Removal → Option OSError)
    (self : Purger) (plan : Plan) (s : Progress) :
    let s' := (removeDirectories refused (victims order plan s) s).1
    (tidyVictimDirs order refused self plan s).fs = s'.fs ∧
      (tidyVictimDirs order refused self plan s).removals = s'.removals := by
  rw [tidyVictimDirs, victims]
  dsimp only
  split
  · next hs =>
    rw [hs]
    exact ⟨rfl, rfl⟩
  · next hs =>
    rw [hs]
    split
    · exact ⟨rfl, rfl⟩
    · exact ⟨rfl, rfl⟩

/-- **Carrying a plan out** is a trace of permitted removals. -/
theorem carryOut_trace {self : Purger} {fs : FileSystem Stat} {plan : Plan}
    (hdirectories : ∀ path, path ∈ plan.directories ↔ ∃ d ∈ policy.directories, d.path = path) :
    let run := carryOut order refused self plan fs
    ∃ τ, Trace removalStep fs τ run.fs ∧ τ.map Transition.label = run.removals ∧
      ∀ x ∈ τ, Permitted fs policy plan x := by
  intro run
  obtain ⟨τ, hτ, hremovals, hlabels⟩ :=
    removeFiles_trace refused (plan.files.map FileRecord.path) { fs }
  have hpermitted : ∀ x ∈ τ, Permitted fs policy plan x := by
    intro x hx
    obtain ⟨path, hpath, hlabel⟩ := hlabels x hx
    refine permitted_of_step (hτ.mem_elim hx).1 (fun path' hlabel' ↦ ?_) fun path' hlabel' ↦ ?_
    · obtain rfl := Removal.file.inj (hlabel.symm.trans hlabel')
      exact hpath
    · cases hlabel.symm.trans hlabel'
  rw [List.nil_append] at hremovals
  rcases hs : removeFiles refused (plan.files.map FileRecord.path) { fs } with ⟨s, e⟩
  rw [hs] at hτ hremovals
  rcases e with _ | e
  · -- All files are done, and the directories follow.
    have hrun : run = tidyVictimDirs order refused self plan s := by
      simp only [run, carryOut, hs]
    obtain ⟨hfs, hrun'⟩ := tidyVictimDirs_state order refused self plan s
    obtain ⟨τ', hτ', hremovals', hlabels'⟩ :=
      removeDirectories_trace refused (victims order plan s) s
    have hpermitted' : ∀ x ∈ τ', Permitted fs policy plan x := by
      intro x hx
      obtain ⟨path, hpath, hlabel⟩ := hlabels' x hx
      obtain ⟨hstep, τ₁, -, -, hτ₁, -⟩ := hτ'.mem_elim hx
      refine permitted_of_step hstep (fun path' hlabel' ↦ ?_) fun path' hlabel' ↦ ?_
      · cases hlabel.symm.trans hlabel'
      · obtain rfl := Removal.directory.inj (hlabel.symm.trans hlabel')
        obtain ⟨hcandidate, hnamed⟩ := mem_filterVictimDirs.1 ((order.mem_toList _ _).1 hpath)
        obtain ⟨pdir, hpdir, habove, hdirect⟩ := above_of_mem_victimDirs hcandidate
        obtain ⟨d, hd, rfl⟩ := (hdirectories pdir).1 hpdir
        refine ⟨⟨d, hd, habove⟩,
          fun d hd ↦ hnamed d.path ((hdirectories d.path).2 ⟨d, hd, rfl⟩), fun hfs hpolicy ↦ ?_⟩
        obtain ⟨hwf, hwithin⟩ := within_of_trace hτ hfs
        have hat : s.fs.Direct path := hdirect hwf ((hpolicy d hd).of_within hwithin)
        exact hat.of_within (within_of_trace hτ₁ hwf).2
    refine ⟨τ ++ τ', ?_, ?_, List.forall_mem_append.2 ⟨hpermitted, hpermitted'⟩⟩
    · rw [hrun, hfs]
      exact hτ.append hτ'
    · rw [hrun, hrun', hremovals', hremovals, List.map_append]
  · have hrun : run = ⟨self, s.fs, s.removals, .error (.osError e)⟩ := by
      simp only [run, carryOut, hs]
    rw [hrun]
    exact ⟨τ, hτ, hremovals.symm, hpermitted⟩

variable (order refused) in
/-- **What a purge removes.** Every removal is permitted, and nothing else changes; with `dry_run` or a
nonzero future duration nothing is removed and the plan stays. -/
theorem purge_removes_only {config : Config} {now : Datetime} {fs : FileSystem Stat} {plan : Plan}
    (hplan : makePlan config policy now fs = .ok plan) :
    let run := purge order refused ⟨config, some plan⟩ fs
    (∃ τ, Trace removalStep fs τ run.fs ∧ τ.map Transition.label = run.removals ∧
      ∀ x ∈ τ, Permitted fs policy plan x) ∧
    (config.dryRun = true ∨ config.futureDuration.getD 0 ≠ 0 →
      run = ⟨⟨config, some plan⟩, fs, [], .ok ()⟩) := by
  intro run
  have hreport : config.dryRun = true ∨ config.futureDuration.getD 0 ≠ 0 →
      run = ⟨⟨config, some plan⟩, fs, [], .ok ()⟩ := by
    rintro (hdry | hfuture)
    · exact if_pos hdry
    · by_cases hdry : config.dryRun = true
      · exact if_pos hdry
      · exact (if_neg hdry).trans (if_pos hfuture)
  refine ⟨?_, hreport⟩
  by_cases hquiet : config.dryRun = true ∨ config.futureDuration.getD 0 ≠ 0
  · rw [hreport hquiet]
    exact ⟨[], .nil, rfl, by simp⟩
  · obtain ⟨hdry, hfuture⟩ := not_or.1 hquiet
    have hrun : run = carryOut order refused ⟨config, some plan⟩ plan fs :=
      (if_neg hdry).trans (if_neg hfuture)
    rw [hrun]
    exact carryOut_trace fun path ↦ mem_directories_of_makePlan hplan

section Sample

/-- Visit the elements in the order in which they were added last. -/
def insertionOrder : PathOrder where
  toList := List.dedup
  mem_toList _ _ := List.mem_dedup
  nodup_toList := List.nodup_dedup

/-- What evaluating a computation shows of its result. -/
theorem exists_ok {ε α : Type} {x : Except ε α} {P : α → Prop} [DecidablePred P]
    (h : x.toOption.any (fun a ↦ decide (P a)) = true) : ∃ a, x = .ok a ∧ P a := by
  rcases x with e | a
  · simp [Except.toOption] at h
  · exact ⟨a, rfl, by simpa [Except.toOption] using h⟩

/-- `/scratch` with an old file, in a directory of its own. -/
def tmpDir : FileSystem Stat where
  content := .directory "scratch" (.directory "tmp" (.file "old" oldFile .nil) .nil) .nil

/-- The file and then its directory are removed. -/
theorem purge_removes_sample :
    let policy : Policy := ⟨[accessPolicy ⟨"/", ["scratch"]⟩ 7]⟩
    ∃ plan, makePlan {} policy (732 * 86400000000) tmpDir = .ok plan ∧
      ∃ τ, Trace removalStep tmpDir τ ⟨.directory "scratch" .nil .nil, []⟩ ∧
        τ.map Transition.label = [.file ⟨"/", ["scratch", "tmp", "old"]⟩,
          .directory ⟨"/", ["scratch", "tmp"]⟩] ∧ ∀ x ∈ τ, Permitted tmpDir policy plan x := by
  intro policy
  obtain ⟨plan, hplan, hremovals, hfs⟩ : ∃ plan, makePlan {} policy (732 * 86400000000) tmpDir =
      .ok plan ∧ (purge insertionOrder (fun _ ↦ none) ⟨{}, some plan⟩ tmpDir).removals =
        [.file ⟨"/", ["scratch", "tmp", "old"]⟩, .directory ⟨"/", ["scratch", "tmp"]⟩] ∧
      (purge insertionOrder (fun _ ↦ none) ⟨{}, some plan⟩ tmpDir).fs =
        ⟨.directory "scratch" .nil .nil, []⟩ := exists_ok (by decide +kernel)
  obtain ⟨⟨τ, hτ, hlabels, hpermitted⟩, -⟩ :=
    purge_removes_only insertionOrder (fun _ ↦ none) hplan
  exact ⟨plan, hplan, τ, hfs ▸ hτ, hlabels.trans hremovals, hpermitted⟩

/-- `/data` with an empty directory, and a symbolic link to it. -/
def linked : FileSystem Stat where
  content := .symlink "link" ⟨"/", ["data", "tmp"]⟩ <|
    .directory "data" (.directory "tmp" .nil .nil) .nil

/-- **Two runs that remove more than they should**: with a future duration of zero the plan is carried
out, and a policy directory is removed that is named through a symbolic link and is empty. -/
theorem purge_surprises :
    (let policy : Policy := ⟨[accessPolicy ⟨"/", ["scratch"]⟩ 7]⟩
      let config : Config := { futureDuration := some 0 }
      ∃ plan, makePlan config policy (732 * 86400000000) tmpDir = .ok plan ∧
        (purge insertionOrder (fun _ ↦ none) ⟨config, some plan⟩ tmpDir).removals ≠ []) ∧
    (let policy : Policy := ⟨[accessPolicy ⟨"/", ["data"]⟩ 7, accessPolicy ⟨"/", ["link"]⟩ 7]⟩
      ∃ plan, makePlan {} policy (732 * 86400000000) linked = .ok plan ∧
        ∃ path, (purge insertionOrder (fun _ ↦ none) ⟨{}, some plan⟩ linked).removals =
          [.directory path] ∧
          ∃ d ∈ policy.directories, linked.resolve d.path = linked.resolve path) := by
  refine ⟨exists_ok (by decide +kernel), ?_⟩
  intro policy
  obtain ⟨plan, hplan, hremovals⟩ : ∃ plan, makePlan {} policy (732 * 86400000000) linked =
      .ok plan ∧ (purge insertionOrder (fun _ ↦ none) ⟨{}, some plan⟩ linked).removals =
        [.directory ⟨"/", ["data", "tmp"]⟩] := exists_ok (by decide +kernel)
  refine ⟨plan, hplan, _, hremovals, accessPolicy ⟨"/", ["link"]⟩ 7, by simp [policy], ?_⟩
  show linked.resolve ⟨"/", ["link"]⟩ = linked.resolve ⟨"/", ["data", "tmp"]⟩
  decide +kernel

end Sample

end Nublado.Purger
