import Nublado.Foundations.Sweeping
import Nublado.Purger.Properties.Removal

/-!
# Which empty directories a purge leaves behind

Once the files of the plan are gone, every directory below a policy directory in which there is nothing
but directories should go too, whatever the order in which sets are visited.

* A directory is `Eligible` if its path lies below a policy directory, and is neither the path of one
  nor above one. `Tidy` says that none of these is empty, and `tidied` is the tree that should be left.
* The eligible directories are sorted so that the longest path comes first, and then put into a set,
  which forgets that order. Those that are empty at their turn are removed: a successful run is a sweep
  of the set in the order in which it happens to be visited (`removeDirectories_sweep`).
* So the promise is kept exactly in the orders in which each hollow directory comes after its
  subdirectories (`purge_tidies_iff`). `purge_leaves_empty` is a run that leaves an empty directory
  behind, while another order leaves none.
-/

namespace Nublado.Purger

open Images (Datetime Timedelta)

variable {fs fs₁ : FileSystem Stat} {policy : Policy} {plan : Plan} {order : PathOrder}
  {refused : Removal → Option OSError}

/-! ### What should be left -/

/-- A path, written as one strictly below another, stands for a directory below what that one leads to:
at this location, and with this content. -/
def Subdirectory (fs : FileSystem Stat) (pdir path : Path) (loc : List String)
    (content : Forest Stat) : Prop :=
  ∃ start base names, fs.resolve pdir = .ok start ∧ fs.content.contentAt start = some base ∧
    names ≠ [] ∧ base.contentAt names = some content ∧
    path = { pdir with parts := pdir.parts ++ names } ∧ loc = start ++ names

/-- A directory strictly below a policy directory that is neither a policy directory nor above one. -/
structure Eligible (fs : FileSystem Stat) (policy : Policy) (path : Path) (loc : List String)
    (content : Forest Stat) : Prop where
  below : ∃ d ∈ policy.directories, Subdirectory fs d.path path loc content
  not_named : ∀ d ∈ policy.directories, path ≠ d.path ∧ ¬ path.Above d.path

/-- No eligible directory is empty. -/
def Tidy (policy : Policy) (fs : FileSystem Stat) : Prop :=
  ∀ path loc content, Eligible fs policy path loc content → content ≠ .nil

/-- The tree when the files of the plan are gone. -/
def withoutPlanned (plan : Plan) (fs : FileSystem Stat) : FileSystem Stat :=
  fs.without fun loc ↦ plan.files.any fun record ↦ fs.place record.path = some loc

open Classical in
/-- The tree without the eligible directories in which there is nothing but directories. -/
noncomputable def tidied (policy : Policy) (fs : FileSystem Stat) : FileSystem Stat :=
  fs.without fun loc ↦ decide <|
    ∃ path content, Eligible fs policy path loc content ∧ content.Hollow

/-- **The promise**: no eligible directory is empty, and what is left of the tree is what should be,
which no order has a part in. -/
def LeavesTidy (policy : Policy) (plan : Plan) (fs fs' : FileSystem Stat) : Prop :=
  Tidy policy fs' ∧ fs' = tidied policy (withoutPlanned plan fs)

/-- Where a path stands. -/
def placeOf (fs : FileSystem Stat) (path : Path) : List String := (fs.place path).getD []

/-- Of the directories that are visited when the files of the plan are gone, each in which there is
nothing but directories comes after the directories in it. -/
def VisitsChildrenFirst (order : PathOrder) (plan : Plan) (fs : FileSystem Stat) : Prop :=
  let fs₁ := withoutPlanned plan fs
  Forest.ChildrenFirst fs₁.content (placeOf fs₁) (victims order plan { fs := fs₁ })

instance decidableVisitsChildrenFirst (order : PathOrder) (plan : Plan) (fs : FileSystem Stat) :
    Decidable (VisitsChildrenFirst order plan fs) :=
  Forest.decidableChildrenFirst _ _ _

/-! ### The directories that are visited -/

theorem Subdirectory.contentAt {pdir path : Path} {loc : List String} {content : Forest Stat}
    (h : Subdirectory fs pdir path loc content) : fs.content.contentAt loc = some content := by
  obtain ⟨start, base, names, -, hbase, -, hcontent, -, rfl⟩ := h
  rw [Forest.contentAt_append, hbase]
  exact hcontent

/-- Where the path of a subdirectory leads, and where it stands. -/
theorem Subdirectory.place_eq (hfs : fs.content.WellFormed) {pdir path : Path}
    {loc : List String} {content : Forest Stat} (h : Subdirectory fs pdir path loc content) :
    fs.resolve path = .ok loc ∧ fs.place path = some loc := by
  have hat := h.contentAt
  obtain ⟨start, base, names, hstart, hbase, hne, hcontent, rfl, rfl⟩ := h
  refine ⟨FileSystem.resolve_below hfs hstart hat, ?_⟩
  rcases List.eq_nil_or_concat names with rfl | ⟨init, name, rfl⟩
  · exact absurd rfl hne
  · rw [List.concat_eq_append] at hcontent hat ⊢
    rw [Forest.contentAt_append] at hcontent
    obtain ⟨g, hinit, hg⟩ := Option.bind_eq_some_iff.1 hcontent
    obtain ⟨c, hfind, -⟩ := Forest.contentAt_cons_eq_some.1 hg
    have hparent : fs.content.contentAt (start ++ init) = some g := by
      rw [Forest.contentAt_append, hbase]
      exact hinit
    have hdots : name ≠ ".." := ((hfs.contentAt hparent).of_find? hfind).1.2.2.1
    have hlocate := FileSystem.locate_child (FileSystem.resolve_below hfs hstart hparent) hdots
    rw [Path.child, List.append_assoc] at hlocate
    exact FileSystem.place_eq_some.2 ⟨start ++ init, name, hlocate, by rw [List.append_assoc]⟩

/-- What a subdirectory contains. -/
theorem Subdirectory.child {pdir path : Path} {loc : List String} {content c : Forest Stat}
    (h : Subdirectory fs pdir path loc content) {name : String}
    (hfind : content.find? name = some (.directory c)) :
    Subdirectory fs pdir (path.child name) (loc ++ [name]) c := by
  obtain ⟨start, base, names, hstart, hbase, -, hcontent, rfl, rfl⟩ := h
  refine ⟨start, base, names ++ [name], hstart, hbase, by simp, ?_, ?_, by simp⟩
  · exact Forest.contentAt_concat hcontent hfind
  · rw [Path.child, List.append_assoc]

/-- **The directories that are listed** below the policy directories. -/
theorem mem_victimDirs_iff (hfs : fs.content.WellFormed) {dirs : List Path} {path : Path} :
    path ∈ victimDirs fs dirs ↔
      ∃ pdir ∈ dirs, ∃ loc content, Subdirectory fs pdir path loc content := by
  simp only [victimDirs, mem_sortDescending, List.mem_flatMap, List.mem_map]
  constructor
  · rintro ⟨pdir, hpdir, v, hv, name, hname, rfl⟩
    obtain ⟨start, base, hstart, hbase, hv⟩ := FileSystem.mem_walk_iff.1 hv
    obtain ⟨names, g, hg, rfl⟩ := (Forest.mem_walk (hfs.contentAt hbase)).1 hv
    obtain ⟨content, hfind⟩ := (Forest.mem_dirnames ((hfs.contentAt hbase).contentAt hg)).1 hname
    refine ⟨pdir, hpdir, start ++ (names ++ [name]), content, start, base, names ++ [name], hstart,
      hbase, by simp, Forest.contentAt_concat hg hfind, ?_, rfl⟩
    rw [Path.child, List.append_assoc]
  · rintro ⟨pdir, hpdir, loc, content, start, base, names, hstart, hbase, hne, hcontent, rfl, -⟩
    rcases List.eq_nil_or_concat names with rfl | ⟨init, name, rfl⟩
    · exact absurd rfl hne
    · rw [List.concat_eq_append] at hcontent ⊢
      rw [Forest.contentAt_append] at hcontent
      obtain ⟨g, hinit, hg⟩ := Option.bind_eq_some_iff.1 hcontent
      obtain ⟨c, hfind, -⟩ := Forest.contentAt_cons_eq_some.1 hg
      have hwf := hfs.contentAt hbase
      refine ⟨pdir, hpdir, _, FileSystem.mem_walk_iff.2 ⟨start, base, hstart, hbase,
        (Forest.mem_walk hwf).2 ⟨init, g, hinit, rfl⟩⟩, name,
        (Forest.mem_dirnames (hwf.contentAt hinit)).2 ⟨c, hfind⟩, ?_⟩
      rw [Path.child, List.append_assoc]

section Victims

variable (hfs : fs.content.WellFormed)
  (hdirectories : ∀ path, path ∈ plan.directories ↔ ∃ d ∈ policy.directories, d.path = path)
include hfs hdirectories

/-- **The directories that are visited** are the eligible ones. -/
theorem mem_victims_iff {s : Progress} (hs : s.fs = fs) {path : Path} :
    path ∈ victims order plan s ↔ ∃ loc content, Eligible fs policy path loc content := by
  rw [victims, order.mem_toList, mem_filterVictimDirs, hs, mem_victimDirs_iff hfs]
  constructor
  · rintro ⟨⟨pdir, hpdir, loc, content, hsub⟩, hnamed⟩
    obtain ⟨d, hd, rfl⟩ := (hdirectories pdir).1 hpdir
    exact ⟨loc, content, ⟨d, hd, hsub⟩,
      fun d hd ↦ hnamed d.path ((hdirectories d.path).2 ⟨d, hd, rfl⟩)⟩
  · rintro ⟨loc, content, ⟨d, hd, hsub⟩, hnamed⟩
    refine ⟨⟨d.path, (hdirectories d.path).2 ⟨d, hd, rfl⟩, loc, content, hsub⟩, ?_⟩
    intro pdir hpdir
    obtain ⟨d, hd, rfl⟩ := (hdirectories pdir).1 hpdir
    exact hnamed d hd

theorem closedBelow_victims {s : Progress} (hs : s.fs = fs) :
    Forest.ClosedBelow fs.content (placeOf fs) (victims order plan s) := by
  have hplace : ∀ v ∈ victims order plan s, ∃ content, Eligible fs policy v (placeOf fs v) content := by
    intro v hv
    obtain ⟨loc, content, helig⟩ := (mem_victims_iff hfs hdirectories hs).1 hv
    obtain ⟨d, hd, hsub⟩ := helig.below
    rw [placeOf, (hsub.place_eq hfs).2]
    exact ⟨content, helig⟩
  refine ⟨order.nodup_toList _, fun v hv hroot ↦ ?_, fun v hv ↦ ?_, fun v hv g hg name hname ↦ ?_⟩
  · obtain ⟨content, helig⟩ := hplace v hv
    obtain ⟨d, hd, start, base, names, -, -, hne, -, -, hloc⟩ := helig.below
    rw [hroot] at hloc
    exact hne (List.append_eq_nil_iff.1 hloc.symm).2
  · obtain ⟨content, helig⟩ := hplace v hv
    obtain ⟨d, hd, hsub⟩ := helig.below
    exact ⟨content, hsub.contentAt⟩
  · obtain ⟨content, helig⟩ := hplace v hv
    obtain ⟨d, hd, hsub⟩ := helig.below
    obtain rfl := Option.some.inj (hg.symm.trans hsub.contentAt)
    obtain ⟨c, hfind⟩ := (Forest.mem_dirnames (hfs.contentAt hg)).1 hname
    have hchild := hsub.child hfind
    refine ⟨(mem_victims_iff hfs hdirectories hs).2 ⟨_, c, ⟨d, hd, hchild⟩, fun d' hd' ↦ ?_⟩, ?_⟩
    · -- A directory with a policy directory at or below a subdirectory is above one.
      have habove : ¬ v.Above d'.path := (helig.not_named d' hd').2
      refine ⟨?_, fun hbelow ↦ habove ((Path.above_child v name).trans hbelow)⟩
      intro heq
      exact habove (heq ▸ Path.above_child v name)
    · rw [placeOf, (hchild.place_eq hfs).2]
      rfl

end Victims

/-! ### Runs in which nothing fails -/

theorem setItem_ne_nil (failed : List (Path × OSError)) (path : Path) (e : OSError) :
    setItem failed path e ≠ [] := by
  unfold setItem
  split
  · next h =>
    intro hnil
    rw [List.map_eq_nil_iff.1 hnil] at h
    cases h
  · simp

section Runs

variable {removal : Path → Removal} {caught : OSError → Bool} {skip : FileSystem Stat → Path → Bool}

/-- What failed stays noted. -/
theorem failed_of_removeEach {paths : List Path} {s s' : Progress} {e : Option OSError}
    (h : removeEach refused removal caught skip paths s = (s', e)) (hs : s.failed ≠ []) :
    s'.failed ≠ [] := by
  induction paths generalizing s with
  | nil =>
    obtain ⟨rfl, -⟩ := Prod.mk.inj h
    exact hs
  | cons path rest ih =>
    rw [removeEach] at h
    split at h
    · exact ih h hs
    · split at h
      · exact ih h hs
      · split at h
        · exact ih h (setItem_ne_nil _ _ _)
        · obtain ⟨rfl, -⟩ := Prod.mk.inj h
          exact hs

/-- **A step of a run in which nothing fails.** -/
theorem removeEach_cons_succeeds {path : Path} {rest : List Path} {s s' : Progress}
    (h : removeEach refused removal caught skip (path :: rest) s = (s', none))
    (hfailed : s'.failed = []) :
    (skip s.fs path = true ∧ removeEach refused removal caught skip rest s = (s', none)) ∨
    (skip s.fs path = false ∧ ∃ fs, remove s.fs (removal path) = .ok fs ∧
      removeEach refused removal caught skip rest
        { s with fs, removals := s.removals ++ [removal path] } = (s', none)) := by
  rw [removeEach] at h
  by_cases hskip : skip s.fs path = true
  · rw [if_pos hskip] at h
    exact Or.inl ⟨hskip, h⟩
  · rw [if_neg hskip] at h
    refine Or.inr ⟨Bool.eq_false_iff.2 hskip, ?_⟩
    split at h
    · next fs hattempt =>
      refine ⟨fs, ?_, h⟩
      rw [attempt] at hattempt
      split at hattempt
      · cases hattempt
      · exact hattempt
    · split at h
      · exact absurd hfailed (failed_of_removeEach h (setItem_ne_nil _ _ _))
      · cases (Prod.mk.inj h).2

end Runs

/-- **Removing the files** leaves the tree without them. -/
theorem removeFiles_succeeds (hfs : fs.content.WellFormed) {paths : List Path} {s s' : Progress}
    {gone : List String → Bool} (hs : s.fs = fs.without gone)
    (h : removeFiles refused paths s = (s', none)) (hfailed : s'.failed = []) :
    s'.fs = fs.without fun loc ↦ gone loc || paths.any fun path ↦ fs.place path = some loc := by
  unfold removeFiles at h
  induction paths generalizing s gone with
  | nil =>
    obtain ⟨rfl, -⟩ := Prod.mk.inj h
    simpa using hs
  | cons path rest ih =>
    rcases removeEach_cons_succeeds h hfailed with ⟨hskip, -⟩ | ⟨-, fs', hremove, h⟩
    · cases hskip
    · obtain ⟨-, -, -, loc, name, hlocate, hfs'⟩ := FileSystem.unlink_eq_ok hremove
      rw [hs] at hlocate hfs'
      obtain ⟨hplace, herase⟩ := FileSystem.eraseAt_place hfs hlocate
      have hrest := ih (hfs'.trans herase) h
      rw [hrest]
      congr 1
      funext l
      rw [List.any_cons, hplace, Forest.andAt, Bool.or_assoc]
      simp only [Option.some.injEq, eq_comm]

/-- A directory in which `glob` finds something is there, and is not empty. -/
theorem contentAt_of_globEmpty {path : Path} (h : globEmpty fs path = false) :
    ∃ loc g, fs.resolve path = .ok loc ∧ fs.content.contentAt loc = some g ∧ g ≠ .nil := by
  unfold globEmpty at h
  split at h
  · next g hscandir =>
    obtain ⟨loc, hresolve, hat⟩ := bind_eq_ok.1 hscandir
    refine ⟨loc, g, hresolve, ?_, ?_⟩
    · rw [FileSystem.directoryAt] at hat
      split at hat
      · cases hat
      · next g' hg' =>
        rw [hg', Except.ok.inj hat]
    · rintro rfl
      cases h
  · cases h

/-- **Removing the directories** is a sweep. -/
theorem removeDirectories_sweep (hfs : fs.content.WellFormed) {paths : List Path}
    (hpaths : ∀ path ∈ paths, fs.resolve path = .ok (placeOf fs path)) {s s' : Progress}
    {gone : List String → Bool} (hs : s.fs = fs.without gone)
    (h : removeDirectories refused paths s = (s', none)) (hfailed : s'.failed = []) :
    ∃ gone', Forest.Sweep fs.content (placeOf fs) paths gone gone' ∧ s'.fs = fs.without gone' := by
  unfold removeDirectories at h
  induction paths generalizing s gone with
  | nil =>
    obtain ⟨rfl, -⟩ := Prod.mk.inj h
    exact ⟨gone, .nil, hs⟩
  | cons path rest ih =>
    obtain ⟨hpath, hrest⟩ := List.forall_mem_cons.1 hpaths
    rcases removeEach_cons_succeeds h hfailed with ⟨hskip, h⟩ | ⟨-, fs', hremove, h⟩
    · obtain ⟨gone', hsweep, hs'⟩ := ih hrest hs h
      refine ⟨gone', ?_, hs'⟩
      have hglob : globEmpty (fs.without gone) path = false := by
        rw [hs] at hskip
        simpa using hskip
      obtain ⟨loc, g, hresolve, hat, hne⟩ := contentAt_of_globEmpty hglob
      have hloc := FileSystem.resolve_without hfs hresolve
      obtain rfl : loc = placeOf fs path := Except.ok.inj (hloc.symm.trans hpath)
      exact .keep hne hat hsweep
    · obtain ⟨hlstat, loc, name, hlocate, hfs'⟩ := FileSystem.rmdir_eq_ok hremove
      rw [hs] at hlstat hlocate hfs'
      obtain ⟨hplace, herase⟩ := FileSystem.eraseAt_place hfs hlocate
      have hloc : placeOf fs path = loc ++ [name] := by
        rw [placeOf, hplace]
        rfl
      obtain ⟨gone', hsweep, hs'⟩ := ih hrest (hfs'.trans herase) h
      refine ⟨gone', .drop ?_ (hloc ▸ hsweep), hs'⟩
      obtain ⟨loc', name', g, hlocate', hg, hfind⟩ := FileSystem.lstat_eq_ok hlstat
      obtain ⟨rfl, rfl⟩ := Prod.mk.inj (Except.ok.inj (hlocate.symm.trans hlocate'))
      rw [hloc]
      exact Forest.contentAt_concat hg hfind

/-- A successful end of a run. -/
theorem tidyVictimDirs_succeeds {self : Purger} {s : Progress}
    (h : (tidyVictimDirs order refused self plan s).result = .ok ()) :
    ∃ s', removeDirectories refused (victims order plan s) s = (s', none) ∧ s'.failed = [] := by
  rw [tidyVictimDirs] at h
  split at h
  · cases h
  · next s' hs' =>
    split at h
    · cases h
    · next hfailed => exact ⟨s', hs', not_not.1 hfailed⟩

/-- **A successful run** sweeps the tree that the removal of the files leaves. -/
theorem carryOut_sweep {self : Purger} (hfs : fs.content.WellFormed)
    (hdirectories : ∀ path, path ∈ plan.directories ↔ ∃ d ∈ policy.directories, d.path = path)
    (hok : (carryOut order refused self plan fs).result = .ok ()) :
    let fs₁ := withoutPlanned plan fs
    ∃ gone, Forest.Sweep fs₁.content (placeOf fs₁) (victims order plan { fs := fs₁ })
        (fun _ ↦ false) gone ∧ (carryOut order refused self plan fs).fs = fs₁.without gone := by
  intro fs₁
  have hfs₁ : fs₁.content.WellFormed := hfs.without []
  rcases hs : removeFiles refused (plan.files.map FileRecord.path) { fs } with ⟨s, _ | e⟩
  · have hrun : carryOut order refused self plan fs = tidyVictimDirs order refused self plan s := by
      simp only [carryOut, hs]
    rw [hrun] at hok ⊢
    obtain ⟨s', hs', hfailed'⟩ := tidyVictimDirs_succeeds hok
    rw [(tidyVictimDirs_state order refused self plan s).1, hs']
    have hfailed : s.failed = [] := by
      by_contra hne
      exact failed_of_removeEach hs' hne hfailed'
    have hleft : s.fs = fs₁ := by
      have hnone : fs = fs.without fun _ ↦ false := fs.without_none.symm
      rw [removeFiles_succeeds hfs hnone hs hfailed]
      simp only [fs₁, withoutPlanned, Bool.false_or, List.any_map]
      rfl
    have hpaths : ∀ path ∈ victims order plan s, fs₁.resolve path = .ok (placeOf fs₁ path) := by
      intro path hpath
      obtain ⟨loc, content, helig⟩ := (mem_victims_iff hfs₁ hdirectories hleft).1 hpath
      obtain ⟨d, -, hsub⟩ := helig.below
      obtain ⟨hresolve, hplace⟩ := hsub.place_eq hfs₁
      rw [hresolve, placeOf, hplace]
      rfl
    have hvictims : victims order plan s = victims order plan { fs := fs₁ } := by
      rw [victims, hleft]
      rfl
    rw [← hvictims]
    exact removeDirectories_sweep hfs₁ hpaths (hleft.trans fs₁.without_none.symm) hs' hfailed'
  · simp only [carryOut, hs] at hok
    cases hok

/-! ### The result -/

theorem Subdirectory.of_without (hfs : fs.content.WellFormed) {gone : List String → Bool}
    {pdir path : Path} {loc : List String} {content : Forest Stat}
    (h : Subdirectory (fs.without gone) pdir path loc content) :
    ∃ g, Subdirectory fs pdir path loc g := by
  obtain ⟨start, base, names, hstart, hbase, hne, hcontent, hpath, hloc⟩ := h
  obtain ⟨-, base', hbase', rfl⟩ := (Forest.contentAt_without hfs _ _).1 hbase
  obtain ⟨-, g, hg, -⟩ := (Forest.contentAt_without (hfs.contentAt hbase') _ _).1 hcontent
  exact ⟨g, start, base', names, FileSystem.resolve_without hfs hstart, hbase', hne, hg, hpath, hloc⟩

/-- **No empty directories are left behind** exactly in the orders in which each comes after the
directories in it. -/
theorem purge_tidies_iff {config : Config} {now : Datetime} (hfs : fs.content.WellFormed)
    (hplan : makePlan config policy now fs = .ok plan) (hdry : config.dryRun = false)
    (hfuture : config.futureDuration.getD 0 = 0)
    (hok : (purge order refused ⟨config, some plan⟩ fs).result = .ok ()) :
    LeavesTidy policy plan fs (purge order refused ⟨config, some plan⟩ fs).fs ↔
      VisitsChildrenFirst order plan fs := by
  have hdirectories : ∀ path, path ∈ plan.directories ↔ ∃ d ∈ policy.directories, d.path = path :=
    fun path ↦ mem_directories_of_makePlan hplan
  have hrun : purge order refused ⟨config, some plan⟩ fs =
      carryOut order refused ⟨config, some plan⟩ plan fs :=
    (if_neg (by simp [hdry])).trans (if_neg (by simp [hfuture]))
  rw [hrun] at hok ⊢
  obtain ⟨gone, hsweep, hleft⟩ := carryOut_sweep hfs hdirectories hok
  rw [hleft]
  have hfs₁ : (withoutPlanned plan fs).content.WellFormed := hfs.without []
  have hclosed : Forest.ClosedBelow (withoutPlanned plan fs).content
      (placeOf (withoutPlanned plan fs)) (victims order plan { fs := withoutPlanned plan fs }) :=
    closedBelow_victims hfs₁ hdirectories rfl
  unfold LeavesTidy VisitsChildrenFirst
  generalize withoutPlanned plan fs = fs₁ at hsweep hfs₁ hclosed ⊢
  have hmem : ∀ {path : Path}, path ∈ victims order plan { fs := fs₁ } ↔
      ∃ loc content, Eligible fs₁ policy path loc content :=
    mem_victims_iff hfs₁ hdirectories rfl
  have hplace : ∀ {path : Path} {loc : List String} {content : Forest Stat},
      Eligible fs₁ policy path loc content →
        placeOf fs₁ path = loc ∧ fs₁.content.contentAt loc = some content := by
    intro path loc content helig
    obtain ⟨d, -, hsub⟩ := helig.below
    rw [placeOf, (hsub.place_eq hfs₁).2]
    exact ⟨rfl, hsub.contentAt⟩
  have htidied : fs₁.without gone = tidied policy fs₁ ↔
      Forest.ChildrenFirst fs₁.content (placeOf fs₁) (victims order plan { fs := fs₁ }) := by
    rw [← hsweep.forall_gone_iff_childrenFirst hfs₁ hclosed, ← hsweep.without_eq_iff hfs₁ hclosed]
    · exact ⟨fun h ↦ congrArg FileSystem.content h, fun h ↦ congrArg (fun content ↦ FileSystem.mk content fs₁.cwd) h⟩
    · intro loc
      classical
      rw [decide_eq_true_eq]
      constructor
      · rintro ⟨path, content, helig, hhollow⟩
        obtain ⟨hloc, hat⟩ := hplace helig
        exact ⟨path, hmem.2 ⟨loc, content, helig⟩, hloc, content, hat, hhollow⟩
      · rintro ⟨path, hpath, rfl, g, hg, hhollow⟩
        obtain ⟨loc, content, helig⟩ := hmem.1 hpath
        obtain ⟨rfl, hat⟩ := hplace helig
        obtain rfl := Option.some.inj (hg.symm.trans hat)
        exact ⟨path, g, helig, hhollow⟩
  refine ⟨fun h ↦ htidied.1 h.2, fun hfirst ↦ ⟨?_, htidied.2 hfirst⟩⟩
  rintro path loc content ⟨⟨d, hd, hsub⟩, hnamed⟩ rfl
  obtain ⟨g, hsub₁⟩ := hsub.of_without hfs₁
  have helig : Eligible fs₁ policy path loc g := ⟨⟨d, hd, hsub₁⟩, hnamed⟩
  have hkept := (hsweep.forall_gone_iff hfs₁ hclosed).2
    ((hsweep.forall_gone_iff_childrenFirst hfs₁ hclosed).2 hfirst) path (hmem.2 ⟨loc, g, helig⟩)
  rw [(hplace helig).1] at hkept
  exact hkept hsub.contentAt

section Sample

/-- `/scratch` with an empty directory in a directory of its own. -/
def nestedDirs : FileSystem Stat where
  content := .directory "scratch" (.directory "tmp" (.directory "job" .nil .nil) .nil) .nil

/-- The longest path is visited first, and nothing is left below the policy directory. -/
theorem purge_tidies_sample :
    let policy : Policy := ⟨[accessPolicy ⟨"/", ["scratch"]⟩ 7]⟩
    ∃ plan, makePlan {} policy (732 * 86400000000) nestedDirs = .ok plan ∧
      LeavesTidy policy plan nestedDirs
        (purge insertionOrder (fun _ ↦ none) ⟨{}, some plan⟩ nestedDirs).fs := by
  intro policy
  obtain ⟨plan, hplan, hok, hfirst⟩ : ∃ plan, makePlan {} policy (732 * 86400000000) nestedDirs =
      .ok plan ∧ (purge insertionOrder (fun _ ↦ none) ⟨{}, some plan⟩ nestedDirs).result = .ok () ∧
        VisitsChildrenFirst insertionOrder plan nestedDirs := exists_ok (by decide +kernel)
  exact ⟨plan, hplan, (purge_tidies_iff (by decide) hplan rfl rfl hok).2 hfirst⟩

/-- Visit the elements the other way round. -/
def reverseOrder : PathOrder where
  toList l := l.dedup.reverse
  mem_toList _ _ := List.mem_reverse.trans List.mem_dedup
  nodup_toList l := List.nodup_reverse.2 (List.nodup_dedup l)

/-- **A purge that leaves an empty directory behind**: nothing fails, and yet the directory whose only
subdirectory was removed is left. Another order leaves none. -/
theorem purge_leaves_empty :
    let policy : Policy := ⟨[accessPolicy ⟨"/", ["scratch"]⟩ 7]⟩
    ∃ plan, makePlan {} policy (732 * 86400000000) nestedDirs = .ok plan ∧
      let run := purge reverseOrder (fun _ ↦ none) ⟨{}, some plan⟩ nestedDirs
      run.result = .ok () ∧ ¬ Tidy policy run.fs ∧
        (purge insertionOrder (fun _ ↦ none) ⟨{}, some plan⟩ nestedDirs).fs ≠ run.fs := by
  intro policy
  obtain ⟨plan, hplan, hok, hfs, hne⟩ : ∃ plan, makePlan {} policy (732 * 86400000000) nestedDirs =
      .ok plan ∧ (purge reverseOrder (fun _ ↦ none) ⟨{}, some plan⟩ nestedDirs).result = .ok () ∧
      (purge reverseOrder (fun _ ↦ none) ⟨{}, some plan⟩ nestedDirs).fs =
        ⟨.directory "scratch" (.directory "tmp" .nil .nil) .nil, []⟩ ∧
      (purge insertionOrder (fun _ ↦ none) ⟨{}, some plan⟩ nestedDirs).fs ≠
        (purge reverseOrder (fun _ ↦ none) ⟨{}, some plan⟩ nestedDirs).fs :=
    exists_ok (by decide +kernel)
  refine ⟨plan, hplan, hok, fun htidy ↦ ?_, hne⟩
  rw [hfs] at htidy
  refine htidy ⟨"/", ["scratch", "tmp"]⟩ ["scratch", "tmp"] .nil ⟨?_, ?_⟩ rfl
  · exact ⟨accessPolicy ⟨"/", ["scratch"]⟩ 7, by simp [policy], ["scratch"],
      .directory "tmp" .nil .nil, ["tmp"], by decide +kernel, by decide, by simp, by decide, rfl, rfl⟩
  · decide

end Sample

end Nublado.Purger
