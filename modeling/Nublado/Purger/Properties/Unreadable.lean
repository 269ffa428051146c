import Nublado.Foundations.Hiding
import Nublado.Purger.Properties.ExactPlan
import Nublado.Purger.Unreadable

/-!
# Planning survives unreadable files

Files whose status is refused should be skipped, and all others planned as if those were not there.

* `PlansWithout` is the promise: the plan is the one that is made for the tree without those files.
  It is stated for any policy, also with directories that are given twice or reached through symbolic
  links.
* `checks_hideFiles` compares the two runs: the second checks the same files in the same order, but
  for the refused ones.
* A file that is not found is skipped (`checkUnreadable_of_fileNotFound`); a file that may not be read
  is not, and planning fails. This is `plansWithout_iff`, and `permission_fails` is a tree with one
  such file.
-/

namespace Nublado.Purger

open Images (Datetime Timedelta)

variable {fails : StatFailures} {fs : FileSystem Stat} {policy : Policy} {when : Datetime}

/-- The tree without the files that are refused. -/
def withoutRefused (fails : StatFailures) (fs : FileSystem Stat) : FileSystem Stat :=
  fs.hideFiles fun loc ↦ (fails loc).isSome

/-- A path stands for a file that is refused. -/
def refusesFile (fails : StatFailures) (fs : FileSystem Stat) (path : Path) : Bool :=
  match fs.lstat path with
  | .ok (.file _) => (statFailure fails fs path).isSome
  | _ => false

/-- **The promise**: a plan is made, without the refused files, and it is the plan for the tree
without them. -/
def PlansWithout (fails : StatFailures) (config : Config) (policy : Policy) (now : Datetime)
    (fs : FileSystem Stat) : Prop :=
  ∃ plan, planUnreadable fails config policy now fs = .ok plan ∧
    (∀ record ∈ plan.files, refusesFile fails fs record.path = false) ∧
    makePlan config policy now (withoutRefused fails fs) = .ok plan

/-! ### The policies that are consulted -/

/-- The policies of the directories in the order in which these are considered: the first for each
path. -/
def consulted (policy : Policy) : List DirectoryPolicy :=
  policy.getDirectories.reverse.filterMap fun path ↦ policy.directories.find? fun d ↦ d.path = path

theorem getDirectoryPolicy_of_mem_consulted {d : DirectoryPolicy} (hd : d ∈ consulted policy) :
    getDirectoryPolicy d.path policy = .ok d := by
  obtain ⟨path, -, hfind⟩ := List.mem_filterMap.1 hd
  obtain rfl : d.path = path := by simpa using List.find?_some hfind
  rw [getDirectoryPolicy, hfind]

theorem map_consulted (policy : Policy) :
    (consulted policy).map DirectoryPolicy.path = policy.getDirectories.reverse := by
  have hfound : ∀ path ∈ policy.getDirectories.reverse, ∃ d,
      policy.directories.find? (fun d ↦ d.path = path) = some d ∧ d.path = path := by
    intro path hpath
    have hmem : path ∈ policy.directories.map DirectoryPolicy.path :=
      (List.perm_insertionSort _ _).mem_iff.1 (List.mem_reverse.1 hpath)
    obtain ⟨d, hd, rfl⟩ := List.mem_map.1 hmem
    obtain ⟨e, he⟩ := Option.isSome_iff_exists.1
      (List.find?_isSome.2 ⟨d, hd, by simp⟩ :
        (policy.directories.find? fun e ↦ e.path = d.path).isSome = true)
    exact ⟨e, he, by simpa using List.find?_some he⟩
  unfold consulted
  generalize policy.getDirectories.reverse = paths at hfound ⊢
  induction paths with
  | nil => rfl
  | cons path paths ih =>
    obtain ⟨hpath, hpaths⟩ := List.forall_mem_cons.1 hfound
    obtain ⟨d, hd, hdpath⟩ := hpath
    rw [List.filterMap_cons]
    simp only [hd, List.map_cons, hdpath, ih hpaths]

/-! ### The files that are checked -/

/-- What is checked is listed by a walk. -/
theorem listed_of_mem_checks (hfs : fs.content.WellFormed) {visited : List Path}
    {ds : List DirectoryPolicy} {x : Path × DirectoryPolicy} (hx : x ∈ checks fs visited ds) :
    ∃ e loc name, fs.Listed x.1 e loc name := by
  induction ds generalizing visited with
  | nil => cases hx
  | cons d ds ih =>
    rcases List.mem_append.1 hx with hx | hx
    · obtain ⟨path, hpath, rfl⟩ := List.mem_map.1 hx
      obtain ⟨v, hv, hvisit⟩ := List.mem_flatMap.1 hpath
      obtain ⟨name, hname, rfl⟩ := List.mem_map.1 hvisit
      obtain ⟨loc, e, -, hlisted⟩ :=
        FileSystem.listed_of_mem_walk hfs (List.mem_filter.1 hv).1 hname
      exact ⟨e, _, name, hlisted⟩
    · exact ih hx

/-- **What is hidden** is what is refused. -/
theorem refusesFile_eq (hfs : fs.content.WellFormed) {path : Path} {e : Entry Stat}
    {loc : List String} {name : String} (h : fs.Listed path e loc name) :
    refusesFile fails fs path =
      ((fails (loc ++ [name])).isSome && fs.content.isFileAt (loc ++ [name])) := by
  obtain ⟨g, hg, he⟩ := h.entry
  rw [refusesFile, h.lstat_eq hfs]
  rcases e with a | target | content
  · have hfile : fs.content.isFileAt (loc ++ [name]) = true :=
      Forest.isFileAt_concat.2 ⟨g, a, hg, he⟩
    rw [hfile, Bool.and_true]
    show (statFailure fails fs path).isSome = _
    rw [statFailure, h.resolve_eq hfs]
  · have hnot : fs.content.isFileAt (loc ++ [name]) = false := by
      refine Bool.eq_false_iff.2 fun hfile ↦ ?_
      obtain ⟨g', a, hg', ha⟩ := Forest.isFileAt_concat.1 hfile
      obtain rfl := Option.some.inj (hg.symm.trans hg')
      rw [he] at ha
      cases ha
    rw [hnot, Bool.and_false]
  · exact absurd rfl (h.not_directory content)

/-- **One policy directory** of the tree without the refused files. -/
theorem filesChecked_hideFiles (hfs : fs.content.WellFormed) (visited : List Path)
    (consider : Path) : filesChecked (withoutRefused fails fs) visited consider =
      (filesChecked fs visited consider).filter fun path ↦ !refusesFile fails fs path := by
  have hvisits : ∀ visits : List Visit, (∀ v ∈ visits, v ∈ fs.walk consider) →
      ((visits.map (Forest.trim (fun loc ↦ (fails loc).isSome && fs.content.isFileAt loc) consider
          ((fs.resolve consider).toOption.getD []))).filter
            fun v ↦ !checkVisited v.dirpath visited).flatMap Forest.visitFiles =
        ((visits.filter fun v ↦ !checkVisited v.dirpath visited).flatMap Forest.visitFiles).filter
          fun path ↦ !refusesFile fails fs path := by
    intro visits hmem
    induction visits with
    | nil => rfl
    | cons v visits ih =>
      obtain ⟨hv, hrest⟩ := List.forall_mem_cons.1 hmem
      rw [List.map_cons]
      rcases hvisited : checkVisited v.dirpath visited with _ | _
      · rw [List.filter_cons_of_pos (by simpa [Forest.trim] using hvisited),
          List.filter_cons_of_pos (by simp [hvisited]), List.flatMap_cons, List.flatMap_cons,
          List.filter_append, ih hrest]
        congr 1
        show (v.filenames.filter _).map v.dirpath.child =
          (v.filenames.map v.dirpath.child).filter _
        rw [List.filter_map]
        refine congrArg _ (List.filter_congr fun name hname ↦ ?_)
        obtain ⟨loc, e, hresolve, hlisted⟩ := FileSystem.listed_of_mem_walk hfs hv hname
        rw [hresolve]
        show (!((fails _).isSome && fs.content.isFileAt _)) = !refusesFile fails fs _
        rw [refusesFile_eq hfs hlisted]
        rfl
      · rw [List.filter_cons_of_neg (by simpa [Forest.trim] using hvisited),
          List.filter_cons_of_neg (by simp [hvisited])]
        exact ih hrest
  unfold filesChecked withoutRefused
  rw [FileSystem.walk_hideFiles hfs consider]
  exact hvisits _ fun _ hv ↦ hv

/-- **The run on the tree without the refused files** checks the others, in the same order. -/
theorem checks_hideFiles (hfs : fs.content.WellFormed) (visited : List Path)
    (ds : List DirectoryPolicy) : checks (withoutRefused fails fs) visited ds =
      (checks fs visited ds).filter fun x ↦ !refusesFile fails fs x.1 := by
  induction ds generalizing visited with
  | nil => rfl
  | cons d ds ih =>
    rw [checks, checks, List.filter_append, ih, filesChecked_hideFiles hfs, List.filter_map]
    rfl

/-! ### Checks of single files -/

/-- A file that is not found is skipped. -/
theorem checkUnreadable_of_fileNotFound {path : Path} {d : DirectoryPolicy}
    (h : statFailure fails fs path = some .fileNotFound) :
    checkUnreadable fails fs path d when = .ok none := by
  unfold checkUnreadable
  rw [h]
  rcases fs.lstat path with e | _ | _ | _ <;> rfl

/-- **A file that may not be read** ends the run. -/
theorem checkUnreadable_of_permission {path : Path} {d : DirectoryPolicy} {st : Stat}
    (hfile : fs.lstat path = .ok (.file st)) (h : statFailure fails fs path = some .permission) :
    checkUnreadable fails fs path d when = .error .unboundLocalError := by
  rw [checkUnreadable, hfile, h]

/-- A file that is not refused is checked as in the tree without the refused files. -/
theorem checkUnreadable_eq (hfs : fs.content.WellFormed) {path : Path} {d : DirectoryPolicy}
    {e : Entry Stat} {loc : List String} {name : String} (h : fs.Listed path e loc name)
    (hshown : refusesFile fails fs path = false) :
    checkUnreadable fails fs path d when = check fs when (path, d) ∧
      check (withoutRefused fails fs) when (path, d) = check fs when (path, d) := by
  have hlstat := h.lstat_eq hfs
  have hwellFormed : (withoutRefused fails fs).content.WellFormed := hfs.hide []
  have hhidden : (withoutRefused fails fs).Listed path e loc name := by
    refine h.hideFiles hfs fun a ha ↦ ?_
    obtain ⟨g, hg, he⟩ := h.entry
    have hfile : fs.content.isFileAt (loc ++ [name]) = true :=
      Forest.isFileAt_concat.2 ⟨g, a, hg, ha ▸ he⟩
    rw [refusesFile_eq hfs h, hfile, Bool.and_true] at hshown
    exact hshown
  have hlstatHidden := hhidden.lstat_eq hwellFormed
  rcases e with a | target | content
  · have hnone : statFailure fails fs path = none := by
      rw [refusesFile, hlstat] at hshown
      exact Option.not_isSome_iff_eq_none.1 (by simpa using hshown)
    refine ⟨checkUnreadable_of_none fails hnone d when, ?_⟩
    simp only [check, checkFile, hlstat, hlstatHidden, h.stat_eq hfs, hhidden.stat_eq hwellFormed]
  · refine ⟨?_, ?_⟩
    · simp only [checkUnreadable, check, checkFile, hlstat]
    · simp only [check, checkFile, hlstat, hlstatHidden]
  · exact absurd rfl (h.not_directory content)

/-! ### The result -/

/-- **When planning survives**: the dates exist that it computes, those of the files that are refused
apart, and no file that it checks is refused for lack of permission. -/
def Survives (fails : StatFailures) (config : Config) (policy : Policy) (now : Datetime)
    (fs : FileSystem Stat) : Prop :=
  (∀ later, config.futureDuration = some later → later ≠ 0 → Datetime.Exists (now + later)) ∧
  ∀ x ∈ checks fs [] (consulted policy), ∀ st, fs.lstat x.1 = .ok (.file st) →
    statFailure fails fs x.1 ≠ some .permission ∧
      (statFailure fails fs x.1 = none → Judgeable x.2 (horizon config now) st)

/-- Leaving out beforehand what yields nothing. -/
theorem filterMap_filter_eq {α β : Type} {f g : α → Option β} {p : α → Bool} {l : List α}
    (hkept : ∀ a ∈ l, p a = true → f a = g a) (hdropped : ∀ a ∈ l, p a = false → g a = none) :
    (l.filter p).filterMap f = l.filterMap g := by
  induction l with
  | nil => rfl
  | cons a l ih =>
    obtain ⟨ha, hl⟩ := List.forall_mem_cons.1 hkept
    obtain ⟨ha', hl'⟩ := List.forall_mem_cons.1 hdropped
    rcases hp : p a with _ | _
    · rw [List.filter_cons_of_neg (by simp [hp]), List.filterMap_cons_none (ha' hp), ih hl hl']
    · rw [List.filter_cons_of_pos hp, List.filterMap_cons, List.filterMap_cons, ha hp, ih hl hl']

/-- **Planning survives unreadable files** exactly under the condition. -/
theorem plansWithout_iff {config : Config} {now : Datetime} (hfs : fs.content.WellFormed) :
    PlansWithout fails config policy now fs ↔ Survives fails config policy now fs := by
  have hds : ∀ d ∈ consulted policy, getDirectoryPolicy d.path policy = .ok d :=
    fun d hd ↦ getDirectoryPolicy_of_mem_consulted hd
  have hplan : planUnreadable fails config policy now fs = planWith
      (fun when x ↦ checkUnreadable fails fs x.1 x.2 when) config policy now fs := rfl
  have hhidden : makePlan config policy now (withoutRefused fails fs) = planWith
      (check (withoutRefused fails fs)) config policy now (withoutRefused fails fs) := rfl
  unfold PlansWithout
  rw [hplan, hhidden]
  constructor
  · rintro ⟨plan, hok, -, -⟩
    obtain ⟨when, htime, hchecks, -⟩ := (planWith_eq_ok hds (map_consulted policy)).1 hok
    obtain ⟨rfl, hexists⟩ := planTime_eq_ok.1 htime
    refine ⟨hexists, fun x hx st hst ↦ ?_⟩
    obtain ⟨r, hr⟩ := hchecks x hx
    refine ⟨fun hpermission ↦ ?_, fun hnone ↦ ?_⟩
    · rw [checkUnreadable_of_permission hst hpermission] at hr
      cases hr
    · obtain ⟨e, loc, name, hlisted⟩ := listed_of_mem_checks hfs hx
      obtain rfl := Except.ok.inj ((hlisted.lstat_eq hfs).symm.trans hst)
      rw [checkUnreadable_of_none fails hnone] at hr
      rcases check_spec (horizon config now) x.2 hst (fun st heq ↦ by
        obtain rfl := Entry.file.inj heq
        exact hlisted.stat_eq hfs) (by simp) with ⟨hjudgeable, -⟩ | ⟨-, error, herror⟩
      · exact hjudgeable st rfl
      · cases hr.symm.trans herror
  · rintro ⟨hexists, hsurvives⟩
    have htime : planTime config now = .ok (horizon config now) := planTime_eq_ok.2 ⟨rfl, hexists⟩
    -- a file that is refused yields nothing
    have hrefused : ∀ x ∈ checks fs [] (consulted policy), refusesFile fails fs x.1 = true →
        checkUnreadable fails fs x.1 x.2 (horizon config now) = .ok none := by
      intro x hx hrefuses
      unfold refusesFile at hrefuses
      split at hrefuses
      · next st hst =>
        obtain ⟨failure, hfailure⟩ := Option.isSome_iff_exists.1 hrefuses
        rcases failure with _ | _
        · exact checkUnreadable_of_fileNotFound hfailure
        · exact absurd hfailure (hsurvives x hx st hst).1
      · cases hrefuses
    -- any other is checked alike in both runs
    have hshown : ∀ x ∈ checks fs [] (consulted policy), refusesFile fails fs x.1 = false →
        checkUnreadable fails fs x.1 x.2 (horizon config now) =
            check (withoutRefused fails fs) (horizon config now) x ∧
          ∃ r, check (withoutRefused fails fs) (horizon config now) x = .ok r ∧
            ∀ record ∈ r, record.path = x.1 := by
      intro x hx hshown
      obtain ⟨e, loc, name, hlisted⟩ := listed_of_mem_checks hfs hx
      obtain ⟨heq, hsame⟩ := @checkUnreadable_eq fails fs (horizon config now) hfs x.1 x.2 e loc name
        hlisted hshown
      have hsame : check (withoutRefused fails fs) (horizon config now) x =
        check fs (horizon config now) x := hsame
      rw [hsame]
      refine ⟨heq, ?_⟩
      rcases check_spec (horizon config now) x.2 (hlisted.lstat_eq hfs) (fun st heq ↦ by
        subst heq
        exact hlisted.stat_eq hfs) hlisted.not_directory with
        ⟨-, r, hr, -, hpath⟩ | ⟨⟨st, rfl, hnot⟩, -⟩
      · exact ⟨r, hr, hpath⟩
      · have hst := hlisted.lstat_eq hfs
        rw [refusesFile, hst] at hshown
        exact absurd ((hsurvives x hx st hst).2 (Option.not_isSome_iff_eq_none.1
          (by simpa using hshown))) hnot
    refine ⟨⟨_, _⟩, (planWith_eq_ok hds (map_consulted policy)).2
      ⟨_, htime, fun x hx ↦ ?_, rfl, rfl⟩, ?_, (planWith_eq_ok hds (map_consulted policy)).2
      ⟨_, htime, fun x hx ↦ ?_, rfl, ?_⟩⟩
    · rcases hrefuses : refusesFile fails fs x.1 with _ | _
      · obtain ⟨heq, r, hr, -⟩ := hshown x hx hrefuses
        exact ⟨r, heq.trans hr⟩
      · exact ⟨none, hrefused x hx hrefuses⟩
    · intro record hrecord
      obtain ⟨x, hx, hfound⟩ := List.mem_filterMap.1 hrecord
      rcases hrefuses : refusesFile fails fs x.1 with _ | _
      · obtain ⟨heq, r, hr, hpath⟩ := hshown x hx hrefuses
        rw [found, heq, hr] at hfound
        rw [hpath record hfound]
        exact hrefuses
      · rw [found, hrefused x hx hrefuses] at hfound
        cases hfound
    · rw [checks_hideFiles hfs] at hx
      obtain ⟨hx, hshows⟩ := List.mem_filter.1 hx
      obtain ⟨-, r, hr, -⟩ := hshown x hx (by simpa using hshows)
      exact ⟨r, hr⟩
    · show List.filterMap _ _ = List.filterMap _ (checks (withoutRefused fails fs) [] _)
      rw [checks_hideFiles hfs]
      refine (filterMap_filter_eq (fun x hx hshows ↦ ?_) fun x hx hhides ↦ ?_).symm
      · rw [found, found, (hshown x hx (by simpa using hshows)).1]
      · rw [found, hrefused x hx (by simpa using hhides)]

/-! ### Two trees -/

section Sample

/-- The file in `/scratch` is refused. -/
def oldRefused (error : StatError) : StatFailures := fun loc ↦
  if loc = ["scratch", "old"] then some error else none

/-- A file that vanishes before it is checked is skipped. -/
theorem plansWithout_sample :
    PlansWithout (oldRefused .fileNotFound) {} scratchPolicy (732 * 86400000000) scratch := by
  refine (plansWithout_iff (by decide +kernel)).2 ⟨by simp, ?_⟩
  have hchecks : checks scratch [] (consulted scratchPolicy) =
      [(⟨"/", ["scratch", "foo", "bar", "old"]⟩,
          accessPolicy ⟨"/", ["scratch", "foo", "bar"]⟩ 36525),
        (⟨"/", ["scratch", "old"]⟩, accessPolicy ⟨"/", ["scratch"]⟩ 7),
        (⟨"/", ["scratch", "link"]⟩, accessPolicy ⟨"/", ["scratch"]⟩ 7)] := by
    decide +kernel
  rw [hchecks]
  simp only [List.forall_mem_cons]
  refine ⟨fun st hst ↦ ⟨by decide +kernel, fun _ ↦ ?_⟩,
    fun st _ ↦ ⟨by decide +kernel, fun hnone ↦ ?_⟩, fun st hst ↦ ?_, by simp⟩
  · obtain rfl : st = oldFile := Entry.file.inj (Except.ok.inj (hst.symm.trans (by decide +kernel)))
    exact judgeable_accessPolicy _ _ (by omega)
  · exact absurd hnone (by decide +kernel)
  · exact absurd (Except.ok.inj (hst.symm.trans
      (by decide +kernel : _ = Except.ok (Entry.symlink ⟨"", ["old"]⟩)))) (by simp)

/-- **One file that may not be read** makes planning fail: no plan is made at all. -/
theorem permission_fails : scratch.content.WellFormed ∧
    ¬PlansWithout (oldRefused .permission) {} scratchPolicy (732 * 86400000000) scratch := by
  refine ⟨by decide +kernel, ?_⟩
  rintro ⟨plan, hplan, -⟩
  have hfails : (planUnreadable (oldRefused .permission) {} scratchPolicy (732 * 86400000000)
      scratch).toOption = none := by
    decide +kernel
  rw [hplan] at hfails
  cases hfails

end Sample

end Nublado.Purger
