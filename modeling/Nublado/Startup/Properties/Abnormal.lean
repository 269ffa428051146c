import Nublado.Startup.Preparer

/-!
# Where the notice of an abnormal startup is

A startup that has gone wrong is given a home directory in which a notice explains what happened. Two
functions choose the directory: the notice is written below the `SCRATCH_DIR` of the preparer's own
environment, and the lab is started in the `SCRATCH_DIR` of the environment that has been configured for
it; either is `/tmp` if the variable is not set.

`lookup_configureEnv` says when the configuration sets the variable, from what the container is like
(`IsScratchDir`), and `notice_found_iff` compares the two.
-/

namespace Nublado.Startup

variable {o : Outside} {env : Env} {home dir : Path} {key : String}

/-! ### Paths -/

/-- A directory is the directory or above it. -/
def IsOrAbove (p q : Path) : Prop := p = q ∨ p.Above q

theorem prefix_of_prefix_both {α : Type} {l a xs ys : List α} {x y : α} (hx : l <+: a ++ x :: xs)
    (hy : l <+: a ++ y :: ys) (hne : x ≠ y) : l <+: a := by
  induction a generalizing l with
  | nil =>
    rcases l with _ | ⟨z, l⟩
    · exact List.prefix_refl _
    · obtain ⟨rfl, -⟩ := List.cons_prefix_cons.1 hx
      obtain ⟨rfl, -⟩ := List.cons_prefix_cons.1 hy
      exact absurd rfl hne
  | cons b a ih =>
    rcases l with _ | ⟨z, l⟩
    · exact List.nil_prefix
    · obtain ⟨heq, hx'⟩ := List.cons_prefix_cons.1 hx
      obtain ⟨-, hy'⟩ := List.cons_prefix_cons.1 hy
      exact List.cons_prefix_cons.2 ⟨heq, ih hx' hy'⟩

/-- The directory in which the notice is written. -/
def noticeDir (o : Outside) : Path := Path.parse ((o.environ "SCRATCH_DIR").getD "/tmp")

/-- A name is added to a path as it is. -/
theorem joinText_name {p : Path} {name : String} (h : Path.parse name = ⟨"", [name]⟩) :
    p.joinText name = p.child name := by
  rw [Path.joinText, h]
  rfl

theorem makeAbnormalStartupEnvironment_eq (o : Outside) :
    Preparer.makeAbnormalStartupEnvironment o =
      { welcome := ⟨(noticeDir o).anchor, (noticeDir o).parts ++ ["notebooks", "tutorials", "welcome.md"]⟩
        settings := ⟨(noticeDir o).anchor, (noticeDir o).parts ++ [".jupyter", "lab", "user-settings",
          "@jupyterlab", "docmanager-extension", "plugin.jupyterlab-settings"]⟩ } := by
  rw [Preparer.makeAbnormalStartupEnvironment, joinText_name (by decide), joinText_name (by decide),
    joinText_name (by decide), joinText_name (by decide), joinText_name (by decide),
    joinText_name (by decide), joinText_name (by decide), joinText_name (by decide),
    joinText_name (by decide)]
  simp [Path.child, noticeDir]

/-- What is above both files is the directory of the notice or above it. -/
theorem above_notice_iff {p : Path} :
    p.Above (Preparer.makeAbnormalStartupEnvironment o).welcome ∧
      p.Above (Preparer.makeAbnormalStartupEnvironment o).settings ↔ IsOrAbove p (noticeDir o) := by
  rw [makeAbnormalStartupEnvironment_eq]
  obtain ⟨anchor, parts⟩ := p
  constructor
  · rintro ⟨⟨hanchor, hwelcome, -⟩, -, hsettings, -⟩
    have hinit := prefix_of_prefix_both hwelcome hsettings (by decide)
    by_cases heq : (⟨anchor, parts⟩ : Path) = noticeDir o
    · exact Or.inl heq
    · exact Or.inr ⟨hanchor, hinit, heq⟩
  · intro h
    have hinit : anchor = (noticeDir o).anchor ∧ parts <+: (noticeDir o).parts := by
      rcases h with h | ⟨hanchor, hinit, -⟩
      · rw [← h]
        exact ⟨rfl, List.prefix_refl _⟩
      · exact ⟨hanchor, hinit⟩
    have hlong : ∀ names, names ≠ [] →
        (⟨anchor, parts⟩ : Path).Above ⟨(noticeDir o).anchor, (noticeDir o).parts ++ names⟩ := by
      intro names hne
      refine ⟨hinit.1, hinit.2.trans (List.prefix_append _ _), fun heq ↦ hne ?_⟩
      have hlength := congrArg List.length (Path.mk.inj heq).2
      have hle := hinit.2.length_le
      rw [List.length_append] at hlength
      exact List.length_eq_zero_iff.1 (by omega)
    exact ⟨hlong _ (by decide), hlong _ (by decide)⟩

/-! ### Which variables are set -/

theorem lookup_dictInsert_of_ne {name value : String} (h : key ≠ name) :
    (dictInsert env name value).lookup key = env.lookup key := by
  rw [lookup_dictInsert, if_neg h]

theorem lookup_dictUpdate_of_not_mem {items : Env} (h : key ∉ items.map Prod.fst) :
    (dictUpdate env items).lookup key = env.lookup key := by
  have hnone : items.reverse.lookup key = none := by
    rw [← not_mem_keys_iff, List.map_reverse, List.mem_reverse]
    exact h
  rw [lookup_dictUpdate, hnone, Option.none_or]

/-- A part of the configuration leaves a variable as it is. -/
def Keeps (key : String) (step : Step) : Prop := ∀ env, (step env).1.lookup key = env.lookup key

/-- **Frame.** Parts that leave a variable as it is do so together. -/
theorem keeps_runSteps {steps : List Step} (h : ∀ step ∈ steps, Keeps key step) :
    Keeps key (runSteps steps) := by
  induction steps with
  | nil => exact fun env ↦ rfl
  | cons step steps ih =>
    obtain ⟨hstep, hsteps⟩ := List.forall_mem_cons.1 h
    intro env
    rw [runSteps]
    split
    · rw [ih hsteps, hstep]
    · exact hstep env

/-- What the first part does to a variable is all that is done to it, if the others leave it as it is. -/
theorem lookup_runSteps_cons {step : Step} {steps : List Step} (h : Keeps key (runSteps steps)) :
    (runSteps (step :: steps) env).1.lookup key = (step env).1.lookup key := by
  rw [runSteps]
  split
  · exact h _
  · rfl

namespace EnvironmentConfigurator

theorem keeps_setUser (h : key ≠ "USER") : Keeps key (setUser home) :=
  fun _ ↦ lookup_dictInsert_of_ne h

theorem keeps_setCpuVariables (h : key ∉ cpuVariables) : Keeps key (setCpuVariables o) := by
  intro env
  rcases hlimit : cpuLimit o with _ | limit
  · simp only [setCpuVariables, hlimit]
  · simp only [setCpuVariables, hlimit]
    refine lookup_dictUpdate_of_not_mem ?_
    rw [List.map_map]
    have hkeys : cpuVariables.map (Prod.fst ∘ fun name ↦ (name, toString limit)) = cpuVariables :=
      List.map_id' _
    rwa [hkeys]

theorem keeps_setImageDigest (h : key ≠ "IMAGE_DIGEST") : Keeps key (setImageDigest o) := by
  intro env
  rw [setImageDigest]
  split
  · rfl
  · exact lookup_dictInsert_of_ne h

theorem keeps_expandPandaTilde (h : key ≠ "PANDA_CONFIG_ROOT") :
    Keeps key (expandPandaTilde o home) := by
  intro env
  rw [expandPandaTilde]
  split
  · rfl
  · split
    · rfl
    · split
      · exact lookup_dictInsert_of_ne h
      · rfl

theorem keeps_setFireflyVariables (h : key ≠ "FIREFLY_URL") : Keeps key (setFireflyVariables o) := by
  intro env
  rw [setFireflyVariables]
  split
  · rfl
  · split
    · rfl
    · exact lookup_dictInsert_of_ne h

theorem keeps_forceJupyterPreferEnvPathFalse (h : key ≠ "JUPYTER_PREFER_ENV_PATH") :
    Keeps key forceJupyterPreferEnvPathFalse := fun _ ↦ lookup_dictInsert_of_ne h

theorem lookup_setCredentialVariable {name : String} (h : key ≠ name) (h' : key ≠ "ORIG_" ++ name) :
    (setCredentialVariable o home name env).lookup key = env.lookup key := by
  rw [setCredentialVariable]
  split
  · rfl
  · rw [lookup_dictInsert_of_ne h, lookup_dictInsert_of_ne h']

/-- What comes after the directories in the scratch space has variables of its own. -/
theorem keeps_rest : Keeps "SCRATCH_DIR" (runSteps [setCpuVariables o, setImageDigest o,
    expandPandaTilde o home, setFireflyVariables o, forceJupyterPreferEnvPathFalse,
    setButlerCredentialVariables o home]) := by
  refine keeps_runSteps ?_
  simp only [List.forall_mem_cons, List.not_mem_nil, false_implies, implies_true, and_true]
  refine ⟨keeps_setCpuVariables (by decide), keeps_setImageDigest (by decide),
    keeps_expandPandaTilde (by decide), keeps_setFireflyVariables (by decide),
    keeps_forceJupyterPreferEnvPathFalse (by decide), fun env ↦ ?_⟩
  show (setCredentialVariable o home _ (setCredentialVariable o home _ env)).lookup "SCRATCH_DIR" = _
  rw [lookup_setCredentialVariable (by decide) (by decide),
    lookup_setCredentialVariable (by decide) (by decide)]

/-! ### Directories in the scratch space -/

/-- A variable is not set for the preparer, and the user's directory for it in the scratch space can be
created and written to. -/
structure IsUsable (o : Outside) (user name path : String) (dir : Path) : Prop where
  unset : o.getNonempty name = none
  isDir : o.isDir (Path.parse ((o.environ "SCRATCH_PATH").getD "/scratch")) = .ok true
  dir_eq : userScratchDir o user = some dir
  mkdir : o.mkdir (dir.joinText path) = true
  access : o.access (dir.joinText path) = true

section Scratch

variable {user name path : String}

theorem userScratchSubdir_eq_ok {subdir : Path} :
    userScratchSubdir o user path = .ok (some (dir, subdir)) ↔ subdir = dir.joinText path ∧
      o.isDir (Path.parse ((o.environ "SCRATCH_PATH").getD "/scratch")) = .ok true ∧
      userScratchDir o user = some dir ∧ o.mkdir subdir = true ∧ o.access subdir = true := by
  rw [userScratchSubdir]
  rcases hdir : o.isDir (Path.parse ((o.environ "SCRATCH_PATH").getD "/scratch")) with e | _ | _
  · simp
  · simp
  · rcases huser : userScratchDir o user with _ | dir'
    · simp
    · by_cases hcond : o.mkdir (dir'.joinText path) = true ∧ o.access (dir'.joinText path) = true
      · simp only [if_pos hcond, Except.ok.injEq, Option.some.injEq, Prod.mk.injEq, true_and]
        constructor
        · rintro ⟨rfl, rfl⟩
          exact ⟨rfl, rfl, hcond⟩
        · rintro ⟨rfl, rfl, -⟩
          exact ⟨rfl, rfl⟩
      · simp only [if_neg hcond, Except.ok.injEq, Option.some.injEq, true_and]
        constructor
        · intro h
          cases h
        · rintro ⟨rfl, rfl, h⟩
          exact absurd h hcond

/-- What stops the search for one directory stops it for any. -/
theorem not_isUsable_of_error {stop : Stop} (h : userScratchSubdir o user path = .error stop)
    (name' path' : String) : ¬ IsUsable o user name' path' dir := by
  rintro ⟨-, hisDir, hdir, -, -⟩
  rw [userScratchSubdir, hisDir, hdir] at h
  dsimp only at h
  split at h <;> cases h

/-- A part of the configuration sets `SCRATCH_DIR` if a directory in the scratch space is usable, and if it
is not leaves it as it is; it is stopped by what is in the way of any such directory. -/
def SetsScratch (o : Outside) (user name path : String) (step : Step) : Prop :=
  ∀ env : Env, env.get "USER" = user → (step env).1.get "USER" = user ∧
    (((step env).2 = none ∧ ∃ dir, IsUsable o user name path dir ∧
        (step env).1.lookup "SCRATCH_DIR" = some dir.str) ∨
      ((∀ dir, ¬ IsUsable o user name path dir) ∧
        (step env).1.lookup "SCRATCH_DIR" = env.lookup "SCRATCH_DIR" ∧
        ((step env).2 ≠ none → ∀ name' path' dir, ¬ IsUsable o user name' path' dir)))

/-- **A variable for a directory in the scratch space.** -/
theorem setsScratch_setScratchVariable {default : Env → Env} (hname : name ≠ "SCRATCH_DIR")
    (hname' : name ≠ "USER")
    (hdefault : ∀ env key, key ≠ name → (default env).lookup key = env.lookup key) :
    SetsScratch o user name path (setScratchVariable o name path default) := by
  intro env huser
  rcases hset : o.getNonempty name with _ | value
  · rcases hsubdir : userScratchSubdir o user path with stop | _ | ⟨dir, subdir⟩
    · have hrun : setScratchVariable o name path default env = (env, some stop) := by
        simp only [setScratchVariable, hset, huser, hsubdir]
        rfl
      rw [hrun]
      refine ⟨huser, Or.inr ⟨fun dir ↦ not_isUsable_of_error hsubdir _ _, rfl, fun _ ↦ ?_⟩⟩
      exact fun name' path' dir ↦ not_isUsable_of_error hsubdir name' path'
    · have hrun : setScratchVariable o name path default env = (default env, none) := by
        simp only [setScratchVariable, hset, huser, hsubdir]
        rfl
      rw [hrun]
      refine ⟨?_, Or.inr ⟨?_, hdefault _ _ hname.symm, fun h ↦ absurd rfl h⟩⟩
      · rw [Env.get, hdefault _ _ hname'.symm]
        exact huser
      · rintro dir ⟨-, hisDir, hdir, hmkdir, haccess⟩
        rw [userScratchSubdir_eq_ok.2 ⟨rfl, hisDir, hdir, hmkdir, haccess⟩] at hsubdir
        cases hsubdir
    · have hrun : setScratchVariable o name path default env =
          (dictInsert (dictInsert env "SCRATCH_DIR" dir.str) name subdir.str, none) := by
        simp only [setScratchVariable, hset, huser, hsubdir]
        rfl
      rw [hrun]
      obtain ⟨rfl, hisDir, hdir, hmkdir, haccess⟩ := userScratchSubdir_eq_ok.1 hsubdir
      refine ⟨?_, Or.inl ⟨rfl, dir, ⟨hset, hisDir, hdir, hmkdir, haccess⟩, ?_⟩⟩
      · rw [Env.get, lookup_dictInsert_of_ne hname'.symm, lookup_dictInsert_of_ne (by decide)]
        exact huser
      · rw [lookup_dictInsert_of_ne hname.symm, lookup_dictInsert, if_pos rfl]
  · have hrun : setScratchVariable o name path default env = (env, none) := by
      simp only [setScratchVariable, hset]
      rfl
    rw [hrun]
    refine ⟨huser, Or.inr ⟨?_, rfl, fun h ↦ absurd rfl h⟩⟩
    rintro dir ⟨hunset, -⟩
    rw [hset] at hunset
    cases hunset

theorem setsScratch_setTmpdirIfScratchAvailable :
    SetsScratch o user "TMPDIR" "tmp" (setTmpdirIfScratchAvailable o) :=
  setsScratch_setScratchVariable (by decide) (by decide) fun _ _ _ ↦ rfl

theorem setsScratch_setButlerCache :
    SetsScratch o user "DAF_BUTLER_CACHE_DIRECTORY" "butler_cache" (setButlerCache o) :=
  setsScratch_setScratchVariable (by decide) (by decide) fun _ _ h ↦ lookup_dictInsert_of_ne h

end Scratch

/-- The directory of a user in the scratch space, if a variable is set for it. -/
def IsScratchDir (o : Outside) (user : String) (dir : Path) : Prop :=
  IsUsable o user "TMPDIR" "tmp" dir ∨
    IsUsable o user "DAF_BUTLER_CACHE_DIRECTORY" "butler_cache" dir

theorem IsScratchDir.unique {user : String} {dir dir' : Path} (h : IsScratchDir o user dir)
    (h' : IsScratchDir o user dir') : dir = dir' := by
  have heq : ∀ {dir}, IsScratchDir o user dir → userScratchDir o user = some dir :=
    fun h ↦ h.elim IsUsable.dir_eq IsUsable.dir_eq
  exact Option.some.inj ((heq h).symm.trans (heq h'))

/-- **When `SCRATCH_DIR` is configured**, whether or not the configuration comes to its end. -/
theorem lookup_configureEnv (hnone : env.lookup "SCRATCH_DIR" = none) :
    (∃ dir, IsScratchDir o home.name dir ∧
      (configureEnv o home env).1.lookup "SCRATCH_DIR" = some dir.str) ∨
    ((∀ dir, ¬ IsScratchDir o home.name dir) ∧
      (configureEnv o home env).1.lookup "SCRATCH_DIR" = none) := by
  have huser : (setUser home env).1.get "USER" = home.name := by
    rw [setUser, Env.get, lookup_dictInsert, if_pos rfl]
    rfl
  have hstart : (setUser home env).1.lookup "SCRATCH_DIR" = none :=
    (keeps_setUser (by decide) env).trans hnone
  obtain ⟨huser', htmpdir⟩ := setsScratch_setTmpdirIfScratchAvailable (o := o) _ huser
  obtain ⟨-, hcache⟩ := setsScratch_setButlerCache (o := o) _ huser'
  set env' := (setTmpdirIfScratchAvailable o (setUser home env).1).1 with henv'
  by_cases hstop : (setTmpdirIfScratchAvailable o (setUser home env).1).2 = none
  · have hrun : (configureEnv o home env).1.lookup "SCRATCH_DIR" =
        (setButlerCache o env').1.lookup "SCRATCH_DIR" := by
      have hsteps : configureEnv o home env = runSteps (setButlerCache o :: [setCpuVariables o,
          setImageDigest o, expandPandaTilde o home, setFireflyVariables o,
          forceJupyterPreferEnvPathFalse, setButlerCredentialVariables o home]) env' := by
        show runSteps (_ :: _) (setUser home env).1 = _
        rw [runSteps, hstop]
        rfl
      rw [hsteps, lookup_runSteps_cons keeps_rest]
    rw [hrun]
    rcases hcache with ⟨-, dir, husable, hlookup⟩ | ⟨hcache, hkeep, -⟩
    · exact Or.inl ⟨dir, Or.inr husable, hlookup⟩
    · rw [hkeep]
      rcases htmpdir with ⟨-, dir, husable, hlookup⟩ | ⟨htmpdir, hkeep', -⟩
      · exact Or.inl ⟨dir, Or.inl husable, hlookup⟩
      · exact Or.inr ⟨fun dir h ↦ h.elim (htmpdir dir) (hcache dir), hkeep'.trans hstart⟩
  · have hrun : configureEnv o home env = setTmpdirIfScratchAvailable o (setUser home env).1 := by
      show runSteps (_ :: _) (setUser home env).1 = _
      rw [runSteps, if_neg (by simpa using hstop)]
    rw [hrun]
    rcases htmpdir with ⟨hgoes, -⟩ | ⟨-, hkeep, hnever⟩
    · exact absurd hgoes hstop
    · exact Or.inr ⟨fun dir h ↦ h.elim (hnever hstop _ _ dir) (hnever hstop _ _ dir),
        hkeep.trans hstart⟩

end EnvironmentConfigurator

/-! ### The preparer -/

namespace Preparer

variable {p : Preparer} {result : Prepared}

/-- The name of the user, from the home directory. -/
def userOf (o : Outside) : String := (Path.parse (init o).home.str).name

/-- The environment is configured, and the directory is the user's in the scratch space for a variable that
is set then. -/
structure IsEmergencyDir (o : Outside) (dir : Path) : Prop where
  not_relocating : relocateUserEnvironmentIfRequested o = none
  home : (init o).home ≠ tmp
  scratch : EnvironmentConfigurator.IsScratchDir o (userOf o) dir

theorem lookup_setAbnormalStartup (e : RSPStartupError) :
    (p.setAbnormalStartup e).env.lookup "SCRATCH_DIR" = p.env.lookup "SCRATCH_DIR" :=
  lookup_dictUpdate_of_not_mem (by simp)

theorem lookup_setAbnormalIf (e : Option RSPStartupError) :
    (p.setAbnormalIf e).env.lookup "SCRATCH_DIR" = p.env.lookup "SCRATCH_DIR" := by
  rcases e with _ | e
  · rfl
  · exact lookup_setAbnormalStartup e

theorem lookup_init (o : Outside) : (init o).env.lookup "SCRATCH_DIR" = none ∧
    (init o).env.get "HOME" = (init o).home.str := by
  constructor
  · rw [init]
    refine (lookup_dictInsert_of_ne (by decide)).trans ?_
    rcases o.environ "NUBLADO_HOME" with _ | home
    · exact lookup_setAbnormalStartup (p := ⟨false, [], tmp⟩) (o.badEnv "NUBLADO_HOME")
    · rfl
  · rw [init, Env.get, lookup_dictInsert, if_pos rfl]
    rfl

/-- **When `SCRATCH_DIR` is set** before the files for the lab are written. -/
theorem lookup_configure (h : (init o).configure o = some p) :
    (∃ dir, IsEmergencyDir o dir ∧ p.env.lookup "SCRATCH_DIR" = some dir.str) ∨
      ((∀ dir, ¬ IsEmergencyDir o dir) ∧ p.env.lookup "SCRATCH_DIR" = none) := by
  obtain ⟨hnone, hhome⟩ := lookup_init o
  rw [configure] at h
  rcases hrelocation : relocateUserEnvironmentIfRequested o with _ | e
  · rw [hrelocation] at h
    dsimp only at h
    by_cases htmp : (init o).home = tmp
    · rw [if_pos htmp] at h
      obtain rfl := Option.some.inj h
      exact Or.inr ⟨fun dir h ↦ h.home htmp, (lookup_setAbnormalStartup _).trans hnone⟩
    · rw [if_neg htmp, hhome] at h
      have hkept : p.env.lookup "SCRATCH_DIR" = (EnvironmentConfigurator.configureEnv o
          (Path.parse (init o).home.str) (init o).env).1.lookup "SCRATCH_DIR" := by
        split at h
        · obtain rfl := Option.some.inj h
          rfl
        · obtain rfl := Option.some.inj h
          exact lookup_setAbnormalStartup _
        · cases h
      rw [hkept]
      have hcases := @EnvironmentConfigurator.lookup_configureEnv o (init o).env
        (Path.parse (init o).home.str) hnone
      rcases hcases with ⟨dir, hdir, hlookup⟩ | ⟨hnot, hlookup⟩
      · exact Or.inl ⟨dir, ⟨hrelocation, htmp, hdir⟩, hlookup⟩
      · exact Or.inr ⟨fun dir h ↦ hnot dir h.scratch, hlookup⟩
  · rw [hrelocation] at h
    obtain rfl := Option.some.inj h
    refine Or.inr ⟨fun dir h ↦ ?_, (lookup_setAbnormalStartup _).trans hnone⟩
    have hno := h.not_relocating
    rw [hrelocation] at hno
    cases hno

/-- The notice is below the directory that the lab is given as its home and as that of its notebooks. -/
def NoticeFound (result : Prepared) : Prop :=
  ∃ notice home, result.notice = some notice ∧ result.env.lookup "HOME" = some home ∧
    ("--notebook-dir=" ++ (Path.parse home).str) ∈ result.args ∧
    (Path.parse home).Above notice.welcome ∧ (Path.parse home).Above notice.settings

/-- The directory of the notice is, or is below, the one that the environment is configured with: the
user's in the scratch space, or `/tmp` if there is none. -/
def NoticeIsBelow (o : Outside) : Prop :=
  (∃ dir, IsEmergencyDir o dir ∧ IsOrAbove (Path.parse dir.str) (noticeDir o)) ∨
    ((∀ dir, ¬ IsEmergencyDir o dir) ∧ IsOrAbove tmp (noticeDir o))

/-- What is written after something has gone wrong. -/
theorem writeLabStartupFiles_of_broken (h : p.broken = true) :
    NoticeFound (p.writeLabStartupFiles o) ↔
      IsOrAbove (Path.parse ((p.env.lookup "SCRATCH_DIR").getD "/tmp")) (noticeDir o) := by
  have hnotice : (p.writeLabStartupFiles o).notice = some (makeAbnormalStartupEnvironment o) :=
    if_pos h
  have htemphome : p.useTemphome = { p with
      env := dictInsert p.env "HOME" ((p.env.lookup "SCRATCH_DIR").getD "/tmp")
      home := Path.parse ((p.env.lookup "SCRATCH_DIR").getD "/tmp") } := if_pos h
  have hhome : (p.writeLabStartupFiles o).env.lookup "HOME" =
      some ((p.env.lookup "SCRATCH_DIR").getD "/tmp") := by
    show (dictInsert p.useTemphome.env _ _).lookup "HOME" = _
    rw [lookup_dictInsert_of_ne (by decide), htemphome]
    exact (lookup_dictInsert _ _ _ _).trans (if_pos rfl)
  have hargs : ("--notebook-dir=" ++
      (Path.parse ((p.env.lookup "SCRATCH_DIR").getD "/tmp")).str) ∈
        (p.writeLabStartupFiles o).args := by
    show _ ∈ p.useTemphome.labArgs o
    rw [htemphome, labArgs]
    exact List.mem_append_left _ (List.mem_append_right _ List.mem_cons_self)
  rw [← above_notice_iff]
  constructor
  · rintro ⟨notice, home, hnotice', hhome', -, habove⟩
    obtain rfl := Option.some.inj (hnotice.symm.trans hnotice')
    obtain rfl := Option.some.inj (hhome.symm.trans hhome')
    exact habove
  · exact fun habove ↦ ⟨_, _, hnotice, hhome, hargs, habove⟩

/-- **The notice is where the lab will look** exactly if the preparer's own `SCRATCH_DIR` is in the
directory that the environment has been configured with. -/
theorem notice_found_iff (h : prepare o = some result) (hbroken : result.broken = true) :
    NoticeFound result ↔ NoticeIsBelow o := by
  obtain ⟨p, hconfigure, rfl⟩ := Option.map_eq_some_iff.1 h
  set q := (if (p.setAbnormalIf o.tidyHomedir).broken then p.setAbnormalIf o.tidyHomedir
    else (p.setAbnormalIf o.tidyHomedir).setAbnormalIf o.copyFiles) with hq
  have hkept : q.env.lookup "SCRATCH_DIR" = p.env.lookup "SCRATCH_DIR" := by
    rw [hq]
    split
    · exact lookup_setAbnormalIf _
    · exact (lookup_setAbnormalIf _).trans (lookup_setAbnormalIf _)
  refine (writeLabStartupFiles_of_broken hbroken).trans ?_
  rw [hkept]
  rcases lookup_configure hconfigure with ⟨dir, hdir, hlookup⟩ | ⟨hnot, hlookup⟩
  · rw [hlookup]
    constructor
    · exact fun habove ↦ Or.inl ⟨dir, hdir, habove⟩
    · rintro (⟨dir', hdir', habove⟩ | ⟨hnot, -⟩)
      · rwa [hdir.scratch.unique hdir'.scratch]
      · exact absurd hdir (hnot dir)
  · rw [hlookup]
    constructor
    · exact fun habove ↦ Or.inr ⟨hnot, habove⟩
    · rintro (⟨dir', hdir', -⟩ | ⟨-, habove⟩)
      · exact absurd hdir' (hnot dir')
      · exact habove

/-! ### A quota that is used up -/

namespace Sample

/-- A container whose user has no space left, with a scratch space or without one. -/
def container (scratch : Bool) : Outside where
  environ name := if name = "NUBLADO_HOME" then some "/home/rachel" else none
  badEnv _ := ⟨"201", "Unknown error 201", "EUNKNOWN", "Unknown error 201"⟩
  relocation := none
  isDir _ := .ok scratch
  mkdir _ := true
  access _ := true
  urlForUi := .ok none
  tidyHomedir := some ⟨"122", "Disk quota exceeded", "EDQUOT", "Disk quota exceeded"⟩
  copyFiles := none

theorem exists_of_any {α : Type} {x : Option α} {f : α → Bool} (h : x.any f = true) :
    ∃ a, x = some a ∧ f a = true := by
  rcases x with _ | a
  · cases h
  · exact ⟨a, rfl, h⟩

end Sample

/-- Without a scratch space the notice is found. -/
theorem notice_found_sample : ∃ result, prepare (Sample.container false) = some result ∧
    result.broken = true ∧ NoticeFound result := by
  have hrun : (prepare (Sample.container false)).any Prepared.broken = true := by decide
  obtain ⟨result, hresult, hbroken⟩ := Sample.exists_of_any hrun
  refine ⟨result, hresult, hbroken, (notice_found_iff hresult hbroken).2 (Or.inr ⟨?_, Or.inl rfl⟩)⟩
  rintro dir ⟨-, -, hscratch⟩
  rcases hscratch with husable | husable
  · cases husable.isDir
  · cases husable.isDir

/-- **The notice is not found** where the scratch space is used as home: it is written below `/tmp`. -/
theorem notice_not_found : ∃ result, prepare (Sample.container true) = some result ∧
    result.broken = true ∧ result.env.lookup "HOME" = some "/scratch/rachel" ∧
    result.notice.map Notice.welcome = some (Path.parse "/tmp/notebooks/tutorials/welcome.md") ∧
    ¬ NoticeFound result := by
  have hrun : (prepare (Sample.container true)).any (fun result ↦ result.broken &&
      result.env.lookup "HOME" == some "/scratch/rachel" &&
      result.notice.map Notice.welcome == some (Path.parse "/tmp/notebooks/tutorials/welcome.md")) =
        true := by decide
  obtain ⟨result, hresult, hall⟩ := Sample.exists_of_any hrun
  rw [Bool.and_eq_true, Bool.and_eq_true, beq_iff_eq, beq_iff_eq] at hall
  obtain ⟨⟨hbroken, hhome⟩, hwelcome⟩ := hall
  refine ⟨result, hresult, hbroken, hhome, hwelcome, ?_⟩
  rintro ⟨notice, home, hnotice, hhome', -, habove, -⟩
  obtain rfl := Option.some.inj (hhome.symm.trans hhome')
  rw [hnotice] at hwelcome
  rw [Option.some.inj hwelcome] at habove
  revert habove
  decide

end Preparer

end Nublado.Startup
