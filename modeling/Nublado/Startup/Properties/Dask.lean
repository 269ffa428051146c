import Nublado.Startup.Properties.DaskFiles

/-!
# What becomes of the user's settings

`setup_dask` should keep every setting of the user's files but the link to the dashboard, see to it that
some file has the new link, inject the link only if no file has it, and change nothing when it runs
again.

* **It is idempotent** whenever it comes to its end (`setupDask_again`): what has been tidied is not
  touched again and decides the flag in the same way, and what has been written stays as it is.
* **The flag** is that of the last file in which something is set, so the link may be injected although
  another file has it.
* **What is injected** replaces everything under `distributed` in `dashboard.yaml`
  (`hasSetting_update`), so settings are lost there unless another file has them.
* **A value** where the link is looked for is no mapping, and ends the setup.

`Harmless` says that none of this matters, and `settings_preserved_iff` that the setup does what it
should exactly then.
-/

namespace Nublado.Startup.DaskConfigurator

open Settings

section Setup

variable {ν : Type} [DecidableEq ν]

/-! ### The tidied directory -/

/-- A directory as it can be found: no two files have the same name, and no mapping has a key twice. -/
structure UserConfig (ν : Type) extends ConfigDir ν where
  names : (toConfigDir.files.map Prod.fst).Nodup
  distinct : ∀ f ∈ toConfigDir.files, (Settings.mapping f.2).Distinct

variable {bk : String → String} {place : ℕ} {dir : UserConfig ν} {tidied : ConfigDir ν}
  {good : Bool} {files files' : ConfigFiles ν}

omit [DecidableEq ν] in
theorem UserConfig.distinct_yaml (dir : UserConfig ν) :
    ∀ f ∈ dir.yaml, (Settings.mapping f.2).Distinct :=
  fun f hf ↦ dir.distinct f (List.mem_append_left _ hf)

omit [DecidableEq ν] in
theorem UserConfig.distinct_yml (dir : UserConfig ν) :
    ∀ f ∈ dir.yml, (Settings.mapping f.2).Distinct :=
  fun f hf ↦ dir.distinct f (List.mem_append_right _ hf)

omit [DecidableEq ν] in
theorem UserConfig.distinctKeys_yaml (dir : UserConfig ν) : DistinctKeys dir.yaml := by
  have hnames := dir.names
  rw [ConfigDir.files, List.map_append] at hnames
  exact hnames.of_append_left

omit [DecidableEq ν] in
/-- Files with different suffixes have different names. -/
theorem UserConfig.name_yml (dir : UserConfig ν) {fl : String} {raw : Config ν} {f : String × Config ν}
    (hyaml : (fl, raw) ∈ dir.yaml) (hyml : f ∈ dir.yml) : f.1 ≠ fl := by
  have hnames := dir.names
  rw [ConfigDir.files, List.map_append, List.nodup_append] at hnames
  exact fun heq ↦ hnames.2.2 fl (List.mem_map.2 ⟨_, hyaml, rfl⟩) f.1 (List.mem_map.2 ⟨f, hyml, rfl⟩)
    heq.symm

theorem tidyExtantConfig_ok (h : tidyExtantConfig bk dir.toConfigDir = .ok (tidied, good)) :
    ∃ r b, tidyFiles bk dir.yaml false dir.backups = .ok (tidied.yaml, r, b) ∧
      tidyFiles bk dir.yml r b = .ok (tidied.yml, good, tidied.backups) := by
  obtain ⟨⟨yaml, r, b⟩, hyaml, h⟩ := bind_eq_ok.1 h
  obtain ⟨⟨yml, r', b'⟩, hyml, h⟩ := bind_eq_ok.1 h
  obtain ⟨rfl, rfl⟩ := Prod.mk.inj (Except.ok.inj h)
  exact ⟨r, b, hyaml, hyml⟩

/-- The setup comes to its end if no file has something else where mappings are expected. -/
theorem tidyExtantConfig_ok_iff (bk : String → String) (dir : UserConfig ν) :
    (∃ x, tidyExtantConfig bk dir.toConfigDir = .ok x) ↔ ∀ f ∈ dir.files, ¬Blocked f.2 := by
  have hsplit : (∀ f ∈ dir.files, ¬Blocked f.2) ↔
      (∀ f ∈ dir.yaml, ¬Blocked f.2) ∧ ∀ f ∈ dir.yml, ¬Blocked f.2 := List.forall_mem_append
  rw [hsplit, ← tidyFiles_ok_iff dir.distinct_yaml bk false dir.backups]
  constructor
  · rintro ⟨⟨tidied, good⟩, h⟩
    obtain ⟨r, b, hyaml, hyml⟩ := tidyExtantConfig_ok h
    exact ⟨⟨_, hyaml⟩, (tidyFiles_ok_iff dir.distinct_yml bk r b).1 ⟨_, hyml⟩⟩
  · rintro ⟨⟨⟨yaml, r, b⟩, hyaml⟩, hyml⟩
    obtain ⟨⟨yml, r', b'⟩, hyml⟩ := (tidyFiles_ok_iff dir.distinct_yml bk r b).2 hyml
    exact ⟨_, bind_eq_ok.2 ⟨_, hyaml, bind_eq_ok.2 ⟨_, hyml, rfl⟩⟩⟩

/-- **The tidied directory** has the files in which something is set, each tidied. -/
theorem tidied_yaml (h : tidyExtantConfig bk dir.toConfigDir = .ok (tidied, good)) :
    List.Forall₂ TidiedFile (dir.yaml.filter isSet) tidied.yaml := by
  obtain ⟨r, b, hyaml, -⟩ := tidyExtantConfig_ok h
  exact tidyFiles_files dir.distinct_yaml hyaml

theorem tidied_yml (h : tidyExtantConfig bk dir.toConfigDir = .ok (tidied, good)) :
    List.Forall₂ TidiedFile (dir.yml.filter isSet) tidied.yml := by
  obtain ⟨r, b, -, hyml⟩ := tidyExtantConfig_ok h
  exact tidyFiles_files dir.distinct_yml hyml

theorem tidied_files (h : tidyExtantConfig bk dir.toConfigDir = .ok (tidied, good)) :
    List.Forall₂ TidiedFile (dir.files.filter isSet) tidied.files := by
  rw [ConfigDir.files, List.filter_append]
  exact List.rel_append (tidied_yaml h) (tidied_yml h)

omit [DecidableEq ν] in
theorem exists_tidied {R : String × Config ν → String × Config ν → Prop}
    (h : List.Forall₂ R files files') {f : String × Config ν} (hf : f ∈ files) :
    ∃ f' ∈ files', R f f' := by
  induction h with
  | nil => cases hf
  | cons hR _ ih =>
    rcases List.mem_cons.1 hf with rfl | hf
    · exact ⟨_, List.mem_cons_self, hR⟩
    · obtain ⟨f', hf', hR'⟩ := ih hf
      exact ⟨f', List.mem_cons_of_mem _ hf', hR'⟩

/-- A file in which something is set is still there. -/
theorem exists_tidied_file (h : List.Forall₂ TidiedFile (files.filter isSet) files')
    {f : String × Config ν} (hf : f ∈ files) (hset : isSet f = true) :
    ∃ f' ∈ files', TidiedFile f f' := exists_tidied h (List.mem_filter.2 ⟨hf, hset⟩)

/-- A file of the tidied directory was there before. -/
theorem exists_file (h : List.Forall₂ TidiedFile (files.filter isSet) files')
    {f' : String × Config ν} (hf : f' ∈ files') : ∃ f ∈ files, TidiedFile f f' := by
  obtain ⟨f, hmem, hR⟩ := exists_tidied h.flip hf
  exact ⟨f, (List.mem_filter.1 hmem).1, hR⟩

/-- The tidying renames no file. -/
theorem keys_tidied (h : List.Forall₂ TidiedFile files files') :
    files'.map Prod.fst = files.map Prod.fst := by
  induction h with
  | nil => rfl
  | cons hR _ ih => rw [List.map_cons, List.map_cons, hR.1, ih]

theorem distinctKeys_tidied (h : tidyExtantConfig bk dir.toConfigDir = .ok (tidied, good)) :
    DistinctKeys tidied.yaml := by
  rw [DistinctKeys, keys_tidied (tidied_yaml h)]
  exact dir.distinctKeys_yaml.sublist (List.filter_sublist.map _)

/-- **The flag** is that of the last file in which something is set. -/
theorem good_iff (h : tidyExtantConfig bk dir.toConfigDir = .ok (tidied, good)) :
    good = true ↔ LastLinked dir.files := by
  obtain ⟨r, b, hyaml, hyml⟩ := tidyExtantConfig_ok h
  rw [tidyFiles_flag dir.distinct_yml hyml, tidyFiles_flag dir.distinct_yaml hyaml, ConfigDir.files,
    LastLinked, LastLinked, LastLinked, List.filter_append, List.getLast?_append]
  rcases hlast : (dir.yml.filter isSet).getLast? with _ | f
  · rw [List.getLast?_eq_none_iff.1 hlast]
    simp
  · have hne : dir.yml.filter isSet ≠ [] := by
      intro hnil
      rw [hnil] at hlast
      cases hlast
    simp [hne]

/-- A tidied directory stays as it is, and the flag is the same. -/
theorem tidyExtantConfig_again (h : tidyExtantConfig bk dir.toConfigDir = .ok (tidied, good))
    (bk' : String → String) : tidyExtantConfig bk' tidied = .ok (tidied, good) := by
  obtain ⟨r, b, hyaml, hyml⟩ := tidyExtantConfig_ok h
  refine bind_eq_ok.2 ⟨_, tidyFiles_again dir.distinct_yaml hyaml bk' tidied.backups, ?_⟩
  exact bind_eq_ok.2 ⟨_, tidyFiles_again dir.distinct_yml hyml bk' tidied.backups, rfl⟩

/-! ### Injecting the link -/

section Update

variable {es : Config ν} {p : List (Scalar ν)} {v : Scalar ν}

/-- Only the link is set under `distributed` in what is written. -/
theorem get_goodDistributed :
    (goodDistributed : Settings (Scalar ν) (Scalar ν)).get p = some (.value v) ↔
      p = [dashboard, link] ∧ v = .str newlink := by
  rcases p with _ | ⟨k, p⟩
  · simp [goodDistributed]
  · rw [goodDistributed, get_mapping_cons, List.lookup_cons]
    rcases eq_or_ne k dashboard with rfl | hk
    · rcases p with _ | ⟨k', p⟩
      · simp
      · rcases eq_or_ne k' link with rfl | hk'
        · rcases p with _ | ⟨k'', p⟩
          · simp [eq_comm]
          · simp
        · simp [List.lookup_cons, beq_false_of_ne hk', hk']
    · simp [beq_false_of_ne hk, hk]

/-- **What is written has the link and what else there was**, other than under `distributed`. -/
theorem hasSetting_update : HasSetting (setKey es distributed goodDistributed) p v ↔
    p = linkPath ∧ v = .str newlink ∨ p.head? ≠ some distributed ∧ HasSetting es p v := by
  rcases p with _ | ⟨k, p⟩
  · refine iff_of_false (not_hasSetting_nil _ _) ?_
    rintro (⟨h, -⟩ | ⟨-, h⟩)
    · cases h
    · exact not_hasSetting_nil _ _ h
  · rw [HasSetting, HasSetting, get_mapping_cons, get_mapping_cons, lookup_setKey]
    rcases eq_or_ne k distributed with rfl | hk
    · rw [if_pos rfl, Option.bind_some, get_goodDistributed]
      simp only [linkPath, List.cons.injEq, true_and, List.head?_cons, ne_eq, not_true_eq_false,
        false_and, or_false, and_iff_right_iff_imp]
      rintro ⟨-, rfl⟩ h
      cases h
    · rw [if_neg hk]
      simp [linkPath, hk]

theorem flenseDict_update (h : pruneEntries Scalar.isNull es = es) :
    flenseDict (setKey es distributed goodDistributed) = some (setKey es distributed goodDistributed) := by
  have hset := pruneEntries_setKey (k := distributed) h
    (show goodDistributed.prune Scalar.isNull = some goodDistributed from rfl)
  rw [flenseDict, if_neg setKey_ne_nil, hset, if_neg setKey_ne_nil]

/-- What is written has the new link, and is not touched again. -/
theorem fixDashboard_update (es : Config ν) :
    fixDashboard (setKey es distributed goodDistributed) = .ok (.untouched true) := by
  have hlink : HasSetting (setKey es distributed goodDistributed) linkPath (.str newlink) :=
    hasSetting_update.2 (Or.inl ⟨rfl, rfl⟩)
  exact fixDashboard_new (getLink_ok_iff.2 hlink.2) rfl

end Update

/-- **Nothing is written** if `dashboard.yaml` has nothing but the link. -/
theorem injected_eq_none_iff (h : tidyExtantConfig bk dir.toConfigDir = .ok (tidied, good)) :
    injected tidied = none ↔ ∃ raw, (dashboardYaml, raw) ∈ dir.yaml ∧ OnlyLink raw := by
  have hnone : injected tidied = none ↔
      ∃ raw', tidied.yaml.lookup dashboardYaml = some raw' ∧ flenseDict raw' = some goodlink := by
    rw [injected]
    rcases tidied.yaml.lookup dashboardYaml with _ | raw'
    · simp
    · simp only [Option.some.injEq, exists_eq_left']
      split <;> simp_all
  rw [hnone]
  constructor
  · rintro ⟨raw', hlookup, hgood⟩
    obtain ⟨⟨fl, raw⟩, hmem, hname, g, htidied⟩ := exists_file (tidied_yaml h) (mem_of_lookup hlookup)
    obtain rfl : dashboardYaml = fl := hname
    exact ⟨raw, hmem, htidied.goodlink_iff.1 hgood⟩
  · rintro ⟨raw, hmem, honly⟩
    have hset : isSet (dashboardYaml, raw) = true := by
      obtain ⟨val, hval, -⟩ := honly
      rw [isSet, hval]
      rfl
    obtain ⟨⟨fl, raw'⟩, hmem', hname, g, htidied⟩ := exists_tidied_file (tidied_yaml h) hmem hset
    obtain rfl : fl = dashboardYaml := hname
    exact ⟨raw', lookup_of_mem (distinctKeys_tidied h) hmem', htidied.goodlink_iff.2 honly⟩

/-- **What is written** has the settings of the file that it replaces, if there is one. -/
theorem injected_eq_some (h : tidyExtantConfig bk dir.toConfigDir = .ok (tidied, good)) {obj : Config ν}
    (hobj : injected tidied = some obj) :
    ∃ es, pruneEntries Scalar.isNull es = es ∧ obj = setKey es distributed goodDistributed ∧
      ∀ raw', tidied.yaml.lookup dashboardYaml = some raw' → ∀ p v, HasSetting es p v ↔
        HasSetting raw' p v := by
  rw [injected] at hobj
  rcases hlookup : tidied.yaml.lookup dashboardYaml with _ | raw'
  · rw [hlookup] at hobj
    exact ⟨[], rfl, (Option.some.inj hobj).symm, fun raw' h ↦ by cases h⟩
  · obtain ⟨⟨fl, raw⟩, -, hname, g, htidied⟩ := exists_file (tidied_yaml h) (mem_of_lookup hlookup)
    obtain ⟨cfg, hcfg, -, hsetting⟩ := htidied.settled
    rw [hlookup] at hobj
    simp only [hcfg, Option.getD_some] at hobj
    split at hobj
    · cases hobj
    · refine ⟨cfg, entries_of_prune_self (prune_of_flense hcfg), (Option.some.inj hobj).symm, ?_⟩
      intro raw'' heq
      obtain rfl := Option.some.inj heq
      exact hsetting

section Write

variable {d : ConfigDir ν} {obj : Config ν} {f : String × Config ν}

omit [DecidableEq ν] in
/-- The files after `dashboard.yaml` has been written. -/
theorem mem_writeDashboard : f ∈ (writeDashboard place obj d).files ↔
    f = (dashboardYaml, obj) ∨ f ∈ d.yaml ∧ f.1 ≠ dashboardYaml ∨ f ∈ d.yml := by
  have hyaml : f ∈ (writeDashboard place obj d).yaml ↔
      f = (dashboardYaml, obj) ∨ f ∈ d.yaml ∧ f.1 ≠ dashboardYaml := by
    rw [writeDashboard]
    split
    · rw [mem_setKey, or_comm]
    · next hnone =>
      have hname : f ∈ d.yaml → f.1 ≠ dashboardYaml := by
        rintro hf heq
        have hkey := not_mem_keys_iff.2 (Option.not_isSome_iff_eq_none.1 hnone)
        exact hkey (List.mem_map.2 ⟨f, hf, heq⟩)
      rw [List.perm_middle.mem_iff, List.mem_cons, List.take_append_drop]
      exact or_congr_right ⟨fun hf ↦ ⟨hf, hname hf⟩, And.left⟩
  have hyml : (writeDashboard place obj d).yml = d.yml := by
    rw [writeDashboard]
    split <;> rfl
  rw [ConfigDir.files, List.mem_append, hyaml, hyml, or_assoc]

omit [DecidableEq ν] in
theorem distinctKeys_writeDashboard (hd : DistinctKeys d.yaml) :
    DistinctKeys (writeDashboard place obj d).yaml := by
  rw [writeDashboard]
  split
  · exact distinctKeys_setKey hd _ _
  · next hnone =>
    have hkey := not_mem_keys_iff.2 (Option.not_isSome_iff_eq_none.1 hnone)
    rw [DistinctKeys, (List.perm_middle.map Prod.fst).nodup_iff, List.take_append_drop]
    exact List.nodup_cons.2 ⟨hkey, hd⟩

omit [DecidableEq ν] in
theorem lookup_writeDashboard (hd : DistinctKeys d.yaml) (place : ℕ) (obj : Config ν) :
    (writeDashboard place obj d).yaml.lookup dashboardYaml = some obj := by
  refine lookup_of_mem (distinctKeys_writeDashboard hd) ?_
  rw [writeDashboard]
  split
  · exact mem_setKey.2 (Or.inr rfl)
  · exact List.mem_append_right _ List.mem_cons_self

omit [DecidableEq ν] in
/-- Writing the same again is no change. -/
theorem writeDashboard_again (hd : DistinctKeys d.yaml) (place' : ℕ) :
    writeDashboard place' obj (writeDashboard place obj d) = writeDashboard place obj d := by
  have hlookup := lookup_writeDashboard hd place obj
  rw [writeDashboard, hlookup, if_pos Option.isSome_some,
    setKey_of_lookup (distinctKeys_writeDashboard hd) hlookup]

end Write

/-! ### The whole setup -/

theorem setupDask_ok {dir' : ConfigDir ν} (h : setupDask bk place dir.toConfigDir = .ok dir') :
    ∃ tidied good, tidyExtantConfig bk dir.toConfigDir = .ok (tidied, good) ∧
      dir' = if good then tidied else injectNewProxy place tidied := by
  obtain ⟨⟨tidied, good⟩, htidy, h⟩ := bind_eq_ok.1 h
  exact ⟨tidied, good, htidy, (Except.ok.inj h).symm⟩

/-- What has been written is not touched again. -/
theorem settled_writeDashboard (h : tidyExtantConfig bk dir.toConfigDir = .ok (tidied, good))
    {es : Config ν} (hes : pruneEntries Scalar.isNull es = es) (place : ℕ) :
    ∀ f ∈ (writeDashboard place (setKey es distributed goodDistributed) tidied).files,
      ∃ cfg good, flenseDict f.2 = some cfg ∧ fixDashboard cfg = .ok (.untouched good) := by
  intro f hf
  have htidied : ∀ f ∈ tidied.files, ∃ cfg good, flenseDict f.2 = some cfg ∧
      fixDashboard cfg = .ok (.untouched good) := by
    intro f hf
    obtain ⟨f₀, -, -, g, hg⟩ := exists_file (tidied_files h) hf
    obtain ⟨cfg, hcfg, hfix, -⟩ := hg.settled
    exact ⟨cfg, g, hcfg, hfix⟩
  rcases mem_writeDashboard.1 hf with rfl | ⟨hf, -⟩ | hf
  · exact ⟨_, true, flenseDict_update hes, fixDashboard_update es⟩
  · exact htidied f (List.mem_append_left _ hf)
  · exact htidied f (List.mem_append_right _ hf)

theorem tidyExtantConfig_settled {d : ConfigDir ν} (bk : String → String) (h : ∀ f ∈ d.files, ∃ cfg good,
    flenseDict f.2 = some cfg ∧ fixDashboard cfg = .ok (.untouched good)) :
    ∃ r, tidyExtantConfig bk d = .ok (d, r) := by
  obtain ⟨hyaml, hyml⟩ := List.forall_mem_append.1 h
  obtain ⟨r, hr⟩ := tidyFiles_settled hyaml bk false d.backups
  obtain ⟨r', hr'⟩ := tidyFiles_settled hyml bk r d.backups
  exact ⟨r', bind_eq_ok.2 ⟨_, hr, bind_eq_ok.2 ⟨_, hr', rfl⟩⟩⟩

/-- The link is not injected a second time. -/
theorem injectNewProxy_again {d : ConfigDir ν} {es : Config ν} (hd : DistinctKeys d.yaml)
    (hes : pruneEntries Scalar.isNull es = es) (place place' : ℕ) :
    injectNewProxy place' (writeDashboard place (setKey es distributed goodDistributed) d) =
      writeDashboard place (setKey es distributed goodDistributed) d := by
  rw [injectNewProxy, injected, lookup_writeDashboard hd]
  simp only [flenseDict_update hes, Option.getD_some, setKey_setKey]
  split
  · rfl
  · exact writeDashboard_again hd place'

/-- **The setup is idempotent**: the second time it changes nothing. -/
theorem setupDask_again {dir' : ConfigDir ν} (h : setupDask bk place dir.toConfigDir = .ok dir')
    (bk' : String → String) (place' : ℕ) : setupDask bk' place' dir' = .ok dir' := by
  obtain ⟨tidied, good, htidy, rfl⟩ := setupDask_ok h
  have hagain := tidyExtantConfig_again htidy bk'
  rcases good with _ | _
  · show setupDask bk' place' (injectNewProxy place tidied) = .ok (injectNewProxy place tidied)
    rcases hobj : injected tidied with _ | obj
    · rw [injectNewProxy, hobj, Option.elim_none]
      refine bind_eq_ok.2 ⟨_, hagain, ?_⟩
      show Except.ok (injectNewProxy place' tidied) = _
      rw [injectNewProxy, hobj, Option.elim_none]
    · obtain ⟨es, hes, rfl, -⟩ := injected_eq_some htidy hobj
      rw [injectNewProxy, hobj, Option.elim_some]
      have hd := distinctKeys_tidied htidy
      obtain ⟨r', hsettled⟩ := tidyExtantConfig_settled bk' (settled_writeDashboard htidy hes place)
      refine bind_eq_ok.2 ⟨_, hsettled, ?_⟩
      have hinject := injectNewProxy_again (distinctKeys_tidied htidy) hes place place'
      rcases r' with _ | _
      · exact congrArg Except.ok hinject
      · rfl
  · exact bind_eq_ok.2 ⟨_, hagain, rfl⟩

/-- **What the setup should do** with the files of a directory. -/
structure Sound (bk : String → String) (place : ℕ) (dir dir' : ConfigDir ν) : Prop where
  /-- Settings other than the link are still in a file that Dask loads. -/
  settings : ∀ f ∈ dir.files, ∀ p v, HasSetting f.2 p v → p ≠ linkPath →
    ∃ f' ∈ dir'.files, HasSetting f'.2 p v
  /-- A file has the new link. -/
  link : ∃ f ∈ dir'.files, NewLink f.2
  /-- The link is injected only if no tidied file has it. -/
  injection : ∀ tidied, tidyExtantConfig bk dir = .ok (tidied, false) → injected tidied ≠ none →
    ∀ f ∈ tidied.files, ¬NewLink f.2
  /-- The second time, on whichever day, changes nothing. -/
  again : ∀ bk' place', setupDask bk' place' dir' = .ok dir'

/-- The setup comes to its end and does what it should. -/
def Preserves (bk : String → String) (place : ℕ) (dir : ConfigDir ν) : Prop :=
  ∃ dir', setupDask bk place dir = .ok dir' ∧ Sound bk place dir dir'

/-- **The condition on the files.** -/
structure Harmless (dir : ConfigDir ν) : Prop where
  /-- No file has something else than mappings where the link is looked for. -/
  mappings : ∀ f ∈ dir.files, ¬Blocked f.2
  /-- If files have a link that is new or will be corrected, then so does the last file in which
  something is set, unless `dashboard.yaml` has nothing but the link. -/
  last : (∃ f ∈ dir.files, Linked f.2) → LastLinked dir.files ∨
    ∃ raw, (dashboardYaml, raw) ∈ dir.yaml ∧ OnlyLink raw
  /-- If no file has one, then another file has each setting that `dashboard.yaml` has under
  `distributed`. -/
  elsewhere : (∀ f ∈ dir.files, ¬Linked f.2) → ∀ raw, (dashboardYaml, raw) ∈ dir.yaml →
    ∀ p v, p.head? = some distributed → p ≠ linkPath → HasSetting raw p v →
      ∃ f ∈ dir.files, f.1 ≠ dashboardYaml ∧ HasSetting f.2 p v

theorem isSet_of_hasSetting {f : String × Config ν} (hf : f ∈ dir.files) {p : List (Scalar ν)}
    {v : Scalar ν} (h : HasSetting f.2 p v) : isSet f = true := by
  rw [isSet]
  rcases hcfg : flenseDict f.2 with _ | cfg
  · exact absurd h (not_hasSetting_of_flense (dir.distinct f hf) hcfg)
  · rfl

/-- A file of the tidied directory has the new link if a file had a link that is new or corrected. -/
theorem exists_newLink_iff (h : tidyExtantConfig bk dir.toConfigDir = .ok (tidied, good)) :
    (∃ f ∈ tidied.files, NewLink f.2) ↔ ∃ f ∈ dir.files, Linked f.2 := by
  constructor
  · rintro ⟨f', hf', hnew⟩
    obtain ⟨f, hf, -, g, htidied⟩ := exists_file (tidied_files h) hf'
    exact ⟨f, hf, htidied.newLink_iff.1 hnew⟩
  · rintro ⟨f, hf, hlinked⟩
    have hset : isSet f = true := by
      obtain ⟨val, hval, -⟩ := hlinked
      exact isSet_of_hasSetting hf hval
    obtain ⟨f', hf', -, g, htidied⟩ := exists_tidied_file (tidied_files h) hf hset
    exact ⟨f', hf', htidied.newLink_iff.2 hlinked⟩

/-- A setting other than the link is in a file of the same name. -/
theorem exists_setting (h : tidyExtantConfig bk dir.toConfigDir = .ok (tidied, good))
    {f : String × Config ν} (hf : f ∈ dir.files) {p : List (Scalar ν)} {v : Scalar ν}
    (hsetting : HasSetting f.2 p v) (hp : p ≠ linkPath) :
    ∃ f' ∈ tidied.files, f'.1 = f.1 ∧ HasSetting f'.2 p v := by
  obtain ⟨f', hf', hname, g, htidied⟩ := exists_tidied_file (tidied_files h) hf
    (isSet_of_hasSetting hf hsetting)
  exact ⟨f', hf', hname, (htidied.setting_iff p v hp).2 hsetting⟩

/-- The link is injected where the flag is not set and `dashboard.yaml` has something else. -/
theorem setupDask_eq (h : tidyExtantConfig bk dir.toConfigDir = .ok (tidied, good)) (place : ℕ) :
    setupDask bk place dir.toConfigDir =
      .ok (if good then tidied else (injected tidied).elim tidied fun obj ↦
        writeDashboard place obj tidied) := bind_eq_ok.2 ⟨_, h, rfl⟩

/-- **The condition is necessary.** -/
theorem harmless_of_preserves (h : Preserves bk place dir.toConfigDir) : Harmless dir.toConfigDir := by
  obtain ⟨dir', hok, hsound⟩ := h
  obtain ⟨tidied, good, htidy, -⟩ := setupDask_ok hok
  refine ⟨(tidyExtantConfig_ok_iff bk dir).1 ⟨_, htidy⟩, ?_, ?_⟩
  · intro hlinked
    rcases good with _ | _
    · right
      obtain ⟨f', hf', hnew⟩ := (exists_newLink_iff htidy).2 hlinked
      rw [← injected_eq_none_iff htidy]
      by_contra hinjected
      exact hsound.injection tidied htidy hinjected f' hf' hnew
    · exact Or.inl ((good_iff htidy).1 rfl)
  · intro hnone raw hmem p v hhead hp hsetting
    obtain rfl : good = false := by
      by_contra hgood
      obtain ⟨f, hf, hlinked⟩ := (good_iff htidy).1 (Bool.eq_true_of_not_eq_false hgood)
      exact hnone f (List.mem_filter.1 (List.mem_of_getLast? hf)).1 hlinked
    have hraw : (dashboardYaml, raw) ∈ dir.files := List.mem_append_left _ hmem
    obtain ⟨obj, hobj⟩ : ∃ obj, injected tidied = some obj := by
      refine Option.ne_none_iff_exists'.1 fun hinjected ↦ ?_
      obtain ⟨raw', hmem', honly⟩ := (injected_eq_none_iff htidy).1 hinjected
      have hfile := List.mem_append_left dir.yml hmem'
      exact hnone _ hfile (honly.linked (dir.distinct _ hfile))
    obtain ⟨es, hes, rfl, -⟩ := injected_eq_some htidy hobj
    rw [setupDask_eq htidy, hobj, if_neg Bool.false_ne_true, Option.elim_some] at hok
    obtain rfl := Except.ok.inj hok
    obtain ⟨f', hf', hsetting'⟩ := hsound.settings _ hraw p v hsetting hp
    rcases mem_writeDashboard.1 hf' with rfl | ⟨hyaml, hname⟩ | hyml
    · rcases hasSetting_update.1 hsetting' with ⟨hlink, -⟩ | ⟨hother, -⟩
      · exact absurd hlink hp
      · exact absurd hhead hother
    · obtain ⟨f, hf, hsame, g, htidied⟩ := exists_file (tidied_yaml htidy) hyaml
      exact ⟨f, List.mem_append_left _ hf, hsame ▸ hname, (htidied.setting_iff p v hp).1 hsetting'⟩
    · obtain ⟨f, hf, -, g, htidied⟩ := exists_file (tidied_yml htidy) hyml
      exact ⟨f, List.mem_append_right _ hf, dir.name_yml hmem hf,
        (htidied.setting_iff p v hp).1 hsetting'⟩

omit [DecidableEq ν] in
/-- A file of the tidied directory other than `dashboard.yaml` is still there. -/
theorem mem_of_name_ne {f : String × Config ν} (hf : f ∈ tidied.files) (hname : f.1 ≠ dashboardYaml)
    {obj : Config ν} : f ∈ (writeDashboard place obj tidied).files := by
  rw [mem_writeDashboard]
  rcases List.mem_append.1 hf with hyaml | hyml
  · exact Or.inr (Or.inl ⟨hyaml, hname⟩)
  · exact Or.inr (Or.inr hyml)

/-- **No setting is lost** when `dashboard.yaml` is written, if other files have those under
`distributed`. -/
theorem settings_of_injected (h : tidyExtantConfig bk dir.toConfigDir = .ok (tidied, good))
    (helsewhere : ∀ raw, (dashboardYaml, raw) ∈ dir.yaml →
      ∀ p v, p.head? = some distributed → p ≠ linkPath → HasSetting raw p v →
        ∃ f ∈ dir.files, f.1 ≠ dashboardYaml ∧ HasSetting f.2 p v)
    {obj : Config ν} (hobj : injected tidied = some obj) {f : String × Config ν} (hf : f ∈ dir.files)
    {p : List (Scalar ν)} {v : Scalar ν} (hsetting : HasSetting f.2 p v) (hp : p ≠ linkPath) :
    ∃ f' ∈ (writeDashboard place obj tidied).files, HasSetting f'.2 p v := by
  obtain ⟨f', hf', hname, hsetting'⟩ := exists_setting h hf hsetting hp
  by_cases hdashboard : f' ∈ tidied.yaml ∧ f'.1 = dashboardYaml
  · obtain ⟨hyaml, hdash⟩ := hdashboard
    obtain ⟨fl, raw'⟩ := f'
    obtain rfl : fl = dashboardYaml := hdash
    by_cases hhead : p.head? = some distributed
    · obtain ⟨⟨fl, raw⟩, hmem, hsame, g, htidied⟩ := exists_file (tidied_yaml h) hyaml
      obtain rfl : dashboardYaml = fl := hsame
      obtain ⟨f₂, hf₂, hother, hsetting₂⟩ := helsewhere raw hmem p v hhead hp
        ((htidied.setting_iff p v hp).1 hsetting')
      obtain ⟨f₂', hf₂', hname₂, hsetting₂'⟩ := exists_setting h hf₂ hsetting₂ hp
      exact ⟨f₂', mem_of_name_ne hf₂' (hname₂ ▸ hother), hsetting₂'⟩
    · obtain ⟨es, -, rfl, hes⟩ := injected_eq_some h hobj
      refine ⟨_, mem_writeDashboard.2 (Or.inl rfl), hasSetting_update.2 (Or.inr ⟨hhead, ?_⟩)⟩
      exact (hes raw' (lookup_of_mem (distinctKeys_tidied h) hyaml) p v).2 hsetting'
  · refine ⟨f', mem_writeDashboard.2 (Or.inr ?_), hsetting'⟩
    rcases List.mem_append.1 hf' with hyaml | hyml
    · exact Or.inl ⟨hyaml, fun heq ↦ hdashboard ⟨hyaml, heq⟩⟩
    · exact Or.inr hyml

/-- **The condition is sufficient.** -/
theorem preserves_of_harmless (h : Harmless dir.toConfigDir) : Preserves bk place dir.toConfigDir := by
  obtain ⟨⟨tidied, good⟩, htidy⟩ := (tidyExtantConfig_ok_iff bk dir).2 h.mappings
  refine ⟨_, setupDask_eq htidy place, ?_⟩
  have hagain := fun bk' place' ↦ setupDask_again (setupDask_eq htidy place) bk' place'
  -- Where the link is injected, no file was linked.
  have hunlinked : good = false → injected tidied ≠ none → ∀ f ∈ dir.files, ¬Linked f.2 := by
    intro hgood hinjected f hf hlinked
    rcases h.last ⟨f, hf, hlinked⟩ with hlast | honly
    · rw [(good_iff htidy).2 hlast] at hgood
      cases hgood
    · exact hinjected ((injected_eq_none_iff htidy).2 honly)
  refine ⟨?_, ?_, ?_, hagain⟩
  · intro f hf p v hsetting hp
    obtain ⟨f', hf', -, hsetting'⟩ := exists_setting htidy hf hsetting hp
    rcases good with _ | _
    · rw [if_neg Bool.false_ne_true]
      rcases hobj : injected tidied with _ | obj
      · exact ⟨f', hf', hsetting'⟩
      · have hnone := hunlinked rfl (by rw [hobj]; exact Option.some_ne_none obj)
        exact settings_of_injected htidy (h.elsewhere hnone) hobj hf hsetting hp
    · exact ⟨f', hf', hsetting'⟩
  · rcases good with _ | _
    · rw [if_neg Bool.false_ne_true]
      rcases hobj : injected tidied with _ | obj
      · obtain ⟨raw, hmem, honly⟩ := (injected_eq_none_iff htidy).1 hobj
        have hraw : (dashboardYaml, raw) ∈ dir.files := List.mem_append_left _ hmem
        exact (exists_newLink_iff htidy).2 ⟨_, hraw, honly.linked (dir.distinct _ hraw)⟩
      · obtain ⟨es, -, rfl, -⟩ := injected_eq_some htidy hobj
        exact ⟨_, mem_writeDashboard.2 (Or.inl rfl), newlink,
          hasSetting_update.2 (Or.inl ⟨rfl, rfl⟩), rfl⟩
    · obtain ⟨f, hf, hlinked⟩ := (good_iff htidy).1 rfl
      exact (exists_newLink_iff htidy).2 ⟨f, (List.mem_filter.1 (List.mem_of_getLast? hf)).1, hlinked⟩
  · intro tidied' htidy' hinjected f' hf' hnew
    obtain ⟨rfl, rfl⟩ := Prod.mk.inj (Except.ok.inj (htidy.symm.trans htidy'))
    obtain ⟨f, hf, hlinked⟩ := (exists_newLink_iff htidy).1 ⟨f', hf', hnew⟩
    exact hunlinked rfl hinjected f hf hlinked

/-- **The user's settings are preserved**, the link comes to be set, and a second setup changes nothing,
exactly if the files are harmless. -/
theorem settings_preserved_iff (bk : String → String) (place : ℕ) (dir : UserConfig ν) :
    Preserves bk place dir.toConfigDir ↔ Harmless dir.toConfigDir :=
  ⟨harmless_of_preserves, preserves_of_harmless⟩

end Setup

section Samples

/-- A file with the link, and one with something else that is listed after it. -/
private def linkFirst : ConfigDir ℕ where
  yaml := [("a.yaml", withLink newlink), ("b.yaml", [(.str "scheduler".toList, .value (.other 0))])]
  yml := []
  backups := []

private theorem tidy_linkFirst : tidyExtantConfig id linkFirst = .ok (linkFirst, false) := rfl

/-- **The link is injected although a file has it**: the flag is that of the file listed last. -/
theorem injected_though_there : ¬ ∀ (bk : String → String) (place : ℕ) (dir : UserConfig ℕ),
    Preserves bk place dir.toConfigDir := by
  intro hall
  have hdistinct : ∀ f ∈ linkFirst.files, (Settings.mapping f.2).Distinct := by
    intro f hf
    rcases List.mem_cons.1 hf with rfl | hf
    · simp [Distinct, DistinctEntries, DistinctKeys, withLink]
    · rw [List.mem_singleton.1 hf]
      simp [Distinct, DistinctEntries, DistinctKeys]
  obtain ⟨dir', -, hsound⟩ := hall id 0 ⟨linkFirst, by decide, hdistinct⟩
  have hnew : NewLink (withLink newlink : Config ℕ) := ⟨newlink, hasSetting_withLink newlink, rfl⟩
  exact hsound.injection linkFirst tidy_linkFirst (Option.some_ne_none goodlink) ("a.yaml", _)
    List.mem_cons_self hnew

end Samples

end Nublado.Startup.DaskConfigurator
