import Nublado.Lab.Manager.Calls
import Nublado.Lab.Objects
import Nublado.Lab.Properties.Quantity
import Nublado.Lab.Request

/-!
# Labs survive a restart of the controller

A restarted controller recreates the state of each lab from what Kubernetes keeps of it. What it gets is
computed piece by piece: each piece of the state is read back from where it has been written, unless
something that is written later has overridden it.

* **Variables of the environment** cannot be overridden by the configuration, whose validator rejects the
  reserved ones (`lookup_buildEnvConfigMap`). JupyterHub's can take the place of one that is written
  for some options only.
* **Amounts of CPU** are read by the validator for what people write, which refuses a text with many
  characters after its point (`readQuantity_written`).
* **Annotations** of the configuration override those of the builder (`lookup_groupsKey`,
  `lookup_nameKey`).
* **The size** is that of the first definition with the same resources (`recreateSize_eq_iff`).

`recreateLabState_buildLab` puts the pieces together, and `state_survives_iff` says when they are what was
requested.
-/

namespace Nublado

open Lab (IsLong IsMarked cpuToCores cpuToCores_eq_ok_iff floatPadded_of_mem validateQuantity
  validateQuota validateResources)

namespace LabBuilder

/-! ### Variables of the environment -/

variable {b : LabBuilder} {lib : Libraries} {spec : LabSpecification} {image : Images.RSPImage}
  {definition : LabSizeDefinition} {user : GafaelfawrUser}

/-- The configuration sets no reserved variable. -/
theorem lookup_env_of_reserved (hb : b.config.Accepted) {k : String} (hk : rejectReservedEnv k ≠ .ok k) :
    b.config.env.reverse.lookup k = none := by
  rw [← not_mem_keys_iff]
  intro hmem
  obtain ⟨p, hp, rfl⟩ := List.mem_map.1 hmem
  exact hk (hb.env p (List.mem_reverse.1 hp))

theorem distinctKeys_standardEnv : DistinctKeys (b.standardEnv lib definition image) := by
  show List.Nodup ["JUPYTER_IMAGE", "JUPYTER_IMAGE_SPEC", "IMAGE_DESCRIPTION", "IMAGE_DIGEST",
    "CONTAINER_SIZE", "CPU_GUARANTEE", "CPU_LIMIT", "MEM_GUARANTEE", "MEM_LIMIT",
    "JUPYTERHUB_ACTIVITY_INTERVAL", "EXTERNAL_INSTANCE_URL", "JUPYTERLAB_CONFIG_DIR",
    "JUPYTERLAB_START_COMMAND", "NUBLADO_RUNTIME_MOUNTS_DIR"]
  decide

/-- **A reserved variable** is a standard one, or as requested. -/
theorem lookup_buildEnvConfigMap (hb : b.config.Accepted) {k : String}
    (hk : rejectReservedEnv k ≠ .ok k) :
    (b.buildEnvConfigMap lib spec image definition).lookup k =
      ((b.standardEnv lib definition image).lookup k).or ((requestedEnv spec).lookup k) := by
  have hne : k ≠ "REPERTOIRE_BASE_URL" := by
    rintro rfl
    exact hk rfl
  rw [buildEnvConfigMap, lookup_dictUpdate, lookup_env_of_reserved hb hk, Option.none_or,
    ← lookup_reverse distinctKeys_standardEnv, ← lookup_dictUpdate]
  split
  · rw [lookup_setKey, if_neg hne]
  · rfl

theorem lookup_standard (hb : b.config.Accepted) {k v : String} (hk : rejectReservedEnv k ≠ .ok k)
    (h : (k, v) ∈ b.standardEnv lib definition image) :
    (b.buildEnvConfigMap lib spec image definition).lookup k = some v := by
  rw [lookup_buildEnvConfigMap hb hk, lookup_of_mem distinctKeys_standardEnv h, Option.some_or]

/-- A variable that is not among the standard ones. -/
theorem lookup_requested (hb : b.config.Accepted) {k : String} (hk : rejectReservedEnv k ≠ .ok k)
    (h : (b.standardEnv lib definition image).lookup k = none) :
    (b.buildEnvConfigMap lib spec image definition).lookup k = (requestedEnv spec).lookup k := by
  rw [lookup_buildEnvConfigMap hb hk, h, Option.none_or]

theorem lookup_debug (spec : LabSpecification) : (requestedEnv spec).lookup "DEBUG" =
    if spec.options.enableDebug = true then some "TRUE" else spec.env.lookup "DEBUG" := by
  rw [requestedEnv]
  split <;> split <;> simp [lookup_setKey]

theorem lookup_resetUserEnv (spec : LabSpecification) : (requestedEnv spec).lookup "RESET_USER_ENV" =
    if spec.options.resetUserEnv = true then some "TRUE" else spec.env.lookup "RESET_USER_ENV" := by
  rw [requestedEnv]
  split <;> split <;> simp [lookup_setKey]

theorem lookup_servicePrefix (spec : LabSpecification) :
    (requestedEnv spec).lookup "JUPYTERHUB_SERVICE_PREFIX" =
      spec.env.lookup "JUPYTERHUB_SERVICE_PREFIX" := by
  rw [requestedEnv]
  split <;> split <;> simp [lookup_setKey]

/-! ### Amounts of resources -/

/-- The amount is read back by the libraries from the texts that they write. -/
structure Writes (lib : Libraries) (q : ResourceQuantity) : Prop where
  cpu : floatPadded (lib.numerals.floatText q.cpu) = some (.finite q.cpu)
  memory : (numeral q.memory.natAbs).length ≤ maxIntDigits
  bytes : lib.numerals.parseBytes (toString q.memory) = .ok q.memory

theorem strip_intText (m : ℤ) : strip (Json.intText m) = Json.intText m := by
  have hspace : ∀ c ∈ Json.intText m, isSpace c = false := by
    intro c hc
    have hcode : c.toNat = 45 ∨ 48 ≤ c.toNat ∧ c.toNat ≤ 57 := by
      rcases Json.toNat_of_mem_intText hc with rfl | hdigit
      · exact Or.inl rfl
      · exact Or.inr (toNat_of_isDigit hdigit)
    rw [isSpace, decide_eq_false_iff_not]
    intro hmem
    simp only [List.mem_cons, List.not_mem_nil, or_false] at hmem
    omega
  obtain ⟨c, l, hl⟩ := List.exists_cons_of_ne_nil (Json.intText_ne_nil m)
  have hstrip := @strip_eq [] (Json.intText m) [] (fun c hc ↦ (by cases hc)) (fun c hc ↦ (by cases hc))
    ⟨c, by rw [hl]; rfl, hspace c (by rw [hl]; exact List.mem_cons_self)⟩
    ⟨_, List.getLast?_eq_some_getLast (Json.intText_ne_nil m), hspace _ (List.getLast_mem _)⟩
  rwa [List.nil_append, List.append_nil] at hstrip

theorem not_isMarked {q : ResourceQuantity} (hq : Writes lib q) :
    ¬ IsMarked (lib.numerals.floatText q.cpu) := by
  intro h
  have hnone := floatPadded_of_mem (List.mem_of_getLast? h.2.2)
  rw [hq.cpu] at hnone
  cases hnone

/-- **An amount is read back**, unless its text is long for an amount that someone has written. -/
theorem readQuantity_written {q : ResourceQuantity} (hq : Writes lib q) {data : List (String × String)}
    {cpu memory : String} (hcpu : data.lookup cpu = some (cpuText lib q.cpu))
    (hmemory : data.lookup memory = some (memoryText q.memory)) :
    readQuantity lib data cpu memory =
      if IsLong (lib.numerals.floatText q.cpu) then none else some q := by
  have hint : intOf (strip (memoryText q.memory).toList) = some q.memory := by
    rw [memoryText, String.toList_ofList, strip_intText, Json.intOf_intText hq.memory]
  have hfloat : floatPadded (cpuText lib q.cpu).toList = some (.finite q.cpu) := by
    rw [cpuText, String.toList_ofList, hq.cpu]
  have hread : readQuantity lib data cpu memory = acceptQuantity lib q.cpu q.memory := by
    simp only [readQuantity, hcpu, hmemory, hfloat, hint, Option.bind_some, Option.bind_eq_bind,
      exactValue]
  rw [hread, acceptQuantity, validateQuantity]
  by_cases hlong : IsLong (lib.numerals.floatText q.cpu)
  · rw [if_pos hlong]
    rcases hcores : cpuToCores (lib.numerals.floatText q.cpu) with e | v
    · rfl
    · exact absurd hlong ((cpuToCores_eq_ok_iff (not_isMarked hq)).1 hcores).2
  · rw [if_neg hlong, (cpuToCores_eq_ok_iff (not_isMarked hq)).2 ⟨hq.cpu, hlong⟩, hq.bytes]
    rfl

/-! ### The size -/

/-- The definitions are compared by all of their resources. -/
theorem recreateSize_eq (resources : LabResources) : b.recreateSize resources =
    ((b.config.sizes.find? fun d ↦ d.resources = resources).map LabSizeDefinition.size).getD .custom := by
  have hsame : ∀ d : LabSizeDefinition,
      (d.resources.limits.cpu = resources.limits.cpu ∧ d.resources.requests.cpu = resources.requests.cpu ∧
        d.resources.limits.memory = resources.limits.memory ∧
        d.resources.requests.memory = resources.requests.memory) ↔ d.resources = resources := by
    rintro ⟨size, ⟨⟨lc, lm⟩, ⟨rc, rm⟩⟩⟩
    obtain ⟨⟨lc', lm'⟩, ⟨rc', rm'⟩⟩ := resources
    simp only [LabResources.mk.injEq, ResourceQuantity.mk.injEq]
    tauto
  rw [recreateSize]
  simp only [hsame]

/-- **The size is read back** exactly if no size before it has the same resources. -/
theorem recreateSize_eq_iff {size : LabSize}
    (h : b.config.getSizeDefinition size = some definition) :
    b.recreateSize definition.resources = size ↔
      ∀ d ∈ b.config.sizes.takeWhile (·.size ≠ size), d.resources ≠ definition.resources := by
  obtain ⟨hsize, before, after, hsizes, hbefore⟩ := List.find?_eq_some_iff_append.1 h
  rw [decide_eq_true_eq] at hsize
  have htake : b.config.sizes.takeWhile (·.size ≠ size) = before := by
    rw [hsizes, List.takeWhile_append_of_pos fun d hd ↦ (by simpa using hbefore d hd),
      List.takeWhile_cons_of_neg (by simpa using hsize), List.append_nil]
  rw [htake, recreateSize_eq, hsizes, List.find?_append]
  rcases hfind : before.find? (fun d ↦ d.resources = definition.resources) with _ | d
  · have hnone := List.find?_eq_none.1 hfind
    refine iff_of_true ?_ fun d hd ↦ by simpa using hnone d hd
    rw [hfind, Option.none_or, List.find?_cons_of_pos (by simp)]
    exact hsize
  · have hd := List.mem_of_find?_eq_some hfind
    have hsame : d.resources = definition.resources := by simpa using List.find?_some hfind
    refine iff_of_false ?_ fun hall ↦ hall d hd hsame
    rw [hfind, Option.some_or]
    simpa using hbefore d hd

/-! ### Annotations -/

/-- The group is read back from its JSON value. -/
def KeepsGroup (lib : Libraries) (group : UserGroup) : Prop :=
  lib.validateGroup (groupJson group) = some group ∧ (numeral group.id.natAbs).length ≤ maxIntDigits

theorem mapM_validateGroup {groups : List UserGroup} (h : ∀ g ∈ groups, KeepsGroup lib g) :
    (groups.map groupJson).mapM lib.validateGroup = some groups := by
  induction groups with
  | nil => rfl
  | cons g groups ih =>
    obtain ⟨hg, hrest⟩ := List.forall_mem_cons.1 h
    rw [List.map_cons, List.mapM_cons, hg.1, ih hrest]
    rfl

/-- **The groups are read back** from the builder's own annotation. -/
theorem readGroups_dumps {groups : List UserGroup} (h : ∀ g ∈ groups, KeepsGroup lib g) :
    readGroups lib (String.ofList (Json.dumps lib.numerals.floatText (.array (groups.map groupJson)))) =
      some groups := by
  have hwritten : Json.Written (.array (groups.map groupJson)) := by
    refine .array fun v hv ↦ ?_
    obtain ⟨g, hg, rfl⟩ := List.mem_map.1 hv
    have hkeys : List.Nodup ["name", "id"] := by decide
    refine .object hkeys fun p hp ↦ ?_
    rcases List.mem_cons.1 hp with rfl | hp
    · exact .string _
    · obtain rfl := List.mem_singleton.1 hp
      exact .number ⟨g.id, rfl, (h g hg).2⟩
  rw [readGroups, String.toList_ofList, Json.loads_dumps hwritten]
  exact mapM_validateGroup h

theorem distinctKeys_buildPodAnnotations (user : GafaelfawrUser) :
    DistinctKeys (b.buildPodAnnotations lib user) := by
  have hgroups : ∀ text : String, DistinctKeys [(groupsKey, text)] := fun _ ↦
    List.nodup_singleton _
  refine distinctKeys_dictUpdate ?_ _
  rcases user.name with _ | name
  · exact hgroups _
  · exact distinctKeys_setKey (hgroups _) _ _

/-- **The annotation with the groups** is the configuration's, if it has one. -/
theorem lookup_groupsKey (hb : b.config.Accepted) (user : GafaelfawrUser) :
    (dictUpdate argoCdAnnotations (b.buildPodAnnotations lib user)).lookup groupsKey =
      (b.config.extraAnnotations.lookup groupsKey).or (some (String.ofList
        (Json.dumps lib.numerals.floatText (.array (user.groups.map groupJson))))) := by
  rw [lookup_dictUpdate, lookup_reverse (distinctKeys_buildPodAnnotations user), buildPodAnnotations,
    lookup_dictUpdate, lookup_reverse hb.annotations]
  rcases user.name with _ | name
  · simp [groupsKey, argoCdAnnotations]
  · simp [groupsKey, nameKey, argoCdAnnotations, lookup_setKey]

/-- **The annotation with the name** is the configuration's, if it has one. -/
theorem lookup_nameKey (hb : b.config.Accepted) (user : GafaelfawrUser) :
    (dictUpdate argoCdAnnotations (b.buildPodAnnotations lib user)).lookup nameKey =
      (b.config.extraAnnotations.lookup nameKey).or user.name := by
  rw [lookup_dictUpdate, lookup_reverse (distinctKeys_buildPodAnnotations user), buildPodAnnotations,
    lookup_dictUpdate, lookup_reverse hb.annotations]
  rcases user.name with _ | name
  · simp [groupsKey, nameKey, argoCdAnnotations, List.lookup_cons]
  · simp [argoCdAnnotations, lookup_setKey, nameKey, List.lookup_cons]

/-! ### The state -/

/-- The libraries read what they have written of a lab. -/
structure Keeps (lib : Libraries) (user : GafaelfawrUser) (definition : LabSizeDefinition) : Prop where
  limits : Writes lib definition.resources.limits
  requests : Writes lib definition.resources.requests
  groups : ∀ g ∈ user.groups, KeepsGroup lib g
  quota : ∀ q ∈ user.quota, Writes lib ⟨q.cpu, q.memoryBytes⟩ ∧
    truncated (lib.quotaMemory q * 1024 * 1024 * 1024) = q.memoryBytes

/-- An amount of CPU in the resources has a long text. -/
def HasLongText (lib : Libraries) (resources : LabResources) : Prop :=
  IsLong (lib.numerals.floatText resources.limits.cpu) ∨
    IsLong (lib.numerals.floatText resources.requests.cpu)

instance (lib : Libraries) (resources : LabResources) : Decidable (HasLongText lib resources) :=
  inferInstanceAs (Decidable (_ ∨ _))

/-- The groups in the annotations of a lab's pod. -/
def annotatedGroups (b : LabBuilder) (lib : Libraries) (user : GafaelfawrUser) : Option (List UserGroup) :=
  match b.config.extraAnnotations.lookup groupsKey with
  | some text => readGroups lib text
  | none => some user.groups

/-- Whether a variable has the value that stands for a chosen option. -/
def chosen (value : Option String) : Bool := value.getD "FALSE" = "TRUE"

/-- **The resources are recreated**, unless an amount of CPU has a long text. -/
theorem recreateResources_built (hb : b.config.Accepted) (hd : definition ∈ b.config.sizes)
    (hkeeps : Keeps lib user definition) :
    recreateResources lib (b.buildEnvConfigMap lib spec image definition) =
      if HasLongText lib definition.resources then none else some definition.resources := by
  have hstandard : ∀ k v, rejectReservedEnv k ≠ .ok k → (k, v) ∈ b.standardEnv lib definition image →
      (b.buildEnvConfigMap lib spec image definition).lookup k = some v := fun k v hk h ↦
    lookup_standard hb hk h
  have hlimits := readQuantity_written hkeeps.limits
    (hstandard "CPU_LIMIT" _ (by decide) (by simp [standardEnv]))
    (hstandard "MEM_LIMIT" _ (by decide) (by simp [standardEnv]))
  have hrequests := readQuantity_written hkeeps.requests
    (hstandard "CPU_GUARANTEE" _ (by decide) (by simp [standardEnv]))
    (hstandard "MEM_GUARANTEE" _ (by decide) (by simp [standardEnv]))
  rw [recreateResources, hlimits, hrequests]
  by_cases h₁ : IsLong (lib.numerals.floatText definition.resources.limits.cpu)
  · have hlong : HasLongText lib definition.resources := Or.inl h₁
    rw [if_pos h₁, if_pos hlong]
    rfl
  by_cases h₂ : IsLong (lib.numerals.floatText definition.resources.requests.cpu)
  · have hlong : HasLongText lib definition.resources := Or.inr h₂
    rw [if_neg h₁, if_pos h₂, if_pos hlong]
    rfl
  · have hshort : ¬ HasLongText lib definition.resources := not_or.2 ⟨h₁, h₂⟩
    rw [if_neg h₁, if_neg h₂, if_neg hshort]
    show ((validateResources _ _).toOption.bind fun _ ↦ _) = _
    rw [hb.resources definition hd]
    rfl

/-- **The quota is recreated**: the text of its amount of CPU has been accepted before. -/
theorem recreateQuota_built (hquota : validateQuota lib.numerals user.quota = .ok ())
    (hkeeps : Keeps lib user definition) : recreateQuota lib (buildQuota lib user) =
      some (user.quota.map fun q ↦ ⟨q.cpu, q.memoryBytes⟩) := by
  rcases hq : user.quota with _ | q
  · rw [buildQuota, hq]
    rfl
  · obtain ⟨hwrites, hmemory⟩ := hkeeps.quota q hq
    have hread := @readQuantity_written lib _ hwrites
      [("limits.cpu", cpuText lib q.cpu), ("limits.memory", memoryText q.memoryBytes)]
      "limits.cpu" "limits.memory" rfl rfl
    rw [if_neg] at hread
    · rw [buildQuota, hq, Option.map_some, hmemory, recreateQuota, hread]
      rfl
    · intro hlong
      rw [hq, validateQuota, validateQuantity] at hquota
      rcases hcores : cpuToCores (lib.numerals.floatText q.cpu) with e | v
      · rw [hcores] at hquota
        cases hquota
      · exact ((cpuToCores_eq_ok_iff (not_isMarked hwrites)).1 hcores).2 hlong

/-- **What is recreated** from the objects of a lab. -/
theorem recreateLabState_buildLab (hb : b.config.Accepted)
    (hsize : b.config.getSizeDefinition spec.options.size = some definition)
    (hquota : validateQuota lib.numerals user.quota = .ok ()) (hkeeps : Keeps lib user definition)
    {uid gid : ℤ} (huid : user.uid = some uid) (hgid : user.gid = some gid) (phase : PodPhase)
    {url : String} (hurl : b.config.buildInternalUrl user.username spec.env = some url) :
    (b.buildLab lib user spec image).bind
        (fun objects ↦ b.recreateLabState lib user.username (some (objects.observed phase))) =
      if HasLongText lib definition.resources then none else
        (b.annotatedGroups lib user).map fun groups ↦
          { user :=
              { username := user.username
                name := (b.config.extraAnnotations.lookup nameKey).or user.name
                uid, gid, groups }
            options :=
              { size := b.recreateSize definition.resources
                enableDebug := chosen ((requestedEnv spec).lookup "DEBUG")
                resetUserEnv := chosen ((requestedEnv spec).lookup "RESET_USER_ENV")
                image := image.referenceWithDigest }
            status := .fromPhase phase
            internalUrl := some url
            resources := definition.resources
            quota := user.quota.map fun q ↦ ⟨q.cpu, q.memoryBytes⟩ } := by
  have hd : definition ∈ b.config.sizes := List.mem_of_find?_eq_some hsize
  have hresources := @recreateResources_built b lib spec image definition user hb hd hkeeps
  have hrequested : ∀ k, rejectReservedEnv k ≠ .ok k →
      (b.standardEnv lib definition image).lookup k = none →
      (b.buildEnvConfigMap lib spec image definition).lookup k = (requestedEnv spec).lookup k :=
    fun k hk h ↦ lookup_requested hb hk h
  have hgroups : recreateGroups lib (dictUpdate argoCdAnnotations (b.buildPodAnnotations lib user)) =
      b.annotatedGroups lib user := by
    rw [recreateGroups, lookup_groupsKey hb, annotatedGroups]
    rcases b.config.extraAnnotations.lookup groupsKey with _ | text
    · exact readGroups_dumps hkeeps.groups
    · rfl
  have himage : (b.buildEnvConfigMap lib spec image definition).lookup "JUPYTER_IMAGE_SPEC" =
      some image.referenceWithDigest := lookup_standard hb (by decide) (by simp [standardEnv])
  have hdebug := hrequested "DEBUG" (by decide) (by simp [standardEnv, List.lookup_cons])
  have hreset := hrequested "RESET_USER_ENV" (by decide) (by simp [standardEnv, List.lookup_cons])
  have hprefix := hrequested "JUPYTERHUB_SERVICE_PREFIX" (by decide)
    (by simp [standardEnv, List.lookup_cons])
  have hinternal : b.config.buildInternalUrl user.username
      (b.buildEnvConfigMap lib spec image definition) = some url := by
    rw [LabConfig.buildInternalUrl, hprefix, lookup_servicePrefix]
    exact hurl
  have hoptions : b.recreateOptions (b.buildEnvConfigMap lib spec image definition) definition.resources =
      some
        { size := b.recreateSize definition.resources
          enableDebug := chosen ((requestedEnv spec).lookup "DEBUG")
          resetUserEnv := chosen ((requestedEnv spec).lookup "RESET_USER_ENV")
          image := image.referenceWithDigest } := by
    rw [recreateOptions, himage, hdebug, hreset]
    rfl
  rw [buildLab, hsize, Option.map_some, Option.bind_some]
  by_cases hlong : HasLongText lib definition.resources
  · rw [if_pos hlong] at hresources ⊢
    simp [recreateLabState, LabStateObjects.observed, hresources]
  · rw [if_neg hlong] at hresources ⊢
    simp only [recreateLabState, LabStateObjects.observed, recreateUser, Option.bind_eq_bind,
      Option.bind_some, List.find?_cons_of_pos, decide_true, hresources, hoptions, huid, hgid, hgroups,
      hinternal, recreateQuota_built hquota hkeeps, lookup_nameKey hb, PodPhase.ofText_value]
    rcases b.annotatedGroups lib user with _ | groups <;> rfl

/-- What it takes for a lab's state to survive. -/
structure Survives (b : LabBuilder) (lib : Libraries) (user : GafaelfawrUser) (spec : LabSpecification)
    (definition : LabSizeDefinition) : Prop where
  /-- JupyterHub sets no variable that stands for an option which has not been chosen. -/
  debug : spec.env.lookup "DEBUG" = some "TRUE" → spec.options.enableDebug = true
  resetUserEnv : spec.env.lookup "RESET_USER_ENV" = some "TRUE" → spec.options.resetUserEnv = true
  /-- The configuration's annotations say nothing else about the user. -/
  groups : ∀ text, b.config.extraAnnotations.lookup groupsKey = some text →
    readGroups lib text = some user.groups
  name : ∀ text, b.config.extraAnnotations.lookup nameKey = some text → user.name = some text
  /-- No size before the one chosen has the same resources. -/
  size : ∀ d ∈ b.config.sizes.takeWhile (·.size ≠ spec.options.size),
    d.resources ≠ definition.resources
  cpu : ¬ HasLongText lib definition.resources

theorem chosen_eq_iff {option : Bool} {value : Option String} :
    chosen (if option = true then some "TRUE" else value) = option ↔
      (value = some "TRUE" → option = true) := by
  have htrue : ∀ v : Option String, chosen v = true ↔ v = some "TRUE" := by
    intro v
    rw [chosen, decide_eq_true_eq]
    rcases v with _ | v
    · simp
    · simp
  cases option
  · rw [if_neg Bool.false_ne_true, Bool.eq_false_iff, Ne, htrue]
    simp
  · simp [htrue]

theorem annotatedGroups_eq_iff : b.annotatedGroups lib user = some user.groups ↔
    ∀ text, b.config.extraAnnotations.lookup groupsKey = some text →
      readGroups lib text = some user.groups := by
  rw [annotatedGroups]
  rcases b.config.extraAnnotations.lookup groupsKey with _ | text <;> simp

theorem annotatedName_eq_iff {annotated name : Option String} :
    annotated.or name = name ↔ ∀ text, annotated = some text → name = some text := by
  rcases annotated with _ | text <;> simp [eq_comm]

open Lab.ManagerState (createAllowed userInfo) in
/-- **A lab's state survives a restart of the controller** if and only if nothing that has been requested
or configured takes the place of a part of it: what is recreated from the lab's objects is then the state
that the spawn has set, apart from the status, which follows the pod. -/
theorem state_survives_iff (hb : b.config.Accepted) (hallowed : createAllowed user = .ok ())
    (hsize : b.config.getSizeDefinition spec.options.size = some definition)
    (henv : validateEnv spec.env = .ok spec.env)
    (hquota : validateQuota lib.numerals user.quota = .ok ()) (hkeeps : Keeps lib user definition)
    (phase : PodPhase) :
    (b.buildLab lib user spec image).bind
        (fun objects ↦ b.recreateLabState lib user.username (some (objects.observed phase))) =
      some { LabState.fromRequest (userInfo user) user.quota spec ⟨image.referenceWithDigest⟩
          definition.resources with
        status := .fromPhase phase
        internalUrl := b.config.buildInternalUrl user.username spec.env } ↔
      b.Survives lib user spec definition := by
  obtain ⟨uid, gid, huid, hgid⟩ : ∃ uid gid, user.uid = some uid ∧ user.gid = some gid := by
    rw [createAllowed] at hallowed
    split_ifs at hallowed with _ huid hgid
    rcases huid' : user.uid with _ | uid
    · exact absurd (by rw [huid']; rfl) huid
    rcases hgid' : user.gid with _ | gid
    · exact absurd (by rw [hgid']; rfl) hgid
    · exact ⟨uid, gid, rfl, rfl⟩
  obtain ⟨url, hurl⟩ : ∃ url, b.config.buildInternalUrl user.username spec.env = some url := by
    rw [validateEnv] at henv
    split_ifs at henv with hnone
    obtain ⟨path, hpath⟩ := Option.ne_none_iff_exists'.1 (mt Option.isNone_iff_eq_none.2 hnone)
    exact ⟨_, by rw [LabConfig.buildInternalUrl, hpath]; rfl⟩
  rw [recreateLabState_buildLab hb hsize hquota hkeeps huid hgid phase hurl, hurl]
  have hinfo : userInfo user =
      { username := user.username, name := user.name, uid, gid, groups := user.groups } := by
    rw [userInfo, huid, hgid]
    rfl
  by_cases hlong : HasLongText lib definition.resources
  · rw [if_pos hlong]
    exact iff_of_false (by simp) fun h ↦ h.cpu hlong
  rw [if_neg hlong, lookup_debug, lookup_resetUserEnv]
  constructor
  · intro h
    obtain ⟨groups, hgroups, hstate⟩ := Option.map_eq_some_iff.1 h
    rw [LabState.fromRequest, hinfo] at hstate
    simp only [LabState.mk.injEq, UserInfo.mk.injEq, LabOptions.mk.injEq] at hstate
    obtain ⟨⟨-, hname, -, -, hsame⟩, ⟨hrecreated, hdebug, hreset, -⟩, -⟩ := hstate
    exact
      { debug := chosen_eq_iff.1 hdebug
        resetUserEnv := chosen_eq_iff.1 hreset
        groups := annotatedGroups_eq_iff.1 (by rw [hgroups, hsame])
        name := annotatedName_eq_iff.1 hname
        size := (recreateSize_eq_iff hsize).1 hrecreated
        cpu := hlong }
  · intro h
    rw [annotatedGroups_eq_iff.2 h.groups, annotatedName_eq_iff.2 h.name,
      (recreateSize_eq_iff hsize).2 h.size, chosen_eq_iff.2 h.debug, chosen_eq_iff.2 h.resetUserEnv,
      LabState.fromRequest, hinfo]
    rfl

section Samples

/-- How the amounts and the group of the sample are written and read. -/
private def sampleLibraries : Libraries where
  numerals :=
    { floatText x := Json.intText x.num ++ ".0".toList
      parseBytes s := if s = toString (1073741824 : ℤ) then .ok 1073741824 else .error s }
  bytesToSi n := if n = 1073741824 then "1Gi" else String.ofList (Json.intText n)
  quotaMemory q := q.memoryBytes / (1024 * 1024 * 1024)
  validateGroup v :=
    ((v.get "name").bind Json.text).bind fun name ↦ (v.get "id").bind fun id ↦
      match id with
      | .number (.finite x) => some ⟨name, x.num⟩
      | _ => none

private def sampleAmount : ResourceQuantity := ⟨1, 1073741824⟩

private def sampleSize : LabSizeDefinition := ⟨.small, ⟨sampleAmount, sampleAmount⟩⟩

private def sampleBuilder : LabBuilder where
  config := { namespacePrefix := "nb", sizes := [sampleSize], env := [("TERM", "vt100")] }
  baseUrl := "https://example.org"

private def sampleUser : GafaelfawrUser where
  username := "ribbon"
  name := some "Ribbon"
  uid := some 1104
  gid := some 1104
  groups := [⟨"ferrymen", 2023⟩]
  quota := some { cpu := 1, memoryBytes := 1073741824 }
  token := "gt-token"

private def sampleSpec : LabSpecification where
  options := { size := .small, enableDebug := true, imageTag := some "recommended" }
  env := [("JUPYTERHUB_SERVICE_PREFIX", "/nb/user/ribbon/")]

private theorem sample_writes : Writes sampleLibraries sampleAmount where
  cpu := by
    have hnumeral : IsNumeral "1.0".toList 1 := by
      refine ⟨⟨.absent, ⟨['1'], List.forall_mem_singleton.2 rfl⟩,
        some ⟨['0'], List.forall_mem_singleton.2 rfl⟩, none, Or.inl (List.cons_ne_nil _ _)⟩, by decide, ?_⟩
      show (Sign.absent).apply (((10 : ℕ) : ℚ) / 10 ^ 1 * 1) = 1
      show ((10 : ℕ) : ℚ) / 10 ^ 1 * 1 = 1
      norm_num
    exact floatOf_eq_finite.2 hnumeral
  memory := by decide
  bytes := by
    show (if toString (1073741824 : ℤ) = toString (1073741824 : ℤ) then
      (.ok 1073741824 : Except String ℤ) else .error (toString (1073741824 : ℤ))) = _
    exact if_pos rfl

private def sampleImage : Images.RSPImage where
  tag := "w_2077_46"
  imageType := .weekly
  displayName := "Weekly 2077_46"
  registry := "lighthouse.ceres"
  repository := "library/sketchbook"
  digest := "sha256:1234"

/-- A lab with the debug option, in an instance with one size of labs. -/
theorem state_survives_sample :
    (sampleBuilder.buildLab sampleLibraries sampleUser sampleSpec sampleImage).bind (fun objects ↦
        sampleBuilder.recreateLabState sampleLibraries "ribbon" (some (objects.observed .running))) =
      some { LabState.fromRequest (Lab.ManagerState.userInfo sampleUser) sampleUser.quota sampleSpec
          ⟨sampleImage.referenceWithDigest⟩ sampleSize.resources with
        status := .running
        internalUrl := some "http://lab.nb-ribbon:8888/nb/user/ribbon/" } := by
  have hshort : ¬ IsLong "1.0".toList := by decide
  have haccepted : sampleBuilder.config.Accepted :=
    ⟨by decide, List.nodup_nil, rfl, by
      intro d hd
      obtain rfl := List.mem_singleton.1 hd
      simp [validateResources, Lab.floatLT, sampleSize]⟩
  have hkeeps : Keeps sampleLibraries sampleUser sampleSize := by
    refine ⟨sample_writes, sample_writes, ?_, ?_⟩
    · intro g hg
      obtain rfl := List.mem_singleton.1 hg
      exact ⟨rfl, by decide⟩
    · intro q hq
      obtain rfl := Option.some.inj hq
      refine ⟨sample_writes, ?_⟩
      have hbytes : ((1073741824 : ℤ) : ℚ) / (1024 * 1024 * 1024) * 1024 * 1024 * 1024 =
          ((1073741824 : ℤ) : ℚ) := by
        norm_num
      show truncated (((1073741824 : ℤ) : ℚ) / (1024 * 1024 * 1024) * 1024 * 1024 * 1024) = 1073741824
      rw [hbytes, truncated, Rat.num_intCast, Rat.den_intCast]
      rfl
  have hquota : validateQuota sampleLibraries.numerals sampleUser.quota = .ok () := by
    have hcores := (cpuToCores_eq_ok_iff (not_isMarked sample_writes)).2 ⟨sample_writes.cpu, hshort⟩
    have hvalid : validateQuantity sampleLibraries.numerals sampleAmount.cpu sampleAmount.memory =
        .ok (.finite 1, 1073741824) := by
      rw [validateQuantity, hcores, sample_writes.bytes]
      rfl
    exact congrArg (Except.map fun _ ↦ ()) hvalid
  refine (@state_survives_iff sampleBuilder sampleLibraries sampleSpec sampleImage sampleSize sampleUser
    haccepted rfl rfl rfl hquota hkeeps .running).2
    ⟨fun _ ↦ rfl, fun h ↦ ?_, fun _ h ↦ ?_, fun _ h ↦ ?_, ?_, ?_⟩
  · cases h
  · cases h
  · cases h
  · intro d hd
    cases hd
  · rintro (h | h) <;> exact hshort h

end Samples

end LabBuilder

end Nublado
