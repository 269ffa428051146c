import Mathlib.Data.List.Nodup
import Nublado.Lab.Builder

/-!
# The volumes of a lab's pod

The volumes of a pod should have names of their own, every mount of the lab's container should name one
of them, and each configured file should be mounted at its path from the entry of the config map that
has its contents (`WellFormed`).

The mounts are in order for every configuration that is accepted (`mounts_wellFormed`). The names are
those of the configured volumes, those made from the last components of the files' paths, and a fixed
list of names that the controller uses itself (`volumeNames`), and no validator compares them.
`volumes_wellFormed_iff` says that they must not meet, and that this is all that is needed: where they
do not, the keys of the config map differ as well. Two files of the same name in different directories
are enough for a pod that Kubernetes would not accept (`same_name_twice`).
-/

namespace Nublado.LabBuilder

variable {config : LabConfig} {username discovery : String} {lab : LabSpecification} {pod : V1Pod}

/-! ### What a pod should be like -/

/-- A file is mounted at its path, from an entry of the config map with its contents. -/
def IsMounted (pod : V1Pod) (configMap : V1ConfigMap) (path contents : String) : Prop :=
  ∃ c ∈ pod.containers, ∃ m ∈ c.volumeMounts, m.mountPath = path ∧
    ∃ v ∈ pod.volumes, v.name = m.name ∧
      ∃ items, v.source = .configMap configMap.name (some items) ∧
        ∃ item ∈ items, m.subPath = some item.path ∧
          configMap.data.lookup item.key = some contents

/-- **The volumes of a pod are well formed.** -/
structure WellFormed (config : LabConfig) (configMap : V1ConfigMap) (pod : V1Pod) : Prop where
  names : (pod.volumes.map V1Volume.name).Nodup
  mounts : ∀ c ∈ pod.containers, ∀ m ∈ c.volumeMounts, ∃ v ∈ pod.volumes, v.name = m.name
  files : ∀ f ∈ config.files, IsMounted pod configMap f.1 f.2

/-! ### Names -/

/-- The names of the volumes that the controller adds by itself. -/
def ownNames : List String :=
  ["passwd", "group", "discovery-v1-json", "secrets", "env", "tmp", "runtime", "lab-startup"]

/-- **Names do not meet**: configured volumes and files have names of their own, and none that the
controller uses. -/
structure NamesApart (config : LabConfig) : Prop where
  volumes : (config.volumes.map VolumeConfig.name).Nodup
  files : (config.files.map fun f ↦ fileKey f.1).Nodup
  /-- No configured volume has a name of the controller's. -/
  volumes_own : ∀ v ∈ config.volumes, v.name ∉ ownNames
  /-- No name made from a path is one of the controller's. -/
  files_own : ∀ f ∈ config.files, fileKey f.1 ∉ ownNames
  /-- No name made from a path is that of a configured volume. -/
  apart : ∀ v ∈ config.volumes, ∀ f ∈ config.files, v.name ≠ fileKey f.1

/-- The names of the volumes of a pod. -/
def volumeNames (config : LabConfig) : List String :=
  config.volumes.map VolumeConfig.name ++ ["passwd", "group"] ++
    config.files.map (fun f ↦ fileKey f.1) ++
    ["discovery-v1-json", "secrets", "env", "tmp", "runtime", "lab-startup"]

theorem nodup_ownNames : ownNames.Nodup := by decide

/-- The names that the controller uses itself, put together. -/
theorem volumeNames_perm : (volumeNames config).Perm
    (config.volumes.map VolumeConfig.name ++ (config.files.map (fun f ↦ fileKey f.1) ++ ownNames)) := by
  rw [volumeNames, List.append_assoc, List.append_assoc]
  refine List.Perm.append_left _ ?_
  have hown : ownNames = ["passwd", "group"] ++
    ["discovery-v1-json", "secrets", "env", "tmp", "runtime", "lab-startup"] := rfl
  rw [hown, ← List.append_assoc, ← List.append_assoc]
  exact List.Perm.append_right _ List.perm_append_comm

theorem nodup_volumeNames_iff : (volumeNames config).Nodup ↔ NamesApart config := by
  rw [volumeNames_perm.nodup_iff, List.nodup_append, List.nodup_append]
  constructor
  · rintro ⟨hvolumes, ⟨hfiles, -, hfilesOwn⟩, hvolumesApart⟩
    refine ⟨hvolumes, hfiles, fun v hv hown ↦ ?_, fun f hf hown ↦ ?_, fun v hv f hf heq ↦ ?_⟩
    · exact hvolumesApart _ (List.mem_map_of_mem hv) _ (List.mem_append_right _ hown) rfl
    · exact hfilesOwn (fileKey f.1) (List.mem_map.2 ⟨f, hf, rfl⟩) _ hown rfl
    · exact hvolumesApart _ (List.mem_map_of_mem hv) (fileKey f.1)
        (List.mem_append_left _ (List.mem_map.2 ⟨f, hf, rfl⟩)) heq
  · intro h
    refine ⟨h.volumes, ⟨h.files, nodup_ownNames, ?_⟩, ?_⟩
    · rintro a ha b hb rfl
      obtain ⟨f, hf, rfl⟩ := List.mem_map.1 ha
      exact h.files_own f hf hb
    · rintro a ha b hb rfl
      obtain ⟨v, hv, rfl⟩ := List.mem_map.1 ha
      rcases List.mem_append.1 hb with hb | hb
      · obtain ⟨f, hf, heq⟩ := List.mem_map.1 hb
        exact h.apart v hv f hf heq.symm
      · exact h.volumes_own v hv hb

/-! ### The pod -/

/-- What is in the pod that is built. -/
theorem buildPod_eq_ok (h : buildPod config username lab = .ok pod) : ∃ resources : LabResources,
    pod.volumes = buildPodVolumes config username
      (sharedMountedVolumes config username resources ++ [buildPodStartupVolume (640 * 1024) true]) ∧
    pod.containers = buildPodContainers (buildPodVolumeMounts config
      (sharedMountedVolumes config username resources ++
        [buildPodStartupVolume (640 * 1024) true])) := by
  rw [buildPod] at h
  split at h
  · cases h
  · next size _ =>
    obtain rfl := Except.ok.inj h
    exact ⟨size.resources, rfl, rfl⟩

theorem names_buildVolumes (volumes : List VolumeConfig) (pvcPrefix : String) :
    (VolumeBuilder.buildVolumes volumes pvcPrefix).map V1Volume.name =
      volumes.map VolumeConfig.name := by
  rw [VolumeBuilder.buildVolumes, List.map_map]
  refine List.map_congr_left fun v _ ↦ ?_
  obtain ⟨name, source⟩ := v
  cases source <;> rfl

theorem names_volumes (h : buildPod config username lab = .ok pod) :
    pod.volumes.map V1Volume.name = volumeNames config := by
  obtain ⟨resources, hvolumes, -⟩ := buildPod_eq_ok h
  have hpasswd : dashed (pathName "/etc/passwd") = "passwd" := by decide
  have hgroup : dashed (pathName "/etc/group") = "group" := by decide
  rw [hvolumes, buildPodVolumes, List.map_append, names_buildVolumes, volumeNames]
  simp [sharedMountedVolumes, buildPodNssVolumes, buildPodFileVolumes, buildPodConfigMapVolume,
    buildPodSecretVolume, buildPodEnvVolume, buildPodTmpVolume, buildPodDownwardApiVolume,
    buildPodStartupVolume, hpasswd, hgroup, fileKey]

/-! ### Mounts -/

theorem mem_of_validateMounts {volumes : List String} {mounts : List VolumeMountConfig}
    (h : validateMounts volumes mounts = .ok ()) : ∀ m ∈ mounts, m.volumeName ∈ volumes := by
  induction mounts with
  | nil => exact fun m hm ↦ absurd hm List.not_mem_nil
  | cons mount mounts ih =>
    rw [validateMounts] at h
    split at h
    · cases h
    · next hmem =>
      intro m hm
      rcases List.mem_cons.1 hm with rfl | hm
      · exact not_not.1 hmem
      · exact ih h m hm

/-- Mounts of the configuration are of volumes of the configuration. -/
theorem volumeName_mem (h : config.Accepted) {m : VolumeMountConfig}
    (hm : m ∈ config.volumeMounts) : m.volumeName ∈ config.volumes.map VolumeConfig.name := by
  have hvolumes := h.volumes
  rw [LabConfig.validateVolumes] at hvolumes
  rcases hmounts : validateMounts (config.volumes.map VolumeConfig.name) config.volumeMounts with
    e | _
  · rw [hmounts] at hvolumes
    cases hvolumes
  · exact mem_of_validateMounts hmounts m hm

/-- A volume that the controller adds is mounted under its own name. -/
theorem name_eq_of_mem {resources : LabResources} {v : MountedVolume}
    (h : v ∈ sharedMountedVolumes config username resources ++
      [buildPodStartupVolume (640 * 1024) true]) : v.volumeMount.name = v.volume.name := by
  simp only [sharedMountedVolumes, buildPodNssVolumes, buildPodFileVolumes, List.mem_append,
    List.mem_map, List.mem_cons, List.not_mem_nil, or_false] at h
  rcases h with (((⟨f, -, rfl⟩ | ⟨f, -, rfl⟩ | rfl) | rfl | rfl | rfl | rfl) | rfl) <;> rfl

/-- **Every mount of the lab's container names a volume** of the pod. -/
theorem mounts_wellFormed (hconfig : config.Accepted)
    (h : buildPod config username lab = .ok pod) :
    ∀ c ∈ pod.containers, ∀ m ∈ c.volumeMounts, ∃ v ∈ pod.volumes, v.name = m.name := by
  obtain ⟨resources, hvolumes, hcontainers⟩ := buildPod_eq_ok h
  have hadded : ∀ v ∈ sharedMountedVolumes config username resources ++
      [buildPodStartupVolume (640 * 1024) true], v.volume ∈ pod.volumes := by
    intro v hv
    rw [hvolumes, buildPodVolumes]
    exact List.mem_append_right _ (List.mem_map_of_mem hv)
  rw [hcontainers]
  intro c hc m hm
  obtain rfl := List.mem_singleton.1 hc
  rcases List.mem_append.1 hm with hm | hm
  · rcases List.mem_append.1 hm with hm | hm
    · obtain ⟨spec, hspec, rfl⟩ := List.mem_map.1 hm
      have hname := volumeName_mem hconfig hspec
      rw [← names_buildVolumes config.volumes (username ++ "-nb")] at hname
      obtain ⟨v, hv, heq⟩ := List.mem_map.1 hname
      refine ⟨v, ?_, heq⟩
      rw [hvolumes, buildPodVolumes]
      exact List.mem_append_left _ hv
    · obtain ⟨v, hv, rfl⟩ := List.mem_map.1 hm
      exact ⟨v.volume, hadded v hv, (name_eq_of_mem hv).symm⟩
  · obtain ⟨spec, -, hspec⟩ := List.mem_filterMap.1 hm
    split at hspec
    · obtain rfl := Option.some.inj hspec
      refine ⟨_, hadded (buildPodSecretVolume config username) ?_, rfl⟩
      exact List.mem_append_left _ (List.mem_append_right _ List.mem_cons_self)
    · cases hspec

/-! ### Files -/

/-- Keys that differ select what the files contain. -/
theorem lookup_buildFileConfigMap (h : (config.files.map fun f ↦ fileKey f.1).Nodup)
    {f : String × String} (hf : f ∈ config.files) :
    (buildFileConfigMap config username discovery).data.lookup (fileKey f.1) = some f.2 := by
  have hkeys : DistinctKeys (config.files.map fun f ↦ (fileKey f.1, f.2)) := by
    rw [DistinctKeys, List.map_map]
    exact h
  have hfiles : dictUpdate [] (config.files.map fun f ↦ (fileKey f.1, f.2)) =
      config.files.map fun f ↦ (fileKey f.1, f.2) := dictUpdate_eq_append hkeys
  have hmem : (fileKey f.1, f.2) ∈ config.files.map fun f ↦ (fileKey f.1, f.2) :=
    List.mem_map.2 ⟨f, hf, rfl⟩
  rw [buildFileConfigMap]
  show List.lookup _ (dictUpdate _ (dictUpdate [] _)) = _
  rw [hfiles]
  exact lookup_dictUpdate_of_mem hkeys hmem

theorem files_wellFormed (h : buildPod config username lab = .ok pod)
    (hfiles : (config.files.map fun f ↦ fileKey f.1).Nodup) :
    ∀ f ∈ config.files,
      IsMounted pod (buildFileConfigMap config username discovery) f.1 f.2 := by
  obtain ⟨resources, hvolumes, hcontainers⟩ := buildPod_eq_ok h
  intro f hf
  have hadded : buildPodConfigMapVolume (username ++ "-nb-files") f.1 ∈
      sharedMountedVolumes config username resources ++ [buildPodStartupVolume (640 * 1024) true] := by
    have hfile : buildPodConfigMapVolume (username ++ "-nb-files") f.1 ∈
        buildPodFileVolumes config username :=
      List.mem_append_left _ (List.mem_map.2 ⟨f, hf, rfl⟩)
    exact List.mem_append_left _ (List.mem_append_left _ (List.mem_append_right _ hfile))
  refine ⟨⟨"notebook", buildPodVolumeMounts config (sharedMountedVolumes config username resources ++
      [buildPodStartupVolume (640 * 1024) true])⟩, ?_,
    (buildPodConfigMapVolume (username ++ "-nb-files") f.1).volumeMount, ?_, rfl,
    (buildPodConfigMapVolume (username ++ "-nb-files") f.1).volume, ?_, rfl, _, rfl, _,
    List.mem_singleton_self _, rfl, lookup_buildFileConfigMap hfiles hf⟩
  · rw [hcontainers]
    exact List.mem_singleton_self _
  · exact List.mem_append_left _ (List.mem_append_right _ (List.mem_map_of_mem hadded))
  · rw [hvolumes, buildPodVolumes]
    exact List.mem_append_right _ (List.mem_map_of_mem hadded)

/-- **The volumes of a pod are well formed** exactly if the names of the configured volumes and those
made from the files' paths do not meet, neither each other nor a name that the controller uses. -/
theorem volumes_wellFormed_iff (hconfig : config.Accepted)
    (h : buildPod config username lab = .ok pod) :
    WellFormed config (buildFileConfigMap config username discovery) pod ↔ NamesApart config := by
  rw [← nodup_volumeNames_iff, ← names_volumes h]
  constructor
  · exact WellFormed.names
  · intro hnames
    refine ⟨hnames, mounts_wellFormed hconfig h, files_wellFormed h ?_⟩
    rw [names_volumes h, nodup_volumeNames_iff] at hnames
    exact hnames.files

section Samples

/-- A configuration with a home volume and these files. -/
private def sampleConfig (files : List (String × String)) : LabConfig where
  namespacePrefix := "nublado"
  sizes := [⟨.small, ⟨1, 1024⟩, ⟨1, 1024⟩⟩]
  volumes := [⟨"home", .hostPath "/home"⟩]
  volumeMounts := [{ containerPath := "/home", volumeName := "home" }]
  files := files

private def sampleLab : LabSpecification := ⟨{ size := .small }, []⟩

private theorem accepted_sampleConfig {files : List (String × String)}
    (h : ∀ f ∈ files, rejectReservedPaths f.1 = .ok f.1) : (sampleConfig files).Accepted where
  names v hv := by
    obtain rfl := List.mem_singleton.1 hv
    decide
  mounts m hm := by
    obtain rfl := List.mem_singleton.1 hm
    exact ⟨rfl, rfl⟩
  files := h
  secrets := rfl
  volumes := rfl

private theorem exists_pod (files : List (String × String)) :
    ∃ pod, buildPod (sampleConfig files) "bob" sampleLab = .ok pod := ⟨_, rfl⟩

/-- Two files of different names. -/
private def twoNames : List (String × String) := [("/opt/a.yaml", "one"), ("/opt/b.yaml", "two")]

/-- Two files of one name, in different directories. -/
private def oneName : List (String × String) :=
  [("/opt/a/config.yaml", "one"), ("/opt/b/config.yaml", "two")]

/-- Files of different names. -/
theorem volumes_wellFormed_sample : ∃ pod,
    buildPod (sampleConfig twoNames) "bob" sampleLab = .ok pod ∧
      WellFormed (sampleConfig twoNames)
        (buildFileConfigMap (sampleConfig twoNames) "bob" "discovery") pod := by
  obtain ⟨pod, hpod⟩ := exists_pod twoNames
  refine ⟨pod, hpod, (volumes_wellFormed_iff (accepted_sampleConfig ?_) hpod).2 ?_⟩
  · intro f hf
    simp only [twoNames, List.mem_cons, List.not_mem_nil, or_false] at hf
    rcases hf with rfl | rfl <;> rfl
  · exact nodup_volumeNames_iff.1 (by decide)

/-- **The same name twice** makes two volumes of one name. -/
theorem same_name_twice : ¬ ∀ (config : LabConfig) (username discovery : String)
    (lab : LabSpecification) (pod : V1Pod), config.Accepted →
      buildPod config username lab = .ok pod →
        WellFormed config (buildFileConfigMap config username discovery) pod := by
  intro hall
  obtain ⟨pod, hpod⟩ := exists_pod oneName
  have haccepted : (sampleConfig oneName).Accepted := by
    refine accepted_sampleConfig fun f hf ↦ ?_
    simp only [oneName, List.mem_cons, List.not_mem_nil, or_false] at hf
    rcases hf with rfl | rfl <;> rfl
  have hnames := (hall (sampleConfig oneName) "bob" "discovery" sampleLab pod haccepted hpod).names
  rw [names_volumes hpod, nodup_volumeNames_iff] at hnames
  have hpair : [fileKey "/opt/a/config.yaml", fileKey "/opt/b/config.yaml"].Nodup := hnames.files
  have hkey : fileKey "/opt/a/config.yaml" = fileKey "/opt/b/config.yaml" :=
    congrArg dashed (congrArg String.ofList (by decide))
  rw [hkey] at hpair
  exact absurd (List.mem_singleton_self _) (List.nodup_cons.1 hpair).1

end Samples

end Nublado.LabBuilder
