import Mathlib.Data.List.Induction
import Nublado.Fileserver.Storage

/-!
# The state of the file servers

Each user should be mapped to the first job of the user, the pod of that job if there is exactly one,
and its ingress. Where a job has several pods they are to be ignored, but the variable for the pod is
not reset, and so the entry of the user gets the pod of the job before, or there is no value to take.

* `Reads` is the promise, and `Clean` the condition on the first jobs of the users, in order.
* `carried` are the entries with the values that are left over, which is what is returned where the
  first job does not have several pods (`foldlM_of_head`).
* `reads_iff`: the state is read as promised exactly under the condition. `pod_of_another_user` has
  two clusters: in one a user is given the pod of another, in the other nothing can be read.
-/

namespace Nublado.Fileserver

/-! ### The first jobs of the users -/

/-- The first job of each user, in order, but for users seen before. -/
def firstJobs (seen : List String) : List V1Job → List (String × V1Job)
  | [] => []
  | job :: jobs =>
    match job.user with
    | none => firstJobs seen jobs
    | some username =>
      if username ∈ seen then firstJobs seen jobs
      else (username, job) :: firstJobs (seen ++ [username]) jobs

/-- **The first job of a user** is found under the user. -/
theorem lookup_firstJobs (seen : List String) (jobs : List V1Job) (username : String) :
    (firstJobs seen jobs).lookup username =
      if username ∈ seen then none else jobs.find? fun job ↦ job.user = some username := by
  induction jobs generalizing seen with
  | nil => simp [firstJobs]
  | cons job jobs ih =>
    unfold firstJobs
    rcases huser : job.user with _ | other
    · show (firstJobs seen jobs).lookup username = _
      rw [ih, List.find?_cons_of_neg (by simp [huser])]
    · show (if other ∈ seen then firstJobs seen jobs
        else (other, job) :: firstJobs (seen ++ [other]) jobs).lookup username = _
      rcases eq_or_ne username other with rfl | hne
      · rw [List.find?_cons_of_pos (by simp [huser])]
        split_ifs with hseen
        · rw [ih, if_pos hseen]
        · exact List.lookup_cons_self
      · have hother : (firstJobs (seen ++ [other]) jobs).lookup username =
            (firstJobs seen jobs).lookup username := by
          rw [ih, ih]
          simp [hne]
        rw [List.find?_cons_of_neg (by simpa [huser] using hne.symm)]
        split_ifs with hseen hmem hmem
        · rw [ih, if_pos hmem]
        · rw [ih, if_neg hmem]
        · rw [List.lookup_cons, beq_false_of_ne hne, hother, ih, if_pos hmem]
        · rw [List.lookup_cons, beq_false_of_ne hne, hother, ih, if_neg hmem]

/-- No user comes up twice. -/
theorem distinctKeys_firstJobs (seen : List String) (jobs : List V1Job) :
    DistinctKeys (firstJobs seen jobs) := by
  induction jobs generalizing seen with
  | nil => exact List.nodup_nil
  | cons job jobs ih =>
    unfold firstJobs
    split
    · exact ih seen
    · next username _ =>
      split_ifs
      · exact ih seen
      · refine List.nodup_cons.2 ⟨?_, ih (seen ++ [username])⟩
        rw [not_mem_keys_iff, lookup_firstJobs, if_pos (by simp)]

namespace Cluster

variable {k : Cluster} {loop loop' : ReadLoop} {username : String} {job : V1Job}

/-! ### One job -/

/-- There are several pods for a job. -/
def Ambiguous (k : Cluster) (job : V1Job) : Prop := 1 < (k.podsOf job.name).length

instance (job : V1Job) : Decidable (k.Ambiguous job) :=
  inferInstanceAs (Decidable (_ < _))

/-- The pod of a job, if there is exactly one. -/
def podOf (k : Cluster) (job : V1Job) : Option V1Pod :=
  match k.podsOf job.name with
  | [pod] => some pod
  | _ => none

/-- A call of the API for a job fails. -/
def Failing (k : Cluster) (job : V1Job) : Prop :=
  (k.fails (.listPods job.name)).isSome = true ∨ (k.fails (.readIngress job.name)).isSome = true

instance (job : V1Job) : Decidable (k.Failing job) :=
  inferInstanceAs (Decidable (_ ∨ _))

/-- The objects of a job with a pod. -/
def objectsWith (k : Cluster) (job : V1Job) (pod : Option V1Pod) : FileserverStateObjects :=
  ⟨job, pod, k.ingressOf job.name⟩

theorem podOf_of_ambiguous (h : k.Ambiguous job) : k.podOf job = none := by
  unfold Ambiguous at h
  unfold podOf
  split
  · next pod heq =>
    rw [heq] at h
    exact absurd h (Nat.lt_irrefl _)
  · rfl

/-- The pod that is found carries the label of the job. -/
theorem label_of_podOf {pod : V1Pod} (h : k.podOf job = some pod) :
    pod.labels.lookup "job-name" = some job.name := by
  unfold podOf at h
  split at h
  · next pod' heq =>
    obtain rfl := Option.some.inj h
    have hmem : pod' ∈ k.podsOf job.name := by
      rw [heq]
      exact List.mem_cons_self
    exact of_decide_eq_true (List.mem_filter.1 hmem).2
  · cases h

/-- **Where a call fails** for a job, so does the reading. -/
theorem readObjects_of_failing (h : k.Failing job) (loop : ReadLoop) (username : String) :
    ∃ e, k.readObjects loop username job = .error (.api e) := by
  unfold readObjects readPod getPodForJob call
  rcases hpods : k.fails (.listPods job.name) with _ | e
  · obtain ⟨e, he⟩ : ∃ e, k.fails (.readIngress job.name) = some e := by
      rcases h with h | h
      · rw [hpods] at h
        cases h
      · exact Option.isSome_iff_exists.1 h
    refine ⟨e, ?_⟩
    rw [he]
    rcases k.podsOf job.name with _ | ⟨pod, _ | ⟨pod', pods⟩⟩ <;> rfl
  · exact ⟨e, rfl⟩

theorem call_of_not_fails {α : Type} {c : ApiCall} (h : k.fails c = none) (result : α) :
    k.call c result = .ok result := by
  rw [call, h]

/-- **Several pods leave the variable as it is.** -/
theorem readPod_eq (h : k.fails (.listPods job.name) = none) (loop : ReadLoop) :
    k.readPod loop job =
      .ok { loop with pod := if k.Ambiguous job then loop.pod else some (k.podOf job) } := by
  unfold readPod getPodForJob
  rw [call_of_not_fails h]
  rcases hpods : k.podsOf job.name with _ | ⟨pod, _ | ⟨pod', pods⟩⟩
  · have hsingle : ¬k.Ambiguous job := by simp [Ambiguous, hpods]
    rw [if_neg hsingle, podOf, hpods]
    rfl
  · have hsingle : ¬k.Ambiguous job := by simp [Ambiguous, hpods]
    rw [if_neg hsingle, podOf, hpods]
    rfl
  · have hseveral : k.Ambiguous job := by simp [Ambiguous, hpods]
    rw [if_pos hseveral]
    rfl

/-- **What is read for one job.** -/
theorem readObjects_eq (h : ¬k.Failing job) (loop : ReadLoop) (username : String) :
    k.readObjects loop username job =
      match if k.Ambiguous job then loop.pod else some (k.podOf job) with
      | none => .error .unboundLocal
      | some pod => .ok ⟨loop.state ++ [(username, k.objectsWith job pod)], some pod⟩ := by
  unfold Failing at h
  rw [not_or, Option.not_isSome_iff_eq_none, Option.not_isSome_iff_eq_none] at h
  rw [readObjects, readPod_eq h.1, call_of_not_fails h.2]
  show (match if k.Ambiguous job then loop.pod else some (k.podOf job) with
    | none => Except.error ReadError.unboundLocal
    | some pod => _) = _
  rcases (if k.Ambiguous job then loop.pod else some (k.podOf job)) with _ | pod <;> rfl

/-- A job that is read gives its user an entry. -/
theorem keys_readObjects (h : k.readObjects loop username job = .ok loop') :
    loop'.state.map Prod.fst = loop.state.map Prod.fst ++ [username] := by
  by_cases hfailing : k.Failing job
  · obtain ⟨e, he⟩ := readObjects_of_failing hfailing loop username
    rw [he] at h
    cases h
  · rw [readObjects_eq hfailing] at h
    split at h
    · cases h
    · obtain rfl := Except.ok.inj h
      simp

/-! ### The loop -/

/-- **The first jobs of the users** are all that is read. -/
theorem foldlM_readJob (jobs : List V1Job) (loop : ReadLoop) :
    jobs.foldlM k.readJob loop =
      (firstJobs (loop.state.map Prod.fst) jobs).foldlM
        (fun loop p ↦ k.readObjects loop p.1 p.2) loop := by
  induction jobs generalizing loop with
  | nil => rfl
  | cons job jobs ih =>
    rw [List.foldlM_cons]
    unfold readJob firstJobs
    rcases huser : job.user with _ | username
    · exact ih loop
    · show (if (loop.state.lookup username).isSome then Except.ok loop
        else k.readObjects loop username job) >>= (fun loop ↦ jobs.foldlM k.readJob loop) =
          List.foldlM _ _ (if username ∈ loop.state.map Prod.fst then _ else _)
      by_cases hseen : username ∈ loop.state.map Prod.fst
      · have hsome : (loop.state.lookup username).isSome = true := by
          rw [Option.isSome_iff_ne_none]
          exact fun hnone ↦ not_mem_keys_iff.2 hnone hseen
        rw [if_pos hsome, if_pos hseen]
        exact ih loop
      · have hnone := not_mem_keys_iff.1 hseen
        rw [if_neg (by simp [hnone]), if_neg hseen, List.foldlM_cons]
        rcases hread : k.readObjects loop username job with e | loop'
        · rfl
        · show jobs.foldlM k.readJob loop' = List.foldlM _ loop' _
          rw [ih loop', keys_readObjects hread]

/-- The entries of the users, with the values that are left over: where there are several pods for a
job, it gets the pod of the job before. -/
def carried (k : Cluster) (pod : Option V1Pod) :
    List (String × V1Job) → List (String × FileserverStateObjects)
  | [] => []
  | (username, job) :: rest =>
    let pod := if k.Ambiguous job then pod else k.podOf job
    (username, k.objectsWith job pod) :: k.carried pod rest

/-- The entries that are promised. -/
def promised (k : Cluster) (l : List (String × V1Job)) : List (String × FileserverStateObjects) :=
  l.map fun p ↦ (p.1, k.objectsWith p.2 (k.podOf p.2))

/-- The value of the variable after some jobs. -/
def leftover (k : Cluster) (pod : Option V1Pod) (l : List (String × V1Job)) : Option V1Pod :=
  l.foldl (fun pod p ↦ if k.Ambiguous p.2 then pod else k.podOf p.2) pod

variable {l : List (String × V1Job)} {pod : Option V1Pod}

theorem keys_carried : (k.carried pod l).map Prod.fst = l.map Prod.fst := by
  induction l generalizing pod with
  | nil => rfl
  | cons p l ih =>
    show p.1 :: (k.carried _ l).map Prod.fst = p.1 :: l.map Prod.fst
    rw [ih]

/-- **With a value for the variable** all jobs are read. -/
theorem foldlM_of_bound (h : ∀ p ∈ l, ¬k.Failing p.2) (hpod : loop.pod = some pod) :
    (l.foldlM (fun loop p ↦ k.readObjects loop p.1 p.2) loop).map (·.state) =
      .ok (loop.state ++ k.carried pod l) := by
  induction l generalizing loop pod with
  | nil =>
    show Except.ok loop.state = _
    rw [carried, List.append_nil]
  | cons p l ih =>
    obtain ⟨hp, hrest⟩ := List.forall_mem_cons.1 h
    rw [List.foldlM_cons, readObjects_eq hp, hpod, ← apply_ite some]
    have hafter := @ih ⟨loop.state ++ [(p.1, k.objectsWith p.2
      (if k.Ambiguous p.2 then pod else k.podOf p.2))],
      some (if k.Ambiguous p.2 then pod else k.podOf p.2)⟩ _ hrest rfl
    refine hafter.trans ?_
    rw [List.append_assoc]
    rfl

/-- Reading starts with a job that does not have several pods. -/
theorem foldlM_of_head (h : ∀ p ∈ l, ¬k.Failing p.2)
    (hhead : ∀ p, l.head? = some p → ¬k.Ambiguous p.2) :
    (l.foldlM (fun loop p ↦ k.readObjects loop p.1 p.2) {}).map (·.state) =
      .ok (k.carried none l) := by
  rcases l with _ | ⟨p, l⟩
  · rfl
  · obtain ⟨hp, hrest⟩ := List.forall_mem_cons.1 h
    have hsingle := hhead p rfl
    rw [List.foldlM_cons, readObjects_eq hp, if_neg hsingle, carried, if_neg hsingle]
    exact foldlM_of_bound hrest rfl

/-- **Without a value** the first job with several pods cannot be read. -/
theorem foldlM_of_unbound {p : String × V1Job} (hhead : l.head? = some p)
    (hseveral : k.Ambiguous p.2) (hp : ¬k.Failing p.2) :
    l.foldlM (fun loop p ↦ k.readObjects loop p.1 p.2) {} = .error .unboundLocal := by
  obtain ⟨rest, rfl⟩ := List.head?_eq_some_iff.1 hhead
  rw [List.foldlM_cons, readObjects_eq hp, if_pos hseveral]
  rfl

/-- **Where a call fails** there is no value to take, or the failure is what is raised. -/
theorem foldlM_of_failing (h : ∃ p ∈ l, k.Failing p.2)
    (hpod : loop.pod = none → ∀ p, l.head? = some p → k.Ambiguous p.2 → k.Failing p.2) :
    ∃ e, l.foldlM (fun loop p ↦ k.readObjects loop p.1 p.2) loop = .error (.api e) := by
  induction l generalizing loop with
  | nil =>
    obtain ⟨p, hp, -⟩ := h
    cases hp
  | cons p l ih =>
    rw [List.foldlM_cons]
    by_cases hp : k.Failing p.2
    · obtain ⟨e, he⟩ := readObjects_of_failing hp loop p.1
      rw [he]
      exact ⟨e, rfl⟩
    · have hrest : ∃ q ∈ l, k.Failing q.2 := by
        obtain ⟨q, hq, hfailing⟩ := h
        rcases List.mem_cons.1 hq with rfl | hq
        · exact absurd hfailing hp
        · exact ⟨q, hq, hfailing⟩
      obtain ⟨value, hvalue⟩ : ∃ value,
          (if k.Ambiguous p.2 then loop.pod else some (k.podOf p.2)) = some value := by
        split_ifs with hseveral
        · refine Option.ne_none_iff_exists'.1 fun hnone ↦ ?_
          exact hp (hpod hnone p rfl hseveral)
        · exact ⟨_, rfl⟩
      rw [readObjects_eq hp, hvalue]
      exact ih hrest fun hnone ↦ by cases hnone

/-- **The values left over are the pods themselves** where they are none before a job with several
pods. -/
theorem carried_eq_promised_iff : k.carried pod l = k.promised l ↔
    ∀ before p after, l = before ++ p :: after → k.Ambiguous p.2 →
      k.leftover pod before = none := by
  induction l generalizing pod with
  | nil =>
    refine ⟨fun _ before p after heq ↦ ?_, fun _ ↦ rfl⟩
    simp at heq
  | cons p l ih =>
    have hcons : k.carried pod (p :: l) = k.promised (p :: l) ↔
        (k.Ambiguous p.2 → pod = none) ∧
          k.carried (if k.Ambiguous p.2 then pod else k.podOf p.2) l = k.promised l := by
      show (p.1, k.objectsWith p.2 (if k.Ambiguous p.2 then pod else k.podOf p.2)) ::
        k.carried (if k.Ambiguous p.2 then pod else k.podOf p.2) l =
          (p.1, k.objectsWith p.2 (k.podOf p.2)) :: k.promised l ↔ _
      rw [List.cons.injEq]
      refine and_congr_left' ?_
      by_cases hseveral : k.Ambiguous p.2
      · simp [hseveral, objectsWith, podOf_of_ambiguous hseveral]
      · simp [hseveral]
    rw [hcons, ih]
    constructor
    · rintro ⟨hfirst, hrest⟩ before q after heq hseveral
      rcases before with _ | ⟨b, before⟩
      · obtain ⟨rfl, -⟩ := List.cons.inj heq
        exact hfirst hseveral
      · obtain ⟨rfl, rfl⟩ := List.cons.inj heq
        exact hrest before q after rfl hseveral
    · intro h
      refine ⟨fun hseveral ↦ h [] p l rfl hseveral, fun before q after heq hseveral ↦ ?_⟩
      subst heq
      exact h (p :: before) q after rfl hseveral

/-- What is left over is the pod of the last job with at most one. -/
theorem leftover_none (l : List (String × V1Job)) :
    k.leftover none l = ((l.filter fun p ↦ ¬k.Ambiguous p.2).getLast?).bind (k.podOf ·.2) := by
  induction l using List.reverseRecOn with
  | nil => rfl
  | append_singleton l p ih =>
    rw [leftover, List.foldl_append, List.filter_append]
    by_cases hseveral : k.Ambiguous p.2
    · have hsame : k.leftover none l = _ := ih
      unfold leftover at hsame
      simpa [hseveral] using hsame
    · simp [hseveral]

/-! ### The condition -/

/-- The first jobs of all users. -/
def firsts (k : Cluster) : List (String × V1Job) := firstJobs [] k.fileserverJobs

/-- **What precedes a job with several pods**: the last job before it with at most one pod has
none. -/
def Clean (k : Cluster) (l : List (String × V1Job)) : Prop :=
  ∀ before p after, l = before ++ p :: after → k.Ambiguous p.2 →
    ∃ last, (before.filter fun q ↦ ¬k.Ambiguous q.2).getLast? = some last ∧ k.podOf last.2 = none

theorem clean_iff : k.Clean l ↔ (∀ p, l.head? = some p → ¬k.Ambiguous p.2) ∧
    k.carried none l = k.promised l := by
  rw [carried_eq_promised_iff]
  constructor
  · intro h
    constructor
    · intro p hp hseveral
      obtain ⟨rest, rfl⟩ := List.head?_eq_some_iff.1 hp
      obtain ⟨last, hlast, -⟩ := h [] p rest rfl hseveral
      cases hlast
    · intro before p after heq hseveral
      obtain ⟨last, hlast, hnone⟩ := h before p after heq hseveral
      rw [leftover_none, hlast]
      exact hnone
  · rintro ⟨hhead, h⟩ before p after rfl hseveral
    rcases before with _ | ⟨b, before⟩
    · exact absurd hseveral (hhead p rfl)
    · have hfirst := hhead b rfl
      have hne : ((b :: before).filter fun q ↦ ¬k.Ambiguous q.2) ≠ [] := by
        simp [hfirst]
      refine ⟨_, List.getLast?_eq_some_getLast hne, ?_⟩
      have hnone := h (b :: before) p after rfl hseveral
      rw [leftover_none, List.getLast?_eq_some_getLast hne] at hnone
      exact hnone

/-- **When the state is read as promised**: the jobs cannot be listed; or the first of them does not
have several pods, unless it cannot be read, and if all of them can be read, no value is left over
that a job with several pods would take. -/
def ReadsWhen (k : Cluster) : Prop :=
  (k.fails .listJobs).isSome = true ∨
    (∀ p, k.firsts.head? = some p → k.Ambiguous p.2 → k.Failing p.2) ∧
    ((∀ p ∈ k.firsts, ¬k.Failing p.2) → k.Clean k.firsts)

/-! ### The promise -/

/-- The objects that a user is to be mapped to. -/
def objectsOf (k : Cluster) (username : String) : Option FileserverStateObjects :=
  (k.fileserverJobs.find? fun job ↦ job.user = some username).map fun job ↦
    k.objectsWith job (k.podOf job)

/-- **The promise**: only the failure of a call is raised, each user is mapped to the objects of the
first job, and to no pod of another. -/
def Reads (k : Cluster) : Prop :=
  match k.readFileserverState with
  | .error e => ∃ a, e = .api a
  | .ok state => ∀ username, state.lookup username = k.objectsOf username ∧
    ∀ objects, state.lookup username = some objects → ∀ pod, objects.pod = some pod →
      pod.labels.lookup "job-name" = some objects.job.name

theorem lookup_promised (username : String) :
    (k.promised k.firsts).lookup username = k.objectsOf username := by
  have hmap : ∀ l : List (String × V1Job), (k.promised l).lookup username =
      (l.lookup username).map fun job ↦ k.objectsWith job (k.podOf job) := by
    intro l
    induction l with
    | nil => rfl
    | cons p l ih =>
      show List.lookup username ((p.1, _) :: k.promised l) = _
      rw [List.lookup_cons, List.lookup_cons, ih]
      split <;> rfl
  rw [hmap, firsts, lookup_firstJobs, if_neg (List.not_mem_nil)]
  rfl

/-- **The state is as promised** exactly if the entries are. -/
theorem forall_lookup_iff : (∀ username,
      (k.carried none k.firsts).lookup username = k.objectsOf username ∧
      ∀ objects, (k.carried none k.firsts).lookup username = some objects →
        ∀ pod, objects.pod = some pod → pod.labels.lookup "job-name" = some objects.job.name) ↔
    k.carried none k.firsts = k.promised k.firsts := by
  constructor
  · intro h
    refine eq_of_lookup_eq ?_ ?_ fun username ↦ ?_
    · rw [DistinctKeys, keys_carried]
      exact distinctKeys_firstJobs [] _
    · rw [keys_carried, promised, List.map_map]
      rfl
    · rw [lookup_promised]
      exact (h username).1
  · intro h username
    rw [h, lookup_promised]
    refine ⟨rfl, fun objects hobjects pod hpod ↦ ?_⟩
    obtain ⟨job, -, rfl⟩ := Option.map_eq_some_iff.1 hobjects
    exact label_of_podOf hpod

/-- What the promise says of a result. -/
theorem reads_of_error {e : ReadError} (h : k.readFileserverState = .error e) :
    k.Reads ↔ ∃ a, e = .api a := by
  rw [Reads, h]

theorem reads_of_ok (h : k.readFileserverState = .ok (k.carried none k.firsts)) :
    k.Reads ↔ k.carried none k.firsts = k.promised k.firsts := by
  rw [Reads, h]
  exact forall_lookup_iff

/-- The jobs can be listed. -/
theorem readFileserverState_eq (h : k.fails .listJobs = none) :
    k.readFileserverState =
      (k.firsts.foldlM (fun loop p ↦ k.readObjects loop p.1 p.2) {}).map (·.state) := by
  rw [readFileserverState, call_of_not_fails h]
  show (k.fileserverJobs.foldlM k.readJob {}).bind _ = _
  rw [foldlM_readJob]
  rfl

/-- **The file server state is read per user** exactly under the condition. -/
theorem reads_iff (k : Cluster) : k.Reads ↔ k.ReadsWhen := by
  unfold ReadsWhen
  rcases hlist : k.fails .listJobs with _ | e
  · rw [Option.isSome_none, or_iff_right (Bool.false_ne_true)]
    have hread := readFileserverState_eq hlist
    by_cases hfirst : ∀ p, k.firsts.head? = some p → k.Ambiguous p.2 → k.Failing p.2
    · rw [and_iff_right hfirst]
      by_cases hfailing : ∃ p ∈ k.firsts, k.Failing p.2
      · obtain ⟨e, he⟩ := foldlM_of_failing hfailing fun (_ : ({} : ReadLoop).pod = none) ↦ hfirst
        rw [he] at hread
        refine iff_of_true ((reads_of_error hread).2 ⟨e, rfl⟩) fun hnone ↦ ?_
        obtain ⟨p, hp, hpfailing⟩ := hfailing
        exact absurd hpfailing (hnone p hp)
      · push Not at hfailing
        have hhead : ∀ p, k.firsts.head? = some p → ¬k.Ambiguous p.2 := fun p hp hseveral ↦
          hfailing p (List.mem_of_head? hp) (hfirst p hp hseveral)
        rw [foldlM_of_head hfailing hhead] at hread
        rw [reads_of_ok hread, forall_prop_of_true hfailing, clean_iff, and_iff_right hhead]
    · -- the first job has several pods and is read
      refine iff_of_false ?_ fun h ↦ hfirst h.1
      push Not at hfirst
      obtain ⟨p, hp, hseveral, hreadable⟩ := hfirst
      rw [foldlM_of_unbound hp hseveral hreadable] at hread
      rw [reads_of_error hread]
      rintro ⟨a, ha⟩
      cases ha
  · refine iff_of_true ((reads_of_error (e := .api e) ?_).2 ⟨e, rfl⟩) (Or.inl rfl)
    rw [readFileserverState, call, hlist]
    rfl

/-! ### Two clusters -/

namespace Sample

/-- A job of a file server. -/
def jobFor (username : String) : V1Job where
  name := username ++ "-fs"
  labels := [("nublado.lsst.io/category", "fileserver"), ("nublado.lsst.io/user", username)]

/-- A pod of a job. -/
def podFor (name username : String) : V1Pod where
  name := name
  labels := [("job-name", username ++ "-fs")]

/-- The second of two users has two pods. -/
def afterAnother : Cluster where
  jobs := [jobFor "rachel", jobFor "simon"]
  pods := [podFor "rachel-fs-a" "rachel", podFor "simon-fs-a" "simon", podFor "simon-fs-b" "simon"]
  ingresses := [⟨"rachel-fs"⟩, ⟨"simon-fs"⟩]

/-- The only user has two pods. -/
def atFirst : Cluster where
  jobs := [jobFor "simon"]
  pods := [podFor "simon-fs-a" "simon", podFor "simon-fs-b" "simon"]
  ingresses := [⟨"simon-fs"⟩]

end Sample

/-- **The pod of another**: a user with two pods is mapped to the pod of the user before. -/
theorem pod_of_another_user :
    (∃ state, Sample.afterAnother.readFileserverState = .ok state ∧
      state.lookup "simon" = some ⟨Sample.jobFor "simon", some (Sample.podFor "rachel-fs-a" "rachel"),
        some ⟨"simon-fs"⟩⟩) ∧
    ¬Sample.afterAnother.Reads ∧
    Sample.atFirst.readFileserverState = .error .unboundLocal ∧ ¬Sample.atFirst.Reads := by
  have hafter : ∃ state, Sample.afterAnother.readFileserverState = .ok state ∧
      state.lookup "simon" = some ⟨Sample.jobFor "simon", some (Sample.podFor "rachel-fs-a" "rachel"),
        some ⟨"simon-fs"⟩⟩ :=
    ⟨_, rfl, by decide⟩
  refine ⟨hafter, fun h ↦ ?_, rfl, fun h ↦ ?_⟩
  · obtain ⟨state, hstate, hsimon⟩ := hafter
    rw [Reads, hstate] at h
    have hlabel := (h "simon").2 _ hsimon _ rfl
    exact absurd hlabel (by decide)
  · obtain ⟨a, ha⟩ := (reads_of_error rfl).1 h
    cases ha

end Cluster

end Nublado.Fileserver
