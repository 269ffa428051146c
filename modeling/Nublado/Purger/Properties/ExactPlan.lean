import Mathlib.Data.List.Flatten
import Nublado.Purger.Plan

/-!
# Plans are exact

A plan lists a file exactly if it qualifies under the policy of the nearest policy directory above it,
and lists it once.

* `Governs` is that nearest policy, `Qualifies` the removal criteria, and `Victim` a file of the tree
  that meets them.
* The scan is reduced in two steps. `collect_eq_ok` turns its loops into one list of checks; it
  succeeds exactly if all checks do. `checks_eq` says which checks those are: the ones of the files that
  each policy governs. Directories are considered longest path first, so what is passed over in one
  directory is what a more specific policy governs.
* A check fails only where a date leaves the calendar (`checkStat_eq_ok`): a time of a file, or a time
  plus an interval. This is the condition of `plan_exact_iff`, and `far_interval_fails` is a policy that
  violates it.
-/

namespace Nublado.Purger

open Images (Datetime Timedelta)

/-! ### Which files are to be purged -/

/-- Whether a time is older than the maximum, if there is one. -/
def Exceeded (time : ℤ) (max : Option Timedelta) (when : Datetime) : Prop :=
  ∃ m, max = some m ∧ m ≠ 0 ∧ time + m < when

/-- Whether a file of this status is to be purged under a policy. -/
def Qualifies (policy : DirectoryPolicy) (when : Datetime) (st : Stat) : Prop :=
  ∃ x ∈ policy.limits st, Exceeded x.2.1 x.2.2 when

/-- `policy` is the one of the nearest policy directory above the path. -/
structure Governs (policies : List DirectoryPolicy) (policy : DirectoryPolicy) (path : Path) :
    Prop where
  mem : policy ∈ policies
  above : policy.path.Above path
  nearest : ∀ other ∈ policies, other.path.Above path → ¬ policy.path.Above other.path

/-- A file to be purged: an entry of the tree that is neither a directory nor a symbolic link. -/
def Victim (fs : FileSystem Stat) (policy : Policy) (when : Datetime) (path : Path) : Prop :=
  ∃ st d, fs.HasEntry path (.file st) ∧ Governs policy.directories d path ∧ Qualifies d when st

/-- Whether the dates that comparing with the limits computes exist: those of the limits up to the
first that is exceeded. -/
def Comparable (when : Datetime) (limits : List (FileReason × Datetime × Option Timedelta)) : Prop :=
  ∀ pre x post, limits = pre ++ x :: post → (∀ y ∈ pre, ¬ Exceeded y.2.1 y.2.2 when) →
    ∀ m, x.2.2 = some m → m ≠ 0 → Datetime.Exists (x.2.1 + m)

/-- Whether the dates that checking a file computes exist. -/
def Judgeable (policy : DirectoryPolicy) (when : Datetime) (st : Stat) : Prop :=
  (∀ x ∈ policy.limits st, Datetime.Exists x.2.1) ∧ Comparable when (policy.limits st)

/-- The time for which a plan is made, as a number. -/
def horizon (config : Config) (now : Datetime) : ℤ := now + config.futureDuration.getD 0

/-- Whether the dates that planning computes exist. -/
def DatesExist (fs : FileSystem Stat) (config : Config) (policy : Policy) (now : Datetime) : Prop :=
  (∀ later, config.futureDuration = some later → later ≠ 0 → Datetime.Exists (now + later)) ∧
  ∀ path st d, fs.HasEntry path (.file st) → Governs policy.directories d path →
    Judgeable d (horizon config now) st

/-! ### A check -/

theorem exceeds_eq_ok {time : Datetime} {max : Option Timedelta} {when : Datetime} {b : Bool} :
    exceeds time max when = .ok b ↔
      (∀ m, max = some m → m ≠ 0 → Datetime.Exists (time + m)) ∧
        (b = true ↔ Exceeded time max when) := by
  rcases max with _ | m
  · cases b <;> simp [exceeds, Exceeded]
  · rcases eq_or_ne m 0 with rfl | hne
    · cases b <;> simp [exceeds, Exceeded]
    · by_cases hexists : Datetime.Exists (time + m)
      · cases b <;> simp [exceeds, Datetime.plus, Exceeded, hne, hexists]
      · simp [exceeds, Datetime.plus, hne, hexists]

theorem comparable_cons {when : Datetime} {x : FileReason × Datetime × Option Timedelta}
    {limits : List (FileReason × Datetime × Option Timedelta)} :
    Comparable when (x :: limits) ↔ (∀ m, x.2.2 = some m → m ≠ 0 → Datetime.Exists (x.2.1 + m)) ∧
      (¬ Exceeded x.2.1 x.2.2 when → Comparable when limits) := by
  constructor
  · intro h
    refine ⟨h [] x limits rfl (by simp), fun hx pre y post hlimits hpre ↦ ?_⟩
    refine h (x :: pre) y post (by rw [hlimits]; rfl) fun z hz ↦ ?_
    rcases List.mem_cons.1 hz with rfl | hz
    · exact hx
    · exact hpre z hz
  · rintro ⟨hx, hrest⟩ pre y post hlimits hpre
    rcases pre with _ | ⟨z, pre⟩
    · obtain ⟨rfl, -⟩ := List.cons.inj hlimits
      exact hx
    · obtain ⟨rfl, htail⟩ := List.cons.inj hlimits
      exact hrest (hpre x List.mem_cons_self) pre y post htail fun z hz ↦
        hpre z (List.mem_cons_of_mem _ hz)

/-- **Comparing with the limits**: where the dates exist, the result is a record of the path exactly if
a limit is exceeded. -/
theorem checkIntervals_spec (path : Path) (fileClass : FileClass) (when : Datetime)
    (limits : List (FileReason × Datetime × Option Timedelta)) :
    (Comparable when limits ∧ ∃ r, checkIntervals path fileClass when limits = .ok r ∧
        (r.isSome ↔ ∃ x ∈ limits, Exceeded x.2.1 x.2.2 when) ∧ ∀ record ∈ r, record.path = path) ∨
      (¬ Comparable when limits ∧ ∃ e, checkIntervals path fileClass when limits = .error e) := by
  induction limits with
  | nil => exact Or.inl ⟨by simp [Comparable], none, rfl, by simp, by simp⟩
  | cons x limits ih =>
    obtain ⟨reason, time, max⟩ := x
    rw [comparable_cons, checkIntervals]
    rcases hexceeds : exceeds time max when with e | b
    · refine Or.inr ⟨fun hcomparable ↦ ?_, e, rfl⟩
      obtain ⟨b, hb⟩ : ∃ b : Bool, b = true ↔ Exceeded time max when := by
        by_cases h : Exceeded time max when
        · exact ⟨true, by simpa using h⟩
        · exact ⟨false, by simpa using h⟩
      rw [exceeds_eq_ok.2 ⟨hcomparable.1, hb⟩] at hexceeds
      cases hexceeds
    · obtain ⟨hexists, hb⟩ := exceeds_eq_ok.1 hexceeds
      rcases b with _ | _
      · have hnot : ¬ Exceeded time max when := by simpa using hb
        rcases ih with ⟨hcomparable, r, hr, hsome, hpath⟩ | ⟨hnot', e, he⟩
        · refine Or.inl ⟨⟨hexists, fun _ ↦ hcomparable⟩, r, hr, ?_, hpath⟩
          simp [hsome, hnot]
        · exact Or.inr ⟨fun h ↦ hnot' (h.2 hnot), e, he⟩
      · have hexceeded : Exceeded time max when := by simpa using hb
        refine Or.inl ⟨⟨hexists, fun h ↦ absurd hexceeded h⟩, _, rfl, ?_, ?_⟩
        · simp [hexceeded]
        · rintro _ ⟨⟩
          rfl

/-- **Judging a file** by its status. -/
theorem checkStat_spec (path : Path) (policy : DirectoryPolicy) (when : Datetime) (st : Stat) :
    (Judgeable policy when st ∧ ∃ r, checkStat path policy when st = .ok r ∧
        (r.isSome ↔ Qualifies policy when st) ∧ ∀ record ∈ r, record.path = path) ∨
      (¬ Judgeable policy when st ∧ ∃ e, checkStat path policy when st = .error e) := by
  have htimes : (∀ x ∈ policy.limits st, Datetime.Exists x.2.1) ↔
      Datetime.Exists st.atime ∧ Datetime.Exists st.ctime ∧ Datetime.Exists st.mtime := by
    simp [DirectoryPolicy.limits]
  rw [Judgeable, htimes, checkStat, fromTimestamp, fromTimestamp, fromTimestamp]
  by_cases ha : Datetime.Exists st.atime
  · by_cases hc : Datetime.Exists st.ctime
    · by_cases hm : Datetime.Exists st.mtime
      · rw [if_pos ha, if_pos hc, if_pos hm]
        rcases checkIntervals_spec path (policy.intervalsFor st.size).2 when (policy.limits st) with
          ⟨hcomparable, h⟩ | ⟨hnot, h⟩
        · exact Or.inl ⟨⟨⟨ha, hc, hm⟩, hcomparable⟩, h⟩
        · exact Or.inr ⟨fun h ↦ hnot h.2, h⟩
      · rw [if_pos ha, if_pos hc, if_neg hm]
        exact Or.inr ⟨fun h ↦ hm h.1.2.2, _, rfl⟩
    · rw [if_pos ha, if_neg hc]
      exact Or.inr ⟨fun h ↦ hc h.1.2.1, _, rfl⟩
  · rw [if_neg ha]
    exact Or.inr ⟨fun h ↦ ha h.1.1, _, rfl⟩

/-! ### The scan as a list of checks -/

section Collect

variable {α β ε : Type}

/-- What a check yields. -/
def found (check : α → Except ε (Option β)) (a : α) : Option β :=
  match check a with
  | .ok r => r
  | .error _ => none

/-- **Collecting succeeds exactly if every check does.** -/
theorem collect_eq_ok {check : α → Except ε (Option β)} {acc out : List β} {l : List α} :
    collect check acc l = .ok out ↔
      (∀ a ∈ l, ∃ r, check a = .ok r) ∧ out = acc ++ l.filterMap (found check) := by
  induction l generalizing acc with
  | nil =>
    rw [collect, List.foldlM_nil]
    simp [pure, Except.pure, eq_comm]
  | cons a l ih =>
    rw [collect, List.foldlM_cons]
    rcases hcheck : check a with e | r
    · simp only [List.forall_mem_cons, hcheck]
      constructor
      · rintro ⟨⟩
      · rintro ⟨⟨⟨r, hr⟩, -⟩, -⟩
        cases hr
    · rcases r with _ | b
      · show collect check acc l = .ok out ↔ _
        simp [ih, hcheck, found]
      · show collect check (acc ++ [b]) l = .ok out ↔ _
        simp [ih, hcheck, found]

theorem collect_append (check : α → Except ε (Option β)) (acc : List β) (l l' : List α) :
    collect check acc (l ++ l') = collect check acc l >>= fun acc ↦ collect check acc l' :=
  List.foldlM_append

theorem collect_map {γ : Type} (check : α → Except ε (Option β)) (acc : List β) (f : γ → α)
    (l : List γ) : collect check acc (l.map f) = collect (fun c ↦ check (f c)) acc l :=
  List.foldlM_map

end Collect

variable {fs : FileSystem Stat} {policy : Policy} {when : Datetime}

/-- The files that considering a policy directory checks. -/
def filesChecked (fs : FileSystem Stat) (visited : List Path) (consider : Path) : List Path :=
  ((fs.walk consider).filter fun v ↦ !checkVisited v.dirpath visited).flatMap Forest.visitFiles

/-- The files that considering the policy directories one after the other checks, and under which
policies. -/
def checks (fs : FileSystem Stat) : List Path → List DirectoryPolicy → List (Path × DirectoryPolicy)
  | _, [] => []
  | visited, d :: ds =>
    (filesChecked fs visited d.path).map (·, d) ++ checks fs (d.path :: visited) ds

/-- One check. -/
def check (fs : FileSystem Stat) (when : Datetime) (x : Path × DirectoryPolicy) :
    Except PurgerError (Option FileRecord) :=
  checkFile fs x.1 x.2 when

/-- Considering one policy directory, with any way of checking a file. -/
def scanWith (fs : FileSystem Stat) (policy : Policy)
    (checkOne : Path × DirectoryPolicy → Except PurgerError (Option FileRecord)) (scan : Scan)
    (consider : Path) : Except PurgerError Scan := do
  let currentPolicy ← getDirectoryPolicy consider policy
  let purge ← (fs.walk consider).foldlM (fun purge visit ↦
    if checkVisited visit.dirpath scan.visited then .ok purge
    else collect (fun file ↦ checkOne (visit.dirpath.child file, currentPolicy)) purge
      visit.filenames) scan.purge
  .ok ⟨consider :: scan.visited, purge⟩

variable {checkOne : Path × DirectoryPolicy → Except PurgerError (Option FileRecord)}

theorem scanWith_eq {d : DirectoryPolicy} (hd : getDirectoryPolicy d.path policy = .ok d)
    (scan : Scan) : scanWith fs policy checkOne scan d.path =
      (collect checkOne scan.purge ((filesChecked fs scan.visited d.path).map (·, d))).map
        fun purge ↦ ⟨d.path :: scan.visited, purge⟩ := by
  have hvisits : ∀ (visits : List Visit) (purge : List FileRecord),
      (visits.foldlM (fun purge visit ↦ if checkVisited visit.dirpath scan.visited then
        Except.ok purge else collect (fun file ↦ checkOne (visit.dirpath.child file, d)) purge
          visit.filenames) purge) =
      collect checkOne purge (((visits.filter fun v ↦
        !checkVisited v.dirpath scan.visited).flatMap Forest.visitFiles).map (·, d)) := by
    intro visits
    induction visits with
    | nil =>
      intro purge
      rfl
    | cons v visits ih =>
      intro purge
      rw [List.foldlM_cons]
      rcases hvisited : checkVisited v.dirpath scan.visited with _ | _
      · rw [List.filter_cons_of_pos (by simp [hvisited]), List.flatMap_cons, List.map_append,
          collect_append, Forest.visitFiles, List.map_map, collect_map]
        show (collect _ purge v.filenames >>= fun purge ↦ visits.foldlM _ purge) = _
        simp only [ih]
        rfl
      · rw [List.filter_cons_of_neg (by simp [hvisited])]
        exact ih purge
  rw [scanWith, hd]
  show (_ >>= fun purge ↦ Except.ok (⟨d.path :: scan.visited, purge⟩ : Scan)) = _
  rw [hvisits]
  show (collect _ _ ((filesChecked fs scan.visited d.path).map _) >>= _) = _
  rcases collect checkOne scan.purge ((filesChecked fs scan.visited d.path).map (·, d)) with
    _ | _ <;> rfl

/-- **The scan is one list of checks.** -/
theorem foldlM_scanWith_eq_ok {ds : List DirectoryPolicy}
    (hds : ∀ d ∈ ds, getDirectoryPolicy d.path policy = .ok d) {scan out : Scan} :
    (ds.map DirectoryPolicy.path).foldlM (scanWith fs policy checkOne) scan = .ok out ↔
      (∀ x ∈ checks fs scan.visited ds, ∃ r, checkOne x = .ok r) ∧
      out.visited = (ds.map DirectoryPolicy.path).reverse ++ scan.visited ∧
      out.purge = scan.purge ++ (checks fs scan.visited ds).filterMap (found checkOne) := by
  induction ds generalizing scan with
  | nil =>
    rw [List.map_nil, List.foldlM_nil]
    obtain ⟨visited, purge⟩ := scan
    obtain ⟨visited', purge'⟩ := out
    simp [pure, Except.pure, checks, eq_comm]
  | cons d ds ih =>
    obtain ⟨hd, hds⟩ := List.forall_mem_cons.1 hds
    rw [List.map_cons, List.foldlM_cons, scanWith_eq hd, checks]
    rcases hcollect : collect checkOne scan.purge
      ((filesChecked fs scan.visited d.path).map (·, d)) with e | purge
    · constructor
      · rintro ⟨⟩
      · rintro ⟨hchecks, -⟩
        have hok : collect checkOne scan.purge _ = .ok _ :=
          collect_eq_ok.2 ⟨(List.forall_mem_append.1 hchecks).1, rfl⟩
        cases hcollect.symm.trans hok
    · obtain ⟨hchecks, hpurge⟩ := collect_eq_ok.1 hcollect
      show (ds.map DirectoryPolicy.path).foldlM (scanWith fs policy checkOne)
        ⟨d.path :: scan.visited, purge⟩ = .ok out ↔ _
      rw [ih hds, List.forall_mem_append, List.filterMap_append, hpurge]
      simp only [and_iff_right hchecks, List.reverse_cons, List.append_assoc, List.singleton_append]

/-- Planning, with any way of checking a file. -/
def planWith (checkOne : Datetime → Path × DirectoryPolicy → Except PurgerError (Option FileRecord))
    (config : Config) (policy : Policy) (now : Datetime) (fs : FileSystem Stat) :
    Except PurgerError Plan := do
  let when ← planTime config now
  let scan ← policy.getDirectories.reverse.foldlM (scanWith fs policy (checkOne when)) {}
  .ok ⟨scan.visited, scan.purge⟩

/-- **When a plan is made, and which**, where `ds` are the policies of the directories in the order in
which these are considered. -/
theorem planWith_eq_ok
    {checkOne : Datetime → Path × DirectoryPolicy → Except PurgerError (Option FileRecord)}
    {config : Config} {now : Datetime} {ds : List DirectoryPolicy}
    (hds : ∀ d ∈ ds, getDirectoryPolicy d.path policy = .ok d)
    (hpaths : ds.map DirectoryPolicy.path = policy.getDirectories.reverse) {plan : Plan} :
    planWith checkOne config policy now fs = .ok plan ↔ ∃ when, planTime config now = .ok when ∧
      (∀ x ∈ checks fs [] ds, ∃ r, checkOne when x = .ok r) ∧
      plan.directories = (ds.map DirectoryPolicy.path).reverse ∧
      plan.files = (checks fs [] ds).filterMap (found (checkOne when)) := by
  rw [planWith, ← hpaths]
  rcases planTime config now with e | when
  · constructor
    · rintro ⟨⟩
    · rintro ⟨_, ⟨⟩, -⟩
  · show ((ds.map DirectoryPolicy.path).foldlM (scanWith fs policy (checkOne when)) {} >>=
      fun scan ↦ Except.ok (⟨scan.visited, scan.purge⟩ : Plan)) = .ok plan ↔ _
    rcases hfold : (ds.map DirectoryPolicy.path).foldlM (scanWith fs policy (checkOne when)) {}
      with e | scan
    · constructor
      · rintro ⟨⟩
      · rintro ⟨_, ⟨⟩, hchecks, -⟩
        have hok : (ds.map DirectoryPolicy.path).foldlM (scanWith fs policy (checkOne when)) {} =
            .ok ⟨_, _⟩ := (foldlM_scanWith_eq_ok hds).2 ⟨hchecks, rfl, rfl⟩
        cases hfold.symm.trans hok
    · obtain ⟨hchecks, hvisited, hpurge⟩ := (foldlM_scanWith_eq_ok hds).1 hfold
      obtain ⟨directories, files⟩ := plan
      rw [List.append_nil] at hvisited
      rw [List.nil_append] at hpurge
      constructor
      · rintro ⟨⟩
        exact ⟨when, rfl, hchecks, hvisited, hpurge⟩
      · rintro ⟨_, ⟨⟩, -, hdirectories, hfiles⟩
        have hdirectories : directories = _ := hdirectories
        have hfiles : files = _ := hfiles
        rw [hdirectories, hfiles, ← hvisited, ← hpurge]
        rfl

/-! ### Which files are checked -/

/-- The policies in the order in which their directories are considered. -/
def considered (policy : Policy) : List DirectoryPolicy :=
  (policy.directories.insertionSort fun a b ↦ a.path.str.length ≤ b.path.str.length).reverse

theorem map_considered (policy : Policy) :
    (considered policy).map DirectoryPolicy.path = policy.getDirectories.reverse := by
  rw [considered, List.map_reverse, Policy.getDirectories]
  congr 1
  exact List.map_insertionSort _ _ DirectoryPolicy.path _ fun _ _ _ _ ↦ Iff.rfl

theorem considered_perm (policy : Policy) : (considered policy).Perm policy.directories :=
  (List.reverse_perm _).trans (List.perm_insertionSort _ _)

/-- Directories are considered from the longest to the shortest. -/
theorem considered_pairwise (policy : Policy) :
    (considered policy).Pairwise fun a b ↦ b.path.str.length ≤ a.path.str.length := by
  have htotal : Std.Total fun a b : DirectoryPolicy ↦ a.path.str.length ≤ b.path.str.length :=
    ⟨fun a b ↦ le_total _ _⟩
  have htrans : IsTrans DirectoryPolicy fun a b ↦ a.path.str.length ≤ b.path.str.length :=
    ⟨fun a b c ↦ le_trans⟩
  rw [considered, List.pairwise_reverse]
  exact List.pairwise_insertionSort _ _

/-- The policy of a directory is found by its path when paths are distinct. -/
theorem getDirectoryPolicy_eq (hdistinct : (policy.directories.map DirectoryPolicy.path).Nodup)
    {d : DirectoryPolicy} (hd : d ∈ policy.directories) :
    getDirectoryPolicy d.path policy = .ok d := by
  rw [getDirectoryPolicy]
  split
  · next hnone => simpa using List.find?_eq_none.1 hnone d hd
  · next e he =>
    have hpath : e.path = d.path := by simpa using List.find?_some he
    rw [List.inj_on_of_nodup_map hdistinct (List.mem_of_find?_eq_some he) hd hpath]

/-- Whether a more specific policy directory contains the directory. -/
def Shadowed (policies : List DirectoryPolicy) (d root : Path) : Prop :=
  ∃ other ∈ policies, d.Above other.path ∧ (other.path = root ∨ other.path.Above root)

instance (policies : List DirectoryPolicy) (d root : Path) : Decidable (Shadowed policies d root) :=
  inferInstanceAs (Decidable (∃ other ∈ policies, _))

/-- The entries that a policy governs, in the order of the walk. -/
def governed (fs : FileSystem Stat) (policies : List DirectoryPolicy) (d : Path) : List Path :=
  ((fs.walk d).filter fun v ↦ ¬ Shadowed policies d v.dirpath).flatMap Forest.visitFiles

theorem checkVisited_iff {root : Path} {visited : List Path} :
    checkVisited root visited = true ↔ ∃ vis ∈ visited, vis = root ∨ vis.Above root := by
  simp [checkVisited, Path.mem_parents]

/-- **What is passed over** in a policy directory is what a more specific one contains: those considered
before are the longer ones. -/
theorem checkVisited_considered (hdistinct : (policy.directories.map DirectoryPolicy.path).Nodup)
    (hdirect : ∀ d ∈ policy.directories, fs.Direct d.path) {pre ds : List DirectoryPolicy}
    {d : DirectoryPolicy} (hsplit : considered policy = pre ++ d :: ds) {root : Path}
    (hroot : d.path = root ∨ d.path.Above root) :
    checkVisited root (pre.map DirectoryPolicy.path).reverse = true ↔
      Shadowed policy.directories d.path root := by
  have hmem : ∀ e, e ∈ policy.directories ↔ e ∈ pre ∨ e = d ∨ e ∈ ds := by
    intro e
    rw [← (considered_perm policy).mem_iff, hsplit, List.mem_append, List.mem_cons]
  have hlonger : ∀ e ∈ policy.directories, ∀ e' ∈ policy.directories, e.path.Above e'.path →
      e.path.str.length < e'.path.str.length := by
    intro e he e' he' habove
    exact habove.length_str_lt (by simp [(hdirect e he).absolute])
      fun name hname ↦ ((hdirect e' he').normalized name hname).1
  have hpairwise := considered_pairwise policy
  rw [hsplit, List.pairwise_append, List.pairwise_cons] at hpairwise
  obtain ⟨-, ⟨hafter, -⟩, hbefore⟩ := hpairwise
  have hd : d ∈ policy.directories := (hmem d).2 (Or.inr (Or.inl rfl))
  rw [checkVisited_iff]
  constructor
  · rintro ⟨vis, hvis, hvisroot⟩
    obtain ⟨e, he, rfl⟩ := List.mem_map.1 (List.mem_reverse.1 hvis)
    have hedir := (hmem e).2 (Or.inl he)
    rcases Path.above_trichotomy hroot hvisroot with heq | habove | habove
    · have hnodup : ((pre ++ d :: ds).map DirectoryPolicy.path).Nodup :=
        hsplit ▸ ((considered_perm policy).map _).nodup_iff.2 hdistinct
      rw [List.map_append, List.nodup_append] at hnodup
      exact absurd heq.symm (hnodup.2.2 _ (List.mem_map_of_mem he) _
        (List.mem_map_of_mem List.mem_cons_self))
    · exact ⟨e, hedir, habove, hvisroot⟩
    · have hlt := hlonger e hedir d hd habove
      have hle := hbefore e he d List.mem_cons_self
      omega
  · rintro ⟨other, hother, habove, hcontains⟩
    have hlt := hlonger d hd other hother habove
    refine ⟨other.path, List.mem_reverse.2 (List.mem_map_of_mem ?_), hcontains⟩
    rcases (hmem other).1 hother with hpre | rfl | hds
    · exact hpre
    · omega
    · have hle := hafter other hds
      omega

/-- **Which checks the scan makes**: for each policy, those of the entries it governs. -/
theorem checks_eq (hdistinct : (policy.directories.map DirectoryPolicy.path).Nodup)
    (hdirect : ∀ d ∈ policy.directories, fs.Direct d.path) :
    checks fs [] (considered policy) =
      (considered policy).flatMap fun d ↦ (governed fs policy.directories d.path).map (·, d) := by
  have hsuffix : ∀ ds pre, considered policy = pre ++ ds →
      checks fs (pre.map DirectoryPolicy.path).reverse ds =
        ds.flatMap fun d ↦ (governed fs policy.directories d.path).map (·, d) := by
    intro ds
    induction ds with
    | nil =>
      intro pre _
      rfl
    | cons d ds ih =>
      intro pre hsplit
      have hfiles : filesChecked fs (pre.map DirectoryPolicy.path).reverse d.path =
          governed fs policy.directories d.path := by
        rw [filesChecked, governed]
        congr 1
        refine List.filter_congr fun v hv ↦ ?_
        have hiff := checkVisited_considered hdistinct hdirect hsplit
          (FileSystem.above_of_mem_walk hv)
        rcases hvisited : checkVisited v.dirpath (pre.map DirectoryPolicy.path).reverse with _ | _
        · simpa [hvisited] using hiff
        · simpa [hvisited] using hiff
      have hnext := ih (pre ++ [d]) (by simp [hsplit])
      rw [List.map_append, List.reverse_append] at hnext
      rw [checks, List.flatMap_cons, hfiles]
      exact congrArg _ hnext
  exact hsuffix _ [] rfl

/-- The entries that a policy governs are those of the tree below its directory for which it is the
nearest. -/
theorem mem_governed (hfs : fs.content.WellFormed) {d : DirectoryPolicy}
    (hd : d ∈ policy.directories) (hdirect : fs.Direct d.path) {path : Path} :
    path ∈ governed fs policy.directories d.path ↔ Governs policy.directories d path ∧
      ∃ e, fs.HasEntry path e ∧ ∀ content, e ≠ .directory content := by
  have hshadowed : ∀ v : Visit, path ∈ Forest.visitFiles v →
      (¬ Shadowed policy.directories d.path v.dirpath ↔
        ∀ other ∈ policy.directories, other.path.Above path → ¬ d.path.Above other.path) := by
    intro v hv
    obtain ⟨name, -, rfl⟩ := List.mem_map.1 hv
    simp only [Shadowed, Path.above_child_iff, not_exists, not_and]
    exact ⟨fun h other hother hcontains habove ↦ h other hother habove hcontains,
      fun h other hother habove hcontains ↦ h other hother hcontains habove⟩
  simp only [governed, List.mem_flatMap, List.mem_filter, decide_eq_true_eq]
  constructor
  · rintro ⟨v, ⟨hv, hnot⟩, hpath⟩
    obtain ⟨habove, hentry⟩ := (FileSystem.mem_walk_files hfs hdirect).1 ⟨v, hv, hpath⟩
    exact ⟨⟨hd, habove, (hshadowed v hpath).1 hnot⟩, hentry⟩
  · rintro ⟨hgoverns, hentry⟩
    obtain ⟨v, hv, hpath⟩ := (FileSystem.mem_walk_files hfs hdirect).2 ⟨hgoverns.above, hentry⟩
    exact ⟨v, ⟨hv, (hshadowed v hpath).2 hgoverns.nearest⟩, hpath⟩

/-- One policy governs a path. -/
theorem Governs.unique (hdistinct : (policy.directories.map DirectoryPolicy.path).Nodup)
    {d d' : DirectoryPolicy} {path : Path} (h : Governs policy.directories d path)
    (h' : Governs policy.directories d' path) : d = d' := by
  refine List.inj_on_of_nodup_map hdistinct h.mem h'.mem ?_
  rcases Path.above_trichotomy (Or.inr h.above) (Or.inr h'.above) with heq | habove | habove
  · exact heq
  · exact absurd habove (h.nearest d' h'.mem h'.above)
  · exact absurd habove (h'.nearest d h.mem h.above)

/-- **The files checked are distinct**, and are the entries that policies govern. -/
theorem checks_spec (hfs : fs.content.WellFormed)
    (hdistinct : (policy.directories.map DirectoryPolicy.path).Nodup)
    (hdirect : ∀ d ∈ policy.directories, fs.Direct d.path) :
    ((checks fs [] (considered policy)).map Prod.fst).Nodup ∧
    ∀ path d, (path, d) ∈ checks fs [] (considered policy) ↔ Governs policy.directories d path ∧
      ∃ e, fs.HasEntry path e ∧ ∀ content, e ≠ .directory content := by
  have hmem : ∀ d, d ∈ considered policy ↔ d ∈ policy.directories :=
    fun d ↦ (considered_perm policy).mem_iff
  rw [checks_eq hdistinct hdirect]
  constructor
  · rw [List.map_flatMap, List.nodup_flatMap]
    have hfst : ∀ d : DirectoryPolicy, ((governed fs policy.directories d.path).map
        fun p ↦ (p, d)).map Prod.fst = governed fs policy.directories d.path := by
      intro d
      rw [List.map_map]
      exact List.map_id _
    simp only [hfst]
    constructor
    · intro d hd
      have hwalk := FileSystem.walk_files_nodup hfs (hdirect d ((hmem d).1 hd))
      exact hwalk.sublist (List.filter_sublist.flatMap _)
    · have hne : (considered policy).Pairwise fun d d' ↦ d ≠ d' :=
        (considered_perm policy).nodup_iff.2 (List.Nodup.of_map _ hdistinct)
      refine List.Pairwise.imp_of_mem (fun {d d'} hd hd' hne path hpath hpath' ↦ ?_) hne
      have hgoverns : ∀ d ∈ considered policy, path ∈ governed fs policy.directories d.path →
          Governs policy.directories d path := fun d hd hpath ↦
        ((mem_governed hfs ((hmem d).1 hd) (hdirect d ((hmem d).1 hd))).1 hpath).1
      exact hne ((hgoverns d hd hpath).unique hdistinct (hgoverns d' hd' hpath'))
  · intro path d
    simp only [List.mem_flatMap, List.mem_map, Prod.mk.injEq, hmem]
    constructor
    · rintro ⟨d, hd, path, hpath, rfl, rfl⟩
      exact (mem_governed hfs hd (hdirect d hd)).1 hpath
    · rintro ⟨hgoverns, hentry⟩
      exact ⟨d, hgoverns.mem, path, (mem_governed hfs hgoverns.mem (hdirect d hgoverns.mem)).2
        ⟨hgoverns, hentry⟩, rfl, rfl⟩

/-! ### The plan -/

/-- **A check of an entry**: symbolic links pass; a file is judged by its status. -/
theorem check_spec (when : Datetime) (d : DirectoryPolicy) {path : Path} {e : Entry Stat}
    (hlstat : fs.lstat path = .ok e) (hstat : ∀ st, e = .file st → fs.stat path = .ok (.file st))
    (hfile : ∀ content, e ≠ .directory content) :
    ((∀ st, e = .file st → Judgeable d when st) ∧ ∃ r, check fs when (path, d) = .ok r ∧
        (r.isSome ↔ ∃ st, e = .file st ∧ Qualifies d when st) ∧ ∀ record ∈ r, record.path = path) ∨
      ((∃ st, e = .file st ∧ ¬ Judgeable d when st) ∧
        ∃ error, check fs when (path, d) = .error error) := by
  rcases e with st | target | content
  · have hstat := hstat st rfl
    have hcheck : check fs when (path, d) = checkStat path d when st := by
      simp only [check, checkFile, hlstat, hstat]
    rw [hcheck]
    rcases checkStat_spec path d when st with ⟨hjudgeable, r, hr, hsome, hpath⟩ | ⟨hnot, h⟩
    · refine Or.inl ⟨?_, r, hr, ?_, hpath⟩
      · rintro _ ⟨⟩
        exact hjudgeable
      · simpa using hsome
    · exact Or.inr ⟨⟨st, rfl, hnot⟩, h⟩
  · refine Or.inl ⟨by simp, none, ?_, by simp, by simp⟩
    simp only [check, checkFile, hlstat]
  · exact absurd rfl (hfile content)

/-- The check of an entry of a well-formed tree. -/
theorem check_spec_of_hasEntry (when : Datetime) (d : DirectoryPolicy)
    (hfs : fs.content.WellFormed) {path : Path} {e : Entry Stat} (he : fs.HasEntry path e)
    (hfile : ∀ content, e ≠ .directory content) :
    ((∀ st, e = .file st → Judgeable d when st) ∧ ∃ r, check fs when (path, d) = .ok r ∧
        (r.isSome ↔ ∃ st, e = .file st ∧ Qualifies d when st) ∧ ∀ record ∈ r, record.path = path) ∨
      ((∃ st, e = .file st ∧ ¬ Judgeable d when st) ∧
        ∃ error, check fs when (path, d) = .error error) :=
  check_spec when d (he.lstat_eq hfs) (fun st heq ↦ by subst heq; exact he.stat_eq hfs) hfile

theorem planTime_eq_ok {config : Config} {now : Datetime} : planTime config now = .ok when ↔
    when = horizon config now ∧ ∀ later, config.futureDuration = some later → later ≠ 0 →
      Datetime.Exists (now + later) := by
  rw [horizon]
  rcases hfuture : config.futureDuration with _ | later
  · simp [planTime, hfuture, eq_comm]
  · rcases eq_or_ne later 0 with rfl | hne
    · simp [planTime, hfuture, eq_comm]
    · by_cases hexists : Datetime.Exists (now + later)
      · simp [planTime, hfuture, hne, Datetime.plus, hexists, eq_comm]
      · simp [planTime, hfuture, hne, Datetime.plus, hexists]

/-- A plan lists exactly the victims, each once. -/
def Plan.Exact (plan : Plan) (fs : FileSystem Stat) (policy : Policy) (when : Datetime) : Prop :=
  (∀ path, path ∈ plan.files.map FileRecord.path ↔ Victim fs policy when path) ∧
    (plan.files.map FileRecord.path).Nodup

/-- What is found keeps the order of the checks. -/
theorem filterMap_sublist {α β γ : Type} {f : α → Option β} {g : β → γ} {h : α → γ} {l : List α}
    (hfound : ∀ a ∈ l, ∀ b ∈ f a, g b = h a) : ((l.filterMap f).map g).Sublist (l.map h) := by
  induction l with
  | nil => simp
  | cons a l ih =>
    obtain ⟨ha, hl⟩ := List.forall_mem_cons.1 hfound
    rcases hf : f a with _ | b
    · rw [List.filterMap_cons_none hf, List.map_cons]
      exact (ih hl).cons _
    · rw [List.filterMap_cons_some hf, List.map_cons, List.map_cons, ha b hf]
      exact (ih hl).cons_cons _

/-- **When a plan is made, and which**, for distinct policy directories. -/
theorem makePlan_eq_ok {config : Config} {now : Datetime}
    (hdistinct : (policy.directories.map DirectoryPolicy.path).Nodup) {plan : Plan} :
    makePlan config policy now fs = .ok plan ↔ ∃ when, planTime config now = .ok when ∧
      (∀ x ∈ checks fs [] (considered policy), ∃ r, check fs when x = .ok r) ∧
      plan.directories = ((considered policy).map DirectoryPolicy.path).reverse ∧
      plan.files = (checks fs [] (considered policy)).filterMap (found (check fs when)) := by
  have hplan : makePlan config policy now fs = planWith (check fs) config policy now fs := rfl
  rw [hplan]
  exact planWith_eq_ok
    (fun d hd ↦ getDirectoryPolicy_eq hdistinct ((considered_perm policy).mem_iff.1 hd))
    (map_considered policy)

/-- **Plans are exact exactly if the dates that planning computes exist.** -/
theorem plan_exact_iff {config : Config} {now : Datetime} (hfs : fs.content.WellFormed)
    (hdistinct : (policy.directories.map DirectoryPolicy.path).Nodup)
    (hdirect : ∀ d ∈ policy.directories, fs.Direct d.path) :
    (∃ plan, makePlan config policy now fs = .ok plan ∧
        plan.Exact fs policy (horizon config now)) ↔ DatesExist fs config policy now := by
  obtain ⟨hnodup, hmem⟩ := checks_spec hfs hdistinct hdirect
  constructor
  · rintro ⟨plan, hplan, -⟩
    obtain ⟨when, htime, hchecks, -⟩ := (makePlan_eq_ok hdistinct).1 hplan
    obtain ⟨rfl, hexists⟩ := planTime_eq_ok.1 htime
    refine ⟨hexists, fun path st d hentry hgoverns ↦ ?_⟩
    have hfile : ∀ content, Entry.file st ≠ .directory content := by simp
    obtain ⟨r, hr⟩ := hchecks (path, d) ((hmem path d).2 ⟨hgoverns, _, hentry, hfile⟩)
    rcases check_spec_of_hasEntry (horizon config now) d hfs hentry hfile with
      ⟨hjudgeable, -⟩ | ⟨-, error, herror⟩
    · exact hjudgeable st rfl
    · cases hr.symm.trans herror
  · rintro ⟨hexists, hjudgeable⟩
    have htime : planTime config now = .ok (horizon config now) := planTime_eq_ok.2 ⟨rfl, hexists⟩
    -- What the checks yield.
    have hcheck : ∀ x ∈ checks fs [] (considered policy), ∃ r,
        check fs (horizon config now) x = .ok r ∧
        (r.isSome ↔ ∃ st, fs.HasEntry x.1 (.file st) ∧ Qualifies x.2 (horizon config now) st) ∧
        ∀ record ∈ r, record.path = x.1 := by
      rintro ⟨path, d⟩ hx
      obtain ⟨hgoverns, e, hentry, hfile⟩ := (hmem path d).1 hx
      rcases check_spec_of_hasEntry (horizon config now) d hfs hentry hfile with
        ⟨-, r, hr, hsome, hpath⟩ | ⟨⟨st, rfl, hnot⟩, -⟩
      · refine ⟨r, hr, hsome.trans ⟨?_, ?_⟩, hpath⟩
        · rintro ⟨st, rfl, hqualifies⟩
          exact ⟨st, hentry, hqualifies⟩
        · rintro ⟨st, hst, hqualifies⟩
          exact ⟨st, hentry.unique hst, hqualifies⟩
      · exact absurd (hjudgeable path st d hentry hgoverns) hnot
    have hfound : ∀ x ∈ checks fs [] (considered policy),
        ∀ record ∈ found (check fs (horizon config now)) x, record.path = x.1 := by
      intro x hx
      obtain ⟨r, hr, -, hpath⟩ := hcheck x hx
      simpa only [found, hr] using hpath
    refine ⟨⟨_, _⟩, (makePlan_eq_ok hdistinct).2 ⟨_, htime, fun x hx ↦ ?_, rfl, rfl⟩, ?_, ?_⟩
    · obtain ⟨r, hr, -⟩ := hcheck x hx
      exact ⟨r, hr⟩
    · intro path
      simp only [List.mem_map, List.mem_filterMap]
      constructor
      · rintro ⟨record, ⟨⟨path, d⟩, hx, hrecord⟩, rfl⟩
        obtain ⟨r, hr, hsome, hpath⟩ := hcheck _ hx
        rw [found, hr] at hrecord
        have hrecord : r = some record := hrecord
        obtain ⟨st, hentry, hqualifies⟩ := hsome.1 (by simp [hrecord])
        rw [hpath record hrecord]
        exact ⟨st, d, hentry, ((hmem path d).1 hx).1, hqualifies⟩
      · rintro ⟨st, d, hentry, hgoverns, hqualifies⟩
        have hx := (hmem path d).2 ⟨hgoverns, _, hentry, by simp⟩
        obtain ⟨r, hr, hsome, hpath⟩ := hcheck _ hx
        obtain ⟨record, hrecord⟩ := Option.isSome_iff_exists.1 (hsome.2 ⟨st, hentry, hqualifies⟩)
        exact ⟨record, ⟨(path, d), hx, by simp only [found, hr, hrecord]⟩, hpath record hrecord⟩
    · exact hnodup.sublist (filterMap_sublist hfound)

section Sample

/-- The intervals of one policy that looks at access times. -/
def accessPolicy (path : Path) (days : ℤ) : DirectoryPolicy where
  path
  threshold := 1000000
  intervals := { small := { accessInterval := some (days * 86400000000) } }

/-- A small file of the first day of year 2. -/
def oldFile : Stat := ⟨10, 366 * 86400000000, 366 * 86400000000, 366 * 86400000000⟩

/-- `/scratch` with a file, a symbolic link to it, and a file two directories further down. -/
def scratch : FileSystem Stat where
  content := .directory "scratch" (.file "old" oldFile <| .symlink "link" ⟨"", ["old"]⟩ <|
    .directory "foo" (.directory "bar" (.file "old" oldFile .nil) .nil) .nil) .nil

/-- `/scratch` is purged after a week, and `/scratch/foo/bar` after a century. -/
def scratchPolicy : Policy where
  directories := [accessPolicy ⟨"/", ["scratch"]⟩ 7,
    accessPolicy ⟨"/", ["scratch", "foo", "bar"]⟩ 36525]

theorem judgeable_accessPolicy (path : Path) {days : ℤ} (when : Datetime)
    (hdays : 0 < days ∧ days ≤ 36525) : Judgeable (accessPolicy path days) when oldFile := by
  have hlimits : (accessPolicy path days).limits oldFile =
      [(.atime, 366 * 86400000000, some (days * 86400000000)), (.ctime, 366 * 86400000000, none),
        (.mtime, 366 * 86400000000, none)] := rfl
  have hend : Datetime.ofOrdinal (Datetime.ymdToOrd (Datetime.maxYear + 1) 1 1) =
      315537897600000000 := by decide +kernel
  simp only [Judgeable, hlimits, comparable_cons, Datetime.Exists, hend]
  refine ⟨by simp, fun m hm _ ↦ ?_, fun _ ↦ ⟨by simp, fun _ ↦ ⟨by simp, fun _ ↦ ?_⟩⟩⟩
  · obtain rfl := Option.some.inj hm
    omega
  · simp [Comparable]

/-- On the second of January of year 3 the file in `/scratch` is planned for removal, once. -/
theorem plan_exact_sample : ∃ plan, makePlan {} scratchPolicy (732 * 86400000000) scratch = .ok plan ∧
    plan.Exact scratch scratchPolicy (732 * 86400000000) := by
  have hdirect : ∀ d ∈ scratchPolicy.directories, scratch.Direct d.path := by
    intro d hd
    refine FileSystem.direct_of_isDirect ?_ ?_ ?_ <;> revert d <;> decide +kernel
  refine (plan_exact_iff (by decide +kernel) (by decide +kernel) hdirect).2 ⟨by simp, ?_⟩
  intro path st d hst hgoverns
  have hdata : ∀ st ∈ scratch.content.data, st = oldFile := by decide +kernel
  obtain rfl := hdata st hst.mem_data
  have hd := hgoverns.mem
  simp only [scratchPolicy, List.mem_cons, List.not_mem_nil, or_false] at hd
  rcases hd with rfl | rfl
  · exact judgeable_accessPolicy _ _ (by omega)
  · exact judgeable_accessPolicy _ _ (by omega)

/-- **An interval that reaches past the calendar** makes planning fail: no plan is made at all. -/
theorem far_interval_fails :
    let policy : Policy := ⟨[accessPolicy ⟨"/", ["scratch"]⟩ 3652059]⟩
    scratch.content.WellFormed ∧ (policy.directories.map DirectoryPolicy.path).Nodup ∧
    (∀ d ∈ policy.directories, scratch.Direct d.path) ∧
    ¬ ∃ plan, makePlan {} policy (732 * 86400000000) scratch = .ok plan ∧
      plan.Exact scratch policy (732 * 86400000000) := by
  intro policy
  refine ⟨by decide +kernel, by decide +kernel, ?_, ?_⟩
  · intro d hd
    obtain rfl := List.mem_singleton.1 hd
    exact FileSystem.direct_of_isDirect rfl (by decide +kernel) (by decide +kernel)
  · rintro ⟨plan, hplan, -⟩
    have hfails : (makePlan {} policy (732 * 86400000000) scratch).toOption = none := by
      decide +kernel
    rw [hplan] at hfails
    cases hfails

end Sample

end Nublado.Purger
