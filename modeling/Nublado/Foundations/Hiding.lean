import Nublado.Foundations.FileSystem

/-!
# Trees without some of their files

`hideFiles s` is a file system without the files at the locations `s`. Directories and symbolic links
stay, so that paths lead where they led (`resolve_hideFiles`), and a walk lists the same directories
without those files (`walk_hideFiles`).

`Listed` relates a path that a walk lists to the entry that it stands for and to its location. It
holds of any path, also of one that goes through symbolic links, and it is what transports the
operations on single files from one tree to the other.
-/

namespace Nublado

namespace Forest

variable {α : Type} {hidden : List String → Bool}

/-- Leave out the entries at some locations, other than directories. -/
@[grind =] def hide (hidden : List String → Bool) : List String → Forest α → Forest α
  | _, nil => nil
  | loc, file n data rest =>
    if hidden (loc ++ [n]) then rest.hide hidden loc else file n data (rest.hide hidden loc)
  | loc, symlink n target rest =>
    if hidden (loc ++ [n]) then rest.hide hidden loc else symlink n target (rest.hide hidden loc)
  | loc, directory n content rest =>
    directory n (content.hide hidden (loc ++ [n])) (rest.hide hidden loc)

/-- Whether there is a file at a location. -/
@[grind =] def isFileAt (f : Forest α) (loc : List String) : Bool :=
  match loc.getLast? with
  | none => false
  | some name =>
    match (f.contentAt loc.dropLast).bind (·.find? name) with
    | some (.file _) => true
    | _ => false

theorem isFileAt_concat {f : Forest α} {loc : List String} {name : String} :
    f.isFileAt (loc ++ [name]) = true ↔
      ∃ g a, f.contentAt loc = some g ∧ g.find? name = some (.file a) := by
  unfold isFileAt
  rw [List.getLast?_append, List.dropLast_concat]
  rcases hg : f.contentAt loc with _ | g
  · simp
  · rcases hfind : g.find? name with _ | _ | _ | _ <;> simp [hfind]

/-- A name that is left out is not there. -/
theorem names_hide_subset (loc : List String) (f : Forest α) :
    (f.hide hidden loc).names ⊆ f.names := by
  induction f generalizing loc with
  | nil => exact List.Subset.refl _
  | file n a rest ih | symlink n target rest ih =>
    rw [hide]
    split
    · exact List.subset_cons_of_subset _ (ih loc)
    · exact List.cons_subset_cons _ (ih loc)
  | directory n content rest _ ih => exact List.cons_subset_cons _ (ih loc)

theorem WellFormed.hide {f : Forest α} (hf : f.WellFormed) (loc : List String) :
    (f.hide hidden loc).WellFormed := by
  induction f generalizing loc with
  | nil => trivial
  | file n a rest ih | symlink n target rest ih =>
    obtain ⟨hvalid, hnew, hrest⟩ := hf
    rw [Forest.hide]
    split
    · exact ih hrest loc
    · exact ⟨hvalid, fun h ↦ hnew (names_hide_subset loc rest h), ih hrest loc⟩
  | directory n content rest ihcontent ih =>
    obtain ⟨hvalid, hnew, hcontent, hrest⟩ := hf
    exact ⟨hvalid, fun h ↦ hnew (names_hide_subset loc rest h), ihcontent hcontent _, ih hrest loc⟩

/-- **What is found** in a directory some entries of which are left out. -/
theorem find?_hide {f : Forest α} (hf : f.WellFormed) (loc : List String) (name : String) :
    (f.hide hidden loc).find? name =
      match f.find? name with
      | none => none
      | some (.directory content) => some (.directory (content.hide hidden (loc ++ [name])))
      | some e => if hidden (loc ++ [name]) then none else some e := by
  induction f with
  | nil => rfl
  | file n a rest ih | symlink n target rest ih =>
    obtain ⟨-, hnew, hrest⟩ := hf
    have hih := ih hrest
    rw [hide, find?]
    rcases eq_or_ne n name with rfl | hne
    · rw [if_pos rfl]
      split_ifs with hhidden
      · exact find?_eq_none.2 fun h ↦ hnew (names_hide_subset loc rest h)
      · exact if_pos rfl
    · rw [if_neg hne, ← hih]
      by_cases hhidden : hidden (loc ++ [n]) = true
      · rw [if_pos hhidden]
      · rw [if_neg hhidden]
        exact if_neg hne
  | directory n content rest _ ih =>
    have hih := ih hf.2.2.2
    rw [hide, find?, find?]
    rcases eq_or_ne n name with rfl | hne
    · rw [if_pos rfl, if_pos rfl]
    · rw [if_neg hne, if_neg hne]
      exact hih

/-- **The directories stay**, without some of their entries. -/
theorem contentAt_hide {f : Forest α} (hf : f.WellFormed) (loc loc' : List String) :
    (f.hide hidden loc).contentAt loc' =
      (f.contentAt loc').map (Forest.hide hidden (loc ++ loc')) := by
  induction loc' generalizing f loc with
  | nil =>
    rw [List.append_nil]
    rfl
  | cons name loc' ih =>
    rw [contentAt, contentAt, find?_hide hf]
    rcases hfind : f.find? name with _ | _ | _ | content
    · rfl
    · dsimp only
      split_ifs <;> rfl
    · dsimp only
      split_ifs <;> rfl
    · have hcontent := (hf.of_find? hfind).2 content rfl
      have hrest := ih hcontent (loc ++ [name])
      rw [List.append_assoc] at hrest
      exact hrest

theorem dirnames_hide (loc : List String) (f : Forest α) :
    (f.hide hidden loc).dirnames = f.dirnames := by
  induction f with
  | nil => rfl
  | file n a rest ih | symlink n target rest ih =>
    rw [hide]
    split <;> exact ih
  | directory n content rest _ ih => exact congrArg (n :: ·) ih

theorem filenames_hide (loc : List String) (f : Forest α) :
    (f.hide hidden loc).filenames = f.filenames.filter fun n ↦ !hidden (loc ++ [n]) := by
  induction f with
  | nil => rfl
  | file n a rest ih | symlink n target rest ih =>
    rw [hide, filenames]
    split
    · next hhidden => rw [List.filter_cons_of_neg (by simp [hhidden]), ih]
    · next hshown =>
      rw [List.filter_cons_of_pos (by simp [hshown]), filenames, ih]
  | directory n content rest _ ih => exact ih

/-- A visit that lists only some of the files; the directory at `path` has the location `loc`. -/
@[grind =] def trim (hidden : List String → Bool) (path : Path) (loc : List String) (v : Visit) : Visit :=
  { v with filenames := v.filenames.filter fun n ↦
      !hidden (loc ++ v.dirpath.parts.drop path.parts.length ++ [n]) }

theorem walkBelow_hide (f : Forest α) (path : Path) (loc : List String) :
    (f.hide hidden loc).walkBelow path = (f.walkBelow path).map (trim hidden path loc) := by
  induction f generalizing path loc with
  | nil => rfl
  | file n a rest ih | symlink n target rest ih =>
    rw [hide]
    split <;> exact ih path loc
  | directory n content rest ihcontent ih =>
    rw [hide, walkBelow, walkBelow, List.map_cons, List.map_append, ih path loc,
      ihcontent (path.child n) (loc ++ [n]), dirnames_hide, filenames_hide]
    refine congrArg₂ _ ?_ (congrArg (· ++ _) (List.map_congr_left fun v hv ↦ ?_))
    · simp [trim, Path.child]
    · -- the location of a directory further down, from either of the two
      obtain ⟨rest', hrest'⟩ := (above_of_mem_walkBelow hv).2.1
      have hdrop : v.dirpath.parts.drop path.parts.length = n :: rest' := by
        rw [← hrest', Path.child, List.append_assoc, List.drop_left]
        rfl
      have hdropChild : v.dirpath.parts.drop (path.child n).parts.length = rest' := by
        rw [← hrest', List.drop_left]
      simp only [trim, hdrop, hdropChild, List.append_assoc, List.singleton_append]

/-- **A walk lists the same directories**, without the files that are left out. -/
theorem walk_hide (f : Forest α) (path : Path) (loc : List String) :
    (f.hide hidden loc).walk path = (f.walk path).map (trim hidden path loc) := by
  rw [walk, walk, List.map_cons, walkBelow_hide, dirnames_hide, filenames_hide]
  simp [trim]

end Forest

namespace FileSystem

variable {α : Type} {fs : FileSystem α} {p : Path} {s : List String → Bool}

/-- The file system without the files at some locations. -/
@[grind =] def hideFiles (s : List String → Bool) (fs : FileSystem α) : FileSystem α :=
  { fs with content := fs.content.hide (fun loc ↦ s loc && fs.content.isFileAt loc) [] }

/-! ### The paths that a walk lists -/

/-- A path stands for an entry at a location: what precedes the last name leads to the directory that
has the entry under that name. -/
structure Listed (fs : FileSystem α) (p : Path) (e : Entry α) (loc : List String) (name : String) :
    Prop where
  parts : ∃ q : Path, p = q.child name ∧ fs.resolve q = .ok loc
  entry : ∃ g, fs.content.contentAt loc = some g ∧ g.find? name = some e
  not_directory : ∀ content, e ≠ .directory content

/-- What a walk lists as a file. -/
theorem listed_of_mem_walk (hfs : fs.content.WellFormed) {v : Visit} (hv : v ∈ fs.walk p)
    {name : String} (hname : name ∈ v.filenames) :
    ∃ loc₀ e, fs.resolve p = .ok loc₀ ∧
      fs.Listed (v.dirpath.child name) e (loc₀ ++ v.dirpath.parts.drop p.parts.length) name := by
  obtain ⟨loc₀, g₀, hresolve, hat₀, hv⟩ := mem_walk_iff.1 hv
  obtain ⟨sub, g, hat, rfl⟩ := (Forest.mem_walk (hfs.contentAt hat₀)).1 hv
  have hloc : fs.content.contentAt (loc₀ ++ sub) = some g := by
    rw [Forest.contentAt_append, hat₀]
    exact hat
  obtain ⟨e, he, hfile⟩ := (Forest.mem_filenames (hfs.contentAt hloc)).1 hname
  refine ⟨loc₀, e, hresolve, ⟨⟨_, rfl, ?_⟩, ⟨g, ?_, he⟩, hfile⟩⟩
  · obtain ⟨next, hnext⟩ := resolve_concat hresolve sub
    have hfollow : follow fs.content next loc₀ (sub ++ []) = _ := follow_append hfs hloc []
    rw [List.append_nil] at hfollow
    rw [hnext, hfollow, List.drop_left]
    rfl
  · rw [List.drop_left]
    exact hloc

variable {e : Entry α} {loc : List String} {name : String}

theorem Listed.dots (hfs : fs.content.WellFormed) (h : fs.Listed p e loc name) : name ≠ ".." := by
  obtain ⟨g, hg, he⟩ := h.entry
  exact ((hfs.contentAt hg).of_find? he).1.2.2.1

theorem Listed.lstat_eq (hfs : fs.content.WellFormed) (h : fs.Listed p e loc name) :
    fs.lstat p = .ok e := by
  obtain ⟨q, rfl, hq⟩ := h.parts
  obtain ⟨g, hg, he⟩ := h.entry
  rw [lstat, locate_child hq (h.dots hfs)]
  show entryAt fs.content loc name = _
  rw [entryAt, hg]
  simp only [he]

theorem Listed.resolve_eq (hfs : fs.content.WellFormed) {a : α}
    (h : fs.Listed p (.file a) loc name) : fs.resolve p = .ok (loc ++ [name]) := by
  obtain ⟨q, rfl, hq⟩ := h.parts
  obtain ⟨g, hg, he⟩ := h.entry
  obtain ⟨next, hnext⟩ := resolve_concat hq [name]
  have hchild : q.child name = { q with parts := q.parts ++ [name] } := rfl
  rw [hchild, hnext, follow, hg]
  simp only [if_neg (h.dots hfs), he, follow]

theorem Listed.stat_eq (hfs : fs.content.WellFormed) {a : α}
    (h : fs.Listed p (.file a) loc name) : fs.stat p = .ok (.file a) := by
  obtain ⟨g, hg, he⟩ := h.entry
  rw [stat, h.resolve_eq hfs]
  show nodeAt fs.content (loc ++ [name]) = _
  simp only [nodeAt, List.getLast?_append, List.getLast?_singleton, Option.some_or,
    List.dropLast_concat, entryAt, hg, he]

/-! ### The same in the tree without the files -/

theorem hideFiles_content (s : List String → Bool) (fs : FileSystem α) :
    (fs.hideFiles s).content = fs.content.hide (fun loc ↦ s loc && fs.content.isFileAt loc) [] := rfl

/-- The names of a directory whose files may be hidden. -/
theorem find?_hideFiles (hfs : fs.content.WellFormed) {g : Forest α}
    (hg : fs.content.contentAt loc = some g) :
    ∃ g', (fs.hideFiles s).content.contentAt loc = some g' ∧
      g'.filenames = (g.filenames.filter fun n ↦
        !(s (loc ++ [n]) && fs.content.isFileAt (loc ++ [n]))) ∧
      ∀ name, (g.find? name = none → g'.find? name = none) ∧
        (∀ content, g.find? name = some (.directory content) →
          ∃ content', g'.find? name = some (.directory content')) ∧
        (∀ target, g.find? name = some (.symlink target) →
          g'.find? name = some (.symlink target)) ∧
        ∀ a, g.find? name = some (.file a) →
          g'.find? name = if s (loc ++ [name]) then none else some (.file a) := by
  have hcontent := @Forest.contentAt_hide _ (fun loc ↦ s loc && fs.content.isFileAt loc) _ hfs [] loc
  rw [hg, List.nil_append] at hcontent
  refine ⟨_, hcontent, Forest.filenames_hide _ _, fun name ↦ ?_⟩
  rw [Forest.find?_hide (hfs.contentAt hg)]
  refine ⟨fun h ↦ by rw [h], fun content h ↦ by rw [h]; exact ⟨_, rfl⟩, fun target h ↦ ?_,
    fun a h ↦ ?_⟩
  · have hnot : fs.content.isFileAt (loc ++ [name]) = false := by
      refine Bool.eq_false_iff.2 fun hfile ↦ ?_
      obtain ⟨g', a, hg', ha⟩ := Forest.isFileAt_concat.1 hfile
      obtain rfl := Option.some.inj (hg.symm.trans hg')
      rw [h] at ha
      cases ha
    simp [h, hnot]
  · have hfile : fs.content.isFileAt (loc ++ [name]) = true :=
      Forest.isFileAt_concat.2 ⟨g, a, hg, h⟩
    simp [h, hfile]

/-- **Following a path to a directory** leads to the same location. -/
theorem follow_hideFiles (hfs : fs.content.WellFormed)
    {next next' : List String → List String → Except OSError (List String)}
    (hnext : ∀ loc parts loc', (fs.content.contentAt loc').isSome = true →
      (next loc parts = .ok loc' ↔ next' loc parts = .ok loc'))
    (loc parts loc' : List String) (hat : (fs.content.contentAt loc').isSome = true) :
    follow fs.content next loc parts = .ok loc' ↔
      follow (fs.hideFiles s).content next' loc parts = .ok loc' := by
  induction parts generalizing loc with
  | nil => rfl
  | cons name parts ih =>
    rw [follow, follow]
    rcases hg : fs.content.contentAt loc with _ | g
    · have hnone : (fs.hideFiles s).content.contentAt loc = none := by
        rw [hideFiles_content, Forest.contentAt_hide hfs, hg]
        rfl
      rw [hnone]
    · obtain ⟨g', hg', -, hfind⟩ := find?_hideFiles (s := s) hfs hg
      obtain ⟨hnone, hdirectory, hsymlink, hfile⟩ := hfind name
      rw [hg']
      dsimp only
      by_cases hdots : name = ".."
      · rw [if_pos hdots, if_pos hdots]
        exact ih _
      · rw [if_neg hdots, if_neg hdots]
        rcases he : g.find? name with _ | a | target | content
        · rw [hnone he]
        · rw [hfile a he]
          dsimp only
          -- a file leads no further
          have hend : follow fs.content next (loc ++ [name]) parts ≠ .ok loc' := by
            intro h
            have hno : fs.content.contentAt (loc ++ [name]) = none := by
              rw [Forest.contentAt_append, hg]
              show g.contentAt [name] = none
              rw [Forest.contentAt, he]
            rcases parts with _ | ⟨n, parts⟩
            · obtain rfl : loc ++ [name] = loc' := by simpa [follow] using h
              rw [hno] at hat
              cases hat
            · rw [follow, hno] at h
              cases h
          split_ifs
          · simp [hend]
          · exact ih _
        · rw [hsymlink target he]
          exact hnext _ _ _ hat
        · obtain ⟨content', hcontent'⟩ := hdirectory content he
          rw [hcontent']
          exact ih _

/-- **A path leads to the same directory.** -/
theorem resolve_hideFiles (hfs : fs.content.WellFormed) {loc' : List String}
    (hat : (fs.content.contentAt loc').isSome = true) :
    fs.resolve p = .ok loc' ↔ (fs.hideFiles s).resolve p = .ok loc' := by
  have hparts : ∀ n loc parts loc', (fs.content.contentAt loc').isSome = true →
      (resolveParts fs.content n loc parts = .ok loc' ↔
        resolveParts (fs.hideFiles s).content n loc parts = .ok loc') := by
    intro n
    induction n with
    | zero =>
      intro loc parts loc' hat
      exact follow_hideFiles hfs (fun _ _ _ _ ↦ Iff.rfl) loc parts loc' hat
    | succ n ih =>
      intro loc parts loc' hat
      exact follow_hideFiles hfs ih loc parts loc' hat
  exact hparts maxLinks _ p.parts loc' hat

/-- **A walk lists the same directories**, without the files that are hidden. -/
theorem walk_hideFiles (hfs : fs.content.WellFormed) (p : Path) : (fs.hideFiles s).walk p =
    (fs.walk p).map (Forest.trim (fun loc ↦ s loc && fs.content.isFileAt loc) p
      ((fs.resolve p).toOption.getD [])) := by
  by_cases hdirectory : ∃ loc g, fs.resolve p = .ok loc ∧ fs.content.contentAt loc = some g
  · obtain ⟨loc, g, hresolve, hat⟩ := hdirectory
    have hhidden := @Forest.contentAt_hide _ (fun loc ↦ s loc && fs.content.isFileAt loc) _ hfs [] loc
    rw [hat, List.nil_append] at hhidden
    rw [walk_of_resolve hresolve hat, walk_of_resolve
      ((resolve_hideFiles hfs (by rw [hat]; rfl)).1 hresolve) hhidden, hresolve]
    exact Forest.walk_hide g p loc
  · have hnone : fs.walk p = [] := by
      refine List.eq_nil_iff_forall_not_mem.2 fun v hv ↦ hdirectory ?_
      obtain ⟨loc, g, hresolve, hat, -⟩ := mem_walk_iff.1 hv
      exact ⟨loc, g, hresolve, hat⟩
    rw [hnone, List.map_nil]
    refine List.eq_nil_iff_forall_not_mem.2 fun v hv ↦ hdirectory ?_
    obtain ⟨loc, g', hresolve, hat', -⟩ := mem_walk_iff.1 hv
    rw [hideFiles_content, Forest.contentAt_hide hfs] at hat'
    obtain ⟨g, hat, -⟩ := Option.map_eq_some_iff.1 hat'
    exact ⟨loc, g, (resolve_hideFiles hfs (by rw [hat]; rfl)).2 hresolve, hat⟩

/-- **A path that is not hidden** stands for the same entry. -/
theorem Listed.hideFiles (hfs : fs.content.WellFormed) (h : fs.Listed p e loc name)
    (hshown : ∀ a, e = .file a → s (loc ++ [name]) = false) :
    (fs.hideFiles s).Listed p e loc name := by
  obtain ⟨q, hq, hresolve⟩ := h.parts
  obtain ⟨g, hg, he⟩ := h.entry
  obtain ⟨g', hg', -, hfind⟩ := find?_hideFiles (s := s) hfs hg
  refine ⟨⟨q, hq, (resolve_hideFiles hfs (by rw [hg]; rfl)).1 hresolve⟩, ⟨g', hg', ?_⟩,
    h.not_directory⟩
  obtain ⟨-, -, hsymlink, hfile⟩ := hfind name
  rcases e with a | target | content
  · rw [hfile a he, hshown a rfl]
    rfl
  · exact hsymlink target he
  · exact absurd rfl (h.not_directory content)

end FileSystem

end Nublado
