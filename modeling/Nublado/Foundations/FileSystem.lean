import Nublado.Foundations.Except
import Nublado.Foundations.FileTree

/-!
# File systems

The operations of an operating system on a tree of files, each of which follows a path.

* A `Path` is a text: it may be relative and may go through symbolic links and `..`. `resolve` finds
  the location it leads to, with the usual bound on the symbolic links followed.
* A path is **direct** if it is absolute and normalized and contains no symbolic link. It leads where
  it says and nowhere else (`Direct.resolve_eq`), and a walk from it lists what the tree has below it
  (`mem_walk_files`).
-/

namespace Nublado

/-! ### File systems -/

/-- Errors of the operating system. -/
inductive OSError
  | fileNotFound | permission | notEmpty | notDirectory | isDirectory | tooManyLinks
  deriving DecidableEq

/-- A tree of files, with the location of the working directory. -/
structure FileSystem (α : Type) where
  content : Forest α
  cwd : List String := []
  deriving DecidableEq

namespace FileSystem

variable {α : Type}

/-- Follow the parts of a path from a location; `next` takes over at a symbolic link. -/
@[grind =] def follow (f : Forest α) (next : List String → List String → Except OSError (List String)) :
    List String → List String → Except OSError (List String)
  | loc, [] => .ok loc
  | loc, name :: parts =>
    match f.contentAt loc with
    | none => .error .notDirectory
    | some g =>
      if name = ".." then follow f next loc.dropLast parts
      else match g.find? name with
        | none => .error .fileNotFound
        | some (.symlink target) =>
          next (if target.anchor = "" then loc else []) (target.parts ++ parts)
        | some _ => follow f next (loc ++ [name]) parts

/-- The location that the parts of a path lead to; `links` bounds the symbolic links followed. -/
@[grind =] def resolveParts (f : Forest α) : ℕ → List String → List String → Except OSError (List String)
  | 0 => follow f fun _ _ ↦ .error .tooManyLinks
  | links + 1 => follow f (resolveParts f links)

/-- How many symbolic links are followed in a path. -/
def maxLinks : ℕ := 40

/-- Where a path starts. -/
def start (fs : FileSystem α) (p : Path) : List String := if p.anchor = "" then fs.cwd else []

/-- The location that a path leads to. -/
@[grind =] def resolve (fs : FileSystem α) (p : Path) : Except OSError (List String) :=
  resolveParts fs.content maxLinks (fs.start p) p.parts

/-- The location of the directory that holds the last name of a path, and that name. -/
@[grind =] def locate (fs : FileSystem α) (p : Path) : Except OSError (List String × String) :=
  match p.parts.getLast? with
  | none => .error .isDirectory
  | some name =>
    if name = ".." then .error .isDirectory
    else (fs.resolve { p with parts := p.parts.dropLast }).map fun loc ↦ (loc, name)

/-- The entry at a location. -/
@[grind =] def entryAt (f : Forest α) (loc : List String) (name : String) : Except OSError (Entry α) :=
  match f.contentAt loc with
  | none => .error .notDirectory
  | some g =>
    match g.find? name with
    | none => .error .fileNotFound
    | some e => .ok e

/-- `path.lstat()`, as far as the kind of entry goes -/
@[grind =] def lstat (fs : FileSystem α) (p : Path) : Except OSError (Entry α) := do
  let (loc, name) ← fs.locate p
  entryAt fs.content loc name

/-- The content of the directory at a location. -/
@[grind =] def directoryAt (f : Forest α) (loc : List String) : Except OSError (Forest α) :=
  match f.contentAt loc with
  | none => .error .notDirectory
  | some g => .ok g

/-- The content of the directory that a path leads to. -/
@[grind =] def scandir (fs : FileSystem α) (p : Path) : Except OSError (Forest α) :=
  fs.resolve p >>= directoryAt fs.content

/-- What is at a location, the root included. -/
@[grind =] def nodeAt (f : Forest α) (loc : List String) : Except OSError (Entry α) :=
  match loc.getLast? with
  | none => .ok (.directory f)
  | some name => entryAt f loc.dropLast name

/-- What a path leads to. -/
@[grind =] def stat (fs : FileSystem α) (p : Path) : Except OSError (Entry α) :=
  fs.resolve p >>= nodeAt fs.content

/-- Visit the directory that a path leads to, and the directories below it; nothing where it cannot be
read. -/
def walk (fs : FileSystem α) (p : Path) : List Visit :=
  match fs.scandir p with
  | .error _ => []
  | .ok g => g.walk p

/-- Remove an entry that is not a directory. -/
@[grind =] def unlink (fs : FileSystem α) (p : Path) : Except OSError (FileSystem α) := do
  let (loc, name) ← fs.locate p
  match ← entryAt fs.content loc name with
  | .directory _ => .error .isDirectory
  | _ => .ok { fs with content := fs.content.eraseAt loc name }

/-- Remove an empty directory. -/
@[grind =] def rmdir (fs : FileSystem α) (p : Path) : Except OSError (FileSystem α) := do
  let (loc, name) ← fs.locate p
  match ← entryAt fs.content loc name with
  | .directory .nil => .ok { fs with content := fs.content.eraseAt loc name }
  | .directory _ => .error .notEmpty
  | _ => .error .notDirectory

/-- What a path stands for is in the tree. -/
theorem lstat_eq_ok {fs : FileSystem α} {p : Path} {e : Entry α} (h : fs.lstat p = .ok e) :
    ∃ loc name g, fs.locate p = .ok (loc, name) ∧ fs.content.contentAt loc = some g ∧
      g.find? name = some e := by
  obtain ⟨⟨loc, name⟩, hlocate, h⟩ := bind_eq_ok.1 h
  have h : entryAt fs.content loc name = .ok e := h
  rw [entryAt] at h
  split at h
  · cases h
  · next g hg =>
    split at h
    · cases h
    · next e' he =>
      obtain rfl := Except.ok.inj h
      exact ⟨loc, name, g, hlocate, hg, he⟩

/-! ### What is removed -/

/-- **`unlink`** erases one entry, which is not a directory. -/
theorem unlink_eq_ok {fs fs' : FileSystem α} {p : Path} (h : fs.unlink p = .ok fs') :
    ∃ e, fs.lstat p = .ok e ∧ (∀ content, e ≠ .directory content) ∧
      ∃ loc name, fs.locate p = .ok (loc, name) ∧
        fs' = { fs with content := fs.content.eraseAt loc name } := by
  obtain ⟨⟨loc, name⟩, hlocate, h⟩ := bind_eq_ok.1 h
  obtain ⟨e, hentry, h⟩ := bind_eq_ok.1 h
  refine ⟨e, bind_eq_ok.2 ⟨(loc, name), hlocate, hentry⟩, ?_⟩
  rcases e with _ | _ | content
  · exact ⟨by simp, loc, name, hlocate, (Except.ok.inj h).symm⟩
  · exact ⟨by simp, loc, name, hlocate, (Except.ok.inj h).symm⟩
  · cases h

/-- **`rmdir`** erases one entry, which is an empty directory. -/
theorem rmdir_eq_ok {fs fs' : FileSystem α} {p : Path} (h : fs.rmdir p = .ok fs') :
    fs.lstat p = .ok (.directory .nil) ∧
      ∃ loc name, fs.locate p = .ok (loc, name) ∧
        fs' = { fs with content := fs.content.eraseAt loc name } := by
  obtain ⟨⟨loc, name⟩, hlocate, h⟩ := bind_eq_ok.1 h
  obtain ⟨e, hentry, h⟩ := bind_eq_ok.1 h
  rcases e with _ | _ | content
  · cases h
  · cases h
  · cases content with
    | nil =>
      exact ⟨bind_eq_ok.2 ⟨(loc, name), hlocate, hentry⟩, loc, name, hlocate,
        (Except.ok.inj h).symm⟩
    | file | symlink | directory => cases h

/-! ### Direct paths -/

/-- An absolute, normalized path that contains no symbolic link. -/
structure Direct (fs : FileSystem α) (p : Path) : Prop where
  absolute : p.anchor = "/"
  normalized : ∀ name ∈ p.parts, ValidName name
  not_symlink : ∀ loc name g, loc ++ [name] <+: p.parts → fs.content.contentAt loc = some g →
    ∀ target, g.find? name ≠ some (.symlink target)

/-- The tree has this entry at the place that the path names, without following symbolic links. -/
def HasEntry (fs : FileSystem α) (p : Path) (e : Entry α) : Prop :=
  p.anchor = "/" ∧ ∃ loc name g, p.parts = loc ++ [name] ∧ fs.content.contentAt loc = some g ∧
    g.find? name = some e

theorem HasEntry.mem_data {fs : FileSystem α} {p : Path} {a : α} (h : fs.HasEntry p (.file a)) :
    a ∈ fs.content.data := by
  obtain ⟨-, loc, name, g, -, hg, he⟩ := h
  exact Forest.data_subset_of_contentAt hg ((Forest.data_subset_of_find? he).1 a rfl)

/-- A path is direct if it is written as one and meets no symbolic link. -/
theorem direct_of_isDirect {fs : FileSystem α} {p : Path} (habs : p.anchor = "/")
    (hnames : ∀ name ∈ p.parts, ValidName name) (h : fs.content.isDirect p.parts = true) :
    fs.Direct p :=
  ⟨habs, hnames, fun _ _ _ hinit hat ↦ Forest.not_symlink_of_isDirect h hinit hat⟩

theorem HasEntry.unique {fs : FileSystem α} {p : Path} {e e' : Entry α} (h : fs.HasEntry p e)
    (h' : fs.HasEntry p e') : e = e' := by
  obtain ⟨-, loc, name, g, hparts, hg, he⟩ := h
  obtain ⟨-, loc', name', g', hparts', hg', he'⟩ := h'
  obtain ⟨rfl, hname⟩ := List.append_inj' (hparts.symm.trans hparts') rfl
  obtain rfl : name = name' := List.singleton_injective hname
  obtain rfl : g = g' := Option.some.inj (hg.symm.trans hg')
  exact Option.some.inj (he.symm.trans he')

/-- Following a path through directories. -/
theorem follow_append {f g : Forest α} (hf : f.WellFormed)
    {next : List String → List String → Except OSError (List String)} {loc parts : List String}
    (h : f.contentAt (loc ++ parts) = some g) (rest : List String) :
    follow f next loc (parts ++ rest) = follow f next (loc ++ parts) rest := by
  induction parts generalizing loc with
  | nil => simp
  | cons name parts ih =>
    rw [Forest.contentAt_append] at h
    obtain ⟨g', hloc, h⟩ := Option.bind_eq_some_iff.1 h
    obtain ⟨content, hfind, hcontent⟩ := Forest.contentAt_cons_eq_some.1 h
    have hdots : name ≠ ".." := ((hf.contentAt hloc).of_find? hfind).1.2.2.1
    have hnext : f.contentAt ((loc ++ [name]) ++ parts) = some g := by
      rw [List.append_assoc, Forest.contentAt_append, hloc]
      exact h
    rw [List.cons_append, follow, hloc]
    simp only [if_neg hdots, hfind]
    rw [ih hnext, List.append_assoc]
    rfl

/-- Following a path without symbolic links leads nowhere else. -/
theorem follow_eq_of_direct {f : Forest α}
    {next : List String → List String → Except OSError (List String)} {loc parts loc' : List String}
    (hvalid : ∀ name ∈ parts, ValidName name)
    (hdirect : ∀ loc₁ name g, loc₁ ++ [name] <+: parts → f.contentAt (loc ++ loc₁) = some g →
      ∀ target, g.find? name ≠ some (.symlink target))
    (h : follow f next loc parts = .ok loc') : loc' = loc ++ parts := by
  induction parts generalizing loc with
  | nil => simpa [follow] using h.symm
  | cons name parts ih =>
    have hdots : name ≠ ".." := (hvalid name List.mem_cons_self).2.2.1
    rw [follow] at h
    split at h
    · cases h
    · next g hloc =>
      rw [if_neg hdots] at h
      split at h
      · cases h
      · next target hfind =>
        exact absurd hfind (hdirect [] name g (by simp) (by simpa using hloc) target)
      · have hrest := ih (fun name hname ↦ hvalid name (List.mem_cons_of_mem _ hname))
          (fun loc₁ name' g' hinit hat ↦ hdirect (name :: loc₁) name' g'
            (by simpa using hinit) (by simpa using hat)) h
        simpa using hrest

variable {fs : FileSystem α} {p : Path} {g : Forest α}

/-- **A path through directories leads where it says.** -/
theorem resolve_append (hfs : fs.content.WellFormed) (habs : p.anchor ≠ "")
    (h : fs.content.contentAt p.parts = some g) (rest : List String) :
    fs.resolve { p with parts := p.parts ++ rest } =
      follow fs.content (resolveParts fs.content 39) p.parts rest := by
  have hstart : fs.start { p with parts := p.parts ++ rest } = [] := if_neg habs
  rw [resolve, hstart]
  have hat : fs.content.contentAt ([] ++ p.parts) = some g := h
  exact follow_append hfs hat rest

/-- The entry of a directory lies where the path of the directory leads. -/
theorem locate_child {loc : List String} (h : fs.resolve p = .ok loc) {name : String}
    (hdots : name ≠ "..") : fs.locate (p.child name) = .ok (loc, name) := by
  have hdrop : ({ p.child name with parts := (p.child name).parts.dropLast } : Path) = p := by
    simp [Path.child]
  rw [locate]
  simp only [Path.child, List.getLast?_append, List.getLast?_singleton, Option.some_or,
    if_neg hdots]
  simp only [Path.child] at hdrop
  rw [hdrop, h]
  rfl

/-- The entries of a directory, by their paths. -/
theorem lstat_child (hfs : fs.content.WellFormed) (habs : p.anchor ≠ "")
    (h : fs.content.contentAt p.parts = some g) {name : String} {e : Entry α}
    (he : g.find? name = some e) : fs.lstat (p.child name) = .ok e := by
  have hdots : name ≠ ".." := ((hfs.contentAt h).of_find? he).1.2.2.1
  have hresolve : fs.resolve p = .ok p.parts := by
    simpa [follow] using resolve_append hfs habs h []
  rw [lstat, locate_child hresolve hdots]
  show entryAt fs.content p.parts name = _
  rw [entryAt, h]
  simp only [he]

/-- The data of a file, by its path. -/
theorem stat_child (hfs : fs.content.WellFormed) (habs : p.anchor ≠ "")
    (h : fs.content.contentAt p.parts = some g) {name : String} {data : α}
    (he : g.find? name = some (.file data)) : fs.stat (p.child name) = .ok (.file data) := by
  have hdots : name ≠ ".." := ((hfs.contentAt h).of_find? he).1.2.2.1
  have hresolve : fs.resolve (p.child name) = .ok (p.parts ++ [name]) := by
    rw [Path.child, resolve_append hfs habs h, follow, h]
    simp only [if_neg hdots, he, follow]
  rw [stat, hresolve]
  show nodeAt fs.content (p.parts ++ [name]) = _
  simp only [nodeAt, List.getLast?_append, List.getLast?_singleton, Option.some_or,
    List.dropLast_concat, entryAt, h, he]

theorem HasEntry.lstat_eq (hfs : fs.content.WellFormed) {e : Entry α} (h : fs.HasEntry p e) :
    fs.lstat p = .ok e := by
  obtain ⟨habs, loc, name, g, hparts, hg, he⟩ := h
  have hp : p = ({ p with parts := loc } : Path).child name := by
    rw [Path.child]
    simp [← hparts]
  rw [hp]
  exact lstat_child hfs (by simp [habs]) hg he

theorem HasEntry.stat_eq (hfs : fs.content.WellFormed) {data : α}
    (h : fs.HasEntry p (.file data)) : fs.stat p = .ok (.file data) := by
  obtain ⟨habs, loc, name, g, hparts, hg, he⟩ := h
  have hp : p = ({ p with parts := loc } : Path).child name := by
    rw [Path.child]
    simp [← hparts]
  rw [hp]
  exact stat_child hfs (by simp [habs]) hg he

/-- A direct path leads nowhere but where it says. -/
theorem Direct.resolve_eq (hp : fs.Direct p) {loc : List String} (h : fs.resolve p = .ok loc) :
    loc = p.parts := by
  have hstart : fs.start p = [] := if_neg (by simp [hp.absolute])
  rw [resolve, hstart] at h
  simpa using follow_eq_of_direct hp.normalized
    (fun loc₁ name g hinit hat ↦ hp.not_symlink loc₁ name g hinit (by simpa using hat)) h

/-- The path of a directory is direct, if it is written as its location. -/
theorem direct_of_contentAt (hfs : fs.content.WellFormed) (habs : p.anchor = "/")
    (h : fs.content.contentAt p.parts = some g) : fs.Direct p := by
  have hfind : ∀ loc name rest, loc ++ name :: rest = p.parts → ∃ g', fs.content.contentAt loc =
      some g' ∧ ∃ content, g'.find? name = some (.directory content) := by
    intro loc name rest hsplit
    rw [← hsplit, Forest.contentAt_append] at h
    obtain ⟨g', hg', h⟩ := Option.bind_eq_some_iff.1 h
    obtain ⟨content, hcontent, -⟩ := Forest.contentAt_cons_eq_some.1 h
    exact ⟨g', hg', content, hcontent⟩
  refine ⟨habs, fun name hname ↦ ?_, fun loc name g' hinit hat target hlink ↦ ?_⟩
  · obtain ⟨loc, rest, hsplit⟩ := List.append_of_mem hname
    obtain ⟨g', hg', content, hcontent⟩ := hfind loc name rest hsplit.symm
    exact ((hfs.contentAt hg').of_find? hcontent).1
  · obtain ⟨rest, hsplit⟩ := hinit
    obtain ⟨g'', hg'', content, hcontent⟩ := hfind loc name rest (by simpa using hsplit)
    obtain rfl := Option.some.inj (hat.symm.trans hg'')
    rw [hlink] at hcontent
    cases hcontent

/-- Removing entries does not make paths less direct. -/
theorem Direct.of_within {fs' : FileSystem α} (hp : fs.Direct p)
    (h : fs'.content.Within fs.content) : fs'.Direct p := by
  refine ⟨hp.absolute, hp.normalized, fun loc name g' hinit hat target hlink ↦ ?_⟩
  obtain ⟨g, hg, hlinks⟩ := h loc g' hat
  exact hp.not_symlink loc name g hinit hg target (hlinks name target hlink)

/-- What is at a direct path is in the tree at the place that it names. -/
theorem Direct.hasEntry (hp : fs.Direct p) {e : Entry α} (h : fs.lstat p = .ok e) :
    fs.HasEntry p e := by
  obtain ⟨anchor, parts⟩ := p
  rw [lstat, locate] at h
  rcases List.eq_nil_or_concat parts with rfl | ⟨loc, name, rfl⟩
  · cases h
  · rw [List.concat_eq_append] at hp h
    have hdots : name ≠ ".." := (hp.normalized name (by simp)).2.2.1
    have hparent : fs.Direct ⟨anchor, loc⟩ :=
      ⟨hp.absolute, fun n hn ↦ hp.normalized n (List.mem_append_left _ hn),
        fun loc₁ n g hinit ↦ hp.not_symlink loc₁ n g (hinit.trans (List.prefix_append _ _))⟩
    simp only [List.getLast?_append, List.getLast?_singleton, Option.some_or, if_neg hdots,
      List.dropLast_concat] at h
    rcases hresolve : fs.resolve ⟨anchor, loc⟩ with error | loc'
    · rw [hresolve] at h
      cases h
    · obtain rfl : loc' = loc := hparent.resolve_eq hresolve
      rw [hresolve] at h
      have h : entryAt fs.content loc' name = .ok e := h
      rw [entryAt] at h
      split at h
      · cases h
      · next g hg =>
        split at h
        · cases h
        · next e' he' =>
          obtain rfl := Except.ok.inj h
          exact ⟨hp.absolute, loc', name, g, List.concat_eq_append, hg, he'⟩

/-- **What a direct path leads to.** -/
theorem scandir_eq_ok (hfs : fs.content.WellFormed) (hp : fs.Direct p) :
    fs.scandir p = .ok g ↔ fs.content.contentAt p.parts = some g := by
  have habs : p.anchor ≠ "" := by simp [hp.absolute]
  have hdirectory : ∀ loc, fs.resolve p = .ok loc → (fs.scandir p = .ok g ↔
      fs.content.contentAt loc = some g) := by
    intro loc hloc
    rw [scandir, hloc]
    show directoryAt fs.content loc = .ok g ↔ _
    rw [directoryAt]
    split
    · next hnone => simp [hnone]
    · next hsome => simp [hsome]
  constructor
  · intro h
    rcases hloc : fs.resolve p with _ | loc
    · rw [scandir, hloc] at h
      cases h
    · rw [← hp.resolve_eq hloc]
      exact (hdirectory loc hloc).1 h
  · intro h
    have hresolve : fs.resolve p = .ok p.parts := by
      simpa [follow] using resolve_append hfs habs h []
    exact (hdirectory _ hresolve).2 h

/-- **A walk from a direct path lists the entries below it** that are not directories. -/
theorem mem_walk_files (hfs : fs.content.WellFormed) (hp : fs.Direct p) {q : Path} :
    (∃ v ∈ fs.walk p, q ∈ Forest.visitFiles v) ↔
      p.Above q ∧ ∃ e, fs.HasEntry q e ∧ ∀ content, e ≠ .directory content := by
  constructor
  · rintro ⟨v, hv, hq⟩
    rw [walk] at hv
    split at hv
    · cases hv
    · next g hg =>
      have hcontent := (scandir_eq_ok hfs hp).1 hg
      obtain ⟨loc, g', hat, rfl⟩ := (Forest.mem_walk (hfs.contentAt hcontent)).1 hv
      obtain ⟨name, hname, rfl⟩ := List.mem_map.1 hq
      have hloc : fs.content.contentAt (p.parts ++ loc) = some g' := by
        rw [Forest.contentAt_append, hcontent]
        exact hat
      obtain ⟨e, he, hfile⟩ := (Forest.mem_filenames (hfs.contentAt hloc)).1 hname
      refine ⟨Path.above_child_iff.2 ?_, e, ⟨hp.absolute, p.parts ++ loc, name, g', rfl, hloc, he⟩,
        hfile⟩
      rcases eq_or_ne loc [] with rfl | hne
      · exact Or.inl (by simp)
      · refine Or.inr ⟨rfl, List.prefix_append _ _, fun heq ↦ hne ?_⟩
        simpa using congrArg Path.parts heq
  · rintro ⟨habove, e, ⟨-, loc, name, g, hparts, hloc, he⟩, hfile⟩
    obtain ⟨qanchor, qparts⟩ := q
    obtain rfl : qparts = loc ++ [name] := hparts
    have hbelow : p = ⟨qanchor, loc⟩ ∨ p.Above ⟨qanchor, loc⟩ := Path.above_child_iff.1 habove
    obtain ⟨hanchor, loc', rfl⟩ : p.anchor = qanchor ∧ ∃ loc', p.parts ++ loc' = loc := by
      rcases hbelow with rfl | ⟨hanchor, ⟨loc', hloc'⟩, -⟩
      · exact ⟨rfl, [], by simp⟩
      · exact ⟨hanchor, loc', hloc'⟩
    have hboth := hloc
    rw [Forest.contentAt_append] at hboth
    obtain ⟨g₀, hstart, hat⟩ := Option.bind_eq_some_iff.1 hboth
    have hscandir := (scandir_eq_ok hfs hp).2 hstart
    refine ⟨⟨⟨p.anchor, p.parts ++ loc'⟩, g.dirnames, g.filenames⟩, ?_, ?_⟩
    · rw [walk, hscandir]
      exact (Forest.mem_walk (hfs.contentAt hstart)).2 ⟨loc', g, hat, rfl⟩
    · refine List.mem_map.2 ⟨name, (Forest.mem_filenames (hfs.contentAt hloc)).2 ⟨e, he, hfile⟩, ?_⟩
      rw [← hanchor]
      rfl

/-- What a walk visits is at or below its start. -/
theorem above_of_mem_walk {v : Visit} (hv : v ∈ fs.walk p) : p = v.dirpath ∨ p.Above v.dirpath := by
  rw [walk] at hv
  split at hv
  · cases hv
  · rcases List.mem_cons.1 hv with rfl | hv
    · exact Or.inl rfl
    · exact Or.inr (Forest.above_of_mem_walkBelow hv)

/-- The directories that a walk from a direct path lists have direct paths. -/
theorem direct_of_mem_walk (hfs : fs.content.WellFormed) (hp : fs.Direct p) {v : Visit}
    (hv : v ∈ fs.walk p) {name : String} (hname : name ∈ v.dirnames) :
    fs.Direct (v.dirpath.child name) := by
  rw [walk] at hv
  split at hv
  · cases hv
  · next g hg =>
    have hcontent := (scandir_eq_ok hfs hp).1 hg
    obtain ⟨loc, g', hat, rfl⟩ := (Forest.mem_walk (hfs.contentAt hcontent)).1 hv
    have hloc : fs.content.contentAt (p.parts ++ loc) = some g' := by
      rw [Forest.contentAt_append, hcontent]
      exact hat
    obtain ⟨content, hfind⟩ := (Forest.mem_dirnames (hfs.contentAt hloc)).1 hname
    refine direct_of_contentAt (g := content) hfs hp.absolute ?_
    show fs.content.contentAt (p.parts ++ loc ++ [name]) = some content
    rw [Forest.contentAt_append, hloc]
    exact Forest.contentAt_cons_eq_some.2 ⟨content, hfind, rfl⟩

theorem walk_files_nodup (hfs : fs.content.WellFormed) (hp : fs.Direct p) :
    ((fs.walk p).flatMap Forest.visitFiles).Nodup := by
  rw [walk]
  split
  · exact List.nodup_nil
  · next g hg => exact Forest.walk_files_nodup (hfs.contentAt ((scandir_eq_ok hfs hp).1 hg)) p

/-! ### Paths that go on -/

/-- Going on from where following a path leads. -/
theorem follow_concat {f : Forest α} {next : List String → List String → Except OSError (List String)}
    {loc parts loc' : List String} (h : follow f next loc parts = .ok loc') (rest : List String)
    (hnext : ∀ loc parts, next loc parts = .ok loc' →
      ∃ next', next loc (parts ++ rest) = follow f next' loc' rest) :
    ∃ next', follow f next loc (parts ++ rest) = follow f next' loc' rest := by
  induction parts generalizing loc with
  | nil =>
    obtain rfl : loc = loc' := by simpa [follow] using h
    exact ⟨next, rfl⟩
  | cons name parts ih =>
    rw [List.cons_append, follow]
    rw [follow] at h
    rcases hloc : f.contentAt loc with _ | g
    · rw [hloc] at h
      cases h
    · simp only [hloc] at h ⊢
      by_cases hdots : name = ".."
      · simp only [if_pos hdots] at h ⊢
        exact ih h
      · simp only [if_neg hdots] at h ⊢
        rcases hfind : g.find? name with _ | _ | target | _
        · rw [hfind] at h
          cases h
        · simp only [hfind] at h ⊢
          exact ih h
        · simp only [hfind] at h ⊢
          rw [← List.append_assoc]
          exact hnext _ _ h
        · simp only [hfind] at h ⊢
          exact ih h

theorem resolveParts_concat {f : Forest α} {n : ℕ} {loc parts loc' : List String}
    (h : resolveParts f n loc parts = .ok loc') (rest : List String) :
    ∃ next, resolveParts f n loc (parts ++ rest) = follow f next loc' rest := by
  induction n generalizing loc parts with
  | zero => exact follow_concat h rest fun _ _ herror ↦ by cases herror
  | succ n ih => exact follow_concat h rest fun _ _ hlink ↦ ih hlink

/-- **A path leads on** from where its beginning leads. -/
theorem resolve_concat {loc : List String} (h : fs.resolve p = .ok loc) (rest : List String) :
    ∃ next, fs.resolve { p with parts := p.parts ++ rest } = follow fs.content next loc rest :=
  resolveParts_concat h rest

/-- A path that leads on through directories. -/
theorem resolve_below (hfs : fs.content.WellFormed) {loc names : List String}
    (h : fs.resolve p = .ok loc) (hat : fs.content.contentAt (loc ++ names) = some g) :
    fs.resolve { p with parts := p.parts ++ names } = .ok (loc ++ names) := by
  obtain ⟨next, hnext⟩ := resolve_concat h names
  have hfollow := @follow_append _ _ _ hfs next _ _ hat []
  rw [List.append_nil] at hfollow
  rw [hnext, hfollow, follow]

/-- A walk starts in the directory that its path leads to. -/
theorem mem_walk_iff {v : Visit} : v ∈ fs.walk p ↔ ∃ loc g, fs.resolve p = .ok loc ∧
    fs.content.contentAt loc = some g ∧ v ∈ g.walk p := by
  unfold walk scandir
  rcases hresolve : fs.resolve p with error | loc
  · constructor
    · rintro ⟨⟩
    · rintro ⟨_, _, ⟨⟩, -⟩
  · show (v ∈ match directoryAt fs.content loc with
      | .error _ => []
      | .ok g => g.walk p) ↔ _
    unfold directoryAt
    rcases hat : fs.content.contentAt loc with _ | g
    · constructor
      · rintro ⟨⟩
      · rintro ⟨_, _, ⟨⟩, hat', -⟩
        rw [hat] at hat'
        cases hat'
    · constructor
      · intro hv
        exact ⟨loc, g, rfl, hat, hv⟩
      · rintro ⟨_, g', ⟨⟩, hat', hv⟩
        obtain rfl := Option.some.inj (hat.symm.trans hat')
        exact hv

/-- A walk from a path that leads to a directory. -/
theorem walk_of_resolve {loc : List String} {g : Forest α} (h : fs.resolve p = .ok loc)
    (hat : fs.content.contentAt loc = some g) : fs.walk p = g.walk p := by
  have hscandir : fs.scandir p = .ok g := by
    rw [scandir, h]
    show directoryAt fs.content loc = _
    rw [directoryAt, hat]
  rw [walk, hscandir]

end FileSystem

end Nublado
