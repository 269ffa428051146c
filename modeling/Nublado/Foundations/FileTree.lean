import Mathlib.Data.List.Infix
import Mathlib.Data.List.Nodup
import Mathlib.Data.List.SplitOn

/-!
# File trees

Paths, and directories with files and symbolic links. The data of a file is a parameter.

* A directory's content is a `Forest`: its entries in the order in which they are listed, where a
  subdirectory carries its own content. A **location** is the list of names that leads to a directory
  through subdirectories only; every directory has one.
* `walk` visits the directories below a directory from the top. It does not follow symbolic links, so
  what it visits are the locations below its start (`mem_walk`), and it lists everything once
  (`walk_files_nodup`).
* Removing an entry leaves a tree whose directories and symbolic links are those of the tree before
  (`eraseAt_within`).
-/

namespace Nublado

/-- A path in normal form; the anchor is empty for a relative path. -/
structure Path where
  anchor : String
  parts : List String
  deriving DecidableEq

namespace Path

/-- The path of an entry of the directory. -/
def child (p : Path) (name : String) : Path := { p with parts := p.parts ++ [name] }

/-- The names of a path with slashes between them. -/
def join : List String → String
  | [] => ""
  | [name] => name
  | name :: rest => name ++ "/" ++ join rest

/-- The text of a path. -/
def str (p : Path) : String :=
  if p.anchor = "" ∧ p.parts = [] then "." else p.anchor ++ join p.parts

/-- The last name of a path. -/
def name (p : Path) : String := p.parts.getLast?.getD ""

/-- `Path(text)`: slashes in a row count as one, and dots are left out. -/
def parse (text : String) : Path where
  anchor :=
    if "/".toList <+: text.toList then
      if "//".toList <+: text.toList ∧ ¬ "///".toList <+: text.toList then "//" else "/"
    else ""
  parts := ((text.toList.splitOn '/').map String.ofList).filter fun name ↦ name ≠ "" ∧ name ≠ "."

/-- `path / text` -/
def joinText (p : Path) (text : String) : Path :=
  if (parse text).anchor = "" then { p with parts := p.parts ++ (parse text).parts } else parse text

/-- The paths above a path, from the nearest. -/
def parents (p : Path) : List Path :=
  (List.range p.parts.length).reverse.map fun n ↦ { p with parts := p.parts.take n }

/-- `p` is strictly above `q`. -/
def Above (p q : Path) : Prop := p.anchor = q.anchor ∧ p.parts <+: q.parts ∧ p ≠ q

instance (p q : Path) : Decidable (p.Above q) :=
  inferInstanceAs (Decidable (_ ∧ _))

theorem Above.trans {p q r : Path} (h : p.Above q) (h' : q.Above r) : p.Above r := by
  obtain ⟨hanchor, hinit, hne⟩ := h
  obtain ⟨hanchor', hinit', hne'⟩ := h'
  refine ⟨hanchor.trans hanchor', hinit.trans hinit', ?_⟩
  rintro rfl
  refine hne ?_
  obtain ⟨panchor, pparts⟩ := p
  obtain ⟨qanchor, qparts⟩ := q
  obtain rfl : panchor = qanchor := hanchor
  have hinit : pparts <+: qparts := hinit
  rw [hinit.eq_of_length (le_antisymm hinit.length_le hinit'.length_le)]

theorem above_child (p : Path) (name : String) : p.Above (p.child name) :=
  ⟨rfl, List.prefix_append _ _, fun h ↦ by simpa [child] using congrArg parts h⟩

/-- Above an entry of a directory is the directory and what is above it. -/
theorem above_child_iff {p q : Path} {name : String} :
    p.Above (q.child name) ↔ p = q ∨ p.Above q := by
  obtain ⟨anchor, parts⟩ := p
  obtain ⟨qanchor, qparts⟩ := q
  simp only [Above, child, List.prefix_concat_iff, ne_eq, Path.mk.injEq]
  constructor
  · rintro ⟨rfl, rfl | hinit, hne⟩
    · simp at hne
    · by_cases heq : parts = qparts
      · exact Or.inl ⟨rfl, heq⟩
      · exact Or.inr ⟨rfl, hinit, by simp [heq]⟩
  · rintro (⟨rfl, rfl⟩ | ⟨rfl, hinit, -⟩)
    · exact ⟨rfl, Or.inr (List.prefix_refl _), by simp⟩
    · refine ⟨rfl, Or.inr hinit, fun heq ↦ ?_⟩
      have hlen := hinit.length_le
      rw [heq.2, List.length_append, List.length_singleton] at hlen
      omega

/-- Paths at or above one path are at or above one another. -/
theorem above_trichotomy {p q r : Path} (hp : p = r ∨ p.Above r) (hq : q = r ∨ q.Above r) :
    p = q ∨ p.Above q ∨ q.Above p := by
  have hinit : ∀ {p : Path}, p = r ∨ p.Above r → p.anchor = r.anchor ∧ p.parts <+: r.parts := by
    rintro p (rfl | ⟨hanchor, hinit, -⟩)
    · exact ⟨rfl, List.prefix_refl _⟩
    · exact ⟨hanchor, hinit⟩
  obtain ⟨hpa, hpp⟩ := hinit hp
  obtain ⟨hqa, hqp⟩ := hinit hq
  rcases eq_or_ne p q with heq | hne
  · exact Or.inl heq
  · rcases List.prefix_or_prefix_of_prefix hpp hqp with h | h
    · exact Or.inr (Or.inl ⟨hpa.trans hqa.symm, h, hne⟩)
    · exact Or.inr (Or.inr ⟨hqa.trans hpa.symm, h, hne.symm⟩)

theorem mem_parents {p q : Path} : q ∈ p.parents ↔ q.Above p := by
  simp only [parents, List.mem_map, List.mem_reverse, List.mem_range, Above]
  constructor
  · rintro ⟨n, hn, rfl⟩
    refine ⟨rfl, List.take_prefix _ _, fun heq ↦ ?_⟩
    have hlen := congrArg (fun q : Path ↦ q.parts.length) heq
    simp only [List.length_take] at hlen
    omega
  · rintro ⟨hanchor, hinit, hne⟩
    obtain ⟨panchor, pparts⟩ := p
    obtain ⟨qanchor, qparts⟩ := q
    obtain rfl : qanchor = panchor := hanchor
    have hinit : qparts <+: pparts := hinit
    refine ⟨qparts.length, ?_, ?_⟩
    · refine lt_of_le_of_ne hinit.length_le fun hlen ↦ hne ?_
      rw [hinit.eq_of_length hlen]
    · rw [← List.prefix_iff_eq_take.1 hinit]

theorem child_injective {p q : Path} {name name' : String} (h : p.child name = q.child name') :
    p = q ∧ name = name' := by
  obtain ⟨panchor, pparts⟩ := p
  obtain ⟨qanchor, qparts⟩ := q
  simp only [child, Path.mk.injEq] at h
  obtain ⟨rfl, hparts⟩ := h
  obtain ⟨rfl, hname⟩ := List.append_inj' hparts rfl
  exact ⟨rfl, List.singleton_injective hname⟩

theorem length_join_lt {l l' : List String} (hl' : l' ≠ []) (hnames : ∀ name ∈ l', name ≠ "") :
    (join l).length < (join (l ++ l')).length := by
  induction l with
  | nil =>
    obtain ⟨name, rest, rfl⟩ := List.exists_cons_of_ne_nil hl'
    have hpos : name.length ≠ 0 := fun h ↦
      hnames name List.mem_cons_self (String.length_eq_zero_iff.1 h)
    rw [List.nil_append]
    rcases rest with _ | ⟨next, rest⟩
    · show 0 < name.length
      omega
    · show 0 < (name ++ "/" ++ join (next :: rest)).length
      rw [String.length_append, String.length_append]
      omega
  | cons name l ih =>
    have hcons : ∀ rest, rest ≠ [] → join (name :: rest) = name ++ "/" ++ join rest := by
      intro rest hrest
      obtain ⟨next, rest, rfl⟩ := List.exists_cons_of_ne_nil hrest
      rfl
    rw [List.cons_append, hcons (l ++ l') (by simp [hl'])]
    rcases l with _ | ⟨next, l⟩
    · have hslash : "/".length = 1 := rfl
      show name.length < (name ++ "/" ++ join ([] ++ l')).length
      rw [String.length_append, String.length_append]
      omega
    · rw [hcons (next :: l) (by simp)]
      simp only [String.length_append] at ih ⊢
      omega

/-- **An absolute path is longer as a text than the paths above it.** -/
theorem Above.length_str_lt {p q : Path} (h : p.Above q) (habs : p.anchor ≠ "")
    (hnames : ∀ name ∈ q.parts, name ≠ "") : p.str.length < q.str.length := by
  obtain ⟨hanchor, ⟨ext, hext⟩, hne⟩ := h
  obtain ⟨anchor, parts⟩ := p
  obtain ⟨qanchor, qparts⟩ := q
  obtain rfl : anchor = qanchor := hanchor
  obtain rfl : parts ++ ext = qparts := hext
  have hext : ext ≠ [] := by
    rintro rfl
    simp at hne
  have habs : anchor ≠ "" := habs
  rw [str, str, if_neg (fun h ↦ habs h.1), if_neg (fun h ↦ habs h.1), String.length_append,
    String.length_append]
  refine Nat.add_lt_add_left (length_join_lt hext fun name hname ↦ ?_) _
  exact hnames name (List.mem_append_right _ hname)

end Path

/-! ### Forests -/

/-- The entries of a directory. -/
inductive Forest (α : Type) where
  | nil
  | file (name : String) (data : α) (rest : Forest α)
  | symlink (name : String) (target : Path) (rest : Forest α)
  | directory (name : String) (content : Forest α) (rest : Forest α)
  deriving DecidableEq

/-- What a name stands for in a directory. -/
inductive Entry (α : Type) where
  | file (data : α)
  | symlink (target : Path)
  | directory (content : Forest α)
  deriving DecidableEq

/-- Change the content of an entry that is a directory. -/
def Entry.mapContent {α : Type} (g : Forest α → Forest α) : Entry α → Entry α
  | .directory content => .directory (g content)
  | e => e

/-- A name that an entry can have. -/
def ValidName (name : String) : Prop :=
  name ≠ "" ∧ name ≠ "." ∧ name ≠ ".." ∧ '/' ∉ name.toList

instance (name : String) : Decidable (ValidName name) := inferInstanceAs (Decidable (_ ∧ _))

/-- What visiting a directory yields: its path, its subdirectories and its other entries. -/
structure Visit where
  dirpath : Path
  dirnames : List String
  filenames : List String

namespace Forest

variable {α : Type}

/-- Look a name up. -/
@[grind =] def find? (name : String) : Forest α → Option (Entry α)
  | nil => none
  | file n data rest => if n = name then some (.file data) else rest.find? name
  | symlink n target rest => if n = name then some (.symlink target) else rest.find? name
  | directory n content rest => if n = name then some (.directory content) else rest.find? name

/-- The names of the subdirectories. -/
@[grind =] def dirnames : Forest α → List String
  | nil => []
  | file _ _ rest => rest.dirnames
  | symlink _ _ rest => rest.dirnames
  | directory name _ rest => name :: rest.dirnames

/-- The names of the entries that are not directories. -/
@[grind =] def filenames : Forest α → List String
  | nil => []
  | file name _ rest => name :: rest.filenames
  | symlink name _ rest => name :: rest.filenames
  | directory _ _ rest => rest.filenames

/-- All names. -/
@[grind =] def names : Forest α → List String
  | nil => []
  | file name _ rest => name :: rest.names
  | symlink name _ rest => name :: rest.names
  | directory name _ rest => name :: rest.names

/-- Names are valid and distinct in every directory. -/
@[grind =] def WellFormed : Forest α → Prop
  | nil => True
  | file name _ rest => ValidName name ∧ name ∉ rest.names ∧ rest.WellFormed
  | symlink name _ rest => ValidName name ∧ name ∉ rest.names ∧ rest.WellFormed
  | directory name content rest =>
    ValidName name ∧ name ∉ rest.names ∧ content.WellFormed ∧ rest.WellFormed

instance decidableWellFormed : (f : Forest α) → Decidable f.WellFormed
  | nil => inferInstanceAs (Decidable True)
  | file name _ rest =>
    have := decidableWellFormed rest
    inferInstanceAs (Decidable (ValidName name ∧ name ∉ rest.names ∧ rest.WellFormed))
  | symlink name _ rest =>
    have := decidableWellFormed rest
    inferInstanceAs (Decidable (ValidName name ∧ name ∉ rest.names ∧ rest.WellFormed))
  | directory name content rest =>
    have := decidableWellFormed content
    have := decidableWellFormed rest
    inferInstanceAs
      (Decidable (ValidName name ∧ name ∉ rest.names ∧ content.WellFormed ∧ rest.WellFormed))

/-- The data of the files in a directory and below it. -/
@[grind =] def data : Forest α → List α
  | nil => []
  | file _ a rest => a :: rest.data
  | symlink _ _ rest => rest.data
  | directory _ content rest => content.data ++ rest.data

/-- The content of the directory at a location. -/
@[grind =] def contentAt : Forest α → List String → Option (Forest α)
  | f, [] => some f
  | f, name :: loc =>
    match f.find? name with
    | some (.directory content) => content.contentAt loc
    | _ => none

/-- Whether no name on the way down a location is a symbolic link. -/
@[grind =] def isDirect : Forest α → List String → Bool
  | _, [] => true
  | f, name :: loc =>
    match f.find? name with
    | some (.symlink _) => false
    | some (.directory content) => content.isDirect loc
    | _ => true

/-- Visit the directories below the path, whose entries these are. -/
@[grind =] def walkBelow (path : Path) : Forest α → List Visit
  | nil => []
  | file _ _ rest => rest.walkBelow path
  | symlink _ _ rest => rest.walkBelow path
  | directory name content rest =>
    ⟨path.child name, content.dirnames, content.filenames⟩ ::
      (content.walkBelow (path.child name) ++ rest.walkBelow path)

/-- Visit a directory and the directories below it, from the top. -/
def walk (path : Path) (f : Forest α) : List Visit :=
  ⟨path, f.dirnames, f.filenames⟩ :: f.walkBelow path

/-- Remove a name. -/
@[grind =] def eraseName (name : String) : Forest α → Forest α
  | nil => nil
  | file n data rest => if n = name then rest else file n data (rest.eraseName name)
  | symlink n target rest => if n = name then rest else symlink n target (rest.eraseName name)
  | directory n content rest =>
    if n = name then rest else directory n content (rest.eraseName name)

/-- Change the content of a subdirectory. -/
@[grind =] def modify (name : String) (g : Forest α → Forest α) : Forest α → Forest α
  | nil => nil
  | file n data rest => file n data (rest.modify name g)
  | symlink n target rest => symlink n target (rest.modify name g)
  | directory n content rest =>
    if n = name then directory n (g content) rest else directory n content (rest.modify name g)

/-- Remove a name from the directory at a location. -/
@[grind =] def eraseAt : List String → String → Forest α → Forest α
  | [], name => eraseName name
  | n :: loc, name => modify n (eraseAt loc name)

/-! ### Names -/

theorem mem_names {f : Forest α} {name : String} :
    name ∈ f.names ↔ name ∈ f.dirnames ∨ name ∈ f.filenames := by
  induction f with
  | nil => simp [names, dirnames, filenames]
  | file n data rest ih => simp [names, dirnames, filenames, ih, or_left_comm]
  | symlink n target rest ih => simp [names, dirnames, filenames, ih, or_left_comm]
  | directory n content rest _ ih => simp [names, dirnames, filenames, ih, or_assoc]

/-- A name is found exactly if it is there. -/
theorem find?_isSome {f : Forest α} {name : String} : (f.find? name).isSome ↔ name ∈ f.names := by
  induction f with
  | nil => simp [find?, names]
  | file n data rest ih | symlink n target rest ih | directory n content rest _ ih =>
    rcases eq_or_ne n name with rfl | hne
    · simp [find?, names]
    · simp [find?, names, hne, hne.symm, ih]

theorem find?_eq_none {f : Forest α} {name : String} : f.find? name = none ↔ name ∉ f.names := by
  rw [← find?_isSome, Option.not_isSome_iff_eq_none]

/-- The subdirectories are the names that stand for directories. -/
theorem mem_dirnames {f : Forest α} (hf : f.WellFormed) {name : String} :
    name ∈ f.dirnames ↔ ∃ content, f.find? name = some (.directory content) := by
  induction f with
  | nil => simp [dirnames, find?]
  | file n data rest ih | symlink n target rest ih =>
    obtain ⟨-, hnew, hrest⟩ := hf
    rcases eq_or_ne n name with rfl | hne
    · simpa [dirnames, find?] using fun h ↦ hnew (mem_names.2 (Or.inl h))
    · simpa [dirnames, find?, hne] using ih hrest
  | directory n content rest _ ih =>
    obtain ⟨-, hnew, -, hrest⟩ := hf
    rcases eq_or_ne n name with rfl | hne
    · simp [dirnames, find?]
    · simpa [dirnames, find?, hne, hne.symm] using ih hrest

/-- The other entries are the names that stand for files and symbolic links. -/
theorem mem_filenames {f : Forest α} (hf : f.WellFormed) {name : String} :
    name ∈ f.filenames ↔
      ∃ e, f.find? name = some e ∧ ∀ content, e ≠ .directory content := by
  induction f with
  | nil => simp [filenames, find?]
  | file n data rest ih | symlink n target rest ih =>
    obtain ⟨-, -, hrest⟩ := hf
    rcases eq_or_ne n name with rfl | hne
    · simp [filenames, find?]
    · simpa [filenames, find?, hne, hne.symm] using ih hrest
  | directory n content rest _ ih =>
    obtain ⟨-, hnew, -, hrest⟩ := hf
    rcases eq_or_ne n name with rfl | hne
    · simpa [filenames, find?] using fun h ↦ hnew (mem_names.2 (Or.inr h))
    · simpa [filenames, find?, hne, hne.symm] using ih hrest

theorem nodup_filenames {f : Forest α} (hf : f.WellFormed) : f.filenames.Nodup := by
  induction f with
  | nil => simp [filenames]
  | file n data rest ih | symlink n target rest ih =>
    obtain ⟨-, hnew, hrest⟩ := hf
    exact List.nodup_cons.2 ⟨fun h ↦ hnew (mem_names.2 (Or.inr h)), ih hrest⟩
  | directory n content rest _ ih => exact ih hf.2.2.2

/-- What is found under a name is well formed, and the name is valid. -/
theorem WellFormed.of_find? {f : Forest α} (hf : f.WellFormed) {name : String} {e : Entry α}
    (h : f.find? name = some e) :
    ValidName name ∧ ∀ content, e = .directory content → content.WellFormed := by
  induction f with
  | nil => simp [find?] at h
  | file n data rest ih | symlink n target rest ih =>
    obtain ⟨hvalid, -, hrest⟩ := hf
    rcases eq_or_ne n name with rfl | hne
    · rw [find?, if_pos rfl] at h
      obtain rfl := Option.some.inj h
      exact ⟨hvalid, by simp⟩
    · rw [find?, if_neg hne] at h
      exact ih hrest h
  | directory n content rest _ ih =>
    obtain ⟨hvalid, -, hcontent, hrest⟩ := hf
    rcases eq_or_ne n name with rfl | hne
    · rw [find?, if_pos rfl] at h
      obtain rfl := Option.some.inj h
      exact ⟨hvalid, by simpa using hcontent⟩
    · rw [find?, if_neg hne] at h
      exact ih hrest h

/-! ### Locations -/

theorem contentAt_cons_eq_some {f g : Forest α} {name : String} {loc : List String} :
    f.contentAt (name :: loc) = some g ↔
      ∃ content, f.find? name = some (.directory content) ∧ content.contentAt loc = some g := by
  rw [contentAt]
  split
  · next content hfind => simp [hfind]
  · next hnot =>
    simp only [reduceCtorEq, false_iff, not_exists, not_and]
    exact fun content hfind ↦ absurd hfind (hnot content)

theorem contentAt_append {f : Forest α} {loc loc' : List String} :
    f.contentAt (loc ++ loc') = (f.contentAt loc).bind fun g ↦ g.contentAt loc' := by
  induction loc generalizing f with
  | nil => rfl
  | cons name loc ih =>
    rw [List.cons_append, contentAt, contentAt]
    split
    · exact ih
    · rfl

theorem WellFormed.contentAt {f g : Forest α} (hf : f.WellFormed) {loc : List String}
    (h : f.contentAt loc = some g) : g.WellFormed := by
  induction loc generalizing f with
  | nil => exact Option.some.inj h ▸ hf
  | cons name loc ih =>
    obtain ⟨content, hfind, h⟩ := contentAt_cons_eq_some.1 h
    exact ih ((hf.of_find? hfind).2 content rfl) h

/-- What is found in a directory is among the data below it. -/
theorem data_subset_of_find? {f : Forest α} {name : String} {e : Entry α} (h : f.find? name = some e) :
    (∀ a, e = .file a → a ∈ f.data) ∧ ∀ content, e = .directory content → content.data ⊆ f.data := by
  induction f with
  | nil => simp [find?] at h
  | file n a rest ih | symlink n target rest ih =>
    rw [find?] at h
    split at h
    · obtain rfl := Option.some.inj h
      simp [data]
    · exact ⟨fun a ha ↦ by simp [data, (ih h).1 a ha],
        fun content hcontent ↦ List.Subset.trans ((ih h).2 content hcontent) (by simp [data])⟩
  | directory n content rest _ ih =>
    rw [find?] at h
    split at h
    · obtain rfl := Option.some.inj h
      simp [data]
    · exact ⟨fun a ha ↦ by simp [data, (ih h).1 a ha],
        fun content hcontent ↦ List.Subset.trans ((ih h).2 content hcontent) (by simp [data])⟩

theorem data_subset_of_contentAt {f g : Forest α} {loc : List String}
    (h : f.contentAt loc = some g) : g.data ⊆ f.data := by
  induction loc generalizing f with
  | nil =>
    obtain rfl := Option.some.inj h
    exact List.Subset.refl _
  | cons name loc ih =>
    obtain ⟨content, hfind, h⟩ := contentAt_cons_eq_some.1 h
    exact List.Subset.trans (ih h) ((data_subset_of_find? hfind).2 content rfl)

/-- Going down a direct location meets no symbolic link. -/
theorem not_symlink_of_isDirect {f g : Forest α} {parts loc : List String} {name : String}
    (h : f.isDirect parts = true) (hinit : loc ++ [name] <+: parts)
    (hat : f.contentAt loc = some g) (target : Path) : g.find? name ≠ some (.symlink target) := by
  induction loc generalizing f parts with
  | nil =>
    obtain rfl := Option.some.inj hat
    obtain ⟨rest, rfl⟩ := hinit
    intro hfind
    simp [isDirect, hfind] at h
  | cons n loc ih =>
    obtain ⟨rest, rfl⟩ := hinit
    obtain ⟨content, hfind, hat⟩ := contentAt_cons_eq_some.1 hat
    have hbelow : content.isDirect (loc ++ [name] ++ rest) = true := by
      simpa [isDirect, hfind] using h
    exact ih hbelow (List.prefix_append _ _) hat

/-! ### What a walk visits -/

/-- Entries other than the one of the name do not matter to a location. -/
theorem contentAt_directory {n : String} {content rest : Forest α} {name : String}
    {loc : List String} : (directory n content rest).contentAt (name :: loc) =
      if n = name then content.contentAt loc else rest.contentAt (name :: loc) := by
  rcases eq_or_ne n name with rfl | hne
  · simp [contentAt, find?]
  · simp [contentAt, find?, hne]

theorem mem_walkBelow {f : Forest α} (hf : f.WellFormed) {path : Path} {v : Visit} :
    v ∈ f.walkBelow path ↔ ∃ loc g, loc ≠ [] ∧ f.contentAt loc = some g ∧
      v = ⟨{ path with parts := path.parts ++ loc }, g.dirnames, g.filenames⟩ := by
  induction f generalizing path with
  | nil =>
    simp only [walkBelow, List.not_mem_nil, false_iff]
    rintro ⟨loc, g, hne, hat, -⟩
    obtain ⟨name, loc, rfl⟩ := List.exists_cons_of_ne_nil hne
    obtain ⟨content, hfind, -⟩ := contentAt_cons_eq_some.1 hat
    simp [find?] at hfind
  | file n data rest ih | symlink n target rest ih =>
    obtain ⟨-, hnew, hrest⟩ := hf
    rw [walkBelow, ih hrest]
    refine exists_congr fun loc ↦ exists_congr fun g ↦ and_congr_right fun hne ↦ ?_
    obtain ⟨name, loc, rfl⟩ := List.exists_cons_of_ne_nil hne
    rw [contentAt_cons_eq_some, contentAt_cons_eq_some, find?]
    rcases eq_or_ne n name with rfl | hname
    · simp [find?_eq_none.2 hnew]
    · rw [if_neg hname]
  | directory n content rest ihcontent ihrest =>
    obtain ⟨-, hnew, hcontent, hrest⟩ := hf
    rw [walkBelow, List.mem_cons, List.mem_append, ihcontent hcontent, ihrest hrest]
    constructor
    · rintro (rfl | ⟨loc, g, -, hat, rfl⟩ | ⟨loc, g, hne, hat, rfl⟩)
      · exact ⟨[n], content, by simp, by rw [contentAt_directory, if_pos rfl, contentAt], rfl⟩
      · exact ⟨n :: loc, g, by simp, by simpa [contentAt_directory] using hat,
          by simp [Path.child]⟩
      · obtain ⟨name, loc, rfl⟩ := List.exists_cons_of_ne_nil hne
        obtain ⟨content', hfind, -⟩ := contentAt_cons_eq_some.1 hat
        have hname : n ≠ name := by
          rintro rfl
          exact hnew (find?_isSome.1 (by simp [hfind]))
        exact ⟨name :: loc, g, hne, by rw [contentAt_directory, if_neg hname, hat], rfl⟩
    · rintro ⟨loc, g, hne, hat, rfl⟩
      obtain ⟨name, loc, rfl⟩ := List.exists_cons_of_ne_nil hne
      rw [contentAt_directory] at hat
      split at hat
      · next hname =>
        subst hname
        rcases eq_or_ne loc [] with rfl | hloc
        · obtain rfl := Option.some.inj hat
          exact Or.inl rfl
        · exact Or.inr (Or.inl ⟨loc, g, hloc, hat, by simp [Path.child]⟩)
      · exact Or.inr (Or.inr ⟨name :: loc, g, hne, hat, rfl⟩)

/-- **A walk visits the directories at the locations below its start.** -/
theorem mem_walk {f : Forest α} (hf : f.WellFormed) {path : Path} {v : Visit} :
    v ∈ f.walk path ↔ ∃ loc g, f.contentAt loc = some g ∧
      v = ⟨{ path with parts := path.parts ++ loc }, g.dirnames, g.filenames⟩ := by
  rw [walk, List.mem_cons, mem_walkBelow hf]
  constructor
  · rintro (rfl | ⟨loc, g, -, hat, rfl⟩)
    · exact ⟨[], f, rfl, by simp⟩
    · exact ⟨loc, g, hat, rfl⟩
  · rintro ⟨loc, g, hat, rfl⟩
    rcases eq_or_ne loc [] with rfl | hne
    · obtain rfl := Option.some.inj hat
      exact Or.inl (by simp)
    · exact Or.inr ⟨loc, g, hne, hat, rfl⟩

/-- The directories visited are at or below the start, whether or not the tree is well formed. -/
theorem above_of_mem_walkBelow {f : Forest α} {path : Path} {v : Visit}
    (hv : v ∈ f.walkBelow path) : path.Above v.dirpath := by
  induction f generalizing path with
  | nil => simp [walkBelow] at hv
  | file n data rest ih | symlink n target rest ih => exact ih hv
  | directory n content rest ihcontent ihrest =>
    have hchild := path.above_child n
    rcases List.mem_cons.1 hv with rfl | hv
    · exact hchild
    · rcases List.mem_append.1 hv with hv | hv
      · exact hchild.trans (ihcontent hv)
      · exact ihrest hv

/-- What is visited below lies in one of the subdirectories. -/
theorem exists_name_of_mem_walkBelow {f : Forest α} (hf : f.WellFormed) {path : Path} {v : Visit}
    (hv : v ∈ f.walkBelow path) :
    ∃ name ∈ f.names, ∃ loc, v.dirpath.parts = path.parts ++ name :: loc := by
  obtain ⟨loc, g, hne, hat, rfl⟩ := (mem_walkBelow hf).1 hv
  obtain ⟨name, loc, rfl⟩ := List.exists_cons_of_ne_nil hne
  obtain ⟨content, hfind, -⟩ := contentAt_cons_eq_some.1 hat
  exact ⟨name, find?_isSome.1 (by simp [hfind]), loc, rfl⟩

theorem walkBelow_nodup {f : Forest α} (hf : f.WellFormed) (path : Path) :
    ((f.walkBelow path).map Visit.dirpath).Nodup := by
  induction f generalizing path with
  | nil => simp [walkBelow]
  | file n data rest ih | symlink n target rest ih => exact ih hf.2.2 path
  | directory n content rest ihcontent ihrest =>
    obtain ⟨-, hnew, hcontent, hrest⟩ := hf
    -- No directory visited in the rest lies in the first subdirectory.
    have hother : ∀ v ∈ rest.walkBelow path, ∀ loc, v.dirpath.parts ≠ path.parts ++ n :: loc := by
      intro v hv loc heq
      obtain ⟨name, hname, loc', hparts⟩ := exists_name_of_mem_walkBelow hrest hv
      have hcons := List.append_cancel_left (hparts.symm.trans heq)
      exact hnew ((List.cons.inj hcons).1 ▸ hname)
    simp only [walkBelow, List.map_cons, List.map_append]
    refine List.nodup_cons.2 ⟨fun hmem ↦ ?_, List.nodup_append.2
      ⟨ihcontent hcontent _, ihrest hrest _, fun p hp q hq ↦ ?_⟩⟩
    · rcases List.mem_append.1 hmem with hmem | hmem
      · obtain ⟨v, hv, heq⟩ := List.mem_map.1 hmem
        exact (above_of_mem_walkBelow hv).2.2 heq.symm
      · obtain ⟨v, hv, heq⟩ := List.mem_map.1 hmem
        exact hother v hv [] (by rw [heq]; rfl)
    · rintro rfl
      obtain ⟨v, hv, rfl⟩ := List.mem_map.1 hp
      obtain ⟨w, hw, heq⟩ := List.mem_map.1 hq
      obtain ⟨loc, hloc⟩ := (above_of_mem_walkBelow hv).2.1
      refine hother w hw loc ?_
      rw [heq, ← hloc]
      simp [Path.child]

/-- **A walk visits no directory twice.** -/
theorem walk_nodup {f : Forest α} (hf : f.WellFormed) (path : Path) :
    ((f.walk path).map Visit.dirpath).Nodup := by
  refine List.nodup_cons.2 ⟨fun hmem ↦ ?_, walkBelow_nodup hf path⟩
  obtain ⟨v, hv, heq⟩ := List.mem_map.1 hmem
  exact (above_of_mem_walkBelow hv).2.2 heq.symm

/-- The paths of the entries that a visit lists as files. -/
def visitFiles (v : Visit) : List Path := v.filenames.map v.dirpath.child

/-- **A walk lists no file twice.** -/
theorem walk_files_nodup {f : Forest α} (hf : f.WellFormed) (path : Path) :
    ((f.walk path).flatMap visitFiles).Nodup := by
  have hdirs := walk_nodup hf path
  rw [List.Nodup, List.pairwise_map] at hdirs
  refine List.nodup_flatMap.2 ⟨fun v hv ↦ ?_, hdirs.imp fun {v w} hne ↦ ?_⟩
  · obtain ⟨loc, g, hat, rfl⟩ := (mem_walk hf).1 hv
    exact (nodup_filenames (hf.contentAt hat)).map fun _ _ h ↦ (Path.child_injective h).2
  · intro p hp hq
    obtain ⟨name, -, rfl⟩ := List.mem_map.1 hp
    obtain ⟨name', -, heq⟩ := List.mem_map.1 hq
    exact hne (Path.child_injective heq).1.symm

/-! ### Removing -/

theorem names_eraseName_subset {f : Forest α} {n : String} : (f.eraseName n).names ⊆ f.names := by
  induction f with
  | nil => exact List.Subset.refl _
  | file m a rest ih | symlink m target rest ih | directory m content rest _ ih =>
    rw [eraseName]
    split
    · exact List.subset_cons_self _ _
    · exact List.cons_subset_cons _ ih

theorem names_modify {f : Forest α} {n : String} {g : Forest α → Forest α} :
    (f.modify n g).names = f.names := by
  induction f with
  | nil => rfl
  | file m a rest ih | symlink m target rest ih => simp [modify, names, ih]
  | directory m content rest _ ih =>
    rw [modify]
    split
    · rfl
    · simp [names, ih]

theorem find?_eraseName {f : Forest α} (hf : f.WellFormed) {n name : String} :
    (f.eraseName n).find? name = if name = n then none else f.find? name := by
  induction f with
  | nil => simp [eraseName, find?]
  | file m a rest ih | symlink m target rest ih =>
    obtain ⟨-, hnew, hrest⟩ := hf
    rw [eraseName]
    by_cases hm : m = n
    · subst hm
      rcases eq_or_ne name m with rfl | hne
      · simp [find?_eq_none.2 hnew]
      · simp [find?, hne, hne.symm]
    · rw [if_neg hm, find?, find?, ih hrest]
      rcases eq_or_ne m name with rfl | hne
      · simp [hm]
      · simp [hne]
  | directory m content rest _ ih =>
    obtain ⟨-, hnew, -, hrest⟩ := hf
    rw [eraseName]
    by_cases hm : m = n
    · subst hm
      rcases eq_or_ne name m with rfl | hne
      · simp [find?_eq_none.2 hnew]
      · simp [find?, hne, hne.symm]
    · rw [if_neg hm, find?, find?, ih hrest]
      rcases eq_or_ne m name with rfl | hne
      · simp [hm]
      · simp [hne]

theorem find?_modify {f : Forest α} {n name : String} {g : Forest α → Forest α} :
    (f.modify n g).find? name =
      if name = n then (f.find? name).map (Entry.mapContent g) else f.find? name := by
  induction f with
  | nil => simp [modify, find?]
  | file m a rest ih | symlink m target rest ih =>
    rw [modify, find?, find?, ih]
    rcases eq_or_ne m name with rfl | hne
    · simp [Entry.mapContent]
    · simp [hne]
  | directory m content rest _ ih =>
    rw [modify]
    rcases eq_or_ne m name with rfl | hne
    · by_cases hm : m = n
      · simp [hm, find?, Entry.mapContent]
      · simp [hm, find?]
    · by_cases hm : m = n
      · subst hm
        simp [find?, hne, hne.symm]
      · simp [hm, find?, hne, ih]

theorem WellFormed.eraseName {f : Forest α} (hf : f.WellFormed) (n : String) :
    (f.eraseName n).WellFormed := by
  induction f with
  | nil => exact hf
  | file m a rest ih | symlink m target rest ih =>
    obtain ⟨hvalid, hnew, hrest⟩ := hf
    rw [Forest.eraseName]
    split
    · exact hrest
    · exact ⟨hvalid, fun h ↦ hnew (names_eraseName_subset h), ih hrest⟩
  | directory m content rest _ ih =>
    obtain ⟨hvalid, hnew, hcontent, hrest⟩ := hf
    rw [Forest.eraseName]
    split
    · exact hrest
    · exact ⟨hvalid, fun h ↦ hnew (names_eraseName_subset h), hcontent, ih hrest⟩

theorem WellFormed.modify {f : Forest α} (hf : f.WellFormed) (n : String) {g : Forest α → Forest α}
    (hg : ∀ content : Forest α, content.WellFormed → (g content).WellFormed) :
    (f.modify n g).WellFormed := by
  induction f with
  | nil => exact hf
  | file m a rest ih | symlink m target rest ih =>
    obtain ⟨hvalid, hnew, hrest⟩ := hf
    exact ⟨hvalid, by rwa [names_modify], ih hrest⟩
  | directory m content rest _ ih =>
    obtain ⟨hvalid, hnew, hcontent, hrest⟩ := hf
    rw [Forest.modify]
    split
    · exact ⟨hvalid, hnew, hg content hcontent, hrest⟩
    · exact ⟨hvalid, by rwa [names_modify], hcontent, ih hrest⟩

theorem WellFormed.eraseAt {f : Forest α} (hf : f.WellFormed) (loc : List String) (n : String) :
    (f.eraseAt loc n).WellFormed := by
  induction loc generalizing f with
  | nil => exact hf.eraseName n
  | cons m loc ih => exact hf.modify m fun content hcontent ↦ ih hcontent

/-- Every directory and symbolic link of `f'` is one of `f`, at the same place. -/
def Within (f' f : Forest α) : Prop :=
  ∀ loc g', f'.contentAt loc = some g' → ∃ g, f.contentAt loc = some g ∧
    ∀ name target, g'.find? name = some (.symlink target) → g.find? name = some (.symlink target)

theorem Within.refl (f : Forest α) : f.Within f := fun _ g h ↦ ⟨g, h, fun _ _ h ↦ h⟩

theorem Within.trans {f f' f'' : Forest α} (h : f''.Within f') (h' : f'.Within f) :
    f''.Within f := by
  intro loc g'' hg''
  obtain ⟨g', hg', hlinks⟩ := h loc g'' hg''
  obtain ⟨g, hg, hlinks'⟩ := h' loc g' hg'
  exact ⟨g, hg, fun name target hfind ↦ hlinks' name target (hlinks name target hfind)⟩

/-- **Removing an entry** leaves a tree with directories and links of the one before. -/
theorem eraseAt_within {f : Forest α} (hf : f.WellFormed) (loc : List String) (n : String) :
    (f.eraseAt loc n).Within f := by
  induction loc generalizing f with
  | nil =>
    intro loc' g' hg'
    rcases loc' with _ | ⟨name, loc'⟩
    · obtain rfl := Option.some.inj hg'
      refine ⟨f, rfl, fun name target hfind ↦ ?_⟩
      rw [eraseAt, find?_eraseName hf] at hfind
      split at hfind
      · cases hfind
      · exact hfind
    · obtain ⟨content, hfind, hat⟩ := contentAt_cons_eq_some.1 hg'
      rw [eraseAt, find?_eraseName hf] at hfind
      split at hfind
      · cases hfind
      · exact ⟨g', contentAt_cons_eq_some.2 ⟨content, hfind, hat⟩, fun _ _ h ↦ h⟩
  | cons m loc ih =>
    intro loc' g' hg'
    rcases loc' with _ | ⟨name, loc'⟩
    · obtain rfl := Option.some.inj hg'
      refine ⟨f, rfl, fun name target hfind ↦ ?_⟩
      rw [eraseAt, find?_modify] at hfind
      split at hfind
      · obtain ⟨e, he, hmap⟩ := Option.map_eq_some_iff.1 hfind
        cases e with
        | symlink => exact he.trans (congrArg some hmap)
        | file | directory => cases hmap
      · exact hfind
    · obtain ⟨content, hfind, hat⟩ := contentAt_cons_eq_some.1 hg'
      rw [eraseAt, find?_modify] at hfind
      split at hfind
      · obtain ⟨e, he, hmap⟩ := Option.map_eq_some_iff.1 hfind
        cases e with
        | file | symlink => cases hmap
        | directory c =>
          obtain rfl : eraseAt loc n c = content := Entry.directory.inj hmap
          obtain ⟨g, hg, hlinks⟩ := ih ((hf.of_find? he).2 c rfl) loc' g' hat
          exact ⟨g, contentAt_cons_eq_some.2 ⟨c, he, hg⟩, hlinks⟩
      · exact ⟨g', contentAt_cons_eq_some.2 ⟨content, hfind, hat⟩, fun _ _ h ↦ h⟩

end Forest

end Nublado
