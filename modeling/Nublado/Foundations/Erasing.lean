import Nublado.Foundations.FileSystem

/-!
# Trees without the entries at some locations

Removing entries one after the other leaves the tree without the entries at those locations, in
whatever order they were removed: `without` says which tree that is, and `eraseAt_without` that it is
the one which is left.

* What remains is where it was (`contentAt_without`), and a path that leads anywhere leads where it led
  (`resolve_without`).
* A directory is **hollow** if there is nothing but directories in it and below it. It contains a
  directory that is empty, or is one itself (`Hollow.exists_nil`).
-/

namespace Nublado

namespace Forest

variable {α : Type} {gone gone' : List String → Bool}

/-- Leave out the entries at some locations. -/
@[grind =] def without (gone : List String → Bool) : List String → Forest α → Forest α
  | _, nil => nil
  | loc, file n data rest =>
    if gone (loc ++ [n]) then rest.without gone loc else file n data (rest.without gone loc)
  | loc, symlink n target rest =>
    if gone (loc ++ [n]) then rest.without gone loc else symlink n target (rest.without gone loc)
  | loc, directory n content rest =>
    if gone (loc ++ [n]) then rest.without gone loc
    else directory n (content.without gone (loc ++ [n])) (rest.without gone loc)

theorem names_without_subset (loc : List String) (f : Forest α) :
    (f.without gone loc).names ⊆ f.names := by
  induction f generalizing loc with
  | nil => exact List.Subset.refl _
  | file n a rest ih | symlink n target rest ih | directory n content rest _ ih =>
    rw [without]
    split
    · exact List.subset_cons_of_subset _ (ih loc)
    · exact List.cons_subset_cons _ (ih loc)

theorem WellFormed.without {f : Forest α} (hf : f.WellFormed) (loc : List String) :
    (f.without gone loc).WellFormed := by
  induction f generalizing loc with
  | nil => trivial
  | file n a rest ih | symlink n target rest ih =>
    obtain ⟨hvalid, hnew, hrest⟩ := hf
    rw [Forest.without]
    split
    · exact ih hrest loc
    · exact ⟨hvalid, fun h ↦ hnew (names_without_subset loc rest h), ih hrest loc⟩
  | directory n content rest ihcontent ih =>
    obtain ⟨hvalid, hnew, hcontent, hrest⟩ := hf
    rw [Forest.without]
    split
    · exact ih hrest loc
    · exact ⟨hvalid, fun h ↦ hnew (names_without_subset loc rest h), ihcontent hcontent _,
        ih hrest loc⟩

/-- Leaving out nothing. -/
theorem without_none (loc : List String) (f : Forest α) : f.without (fun _ ↦ false) loc = f := by
  induction f generalizing loc with
  | nil => rfl
  | file n a rest ih | symlink n target rest ih =>
    show (if false = true then _ else _) = _
    rw [if_neg Bool.false_ne_true, ih]
  | directory n content rest ihcontent ih =>
    show (if false = true then _ else _) = _
    rw [if_neg Bool.false_ne_true, ihcontent, ih]

/-- Only the locations below matter. -/
theorem without_congr {f : Forest α} {loc : List String}
    (h : ∀ names, names ≠ [] → gone (loc ++ names) = gone' (loc ++ names)) :
    f.without gone loc = f.without gone' loc := by
  induction f generalizing loc with
  | nil => rfl
  | file n a rest ih | symlink n target rest ih =>
    rw [without, without, h [n] (List.cons_ne_nil _ _), ih h]
  | directory n content rest ihcontent ih =>
    have hcontent : content.without gone (loc ++ [n]) = content.without gone' (loc ++ [n]) := by
      refine ihcontent fun names _ ↦ ?_
      rw [List.append_assoc]
      exact h ([n] ++ names) (by simp)
    rw [without, without, h [n] (List.cons_ne_nil _ _), ih h, hcontent]

/-- **What is found** in a directory some entries of which are left out. -/
theorem find?_without {f : Forest α} (hf : f.WellFormed) (loc : List String) (name : String) :
    (f.without gone loc).find? name = if gone (loc ++ [name]) then none
      else (f.find? name).map (Entry.mapContent (Forest.without gone (loc ++ [name]))) := by
  induction f with
  | nil => simp [without, find?]
  | file n a rest ih | symlink n target rest ih =>
    obtain ⟨-, hnew, hrest⟩ := hf
    have hih := ih hrest
    rw [without, find?]
    rcases eq_or_ne n name with rfl | hne
    · rw [if_pos rfl]
      split_ifs with hgone
      · exact find?_eq_none.2 fun h ↦ hnew (names_without_subset loc rest h)
      · exact if_pos rfl
    · rw [if_neg hne, ← hih]
      by_cases hgone : gone (loc ++ [n]) = true
      · rw [if_pos hgone]
      · rw [if_neg hgone]
        exact if_neg hne
  | directory n content rest _ ih =>
    obtain ⟨-, hnew, -, hrest⟩ := hf
    have hih := ih hrest
    rw [without, find?]
    rcases eq_or_ne n name with rfl | hne
    · rw [if_pos rfl]
      split_ifs with hgone
      · exact find?_eq_none.2 fun h ↦ hnew (names_without_subset loc rest h)
      · exact if_pos rfl
    · rw [if_neg hne, ← hih]
      by_cases hgone : gone (loc ++ [n]) = true
      · rw [if_pos hgone]
      · rw [if_neg hgone]
        exact if_neg hne

/-- **What remains** of the directories: those that do not lie in what is left out. -/
theorem contentAt_without {f g' : Forest α} (hf : f.WellFormed) (loc loc' : List String) :
    (f.without gone loc).contentAt loc' = some g' ↔
      (∀ names, names ≠ [] → names <+: loc' → gone (loc ++ names) = false) ∧
      ∃ g, f.contentAt loc' = some g ∧ g' = g.without gone (loc ++ loc') := by
  induction loc' generalizing f loc with
  | nil =>
    rw [List.append_nil]
    refine ⟨fun h ↦ ⟨fun names hne hinit ↦ absurd (List.prefix_nil.1 hinit) hne, f, rfl,
      (Option.some.inj h).symm⟩, ?_⟩
    rintro ⟨-, g, hg, rfl⟩
    obtain rfl := Option.some.inj hg
    rfl
  | cons name loc' ih =>
    rw [contentAt_cons_eq_some, find?_without hf]
    have hassoc : ∀ names, loc ++ [name] ++ names = loc ++ name :: names := by simp
    constructor
    · rintro ⟨content, hfind, hat⟩
      split_ifs at hfind with hgone
      obtain ⟨e, he, hmap⟩ := Option.map_eq_some_iff.1 hfind
      rcases e with _ | _ | c
      · cases hmap
      · cases hmap
      · obtain rfl : c.without gone (loc ++ [name]) = content := Entry.directory.inj hmap
        obtain ⟨hnot, g, hg, rfl⟩ := (ih ((hf.of_find? he).2 c rfl) _).1 hat
        refine ⟨fun names hne hinit ↦ ?_, g, contentAt_cons_eq_some.2 ⟨c, he, hg⟩, by rw [hassoc]⟩
        rcases names with _ | ⟨n, names⟩
        · exact absurd rfl hne
        · obtain ⟨rfl, htail⟩ := List.cons_prefix_cons.1 hinit
          rcases eq_or_ne names [] with rfl | hnames
          · exact Bool.eq_false_iff.2 hgone
          · rw [← hassoc]
            exact hnot names hnames htail
    · rintro ⟨hnot, g, hg, rfl⟩
      obtain ⟨c, he, hg⟩ := contentAt_cons_eq_some.1 hg
      have hfirst := hnot [name] (List.cons_ne_nil _ _)
        (List.cons_prefix_cons.2 ⟨rfl, List.nil_prefix⟩)
      refine ⟨c.without gone (loc ++ [name]), ?_, (ih ((hf.of_find? he).2 c rfl) _).2
        ⟨fun names hne hinit ↦ ?_, g, hg, by rw [hassoc]⟩⟩
      · rw [hfirst, he]
        rfl
      · rw [hassoc]
        exact hnot _ (List.cons_ne_nil _ _) (List.cons_prefix_cons.2 ⟨rfl, hinit⟩)

/-- Removing a name that is not there. -/
theorem eraseName_of_not_mem {f : Forest α} {name : String} (h : name ∉ f.names) :
    f.eraseName name = f := by
  induction f with
  | nil => rfl
  | file n a rest ih | symlink n target rest ih | directory n content rest _ ih =>
    rw [names, List.mem_cons, not_or] at h
    rw [eraseName, if_neg (Ne.symm h.1), ih h.2]

/-- Changing the content of a subdirectory that is not there. -/
theorem modify_of_not_mem {f : Forest α} {name : String} (h : name ∉ f.names)
    (g : Forest α → Forest α) : f.modify name g = f := by
  induction f with
  | nil => rfl
  | file n a rest ih | symlink n target rest ih =>
    rw [names, List.mem_cons, not_or] at h
    rw [modify, ih h.2]
  | directory n content rest _ ih =>
    rw [names, List.mem_cons, not_or] at h
    rw [modify, if_neg (Ne.symm h.1), ih h.2]

/-- One more location. -/
def andAt (gone : List String → Bool) (loc : List String) : List String → Bool :=
  fun l ↦ gone l || decide (l = loc)

theorem andAt_self (gone : List String → Bool) (loc : List String) : andAt gone loc loc = true := by
  simp [andAt]

theorem andAt_of_ne {loc l : List String} (h : l ≠ loc) : andAt gone loc l = gone l := by
  simp [andAt, h]

/-- Removing a name from a directory leaves out one more location. -/
theorem eraseName_without {f : Forest α} (hf : f.WellFormed) (base : List String) (name : String) :
    (f.without gone base).eraseName name = f.without (andAt gone (base ++ [name])) base := by
  have hother : ∀ n, n ≠ name → andAt gone (base ++ [name]) (base ++ [n]) = gone (base ++ [n]) :=
    fun n hne ↦ andAt_of_ne (by simpa using hne)
  induction f with
  | nil => rfl
  | file n a rest ih | symlink n target rest ih =>
    obtain ⟨-, hnew, hrest⟩ := hf
    rw [without, without]
    rcases eq_or_ne n name with rfl | hne
    · rw [if_pos (andAt_self _ _), ← ih hrest]
      split_ifs
      · rfl
      · rw [eraseName, if_pos rfl,
          eraseName_of_not_mem fun h ↦ hnew (names_without_subset base rest h)]
    · rw [hother n hne, ← ih hrest]
      split_ifs
      · rfl
      · rw [eraseName, if_neg hne]
  | directory n content rest _ ih =>
    obtain ⟨-, hnew, -, hrest⟩ := hf
    rw [without, without]
    rcases eq_or_ne n name with rfl | hne
    · rw [if_pos (andAt_self _ _), ← ih hrest]
      split_ifs
      · rfl
      · rw [eraseName, if_pos rfl,
          eraseName_of_not_mem fun h ↦ hnew (names_without_subset base rest h)]
    · have hcontent : content.without (andAt gone (base ++ [name])) (base ++ [n]) =
          content.without gone (base ++ [n]) := without_congr fun names _ ↦ andAt_of_ne (by
            rw [List.append_assoc]
            exact fun h ↦ hne (List.cons.inj (List.append_cancel_left h)).1)
      rw [hother n hne, ← ih hrest, hcontent]
      split_ifs
      · rfl
      · rw [eraseName, if_neg hne]

/-- **Removing an entry** leaves out one more location. -/
theorem eraseAt_without {f : Forest α} (hf : f.WellFormed) (base loc : List String)
    (name : String) : (f.without gone base).eraseAt loc name =
      f.without (andAt gone (base ++ loc ++ [name])) base := by
  induction loc generalizing f base with
  | nil =>
    rw [List.append_nil]
    exact eraseName_without hf base name
  | cons m loc ihloc =>
    have hother : ∀ n, andAt gone (base ++ m :: loc ++ [name]) (base ++ [n]) =
        gone (base ++ [n]) := fun n ↦ andAt_of_ne fun h ↦ by
      rw [List.append_assoc] at h
      have htail := (List.cons.inj (List.append_cancel_left h)).2
      simp at htail
    show (f.without gone base).modify m (eraseAt loc name) = _
    induction f with
    | nil => rfl
    | file n a rest ih | symlink n target rest ih =>
      rw [without, without, hother n, ← ih hf.2.2]
      split_ifs <;> rfl
    | directory n content rest _ ih =>
      obtain ⟨-, hnew, hcontent, hrest⟩ := hf
      rw [without, without, hother n, ← ih hrest]
      rcases eq_or_ne n m with rfl | hne
      · have hinner := ihloc hcontent (base ++ [n])
        rw [List.append_assoc base, List.singleton_append] at hinner
        rw [← hinner, modify_of_not_mem (fun h ↦ hnew (names_without_subset base rest h))]
        split_ifs
        · exact modify_of_not_mem (fun h ↦ hnew (names_without_subset base rest h)) _
        · rw [modify, if_pos rfl]
      · have hsame : content.without (andAt gone (base ++ m :: loc ++ [name])) (base ++ [n]) =
            content.without gone (base ++ [n]) := without_congr fun names _ ↦ andAt_of_ne (by
              rw [List.append_assoc, List.append_assoc]
              exact fun h ↦ hne (List.cons.inj (List.append_cancel_left h)).1)
        rw [hsame]
        split_ifs
        · rfl
        · rw [modify, if_neg hne]

/-! ### Hollow directories -/

/-- There is nothing but directories in it and below it. -/
@[grind =] def Hollow : Forest α → Prop
  | nil => True
  | file _ _ _ => False
  | symlink _ _ _ => False
  | directory _ content rest => content.Hollow ∧ rest.Hollow

instance decidableHollow : (f : Forest α) → Decidable f.Hollow
  | nil => isTrue trivial
  | file _ _ _ => isFalse id
  | symlink _ _ _ => isFalse id
  | directory _ content rest =>
    have := decidableHollow content
    have := decidableHollow rest
    inferInstanceAs (Decidable (content.Hollow ∧ rest.Hollow))

/-- **Every chain of hollow directories ends in an empty one.** -/
theorem Hollow.exists_nil {f : Forest α} (h : f.Hollow) : ∃ loc, f.contentAt loc = some nil := by
  induction f with
  | nil => exact ⟨[], rfl⟩
  | file n a rest ih | symlink n target rest ih => exact h.elim
  | directory n content rest ih _ =>
    obtain ⟨loc, hloc⟩ := ih h.1
    exact ⟨n :: loc, by rw [contentAt_directory, if_pos rfl, hloc]⟩

/-- What is in a hollow directory is hollow. -/
theorem Hollow.of_find? {f : Forest α} (h : f.Hollow) {name : String} {e : Entry α}
    (he : f.find? name = some e) : ∃ content, e = .directory content ∧ content.Hollow := by
  induction f with
  | nil => cases he
  | file n a rest ih | symlink n target rest ih => exact h.elim
  | directory n content rest _ ih =>
    rw [find?] at he
    split at he
    · exact ⟨content, (Option.some.inj he).symm, h.1⟩
    · exact ih h.2 he

/-- A directory is hollow if everything in it is. -/
theorem hollow_of_find? {f : Forest α} (hf : f.WellFormed)
    (h : ∀ name e, f.find? name = some e → ∃ content, e = .directory content ∧ content.Hollow) :
    f.Hollow := by
  induction f with
  | nil => trivial
  | file n a rest ih | symlink n target rest ih =>
    obtain ⟨content, hcontent, -⟩ := h n _ (if_pos rfl)
    cases hcontent
  | directory n content rest _ ih =>
    obtain ⟨-, hnew, -, hrest⟩ := hf
    obtain ⟨content', hcontent, hhollow⟩ := h n _ (if_pos rfl)
    obtain rfl := Entry.directory.inj hcontent
    refine ⟨hhollow, ih hrest fun name e he ↦ h name e ?_⟩
    have hne : n ≠ name := by
      rintro rfl
      exact hnew (find?_isSome.1 (by rw [he]; rfl))
    rw [find?, if_neg hne, he]

theorem Hollow.contentAt {f g : Forest α} (h : f.Hollow) {loc : List String}
    (hg : f.contentAt loc = some g) : g.Hollow := by
  induction loc generalizing f with
  | nil => exact Option.some.inj hg ▸ h
  | cons name loc ih =>
    obtain ⟨content, hfind, hg⟩ := contentAt_cons_eq_some.1 hg
    obtain ⟨content', hcontent, hhollow⟩ := h.of_find? hfind
    obtain rfl := Entry.directory.inj hcontent
    exact ih hhollow hg

theorem Hollow.without {f : Forest α} (h : f.Hollow) (loc : List String) :
    (f.without gone loc).Hollow := by
  induction f generalizing loc with
  | nil => trivial
  | file n a rest ih | symlink n target rest ih => exact h.elim
  | directory n content rest ihcontent ih =>
    rw [Forest.without]
    split
    · exact ih h.2 loc
    · exact ⟨ihcontent h.1 _, ih h.2 loc⟩

/-- An empty directory is one in which nothing is found. -/
theorem eq_nil_of_find? {f : Forest α} (h : ∀ name, f.find? name = none) : f = nil := by
  rcases f with _ | ⟨n, a, rest⟩ | ⟨n, target, rest⟩ | ⟨n, content, rest⟩
  · rfl
  all_goals
    have := h n
    rw [find?, if_pos rfl] at this
    cases this

end Forest

namespace FileSystem

variable {α : Type} {fs : FileSystem α} {p : Path} {gone : List String → Bool} {loc : List String}

/-- The file system without the entries at some locations. -/
@[grind =] def without (gone : List String → Bool) (fs : FileSystem α) : FileSystem α :=
  { fs with content := fs.content.without gone [] }

theorem without_none (fs : FileSystem α) : fs.without (fun _ ↦ false) = fs :=
  congrArg (fun content ↦ FileSystem.mk content fs.cwd) (Forest.without_none [] fs.content)

/-- **A path that leads anywhere** leads where it led. -/
theorem resolve_without (hfs : fs.content.WellFormed) (h : (fs.without gone).resolve p = .ok loc) :
    fs.resolve p = .ok loc := by
  have hfollow : ∀ (next next' : List String → List String → Except OSError (List String)),
      (∀ loc parts loc', next loc parts = .ok loc' → next' loc parts = .ok loc') →
      ∀ parts loc loc', follow (fs.without gone).content next loc parts = .ok loc' →
        follow fs.content next' loc parts = .ok loc' := by
    intro next next' hnext parts
    induction parts with
    | nil => exact fun loc loc' h ↦ h
    | cons name parts ih =>
      intro loc loc' h
      rw [follow] at h ⊢
      rcases hg' : (fs.without gone).content.contentAt loc with _ | g'
      · rw [hg'] at h
        cases h
      · obtain ⟨-, g, hg, rfl⟩ := (Forest.contentAt_without hfs [] loc).1 hg'
        rw [hg'] at h
        rw [hg]
        dsimp only at h ⊢
        split_ifs at h ⊢ with hdots
        · exact ih _ _ h
        · rw [Forest.find?_without (hfs.contentAt hg)] at h
          by_cases hgone : gone ([] ++ loc ++ [name]) = true
          · rw [if_pos hgone] at h
            cases h
          · rw [if_neg hgone] at h
            rcases he : g.find? name with _ | a | target | content
            · rw [he] at h
              cases h
            · rw [he] at h
              exact ih _ _ h
            · rw [he] at h
              exact hnext _ _ _ h
            · rw [he] at h
              exact ih _ _ h
  have hparts : ∀ n parts loc loc', resolveParts (fs.without gone).content n loc parts = .ok loc' →
      resolveParts fs.content n loc parts = .ok loc' := by
    intro n
    induction n with
    | zero => exact fun parts loc loc' h ↦ hfollow _ _ (fun _ _ _ h ↦ h) parts loc loc' h
    | succ n ih =>
      exact fun parts loc loc' h ↦ hfollow _ _ (fun loc parts loc' h ↦ ih parts loc loc' h)
        parts loc loc' h
  exact hparts maxLinks p.parts _ loc h

/-- The location of the entry that a path stands for. -/
@[grind =] def place (fs : FileSystem α) (p : Path) : Option (List String) :=
  match fs.locate p with
  | .ok (loc, name) => some (loc ++ [name])
  | .error _ => none

theorem place_eq_some {fs : FileSystem α} {l : List String} : fs.place p = some l ↔
    ∃ loc name, fs.locate p = .ok (loc, name) ∧ l = loc ++ [name] := by
  unfold place
  rcases fs.locate p with e | ⟨loc, name⟩
  · simp
  · simp [eq_comm]

theorem locate_without (hfs : fs.content.WellFormed) {name : String}
    (h : (fs.without gone).locate p = .ok (loc, name)) : fs.locate p = .ok (loc, name) := by
  unfold locate at h ⊢
  split at h
  · cases h
  · next n hlast =>
    split_ifs at h ⊢ with hdots
    obtain ⟨loc', hresolve, heq⟩ := map_eq_ok.1 h
    rw [resolve_without hfs hresolve]
    exact congrArg _ heq

/-- **Removing an entry**: the one at the place of the path, which is left out from now on. -/
theorem eraseAt_place (hfs : fs.content.WellFormed) {name : String}
    (h : (fs.without gone).locate p = .ok (loc, name)) :
    fs.place p = some (loc ++ [name]) ∧
      { fs.without gone with content := (fs.without gone).content.eraseAt loc name } =
        fs.without (Forest.andAt gone (loc ++ [name])) := by
  refine ⟨place_eq_some.2 ⟨loc, name, locate_without hfs h, rfl⟩, ?_⟩
  have herase : (fs.content.without gone []).eraseAt loc name =
      fs.content.without (Forest.andAt gone (loc ++ [name])) [] := Forest.eraseAt_without hfs [] loc name
  show FileSystem.mk ((fs.content.without gone []).eraseAt loc name) fs.cwd = _
  rw [herase]
  rfl

end FileSystem

end Nublado
