import Nublado.Foundations.Erasing

/-!
# Sweeping empty directories away

A list of directories is visited, and each is removed if it is empty when its turn comes. `Sweep` is a
visit in which nothing went wrong: every directory was still there at its turn.

The list is **closed** if it has, with a directory, every subdirectory of it. What a sweep of such a
list removes are hollow directories (`Sweep.hollow`), and everything in what is removed is removed
(`Sweep.below`).

* No empty directory of the list remains if and only if all hollow ones are removed
  (`Sweep.forall_gone_iff`).
* All hollow ones are removed if and only if in each of them the subdirectories were visited before
  the directory itself (`Sweep.forall_gone_iff_childrenFirst`). One that was visited too early is not
  visited again: a second path to it would also be a second path to the empty directory below, and
  that is gone after the first visit (`Sweep.unique`).
* What is left then is the tree without the hollow directories (`Sweep.without_eq_iff`), in whatever
  order they were visited.
-/

namespace Nublado.Forest

variable {α : Type}

/-- Visit directories, each at its location, and remove those that are empty at their turn: from
what was gone before the visit to what is gone after it. -/
inductive Sweep (f : Forest α) (locate : Path → List String) :
    List Path → (List String → Bool) → (List String → Bool) → Prop
  | nil {gone : List String → Bool} : Sweep f locate [] gone gone
  | keep {v : Path} {rest : List Path} {gone gone' : List String → Bool} {g : Forest α} :
      g ≠ nil → (f.without gone []).contentAt (locate v) = some g →
      Sweep f locate rest gone gone' → Sweep f locate (v :: rest) gone gone'
  | drop {v : Path} {rest : List Path} {gone gone' : List String → Bool} :
      (f.without gone []).contentAt (locate v) = some nil →
      Sweep f locate rest (andAt gone (locate v)) gone' → Sweep f locate (v :: rest) gone gone'

/-- A list of directories that has the subdirectories of each. -/
structure ClosedBelow (f : Forest α) (locate : Path → List String) (l : List Path) : Prop where
  nodup : l.Nodup
  ne_root : ∀ v ∈ l, locate v ≠ []
  exists_content : ∀ v ∈ l, ∃ g, f.contentAt (locate v) = some g
  child : ∀ v ∈ l, ∀ g, f.contentAt (locate v) = some g → ∀ name ∈ g.dirnames,
    v.child name ∈ l ∧ locate (v.child name) = locate v ++ [name]

/-- The subdirectories of a hollow directory come before it. -/
def ChildrenFirst (f : Forest α) (locate : Path → List String) (l : List Path) : Prop :=
  ∀ v ∈ l, ∀ g ∈ f.contentAt (locate v), g.Hollow → ∀ name ∈ g.dirnames,
    l.idxOf (v.child name) < l.idxOf v

instance decidableChildrenFirst (f : Forest α) (locate : Path → List String) (l : List Path) :
    Decidable (ChildrenFirst f locate l) :=
  inferInstanceAs (Decidable (∀ v ∈ l, ∀ g ∈ f.contentAt (locate v), g.Hollow →
    ∀ name ∈ g.dirnames, l.idxOf (v.child name) < l.idxOf v))

variable {f : Forest α} {locate : Path → List String} {gone gone' : List String → Bool}
  {l : List Path}

/-! ### What is left out -/

/-- An empty directory is left if everything in it is left out. -/
theorem without_eq_nil (hf : f.WellFormed) {loc : List String} :
    f.without gone loc = nil ↔ ∀ name ∈ f.names, gone (loc ++ [name]) = true := by
  constructor
  · intro hnil name hname
    have hfind : (f.without gone loc).find? name = none := by
      rw [hnil]
      rfl
    rw [find?_without hf] at hfind
    by_contra hkept
    rw [if_neg hkept, Option.map_eq_none_iff] at hfind
    exact find?_eq_none.1 hfind hname
  · intro hall
    refine eq_nil_of_find? fun name ↦ ?_
    rw [find?_without hf]
    by_cases hname : name ∈ f.names
    · exact if_pos (hall name hname)
    · rw [find?_eq_none.2 hname]
      split <;> rfl

/-- What is visited is not gone. -/
theorem not_gone_of_contentAt (hf : f.WellFormed) {loc : List String} {g : Forest α}
    (hne : loc ≠ []) (h : (f.without gone []).contentAt loc = some g) : gone loc = false :=
  ((contentAt_without hf [] loc).1 h).1 loc hne (List.prefix_refl loc)

/-- The content of a subdirectory. -/
theorem contentAt_concat {loc : List String} {name : String} {g content : Forest α}
    (hg : f.contentAt loc = some g) (hfind : g.find? name = some (.directory content)) :
    f.contentAt (loc ++ [name]) = some content := by
  rw [contentAt_append, hg]
  exact contentAt_cons_eq_some.2 ⟨content, hfind, rfl⟩

/-! ### Positions in a list -/

theorem idxOf_eq_of_nodup {v : Path} {pre post : List Path} (h : (pre ++ v :: post).Nodup) :
    (pre ++ v :: post).idxOf v = pre.length := by
  have hv : v ∉ pre := fun hpre ↦
    (List.nodup_append.1 h).2.2 v hpre v List.mem_cons_self rfl
  rw [List.idxOf_append_of_notMem hv, List.idxOf_cons_self, Nat.add_zero]

theorem idxOf_lt_of_mem {v w : Path} {pre post : List Path} (h : (pre ++ v :: post).Nodup)
    (hw : w ∈ pre) : (pre ++ v :: post).idxOf w < (pre ++ v :: post).idxOf v := by
  rw [idxOf_eq_of_nodup h, List.idxOf_append_of_mem hw]
  exact List.idxOf_lt_length_of_mem hw

theorem mem_of_idxOf_lt {v w : Path} {pre post : List Path} (h : (pre ++ v :: post).Nodup)
    (hlt : (pre ++ v :: post).idxOf w < (pre ++ v :: post).idxOf v) : w ∈ pre := by
  by_contra hw
  rw [idxOf_eq_of_nodup h, List.idxOf_append_of_notMem hw] at hlt
  omega

/-! ### Closed lists -/

/-- A closed list has the directories below each of its directories. -/
theorem ClosedBelow.below (hl : ClosedBelow f locate l) (hf : f.WellFormed) {v : Path}
    (hv : v ∈ l) {g content : Forest α} (hg : f.contentAt (locate v) = some g)
    {names : List String} (hnames : g.contentAt names = some content) :
    let w : Path := { v with parts := v.parts ++ names }
    w ∈ l ∧ locate w = locate v ++ names := by
  induction names generalizing v g with
  | nil => simpa using hv
  | cons name names ih =>
    obtain ⟨c, hfind, hc⟩ := contentAt_cons_eq_some.1 hnames
    obtain ⟨hchild, hlocate⟩ :=
      hl.child v hv g hg name ((mem_dirnames (hf.contentAt hg)).2 ⟨c, hfind⟩)
    have hat : f.contentAt (locate (v.child name)) = some c := by
      rw [hlocate]
      exact contentAt_concat hg hfind
    obtain ⟨hmem, hlocate'⟩ := ih hchild hat hc
    have hpath : ({ v.child name with parts := (v.child name).parts ++ names } : Path) =
        { v with parts := v.parts ++ name :: names } := by
      simp [Path.child]
    rw [hpath] at hmem hlocate'
    exact ⟨hmem, by rw [hlocate', hlocate, List.append_assoc]; rfl⟩

namespace Sweep

/-- A sweep of a list goes over its parts in turn. -/
theorem split {pre post : List Path} (h : Sweep f locate (pre ++ post) gone gone') :
    ∃ gone₁, Sweep f locate pre gone gone₁ ∧ Sweep f locate post gone₁ gone' := by
  induction pre generalizing gone with
  | nil => exact ⟨gone, nil, h⟩
  | cons v pre ih =>
    cases h with
    | keep hne hat hrest =>
      obtain ⟨gone₁, hpre, hpost⟩ := ih hrest
      exact ⟨gone₁, keep hne hat hpre, hpost⟩
    | drop hat hrest =>
      obtain ⟨gone₁, hpre, hpost⟩ := ih hrest
      exact ⟨gone₁, drop hat hpre, hpost⟩

/-- What is gone stays gone. -/
theorem mono (h : Sweep f locate l gone gone') {loc : List String} (hgone : gone loc = true) :
    gone' loc = true := by
  induction h with
  | nil => exact hgone
  | keep _ _ _ ih => exact ih hgone
  | drop _ _ ih => exact ih (by rw [andAt, hgone, Bool.true_or])

/-- What goes is in the list. -/
theorem origin (h : Sweep f locate l gone gone') {loc : List String} (hgone : gone' loc = true) :
    gone loc = true ∨ ∃ v ∈ l, locate v = loc := by
  induction h with
  | nil => exact Or.inl hgone
  | keep _ _ _ ih =>
    refine (ih hgone).imp_right fun hv ↦ ?_
    obtain ⟨v, hv, hloc⟩ := hv
    exact ⟨v, List.mem_cons_of_mem _ hv, hloc⟩
  | @drop v _ _ _ _ _ ih =>
    rcases ih hgone with hgone | ⟨w, hw, hloc⟩
    · rcases eq_or_ne loc (locate v) with rfl | hne
      · exact Or.inr ⟨v, List.mem_cons_self, rfl⟩
      · exact Or.inl ((andAt_of_ne hne).symm.trans hgone)
    · exact Or.inr ⟨w, List.mem_cons_of_mem _ hw, hloc⟩

/-- What is visited was there at the start. -/
theorem not_gone (h : Sweep f locate l gone gone') (hf : f.WellFormed) {v : Path} (hv : v ∈ l)
    (hne : locate v ≠ []) : gone (locate v) = false := by
  obtain ⟨pre, post, rfl⟩ := List.append_of_mem hv
  obtain ⟨gone₁, hpre, hpost⟩ := h.split
  have hvisited : gone₁ (locate v) = false := by
    cases hpost with
    | keep _ hat _ => exact not_gone_of_contentAt hf hne hat
    | drop hat _ => exact not_gone_of_contentAt hf hne hat
  refine Bool.eq_false_iff.2 fun hgone ↦ ?_
  rw [hpre.mono hgone] at hvisited
  cases hvisited

/-- **What is gone**: directories in which there is nothing but directories, together with everything
in them. -/
def Cleared (f : Forest α) (gone : List String → Bool) : Prop :=
  ∀ loc, gone loc = true →
    ∃ g, f.contentAt loc = some g ∧ g.Hollow ∧ ∀ name ∈ g.names, gone (loc ++ [name]) = true

theorem cleared_andAt (hf : f.WellFormed) (hgone : Cleared f gone) {loc : List String}
    (hat : (f.without gone []).contentAt loc = some Forest.nil) : Cleared f (andAt gone loc) := by
  obtain ⟨-, g, hg, hnil⟩ := (contentAt_without hf [] loc).1 hat
  have hall := (without_eq_nil (hf.contentAt hg)).1 hnil.symm
  have hstill : ∀ loc', gone loc' = true → andAt gone loc loc' = true :=
    fun loc' h ↦ by rw [andAt, h, Bool.true_or]
  intro loc' hloc'
  rcases eq_or_ne loc' loc with rfl | hne
  · refine ⟨g, hg, hollow_of_find? (hf.contentAt hg) fun name e he ↦ ?_,
      fun name hname ↦ hstill _ (hall name hname)⟩
    -- Each entry is gone, so it is a hollow directory.
    have hname : name ∈ g.names := find?_isSome.1 (by rw [he]; rfl)
    obtain ⟨c, hc, hhollow, -⟩ := hgone _ (hall name hname)
    rw [contentAt_append, List.nil_append, hg] at hc
    obtain ⟨content, hfind, hcontent⟩ := contentAt_cons_eq_some.1 hc
    obtain rfl := Option.some.inj hcontent
    exact ⟨content, Option.some.inj (he.symm.trans hfind), hhollow⟩
  · obtain ⟨g', hg', hhollow, hnames⟩ := hgone loc' ((andAt_of_ne hne).symm.trans hloc')
    exact ⟨g', hg', hhollow, fun name hname ↦ hstill _ (hnames name hname)⟩

/-- **A sweep leaves cleared what was cleared.** -/
theorem cleared (h : Sweep f locate l gone gone') (hf : f.WellFormed) (hgone : Cleared f gone) :
    Cleared f gone' := by
  induction h with
  | nil => exact hgone
  | keep _ _ _ ih => exact ih hgone
  | drop hat _ ih => exact ih (cleared_andAt hf hgone hat)

/-- Everything below what is gone is gone. -/
theorem Cleared.below (hgone : Cleared f gone) {loc : List String} (hloc : gone loc = true)
    {g content : Forest α} (hg : f.contentAt loc = some g) {names : List String}
    (hnames : g.contentAt names = some content) : gone (loc ++ names) = true := by
  induction names generalizing loc g with
  | nil => rwa [List.append_nil]
  | cons name names ih =>
    obtain ⟨c, hfind, hc⟩ := contentAt_cons_eq_some.1 hnames
    obtain ⟨g', hg', -, hall⟩ := hgone loc hloc
    obtain rfl := Option.some.inj (hg.symm.trans hg')
    have hname : gone (loc ++ [name]) = true :=
      hall name (find?_isSome.1 (by rw [hfind]; rfl))
    have hrest := ih hname (contentAt_concat hg hfind) hc
    rwa [List.append_assoc] at hrest

/-- What is not gone is still there, with what is left of its content. -/
theorem Cleared.contentAt (hgone : Cleared f gone) (hf : f.WellFormed) {loc : List String}
    (hloc : gone loc = false) {g : Forest α} (hg : f.contentAt loc = some g) :
    (f.without gone []).contentAt loc = some (g.without gone loc) := by
  refine (contentAt_without hf [] loc).2 ⟨fun names hne hinit ↦ ?_, g, hg, rfl⟩
  obtain ⟨rest, rfl⟩ := hinit
  refine Bool.eq_false_iff.2 fun hnames ↦ ?_
  rw [contentAt_append] at hg
  obtain ⟨g', hg', hg⟩ := Option.bind_eq_some_iff.1 hg
  rw [List.nil_append] at hnames
  rw [hgone.below hnames hg' hg] at hloc
  cases hloc

/-! ### Sweeps from the start -/

variable (h : Sweep f locate l (fun _ ↦ false) gone) (hf : f.WellFormed)
  (hl : ClosedBelow f locate l)
include h hf

theorem cleared_of_start : Cleared f gone :=
  h.cleared hf fun _ hnone ↦ by cases hnone

/-- **What is removed** is hollow and in the list. -/
theorem hollow {loc : List String} (hloc : gone loc = true) :
    (∃ v ∈ l, locate v = loc) ∧ ∃ g, f.contentAt loc = some g ∧ g.Hollow := by
  obtain ⟨g, hg, hhollow, -⟩ := h.cleared_of_start hf loc hloc
  refine ⟨?_, g, hg, hhollow⟩
  rcases h.origin hloc with hnone | hv
  · cases hnone
  · exact hv

include hl

/-- **There is one path to a hollow directory** in a list that is swept. -/
theorem unique {v w : Path} (hv : v ∈ l) (hw : w ∈ l) (hvw : locate v = locate w) {g : Forest α}
    (hg : f.contentAt (locate v) = some g) (hhollow : g.Hollow) : v = w := by
  by_contra hne
  -- Both paths lead to the same empty directory.
  obtain ⟨names, hnil⟩ := hhollow.exists_nil
  obtain ⟨hmemv, hlocv⟩ := hl.below hf hv hg hnil
  obtain ⟨hmemw, hlocw⟩ := hl.below hf hw (hvw ▸ hg) hnil
  have hempty : f.contentAt (locate v ++ names) = some Forest.nil := by
    rw [contentAt_append, hg]
    exact hnil
  have hsecond : ∀ {a b : Path} {pre post : List Path}, l = pre ++ a :: post → b ∈ post →
      locate a = locate v ++ names → locate b = locate v ++ names → False := by
    rintro a b pre post rfl hb ha hb'
    have hroot : locate b ≠ [] :=
      hl.ne_root b (List.mem_append_right _ (List.mem_cons_of_mem _ hb))
    obtain ⟨gone₁, hpre, hpost⟩ := h.split
    cases hpost with
    | keep hkept hat _ =>
      -- An empty directory is not kept.
      obtain ⟨-, g', hg', rfl⟩ := (contentAt_without hf [] _).1 hat
      rw [ha, hempty] at hg'
      obtain rfl := Option.some.inj hg'
      exact hkept rfl
    | drop _ hrest =>
      have hthere := hrest.not_gone hf hb hroot
      rw [hb', ← ha, andAt_self] at hthere
      cases hthere
  have hdistinct : ({ v with parts := v.parts ++ names } : Path) ≠
      { w with parts := w.parts ++ names } := by
    intro heq
    obtain ⟨hanchor, hparts⟩ := Path.mk.inj heq
    refine hne ?_
    obtain ⟨vanchor, vparts⟩ := v
    obtain ⟨wanchor, wparts⟩ := w
    obtain rfl : vanchor = wanchor := hanchor
    exact congrArg _ (List.append_cancel_right hparts)
  obtain ⟨pre, post, hsplit⟩ := List.append_of_mem hmemv
  rw [hsplit] at hmemw
  rcases List.mem_append.1 hmemw with hpre | hpost
  · obtain ⟨pre₁, pre₂, rfl⟩ := List.append_of_mem hpre
    exact hsecond (by rw [hsplit, List.append_assoc, List.cons_append])
      (List.mem_append_right pre₂ List.mem_cons_self) (hlocw.trans (by rw [hvw])) hlocv
  · rcases List.mem_cons.1 hpost with heq | hpost
    · exact hdistinct heq.symm
    · exact hsecond hsplit hpost hlocv (hlocw.trans (by rw [hvw]))

/-- **No empty directory of the list remains** if and only if all hollow ones are removed. -/
theorem forall_gone_iff :
    (∀ v ∈ l, (f.without gone []).contentAt (locate v) ≠ some Forest.nil) ↔
      ∀ v ∈ l, ∀ g, f.contentAt (locate v) = some g → g.Hollow → gone (locate v) = true := by
  have hcleared := h.cleared_of_start hf
  constructor
  · intro hnone v hv g hg hhollow
    by_contra hthere
    have hat := hcleared.contentAt hf (Bool.eq_false_iff.2 hthere) hg
    have hleft : (g.without gone (locate v)).Hollow := hhollow.without (locate v)
    obtain ⟨names, hnil⟩ := hleft.exists_nil
    obtain ⟨-, c, hc, -⟩ := (contentAt_without (hf.contentAt hg) _ _).1 hnil
    obtain ⟨hmem, hlocate⟩ := hl.below hf hv hg hc
    refine hnone _ hmem ?_
    rw [hlocate, contentAt_append, hat]
    exact hnil
  · intro hall v hv hnil
    obtain ⟨hkept, g, hg, hempty⟩ := (contentAt_without hf [] _).1 hnil
    have hentries := (without_eq_nil (hf.contentAt hg)).1 hempty.symm
    -- What is empty now is hollow, for everything in it is gone.
    have hhollow : g.Hollow := by
      refine hollow_of_find? (hf.contentAt hg) fun name e he ↦ ?_
      obtain ⟨c, hc, hhollow, -⟩ :=
        hcleared _ (hentries name (find?_isSome.1 (by rw [he]; rfl)))
      rw [List.nil_append, contentAt_append, hg] at hc
      obtain ⟨content, hfind, hcontent⟩ := contentAt_cons_eq_some.1 hc
      obtain rfl := Option.some.inj hcontent
      exact ⟨content, Option.some.inj (he.symm.trans hfind), hhollow⟩
    have hthere := hkept (locate v) (hl.ne_root v hv) (List.prefix_refl _)
    rw [List.nil_append, hall v hv g hg hhollow] at hthere
    cases hthere

/-- **All hollow directories are removed** if and only if the subdirectories of each are visited
before it. -/
theorem forall_gone_iff_childrenFirst :
    (∀ v ∈ l, ∀ g, f.contentAt (locate v) = some g → g.Hollow → gone (locate v) = true) ↔
      ChildrenFirst f locate l := by
  constructor
  · intro hall v hv g hg hhollow name hname
    obtain ⟨hw, hlocate⟩ := hl.child v hv g hg name hname
    obtain ⟨pre, post, hsplit⟩ := List.append_of_mem hv
    have hnodup := hl.nodup
    rw [hsplit] at hw hnodup
    by_contra hlater
    have hpost : v.child name ∈ post := by
      rcases List.mem_append.1 hw with hpre | hw
      · refine absurd ?_ hlater
        rw [hsplit]
        exact idxOf_lt_of_mem hnodup hpre
      · rcases List.mem_cons.1 hw with heq | hw
        · rw [heq] at hlocate
          simp at hlocate
        · exact hw
    have hchild : locate (v.child name) ≠ [] := by simp [hlocate]
    have hgone := hall v hv g hg hhollow
    have hsweep := h
    rw [hsplit] at hsweep
    obtain ⟨gone₁, -, hsweep⟩ := hsweep.split
    cases hsweep with
    | keep _ hat hrest =>
      -- It is still there after its turn, so that it goes when it is visited by another path.
      rcases hrest.origin hgone with hbefore | ⟨v', hv', hvv'⟩
      · rw [not_gone_of_contentAt hf (hl.ne_root v hv) hat] at hbefore
        cases hbefore
      · have hmem : v' ∈ l := hsplit ▸ List.mem_append_right _ (List.mem_cons_of_mem _ hv')
        obtain rfl := h.unique hf hl hv hmem hvv'.symm hg hhollow
        exact (List.nodup_cons.1 (List.nodup_append.1 hnodup).2.1).1 hv'
    | drop hat hrest =>
      -- It goes at its turn, so that the subdirectory is gone before it is visited.
      obtain ⟨-, g', hg', hnil⟩ := (contentAt_without hf [] _).1 hat
      obtain rfl := Option.some.inj (hg.symm.trans hg')
      obtain ⟨content, hfind⟩ := (mem_dirnames (hf.contentAt hg)).1 hname
      have hbefore := (without_eq_nil (hf.contentAt hg)).1 hnil.symm name
        (find?_isSome.1 (by rw [hfind]; rfl))
      have hthere := hrest.not_gone hf hpost hchild
      rw [List.nil_append, ← hlocate] at hbefore
      rw [andAt, hbefore] at hthere
      cases hthere
  · intro hfirst
    -- By induction over what is still to be visited: the hollow ones before it are gone.
    have hvisit : ∀ (post pre : List Path) (gone₁ : List String → Bool), l = pre ++ post →
        Sweep f locate post gone₁ gone → (∀ v ∈ pre, ∀ g, f.contentAt (locate v) = some g →
          g.Hollow → gone₁ (locate v) = true) →
        ∀ v ∈ l, ∀ g, f.contentAt (locate v) = some g → g.Hollow → gone (locate v) = true := by
      intro post
      induction post with
      | nil =>
        intro pre gone₁ hsplit hsweep hbefore v hv g hg hhollow
        rw [hsplit, List.append_nil] at hv
        exact hsweep.mono (hbefore v hv g hg hhollow)
      | cons v post ih =>
        intro pre gone₁ hsplit hsweep hbefore
        have hv : v ∈ l := hsplit ▸ List.mem_append_right _ List.mem_cons_self
        have hnodup := hl.nodup
        rw [hsplit] at hnodup
        have hcleared : ∀ g, f.contentAt (locate v) = some g → g.Hollow →
            g.without gone₁ (locate v) = Forest.nil := by
          intro g hg hhollow
          refine (without_eq_nil (hf.contentAt hg)).2 fun name hname ↦ ?_
          obtain ⟨e, he⟩ := Option.isSome_iff_exists.1 (find?_isSome.2 hname)
          obtain ⟨content, rfl, hcontent⟩ := hhollow.of_find? he
          have hdirname := (mem_dirnames (hf.contentAt hg)).2 ⟨content, he⟩
          obtain ⟨hw, hlocate⟩ := hl.child v hv g hg name hdirname
          have hearlier := hfirst v hv g hg hhollow name hdirname
          rw [hsplit] at hearlier
          rw [← hlocate]
          refine hbefore _ (mem_of_idxOf_lt hnodup hearlier) content ?_ hcontent
          rw [hlocate]
          exact contentAt_concat hg he
        have hsplit' : l = pre ++ [v] ++ post := by
          rw [hsplit, List.append_assoc]
          rfl
        cases hsweep with
        | @keep _ _ _ _ g' hkept hat hrest =>
          refine ih (pre ++ [v]) gone₁ hsplit' hrest fun w hw g hg hhollow ↦ ?_
          rcases List.mem_append.1 hw with hw | hw
          · exact hbefore w hw g hg hhollow
          · obtain rfl := List.mem_singleton.1 hw
            obtain ⟨-, g'', hg'', rfl⟩ := (contentAt_without hf [] _).1 hat
            obtain rfl := Option.some.inj (hg.symm.trans hg'')
            exact absurd (hcleared g hg hhollow) hkept
        | drop hat hrest =>
          refine ih (pre ++ [v]) (andAt gone₁ (locate v)) hsplit' hrest
            fun w hw g hg hhollow ↦ ?_
          rcases List.mem_append.1 hw with hw | hw
          · rw [andAt, hbefore w hw g hg hhollow, Bool.true_or]
          · obtain rfl := List.mem_singleton.1 hw
            exact andAt_self _ _
    exact hvisit l [] _ rfl h fun v hv ↦ absurd hv List.not_mem_nil

/-- **What is left is the tree without the hollow directories** if and only if all of them are
removed. -/
theorem without_eq_iff {hollowAt : List String → Bool}
    (hspec : ∀ loc, hollowAt loc = true ↔
      ∃ v ∈ l, locate v = loc ∧ ∃ g, f.contentAt loc = some g ∧ g.Hollow) :
    f.without gone [] = f.without hollowAt [] ↔
      ∀ v ∈ l, ∀ g, f.contentAt (locate v) = some g → g.Hollow → gone (locate v) = true := by
  constructor
  · intro heq v hv g hg hhollow
    by_contra hthere
    have hat := (h.cleared_of_start hf).contentAt hf (Bool.eq_false_iff.2 hthere) hg
    rw [heq] at hat
    have hkept := not_gone_of_contentAt hf (hl.ne_root v hv) hat
    rw [(hspec _).2 ⟨v, hv, rfl, g, hg, hhollow⟩] at hkept
    cases hkept
  · intro hall
    refine without_congr fun names _ ↦ Bool.eq_iff_iff.2 ?_
    rw [List.nil_append, hspec]
    constructor
    · intro hgone
      obtain ⟨⟨v, hv, hloc⟩, g, hg, hhollow⟩ := h.hollow hf hgone
      exact ⟨v, hv, hloc, g, hg, hhollow⟩
    · rintro ⟨v, hv, rfl, g, hg, hhollow⟩
      exact hall v hv g hg hhollow

end Sweep

end Nublado.Forest
