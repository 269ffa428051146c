import Nublado.Foundations.Except
import Nublado.Startup.Dask

/-!
# What the tidying does with the user's files

The tidying moves a file aside in which nothing is set, corrects the link of a file if that has the old
form, and leaves everything else alone.

* **A setting** is a value that is not null, at the end of a path of keys. `HasSetting` reads it from a
  file as it is; flensing a file keeps its settings and adds none (`hasSetting_flense`), so what
  `_fix_dashboard` finds in the flensed file is what the file has.
* **A link** is replaced in place. `Images.replaceChars` finds at least one occurrence of the old
  template, so the corrected link contains the new one (`contains_replaceChars`).
* **One file** after the tidying is described by `Tidied`, with everything that the results about the
  whole directory use; it has one case for each outcome of `_fix_dashboard` (`fixDashboard_cases`).
* **All files** are dealt with in the order in which they are listed. The flag that is returned is that
  of the last file in which something is set (`tidyFiles_flag`), not whether any file has the link. The
  inductions follow the loop, with one round of it in `tidyFiles_cons_ok`.
-/

namespace Nublado.Startup.DaskConfigurator

open Settings

/-! ### Links -/

section Texts

variable {val part : List Char}

theorem contains_iff : contains val part = true ↔ part <:+: val := by
  rw [contains, List.any_eq_true, List.infix_iff_prefix_suffix]
  constructor
  · rintro ⟨t, ht, hprefix⟩
    exact ⟨t, List.isPrefixOf_iff_prefix.1 hprefix, (List.mem_tails _ _).1 ht⟩
  · rintro ⟨t, hprefix, ht⟩
    exact ⟨t, (List.mem_tails _ _).2 ht, List.isPrefixOf_iff_prefix.2 hprefix⟩

/-- Where something is replaced, what it is replaced by is found afterwards. -/
theorem contains_replaceChars {old new : List Char} (hold : old ≠ [])
    (h : contains val old = true) : contains (Images.replaceChars old new 0 val) new = true := by
  rw [contains_iff] at h ⊢
  induction val with
  | nil => exact absurd (List.infix_nil.1 h) hold
  | cons c val ih =>
    rw [Images.replaceChars]
    split
    · exact (List.prefix_append _ _).isInfix
    · next hhead =>
      rcases List.infix_cons_iff.1 h with hprefix | htail
      · exact absurd (List.isPrefixOf_iff_prefix.2 hprefix) hhead
      · exact List.infix_cons (ih htail)

end Texts

section Configurator

variable {ν : Type} [DecidableEq ν]

/-! ### The settings of a file -/

/-- **A setting of a file**: a value that is not null. -/
def HasSetting (cfg : Config ν) (p : List (Scalar ν)) (v : Scalar ν) : Prop :=
  v ≠ .null ∧ (Settings.mapping cfg).get p = some (.value v)

/-- The file has the new link. -/
def NewLink (cfg : Config ν) : Prop :=
  ∃ val, HasSetting cfg linkPath (.str val) ∧ contains val new = true

/-- The file has a link that is new or will be corrected. -/
def Linked (cfg : Config ν) : Prop :=
  ∃ val, HasSetting cfg linkPath (.str val) ∧ (contains val new = true ∨ contains val old = true)

/-- The file has something that is no mapping where the link is looked for. -/
def Blocked (cfg : Config ν) : Prop :=
  ∃ v, HasSetting cfg [distributed] v ∨ HasSetting cfg [distributed, dashboard] v

variable {cfg raw : Config ν} {p : List (Scalar ν)} {v : Scalar ν}

omit [DecidableEq ν] in
theorem isNull_eq_false_iff : v.isNull = false ↔ v ≠ .null := by
  rcases v with _ | text | w <;> simp [Scalar.isNull]

theorem not_hasSetting_nil (cfg : Config ν) (v : Scalar ν) : ¬HasSetting cfg [] v := by
  rintro ⟨-, h⟩
  cases h

omit [DecidableEq ν] in
theorem prune_mapping_eq (raw : Config ν) :
    (Settings.mapping raw).prune Scalar.isNull = (flenseDict raw).map Settings.mapping := by
  rw [flenseDict, prune]
  split
  · split <;> rfl
  · next h =>
    have hraw : raw ≠ [] := by
      rintro rfl
      exact h rfl
    rw [if_neg hraw]
    rfl

/-- **Flensing keeps every setting**, and adds none. -/
theorem hasSetting_flense (hd : (Settings.mapping raw).Distinct) (h : flenseDict raw = some cfg) :
    HasSetting cfg p v ↔ HasSetting raw p v := by
  refine and_congr_right fun hv ↦ ?_
  have hget := get_prune hd (isNull_eq_false_iff.2 hv) p
  rw [prune_mapping_eq, h] at hget
  exact hget

theorem not_hasSetting_of_flense (hd : (Settings.mapping raw).Distinct) (h : flenseDict raw = none) :
    ¬HasSetting raw p v := by
  rintro ⟨hv, hraw⟩
  have hget := (get_prune hd (isNull_eq_false_iff.2 hv) p).2 hraw
  rw [prune_mapping_eq, h] at hget
  cases hget

omit [DecidableEq ν] in
theorem prune_of_flense (h : flenseDict raw = some cfg) :
    (Settings.mapping cfg).prune Scalar.isNull = some (Settings.mapping cfg) := by
  have hprune := prune_mapping_eq raw
  rw [h] at hprune
  exact prune_prune _ hprune

omit [DecidableEq ν] in
theorem flense_of_prune (h : (Settings.mapping cfg).prune Scalar.isNull = some (.mapping cfg)) :
    flenseDict cfg = some cfg := by
  rw [prune_mapping_eq] at h
  obtain ⟨es, hes, heq⟩ := Option.map_eq_some_iff.1 h
  rw [hes, mapping.inj heq]

/-- What has been flensed has no null values. -/
theorem hasSetting_iff_get (h : flenseDict cfg = some cfg) :
    HasSetting cfg p v ↔ (Settings.mapping cfg).get p = some (.value v) := by
  refine ⟨And.right, fun hget ↦ ⟨?_, hget⟩⟩
  exact isNull_eq_false_iff.1 (drop_of_get (prune_of_flense h) hget)

/-! ### Correcting the link -/

theorem getItem_ok_iff {s t : Settings (Scalar ν) (Scalar ν)} {key : Scalar ν} :
    getItem s key = .ok t ↔ s.get [key] = some t := by
  rcases s with v | es
  · simp [getItem]
  · rw [getItem, get_mapping_cons]
    rcases es.lookup key with _ | u <;> simp

theorem getItem_typeError_iff {s : Settings (Scalar ν) (Scalar ν)} {key : Scalar ν} :
    getItem s key = .error .typeError ↔ ∃ v, s = .value v := by
  rcases s with v | es
  · simp [getItem]
  · rw [getItem]
    rcases es.lookup key with _ | u <;> simp

theorem getLink_ok_iff {s : Settings (Scalar ν) (Scalar ν)} :
    getLink cfg = .ok s ↔ (Settings.mapping cfg).get linkPath = some s := by
  have hpath : (linkPath : List (Scalar ν)) = [distributed] ++ ([dashboard] ++ [link]) := rfl
  rw [getLink, bind_eq_ok, hpath, get_append, Option.bind_eq_some_iff]
  refine exists_congr fun a ↦ and_congr getItem_ok_iff ?_
  rw [bind_eq_ok, get_append, Option.bind_eq_some_iff]
  exact exists_congr fun b ↦ and_congr getItem_ok_iff getItem_ok_iff

/-- The lookup of the link raises a `TypeError` if there is no mapping where it goes on. -/
theorem getLink_typeError_iff :
    getLink cfg = .error .typeError ↔ ∃ v, (Settings.mapping cfg).get [distributed] = some (.value v) ∨
      (Settings.mapping cfg).get [distributed, dashboard] = some (.value v) := by
  have hpath : [distributed, dashboard] = [distributed] ++ [(dashboard : Scalar ν)] := rfl
  rw [getLink, bind_eq_error, hpath, get_append]
  constructor
  · rintro (h | ⟨a, ha, h⟩)
    · obtain ⟨v, hv⟩ := getItem_typeError_iff.1 h
      cases hv
    · rw [getItem_ok_iff] at ha
      rcases bind_eq_error.1 h with h | ⟨b, hb, h⟩
      · obtain ⟨v, rfl⟩ := getItem_typeError_iff.1 h
        exact ⟨v, Or.inl ha⟩
      · obtain ⟨v, rfl⟩ := getItem_typeError_iff.1 h
        rw [getItem_ok_iff] at hb
        exact ⟨v, Or.inr (by rw [ha, Option.bind_some, hb])⟩
  · rintro ⟨v, h | h⟩
    · refine Or.inr ⟨_, getItem_ok_iff.2 h, bind_eq_error.2 (Or.inl ?_)⟩
      exact getItem_typeError_iff.2 ⟨v, rfl⟩
    · obtain ⟨a, ha, hb⟩ := Option.bind_eq_some_iff.1 h
      refine Or.inr ⟨a, getItem_ok_iff.2 ha, bind_eq_error.2 (Or.inr ⟨_, getItem_ok_iff.2 hb, ?_⟩)⟩
      exact getItem_typeError_iff.2 ⟨v, rfl⟩

theorem blocked_iff (hcfg : flenseDict cfg = some cfg) :
    Blocked cfg ↔ getLink cfg = .error .typeError := by
  rw [getLink_typeError_iff]
  exact exists_congr fun v ↦ or_congr (hasSetting_iff_get hcfg) (hasSetting_iff_get hcfg)

/-- The link of a file is one text. -/
theorem HasSetting.link_unique {val val' : List Char} (h : HasSetting cfg linkPath (.str val))
    (h' : HasSetting cfg linkPath (.str val')) : val = val' := by
  have heq := h.2.symm.trans h'.2
  exact Scalar.str.inj (value.inj (Option.some.inj heq))

theorem replaceAt_linkPath (cfg : Config ν) (x : Settings (Scalar ν) (Scalar ν)) :
    ∃ cfg', (Settings.mapping cfg).replaceAt x linkPath = .mapping cfg' := ⟨_, rfl⟩

/-- A link of the old form is corrected. -/
theorem fixDashboard_old {val : List Char} (hlink : getLink cfg = .ok (.value (.str val)))
    (hnew : contains val new = false) (hold : contains val old = true) (cfg' : Config ν)
    (hcfg : (Settings.mapping cfg).replaceAt (.value (.str (Images.replaceChars old new 0 val)))
      linkPath = .mapping cfg') :
    fixDashboard cfg = .ok ⟨true, some cfg', true⟩ := by
  have hreplaced : contains (Images.replaceChars old new 0 val) new = true :=
    contains_replaceChars (by decide) hold
  have hne : Images.replaceChars old new 0 val ≠ val := by
    intro heq
    rw [heq, hnew] at hreplaced
    cases hreplaced
  simp only [fixDashboard, hlink, hnew, hold, if_neg hne, hcfg, Bool.not_true, Bool.false_eq_true,
    if_false]

/-- A file whose link is no text is left alone. -/
theorem fixDashboard_not_str {s : Settings (Scalar ν) (Scalar ν)} (hlink : getLink cfg = .ok s)
    (hs : ∀ val, s ≠ .value (.str val)) : fixDashboard cfg = .ok (.untouched false) := by
  rw [fixDashboard, hlink]
  rcases s with v | es
  · rcases v with _ | val | v
    · rfl
    · exact absurd rfl (hs val)
    · rfl
  · rfl

theorem fixDashboard_new {val : List Char} (hlink : getLink cfg = .ok (.value (.str val)))
    (hnew : contains val new = true) : fixDashboard cfg = .ok (.untouched true) := by
  rw [fixDashboard, hlink]
  exact if_pos hnew

/-- **What `_fix_dashboard` does**: nothing with a file that has the new link or no link, and it
corrects a link of the old form. -/
theorem fixDashboard_cases (hcfg : flenseDict cfg = some cfg) :
    (Blocked cfg ∧ fixDashboard cfg = .error .typeError) ∨
      ¬Blocked cfg ∧
        ((NewLink cfg ∧ fixDashboard cfg = .ok (.untouched true)) ∨
          (¬Linked cfg ∧ fixDashboard cfg = .ok (.untouched false)) ∨
            ∃ val cfg', HasSetting cfg linkPath (.str val) ∧ contains val new = false ∧
              contains val old = true ∧
              (Settings.mapping cfg).replaceAt
                (.value (.str (Images.replaceChars old new 0 val))) linkPath = .mapping cfg' ∧
              fixDashboard cfg = .ok ⟨true, some cfg', true⟩) := by
  rw [blocked_iff hcfg]
  rcases hlink : getLink cfg with e | s
  · rcases e with _ | _
    · refine Or.inr ⟨fun h ↦ (by cases h), Or.inr (Or.inl ⟨?_, by rw [fixDashboard, hlink]⟩)⟩
      rintro ⟨val, hval, -⟩
      rw [getLink_ok_iff.2 hval.2] at hlink
      cases hlink
    · exact Or.inl ⟨rfl, by rw [fixDashboard, hlink]⟩
  · refine Or.inr ⟨fun h ↦ (by cases h), ?_⟩
    have hget := getLink_ok_iff.1 hlink
    by_cases hs : ∃ val, s = .value (.str val)
    · obtain ⟨val, rfl⟩ := hs
      have hval : HasSetting cfg linkPath (.str val) := (hasSetting_iff_get hcfg).2 hget
      rcases hnew : contains val new with _ | _
      · rcases hold : contains val old with _ | _
        · refine Or.inr (Or.inl ⟨?_, ?_⟩)
          · rintro ⟨val', hval', h⟩
            rw [← hval.link_unique hval', hnew, hold] at h
            simp at h
          · simp only [fixDashboard, hlink, hnew, hold, Bool.not_false, Bool.false_eq_true, if_false,
              if_true]
        · obtain ⟨cfg', hcfg'⟩ := replaceAt_linkPath cfg _
          exact Or.inr (Or.inr ⟨val, cfg', hval, hnew, hold, hcfg',
            fixDashboard_old hlink hnew hold cfg' hcfg'⟩)
      · exact Or.inl ⟨⟨val, hval, hnew⟩, fixDashboard_new hlink hnew⟩
    · have hnot : ∀ val, s ≠ .value (.str val) := fun val h ↦ hs ⟨val, h⟩
      refine Or.inr (Or.inl ⟨?_, fixDashboard_not_str hlink hnot⟩)
      rintro ⟨val, hval, -⟩
      exact hnot val (Option.some.inj (hget.symm.trans hval.2))

/-! ### One file -/

/-- **A corrected link** is the only setting that changes. -/
theorem hasSetting_corrected (hcfg : flenseDict cfg = some cfg) {val val' : List Char}
    (hval : HasSetting cfg linkPath (.str val)) {cfg' : Config ν}
    (hset : (Settings.mapping cfg).replaceAt (.value (.str val')) linkPath = .mapping cfg') :
    flenseDict cfg' = some cfg' ∧
      ∀ p v, HasSetting cfg' p v ↔ if p = linkPath then v = .str val' else HasSetting cfg p v := by
  have hpruned : flenseDict cfg' = some cfg' := by
    refine flense_of_prune ?_
    rw [← hset]
    exact prune_replaceAt (prune_of_flense hcfg) hval.2 rfl
  refine ⟨hpruned, fun p v ↦ ?_⟩
  rw [hasSetting_iff_get hpruned, ← hset, get_replaceAt hval.2, hasSetting_iff_get hcfg]

theorem linked_flense (hd : (Settings.mapping raw).Distinct) (h : flenseDict raw = some cfg) :
    Linked cfg ↔ Linked raw :=
  exists_congr fun _ ↦ and_congr_left fun _ ↦ hasSetting_flense hd h

theorem newLink_flense (hd : (Settings.mapping raw).Distinct) (h : flenseDict raw = some cfg) :
    NewLink cfg ↔ NewLink raw :=
  exists_congr fun _ ↦ and_congr_left fun _ ↦ hasSetting_flense hd h

theorem blocked_flense (hd : (Settings.mapping raw).Distinct) (h : flenseDict raw = some cfg) :
    Blocked cfg ↔ Blocked raw :=
  exists_congr fun _ ↦ or_congr (hasSetting_flense hd h) (hasSetting_flense hd h)

theorem NewLink.linked (h : NewLink cfg) : Linked cfg := by
  obtain ⟨val, hval, hnew⟩ := h
  exact ⟨val, hval, Or.inl hnew⟩

omit [DecidableEq ν] in
theorem flense_flense (h : flenseDict raw = some cfg) : flenseDict cfg = some cfg :=
  flense_of_prune (prune_of_flense h)

/-- A file is dealt with unless it has something else where mappings are expected. -/
theorem fixDashboard_ok_iff (hcfg : flenseDict cfg = some cfg) :
    (∃ fixed, fixDashboard cfg = .ok fixed) ↔ ¬Blocked cfg := by
  obtain ⟨hblocked, herror⟩ | ⟨hblocked, ⟨-, hok⟩ | ⟨-, hok⟩ | ⟨_, _, -, -, -, -, hok⟩⟩ :=
    fixDashboard_cases hcfg
  · refine iff_of_false ?_ fun h ↦ h hblocked
    rintro ⟨fixed, hok⟩
    rw [herror] at hok
    cases hok
  · exact iff_of_true ⟨_, hok⟩ hblocked
  · exact iff_of_true ⟨_, hok⟩ hblocked
  · exact iff_of_true ⟨_, hok⟩ hblocked

/-! ### Nothing but the link -/

/-- The link as it should be. -/
def corrected (val : List Char) : List Char :=
  if contains val new then val
  else if contains val old then Images.replaceChars old new 0 val
  else val

/-- A file with nothing but a link. -/
def withLink (val : List Char) : Config ν :=
  [(distributed, .mapping [(dashboard, .mapping [(link, .value (.str val))])])]

/-- **Nothing but the link**: this is all that is set in the file once the link is corrected. -/
def OnlyLink (raw : Config ν) : Prop :=
  ∃ val, flenseDict raw = some (withLink val) ∧ corrected val = newlink

theorem corrected_of_new {val : List Char} (h : contains val new = true) : corrected val = val :=
  if_pos h

theorem corrected_of_old {val : List Char} (hnew : contains val new = false)
    (hold : contains val old = true) : corrected val = Images.replaceChars old new 0 val := by
  rw [corrected, if_neg (by rw [hnew]; exact Bool.false_ne_true), if_pos hold]

theorem hasSetting_withLink (val : List Char) :
    HasSetting (withLink val : Config ν) linkPath (.str val) := by
  refine ⟨fun h ↦ (by cases h), ?_⟩
  simp [withLink, linkPath]

theorem replaceAt_withLink (val val' : List Char) :
    (Settings.mapping (withLink val : Config ν)).replaceAt (.value (.str val')) linkPath =
      .mapping (withLink val') := by
  simp [withLink, linkPath, replaceAt, setKey]

/-- A file with nothing but a link that is right or can be corrected is linked. -/
theorem OnlyLink.linked (hd : (Settings.mapping raw).Distinct) (h : OnlyLink raw) : Linked raw := by
  obtain ⟨val, hval, hnewlink⟩ := h
  refine (linked_flense hd hval).1 ⟨val, hasSetting_withLink val, ?_⟩
  rw [corrected] at hnewlink
  split at hnewlink
  · next hnew => exact Or.inl hnew
  · split at hnewlink
    · next hold => exact Or.inr hold
    · rw [hnewlink]
      exact Or.inl rfl

/-- The tidied file is exactly what would be written if it has nothing but the link. -/
theorem goodlink_iff (hd : (Settings.mapping raw).Distinct) (hcfg : flenseDict raw = some cfg)
    {fixed : Fixed ν} (hfix : fixDashboard cfg = .ok fixed) :
    flenseDict (fixed.written.getD raw) = some goodlink ↔ OnlyLink raw := by
  have hflensed := flense_flense hcfg
  have hlinked : OnlyLink raw → Linked cfg := fun h ↦ (linked_flense hd hcfg).2 (h.linked hd)
  have hkept : ∀ val, flenseDict raw = some (withLink val) → HasSetting cfg linkPath (.str val) := by
    intro val hval
    obtain rfl : withLink val = cfg := Option.some.inj (hval.symm.trans hcfg)
    exact hasSetting_withLink val
  obtain ⟨-, herror⟩ | ⟨-, ⟨hnew, hok⟩ | ⟨hnot, hok⟩ | ⟨val, cfg', hval, hnew, hold, hset, hok⟩⟩ :=
    fixDashboard_cases hflensed
  · rw [herror] at hfix
    cases hfix
  · obtain rfl : Fixed.untouched true = fixed := Except.ok.inj (hok.symm.trans hfix)
    show flenseDict raw = some goodlink ↔ OnlyLink raw
    constructor
    · intro h
      exact ⟨newlink, h, corrected_of_new rfl⟩
    · rintro ⟨val, hraw, hnewlink⟩
      obtain ⟨val', hval', hnew'⟩ := hnew
      obtain rfl := (hkept val hraw).link_unique hval'
      rw [corrected_of_new hnew'] at hnewlink
      rw [hraw, hnewlink]
      rfl
  · obtain rfl : Fixed.untouched false = fixed := Except.ok.inj (hok.symm.trans hfix)
    refine iff_of_false (fun h ↦ hnot ?_) fun h ↦ hnot (hlinked h)
    obtain rfl : withLink newlink = cfg := Option.some.inj (h.symm.trans hcfg)
    exact ⟨newlink, hasSetting_withLink newlink, Or.inl rfl⟩
  · obtain rfl : (⟨true, some cfg', true⟩ : Fixed ν) = fixed := Except.ok.inj (hok.symm.trans hfix)
    obtain ⟨hpruned, hsetting⟩ := hasSetting_corrected hflensed hval hset
    show flenseDict cfg' = some goodlink ↔ OnlyLink raw
    rw [hpruned]
    constructor
    · intro h
      obtain rfl : cfg' = withLink newlink := Option.some.inj h
      have hback := replaceAt_replaceAt hval.2 (.value (.str (Images.replaceChars old new 0 val)))
        (.value (.str val))
      have hdcfg : (Settings.mapping cfg).Distinct := by
        have hprune := prune_mapping_eq raw
        rw [hcfg] at hprune
        exact Distinct.prune _ hd hprune
      rw [hset, replaceAt_withLink, replaceAt_self hdcfg hval.2] at hback
      refine ⟨val, by rw [hcfg, mapping.inj hback], ?_⟩
      rw [corrected_of_old hnew hold]
      have hlink := (hsetting linkPath _).1 (hasSetting_withLink newlink)
      rw [if_pos rfl] at hlink
      exact (Scalar.str.inj hlink).symm
    · rintro ⟨val', hraw, hnewlink⟩
      obtain rfl := (hkept val' hraw).link_unique hval
      obtain rfl : withLink val' = cfg := Option.some.inj (hraw.symm.trans hcfg)
      rw [← corrected_of_old hnew hold, hnewlink, replaceAt_withLink] at hset
      rw [← mapping.inj hset]
      rfl

/-- **A file after the tidying**, where something is set in it: its settings other than the link are
what they were, it has the new link if it was linked, and tidying it again does nothing. -/
structure Tidied (raw raw' : Config ν) (good : Bool) : Prop where
  setting_iff : ∀ p v, p ≠ linkPath → (HasSetting raw' p v ↔ HasSetting raw p v)
  good_iff : good = true ↔ Linked raw
  newLink_iff : NewLink raw' ↔ Linked raw
  goodlink_iff : flenseDict raw' = some goodlink ↔ OnlyLink raw
  settled : ∃ cfg, flenseDict raw' = some cfg ∧ fixDashboard cfg = .ok (.untouched good) ∧
    ∀ p v, HasSetting cfg p v ↔ HasSetting raw' p v

/-- **What the tidying makes of a file** in which something is set. -/
theorem tidied_of_fix (hd : (Settings.mapping raw).Distinct) (hcfg : flenseDict raw = some cfg)
    {fixed : Fixed ν} (hfix : fixDashboard cfg = .ok fixed) :
    Tidied raw (fixed.written.getD raw) fixed.good := by
  have hgoodlink := goodlink_iff hd hcfg hfix
  obtain ⟨-, herror⟩ | ⟨-, ⟨hnew, hok⟩ | ⟨hlinked, hok⟩ | ⟨val, cfg', hval, hnew, hold, hset, hok⟩⟩ :=
    fixDashboard_cases (flense_flense hcfg)
  · rw [herror] at hfix
    cases hfix
  · obtain rfl : Fixed.untouched true = fixed := Except.ok.inj (hok.symm.trans hfix)
    have hraw : NewLink raw := (newLink_flense hd hcfg).1 hnew
    exact ⟨fun p v _ ↦ Iff.rfl, iff_of_true rfl hraw.linked, iff_of_true hraw hraw.linked, hgoodlink,
      cfg, hcfg, hok, fun p v ↦ hasSetting_flense hd hcfg⟩
  · obtain rfl : Fixed.untouched false = fixed := Except.ok.inj (hok.symm.trans hfix)
    have hraw : ¬Linked raw := fun h ↦ hlinked ((linked_flense hd hcfg).2 h)
    exact ⟨fun p v _ ↦ Iff.rfl, iff_of_false Bool.false_ne_true hraw,
      iff_of_false (fun h ↦ hraw h.linked) hraw, hgoodlink, cfg, hcfg, hok,
      fun p v ↦ hasSetting_flense hd hcfg⟩
  · obtain rfl : (⟨true, some cfg', true⟩ : Fixed ν) = fixed := Except.ok.inj (hok.symm.trans hfix)
    obtain ⟨hpruned, hsetting⟩ := hasSetting_corrected (flense_flense hcfg) hval hset
    have hlink : HasSetting cfg' linkPath (.str (Images.replaceChars old new 0 val)) := by
      rw [hsetting, if_pos rfl]
    have hreplaced : contains (Images.replaceChars old new 0 val) new = true :=
      contains_replaceChars (by decide) hold
    have hraw : Linked raw := (linked_flense hd hcfg).1 ⟨val, hval, Or.inr hold⟩
    refine ⟨fun p v hp ↦ ?_, iff_of_true rfl hraw, iff_of_true ⟨_, hlink, hreplaced⟩ hraw, hgoodlink,
      cfg', hpruned, fixDashboard_new (getLink_ok_iff.2 hlink.2) hreplaced, fun p v ↦ Iff.rfl⟩
    rw [← hasSetting_flense hd hcfg, Option.getD_some, hsetting, if_neg hp]

/-! ### All files -/

variable {bk : String → String} {files files' : ConfigFiles ν} {r r' : Bool}
  {backups backups' : ConfigFiles ν}

/-- Something is set in the file. -/
def isSet (f : String × Config ν) : Bool := (flenseDict f.2).isSome

/-- **The last file in which something is set** has a link that is new or will be corrected. -/
def LastLinked (files : ConfigFiles ν) : Prop := ∃ f ∈ (files.filter isSet).getLast?, Linked f.2

/-- A file and what the tidying makes of it. -/
def TidiedFile (f f' : String × Config ν) : Prop := f'.1 = f.1 ∧ ∃ good, Tidied f.2 f'.2 good

/-- **One round of the loop**: a file is moved aside, or it is tidied and decides the flag. -/
theorem tidyFiles_cons_ok {fl : String} {obj : Config ν}
    (h : tidyFiles bk ((fl, obj) :: files) r backups = .ok (files', r', backups')) :
    (flenseDict obj = none ∧ ∃ b, tidyFiles bk files r b = .ok (files', r', backups')) ∨
      ∃ cfg fixed b rest, flenseDict obj = some cfg ∧ fixDashboard cfg = .ok fixed ∧
        tidyFiles bk files fixed.good b = .ok (rest, r', backups') ∧
        files' = (fl, fixed.written.getD obj) :: rest := by
  rw [tidyFiles] at h
  rcases hcfg : flenseDict obj with _ | cfg
  · rw [hcfg] at h
    exact Or.inl ⟨rfl, _, h⟩
  · rw [hcfg] at h
    obtain ⟨fixed, hfixed, h⟩ := bind_eq_ok.1 h
    obtain ⟨⟨rest, r₁, b₁⟩, hrest, h⟩ := bind_eq_ok.1 h
    obtain ⟨rfl, hpair⟩ := Prod.mk.inj (Except.ok.inj h)
    obtain ⟨rfl, rfl⟩ := Prod.mk.inj hpair
    exact Or.inr ⟨cfg, fixed, _, rest, rfl, hfixed, hrest, rfl⟩

/-- **What the loop leaves**: the files in which something is set, each tidied. -/
theorem tidyFiles_files (hd : ∀ f ∈ files, (Settings.mapping f.2).Distinct)
    (h : tidyFiles bk files r backups = .ok (files', r', backups')) :
    List.Forall₂ TidiedFile (files.filter isSet) files' := by
  induction files generalizing r backups files' with
  | nil =>
    obtain ⟨rfl, -⟩ := Prod.mk.inj (Except.ok.inj h)
    exact .nil
  | cons f files ih =>
    obtain ⟨fl, obj⟩ := f
    obtain ⟨hobj, hfiles⟩ := List.forall_mem_cons.1 hd
    obtain ⟨hnone, b, hrest⟩ | ⟨cfg, fixed, b, rest, hcfg, hfix, hrest, rfl⟩ := tidyFiles_cons_ok h
    · rw [List.filter_cons_of_neg (by simp [isSet, hnone])]
      exact ih hfiles hrest
    · rw [List.filter_cons_of_pos (by simp [isSet, hcfg])]
      exact .cons ⟨rfl, _, tidied_of_fix hobj hcfg hfix⟩ (ih hfiles hrest)

/-- **The flag after the loop** is that of the last file in which something is set. -/
theorem tidyFiles_flag (hd : ∀ f ∈ files, (Settings.mapping f.2).Distinct)
    (h : tidyFiles bk files r backups = .ok (files', r', backups')) :
    r' = true ↔ LastLinked files ∨ files.filter isSet = [] ∧ r = true := by
  induction files generalizing r backups files' with
  | nil =>
    obtain ⟨-, hpair⟩ := Prod.mk.inj (Except.ok.inj h)
    obtain ⟨rfl, -⟩ := Prod.mk.inj hpair
    simp [LastLinked]
  | cons f files ih =>
    obtain ⟨fl, obj⟩ := f
    obtain ⟨hobj, hfiles⟩ := List.forall_mem_cons.1 hd
    obtain ⟨hnone, b, hrest⟩ | ⟨cfg, fixed, b, rest, hcfg, hfix, hrest, rfl⟩ := tidyFiles_cons_ok h
    · rw [LastLinked, List.filter_cons_of_neg (by simp [isSet, hnone])]
      exact ih hfiles hrest
    · rw [LastLinked, List.filter_cons_of_pos (by simp [isSet, hcfg]), ih hfiles hrest, LastLinked,
        (tidied_of_fix hobj hcfg hfix).good_iff]
      rcases hlast : files.filter isSet with _ | ⟨g, l⟩
      · simp
      · simp [List.getLast?_cons_cons]

/-- **The second time**, the loop does nothing and comes to the same flag. -/
theorem tidyFiles_again (hd : ∀ f ∈ files, (Settings.mapping f.2).Distinct)
    (h : tidyFiles bk files r backups = .ok (files', r', backups')) (bk' : String → String)
    (b : ConfigFiles ν) : tidyFiles bk' files' r b = .ok (files', r', b) := by
  induction files generalizing r backups files' with
  | nil =>
    obtain ⟨rfl, hpair⟩ := Prod.mk.inj (Except.ok.inj h)
    obtain ⟨rfl, -⟩ := Prod.mk.inj hpair
    rfl
  | cons f files ih =>
    obtain ⟨fl, obj⟩ := f
    obtain ⟨hobj, hfiles⟩ := List.forall_mem_cons.1 hd
    obtain ⟨-, b₁, hrest⟩ | ⟨cfg, fixed, b₁, rest, hcfg, hfix, hrest, rfl⟩ := tidyFiles_cons_ok h
    · exact ih hfiles hrest
    · obtain ⟨cfg', hcfg', hfix', -⟩ := (tidied_of_fix hobj hcfg hfix).settled
      rw [tidyFiles, hcfg']
      refine bind_eq_ok.2 ⟨_, hfix', bind_eq_ok.2 ⟨_, ih hfiles hrest, rfl⟩⟩

/-- Files with which nothing is to be done stay as they are. -/
theorem tidyFiles_settled (h : ∀ f ∈ files, ∃ cfg good, flenseDict f.2 = some cfg ∧
    fixDashboard cfg = .ok (.untouched good)) (bk : String → String) (r : Bool)
    (b : ConfigFiles ν) : ∃ r', tidyFiles bk files r b = .ok (files, r', b) := by
  induction files generalizing r with
  | nil => exact ⟨r, rfl⟩
  | cons f files ih =>
    obtain ⟨fl, obj⟩ := f
    obtain ⟨⟨cfg, good, hcfg, hfix⟩, hfiles⟩ := List.forall_mem_cons.1 h
    obtain ⟨r', hrest⟩ := ih hfiles good
    refine ⟨r', ?_⟩
    rw [tidyFiles, hcfg]
    exact bind_eq_ok.2 ⟨_, hfix, bind_eq_ok.2 ⟨_, hrest, rfl⟩⟩

/-- The loop comes to its end if no file has something else where it looks for mappings. -/
theorem tidyFiles_ok_iff (hd : ∀ f ∈ files, (Settings.mapping f.2).Distinct) (bk : String → String)
    (r : Bool) (b : ConfigFiles ν) :
    (∃ x, tidyFiles bk files r b = .ok x) ↔ ∀ f ∈ files, ¬Blocked f.2 := by
  induction files generalizing r b with
  | nil => exact iff_of_true ⟨_, rfl⟩ fun f hf ↦ absurd hf List.not_mem_nil
  | cons f files ih =>
    obtain ⟨fl, obj⟩ := f
    obtain ⟨hobj, hfiles⟩ := List.forall_mem_cons.1 hd
    rw [List.forall_mem_cons]
    rcases hcfg : flenseDict obj with _ | cfg
    · have hblocked : ¬Blocked obj := by
        rintro ⟨v, h | h⟩
        · exact not_hasSetting_of_flense hobj hcfg h
        · exact not_hasSetting_of_flense hobj hcfg h
      rw [tidyFiles, hcfg, and_iff_right hblocked]
      exact ih hfiles _ _
    · rw [← blocked_flense hobj hcfg, ← fixDashboard_ok_iff (flense_flense hcfg), tidyFiles, hcfg]
      constructor
      · rintro ⟨x, h⟩
        obtain ⟨fixed, hfix, h⟩ := bind_eq_ok.1 h
        obtain ⟨y, hrest, -⟩ := bind_eq_ok.1 h
        exact ⟨⟨fixed, hfix⟩, (ih hfiles _ _).1 ⟨y, hrest⟩⟩
      · rintro ⟨⟨fixed, hfix⟩, hrest⟩
        obtain ⟨y, hy⟩ := (ih hfiles fixed.good
          (if fixed.backedUp then setKey b (bk fl) obj else b)).2 hrest
        exact ⟨_, bind_eq_ok.2 ⟨fixed, hfix, bind_eq_ok.2 ⟨y, hy, rfl⟩⟩⟩

end Configurator

end Nublado.Startup.DaskConfigurator
