import Nublado.Purger.HumanSize

/-!
# What sizes mean

A size is a numeral with a suffix, each with whitespace around it, and perhaps a final `B`. It should
stand for the product of the number and the suffix's multiplier if that is an integer, and everything
else should be a `ValueError`.

* `Quantity` says how a text is put together, and `Denotes` which number it stands for. What is read
  is the only way to put the text together: no suffix is mistaken for another
  (`extract_of_quantity`).
* Products are rounded unless the multiplier is a multiple of ten. One is not, and neither are powers of
  two. Half is added and the result truncated, which is not rounding below zero: there it changes even
  integers. Infinite numbers raise another exception.
* `meetsDocs_iff` says exactly for which texts this does no harm, and `sizes_rounded` has texts for
  which it does.
-/

namespace Nublado.Purger

/-! ### What should be returned -/

/-- The suffixes and their multipliers, with none of them as the first. -/
def documented : List (String × ℕ) :=
  [("", 1), ("k", 1000), ("K", 1000), ("M", 1000000), ("G", 1000000000), ("T", 1000000000000),
    ("P", 1000000000000000), ("E", 1000000000000000000), ("ki", 2 ^ 10), ("Ki", 2 ^ 10), ("Mi", 2 ^ 20),
    ("Gi", 2 ^ 30), ("Ti", 2 ^ 40), ("Pi", 2 ^ 50), ("Ei", 2 ^ 60)]

/-- The text is a number with a suffix of this multiplier, and perhaps a `B`. -/
def Quantity (v number : List Char) (mult : ℕ) : Prop :=
  ∃ before gap suffix gap' byte after, (suffix, mult) ∈ documented ∧ byte ∈ ["", "B", "b"] ∧
    Blank before ∧ Blank gap ∧ Blank gap' ∧ Blank after ∧
    v = before ++ (number ++ (gap ++ (suffix.toList ++ (gap' ++ (byte.toList ++ after)))))

/-- The text stands for this number. -/
def Denotes (v : List Char) (q : ℚ) : Prop :=
  ∃ number mult x, Quantity v number mult ∧ IsNumeral number x ∧ q = x * mult

/-- A `ValueError` is raised. -/
def RaisesValueError (result : Except SizeError ℤ) : Prop :=
  ∃ message, result = .error (.valueError message)

/-- **The promise** for a text: the number that it stands for is returned if that is an integer, and
otherwise a `ValueError` is raised. -/
def MeetsDocs (v : String) : Prop :=
  (∀ q, Denotes v.toList q →
    (∀ n : ℤ, q = n → validateHumanSizeBytes (.text v) = .ok n) ∧
    ((∀ n : ℤ, q ≠ n) → RaisesValueError (validateHumanSizeBytes (.text v)))) ∧
  ((∀ q, ¬ Denotes v.toList q) → RaisesValueError (validateHumanSizeBytes (.text v)))

/-- **Where rounding does no harm**: the number is finite, and unless its suffix is a decimal one, the
product is an integer that is not negative, or the text is that of an integer. -/
def Unharmed (v : String) : Prop :=
  ∀ number mult, Quantity v.toList number mult → ¬ IsInfinity number ∧
    ∀ x, IsNumeral number x → mult % 10 = 0 ∨
      (∃ n : ℤ, x * mult = n) ∧ (0 ≤ x * mult ∨ mult = 1 ∧ ∃ n, intOf number = some n)

/-! ### Rounding -/

theorem truncate_intCast (n : ℤ) : truncate n = n := by
  unfold truncate
  split_ifs
  · exact Int.floor_intCast n
  · exact Int.ceil_intCast n

/-- Adding half and truncating keeps the integers that are not negative, and no others. -/
theorem truncate_half {q : ℚ} {n : ℤ} (hq : q = n) : truncate (q + 1 / 2) = n ↔ 0 ≤ q := by
  obtain rfl := hq
  constructor
  · intro h
    by_contra hneg
    have hneg' : n ≤ -1 := by
      have : (n : ℚ) < 0 := not_le.1 hneg
      have : n < 0 := by exact_mod_cast this
      omega
    have hlt : ¬ (0 : ℚ) ≤ n + 1 / 2 := by
      have : (n : ℚ) ≤ -1 := by exact_mod_cast hneg'
      intro h
      linarith
    rw [truncate, if_neg hlt] at h
    have := (Int.ceil_eq_iff.1 h).2
    linarith
  · intro h
    have hle : (0 : ℚ) ≤ n + 1 / 2 := by linarith
    rw [truncate, if_pos hle]
    exact Int.floor_eq_iff.2 ⟨by linarith, by linarith⟩

/-- The conversion of a finite number. -/
theorem convert_finite {mam : MantissaAndMultiplier} {x : ℚ}
    (h : floatOf mam.mantissa = some (.finite x)) :
    convert mam = if mam.multiplier % 10 ≠ 0 then .ok (truncate (x * mam.multiplier + 1 / 2))
      else if x * mam.multiplier = truncate (x * mam.multiplier) then
        .ok (truncate (x * mam.multiplier))
      else .error (.valueError "") := by
  unfold convert
  rw [h]
  by_cases hmult : mam.multiplier % 10 = 0
  · rw [if_neg (not_not.2 hmult)]
    show (do
      let m_v ← if mam.multiplier % 10 ≠ 0 then _ else .ok (FloatValue.finite (x * mam.multiplier))
      _ : Except SizeError ℤ) = _
    rw [if_neg (not_not.2 hmult)]
    show (if FloatValue.finite (x * mam.multiplier) ≠ .finite (truncate (x * mam.multiplier)) then
      (.error (.valueError "") : Except SizeError ℤ) else .ok (truncate (x * mam.multiplier))) = _
    by_cases hint : x * mam.multiplier = truncate (x * mam.multiplier)
    · rw [if_pos hint, if_neg (not_not.2 (congrArg FloatValue.finite hint))]
    · rw [if_neg hint, if_pos fun heq ↦ hint (FloatValue.finite.inj heq)]
  · rw [if_pos hmult]
    show (do
      let m_v ← if mam.multiplier % 10 ≠ 0 then
        .ok (FloatValue.finite (truncate (x * mam.multiplier + 1 / 2))) else _
      _ : Except SizeError ℤ) = _
    rw [if_pos hmult]
    have hself := truncate_intCast (truncate (x * mam.multiplier + 1 / 2))
    show (if FloatValue.finite ((truncate (x * mam.multiplier + 1 / 2) : ℤ) : ℚ) ≠
        .finite (truncate ((truncate (x * mam.multiplier + 1 / 2) : ℤ) : ℚ)) then
      (.error (.valueError "") : Except SizeError ℤ)
      else .ok (truncate ((truncate (x * mam.multiplier + 1 / 2) : ℤ) : ℚ))) = _
    rw [hself, if_neg (not_not.2 rfl)]

/-! ### How a text is put together -/

/-- The characters with which numbers end are none of those of suffixes. -/
theorem last_of_isEdge {l : List Char} (h : IsEdge l) :
    ∃ c ∈ l.getLast?, isSpace c = false ∧ c ∉ ['B', 'b', 'k', 'K', 'M', 'G', 'T', 'P', 'E', 'i'] := by
  obtain ⟨-, c, hc, hcode, hend⟩ := h
  refine ⟨c, hc, ?_, fun hmem ↦ ?_⟩
  · refine Bool.eq_false_iff.2 fun hspace ↦ ?_
    have := readAs_of_isSpace hspace
    omega
  · have hsame : (['B', 'b', 'k', 'K', 'M', 'G', 'T', 'P', 'E', 'i'].all fun d ↦
        !((readAs d).isDigit || ['.', 'f', 'F', 'y', 'Y'].contains (readAs d))) = true := by
      decide
    have hnot := List.all_eq_true.1 hsame c hmem
    simp only [Bool.not_eq_true', Bool.or_eq_false_iff] at hnot
    rcases hend with hdigit | hletter
    · rw [hnot.1] at hdigit
      cases hdigit
    · rw [List.contains_iff_mem.2 hletter] at hnot
      cases hnot.2

theorem first_of_isEdge {l : List Char} (h : IsEdge l) : ∃ c ∈ l.head?, isSpace c = false := by
  obtain ⟨⟨c, hc, hcode⟩, -⟩ := h
  refine ⟨c, hc, Bool.eq_false_iff.2 fun hspace ↦ ?_⟩
  have := readAs_of_isSpace hspace
  omega

/-- The suffixes that are tried are those that are documented. -/
theorem documented_eq : documented = ("", 1) :: multMap := rfl

/-- No suffix ends with another one. -/
theorem suffix_unique : ∀ s ∈ multMap, ∀ s' ∈ multMap, s.1.toList <:+ s'.1.toList → s = s' := by
  decide

/-- How a suffix ends. -/
theorem last_of_suffix : ∀ s ∈ multMap, ∃ c ∈ s.1.toList.getLast?, isSpace c = false ∧
    c ∈ ['k', 'K', 'M', 'G', 'T', 'P', 'E', 'i'] := by
  intro s hs
  have hall : (multMap.all fun s ↦ s.1.toList.getLast?.any fun c ↦
      !isSpace c && ['k', 'K', 'M', 'G', 'T', 'P', 'E', 'i'].contains c) = true := by
    decide
  obtain ⟨c, hc, hboth⟩ := (Option.any_eq_true _ _).1 (List.all_eq_true.1 hall s hs)
  rw [Bool.and_eq_true, Bool.not_eq_true', List.contains_iff_mem] at hboth
  exact ⟨c, hc, hboth⟩

theorem getLast?_of_suffix {l l' : List Char} {c : Char} (h : l <:+ l') (hc : c ∈ l.getLast?) :
    c ∈ l'.getLast? := by
  obtain ⟨a, rfl⟩ := h
  rcases List.eq_nil_or_concat l with rfl | ⟨l, d, rfl⟩
  · cases hc
  · rw [List.concat_eq_append] at hc ⊢
    rw [List.getLast?_concat] at hc
    rw [← List.append_assoc, List.getLast?_concat]
    exact hc

/-- **The suffix of a text** is found. -/
theorem find?_suffix {s : String × ℕ} (hs : s ∈ multMap) {v : List Char} (hv : s.1.toList <:+ v) :
    multMap.find? (fun s ↦ s.1.toList <:+ v) = some s := by
  obtain ⟨s', hs'⟩ := Option.isSome_iff_exists.1 (List.find?_isSome.2 ⟨s, hs, by simpa using hv⟩ :
    (multMap.find? fun s ↦ s.1.toList <:+ v).isSome = true)
  have hmem := List.mem_of_find?_eq_some hs'
  have hsuffix : s'.1.toList <:+ v := by simpa using List.find?_some hs'
  rw [hs']
  rcases List.suffix_or_suffix_of_suffix hv hsuffix with h | h
  · rw [suffix_unique s hs s' hmem h]
  · rw [suffix_unique s' hmem s hs h]

/-- The final `B` is taken off, and whitespace on both sides of it. -/
theorem removeByte_eq {before body gap byte after : List Char} (hbefore : Blank before)
    (hgap : Blank gap) (hafter : Blank after) (hbyte : byte ∈ [[], ['B'], ['b']])
    (hfirst : ∃ c ∈ body.head?, isSpace c = false)
    (hlast : ∃ c ∈ body.getLast?, isSpace c = false ∧ c ≠ 'B' ∧ c ≠ 'b') :
    removeByte (before ++ (body ++ (gap ++ (byte ++ after)))) = body := by
  obtain ⟨c, hc, hspace, hB, hb⟩ := hlast
  have hbody : strip (before ++ (body ++ (gap ++ after))) = body :=
    strip_eq hbefore (hgap.append hafter) hfirst ⟨c, hc, hspace⟩
  have hwith : ∀ d ∈ ['B', 'b'], removeByte (before ++ (body ++ (gap ++ ([d] ++ after)))) = body := by
    intro d hd
    have hstrip : strip (before ++ (body ++ (gap ++ ([d] ++ after)))) = body ++ gap ++ [d] := by
      have heq := strip_eq (l := body ++ gap ++ [d]) hbefore hafter ?_ ?_
      · simpa using heq
      · obtain ⟨c, hc, hspace⟩ := hfirst
        rcases body with _ | ⟨c', body⟩
        · cases hc
        · exact ⟨c, hc, hspace⟩
      · refine ⟨d, by rw [List.getLast?_concat]; rfl, ?_⟩
        simp only [List.mem_cons, List.not_mem_nil, or_false] at hd
        rcases hd with rfl | rfl
        · rfl
        · rfl
    have hends : ['B'] <:+ body ++ gap ++ [d] ∨ ['b'] <:+ body ++ gap ++ [d] := by
      simp only [List.mem_cons, List.not_mem_nil, or_false] at hd
      rcases hd with rfl | rfl
      · exact Or.inl (List.suffix_append _ _)
      · exact Or.inr (List.suffix_append _ _)
    unfold removeByte
    dsimp only
    rw [hstrip, if_pos hends, List.dropLast_concat]
    have hrest := strip_eq (a := []) (fun _ h ↦ absurd h List.not_mem_nil) hgap hfirst
      ⟨c, hc, hspace⟩
    simpa using hrest
  simp only [List.mem_cons, List.not_mem_nil, or_false] at hbyte
  rcases hbyte with rfl | rfl | rfl
  · unfold removeByte
    dsimp only
    rw [List.nil_append, hbody, if_neg]
    rintro (h | h)
    · exact hB (Option.some.inj ((getLast?_of_suffix h rfl).symm.trans hc)).symm
    · exact hb (Option.some.inj ((getLast?_of_suffix h rfl).symm.trans hc)).symm
  · exact hwith 'B' (by simp)
  · exact hwith 'b' (by simp)

theorem strip_append {number gap : List Char} (hedge : IsEdge number) (hgap : Blank gap) :
    strip (number ++ gap) = number := by
  obtain ⟨c, hc, hspace, -⟩ := last_of_isEdge hedge
  have heq := strip_eq (a := []) (fun _ h ↦ absurd h List.not_mem_nil) hgap (first_of_isEdge hedge)
    ⟨c, hc, hspace⟩
  simpa using heq

/-- **There is one way to read a text**: the number and the multiplier are those that it was put together
from. -/
theorem extract_of_quantity {v number : List Char} {mult : ℕ} (h : Quantity v number mult)
    (hedge : IsEdge number) :
    extractBaseAndMultFromString (removeByte v) = ⟨number, mult⟩ ∧
      (mult = 1 → removeByte v = number) ∧ (mult ≠ 1 → intOf (removeByte v) = none) := by
  obtain ⟨before, gap, suffix, gap', byte, after, hsuffix, hbyte, hbefore, hgap, hgap', hafter, rfl⟩ := h
  have hbyte : byte.toList ∈ [[], ['B'], ['b']] := by
    simp only [List.mem_cons, List.not_mem_nil, or_false] at hbyte
    rcases hbyte with rfl | rfl | rfl <;> decide
  obtain ⟨c, hc, hspace, hother⟩ := last_of_isEdge hedge
  rw [documented_eq, List.mem_cons] at hsuffix
  rcases hsuffix with heq | hsuffix
  · -- There is no suffix.
    obtain ⟨rfl, rfl⟩ := Prod.mk.inj heq
    have hremove := removeByte_eq hbefore (hgap.append hgap') hafter hbyte (first_of_isEdge hedge)
      ⟨c, hc, hspace, fun h ↦ hother (by simp [h]), fun h ↦ hother (by simp [h])⟩
    rw [List.append_assoc] at hremove
    have hfind : multMap.find? (fun s ↦ s.1.toList <:+ number) = none := by
      refine List.find?_eq_none.2 fun s hs hends ↦ ?_
      obtain ⟨d, hd, -, hletter⟩ := last_of_suffix s hs
      have hlast := getLast?_of_suffix (by simpa using hends) hd
      obtain rfl := Option.some.inj (hc.symm.trans hlast)
      exact hother (List.mem_cons_of_mem _ (List.mem_cons_of_mem _ hletter))
    have hnone : "".toList = ([] : List Char) := rfl
    rw [hnone, List.nil_append, hremove]
    refine ⟨?_, fun _ ↦ rfl, fun hne ↦ absurd rfl hne⟩
    have hstrip : strip (number ++ []) = number :=
      strip_append hedge fun _ h ↦ absurd h List.not_mem_nil
    rw [List.append_nil] at hstrip
    rw [extractBaseAndMultFromString, hfind]
    dsimp only
    rw [hstrip]
  · obtain ⟨d, hd, hspace', hletter⟩ := last_of_suffix _ hsuffix
    have hlast : d ∈ (number ++ (gap ++ suffix.toList)).getLast? :=
      getLast?_of_suffix ⟨number ++ gap, by rw [List.append_assoc]⟩ hd
    have hfirst : ∃ c ∈ (number ++ (gap ++ suffix.toList)).head?, isSpace c = false := by
      obtain ⟨c, hc, hspace⟩ := first_of_isEdge hedge
      rcases number with _ | ⟨c', number⟩
      · cases hc
      · exact ⟨c, hc, hspace⟩
    have hbody : ∃ c ∈ (number ++ (gap ++ suffix.toList)).getLast?,
        isSpace c = false ∧ c ≠ 'B' ∧ c ≠ 'b' := by
      refine ⟨d, hlast, hspace', ?_, ?_⟩
      · rintro rfl
        simp at hletter
      · rintro rfl
        simp at hletter
    have hremove := removeByte_eq hbefore hgap' hafter hbyte hfirst hbody
    rw [List.append_assoc, List.append_assoc] at hremove
    rw [hremove]
    refine ⟨?_, ?_, fun _ ↦ ?_⟩
    · have hfind := find?_suffix hsuffix (v := number ++ (gap ++ suffix.toList))
        ⟨number ++ gap, by rw [List.append_assoc]⟩
      rw [extractBaseAndMultFromString, hfind]
      dsimp only
      have htake : (number ++ (gap ++ suffix.toList)).take
          ((number ++ (gap ++ suffix.toList)).length - suffix.toList.length) = number ++ gap := by
        rw [← List.append_assoc, List.length_append, Nat.add_sub_cancel]
        exact List.take_left
      rw [htake, strip_append hedge hgap]
    · rintro rfl
      have hmult : ∀ s ∈ multMap, s.2 ≠ 1 := by decide
      exact absurd rfl (hmult _ hsuffix)
    · refine Option.eq_none_iff_forall_ne_some.2 fun n hn ↦ ?_
      obtain ⟨c', hc', -, hother'⟩ := last_of_isEdge (isNumeral_of_intOf hn).isEdge
      obtain rfl := Option.some.inj (hc'.symm.trans hlast)
      exact hother' (List.mem_cons_of_mem _ (List.mem_cons_of_mem _ hletter))

/-- What `removeByte` leaves is a number, and perhaps a `B` after it. -/
theorem quantity_removeByte (v : List Char) : Quantity v (removeByte v) 1 := by
  obtain ⟨a, b, ha, hb, hv⟩ := exists_strip v
  by_cases hends : ['B'] <:+ strip v ∨ ['b'] <:+ strip v
  · obtain ⟨byte, hbyte, init, hinit⟩ : ∃ byte ∈ ["", "B", "b"], ∃ init,
        strip v = init ++ byte.toList ∧ removeByte v = strip init := by
      rcases hends with h | h
      · obtain ⟨init, hinit⟩ := h
        refine ⟨"B", by simp, init, hinit.symm, ?_⟩
        rw [removeByte, if_pos (Or.inl ⟨init, hinit⟩), ← hinit, List.dropLast_concat]
      · obtain ⟨init, hinit⟩ := h
        refine ⟨"b", by simp, init, hinit.symm, ?_⟩
        rw [removeByte, if_pos (Or.inr ⟨init, hinit⟩), ← hinit, List.dropLast_concat]
    obtain ⟨hsplit, hremove⟩ := hinit
    obtain ⟨a', b', ha', hb', hinit⟩ := exists_strip init
    refine ⟨a ++ a', b', "", [], byte, b, by simp [documented], hbyte, ha.append ha', hb',
      fun _ h ↦ absurd h List.not_mem_nil, hb, ?_⟩
    rw [hremove]
    nth_rewrite 1 [hv]
    rw [hsplit]
    nth_rewrite 1 [hinit]
    simp
  · refine ⟨a, b, "", [], "", [], by simp [documented], by simp, ha, hb,
      fun _ h ↦ absurd h List.not_mem_nil, fun _ h ↦ absurd h List.not_mem_nil, ?_⟩
    rw [removeByte, if_neg hends]
    simpa using hv

/-- What is read puts the text together. -/
theorem quantity_extract (v : List Char) :
    Quantity v (extractBaseAndMultFromString (removeByte v)).mantissa
      (extractBaseAndMultFromString (removeByte v)).multiplier := by
  obtain ⟨before, gap, suffix, gap', byte, after, hsuffix, hbyte, hbefore, hgap, hgap', hafter, hv⟩ :=
    quantity_removeByte v
  have hnone : ∀ s ∈ documented, s.2 = 1 → s.1 = "" := by decide
  obtain rfl : suffix = "" := hnone _ hsuffix rfl
  generalize removeByte v = body at hv ⊢
  unfold extractBaseAndMultFromString
  split
  · next s mult hfind =>
    have hmem := List.mem_of_find?_eq_some hfind
    obtain ⟨init, hinit⟩ : s.toList <:+ body := by simpa using List.find?_some hfind
    have htake : body.take (body.length - s.toList.length) = init := by
      rw [← hinit, List.length_append, Nat.add_sub_cancel]
      exact List.take_left
    obtain ⟨a, b, ha, hb, hstrip⟩ := exists_strip init
    refine ⟨before ++ a, b, s, gap ++ gap', byte, after, ?_, hbyte, hbefore.append ha, hb,
      hgap.append hgap', hafter, ?_⟩
    · rw [documented_eq]
      exact List.mem_cons_of_mem _ hmem
    · dsimp only
      rw [htake, hv, ← hinit]
      nth_rewrite 1 [hstrip]
      simp
  · obtain ⟨a, b, ha, hb, hstrip⟩ := exists_strip body
    refine ⟨before ++ a, b ++ gap, "", gap', byte, after, hsuffix, hbyte, hbefore.append ha,
      hb.append hgap, hgap', hafter, ?_⟩
    dsimp only
    rw [hv]
    nth_rewrite 1 [hstrip]
    simp

/-! ### What is returned -/

section Returned

variable {v : String}

theorem validate_of_int {n : ℤ} (h : intOf (removeByte v.toList) = some n) :
    validateHumanSizeBytes (.text v) = .ok n := by
  simp only [validateHumanSizeBytes, h]

theorem validate_of_ok (h : intOf (removeByte v.toList) = none) {n : ℤ}
    (hconvert : convert (extractBaseAndMultFromString (removeByte v.toList)) = .ok n) :
    validateHumanSizeBytes (.text v) = .ok n := by
  simp only [validateHumanSizeBytes, h, hconvert]

theorem validate_of_valueError (h : intOf (removeByte v.toList) = none) {message : String}
    (hconvert : convert (extractBaseAndMultFromString (removeByte v.toList)) =
      .error (.valueError message)) : RaisesValueError (validateHumanSizeBytes (.text v)) := by
  refine ⟨s!"Could not convert '{v}' to integer", ?_⟩
  simp only [validateHumanSizeBytes, h, hconvert]

theorem validate_of_overflowError (h : intOf (removeByte v.toList) = none) {message : String}
    (hconvert : convert (extractBaseAndMultFromString (removeByte v.toList)) =
      .error (.overflowError message)) :
    validateHumanSizeBytes (.text v) = .error (.overflowError message) := by
  simp only [validateHumanSizeBytes, h, hconvert]

end Returned

section Convert

variable {mam : MantissaAndMultiplier}

theorem convert_none (h : floatOf mam.mantissa = none) :
    ∃ message, convert mam = .error (.valueError message) := by
  refine ⟨"could not convert string to float", ?_⟩
  simp only [convert, h]

/-- **Infinite numbers** raise another exception. -/
theorem convert_infinite {negative : Bool} (h : floatOf mam.mantissa = some (.infinite negative)) :
    ∃ message, convert mam = .error (.overflowError message) := by
  refine ⟨"cannot convert float infinity to integer", ?_⟩
  simp only [convert, h]
  by_cases hmult : mam.multiplier % 10 ≠ 0
  · rw [if_pos hmult]
    rfl
  · rw [if_neg hmult]
    rfl

theorem convert_nan (h : floatOf mam.mantissa = some .nan) :
    ∃ message, convert mam = .error (.valueError message) := by
  refine ⟨"cannot convert float NaN to integer", ?_⟩
  simp only [convert, h]
  by_cases hmult : mam.multiplier % 10 ≠ 0
  · rw [if_pos hmult]
    rfl
  · rw [if_neg hmult]
    rfl

end Convert

/-! ### The result -/

/-- A text that stands for no number meets the promise with a `ValueError`. -/
theorem meetsDocs_of_not_denotes {v : String} (hnone : ∀ q, ¬ Denotes v.toList q) :
    MeetsDocs v ↔ RaisesValueError (validateHumanSizeBytes (.text v)) :=
  ⟨fun h ↦ h.2 hnone, fun h ↦ ⟨fun q hq ↦ absurd hq (hnone q), fun _ ↦ h⟩⟩

/-- A text that stands for a number. -/
theorem meetsDocs_of_denotes {v : String} {q : ℚ} (hq : Denotes v.toList q)
    (hunique : ∀ q', Denotes v.toList q' → q' = q) :
    MeetsDocs v ↔ (∀ n : ℤ, q = n → validateHumanSizeBytes (.text v) = .ok n) ∧
      ((∀ n : ℤ, q ≠ n) → RaisesValueError (validateHumanSizeBytes (.text v))) := by
  refine ⟨fun h ↦ h.1 q hq, fun h ↦ ⟨fun q' hq' ↦ ?_, fun hnone ↦ absurd hq (hnone q)⟩⟩
  rw [hunique q' hq']
  exact h

/-- Integers are read as integers. -/
theorem meetsDocs_of_int {v : String} {n : ℤ} (hint : intOf (removeByte v.toList) = some n) :
    MeetsDocs v ∧ Unharmed v := by
  have hnumeral := isNumeral_of_intOf hint
  have honly : ∀ {number mult}, Quantity v.toList number mult → IsEdge number →
      mult = 1 ∧ number = removeByte v.toList := by
    intro number mult h hedge
    obtain ⟨-, hone, hother⟩ := extract_of_quantity h hedge
    by_cases hmult : mult = 1
    · exact ⟨hmult, (hone hmult).symm⟩
    · rw [hint] at hother
      cases hother hmult
  have hdenotes : Denotes v.toList n :=
    ⟨_, 1, n, quantity_removeByte v.toList, hnumeral, by simp⟩
  constructor
  · refine (meetsDocs_of_denotes hdenotes ?_).2 ⟨fun m hm ↦ ?_, fun hne ↦ absurd rfl (hne n)⟩
    · rintro q ⟨number, mult, x, hquantity, hx, rfl⟩
      obtain ⟨rfl, rfl⟩ := honly hquantity hx.isEdge
      rw [hx.unique hnumeral]
      simp
    · rw [validate_of_int hint, Int.cast_inj.1 hm]
  · intro number mult hquantity
    refine ⟨fun hinf ↦ ?_, fun x hx ↦ ?_⟩
    · obtain ⟨-, rfl⟩ := honly hquantity hinf.isEdge
      obtain ⟨negative, hinfinite⟩ := floatOf_eq_infinite.2 hinf
      rw [floatOf_eq_finite.2 hnumeral] at hinfinite
      cases hinfinite
    · obtain ⟨rfl, rfl⟩ := honly hquantity hx.isEdge
      rw [hx.unique hnumeral]
      exact Or.inr ⟨⟨n, by simp⟩, Or.inr ⟨rfl, n, hint⟩⟩

section Read

variable {v : String} {mam : MantissaAndMultiplier}
  (hmam : extractBaseAndMultFromString (removeByte v.toList) = mam)
include hmam

/-- A number that the text stands for is the one that is read. -/
theorem read_of_denotes {q : ℚ} (h : Denotes v.toList q) :
    ∃ x, floatOf mam.mantissa = some (.finite x) ∧ q = x * mam.multiplier := by
  obtain ⟨number, mult, x, hquantity, hx, rfl⟩ := h
  rw [(extract_of_quantity hquantity hx.isEdge).1] at hmam
  rw [← hmam]
  exact ⟨x, floatOf_eq_finite.2 hx, rfl⟩

/-- An infinite number that the text is put together from is the one that is read. -/
theorem read_of_isInfinity {number : List Char} {mult : ℕ} (h : Quantity v.toList number mult)
    (hinf : IsInfinity number) : ∃ negative, floatOf mam.mantissa = some (.infinite negative) := by
  rw [(extract_of_quantity h hinf.isEdge).1] at hmam
  rw [← hmam]
  exact floatOf_eq_infinite.2 hinf

/-- A text that is no number meets the promise. -/
theorem meetsDocs_of_no_number (hfinite : ∀ x, floatOf mam.mantissa ≠ some (.finite x))
    (hinfinite : ∀ negative, floatOf mam.mantissa ≠ some (.infinite negative))
    (hraises : RaisesValueError (validateHumanSizeBytes (.text v))) : MeetsDocs v ∧ Unharmed v := by
  have hnone : ∀ q, ¬ Denotes v.toList q := by
    intro q hq
    obtain ⟨x, hx, -⟩ := read_of_denotes hmam hq
    exact hfinite x hx
  refine ⟨(meetsDocs_of_not_denotes hnone).2 hraises, fun number mult hquantity ↦
    ⟨fun hinf ↦ ?_, fun x hx ↦ ?_⟩⟩
  · obtain ⟨negative, hread⟩ := read_of_isInfinity hmam hquantity hinf
    exact hinfinite negative hread
  · exact absurd ⟨number, mult, x, hquantity, hx, rfl⟩ (hnone (x * mult))

/-- **A number** that is not the text of an integer meets the promise if its suffix is a decimal one, and
otherwise if the product is an integer that is not negative. -/
theorem meetsDocs_of_finite (hint : intOf (removeByte v.toList) = none) {x : ℚ}
    (hx : floatOf mam.mantissa = some (.finite x)) :
    MeetsDocs v ↔ mam.multiplier % 10 = 0 ∨
      (∃ n : ℤ, x * mam.multiplier = n) ∧ 0 ≤ x * mam.multiplier := by
  have hquantity := quantity_extract v.toList
  rw [hmam] at hquantity
  have hdenotes : Denotes v.toList (x * mam.multiplier) :=
    ⟨_, _, x, hquantity, floatOf_eq_finite.1 hx, rfl⟩
  have hunique : ∀ q, Denotes v.toList q → q = x * mam.multiplier := by
    intro q hq
    obtain ⟨y, hy, rfl⟩ := read_of_denotes hmam hq
    rw [FloatValue.finite.inj (Option.some.inj (hx.symm.trans hy))]
  rw [meetsDocs_of_denotes hdenotes hunique]
  have hconvert := convert_finite hx
  generalize hq : x * (mam.multiplier : ℚ) = q at hconvert ⊢
  by_cases hmult : mam.multiplier % 10 = 0
  · -- Nothing is rounded.
    rw [if_neg (not_not.2 hmult)] at hconvert
    refine iff_of_true ⟨fun n hn ↦ ?_, fun hne ↦ ?_⟩ (Or.inl hmult)
    · have hself : truncate q = n := by rw [hn, truncate_intCast]
      rw [hself, if_pos hn] at hconvert
      exact validate_of_ok hint (hmam ▸ hconvert)
    · rw [if_neg (hne _)] at hconvert
      exact validate_of_valueError hint (hmam ▸ hconvert)
  · rw [if_pos hmult] at hconvert
    have hvalidate := validate_of_ok hint (hmam ▸ hconvert)
    rw [hvalidate]
    constructor
    · rintro ⟨hinteger, hfraction⟩
      have hn : ∃ n : ℤ, q = n := by
        by_contra hne
        obtain ⟨message, hmessage⟩ := hfraction fun n hn ↦ hne ⟨n, hn⟩
        cases hmessage
      obtain ⟨n, hn⟩ := hn
      exact Or.inr ⟨⟨n, hn⟩, (truncate_half hn).1 (Except.ok.inj (hinteger n hn))⟩
    · rintro (hzero | ⟨⟨n, hn⟩, hpos⟩)
      · exact absurd hzero hmult
      · refine ⟨fun m hm ↦ congrArg Except.ok ((truncate_half hm).2 hpos), fun hne ↦
          absurd hn (hne n)⟩

end Read

/-- **Sizes mean what the documentation says** exactly where rounding does no harm. -/
theorem meetsDocs_iff (v : String) : MeetsDocs v ↔ Unharmed v := by
  rcases hint : intOf (removeByte v.toList) with _ | n
  · have hquantity := quantity_extract v.toList
    generalize hmam : extractBaseAndMultFromString (removeByte v.toList) = mam at hquantity
    rcases hfloat : floatOf mam.mantissa with _ | x | negative | _
    · obtain ⟨message, hconvert⟩ := convert_none hfloat
      obtain ⟨hmeets, hunharmed⟩ := meetsDocs_of_no_number hmam (by simp [hfloat]) (by simp [hfloat])
        (validate_of_valueError hint (hmam ▸ hconvert))
      exact iff_of_true hmeets hunharmed
    · rw [meetsDocs_of_finite hmam hint hfloat]
      constructor
      · intro h number mult hreading
        refine ⟨fun hinf ↦ ?_, fun y hy ↦ ?_⟩
        · obtain ⟨negative, hread⟩ := read_of_isInfinity hmam hreading hinf
          rw [hfloat] at hread
          cases hread
        · have hsame := (extract_of_quantity hreading hy.isEdge).1
          rw [hmam] at hsame
          obtain rfl := hsame
          rw [hy.unique (floatOf_eq_finite.1 hfloat)]
          exact h.imp_right fun h ↦ ⟨h.1, Or.inl h.2⟩
      · intro h
        refine ((h _ _ hquantity).2 x (floatOf_eq_finite.1 hfloat)).imp_right fun h ↦ ⟨h.1, ?_⟩
        rcases h.2 with hpos | ⟨hone, n, hn⟩
        · exact hpos
        · -- The text is not that of an integer.
          have hbare := (extract_of_quantity hquantity (floatOf_eq_finite.1 hfloat).isEdge).2.1 hone
          rw [← hbare, hint] at hn
          cases hn
    · obtain ⟨message, hconvert⟩ := convert_infinite hfloat
      have hvalidate := validate_of_overflowError hint (hmam ▸ hconvert)
      refine iff_of_false (fun h ↦ ?_) fun h ↦ ?_
      · have hnone : ∀ q, ¬ Denotes v.toList q := by
          intro q hq
          obtain ⟨x, hx, -⟩ := read_of_denotes hmam hq
          rw [hfloat] at hx
          cases hx
        obtain ⟨_, hraises⟩ := h.2 hnone
        rw [hvalidate] at hraises
        cases hraises
      · exact (h _ _ hquantity).1 (floatOf_eq_infinite.1 ⟨negative, hfloat⟩)
    · obtain ⟨message, hconvert⟩ := convert_nan hfloat
      obtain ⟨hmeets, hunharmed⟩ := meetsDocs_of_no_number hmam (by simp [hfloat]) (by simp [hfloat])
        (validate_of_valueError hint (hmam ▸ hconvert))
      exact iff_of_true hmeets hunharmed
  · obtain ⟨hmeets, hunharmed⟩ := meetsDocs_of_int hint
    exact iff_of_true hmeets hunharmed

/-- **Texts that are rounded or refused otherwise**: one and a half byte is two, minus one kibibyte is
one byte more, and an infinite number is no `ValueError`. -/
theorem sizes_rounded :
    (Denotes "1.5".toList (3 / 2) ∧ validateHumanSizeBytes (.text "1.5") = .ok 2) ∧
    (Denotes "-1 KiB".toList (-1024) ∧ validateHumanSizeBytes (.text "-1 KiB") = .ok (-1023)) ∧
    ¬ RaisesValueError (validateHumanSizeBytes (.text "inf")) ∧ ¬ MeetsDocs "1.5" := by
  have hdenotes : Denotes "1.5".toList (3 / 2) :=
    ⟨"1.5".toList, 1, 3 / 2, ⟨[], [], "", [], "", [], by simp [documented], by simp, by simp [Blank],
      by simp [Blank], by simp [Blank], by simp [Blank], by decide⟩,
      floatOf_eq_finite.1 (by decide +kernel), by norm_num⟩
  have hvalidate : validateHumanSizeBytes (.text "1.5") = .ok 2 := by decide +kernel
  refine ⟨⟨hdenotes, hvalidate⟩, ⟨?_, by decide +kernel⟩, ?_, fun h ↦ ?_⟩
  · exact ⟨"-1".toList, 1024, -1, ⟨[], [' '], "Ki", [], "B", [], by simp [documented], by simp,
      by simp [Blank], List.forall_mem_singleton.2 rfl, by simp [Blank], by simp [Blank], by decide⟩,
      floatOf_eq_finite.1 (by decide +kernel), by norm_num⟩
  · rintro ⟨message, hmessage⟩
    have hinf : validateHumanSizeBytes (.text "inf") =
      .error (.overflowError "cannot convert float infinity to integer") := by decide +kernel
    rw [hinf] at hmessage
    cases hmessage
  · obtain ⟨message, hraises⟩ := (h.1 _ hdenotes).2 fun n hn ↦ by
      have hdouble : (3 : ℚ) = 2 * n := by linarith
      have hdouble : (3 : ℤ) = 2 * n := by exact_mod_cast hdouble
      omega
    rw [hvalidate] at hraises
    cases hraises

end Nublado.Purger
