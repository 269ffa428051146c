import Nublado.Images.Source

/-!
# Docker references read and written

`fromStr` reads a reference with one regular expression, and `text` writes one. What the expression
accepts overlaps: a registry may contain a colon, a repository and a tag may contain slashes. But each
component stops at a character that it cannot contain and that begins the next one, so a text has at most
one reading (`fromStr_eq_ok_iff`), and what is written is read back (`fromStr_text`).

The other way around there is one exception. The anchor at the end of the expression also matches before
a newline that ends the text. Registries, repositories and tags may contain newlines and take such a
newline in, but a digest may not, and so the newline behind a digest is lost. `text_fromStr_iff` says that
nothing else is.
-/

namespace Nublado

namespace DockerReference

/-! ### What is written -/

/-- The components are of the kinds that the expression reads, and none is empty. -/
structure WellFormed (reference : DockerReference) : Prop where
  registry_ne : reference.registry.toList ≠ []
  registry : ∀ c ∈ reference.registry.toList, c ≠ '/'
  repository_ne : reference.repository.toList ≠ []
  repository : ∀ c ∈ reference.repository.toList, c ≠ ':' ∧ c ≠ '@'
  tag_ne : ∀ tag ∈ reference.tag, tag.toList ≠ []
  tag : ∀ tag ∈ reference.tag, ∀ c ∈ tag.toList, c ≠ '@'
  digest_ne : ∀ digest ∈ reference.digest, digest.toList ≠ []
  digest : ∀ digest ∈ reference.digest, ∀ c ∈ digest.toList, c ≠ '\n'

/-- An optional component as it is written. -/
def optionText (mark : Char) (component : Option String) : List Char :=
  component.elim [] fun s ↦ mark :: s.toList

/-- A reference as it is written, character by character. -/
theorem toList_text (reference : DockerReference) : reference.text.toList =
    reference.registry.toList ++ ('/' :: (reference.repository.toList ++
      (optionText ':' reference.tag ++ optionText '@' reference.digest))) := by
  obtain ⟨registry, repository, tag, digest⟩ := reference
  unfold text optionText
  cases tag <;> cases digest <;> simp

/-- Nothing can follow a component of a class other than the mark of a later one. -/
theorem head?_optionText {mark : Char} {component : Option String} {rest : List Char} {c : Char}
    (hc : c ∈ (optionText mark component ++ rest).head?) : c = mark ∨ c ∈ rest.head? := by
  cases component with
  | none => exact Or.inr hc
  | some s => exact Or.inl (Option.some.inj hc).symm

/-! ### What is read -/

/-- The groups that are captured of an optional component. -/
def capture (name : String) (component : Option String) : Captures :=
  (component.map fun s ↦ (name, s.toList)).toList

/-- What a newline at the end is lost behind. -/
def Ending (reference : DockerReference) (ending : List Char) : Prop :=
  ending = [] ∨ ending = ['\n'] ∧ reference.digest.isSome

section Reading

variable {reference : DockerReference} {ending : List Char} {caps : Captures}

/-- Only a digest can follow what comes before it. -/
theorem head?_digest (hending : reference.Ending ending) {c : Char}
    (hc : c ∈ (optionText '@' reference.digest ++ ending).head?) : c = '@' := by
  rcases hdigest : reference.digest with _ | digest
  · rcases hending with rfl | ⟨rfl, hsome⟩
    · rw [hdigest] at hc
      cases hc
    · rw [hdigest] at hsome
      cases hsome
  · rw [hdigest] at hc
    exact (Option.some.inj hc).symm

/-- An optional component is read, if it is there, in front of what does not belong to it. -/
theorem go_optionText {α : Type} {mark : Char} {name : String} {p : Char → Bool}
    {component : Option String} {rest : List Char} {k : List Char → Captures → Option α} {a : α}
    (hne : ∀ s ∈ component, s.toList ≠ []) (hp : ∀ s ∈ component, ∀ c ∈ s.toList, p c = true)
    (hmark : ∀ c ∈ rest.head?, c ≠ mark) (hstop : component.isSome → ∀ c ∈ rest.head?, p c = false)
    (hk : k rest (capture name component ++ caps) = some a) :
    (Regex.opt (Regex.char mark ++ Regex.group name (Regex.many p 1 true))).go
      (optionText mark component ++ rest) caps k = some a := by
  cases component with
  | none =>
    have hno : (Regex.char mark ++ Regex.group name (Regex.many p 1 true)).go rest caps k = none := by
      rw [Regex.go_append]
      rcases rest with _ | ⟨c, rest⟩
      · rfl
      · simp [Regex.char, Regex.go, hmark c rfl]
    show ((Regex.char mark ++ Regex.group name (Regex.many p 1 true)).go rest caps k).or
      (k rest caps) = some a
    rw [hno, Option.none_or]
    exact hk
  | some s =>
    have hyes : (Regex.char mark ++ Regex.group name (Regex.many p 1 true)).go
        (mark :: (s.toList ++ rest)) caps k = some a := by
      rw [Regex.go_append, Regex.go_char]
      exact Regex.go_group_all (hp s rfl) (hne s rfl) (hstop rfl) hk
    show ((Regex.char mark ++ Regex.group name (Regex.many p 1 true)).go
      (mark :: (s.toList ++ rest)) caps k).or _ = some a
    rw [hyes, Option.some_or]

/-- **A reference is read as it is written**, also in front of a newline that a digest leaves. -/
theorem matchStart_text (h : reference.WellFormed) (hending : reference.Ending ending) :
    regex.matchStart (reference.text.toList ++ ending) =
      some (capture "digest" reference.digest ++ (capture "tag" reference.tag ++
        [("repository", reference.repository.toList), ("registry", reference.registry.toList)])) := by
  have heol : ending = [] ∨ ending = ['\n'] := hending.imp_right And.left
  rw [toList_text, regex, Regex.matchStart, Regex.go_append, Regex.go_append, Regex.go_append,
    Regex.go_append]
  simp only [List.append_assoc, List.cons_append]
  refine Regex.go_group_all (fun c hc ↦ by simpa using h.registry c hc) h.registry_ne (by simp) ?_
  rw [Regex.go_append, Regex.go_char]
  refine Regex.go_group_all (fun c hc ↦ by simpa using h.repository c hc) h.repository_ne ?_ ?_
  · -- what follows the repository
    intro c hc
    rcases head?_optionText hc with rfl | hc
    · decide
    · obtain rfl := head?_digest hending hc
      decide
  · refine go_optionText h.tag_ne (fun s hs c hc ↦ by simpa using h.tag s hs c hc) ?_ ?_ ?_
    · intro c hc
      obtain rfl := head?_digest hending hc
      decide
    · intro _ c hc
      obtain rfl := head?_digest hending hc
      decide
    · have hnewline : ∀ c ∈ ending.head?, c = '\n' := by
        intro c hc
        rcases heol with rfl | rfl
        · cases hc
        · exact (Option.some.inj hc).symm
      refine go_optionText h.digest_ne (fun s hs c hc ↦ by simpa using h.digest s hs c hc) ?_ ?_ ?_
      · intro c hc
        obtain rfl := hnewline c hc
        decide
      · intro _ c hc
        obtain rfl := hnewline c hc
        decide
      · rw [Regex.go, if_pos heol]

/-- What an optional component may consume. -/
theorem exists_of_derives_opt {mark : Char} {name : String} {p : Char → Bool} {l rest : List Char}
    {caps' : Captures}
    (h : (Regex.opt (Regex.char mark ++ Regex.group name (Regex.many p 1 true))).Derives l caps rest
      caps') :
    ∃ component : Option String, l = optionText mark component ++ rest ∧
      ∀ s ∈ component, s.toList ≠ [] ∧ ∀ c ∈ s.toList, p c = true := by
  rcases Regex.derives_opt_iff.1 h with h | ⟨rfl, -⟩
  · obtain ⟨mid, caps₁, hmark, hgroup⟩ := Regex.derives_append_iff.1 h
    obtain ⟨rfl, -⟩ := Regex.derives_char_iff.1 hmark
    obtain ⟨inner, hmany, -⟩ := Regex.derives_group_iff.1 hgroup
    obtain ⟨taken, rfl, htaken, hmin, -⟩ := Regex.derives_many_iff.1 hmany
    refine ⟨some (String.ofList taken), by simp [optionText], ?_⟩
    rintro s ⟨⟩
    rw [String.toList_ofList]
    exact ⟨List.length_pos_iff.1 hmin, htaken⟩
  · exact ⟨none, rfl, by simp⟩

/-- A newline at the end is lost behind a digest only: elsewhere it belongs to the tag or to the
repository. -/
theorem WellFormed.exists_of_eol (h : reference.WellFormed) (heol : ending = [] ∨ ending = ['\n'])
    {l : List Char} (hl : l = reference.text.toList ++ ending) :
    ∃ (reference' : DockerReference) (ending' : List Char),
      reference'.WellFormed ∧ reference'.Ending ending' ∧ l = reference'.text.toList ++ ending' := by
  rcases heol with rfl | rfl
  · exact ⟨reference, [], h, Or.inl rfl, hl⟩
  obtain ⟨registry, repository, tag, digest⟩ := reference
  rcases digest with _ | digest
  · rcases tag with _ | tag
    · refine ⟨⟨registry, repository ++ "\n", none, none⟩, [], { h with
        repository_ne := by simp
        repository := fun c hc ↦ ?_ }, Or.inl rfl, by simp [hl, toList_text, optionText]⟩
      rcases List.mem_append.1 (String.toList_append ▸ hc) with hc | hc
      · exact h.repository c hc
      · obtain rfl : c = '\n' := by simpa using hc
        decide
    · refine ⟨⟨registry, repository, some (tag ++ "\n"), none⟩, [], { h with
        tag_ne := by simp
        tag := fun t ht c hc ↦ ?_ }, Or.inl rfl, by simp [hl, toList_text, optionText]⟩
      obtain rfl := Option.some.inj ht
      rcases List.mem_append.1 (String.toList_append ▸ hc) with hc | hc
      · exact h.tag tag rfl c hc
      · obtain rfl : c = '\n' := by simpa using hc
        decide
  · exact ⟨_, ['\n'], h, Or.inr ⟨rfl, rfl⟩, hl⟩

/-- **A text that is accepted is a written reference**, or one with a newline behind the digest. -/
theorem exists_of_derives {l rest : List Char} {caps' : Captures}
    (h : regex.Derives l [] rest caps') : ∃ (reference : DockerReference) (ending : List Char),
      reference.WellFormed ∧ reference.Ending ending ∧ l = reference.text.toList ++ ending := by
  obtain ⟨l₄, caps₄, h, heol⟩ := Regex.derives_append_iff.1 h
  obtain ⟨l₃, caps₃, h, hdigest⟩ := Regex.derives_append_iff.1 h
  obtain ⟨l₂, caps₂, h, htag⟩ := Regex.derives_append_iff.1 h
  obtain ⟨l₁, caps₁, hregistry, h⟩ := Regex.derives_append_iff.1 h
  obtain ⟨l₀, caps₀, hslash, hrepository⟩ := Regex.derives_append_iff.1 h
  obtain ⟨inner, hregistry, -⟩ := Regex.derives_group_iff.1 hregistry
  obtain ⟨registry, rfl, hreg, hreg_ne, -⟩ := Regex.derives_many_iff.1 hregistry
  obtain ⟨rfl, -⟩ := Regex.derives_char_iff.1 hslash
  obtain ⟨inner', hrepository, -⟩ := Regex.derives_group_iff.1 hrepository
  obtain ⟨repository, rfl, hrep, hrep_ne, -⟩ := Regex.derives_many_iff.1 hrepository
  obtain ⟨tag, rfl, ht⟩ := exists_of_derives_opt htag
  obtain ⟨digest, rfl, hd⟩ := exists_of_derives_opt hdigest
  obtain ⟨hending, -, -⟩ := Regex.derives_eol_iff.1 heol
  have hwf : WellFormed ⟨String.ofList registry, String.ofList repository, tag, digest⟩ :=
    { registry_ne := by simpa using List.length_pos_iff.1 hreg_ne
      registry := by simpa using hreg
      repository_ne := by simpa using List.length_pos_iff.1 hrep_ne
      repository := by simpa using hrep
      tag_ne := fun t htag ↦ (ht t htag).1
      tag := fun t htag c hc ↦ by simpa using (ht t htag).2 c hc
      digest_ne := fun t hdigest ↦ (hd t hdigest).1
      digest := fun t hdigest c hc ↦ by simpa using (hd t hdigest).2 c hc }
  refine hwf.exists_of_eol hending ?_
  simp [toList_text]

/-- **What `fromStr` reads**: the written references, and those with a newline behind the digest. -/
theorem fromStr_eq_ok_iff {s : String} : fromStr s = .ok reference ↔
    reference.WellFormed ∧
      ∃ ending, reference.Ending ending ∧ s.toList = reference.text.toList ++ ending := by
  have hread : ∀ {reference : DockerReference} {ending : List Char}, reference.WellFormed →
      reference.Ending ending → s.toList = reference.text.toList ++ ending →
      fromStr s = .ok reference := by
    intro reference ending h hending hs
    rw [fromStr, hs, matchStart_text h hending]
    obtain ⟨registry, repository, tag, digest⟩ := reference
    cases tag <;> cases digest <;> simp [capture, List.lookup_cons]
  constructor
  · intro h
    have hmatch : ∃ data, regex.matchStart s.toList = some data := by
      rcases hdata : regex.matchStart s.toList with _ | data
      · rw [fromStr, hdata] at h
        cases h
      · exact ⟨data, rfl⟩
    obtain ⟨data, hdata⟩ := hmatch
    obtain ⟨rest, hderives⟩ := Regex.derives_of_matchStart hdata
    obtain ⟨reference', ending, hwf, hending, hs⟩ := exists_of_derives hderives
    have hsame : reference = reference' :=
      Except.ok.inj (h.symm.trans (hread hwf hending hs))
    subst hsame
    exact ⟨hwf, ending, hending, hs⟩
  · rintro ⟨h, ending, hending, hs⟩
    exact hread h hending hs

/-! ### Round trips -/

/-- What is written is read back. -/
theorem fromStr_text (h : reference.WellFormed) : fromStr reference.text = .ok reference :=
  fromStr_eq_ok_iff.2 ⟨h, [], Or.inl rfl, (List.append_nil _).symm⟩

/-- The text ends with a newline and has an `@` behind the first slash. -/
def LosesNewline (s : String) : Prop :=
  s.toList.getLast? = some '\n' ∧ '@' ∈ s.toList.dropWhile (· ≠ '/')

/-- A written reference has an `@` behind the first slash if it has a digest. -/
theorem mem_dropWhile_text (h : reference.WellFormed) (l : List Char) :
    '@' ∈ (reference.text.toList ++ l).dropWhile (· ≠ '/') ↔ reference.digest.isSome ∨ '@' ∈ l := by
  have hregistry : ∀ c ∈ reference.registry.toList, decide (c ≠ '/') = true := by
    simpa using h.registry
  have hrepository : '@' ∉ reference.repository.toList := fun hc ↦ (h.repository _ hc).2 rfl
  have htag : '@' ∉ optionText ':' reference.tag := by
    rcases htag : reference.tag with _ | tag
    · exact List.not_mem_nil
    · intro hc
      rcases List.mem_cons.1 hc with hc | hc
      · exact absurd hc (by decide)
      · exact h.tag tag htag _ hc rfl
  have hdigest : '@' ∈ optionText '@' reference.digest ↔ reference.digest.isSome := by
    cases reference.digest <;> simp [optionText]
  rw [toList_text, List.append_assoc, List.dropWhile_append_of_pos hregistry, List.cons_append,
    List.dropWhile_cons_of_neg (by decide)]
  simp [hrepository, htag, hdigest]

/-- A written reference that has a digest does not end with a newline. -/
theorem getLast?_text (h : reference.WellFormed) (hsome : reference.digest.isSome) :
    reference.text.toList.getLast? ≠ some '\n' := by
  obtain ⟨digest, hdigest⟩ := Option.isSome_iff_exists.1 hsome
  have hlast : reference.text.toList.getLast? = digest.toList.getLast? := by
    rw [toList_text, hdigest]
    show (_ ++ ('/' :: (_ ++ (_ ++ '@' :: digest.toList)))).getLast? = _
    rw [List.getLast?_eq_some_getLast (h.digest_ne digest hdigest)]
    simp [List.getLast?_append, List.getLast?_cons,
      List.getLast?_eq_some_getLast (h.digest_ne digest hdigest)]
  rw [hlast]
  intro hnewline
  exact h.digest digest hdigest _ (List.mem_of_getLast? hnewline) rfl

/-- **What is written of a reference that was read** is the text it was read from, but for a newline
behind the digest. -/
theorem text_fromStr_iff {s : String} (h : fromStr s = .ok reference) :
    reference.text = s ↔ ¬ LosesNewline s := by
  obtain ⟨hwf, ending, hending, hs⟩ := fromStr_eq_ok_iff.1 h
  have htext : reference.text = s ↔ ending = [] := by
    rw [← String.toList_inj, hs]
    simp
  rw [htext, LosesNewline, hs, mem_dropWhile_text hwf]
  rcases hending with rfl | ⟨rfl, hsome⟩
  · refine iff_of_true rfl ?_
    rintro ⟨hnewline, hdigest | hdigest⟩
    · exact getLast?_text hwf hdigest (by rwa [List.append_nil] at hnewline)
    · exact List.not_mem_nil hdigest
  · refine iff_of_false (by simp) ?_
    exact not_not.2 ⟨by simp, Or.inl hsome⟩

end Reading

/-- **Docker references round-trip, except for a newline behind a digest.** A text that is accepted is
what is written of the result exactly if it does not end with a newline while there is an `@` behind its
first slash; and every reference whose components are of the kinds that are read is read back. -/
theorem round_trip (s : String) (reference : DockerReference) :
    (fromStr s = .ok reference → (reference.text = s ↔ ¬ LosesNewline s)) ∧
      (reference.WellFormed → fromStr reference.text = .ok reference) :=
  ⟨text_fromStr_iff, fromStr_text⟩

/-- A reference in full. -/
theorem round_trip_sample :
    fromStr "lsst.io:5000/lab/sketch:w_1/a:b@sha256:12" =
      .ok ⟨"lsst.io:5000", "lab/sketch", some "w_1/a:b", some "sha256:12"⟩ ∧
    (⟨"lsst.io:5000", "lab/sketch", some "w_1/a:b", some "sha256:12"⟩ : DockerReference).text =
      "lsst.io:5000/lab/sketch:w_1/a:b@sha256:12" := by
  have hread : fromStr "lsst.io:5000/lab/sketch:w_1/a:b@sha256:12" =
      .ok ⟨"lsst.io:5000", "lab/sketch", some "w_1/a:b", some "sha256:12"⟩ := by decide
  refine ⟨hread, ((round_trip _ _).1 hread).2 ?_⟩
  rintro ⟨hnewline, -⟩
  revert hnewline
  decide

/-- The newline at the end is not part of the digest, nor of what is written. -/
theorem newline_lost : ¬ ∀ s reference, fromStr s = .ok reference → reference.text = s := by
  intro h
  have hread : fromStr "lsst.io/lab@sha256:12\n" =
      .ok ⟨"lsst.io", "lab", none, some "sha256:12"⟩ := by decide
  have htext := h _ _ hread
  revert htext
  decide

end DockerReference

end Nublado
