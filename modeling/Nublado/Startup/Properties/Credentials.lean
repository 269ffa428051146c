import Nublado.Startup.Credentials
import Nublado.Startup.Pgpass

/-!
# Which Postgres credentials win

The merge keeps, for each text before the last colon of a line, the place of the first line and the
password of the last one. Password files are read otherwise: the first line that matches a connection
gives the password, whatever text it matches with.

`lookup_mergePgpass` says which rules the merged file stands for (`keptRules`). `site_wins_iff` compares
them with what they are meant to be, the rules of the site's file before those of the user's: two rules
that share connections must have the same password if both come first for some of them. Merging again
changes nothing in any case (`mergePgpass_mergePgpass`).
-/

namespace Nublado.Startup

open Pgpass

variable {l line : List Char} {lines : List (List Char)}

/-! ### Lines -/

/-- There is no end of a line in the text. -/
def IsLine (l : List Char) : Prop := ∀ c ∈ l, isLineBoundary c = false

theorem isLineBoundary_newline : isLineBoundary '\n' = true := by decide

theorem IsLine.not_mem_newline (h : IsLine l) : '\n' ∉ l := by
  intro hmem
  have hfalse := h _ hmem
  rw [isLineBoundary_newline] at hfalse
  cases hfalse

theorem IsLine.not_mem_return (h : IsLine l) : '\r' ∉ l := fun hmem ↦ by
  have hfalse := h _ hmem
  have htrue : isLineBoundary '\r' = true := by decide
  rw [htrue] at hfalse
  cases hfalse

theorem isLine_of_mem_splitlines (h : line ∈ splitlines l) : IsLine line := by
  induction l generalizing line with
  | nil => cases h
  | cons c l ih =>
    rw [splitlines] at h
    by_cases hc : isLineBoundary c = true
    · rw [if_pos hc] at h
      rcases List.mem_cons.1 h with rfl | h
      · exact fun c hc ↦ by cases hc
      · exact ih h
    · rw [if_neg hc] at h
      have hc : isLineBoundary c = false := Bool.eq_false_of_not_eq_true hc
      rcases hlines : splitlines l with _ | ⟨first, rest⟩
      · rw [hlines] at h
        obtain rfl := List.mem_singleton.1 h
        intro d hd
        rwa [List.mem_singleton.1 hd]
      · rw [hlines] at h ih
        rcases List.mem_cons.1 h with rfl | h
        · exact List.forall_mem_cons.2 ⟨hc, ih List.mem_cons_self⟩
        · exact ih (List.mem_cons_of_mem _ h)

/-- A line is split off with the newline behind it. -/
theorem splitlines_append (h : IsLine line) (rest : List Char) :
    splitlines (line ++ '\n' :: rest) = line :: splitlines rest := by
  induction line with
  | nil => rw [List.nil_append, splitlines, if_pos isLineBoundary_newline]
  | cons c line ih =>
    obtain ⟨hc, hline⟩ := List.forall_mem_cons.1 h
    rw [List.cons_append, splitlines, hc, ih hline]
    rfl

/-- A text without carriage returns is read as it is. -/
theorem readText_eq_self (h : '\r' ∉ l) : readText l = l := by
  induction l with
  | nil => rfl
  | cons c l ih =>
    have hc : c ≠ '\r' := fun heq ↦ h (heq ▸ List.mem_cons_self)
    rw [readText, ih fun hmem ↦ h (List.mem_cons_of_mem _ hmem)]
    · rintro l' rfl
      exact absurd rfl hc
    · exact hc

/-- **Lines are split as they were written.** -/
theorem splitlines_readText_flatMap (h : ∀ line ∈ lines, IsLine line) :
    splitlines (readText (lines.flatMap fun line ↦ line ++ ['\n'])) = lines := by
  rw [readText_eq_self]
  · induction lines with
    | nil => rfl
    | cons line lines ih =>
      obtain ⟨hline, hlines⟩ := List.forall_mem_cons.1 h
      rw [List.flatMap_cons, List.append_assoc, List.singleton_append, splitlines_append hline,
        ih hlines]
  · intro hmem
    obtain ⟨line, hline, hmem⟩ := List.mem_flatMap.1 hmem
    rcases List.mem_append.1 hmem with hmem | hmem
    · exact (h line hline).not_mem_return hmem
    · exact absurd (List.mem_singleton.1 hmem) (by decide)

/-- The format of password files has the same lines, and an empty one. -/
theorem fileLines_flatMap (h : ∀ line ∈ lines, IsLine line) :
    fileLines (lines.flatMap fun line ↦ line ++ ['\n']) = lines ++ [[]] := by
  have hsplit : (lines.flatMap fun line ↦ line ++ ['\n']).splitOn '\n' = lines ++ [[]] := by
    have hjoin : (lines.flatMap fun line ↦ line ++ ['\n']) =
        ['\n'].intercalate (lines ++ [[]]) := by
      induction lines with
      | nil => rfl
      | cons line lines ih =>
        rw [List.flatMap_cons, ih (List.forall_mem_cons.1 h).2]
        rcases lines with _ | ⟨second, lines⟩
        · simp [List.intercalate]
        · simp [List.intercalate]
    rw [hjoin, List.splitOn_intercalate]
    · intro line hline
      rcases List.mem_append.1 hline with hline | hline
      · exact (h line hline).not_mem_newline
      · obtain rfl := List.mem_singleton.1 hline
        exact List.not_mem_nil
    · simp
  rw [fileLines, hsplit]
  refine (List.map_congr_left fun line hline ↦ ?_).trans (List.map_id' _)
  have hreturn : '\r' ∉ line := by
    rcases List.mem_append.1 hline with hline | hline
    · exact (h line hline).not_mem_return
    · obtain rfl := List.mem_singleton.1 hline
      exact List.not_mem_nil
  refine List.rdropWhile_eq_self_iff.2 fun hne hlast ↦ hreturn ?_
  rw [← of_decide_eq_true hlast]
  exact List.getLast_mem hne

/-! ### Credentials -/

variable {file user site : List Char} {config : List (String × String)} {p : String × String}

/-- What a line is split into is what it was put together from: texts on one line, the second without a
colon and without whitespace at its end. -/
structure IsCredential (p : String × String) : Prop where
  connection : IsLine p.1.toList
  passwd : IsLine p.2.toList
  no_colon : ':' ∉ p.2.toList
  stripped : rstrip p.2.toList = p.2.toList

theorem isCredential_of_splitCredential (hline : IsLine line) (h : splitCredential line = some p) :
    IsCredential p := by
  obtain ⟨-, heq⟩ := Option.ite_none_right_eq_some.1 h
  obtain rfl := Option.some.inj heq
  have hback : ∀ c ∈ rstrip (line.rtakeWhile (· ≠ ':')), c ∈ line.rtakeWhile (· ≠ ':') :=
    fun c hc ↦ (List.rdropWhile_prefix _ _).subset hc
  refine ⟨?_, ?_, ?_, ?_⟩
  · rw [String.toList_ofList]
    exact fun c hc ↦ hline c ((List.rdropWhile_prefix _ _).subset (List.mem_of_mem_dropLast hc))
  · rw [String.toList_ofList]
    exact fun c hc ↦ hline c ((List.rtakeWhile_suffix _ _).subset (hback c hc))
  · rw [String.toList_ofList]
    intro hmem
    simpa using List.mem_rtakeWhile_imp (hback _ hmem)
  · rw [String.toList_ofList]
    exact List.rdropWhile_idempotent _ _

theorem isCredential_of_mem (h : p ∈ credentials file) : IsCredential p := by
  obtain ⟨line, hline, hsplit⟩ := List.mem_filterMap.1 h
  exact isCredential_of_splitCredential (isLine_of_mem_splitlines hline) hsplit

/-- A line is split at its last colon. -/
theorem splitCredential_credentialLine (h : IsCredential p) :
    splitCredential (credentialLine p.1 p.2) = some p := by
  have hpasswd : ∀ c ∈ p.2.toList, decide (c ≠ ':') = true := by
    intro c hc
    refine decide_eq_true ?_
    rintro rfl
    exact h.no_colon hc
  have hreverse : (credentialLine p.1 p.2).reverse = p.2.toList.reverse ++ ':' :: p.1.toList.reverse := by
    simp [credentialLine]
  have hpasswd : ∀ c ∈ p.2.toList.reverse, decide (c ≠ ':') = true :=
    fun c hc ↦ hpasswd c (List.mem_reverse.1 hc)
  have htake : (credentialLine p.1 p.2).rtakeWhile (· ≠ ':') = p.2.toList := by
    rw [List.rtakeWhile, hreverse, List.takeWhile_append_of_pos hpasswd]
    simp
  have hdrop : (credentialLine p.1 p.2).rdropWhile (· ≠ ':') = p.1.toList ++ [':'] := by
    rw [List.rdropWhile, hreverse, List.dropWhile_append_of_pos hpasswd]
    simp
  rw [splitCredential, if_pos (by simp [credentialLine]), htake, hdrop, List.dropLast_concat, h.stripped,
    String.ofList_toList, String.ofList_toList]

theorem isLine_credentialLine (h : IsCredential p) : IsLine (credentialLine p.1 p.2) := by
  intro c hc
  rcases List.mem_append.1 hc with hc | hc
  · exact h.connection c hc
  · rcases List.mem_cons.1 hc with rfl | hc
    · decide
    · exact h.passwd c hc

/-- The text of a dictionary of credentials. -/
def configText (config : List (String × String)) : List Char :=
  (config.map fun p ↦ credentialLine p.1 p.2).flatMap fun line ↦ line ++ ['\n']

theorem mergePgpass_eq (user site : List Char) :
    mergePgpass user site = configText (dictUpdate (dictUpdate [] (credentials user))
      (credentials site)) := by
  rw [mergePgpass, configText, List.flatMap_map]

/-- **Credentials are read as they were written.** -/
theorem credentials_configText (h : ∀ p ∈ config, IsCredential p) :
    credentials (configText config) = config := by
  have hlines : ∀ line ∈ config.map fun p ↦ credentialLine p.1 p.2, IsLine line := by
    intro line hline
    obtain ⟨p, hp, rfl⟩ := List.mem_map.1 hline
    exact isLine_credentialLine (h p hp)
  rw [credentials, configText, splitlines_readText_flatMap hlines, List.filterMap_map]
  refine (List.filterMap_congr fun p hp ↦ ?_).trans List.filterMap_some
  exact splitCredential_credentialLine (h p hp)

/-! ### Merging again -/

theorem isCredential_of_merged (h : p ∈ dictUpdate (dictUpdate [] (credentials user))
    (credentials site)) : IsCredential p := by
  rcases mem_dictUpdate h with h | h
  · rcases mem_dictUpdate h with h | h
    · cases h
    · exact isCredential_of_mem h
  · exact isCredential_of_mem h

/-- **Merging again changes nothing.** -/
theorem mergePgpass_mergePgpass (user site : List Char) :
    mergePgpass (mergePgpass user site) site = mergePgpass user site := by
  have hdistinct : DistinctKeys (dictUpdate [] (credentials user)) :=
    distinctKeys_dictUpdate (d := []) List.nodup_nil _
  have hself : dictUpdate [] (dictUpdate (dictUpdate [] (credentials user)) (credentials site)) =
      dictUpdate (dictUpdate [] (credentials user)) (credentials site) :=
    dictUpdate_eq_append (d := []) (distinctKeys_dictUpdate hdistinct _)
  rw [mergePgpass_eq, mergePgpass_eq, credentials_configText fun p ↦ isCredential_of_merged, hself,
    dictUpdate_dictUpdate hdistinct]

/-! ### What is looked up -/

/-- The lines of both files with a colon, the user's first. -/
def bothCredentials (user site : List Char) : List (String × String) :=
  credentials user ++ credentials site

/-- The last password with a text before the last colon. -/
def lastPasswd (lines : List (String × String)) (connection : String) : String :=
  (lines.reverse.lookup connection).getD ""

/-- The rules that the merge keeps: those of the lines of both files, each with the last password for the
same text before the last colon. -/
def keptRules (user site : List Char) : List Rule :=
  (bothCredentials user site).filterMap fun p ↦
    parseLine (credentialLine p.1 (lastPasswd (bothCredentials user site) p.1))

/-- The rules that are meant to be kept: those of the site come first. -/
def meantRules (user site : List Char) : List Rule := rules site ++ rules user

theorem firstMatch_filterMap {α : Type} (f : α → Option Rule) (l : List α) (c : Connection) :
    firstMatch (l.filterMap f) c =
      l.findSome? fun a ↦ (f a).bind fun rule ↦ if rule.1.Matches c then some rule.2 else none := by
  induction l with
  | nil => rfl
  | cons a l ih =>
    rcases hf : f a with _ | rule
    · rw [List.filterMap_cons_none hf, ih, List.findSome?_cons, hf]
      rfl
    · rw [List.filterMap_cons_some hf, List.findSome?_cons, hf, Option.bind_some, ← ih, firstMatch,
        firstMatch]
      by_cases hmatches : rule.1.Matches c
      · rw [List.find?_cons_of_pos (by simpa using hmatches), if_pos hmatches]
        rfl
      · rw [List.find?_cons_of_neg (by simpa using hmatches), if_neg hmatches]

theorem firstMatch_append {rules rules' : List Rule} {c : Connection} :
    firstMatch (rules ++ rules') c = (firstMatch rules c).or (firstMatch rules' c) := by
  rw [firstMatch, List.find?_append, Option.map_or]
  rfl

/-- **What the merged file says.** -/
theorem lookup_mergePgpass (user site : List Char) (c : Connection) :
    lookup (mergePgpass user site) c = firstMatch (keptRules user site) c := by
  set config := dictUpdate (dictUpdate [] (credentials user)) (credentials site) with hconfig
  have hmerged : config = dictUpdate [] (bothCredentials user site) := by
    rw [hconfig, bothCredentials, dictUpdate, dictUpdate, dictUpdate, List.foldl_append]
  have hdistinct : DistinctKeys config := by
    rw [hmerged]
    exact distinctKeys_dictUpdate (d := []) List.nodup_nil _
  have hlast : ∀ p ∈ config, p.2 = lastPasswd (bothCredentials user site) p.1 := by
    intro p hp
    have hlookup := lookup_of_mem hdistinct (show (p.1, p.2) ∈ config from hp)
    rw [hmerged, lookup_dictUpdate, List.lookup_nil, Option.or_none] at hlookup
    rw [lastPasswd, hlookup, Option.getD_some]
  have hlines : ∀ line ∈ config.map fun p ↦ credentialLine p.1 p.2, IsLine line := by
    intro line hline
    obtain ⟨p, hp, rfl⟩ := List.mem_map.1 hline
    exact isLine_credentialLine (isCredential_of_merged hp)
  set g : String → Option Rule := fun connection ↦
    parseLine (credentialLine connection (lastPasswd (bothCredentials user site) connection)) with hg
  have hrules : rules (mergePgpass user site) = (config.map Prod.fst).filterMap g := by
    rw [rules, mergePgpass_eq, ← hconfig, configText, fileLines_flatMap hlines, List.filterMap_append,
      List.filterMap_map, List.filterMap_map]
    refine (List.append_nil _).trans (List.filterMap_congr fun p hp ↦ ?_)
    show parseLine (credentialLine p.1 p.2) =
      parseLine (credentialLine p.1 (lastPasswd (bothCredentials user site) p.1))
    rw [← hlast p hp]
  have hkept : keptRules user site = ((bothCredentials user site).map Prod.fst).filterMap g := by
    rw [keptRules, List.filterMap_map]
    rfl
  rw [lookup, hrules, hkept, firstMatch_filterMap, firstMatch_filterMap, hmerged,
    findSome?_keys_dictUpdate]
  rfl

/-! ### Which credentials win -/

/-- The credentials of the site win: a connection for which a line of the site's file matches gets the
password that the site's file gives, any other what the user's file gave, and merging again changes
nothing. -/
structure SiteWins (user site : List Char) : Prop where
  wins : ∀ c passwd, lookup site c = some passwd → lookup (mergePgpass user site) c = some passwd
  others : ∀ c, lookup site c = none → lookup (mergePgpass user site) c = lookup user c
  again : mergePgpass (mergePgpass user site) site = mergePgpass user site

/-- **The credentials of the site win** exactly if the rules that are kept agree with those that are meant
to be. -/
theorem site_wins_iff (user site : List Char) :
    SiteWins user site ↔ Agree (keptRules user site) (meantRules user site) := by
  rw [← firstMatch_congr_iff]
  have hmeant : ∀ c, firstMatch (meantRules user site) c = (lookup site c).or (lookup user c) :=
    fun c ↦ firstMatch_append
  constructor
  · rintro ⟨hsite, huser, -⟩ c
    rw [← lookup_mergePgpass, hmeant]
    rcases hlookup : lookup site c with _ | passwd
    · rw [huser c hlookup, Option.none_or]
    · rw [hsite c passwd hlookup, Option.some_or]
  · intro h
    refine ⟨fun c passwd hlookup ↦ ?_, fun c hlookup ↦ ?_, mergePgpass_mergePgpass user site⟩
    · rw [lookup_mergePgpass, h c, hmeant, hlookup, Option.some_or]
    · rw [lookup_mergePgpass, h c, hmeant, hlookup, Option.none_or]

namespace Sample

/-- A line of the user's file for every connection. -/
def mine : List Char := "*:*:*:*:mine\n".toList

/-- A line of the site's file. -/
def theirs : List Char := "db:5432:lsst:rachel:theirs\n".toList

/-- The connection that it is for. -/
def rachel : Connection
  | .host => "db".toList
  | .port => "5432".toList
  | .database => "lsst".toList
  | .user => "rachel".toList

end Sample

/-- **A wildcard of the user's** comes before a line of the site's. -/
theorem wildcard_wins : lookup Sample.theirs Sample.rachel = some "theirs".toList ∧
    lookup (mergePgpass Sample.mine Sample.theirs) Sample.rachel = some "mine".toList ∧
    ¬ SiteWins Sample.mine Sample.theirs := by
  have htheirs : lookup Sample.theirs Sample.rachel = some "theirs".toList := by decide
  have hmine : lookup (mergePgpass Sample.mine Sample.theirs) Sample.rachel =
      some "mine".toList := by decide
  refine ⟨htheirs, hmine, fun h ↦ ?_⟩
  have hwins := h.wins _ _ htheirs
  rw [hmine] at hwins
  exact absurd hwins (by decide)

end Nublado.Startup
