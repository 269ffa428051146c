import Nublado.Docker.Credentials

/-!
# Saved credentials authorize as before

A store of credentials that is saved and loaded again. Of each entry the encoded text is read back
(`fromConfig_toConfig`), so that the `Authorization` header for every host is the same whatever the
credentials are; the user name and the password are the same if the user name has no colon in it
(`resplit_eq_iff`), where the text is taken apart.
-/

namespace Nublado.Docker

namespace StoredCredentials

variable {c : StoredCredentials}

/-- The credentials as they are read back. -/
def resplit (c : StoredCredentials) : StoredCredentials := (split c.authData.toList).getD c

theorem split_append {user password : List Char} (h : ':' ∉ user) :
    split (user ++ ':' :: password) = some ⟨String.ofList user, String.ofList password⟩ := by
  have huser : ∀ x ∈ user, decide (x ≠ ':') = true := fun x hx ↦
    decide_eq_true fun heq ↦ h (heq ▸ hx)
  rw [split, List.dropWhile_append_of_pos huser, List.takeWhile_append_of_pos huser,
    List.dropWhile_cons_of_neg (by simp), List.takeWhile_cons_of_neg (by simp), List.append_nil]

/-- A text with a colon is taken apart into what it was put together from. -/
theorem exists_split {text : List Char} (h : ':' ∈ text) :
    ∃ c, split text = some c ∧ c.authData.toList = text ∧ ':' ∉ c.username.toList := by
  obtain ⟨user, password, rfl, huser⟩ := List.eq_append_cons_of_mem h
  refine ⟨_, split_append huser, ?_, ?_⟩
  · simp [authData]
  · rwa [String.toList_ofList]

theorem toList_authData (c : StoredCredentials) :
    c.authData.toList = c.username.toList ++ ':' :: c.password.toList := by
  simp [authData]

theorem split_authData (c : StoredCredentials) : split c.authData.toList = some (resplit c) := by
  have hcolon : ':' ∈ c.authData.toList := by simp [toList_authData]
  obtain ⟨c', hsplit, -⟩ := exists_split hcolon
  rw [resplit, hsplit]
  rfl

/-- **The encoded text stays the same.** -/
theorem authData_resplit (c : StoredCredentials) : (resplit c).authData = c.authData := by
  have hcolon : ':' ∈ c.authData.toList := by simp [toList_authData]
  obtain ⟨c', hsplit, hdata, -⟩ := exists_split hcolon
  obtain rfl := Option.some.inj (hsplit.symm.trans (split_authData c))
  exact String.toList_inj.1 hdata

theorem authorization_resplit (c : StoredCredentials) :
    (resplit c).authorization = c.authorization := by
  rw [authorization, authorization, credentials, credentials, authData_resplit]

/-- **The user name and the password stay the same** if there is no colon in the user name. -/
theorem resplit_eq_iff : resplit c = c ↔ ':' ∉ c.username.toList := by
  constructor
  · intro h
    have hcolon : ':' ∈ c.authData.toList := by simp [toList_authData]
    obtain ⟨c', hsplit, -, huser⟩ := exists_split hcolon
    obtain rfl := Option.some.inj (hsplit.symm.trans (split_authData c))
    rwa [h] at huser
  · intro h
    have hsplit := @split_append _ c.password.toList h
    rw [← toList_authData, split_authData, String.ofList_toList, String.ofList_toList] at hsplit
    exact Option.some.inj hsplit

/-- **An entry is read back** from its encoded text. -/
theorem fromConfig_toConfig (c : StoredCredentials) : fromConfig c.toConfig = some (resplit c) := by
  have hauth : (c.toConfig.get "auth").bind Json.text = some c.credentials := rfl
  rw [fromConfig, hauth, Option.bind_some, credentials, String.toList_ofList, Base64.decode_encode,
    Option.bind_some, Bytes.decode_encode, Option.bind_some, split_authData]

end StoredCredentials

namespace CredentialFile

open StoredCredentials

variable {store : CredentialFile}

/-- The store as it is read back. -/
def resplit (store : CredentialFile) : CredentialFile :=
  store.map fun p ↦ (p.1, StoredCredentials.resplit p.2)

theorem written_data (h : DistinctKeys store) : Json.Written store.data := by
  have hentry : ∀ c : StoredCredentials, Json.Written c.toConfig := by
    intro c
    have hkeys : List.Nodup ["username", "password", "auth"] := by decide
    refine .object hkeys fun p hp ↦ ?_
    simp only [List.mem_cons, List.not_mem_nil, or_false] at hp
    rcases hp with rfl | rfl | rfl <;> exact .string _
  refine .object (List.nodup_singleton _) fun p hp ↦ ?_
  obtain rfl := List.mem_singleton.1 hp
  refine .object ?_ fun p hp ↦ ?_
  · rw [DistinctKeys, List.map_map]
    exact h
  · obtain ⟨q, -, rfl⟩ := List.mem_map.1 hp
    exact hentry q.2

/-- **A saved store is loaded.** -/
theorem fromPath_save (h : DistinctKeys store) (floatText : ℚ → List Char) :
    fromPath (store.save floatText) = some store.resplit := by
  have hentries : ∀ l : CredentialFile, (l.map fun p ↦ (p.1, p.2.toConfig)).mapM
      (fun p ↦ (fromConfig p.2).map fun c ↦ (p.1, c)) = some (resplit l) := by
    intro l
    induction l with
    | nil => rfl
    | cons p l ih =>
      rw [List.map_cons, List.mapM_cons, ih, fromConfig_toConfig]
      rfl
  rw [fromPath, save, Json.loads_dumps (written_data h)]
  exact hentries store

theorem resplit_eq_self_iff : store.resplit = store ↔ ∀ p ∈ store, ':' ∉ p.2.username.toList := by
  induction store with
  | nil => simp [resplit]
  | cons p store ih =>
    rw [resplit, List.map_cons, List.cons.injEq, List.forall_mem_cons, ← resplit_eq_iff]
    exact and_congr (by rw [Prod.ext_iff]; simp) ih

/-- The credentials for a host are found by the hosts in the store alone. -/
theorem get_map (φ : StoredCredentials → DockerCredentials) (store : CredentialFile) (host : String) :
    DockerCredentialStore.get (store.map fun p ↦ (p.1, φ p.2)) host =
      ((store.lookup host).or
        ((store.find? fun p ↦ ('.' :: p.1.toList).isSuffixOf host.toList).map Prod.snd)).map φ := by
  have hlookup : (store.map fun p ↦ (p.1, φ p.2)).lookup host = (store.lookup host).map φ := by
    induction store with
    | nil => rfl
    | cons p store ih =>
      rw [List.map_cons, List.lookup_cons, List.lookup_cons, ih]
      split <;> rfl
  rw [DockerCredentialStore.get, hlookup]
  rcases store.lookup host with _ | c
  · rw [Option.map_none, Option.none_or, List.find?_map, Option.map_map, Option.map_map]
    rfl
  · rfl

/-- **The header for a host** is the same after loading. -/
theorem get_resplit (store : CredentialFile) (host : String) :
    (store.resplit.toClient.get host).map DockerCredentials.authorization =
      (store.toClient.get host).map DockerCredentials.authorization := by
  have hloaded : store.resplit.toClient =
      store.map fun p ↦ (p.1, (StoredCredentials.resplit p.2).toClient) := by
    rw [toClient, resplit, List.map_map]
    rfl
  rw [hloaded, toClient, get_map fun c ↦ (StoredCredentials.resplit c).toClient,
    get_map StoredCredentials.toClient, Option.map_map, Option.map_map]
  exact congrFun (congrArg Option.map (funext authorization_resplit)) _

/-- **A store that has been saved and loaded** gives every host the same authorization, whatever is in
it; and it is the same store exactly if no user name has a colon in it. -/
theorem saved_store_authorizes (h : DistinctKeys store) (floatText : ℚ → List Char) :
    ∃ loaded, fromPath (store.save floatText) = some loaded ∧
      (∀ host, (loaded.toClient.get host).map DockerCredentials.authorization =
        (store.toClient.get host).map DockerCredentials.authorization) ∧
      (loaded = store ↔ ∀ p ∈ store, ':' ∉ p.2.username.toList) :=
  ⟨store.resplit, fromPath_save h floatText, get_resplit store, resplit_eq_self_iff⟩

/-- Credentials for a domain, with a colon in the user name. -/
private def sampleStore : CredentialFile := [("docker.io", ⟨"team:robot", "secret"⟩)]

/-- The user name of the sample is cut, and its header stays. -/
theorem saved_store_authorizes_sample :
    ∃ loaded, fromPath (sampleStore.save fun _ ↦ []) = some loaded ∧
      (∀ host, (loaded.toClient.get host).map DockerCredentials.authorization =
        (sampleStore.toClient.get host).map DockerCredentials.authorization) ∧ loaded ≠ sampleStore := by
  have hkeys : DistinctKeys sampleStore := List.nodup_singleton _
  obtain ⟨loaded, hload, hsame, hiff⟩ := saved_store_authorizes hkeys fun _ ↦ []
  refine ⟨loaded, hload, hsame, fun heq ↦ ?_⟩
  exact hiff.1 heq ("docker.io", ⟨"team:robot", "secret"⟩) List.mem_cons_self (by decide)

end CredentialFile

end Nublado.Docker
