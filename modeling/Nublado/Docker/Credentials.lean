import Nublado.Docker.Client
import Nublado.Foundations.Base64
import Nublado.Foundations.JsonText

/-!
# Stored credentials

The file of credentials for Docker registries, in the format that Kubernetes uses for pull secrets.
Credentials are stored under their host or domain, with the text that they have in an `Authorization`
header; that text alone is read back, and taken apart at its first colon. What raises an exception is
absent.
-/

namespace Nublado.Docker

/-- The credentials for one Docker API server, as they are configured. -/
structure StoredCredentials where
  username : String
  password : String
  deriving DecidableEq

namespace StoredCredentials

/-- What is encoded of the credentials. -/
def authData (c : StoredCredentials) : String := c.username ++ ":" ++ c.password

/-- Credentials in encoded form suitable for `Authorization`. -/
def credentials (c : StoredCredentials) : String :=
  String.ofList (Base64.encode (Bytes.encode c.authData))

/-- Authentication string for the `Authorization` header. -/
def authorization (c : StoredCredentials) : String := "Basic " ++ c.credentials

/-- `text.split(":", 1)`, if there are two parts. -/
def split (text : List Char) : Option StoredCredentials :=
  match text.dropWhile (· ≠ ':') with
  | [] => none
  | _ :: password => some ⟨String.ofList (text.takeWhile (· ≠ ':')), String.ofList password⟩

/-- Create from a Docker config entry. -/
def fromConfig (config : Json) : Option StoredCredentials :=
  ((config.get "auth").bind Json.text).bind fun auth ↦
    ((Base64.decode auth.toList).bind Bytes.decode).bind fun basicAuth ↦ split basicAuth.toList

/-- Convert the credentials to a Docker config entry. -/
def toConfig (c : StoredCredentials) : Json :=
  .object [("username", .string c.username), ("password", .string c.password),
    ("auth", .string c.credentials)]

/-- The credentials as the client uses them. -/
def toClient (c : StoredCredentials) : DockerCredentials where
  username := c.username
  password := c.password
  authorization := c.authorization

end StoredCredentials

open StoredCredentials

/-- Credentials by host or domain, as they are configured. -/
abbrev CredentialFile := List (String × StoredCredentials)

namespace CredentialFile

/-- Load credentials for Docker API hosts from a file. -/
def fromPath (text : List Char) : Option CredentialFile :=
  (((Json.loads text).bind fun data ↦ data.get "auths").bind Json.items).bind fun auths ↦
    auths.mapM fun p ↦ (fromConfig p.2).map fun c ↦ (p.1, c)

/-- The store that the client gets its credentials from. -/
def toClient (store : CredentialFile) : DockerCredentialStore :=
  store.map fun p ↦ (p.1, p.2.toClient)

/-- Set credentials for a given host. -/
def set (store : CredentialFile) (host : String) (c : StoredCredentials) : CredentialFile :=
  setKey store host c

/-- What is saved. -/
def data (store : CredentialFile) : Json :=
  .object [("auths", .object (store.map fun p ↦ (p.1, toConfig p.2)))]

/-- Save the credentials store in `.dockerconfigjson` format. -/
def save (floatText : ℚ → List Char) (store : CredentialFile) : List Char :=
  Json.dumps floatText store.data

end CredentialFile

end Nublado.Docker
