import Nublado.Foundations.Dict
import Nublado.Foundations.FileTree
import Nublado.Foundations.Numbers

/-!
# The environment of a lab

`EnvironmentConfigurator` sets the variables of the environment that a lab is started with. It does so in
place: what it has set before an exception stays set.

A part of it is a `Step`, from the variables that are set to those that are set then, and what stopped it
if anything did. Logging is left out.

## The outside

`Outside` is what the preparer asks of the container that it runs in: the variables of its own
environment, and what comes of its calls. A call that raises an `OSError` gives the exception as it is
reported; exceptions of other classes are not caught by the preparer, and nothing is said of them.
-/

namespace Nublado.Startup

/-- An `OSError`, converted to what is reported of it. -/
structure RSPStartupError where
  errno : String
  strerror : String
  errorcode : String
  message : String
  deriving DecidableEq

/-- What the preparer finds in the container. -/
structure Outside where
  /-- `os.environ` -/
  environ : String → Option String
  /-- The error for a variable that is missing. -/
  badEnv : String → RSPStartupError
  /-- What the relocation of the user's environment raises. -/
  relocation : Option RSPStartupError
  /-- `path.is_dir()` -/
  isDir : Path → Except RSPStartupError Bool
  /-- Whether a directory can be created. -/
  mkdir : Path → Bool
  /-- Whether a directory is writable. -/
  access : Path → Bool
  /-- The URL of the portal, if it is discovered. -/
  urlForUi : Except RSPStartupError (Option String)
  /-- What the tidying of the home directory raises. -/
  tidyHomedir : Option RSPStartupError
  /-- What the copying of files and the change of settings in the home directory raise. -/
  copyFiles : Option RSPStartupError

/-- `os.getenv(name)`, if that is not empty. -/
def Outside.getNonempty (o : Outside) (name : String) : Option String :=
  (o.environ name).filter (· ≠ "")

/-- The variables that have been set for the lab. -/
abbrev Env := List (String × String)

/-- What ends a computation before its end. -/
inductive Stop
  | osError (e : RSPStartupError)
  /-- An exception that is no `OSError`. -/
  | other
  deriving DecidableEq

/-- A part of the configuration. -/
abbrev Step := Env → Env × Option Stop

/-- One part after the other, up to one that is stopped. -/
def runSteps : List Step → Step
  | [], env => (env, none)
  | step :: steps, env =>
    if (step env).2.isNone then runSteps steps (step env).1 else step env

/-- `env[name]`, of a variable that is set. -/
def Env.get (env : Env) (name : String) : String := (env.lookup name).getD ""

namespace EnvironmentConfigurator

variable (o : Outside) (home : Path)

def setUser : Step := fun env ↦ (dictInsert env "USER" home.name, none)

/-- The directory of a user in the scratch space; an exception is raised for a user without a name if the
first letter is asked for. -/
def userScratchDir (user : String) : Option Path :=
  let scratchPath := Path.parse ((o.environ "SCRATCH_PATH").getD "/scratch")
  if (o.environ "HOMEDIR_SCHEMA").getD "username" = "initialThenUsername" then
    user.toList.head?.map fun c ↦ (scratchPath.joinText (String.ofList [c])).joinText user
  else some (scratchPath.joinText user)

/-- Whether a directory of the user in the scratch space can be used, and which: it is created. -/
def userScratchSubdir (user path : String) : Except Stop (Option (Path × Path)) :=
  match o.isDir (Path.parse ((o.environ "SCRATCH_PATH").getD "/scratch")) with
  | .error e => .error (.osError e)
  | .ok false => .ok none
  | .ok true =>
    match userScratchDir o user with
    | none => .error .other
    | some dir =>
      let subdir := dir.joinText path
      if o.mkdir subdir ∧ o.access subdir then .ok (some (dir, subdir)) else .ok none

/-- Set `SCRATCH_DIR` and a variable for a directory in the scratch space, if that can be used. -/
def setScratchVariable (name path : String) (default : Env → Env) : Step := fun env ↦
  if (o.getNonempty name).isSome then (env, none)
  else
    match userScratchSubdir o (env.get "USER") path with
    | .error stop => (env, some stop)
    | .ok none => (default env, none)
    | .ok (some (dir, subdir)) =>
      (dictInsert (dictInsert env "SCRATCH_DIR" dir.str) name subdir.str, none)

def setTmpdirIfScratchAvailable : Step := setScratchVariable o "TMPDIR" "tmp" id

def setButlerCache : Step :=
  setScratchVariable o "DAF_BUTLER_CACHE_DIRECTORY" "butler_cache" fun env ↦
    dictInsert env "DAF_BUTLER_CACHE_DIRECTORY" "/tmp/butler_cache"

/-- The variables that say how many processors there are. -/
def cpuVariables : List String :=
  ["CPU_LIMIT", "CPU_COUNT", "GOTO_NUM_THREADS", "MKL_DOMAIN_NUM_THREADS", "MPI_NUM_THREADS",
    "NUMEXPR_NUM_THREADS", "NUMEXPR_MAX_THREADS", "OMP_NUM_THREADS", "OPENBLAS_NUM_THREADS",
    "RAYON_NUM_THREADS"]

/-- The limit of processors; an exception is raised for infinitely many. -/
def cpuLimit : Option ℤ :=
  match floatPadded ((o.environ "CPU_LIMIT").getD "1").toList with
  | some (.finite x) => some (max (if 0 ≤ x then ⌊x⌋ else ⌈x⌉) 1)
  | some (.infinite _) => none
  | some .nan | none => some 1

def setCpuVariables : Step := fun env ↦
  match cpuLimit o with
  | none => (env, some .other)
  | some limit => (dictUpdate env (cpuVariables.map fun name ↦ (name, toString limit)), none)

/-- What follows the first occurrence of a text. -/
def afterMarker (marker : List Char) : List Char → Option (List Char)
  | [] => none
  | c :: l => if marker <+: c :: l then some ((c :: l).drop marker.length) else afterMarker marker l

/-- `get_digest()` -/
def getDigest : String :=
  ((afterMarker "@sha256:".toList ((o.environ "JUPYTER_IMAGE_SPEC").getD "").toList).map
    String.ofList).getD ""

def setImageDigest : Step := fun env ↦
  if getDigest o = "" then (env, none) else (dictInsert env "IMAGE_DIGEST" (getDigest o), none)

/-- `path.parts` -/
def pathParts (p : Path) : List String := if p.anchor = "" then p.parts else p.anchor :: p.parts

def expandPandaTilde : Step := fun env ↦
  match o.getNonempty "PANDA_CONFIG_ROOT" with
  | none => (env, none)
  | some root =>
    match pathParts (Path.parse root) with
    | [] => (env, some .other)
    | first :: rest =>
      if first = "~" ∨ first = "~" ++ env.get "USER" then
        (dictInsert env "PANDA_CONFIG_ROOT" { home with parts := home.parts ++ rest : Path }.str, none)
      else (env, none)

def setFireflyVariables : Step := fun env ↦
  match o.urlForUi with
  | .error e => (env, some (.osError e))
  | .ok url =>
    match url.filter (· ≠ "") with
    | none => (env, none)
    | some url => (dictInsert env "FIREFLY_URL" url, none)

def forceJupyterPreferEnvPathFalse : Step := fun env ↦
  (dictInsert env "JUPYTER_PREFER_ENV_PATH" "no", none)

/-- Let a variable name a file in the user's directory for credentials, and keep the file that it names. -/
def setCredentialVariable (name : String) (env : Env) : Env :=
  match o.getNonempty name with
  | none => env
  | some file =>
    dictInsert (dictInsert env ("ORIG_" ++ name) file) name
      ((home.joinText ".lsst").joinText (Path.parse file).name).str

def setButlerCredentialVariables : Step := fun env ↦
  (setCredentialVariable o home "PGPASSFILE"
    (setCredentialVariable o home "AWS_SHARED_CREDENTIALS_FILE" env), none)

/-- Set runtime environment variables used by Lab. -/
def configureEnv : Step :=
  runSteps [setUser home, setTmpdirIfScratchAvailable o, setButlerCache o, setCpuVariables o,
    setImageDigest o, expandPandaTilde o home, setFireflyVariables o, forceJupyterPreferEnvPathFalse,
    setButlerCredentialVariables o home]

end EnvironmentConfigurator

end Nublado.Startup
