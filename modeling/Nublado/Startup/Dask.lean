import Nublado.Foundations.Settings
import Nublado.Images.Models

/-!
# The configuration of Dask

`DaskConfigurator.setup_dask` prepares the user's directory `.config/dask`: it moves files aside in
which nothing is set, corrects links to the dashboard that have the old form, and writes
`dashboard.yaml` if the files do not have the link.

* **Files** are what the YAML in them loads to, a mapping. Loading what has been dumped gives the same
  mapping, but for the order of its keys, which nothing here depends on. Writing succeeds.
* **Values** other than null and strings, lists among them, are never looked into and are a parameter.
  Keys are values too.
* **The directory** is what `glob` lists for each of the two suffixes, in the order in which it lists
  them, and the backups, which Dask does not load. The order is arbitrary but files that stay keep
  theirs; where a new file comes is a parameter. A directory that does not exist has no files.

Logging is left out, and so are files that are no mappings and a `.config/dask` that is no directory.
-/

namespace Nublado.Startup

/-- A value in a YAML file that is no mapping, or a key. -/
inductive Scalar (ν : Type) where
  | null
  | str (text : List Char)
  | other (v : ν)
  deriving DecidableEq

/-- `val is None` -/
def Scalar.isNull {ν : Type} : Scalar ν → Bool
  | .null => true
  | _ => false

/-- A mapping that has been loaded from a file. -/
abbrev Config (ν : Type) := List (Scalar ν × Settings (Scalar ν) (Scalar ν))

/-- Files, by their names. -/
abbrev ConfigFiles (ν : Type) := List (String × Config ν)

/-- The user's directory `.config/dask`. -/
structure ConfigDir (ν : Type) where
  /-- `cfgdir.glob("*.yaml")` -/
  yaml : ConfigFiles ν
  /-- `cfgdir.glob("*.yml")` -/
  yml : ConfigFiles ν
  /-- The files that have a date as suffix. -/
  backups : ConfigFiles ν

namespace ConfigDir

variable {ν : Type}

/-- The files that Dask loads. -/
def files (dir : ConfigDir ν) : ConfigFiles ν := dir.yaml ++ dir.yml

end ConfigDir

/-- What stops the setup: a value that is no mapping has no keys. -/
inductive LookupError
  | keyError
  | typeError
  deriving DecidableEq

namespace DaskConfigurator

/-- `"distributed"`, the key of a mapping -/
def distributed {ν : Type} : Scalar ν := .str "distributed".toList

def dashboard {ν : Type} : Scalar ν := .str "dashboard".toList

def link {ν : Type} : Scalar ν := .str "link".toList

/-- `distributed.dashboard.link` -/
def linkPath {ν : Type} : List (Scalar ν) := [distributed, dashboard, link]

/-- The template of a link that does not know of user domains. -/
def old : List Char := "{EXTERNAL_INSTANCE_URL}{JUPYTERHUB_SERVICE_PREFIX}".toList

/-- The template of a link that is right with user domains and without. -/
def new : List Char := "{JUPYTERHUB_PUBLIC_URL}".toList

def newlink : List Char := "{JUPYTERHUB_PUBLIC_URL}proxy/{port}/status".toList

/-- `dashboard.yaml` -/
def dashboardYaml : String := "dashboard.yaml"

/-- `val.find(part) > -1` -/
def contains (val part : List Char) : Bool := val.tails.any part.isPrefixOf

section Configurator

variable {ν : Type} [DecidableEq ν]

/-- What is under `"distributed"` in a file with nothing but the link. -/
def goodDistributed : Settings (Scalar ν) (Scalar ν) :=
  .mapping [(dashboard, .mapping [(link, .value (.str newlink))])]

/-- `{"distributed": {"dashboard": {"link": newlink}}}` -/
def goodlink : Config ν := [(distributed, goodDistributed)]

/-- `_flense_dict`: the settings that are not null, if there are any. -/
def flenseDict (obj : Config ν) : Option (Config ν) :=
  if obj = [] then none
  else if Settings.pruneEntries Scalar.isNull obj = [] then none
  else some (Settings.pruneEntries Scalar.isNull obj)

/-- `settings[key]` -/
def getItem (settings : Settings (Scalar ν) (Scalar ν)) (key : Scalar ν) :
    Except LookupError (Settings (Scalar ν) (Scalar ν)) :=
  match settings with
  | .value _ => .error .typeError
  | .mapping entries => (entries.lookup key).elim (.error .keyError) .ok

/-- `cfg["distributed"]["dashboard"]["link"]` -/
def getLink (cfg : Config ν) : Except LookupError (Settings (Scalar ν) (Scalar ν)) := do
  getItem (← getItem (← getItem (.mapping cfg) distributed) dashboard) link

/-- What `_fix_dashboard` does with a file. -/
structure Fixed (ν : Type) where
  /-- Whether the file is copied to a backup. -/
  backedUp : Bool
  /-- What is written to the file, if anything. -/
  written : Option (Config ν)
  /-- Whether the file has the new link. -/
  good : Bool

/-- Nothing is done about a file. -/
def Fixed.untouched (good : Bool) : Fixed ν := ⟨false, none, good⟩

/-- `_fix_dashboard` -/
def fixDashboard (cfg : Config ν) : Except LookupError (Fixed ν) :=
  match getLink cfg with
  | .error .keyError => .ok (.untouched false)
  | .error .typeError => .error .typeError
  | .ok (.value (.str val)) =>
    if contains val new then .ok (.untouched true)
    else if !contains val old then .ok (.untouched false)
    else
      let newval := Images.replaceChars old new 0 val
      if newval = val then .ok ⟨true, none, false⟩
      else
        match (Settings.mapping cfg).replaceAt (.value (.str newval)) linkPath with
        | .mapping cfg => .ok ⟨true, some cfg, true⟩
        | .value _ => .error .typeError
  -- The link is not a string.
  | .ok _ => .ok (.untouched false)

/-- The loop of `_tidy_extant_config` over the files with one suffix. `bk` gives the name of a backup
with the day on which the loop comes to the file. The result flag and the backups are carried along. -/
def tidyFiles (bk : String → String) :
    ConfigFiles ν → Bool → ConfigFiles ν →
      Except LookupError (ConfigFiles ν × Bool × ConfigFiles ν)
  | [], retval, backups => .ok ([], retval, backups)
  | (fl, obj) :: files, retval, backups =>
    match flenseDict obj with
    -- `_clean_empty_config` moves the file aside.
    | none => tidyFiles bk files retval (setKey backups (bk fl) obj)
    | some newcfg => do
      let fixed ← fixDashboard newcfg
      let backups := if fixed.backedUp then setKey backups (bk fl) obj else backups
      let (files, retval, backups) ← tidyFiles bk files fixed.good backups
      .ok ((fl, fixed.written.getD obj) :: files, retval, backups)

/-- `_tidy_extant_config` -/
def tidyExtantConfig (bk : String → String) (dir : ConfigDir ν) :
    Except LookupError (ConfigDir ν × Bool) := do
  let (yaml, retval, backups) ← tidyFiles bk dir.yaml false dir.backups
  let (yml, retval, backups) ← tidyFiles bk dir.yml retval backups
  .ok (⟨yaml, yml, backups⟩, retval)

/-- What `_inject_new_proxy` writes to `dashboard.yaml`, if anything. -/
def injected (dir : ConfigDir ν) : Option (Config ν) :=
  match dir.yaml.lookup dashboardYaml with
  | none => some goodlink
  | some raw =>
    if flenseDict raw = some goodlink then none
    else some (setKey ((flenseDict raw).getD []) distributed goodDistributed)

/-- `tgt.write_text(yaml.dump(obj))` for `dashboard.yaml`; a new file comes after the first `place`. -/
def writeDashboard (place : ℕ) (obj : Config ν) (dir : ConfigDir ν) : ConfigDir ν :=
  if (dir.yaml.lookup dashboardYaml).isSome then
    { dir with yaml := setKey dir.yaml dashboardYaml obj }
  else { dir with yaml := dir.yaml.take place ++ (dashboardYaml, obj) :: dir.yaml.drop place }

/-- `_inject_new_proxy` -/
def injectNewProxy (place : ℕ) (dir : ConfigDir ν) : ConfigDir ν :=
  (injected dir).elim dir fun obj ↦ writeDashboard place obj dir

/-- `setup_dask` -/
def setupDask (bk : String → String) (place : ℕ) (dir : ConfigDir ν) :
    Except LookupError (ConfigDir ν) := do
  let (dir, goodDashboardConfig) ← tidyExtantConfig bk dir
  .ok (if goodDashboardConfig then dir else injectNewProxy place dir)

end Configurator

end DaskConfigurator

end Nublado.Startup
