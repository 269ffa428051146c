import Nublado.Startup.Environment

/-!
# Preparing a lab

`Preparer` writes what the launcher of a lab reads: the environment and the arguments of its command. What
goes wrong before that is recorded in the environment, and the lab is then started with a directory for
emergencies as its home, with a notice that explains what happened.

`prepare` is from the construction of the preparer to what is written where. All writes succeed. The text
of the notice is left out, and so is what happens in the home directory.
-/

namespace Nublado.Startup

/-- What is written about an abnormal startup, and where. -/
structure Notice where
  welcome : Path
  settings : Path
  deriving DecidableEq

/-- What the preparer writes. -/
structure Prepared where
  broken : Bool
  notice : Option Notice
  /-- `env.json` -/
  env : Env
  /-- `args.json` -/
  args : List String
  deriving DecidableEq

/-- A `Preparer`, as far as it changes. -/
structure Preparer where
  broken : Bool
  env : Env
  home : Path
  deriving DecidableEq

/-- Where the lab is started without a home directory. -/
def tmp : Path := Path.parse "/tmp"

/-- The arguments of the command, but those that are added. -/
def labStaticCmdArgs : List String :=
  ["jupyterhub-singleuser", "--ip=0.0.0.0", "--port=8888", "--no-browser",
    "--ContentsManager.allow_hidden=True", "--FileContentsManager.hide_globs=[]",
    "--KernelSpecManager.ensure_native_kernel=False", "--QtExporter.enabled=False",
    "--PDFExporter.enabled=False", "--WebPDFExporter.enabled=False",
    "--MappingKernelManager.default_kernel_name=lsst",
    "--LabApp.check_for_updates_class=jupyterlab.NeverCheckForUpdate"]

/-- The variables for timeouts, and the settings that they are for. -/
def timeoutMap : List (String × String) :=
  [("NO_ACTIVITY_TIMEOUT", "ServerApp.shutdown_no_activity_timeout"),
    ("CULL_KERNEL_IDLE_TIMEOUT", "MappingKernelManager.cull_idle_timeout"),
    ("CULL_KERNEL_CONNECTED", "MappingKernelManager.cull_connected"),
    ("CULL_KERNEL_INTERVAL", "MappingKernelManager.cull_interval"),
    ("CULL_TERMINAL_INACTIVE_TIMEOUT", "TerminalManager.cull_inactive_timeout"),
    ("CULL_TERMINAL_INTERVAL", "TerminalManager.cull_interval")]

namespace Preparer

variable (o : Outside) (p : Preparer)

/-- Record an exception in the environment. -/
def setAbnormalStartup (e : RSPStartupError) : Preparer where
  broken := true
  env := dictUpdate p.env [("ABNORMAL_STARTUP", "TRUE"), ("ABNORMAL_STARTUP_ERRNO", e.errno),
    ("ABNORMAL_STARTUP_STRERROR", e.strerror), ("ABNORMAL_STARTUP_ERRORCODE", e.errorcode),
    ("ABNORMAL_STARTUP_MESSAGE", e.message)]
  home := p.home

/-- Record an exception, if there is one. -/
def setAbnormalIf (e : Option RSPStartupError) : Preparer := e.elim p p.setAbnormalStartup

/-- The constructor. -/
def init : Preparer :=
  let p : Preparer :=
    match o.environ "NUBLADO_HOME" with
    | none => { setAbnormalStartup ⟨false, [], tmp⟩ (o.badEnv "NUBLADO_HOME") with home := tmp }
    | some home => ⟨false, [], Path.parse home⟩
  { p with env := dictInsert p.env "HOME" p.home.str }

/-- What the relocation of the user's environment raises, if it is requested. -/
def relocateUserEnvironmentIfRequested : Option RSPStartupError :=
  if (o.getNonempty "RESET_USER_ENV").isSome then o.relocation else none

/-- The configuration of the environment; none if an exception is raised that is not caught. -/
def configure : Option Preparer :=
  match relocateUserEnvironmentIfRequested o with
  | some e => some (p.setAbnormalStartup e)
  | none =>
    if p.home = tmp then some (p.setAbnormalStartup (o.badEnv "USER"))
    else
      let run := EnvironmentConfigurator.configureEnv o (Path.parse (p.env.get "HOME")) p.env
      match run.2 with
      | none => some { p with env := run.1 }
      | some (.osError e) => some (setAbnormalStartup { p with env := run.1 } e)
      | some .other => none

/-- Where the notice is written. -/
def makeAbnormalStartupEnvironment : Notice :=
  let temphome := Path.parse ((o.environ "SCRATCH_DIR").getD "/tmp")
  { welcome := ((temphome.joinText "notebooks").joinText "tutorials").joinText "welcome.md"
    settings := (((((temphome.joinText ".jupyter").joinText "lab").joinText "user-settings").joinText
      "@jupyterlab").joinText "docmanager-extension").joinText "plugin.jupyterlab-settings" }

/-- The arguments for timeouts. -/
def setTimeoutVariables : List String :=
  timeoutMap.filterMap fun entry ↦
    (o.getNonempty entry.1).map fun value ↦ "--" ++ entry.2 ++ "=" ++ value

/-- The arguments of the command. -/
def labArgs : List String :=
  labStaticCmdArgs ++ ["--notebook-dir=" ++ p.home.str,
    "--log-level=" ++ if (o.getNonempty "DEBUG").isSome then "DEBUG" else "INFO"] ++
    setTimeoutVariables o

/-- The home directory for a startup that has gone wrong, in the environment too. -/
def useTemphome : Preparer :=
  if p.broken then
    let temphome := (p.env.lookup "SCRATCH_DIR").getD "/tmp"
    { p with env := dictInsert p.env "HOME" temphome, home := Path.parse temphome }
  else p

/-- Write the files for the lab, with the notice if something has gone wrong. -/
def writeLabStartupFiles : Prepared where
  broken := p.broken
  notice := if p.broken then some (makeAbnormalStartupEnvironment o) else none
  env := dictInsert p.useTemphome.env "RUNNING_INSIDE_JUPYTERLAB" "TRUE"
  args := p.useTemphome.labArgs o

/-- Make necessary modifications to start the user lab. It is none where an exception is raised that is
not caught. -/
def prepare : Option Prepared :=
  ((init o).configure o).map fun p ↦
    let p := p.setAbnormalIf o.tidyHomedir
    let p := if p.broken then p else p.setAbnormalIf o.copyFiles
    p.writeLabStartupFiles o

end Preparer

end Nublado.Startup
