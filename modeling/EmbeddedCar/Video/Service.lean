import EmbeddedCar.Video.Controller

/-!
# `gstreamer-video-streaming`

The functions of the script, with their exit statuses. Under `set -e` a command that fails ends
the script with its status; a function that is called on its own line passes the status of
the command that failed on, so both are a return here. What is printed is left out.
-/

namespace EmbeddedCar.Video

open EmbeddedCar.Concurrent Prog

/-- `log_message`: `tee -a` to the log, which may fail. -/
def logMessage : Program Bool := call (Op.check .log)

/-- A command, and what follows it under `set -e`. -/
def orExit (command : Program Bool) (rest : Program Nat) : Program Nat := do
  let ok ← command
  if ok then rest else .ret 1

/-- A command where `set -e` has no effect. -/
def regardless (command : Program Bool) : Program Unit := do
  let _ ← command
  .ret ()

/-- `kill -0 "$pid"`, which fails where the variable is empty. -/
def killZero : Option Nat → Program Bool
  | some pid => call (Op.kill0 pid)
  | none => .ret false

/-- `kill -TERM "$pid"` and `kill -KILL "$pid"`. -/
def killSignal (signal : Signal) : Option Nat → Program Bool
  | some pid => call (Op.kill pid signal)
  | none => .ret false

/-- `get_service_status`: is it `running`? -/
def getServiceStatus : Program Bool := do
  let found ← call (Op.fileExists .script)
  if found then do
    let pid ← call (Op.readPid .script)
    let alive ← killZero pid
    if alive then .ret true
    else do
      regardless (call (Op.unlink .script))
      .ret false
  else .ret false

/-- `timeout 2 gst-launch-1.0 v4l2src ! fakesink`: could it be forked? What it returns only changes
the log. -/
def testPipeline (self : Nat) : Program Bool := do
  let child ← call (Op.fork self .script)
  match child with
  | none => .ret false
  | some pid => do
      call (Op.await pid)
      .ret true

/-- `check_dependencies`, called where `set -e` has no effect. `none`: the test pipeline cannot be
forked, and bash gives up. -/
def checkDependencies (self : Nat) : Program (Option Bool) := do
  regardless logMessage
  let found ← call (Op.check .gstLaunch)
  if !found then do
    regardless logMessage
    .ret (some false)
  else do
    let deviceExists ← call (Op.check .deviceExists)
    if !deviceExists then do
      regardless logMessage
      .ret (some false)
    else do
      let accessible ← call (Op.check .deviceAccessible)
      if !accessible then do
        regardless logMessage
        .ret (some false)
      else do
        regardless logMessage
        let tested ← testPipeline self
        if !tested then .ret none
        else do
          regardless logMessage
          .ret (some true)

/-- The end of `start_service`: is the pipeline still there after two seconds? -/
def confirmStart (gstPid : Nat) : Program Nat := do
  call Op.sleep
  let alive ← killZero (some gstPid)
  if alive then
    orExit logMessage <| orExit logMessage <| .ret 0
  else
    orExit logMessage <| orExit (call (Op.unlink .script)) <| .ret 1

/-- The pipeline in the background, and `echo "$gst_pid" > "$PID_FILE"`. -/
def launchPipeline (self : Nat) : Program Nat := do
  let child ← call (Op.fork self .script)
  match child with
  | none => .ret 254
  | some gstPid =>
      orExit (call (Op.truncatePid .script)) <|
        orExit (call (Op.writePid .script gstPid)) <| confirmStart gstPid

/-- `start_service`. -/
def startService (self : Nat) : Program Nat := do
  let running ← getServiceStatus
  if running then orExit logMessage (.ret 0)
  else orExit logMessage do
    let ok ← checkDependencies self
    match ok with
    | none => .ret 254
    | some false => orExit logMessage (.ret 1)
    | some true =>
        orExit logMessage <| orExit (call (Op.check .mkdir)) <| orExit (call (Op.check .mkdir)) <|
          orExit logMessage <| orExit logMessage <| launchPipeline self

/-- `while kill -0 "$pid" && [ $count -lt 10 ]`, with the rounds that are left. -/
def awaitExit (pid : Option Nat) : Nat → Program Unit
  | 0 => do
      let _ ← killZero pid
      .ret ()
  | n + 1 => do
      let alive ← killZero pid
      when alive do
        call Op.sleep
        awaitExit pid n

/-- The end of `stop_service`. -/
def removePidFile : Program Nat :=
  orExit (call (Op.unlink .script)) <| orExit logMessage <| .ret 0

/-- `stop_service` after it has read the PID file again. -/
def stopPid (pid : Option Nat) : Program Nat := do
  let sent ← killSignal .term pid
  if sent then do
    awaitExit pid 10
    let alive ← killZero pid
    if alive then orExit logMessage do
      regardless (killSignal .kill pid)
      removePidFile
    else removePidFile
  else removePidFile

/-- `stop_service`. -/
def stopService : Program Nat := do
  let running ← getServiceStatus
  if running then do
    let pid ← call (Op.readPid .script)
    orExit logMessage (stopPid pid)
  else orExit logMessage (.ret 0)

/-- The `case` at the end of the script; `show_status` reads the PID file again where the
service runs. -/
def serviceMain (self : Nat) : Command → Program Nat
  | .start => startService self
  | .stop => stopService
  | .restart => orExit logMessage do
      let code ← stopService
      if code = 0 then do
        call Op.sleep
        startService self
      else .ret code
  | .status => do
      let running ← getServiceStatus
      when running do
        let _ ← call (Op.readPid .script)
        .ret ()
      .ret 0

/-! ### Invocations -/

/-- A command line, with a name for the process that runs it. -/
structure Invocation where
  self : Nat
  controller : Controller
  command : Command
  deriving DecidableEq, Repr

/-- May the invocation start a pipeline? -/
def Invocation.starts (i : Invocation) : Bool :=
  match i.command with
  | .start | .restart => true
  | .stop | .status => false

def Invocation.main (i : Invocation) : Program Nat :=
  match i.controller with
  | .cpp => controllerMain i.self i.command
  | .script => serviceMain i.self i.command

/-- An invocation, from its first operation to its exit. -/
def Invocation.run (i : Invocation) : Program Nat := do
  let code ← i.main
  call (Op.exit i.self)
  .ret code

end EmbeddedCar.Video
