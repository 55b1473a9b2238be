import EmbeddedCar.Video.Process

/-!
# `gstreamer_controller.cpp`

`VideoStreamController`. `gstreamer_pid` is passed along: `none` is a value that is not
positive, the initial -1 or the 0 a failed read leaves. `self` is the invocation.
-/

namespace EmbeddedCar.Video

open EmbeddedCar.Concurrent Prog

/-- The PID `isStreaming` looks at: `gstreamer_pid`, or else the one in the PID file. -/
def heldPid : Option Nat → Program (Option Nat)
  | some pid => .ret (some pid)
  | none => call (Op.readPid .cpp)

/-- `isStreaming` (`gstreamer_controller.cpp:131-152`), with `gstreamer_pid` afterwards. -/
def isStreaming (gstreamerPid : Option Nat) : Program (Bool × Option Nat) := do
  let held ← heldPid gstreamerPid
  match held with
  | none => .ret (false, none)
  | some pid => do
      let alive ← call (Op.kill0 pid)
      if alive then .ret (true, some pid)
      else do
        let _ ← call (Op.unlink .cpp)
        .ret (false, none)

/-- `ofstream pidFile(...)` and what is written to it, where it opens. -/
def savePid (pid : Nat) : Program Unit := do
  let isOpen ← call (Op.truncatePid .cpp)
  when isOpen do
    let _ ← call (Op.writePid .cpp pid)
    .ret ()

/-- `startStreaming` (`gstreamer_controller.cpp:37-83`). -/
def startStreaming (self : Nat) (gstreamerPid : Option Nat) : Program Bool := do
  let (streaming, _) ← isStreaming gstreamerPid
  if streaming then .ret true
  else do
    let child ← call (Op.fork self .cpp)
    match child with
    | none => .ret false
    | some pid => do
        savePid pid
        .ret true

/-- The loop of `stopStreaming` around `waitpid(gstreamer_pid, &status, WNOHANG)`. -/
def waitLoop (self pid : Nat) : Nat → Program Unit
  | 0 => .ret ()
  | n + 1 => do
      let exited ← call (Op.waitpid self pid)
      if exited then .ret ()
      else do
        call Op.sleep
        waitLoop self pid n

/-- `stopStreaming` once the process is there (`gstreamer_controller.cpp:93-126`). -/
def terminate (self pid : Nat) : Program (Bool × Option Nat) := do
  let sent ← call (Op.kill pid .term)
  if sent then do
    waitLoop self pid 50
    let alive ← call (Op.kill0 pid)
    when alive do
      let _ ← call (Op.kill pid .kill)
      .ret ()
    let _ ← call (Op.unlink .cpp)
    .ret (true, none)
  else .ret (false, some pid)

/-- `stopStreaming` (`gstreamer_controller.cpp:85-129`), with `gstreamer_pid` afterwards. -/
def stopStreaming (self : Nat) (gstreamerPid : Option Nat) : Program (Bool × Option Nat) := do
  let (streaming, held) ← isStreaming gstreamerPid
  if streaming then
    match held with
    | none => .ret (false, none)
    | some pid => terminate self pid
  else .ret (true, held)

inductive Command where
  | start
  | stop
  | restart
  | status
  deriving DecidableEq, Repr

/-- The exit status of `main` for a success. -/
def exitCode (ok : Bool) : Nat := if ok then 0 else 1

/-- `main` (`gstreamer_controller.cpp:227-245`). -/
def controllerMain (self : Nat) : Command → Program Nat
  | .start => do
      let ok ← startStreaming self none
      .ret (exitCode ok)
  | .stop => do
      let (ok, _) ← stopStreaming self none
      .ret (exitCode ok)
  | .restart => do
      let (_, held) ← stopStreaming self none
      call Op.sleep
      let ok ← startStreaming self held
      .ret (exitCode ok)
  | .status => do
      let _ ← isStreaming none
      .ret 0

end EmbeddedCar.Video
