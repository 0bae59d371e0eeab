import RemnanodeLite.Xray.Process

/-! # The manager and its callers

State of `Manager` (`internal/xray/manager.go`), of every process it has spawned
and of every goroutine that is inside `Start`, `Stop` or a mutation lease. -/

namespace RemnanodeLite.Xray

inductive LifecycleState where
  | stopped
  | starting
  | running
  | stopping
  deriving DecidableEq

/-- The two values `ctx.Err()` can take once a context has ended. -/
inductive CtxErr where
  | canceled
  | deadlineExceeded
  deriving DecidableEq

def CtxErr.text : CtxErr → String
  | canceled => "context canceled"
  | deadlineExceeded => "context deadline exceeded"

/- `runtimeState` (manager.go:53-61). -/
structure RuntimeState where
  pendingConfigJSON : Option String
  runtimeProcessEpoch : ℕ
  hashState : RuntimeHashState

/- `clearRuntimeLocked` (manager.go:274-279). -/
def RuntimeState.cleared : RuntimeState := ⟨none, 0, .cleared⟩

structure PreparedRuntimeConfig where
  json : String
  hashState : RuntimeHashState

/- The part of `StartRequest` that outlives `prepareRuntimeConfig`. -/
structure StartRequest where
  forceRestart : Bool
  hashes : ConfigHash
  deriving DecidableEq

/- Why `waitForGRPC` or what follows it gave up (lifecycle.go:259-283). -/
inductive ReadyErr where
  | ctx (err : CtxErr)
  | startupTimeout
  | processExited (err : Option String)
  deriving DecidableEq

/- The responses of `Start`: which branch returned, with the error it reports. -/
inductive StartResult where
  | alreadyInProgress
  | unchanged
  | started
  | failure (action : String) (err : String)
  | notReady (err : ReadyErr) (stopErr : Option String)
  deriving DecidableEq

def StartResult.canceledBy (err : CtxErr) : StartResult :=
  .failure "xray start canceled" err.text

/- Progress through `Start` (lifecycle.go:102-307). One constructor is one
critical section, one blocking call or one check of the context. -/
inductive StartPC where
  | makeLogDir
  | beginStart
  -- the previous process is still the current one
  | readPrevious
  | ctxBeforeGate
  | lockGate
  | ctxAfterGate
  | probeRunning
  | ctxAfterProbe
  | checkRestart
  | completeUnchanged
  | ctxAfterUnchanged
  | reserveIdentity
  | prepareConfig
  | ctxAfterPrepare
  | panelRuntime
  | ctxAfterPanelRuntime
  | terminatePrevious (pc : TerminatePC)
  | publishPreviousUnclean (err : String)
  | restorePrevious (result : StartResult)
  -- the previous process is finalized
  | ctxAfterTerminate
  | runPreStart
  | ctxAfterPreStart
  | publishCanceled (err : CtxErr)
  | stageConfig
  | publishUnstaged
  -- nothing is current
  | releaseGate
  | startProcess
  | publishSpawnFailed (err : String)
  -- the new process exists and is not current
  | assignProcess (p : Pid)
  | terminateUnassigned (p : Pid) (pc : TerminatePC)
  | retainUnclean (p : Pid) (err : String)
  | publishUnassigned (p : Pid) (err : Option String)
  -- the new process is current
  | waitCheck (p : Pid)
  | waitProbe (p : Pid)
  | waitReady (p : Pid)
  | waitReadyLeader (p : Pid)
  | waitSelect (p : Pid)
  | probeVersion (p : Pid)
  | ctxAfterVersion (p : Pid)
  | commitRunning (p : Pid)
  | terminateNew (p : Pid) (ready : ReadyErr) (pc : TerminatePC)
  | publishNew (p : Pid) (ready : ReadyErr) (err : Option String)
  -- lifecycle ownership is given up
  | deferredUnlock (result : StartResult)
  | returned (result : StartResult)
  deriving DecidableEq

/- A call of `Start` with the variables it carries. -/
structure StartCall where
  req : StartRequest
  pc : StartPC
  ctxErr : Option CtxErr
  operationEpoch : ℕ
  previous : LifecycleState
  previousProcess : Option Pid
  gateHeld : Bool
  processEpoch : ℕ
  prepared : PreparedRuntimeConfig

/- Progress through `Stop` (lifecycle.go:486-538). -/
inductive StopPC where
  | reserve
  | waitOnly (op : Tid)
  | cancelStart (target : Option Tid)
  | lockLifecycle
  | readProcess
  | lockGate
  | retryOutcome
  | retryFinalize (pc : FinalizePC)
  | terminate (pc : TerminatePC)
  | readOutcome (err : Option String)
  | publish (succeeded : Bool)
  | deferredUnlock (isStopped : Bool)
  | returned (isStopped : Bool)
  deriving DecidableEq

structure StopCall where
  pc : StopPC
  retryCleanup : Bool
  process : Option Pid

/- Progress through `BeginMutation` (mutation.go:28-82) and the life of the
token it returns, which is active exactly at `active`. -/
inductive LeasePC where
  | begin
  | rlock (p : Pid)
  | validate (p : Pid)
  | ctxCheck (p : Pid)
  | runlock (p : Pid) (err : String)
  | active (p : Pid)
  | released (p : Pid)
  | returned (token : Option Pid)
  deriving DecidableEq

structure LeaseCall where
  pc : LeasePC
  ctxErr : Option CtxErr

inductive Thread where
  | idle
  | start (s : StartCall)
  | stop (s : StopCall)
  | lease (l : LeaseCall)

/- `Manager` with everything it shares. `lifecycleMu` remembers its holder.
`publishedFor` and `signaled` are history: the process whose Start published the
recorded hashes, and every signal sent to a process group with its sender. -/
structure World where
  state : LifecycleState
  operationEpoch : ℕ
  nextProcessEpoch : ℕ
  startCancel : Option Tid
  stopOp : Option Tid
  process : Option Pid
  runtime : RuntimeState
  disableHashCheck : Bool
  lifecycleMu : Option Tid
  spawned : ℕ
  procs : Pid → ProcessState
  threads : Tid → Thread
  publishedFor : Option Pid
  signaled : List (Actor × Pid)

namespace World

/- A manager as `newManager` leaves it. -/
def initial (disableHashCheck : Bool) : World where
  state := .stopped
  operationEpoch := 0
  nextProcessEpoch := 0
  startCancel := none
  stopOp := none
  process := none
  runtime := .cleared
  disableHashCheck := disableHashCheck
  lifecycleMu := none
  spawned := 0
  procs := fun _ => .spawn 0
  threads := fun _ => .idle
  publishedFor := none
  signaled := []

def setThread (w : World) (t : Tid) (th : Thread) : World :=
  { w with threads := Function.update w.threads t th }

def setProc (w : World) (p : Pid) (ps : ProcessState) : World :=
  { w with procs := Function.update w.procs p ps }

/- `clearRuntimeLocked` with its mark in the history. -/
def clearRuntime (w : World) : World :=
  { w with runtime := .cleared, publishedFor := none }

/- One signal of `who` to the group of `p`, when `sent` says there was one. -/
def recordSignal (w : World) (sent : Bool) (who : Actor) (p : Pid) : World :=
  if sent then { w with signaled := (who, p) :: w.signaled } else w

@[simp] theorem setThread_self (w : World) (t : Tid) (th : Thread) :
    (w.setThread t th).threads t = th := by
  simp only [setThread, Function.update_self]

theorem setThread_of_ne (w : World) {t u : Tid} (th : Thread) (h : u ≠ t) :
    (w.setThread t th).threads u = w.threads u := by
  simp only [setThread, Function.update_of_ne h]

@[simp] theorem setProc_self (w : World) (p : Pid) (ps : ProcessState) :
    (w.setProc p ps).procs p = ps := by
  simp only [setProc, Function.update_self]

theorem setProc_of_ne (w : World) {p x : Pid} (ps : ProcessState) (h : x ≠ p) :
    (w.setProc p ps).procs x = w.procs x := by
  simp only [setProc, Function.update_of_ne h]

end World

end RemnanodeLite.Xray
