import RemnanodeLite.Xray.HashState

/-! # One spawned rw-core

`processState` of `internal/xray/lifecycle.go` with its monitor goroutine, and
the two routines that act on a process from several goroutines:
`finalizeExitedProcess` and `terminateProcess`. A routine that can be
interleaved is a program counter and a function that takes one step of it. -/

namespace RemnanodeLite.Xray

/-- The identity of a `*processState`: the number of earlier spawns. -/
abbrev Pid := ℕ

/-- A goroutine that runs `Start`, `Stop` or holds a mutation lease. -/
abbrev Tid := ℕ

/-- Who acts on a process: its own monitor or one of the callers. -/
inductive Actor where
  | monitor
  | thread (t : Tid)
  deriving DecidableEq

/-- What the environment decides in one step: whether the call made there
succeeds, whether a timer fires first, which case a `select` takes, and the texts
and values it returns. -/
structure Choice (α : Type) where
  ok : Bool
  timeout : Bool
  branch : ℕ
  reaped : Bool
  err : String
  leaderErr : Option String
  value : α

/-- `processOutcome` (lifecycle.go:67-74). -/
structure ProcessOutcome where
  leaderObserved : Bool
  finalized : Bool
  cleanupVerified : Bool
  leaderErr : Option String
  cleanupErr : Option String
  observationErr : Option String
  deriving DecidableEq

/-- Progress through `finalizeExitedProcess` (lifecycle.go:890-932). -/
inductive FinalizePC where
  | lock
  | check
  | cleanup
  | mark (leaderErr : Option String)
  | closeDone
  | unlock (err : Option String)
  deriving DecidableEq

/-- Progress through `monitorProcess` (lifecycle.go:768-808). -/
inductive MonitorPC where
  | waitLeader
  | closeLeaderDone
  | finalize (pc : FinalizePC)
  | closeMonitorDone
  | readOutcome
  | callback (outcome : ProcessOutcome)
  | returned
  deriving DecidableEq

inductive UserCommit where
  | added (inboundTag userUUID : String)
  | removed (inboundTag userUUID : String)
  deriving DecidableEq

/-- The guard both commits share (hashstate.go:106, 132). -/
def UserCommit.wellFormed : UserCommit → Bool
  | added tag user => tag ≠ "" && user ≠ ""
  | removed tag user => tag ≠ "" && user ≠ ""

def UserCommit.apply (r : RuntimeHashState) : UserCommit → RuntimeHashState
  | added tag user => recordUserAdded r tag user
  | removed tag user => recordUserRemoved r tag user

/-- `processState` (lifecycle.go:76-100). The three channels are booleans that
say whether they are closed. Mutexes remember who holds them. `published` and
`commits` are history: the hash state a Start published for this process and
the commits made through its leases since. -/
structure ProcessState extends ProcessOutcome where
  epoch : ℕ
  leaderReaped : Bool
  leaderDone : Bool
  done : Bool
  monitorDone : Bool
  finalizeMu : Option Actor
  gateWriter : Option Tid
  gateReaders : Finset Tid
  monitor : MonitorPC
  published : Option RuntimeHashState
  commits : List UserCommit

/-- The literal at the end of `startProcess` (lifecycle.go:739-751). -/
def ProcessState.spawn (epoch : ℕ) : ProcessState where
  leaderObserved := false
  finalized := false
  cleanupVerified := false
  leaderErr := none
  cleanupErr := none
  observationErr := none
  epoch := epoch
  leaderReaped := false
  leaderDone := false
  done := false
  monitorDone := false
  finalizeMu := none
  gateWriter := none
  gateReaders := ∅
  monitor := .waitLeader
  published := none
  commits := []

namespace ProcessState

/-- `leaderUnavailable` (lifecycle.go:826-833), without the error it returns. -/
def leaderUnavailable (p : ProcessState) : Bool :=
  p.observationErr.isSome || p.leaderObserved || p.finalized

/-- The error that comes with `leaderUnavailable`. -/
def leaderUnavailableErr (p : ProcessState) : Option String :=
  p.observationErr <|> p.leaderErr

end ProcessState

/-- How a step of a routine ends: at another program counter or with the error
the routine returns. -/
inductive Progress (PC : Type) where
  | next (pc : PC)
  | done (err : Option String)

variable {α : Type}

/-- One step of `finalizeExitedProcess`. The result also says whether the step
kills the process group, as `cleanupOwnedProcessGroup` does first of all. -/
def finalizeStep (p : ProcessState) (who : Actor) (ch : Choice α) :
    FinalizePC → Option (ProcessState × Bool × Progress FinalizePC)
  | .lock =>
    if p.finalizeMu = none then some ({ p with finalizeMu := some who }, false, .next .check)
    else none
  | .check =>
    if p.finalized then some (p, false, .next (.unlock none))
    else match p.observationErr with
      | some e => some (p, false, .next (.unlock (some ("observe rw-core leader exit: " ++ e))))
      | none =>
        if !p.leaderObserved then
          some (p, false, .next (.unlock (some "rw-core leader exit has not been observed")))
        else if p.leaderReaped then some (p, false, .next (.mark p.leaderErr))
        else some (p, false, .next .cleanup)
  | .cleanup =>
    if ch.ok then some (p, true, .next (.mark ch.leaderErr))
    else
      let cleanupErr := "cleanup rw-core process group: " ++ ch.err
      some ({ p with cleanupErr := some cleanupErr }, true, .next (.unlock (some cleanupErr)))
  | .mark leaderErr =>
    some ({ p with finalized := true, cleanupVerified := true, leaderErr := leaderErr }, false,
      .next .closeDone)
  | .closeDone => some ({ p with done := true }, false, .next (.unlock none))
  | .unlock err => some ({ p with finalizeMu := none }, false, .done err)

/-- Progress through `terminateProcess` (lifecycle.go:934-971). -/
inductive TerminatePC where
  | exitStatus
  | signal
  | waitInterrupt
  | kill
  | waitKill
  | result
  | failure
  deriving DecidableEq

/-- `processTerminationFailure` (lifecycle.go:1017-1026). -/
def processTerminationFailure (p : ProcessState) : Option String :=
  match p.observationErr with
  | some e => some ("observe rw-core leader exit: " ++ e)
  | none => p.cleanupErr

/-- `waitForProcessAttempt` (lifecycle.go:990-1004) as one step: `some true` and
`some false` are its results, `none` means that it still waits. Its first check
and its `select` read the process at two moments; a timeout is placed at the
first of them, a success at the second. -/
def waitForProcessAttempt (p : ProcessState) (ch : Choice α) : Option Bool :=
  if p.finalized then some true
  else if ch.timeout then some false
  else if p.done || p.monitorDone then some true
  else none

/-- One step of `terminateProcess` on a non-nil process. The result says whether
the step signals the process group. `signal` and `kill` hold `finalizeMu` for
their whole duration, so each is one step that needs the mutex free. -/
def terminateStep (p : ProcessState) (ch : Choice α) :
    TerminatePC → Option (Bool × Progress TerminatePC)
  | .exitStatus => some (false, if p.finalized then .done none else .next .signal)
  | .signal =>
    if p.finalizeMu ≠ none then none
    else if p.finalized then some (false, .next .waitInterrupt)
    else some (true, .next (if ch.ok then .waitInterrupt else .kill))
  | .waitInterrupt =>
    (waitForProcessAttempt p ch).map fun ended =>
      (false, .next (if ended then .result else .kill))
  | .kill =>
    if p.finalizeMu ≠ none then none
    else if p.finalized then some (false, .next .waitKill)
    else some (true, if ch.ok then .next .waitKill else .done (some ("kill rw-core: " ++ ch.err)))
  | .waitKill =>
    (waitForProcessAttempt p ch).map fun ended =>
      (false, .next (if ended then .result else .failure))
  | .result =>
    some (false, .done (if p.finalized then none
      else some ((processTerminationFailure p).getD
        "rw-core process termination did not finalize")))
  | .failure =>
    some (false, .done (some ((processTerminationFailure p).getD
      "timed out stopping rw-core process")))

end RemnanodeLite.Xray
