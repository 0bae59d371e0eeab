import RemnanodeLite.Xray.Manager

/-! # Interleavings of Start, Stop, monitors and leases

`internal/xray/lifecycle.go` and `internal/xray/mutation.go` as a step function.
First the critical sections of `Manager.mu`, each a function on the world under
its source name; then one step of every kind of goroutine. -/

namespace RemnanodeLite.Xray
namespace World

/-! ### Critical sections of Start -/

-- beginStart, lifecycle.go:309-335; `none` is the refusal
def beginStart (w : World) (t : Tid) : Option World :=
  if w.state = .starting ∨ w.state = .stopping then none
  else if w.process.any fun p =>
      (w.procs p).cleanupErr.isSome || (w.procs p).observationErr.isSome then none
  else if w.lifecycleMu ≠ none then none
  else some { w with
    state := .starting
    operationEpoch := w.operationEpoch + 1
    startCancel := some t
    lifecycleMu := some t }

-- reserveProcessIdentity, lifecycle.go:337-346; the socket is a function of the epoch
def reserveProcessIdentity (w : World) (operationEpoch : ℕ) : Option (World × ℕ) :=
  if w.operationEpoch ≠ operationEpoch ∨ w.state ≠ .starting then none
  else some ({ w with nextProcessEpoch := w.nextProcessEpoch + 1 }, w.nextProcessEpoch + 1)

-- completeStart, lifecycle.go:350-363
def completeStart (w : World) (operationEpoch : ℕ) (finalState : LifecycleState)
    (apply : World → World) : World :=
  if w.operationEpoch = operationEpoch then
    { apply w with state := finalState, startCancel := none, lifecycleMu := none }
  else { w with lifecycleMu := none }

/- The `apply` argument that forgets the process (lifecycle.go:215-218, 287-290). -/
def forgetProcess (w : World) : World := { w with process := none }.clearRuntime

-- restorePreviousStart, lifecycle.go:367-392
def restorePreviousStart (w : World) (operationEpoch : ℕ) (previous : LifecycleState)
    (process : Option Pid) : World :=
  if w.operationEpoch ≠ operationEpoch then { w with lifecycleMu := none }
  else
    let restored : World :=
      if previous = .running then
        match process with
        | none => { w.clearRuntime with state := .stopped }
        | some p =>
          if w.process ≠ some p then { w.clearRuntime with state := .stopped }
          else if (w.procs p).done then { w.forgetProcess with state := .stopped }
          -- `leaderDone` is closed before `done`, so reading both at once loses nothing
          else if (w.procs p).leaderDone then { w.clearRuntime with state := .stopping }
          else { w with state := previous }
      else { w with state := previous }
    { restored with startCancel := none, lifecycleMu := none }

/- What `completeUnchangedStart` and `commitRunningStart` can answer: done,
not owned any more, or owned but the process is not available. -/
inductive Completion where
  | completed
  | notOwned
  | unavailable (exitErr : Option String)

-- completeUnchangedStart, lifecycle.go:409-427
def completeUnchangedStart (w : World) (operationEpoch : ℕ) : World × Completion :=
  if w.operationEpoch ≠ operationEpoch then ({ w with lifecycleMu := none }, .notOwned)
  else match w.process with
    | none => (w, .unavailable none)
    | some p =>
      if (w.procs p).leaderUnavailable then (w, .unavailable none)
      else ({ w with state := .running, startCancel := none, lifecycleMu := none }, .completed)

-- stagePendingConfig, lifecycle.go:429-441
def stagePendingConfig (w : World) (operationEpoch : ℕ) (previous : Option Pid) (raw : String) :
    Option World :=
  if w.operationEpoch ≠ operationEpoch ∨ w.state ≠ .starting then none
  else
    let w' := { w with process := if w.process = previous then none else w.process }.clearRuntime
    some { w' with runtime := { w'.runtime with pendingConfigJSON := some raw } }

-- startProcess from `cmd.Start` on, lifecycle.go:733-753
def spawn (w : World) (processEpoch : ℕ) : World :=
  { w.setProc w.spawned (.spawn processEpoch) with spawned := w.spawned + 1 }

-- assignProcess, lifecycle.go:443-451
def assignProcess (w : World) (operationEpoch : ℕ) (p : Pid) : Option World :=
  if w.operationEpoch ≠ operationEpoch ∨ w.state ≠ .starting then none
  else some { w with process := some p }

-- retainUncleanProcess, lifecycle.go:453-460
def retainUncleanProcess (w : World) (p : Pid) : World :=
  { w with process := if w.process = none then some p else w.process, state := .stopping }

-- commitRunningStart, lifecycle.go:462-484; the published version is left out
def commitRunningStart (w : World) (operationEpoch : ℕ) (p : Pid)
    (hashState : RuntimeHashState) : World × Completion :=
  if w.operationEpoch ≠ operationEpoch ∨ w.state ≠ .starting then
    ({ w with lifecycleMu := none }, .notOwned)
  else if w.process ≠ some p then (w, .unavailable none)
  else if (w.procs p).leaderUnavailable then (w, .unavailable (w.procs p).leaderUnavailableErr)
  else
    ({ w.setProc p { w.procs p with published := some hashState } with
        runtime := ⟨none, (w.procs p).epoch, hashState⟩
        publishedFor := some p
        state := .running
        startCancel := none
        lifecycleMu := none }, .completed)

/-! ### Critical sections of Stop and of the monitor -/

/- The five results of `reserveStop` (lifecycle.go:540-577): wait for another
Stop, or go on with the Start to cancel, whether to wait for the owner, and
whether this is a retry. -/
inductive StopReservation where
  | waitOnly (op : Tid)
  | proceed (cancelStart : Option Tid) (waitForOwner retryCleanup : Bool)

def reserveStop (w : World) (t : Tid) : World × StopReservation :=
  let reserved := { w with
    operationEpoch := w.operationEpoch + 1, state := .stopping, stopOp := some t }
  let fresh : World × StopReservation :=
    if w.state = .starting then
      ({ reserved with startCancel := none }, .proceed w.startCancel true false)
    else if w.lifecycleMu ≠ none then
      ({ reserved with startCancel := none },
        .proceed w.startCancel true (w.state = .stopping))
    else ({ reserved with lifecycleMu := some t }, .proceed none false (w.state = .stopping))
  match w.stopOp with
  | some op => if w.state = .stopping then (w, .waitOnly op) else fresh
  | none => fresh

/- The `cancel` function of a Start's context: the first cause stays. -/
def cancelStart (w : World) (target : Tid) : World :=
  match w.threads target with
  | .start s =>
    w.setThread target (.start { s with ctxErr := s.ctxErr <|> some .canceled })
  | _ => w

-- the last critical section of Stop, lifecycle.go:518-532
def publishStop (w : World) (process : Option Pid) (succeeded : Bool) : World :=
  if succeeded then
    { w.clearRuntime with
      process := if w.process = process then none else w.process
      state := .stopped
      stopOp := none
      lifecycleMu := none }
  else { w with state := .stopping, stopOp := none, lifecycleMu := none }

-- the end of monitorProcess, lifecycle.go:785-807
def monitorCallback (w : World) (p : Pid) (outcome : ProcessOutcome) : World :=
  if w.process ≠ some p then w
  else match w.state with
    | .running =>
      if outcome.finalized then { w.forgetProcess with state := .stopped }
      else { w.clearRuntime with state := .stopping }
    | .stopping =>
      if w.stopOp = none then
        if outcome.finalized then { w.forgetProcess with state := .stopped } else w.clearRuntime
      else w
    | _ => w

/-! ### Leases -/

-- the test both halves of BeginMutation make, mutation.go:44-45 and 55-56
def leasable (w : World) (p : Pid) : Bool :=
  w.state = .running && w.process = some p &&
    w.runtime.runtimeProcessEpoch = (w.procs p).epoch

-- mutationTokenCurrentLocked for a token of `p`, mutation.go:105-108
def tokenCurrent (w : World) (active : Bool) (p : Pid) : Bool :=
  active && w.process = some p && w.runtime.runtimeProcessEpoch = (w.procs p).epoch

/- `commitUserAdded` and `commitUserRemoved` (hashstate.go:105-152) with a token
of `p`: the new world and whether the commit was made. -/
def commitUser (w : World) (active : Bool) (p : Pid) (u : UserCommit) : World × Bool :=
  if !u.wellFormed then (w, false)
  else if !w.tokenCurrent active p then (w, false)
  else
    ({ w.setProc p { w.procs p with commits := (w.procs p).commits ++ [u] } with
        runtime := { w.runtime with hashState := u.apply w.runtime.hashState } }, true)

end World

/-! ### One step of a goroutine -/

abbrev Pick := Choice PreparedRuntimeConfig

namespace StartCall

def goto (s : StartCall) (pc : StartPC) : StartCall := { s with pc := pc }

/- `if err := ctx.Err(); err != nil` followed by restorePreviousStart. -/
def checkCtx (s : StartCall) (next : StartPC) : StartCall :=
  match s.ctxErr with
  | some e => s.goto (.restorePrevious (.canceledBy e))
  | none => s.goto next

/- The same check once the previous process is gone (lifecycle.go:213-230). -/
def checkCtxGone (s : StartCall) (next : StartPC) : StartCall :=
  match s.ctxErr with
  | some e => s.goto (.publishCanceled e)
  | none => s.goto next

end StartCall

/- A step of `terminateProcess` inside a larger routine: `next` and `ret` are the
program counters of that routine. -/
def terminateIn {PC : Type} (w : World) (t : Tid) (p : Pid) (ch : Pick) (pc : TerminatePC)
    (next : TerminatePC → PC) (ret : Option String → PC) : Option (World × PC) :=
  match terminateStep (w.procs p) ch pc with
  | none => none
  | some (sent, .next pc') => some (w.recordSignal sent (.thread t) p, next pc')
  | some (sent, .done err) => some (w.recordSignal sent (.thread t) p, ret err)

def startStep (w : World) (t : Tid) (s : StartCall) (ch : Pick) : Option (World × StartCall) :=
  match s.pc with
  | .makeLogDir =>
    some (w, s.goto (if ch.ok then .beginStart
      else .returned (.failure "create Xray log directory" ch.err)))
  | .beginStart =>
    match w.beginStart t with
    | none => some (w, s.goto (.returned .alreadyInProgress))
    | some w' =>
      some (w', { s with
        pc := .readPrevious, operationEpoch := w'.operationEpoch, previous := w.state })
  | .readPrevious => some (w, { s with pc := .ctxBeforeGate, previousProcess := w.process })
  | .ctxBeforeGate => some (w, s.checkCtx .lockGate)
  | .lockGate =>
    match s.previousProcess with
    | none => some (w, s.goto .ctxAfterGate)
    | some p =>
      if (w.procs p).gateWriter = none ∧ (w.procs p).gateReaders = ∅ then
        some (w.setProc p { w.procs p with gateWriter := some t },
          { s with pc := .ctxAfterGate, gateHeld := true })
      else none
  | .ctxAfterGate => some (w, s.checkCtx .probeRunning)
  | .probeRunning =>
    some (w, s.goto
      (if s.previous = .running ∧ !w.disableHashCheck ∧ !s.req.forceRestart then
        if s.previousProcess.isSome ∧ ch.ok then .ctxAfterProbe else .ctxAfterUnchanged
      else .reserveIdentity))
  | .ctxAfterProbe => some (w, s.checkCtx .checkRestart)
  | .checkRestart =>
    some (w, s.goto (if isNeedRestartCore w.runtime.hashState s.req.hashes then
      .ctxAfterUnchanged else .completeUnchanged))
  | .completeUnchanged =>
    match w.completeUnchangedStart s.operationEpoch with
    | (w', .completed) => some (w', s.goto (.deferredUnlock .unchanged))
    | (w', .notOwned) => some (w', s.goto (.deferredUnlock (.canceledBy .canceled)))
    | (w', .unavailable _) => some (w', s.goto .ctxAfterUnchanged)
  | .ctxAfterUnchanged => some (w, s.checkCtx .reserveIdentity)
  | .reserveIdentity =>
    match w.reserveProcessIdentity s.operationEpoch with
    | none => some (w, s.goto (.restorePrevious (.canceledBy .canceled)))
    | some (w', epoch) => some (w', { s with pc := .prepareConfig, processEpoch := epoch })
  | .prepareConfig =>
    some (w, if ch.ok then { s with pc := .ctxAfterPrepare, prepared := ch.value }
      else s.goto (.restorePrevious (.failure "prepare Xray config" ch.err)))
  | .ctxAfterPrepare => some (w, s.checkCtx .panelRuntime)
  | .panelRuntime =>
    some (w, s.goto (if ch.ok then .ctxAfterPanelRuntime
      else .restorePrevious (.failure "prepare Panel-selected Core and GeoData" ch.err)))
  | .ctxAfterPanelRuntime => some (w, s.checkCtx (.terminatePrevious .exitStatus))
  | .terminatePrevious pc =>
    match s.previousProcess with
    | none => some (w, s.goto .ctxAfterTerminate)
    | some p =>
      (terminateIn w t p ch pc StartPC.terminatePrevious fun
        | none => .ctxAfterTerminate
        | some err => .publishPreviousUnclean err).map fun (w', pc') => (w', s.goto pc')
  | .publishPreviousUnclean err =>
    some (w.completeStart s.operationEpoch .stopping id,
      s.goto (.deferredUnlock (.failure "stop previous rw-core" err)))
  | .restorePrevious result =>
    some (w.restorePreviousStart s.operationEpoch s.previous s.previousProcess,
      s.goto (.deferredUnlock result))
  | .ctxAfterTerminate => some (w, s.checkCtxGone .runPreStart)
  | .runPreStart => some (w, s.goto .ctxAfterPreStart)
  | .ctxAfterPreStart => some (w, s.checkCtxGone .stageConfig)
  | .publishCanceled err =>
    some (w.completeStart s.operationEpoch .stopped World.forgetProcess,
      s.goto (.deferredUnlock (.canceledBy err)))
  | .stageConfig =>
    match w.stagePendingConfig s.operationEpoch s.previousProcess s.prepared.json with
    | none => some (w, s.goto .publishUnstaged)
    | some w' => some (w', s.goto .releaseGate)
  | .publishUnstaged =>
    some (w.completeStart s.operationEpoch .stopped id,
      s.goto (.deferredUnlock (.canceledBy .canceled)))
  | .releaseGate => some (releasePreviousGate w s .startProcess)
  | .startProcess =>
    if ch.ok then some (w.spawn s.processEpoch, s.goto (.assignProcess w.spawned))
    else some (w, s.goto (.publishSpawnFailed ch.err))
  | .publishSpawnFailed err =>
    some (w.completeStart s.operationEpoch .stopped World.clearRuntime,
      s.goto (.deferredUnlock (.failure "spawn rw-core" err)))
  | .assignProcess p =>
    match w.assignProcess s.operationEpoch p with
    | none => some (w, s.goto (.terminateUnassigned p .exitStatus))
    | some w' => some (w', s.goto (.waitCheck p))
  | .terminateUnassigned p pc =>
    (terminateIn w t p ch pc (StartPC.terminateUnassigned p) fun
      | none => .publishUnassigned p none
      | some err => .retainUnclean p err).map fun (w', pc') => (w', s.goto pc')
  | .retainUnclean p err =>
    some (w.retainUncleanProcess p, s.goto (.publishUnassigned p (some err)))
  | .publishUnassigned _ err =>
    some (w.completeStart s.operationEpoch (if err.isSome then .stopping else .stopped) id,
      s.goto (.deferredUnlock (.failure "xray start canceled"
        (String.intercalate "\n" (CtxErr.canceled.text :: err.toList)))))
  | .waitCheck p =>
    some (w, s.goto (if (w.procs p).leaderUnavailable then
      .terminateNew p (.processExited (w.procs p).leaderUnavailableErr) .exitStatus
      else .waitProbe p))
  | .waitProbe p => some (w, s.goto (if ch.ok then .waitReady p else .waitSelect p))
  | .waitReady p =>
    some (w, s.goto (match s.ctxErr with
      | some e => .terminateNew p (.ctx e) .exitStatus
      | none => if ch.timeout then .terminateNew p .startupTimeout .exitStatus
        else .waitReadyLeader p))
  | .waitReadyLeader p =>
    some (w, s.goto (if (w.procs p).leaderUnavailable then
      .terminateNew p (.processExited (w.procs p).leaderUnavailableErr) .exitStatus
      else .probeVersion p))
  | .waitSelect p =>
    -- the cases of the select in their order: parent.Done, ctx.Done, leaderDone, timer
    match ch.branch with
    | 0 => s.ctxErr.map fun e => (w, s.goto (.terminateNew p (.ctx e) .exitStatus))
    | 1 =>
      match s.ctxErr with
      | some e => some (w, s.goto (.terminateNew p (.ctx e) .exitStatus))
      | none => if ch.timeout then
          some (w, s.goto (.terminateNew p .startupTimeout .exitStatus)) else none
    | 2 =>
      if (w.procs p).leaderDone then
        some (w, s.goto (.terminateNew p
          (.processExited (w.procs p).leaderUnavailableErr) .exitStatus))
      else none
    | _ => some (w, s.goto (.waitCheck p))
  | .probeVersion p => some (w, s.goto (.ctxAfterVersion p))
  | .ctxAfterVersion p =>
    some (w, s.goto (match s.ctxErr with
      | some e => .terminateNew p (.ctx e) .exitStatus
      | none => .commitRunning p))
  | .commitRunning p =>
    match w.commitRunningStart s.operationEpoch p s.prepared.hashState with
    | (w', .completed) => some (w', s.goto (.deferredUnlock .started))
    | (w', .notOwned) => some (w', s.goto (.deferredUnlock (.canceledBy .canceled)))
    | (w', .unavailable e) => some (w', s.goto (.terminateNew p (.processExited e) .exitStatus))
  | .terminateNew p ready pc =>
    (terminateIn w t p ch pc (StartPC.terminateNew p ready)
      (StartPC.publishNew p ready)).map fun (w', pc') => (w', s.goto pc')
  | .publishNew _ ready err =>
    some (w.completeStart s.operationEpoch (if err.isSome then .stopping else .stopped)
        (if err.isSome then id else World.forgetProcess),
      s.goto (.deferredUnlock (.notReady ready err)))
  | .deferredUnlock result => some (releasePreviousGate w s (.returned result))
  | .returned _ => none
where
  /- `releasePreviousGate` (lifecycle.go:129-134). -/
  releasePreviousGate (w : World) (s : StartCall) (next : StartPC) : World × StartCall :=
    match s.gateHeld, s.previousProcess with
    | true, some p =>
      (w.setProc p { w.procs p with gateWriter := none }, { s with pc := next, gateHeld := false })
    | _, _ => (w, s.goto next)

def stopStep (w : World) (t : Tid) (s : StopCall) (ch : Pick) : Option (World × StopCall) :=
  match s.pc with
  | .reserve =>
    match w.reserveStop t with
    | (w', .waitOnly op) => some (w', { s with pc := .waitOnly op })
    | (w', .proceed target waitForOwner retryCleanup) =>
      some (w', { s with
        pc := if waitForOwner then .cancelStart target else .readProcess
        retryCleanup := retryCleanup })
  | .waitOnly op =>
    -- op.done is closed and op.isStopped set by the publication of the other Stop
    match w.threads op with
    | .stop { pc := .deferredUnlock isStopped, .. } => some (w, { s with pc := .returned isStopped })
    | .stop { pc := .returned isStopped, .. } => some (w, { s with pc := .returned isStopped })
    | _ => none
  | .cancelStart target =>
    some ((target.map w.cancelStart).getD w, { s with pc := .lockLifecycle })
  | .lockLifecycle =>
    if w.lifecycleMu = none then
      some ({ w with lifecycleMu := some t }, { s with pc := .readProcess })
    else none
  | .readProcess => some (w, { s with pc := .lockGate, process := w.process })
  | .lockGate =>
    let next := if s.retryCleanup then StopPC.retryOutcome else .terminate .exitStatus
    match s.process with
    | none => some (w, { s with pc := next })
    | some p =>
      if (w.procs p).gateWriter = none ∧ (w.procs p).gateReaders = ∅ then
        some (w.setProc p { w.procs p with gateWriter := some t }, { s with pc := next })
      else none
  | .retryOutcome =>
    -- retryProcessCleanup, lifecycle.go:973-988
    match s.process with
    | none => some (w, { s with pc := .readOutcome none })
    | some p =>
      some (w, { s with pc :=
        if (w.procs p).finalized then .readOutcome none
        else match (w.procs p).observationErr with
          | some e => .readOutcome (some ("observe rw-core leader exit: " ++ e))
          | none => if (w.procs p).leaderObserved && (w.procs p).cleanupErr.isSome then
              .retryFinalize .lock else .terminate .exitStatus })
  | .retryFinalize pc =>
    match s.process with
    | none => none
    | some p =>
      match finalizeStep (w.procs p) (.thread t) ch pc with
      | none => none
      | some (ps, sent, .next pc') =>
        some ((w.setProc p ps).recordSignal sent (.thread t) p, { s with pc := .retryFinalize pc' })
      | some (ps, sent, .done err) =>
        some ((w.setProc p ps).recordSignal sent (.thread t) p, { s with pc := .readOutcome err })
  | .terminate pc =>
    match s.process with
    | none => some (w, { s with pc := .readOutcome none })
    | some p =>
      (terminateIn w t p ch pc StopPC.terminate StopPC.readOutcome).map
        fun (w', pc') => (w', { s with pc := pc' })
  | .readOutcome _ =>
    some (w, { s with pc := .publish (match s.process with
      | none => true
      | some p => (w.procs p).finalized && (w.procs p).cleanupVerified) })
  | .publish succeeded =>
    some (w.publishStop s.process succeeded, { s with pc := .deferredUnlock succeeded })
  | .deferredUnlock isStopped =>
    some (match s.process with
      | none => w
      | some p => w.setProc p { w.procs p with gateWriter := none },
      { s with pc := .returned isStopped })
  | .returned _ => none

/- One step of the monitor of `p`. -/
def monitorStep (w : World) (p : Pid) (ch : Pick) : Option World :=
  let ps := w.procs p
  match ps.monitor with
  | .waitLeader =>
    -- waitForProcessLeader returns at any moment; markLeaderWait, lifecycle.go:810-818
    let observationErr := if ch.ok then none else some ch.err
    some (w.setProc p { ps with
      leaderObserved := ch.ok
      leaderReaped := ch.ok && ch.reaped
      leaderErr := if ch.ok then ch.leaderErr else none
      observationErr := observationErr
      monitor := .closeLeaderDone })
  | .closeLeaderDone =>
    some (w.setProc p { ps with
      leaderDone := true
      monitor := if ps.observationErr = none then .finalize .lock else .closeMonitorDone })
  | .finalize pc =>
    match finalizeStep ps .monitor ch pc with
    | none => none
    | some (ps', sent, .next pc') =>
      some ((w.setProc p { ps' with monitor := .finalize pc' }).recordSignal sent .monitor p)
    | some (ps', sent, .done _) =>
      some ((w.setProc p { ps' with monitor := .closeMonitorDone }).recordSignal sent .monitor p)
  | .closeMonitorDone =>
    some (w.setProc p { ps with monitorDone := true, monitor := .readOutcome })
  | .readOutcome => some (w.setProc p { ps with monitor := .callback ps.toProcessOutcome })
  | .callback outcome =>
    some ((w.monitorCallback p outcome).setProc p { ps with monitor := .returned })
  | .returned => none

/- One step of a lease. Leaving `active` is the holder's call of `release`. -/
def leaseStep (w : World) (t : Tid) (l : LeaseCall) : Option (World × LeaseCall) :=
  match l.pc with
  | .begin =>
    match l.ctxErr, w.process with
    | some _, _ => some (w, { l with pc := .returned none })
    | none, none => some (w, { l with pc := .returned none })
    | none, some p =>
      some (w, { l with pc := if w.leasable p then .rlock p else .returned none })
  | .rlock p =>
    if (w.procs p).gateWriter = none then
      some (w.setProc p { w.procs p with gateReaders := insert t (w.procs p).gateReaders },
        { l with pc := .validate p })
    else none
  | .validate p =>
    let next := if w.leasable p then LeasePC.ctxCheck p
      else .runlock p "xray lifecycle changed"
    some (w, { l with pc := next })
  | .ctxCheck p =>
    match l.ctxErr with
    | some e => some (w, { l with pc := .runlock p e.text })
    | none => some (w, { l with pc := .active p })
  | .runlock p _ =>
    some (w.setProc p { w.procs p with gateReaders := (w.procs p).gateReaders.erase t },
      { l with pc := .returned none })
  | .active p => some (w, { l with pc := .released p })
  | .released p =>
    some (w.setProc p { w.procs p with gateReaders := (w.procs p).gateReaders.erase t },
      { l with pc := .returned (some p) })
  | .returned _ => none

/- The process a lease's token names, and whether the token is active. -/
def LeasePC.token : LeasePC → Option (Pid × Bool)
  | active p => some (p, true)
  | released p => some (p, false)
  | returned (some p) => some (p, false)
  | _ => none

/-- What can happen next: a call arrives, the context given to a call ends, a
goroutine takes a step, a token holder commits. -/
inductive Event where
  | callStart (t : Tid) (req : StartRequest)
  | callStop (t : Tid)
  | callLease (t : Tid)
  | endContext (t : Tid) (err : CtxErr)
  | thread (t : Tid) (ch : Pick)
  | monitor (p : Pid) (ch : Pick)
  | commit (t : Tid) (u : UserCommit)

def StartCall.new (req : StartRequest) : StartCall where
  req := req
  pc := .makeLogDir
  ctxErr := none
  operationEpoch := 0
  previous := .stopped
  previousProcess := none
  gateHeld := false
  processEpoch := 0
  prepared := ⟨"", .cleared⟩

def step (w : World) : Event → Option World
  | .callStart t req =>
    match w.threads t with
    | .idle => some (w.setThread t (.start (.new req)))
    | _ => none
  | .callStop t =>
    match w.threads t with
    | .idle => some (w.setThread t (.stop ⟨.reserve, false, none⟩))
    | _ => none
  | .callLease t =>
    match w.threads t with
    | .idle => some (w.setThread t (.lease ⟨.begin, none⟩))
    | _ => none
  | .endContext t err =>
    match w.threads t with
    | .start s => some (w.setThread t (.start { s with ctxErr := s.ctxErr <|> some err }))
    | .lease l => some (w.setThread t (.lease { l with ctxErr := l.ctxErr <|> some err }))
    | _ => none
  | .thread t ch =>
    match w.threads t with
    | .idle => none
    | .start s => (startStep w t s ch).map fun (w', s') => w'.setThread t (.start s')
    | .stop s => (stopStep w t s ch).map fun (w', s') => w'.setThread t (.stop s')
    | .lease l => (leaseStep w t l).map fun (w', l') => w'.setThread t (.lease l')
  | .monitor p ch => if p < w.spawned then monitorStep w p ch else none
  | .commit t u =>
    match w.threads t with
    | .lease l => l.pc.token.map fun (p, active) => (w.commitUser active p u).1
    | _ => none

end RemnanodeLite.Xray
