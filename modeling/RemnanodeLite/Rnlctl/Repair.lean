import RemnanodeLite.Rnlctl.Lifecycle

/-! # Repair, uninstall and the smaller operations

`repair.go`, `uninstall.go`, `control.go` and the operations of `configuration.go`. -/

namespace RemnanodeLite.Rnlctl.Lifecycle
open Filepath Program

/-! ### Uninstall -/

def removeTrees : List Directory → Ctl Unit
  | [] => return ()
  | directory :: rest => do
    step (.removeAll directory)
    removeTrees rest

def removeRuntimeFiles (purge : Bool) : Ctl Unit := do
  step (.removeLink .node)
  step (.removeLink .current)
  step (.removeLink .previous)
  removeTrees [.libraryRoot, .applicationState, .logDirectory, .runtimeDirectory]
  whenever purge (step (.removeAll .configDirectory))

/- What may not be repeated once it is done: the journal goes last. -/
def finishRemoval (purge : Bool) : Ctl Unit :=
  if purge then step (.removeAll .installerState) else clearJournal

def finishUninstall (account : ManagedAccount) (purge removeService : Bool) : Ctl Unit := do
  whenever removeService do
    applyServiceState ⟨false, false⟩
    step .removeService
  whenever (!purge) (saveRetained account)
  removeRuntimeFiles purge
  whenever (purge && (account.userCreated || account.groupCreated)) (step (.removeAccount account))
  step .removeState
  step (.removeAll .bundleCache)
  whenever purge (step .removeRetained)
  step .removeControl
  finishRemoval purge

structure UninstallRequest where
  purge : Bool
  yes : Bool

def uninstallResult (changed : Bool) : Result := ⟨"uninstall".toList, changed, [], [], false⟩

def uninstallJournal (state : PersistentState) (current : GenerationRecord) (purge : Bool) :
    TransactionJournal :=
  ⟨.uninstall, .planned, current, ⟨false, false⟩, state.prepared, purge, false, state.account, none⟩

def uninstallState (purge : Bool) (state : PersistentState) : Ctl Result := do
  let current ← state.record state.current
  saveJournal (uninstallJournal state current purge)
  finishUninstall state.account purge true
  return uninstallResult true

def uninstallLocked (engine : Engine) (purge : Bool) : Ctl Result := do
  requirePrivileges engine
  acquireOperationLock
  let state ← loadState
  let retained ← loadRetained
  refusePending
  match state, retained with
  | some state, _ => uninstallState purge state
  | none, some account => do
    finishUninstall account purge false
    return uninstallResult true
  | none, none => return uninstallResult false

def uninstall (engine : Engine) (request : UninstallRequest) : Ctl Result := do
  failIf (request.purge && !request.yes) (.errorf "uninstall --purge requires --yes" [])
  let state ← loadState
  let retained ← loadRetained
  refusePending
  match state, retained with
  | some state, _ => do
    ask (.preflight false)
    whenever request.purge (ask (.preflightRemoveAccount state.account))
    uninstallLocked engine request.purge
  | none, some account =>
    if request.purge then do
      ask (.preflightRemoveAccount account)
      uninstallLocked engine request.purge
    else return uninstallResult false
  | none, none => return uninstallResult false

/-! ### Repair -/

/- The journal is read again under the lock. -/
def resumeUninstall (journal : TransactionJournal) : Option TransactionJournal → Ctl Result
  | none => fail (.errorf
      "interrupted uninstall journal changed while acquiring the lifecycle lock" [])
  | some currentJournal => do
    failIf (currentJournal.operation ≠ .uninstall) (.errorf
      "interrupted uninstall journal changed while acquiring the lifecycle lock" [])
    failIf (currentJournal.purge ≠ journal.purge || currentJournal.account ≠ journal.account) (.errorf
      "interrupted uninstall intent changed while acquiring the lifecycle lock" [])
    finishUninstall currentJournal.account currentJournal.purge true
    return ⟨"repair".toList, true, [], [], false⟩

def repairInterruptedUninstall (engine : Engine) (journal : TransactionJournal) : Ctl Result := do
  requirePrivileges engine
  whenever journal.purge (ask (.preflightRemoveAccount journal.account))
  acquireOperationLock
  resumeUninstall journal (← loadJournal)

def transactionAccount (journal : TransactionJournal) : ManagedAccount :=
  journal.transactionAccount.getD journal.account

def cleanupInterruptedInstall (journal : TransactionJournal) : Ctl Unit := do
  let status ← attempt (do return (← look).service)
  let service := match status with
    | .ok service => service
    | .error _ => ⟨false, false⟩
  let created := transactionAccount journal
  joined (← attemptAll (
    (if service.active then [step (.setActive false)] else []) ++
    (if service.enabled then [step (.setEnabled false)] else []) ++
    [step .removeService, step (.removeLink .current), step (.removeLink .previous),
      step (.removeLink .node), step .removeControl, step .removeState,
      step (.removeGeneration journal.target.id), step (.removeCache journal.target.cacheFile)] ++
    if created.userCreated || created.groupCreated then [step (.removeAccount created)] else []))
  clearJournal

def regexpCacheName (name : Text) : Bool :=
  name.length = 71 && name.drop 64 = ".tar.gz".toList && hexDigestRE (name.take 64)

def collectCaches (state : PersistentState) : List Text → Ctl Unit
  | [] => return ()
  | name :: rest => do
    whenever (!state.generations.entries.any (·.2.cacheFile = name) && regexpCacheName name)
      (step (.removeCache name))
    collectCaches state rest

def garbageCollectCaches (state : PersistentState) : Ctl Unit := do
  collectCaches state (← look).caches.keys

/- The identifier of a target that was read from a journal is not empty, and its directory and
cache are where they belong. -/
def removeUncommittedUpgrade (journal : TransactionJournal) (state : Option PersistentState) :
    Ctl Unit :=
  whenever (state.bind (·.generations.lookup journal.target.id)).isNone do
    let m ← look
    whenever (m.generations journal.target.id).isSome
      (wrapf "remove uncommitted upgrade generation: %w" []
        (step (.removeGeneration journal.target.id)))
    whenever (state.all fun s => !s.generations.entries.any (·.2.cacheFile = journal.target.cacheFile))
      (wrapf "remove uncommitted upgrade cache: %w" [] (step (.removeCache journal.target.cacheFile)))

def findGeneration (engine : Engine) (record : GenerationRecord) : Ctl Text := do
  match (← look).validateBundleRoot engine record.id record.architecture with
  | none => fail (.system "validate bundle")
  | some identity =>
    failIf (!recordedBundle engine record identity) (.errorf "generation identity mismatch" [])
    return identity

def findCache (engine : Engine) (record : GenerationRecord) : Ctl Text := do
  match (← look).openCache engine record.cacheFile record.archiveSHA256 record.architecture with
  | none => fail (.system "open bundle")
  | some identity =>
    failIf (identity ≠ record.identity) (.system "identity")
    return identity

def recreateGeneration (engine : Engine) (record : GenerationRecord) (source : Option Text)
    (generationErr : Failure) : Ctl Unit := do
  match source with
  | none => fail (.wrapf "generation is damaged and no matching verified cache or repair bundle is available: %w" [] generationErr)
  | some identity =>
    step (.removeGeneration record.id)
    failIf (!(← copyBundleToGeneration engine identity)) (.errorf "generation was not recreated" [])

/- A supplied archive is cached as it is. -/
def rebuildCache (engine : Engine) (record : GenerationRecord) (source : ValidatedBundle) :
    Ctl GenerationRecord := do
  step (.removeCache record.cacheFile)
  let (cache, _) ← cacheBundle engine source
  return { record with
    cacheFile := cache.path, archiveSHA256 := cache.sha256, cacheKind := cache.kind }

/- Every source is the recorded bundle; the flag says that something was done. -/
def restoreGeneration (engine : Engine) (record : GenerationRecord) (source : Option Text) :
    Except Failure Text → Ctl Bool
  | .ok _ => return false
  | .error generationErr => do
    recreateGeneration engine record source generationErr
    return true

def restoreCache (engine : Engine) (record : GenerationRecord) (source : ValidatedBundle)
    (changed : Bool) : Except Failure Text → Ctl (GenerationRecord × Bool)
  | .ok _ => return (record, changed)
  | .error _ => return (← rebuildCache engine record source, true)

def repairGeneration (engine : Engine) (record : GenerationRecord)
    (supplied : Option ValidatedBundle) : Ctl (GenerationRecord × Bool) := do
  let generation ← attempt (findGeneration engine record)
  let cached ← attempt (findCache engine record)
  let matching := supplied.filter (·.identity = record.identity)
  let changed ← restoreGeneration engine record (matching.map (·.identity) <|> cached.toOption)
    generation
  restoreCache engine record (matching.getD ⟨record.identity, none⟩) changed cached

def repairGenerations (engine : Engine) (supplied : Option ValidatedBundle) :
    List ((_ : Text) × GenerationRecord) → PersistentState → Bool → Ctl (PersistentState × Bool)
  | [], state, changed => return (state, changed)
  | ⟨id, record⟩ :: rest, state, changed => do
    let (repaired, recordChanged) ← wrapf "repair generation %s: %w" [id]
      (repairGeneration engine record supplied)
    repairGenerations engine supplied rest
      { state with generations := state.generations.insert id repaired } (changed || recordChanged)

/- What `Repair` has decided before it changes anything. -/
structure RepairPlan where
  state : PersistentState
  interrupted : Option TransactionJournal
  supplied : Option ValidatedBundle
  cleanupUpgrade : Bool
  reconstructedInstall : Bool

/- The state on disk decides whether an interrupted upgrade was committed; an interrupted
activation is completed. -/
def planRepair (state : PersistentState) (interrupted : Option TransactionJournal)
    (supplied : Option ValidatedBundle) : RepairPlan :=
  match interrupted with
  | none => ⟨state, none, supplied, false, false⟩
  | some journal =>
    ⟨if journal.operation = .activate then
        { state with desired := journal.desired, prepared := false } else state,
      interrupted, supplied,
      journal.operation = .upgrade && (state.generations.lookup journal.target.id).isNone, false⟩

/- Without a state an installation is reconstructed from its journal. -/
def reconstructInstall (journal : TransactionJournal) (supplied : Option ValidatedBundle) :
    RepairPlan :=
  ⟨⟨journal.target.id, [], journal.prepared, journal.desired, journal.account,
    AList.singleton journal.target.id journal.target⟩, some journal, supplied, false, true⟩

def restoreSelection (engine : Engine) (plan : RepairPlan) (state : PersistentState) : Ctl Unit := do
  ensureRuntimeDirectories
  selectGeneration engine state.current state.previous
  forSome plan.interrupted fun journal =>
    whenever plan.cleanupUpgrade (removeUncommittedUpgrade journal (some state))
  ask (.checkpoint "repair-after-current-link")

def restoreService (plan : RepairPlan) (state : PersistentState) : Ctl PersistentState := do
  let account ← prepareService state.current
  let state := { state with account := mergeAccountOwnership state.account account }
  forSome plan.interrupted fun journal => whenever plan.reconstructedInstall
    (saveJournal { journal with account := state.account, phase := .servicePrepared })
  applyServiceState state.desired
  whenever (plan.interrupted.any (·.restartRequired)) (step .restart)
  let current ← state.record state.current
  verifyTransitionOutcome current state.desired
  return state

def repairInstallation (engine : Engine) (plan : RepairPlan) : Ctl (PersistentState × Bool) := do
  whenever (← look).service.active (step (.setActive false))
  let reversed ← mapOrder
  let entries := plan.state.generations.entries
  let (state, changed) ← repairGenerations engine plan.supplied
    (if reversed then entries.reverse else entries) plan.state plan.interrupted.isSome
  restoreSelection engine plan state
  let state ← restoreService plan state
  saveState state
  wrapf "repair committed but journal cleanup failed: %w" [] clearJournal
  wrapf "repair completed but cache cleanup failed: %w" [] (garbageCollectCaches state)
  return (state, changed)

def repairJournal (state : PersistentState) (current : GenerationRecord) : TransactionJournal :=
  ⟨.repair, .planned, current, state.desired, state.prepared, false, false, state.account, none⟩

def carryOut (engine : Engine) (plan : RepairPlan) (preparedOnly : Bool) : Ctl Result := do
  forSome plan.supplied fun given =>
    failIf (!plan.state.generations.entries.any (·.2.identity = given.identity)) (.errorf
      "repair bundle identity does not match any installed generation; repair never upgrades" [])
  whenever plan.interrupted.isNone do
    let current ← plan.state.record plan.state.current
    saveJournal (repairJournal plan.state current)
  let (state, changed) ← repairInstallation engine plan
  let current ← state.record state.current
  return ⟨"repair".toList, changed, current.id, current.version, preparedOnly⟩

def cannotReconstruct : Failure :=
  .errorf "lifecycle state is missing and the journal cannot reconstruct an installation" []

/- An installation without a configuration is removed instead. -/
def abandonInstall (journal : TransactionJournal) (e : Failure) : Ctl Result := do
  match ← attempt (cleanupInterruptedInstall journal) with
  | .ok () => return ⟨"repair".toList, true, [], [], false⟩
  | .error later => fail (.both e later)

def repairWithoutState (engine : Engine) (interrupted : Option TransactionJournal)
    (supplied : Option ValidatedBundle) (configuration : Except Failure Unit) (preparedOnly : Bool) :
    Ctl Result :=
  match interrupted with
  | none => fail cannotReconstruct
  | some journal =>
    match journal.operation with
    | .upgrade => do
      removeUncommittedUpgrade journal none
      fail (.errorf "upgrade journal has no lifecycle state; reinstall the Native release" [])
    | .install =>
      match configuration with
      | .ok () => carryOut engine (reconstructInstall journal supplied) preparedOnly
      | .error e => abandonInstall journal e
    | _ => fail cannotReconstruct

/- Whether the service is to run, and whether the installation is only prepared. -/
def intendedService (state : Option PersistentState) (journal : Option TransactionJournal) :
    DesiredServiceState × Bool :=
  let recorded := match state, journal with
    | some state, _ => (state.desired, state.prepared)
    | none, some journal => (journal.desired, journal.prepared)
    | none, none => (⟨false, false⟩, false)
  match journal with
  | some journal => if journal.operation = .activate then (journal.desired, false) else recorded
  | none => recorded

def openSupplied : Option (Except Failure ValidatedBundle) → Ctl (Option ValidatedBundle)
  | none => return none
  | some opened => do return some (← check opened)

def repairInterrupted (engine : Engine) (bundle : Option (Except Failure ValidatedBundle))
    (preState : Option PersistentState) (preJournal : Option TransactionJournal) : Ctl Result := do
  let (desired, preparedOnly) := intendedService preState preJournal
  ask (.preflight desired.active)
  let configuration ← attempt (validateManagedConfiguration engine desired.active)
  whenever preState.isSome (check configuration)
  let supplied ← openSupplied bundle
  requirePrivileges engine
  acquireOperationLock
  let state ← loadState
  let interrupted ← loadJournal
  match state with
  | none => repairWithoutState engine interrupted supplied configuration preparedOnly
  | some state => carryOut engine (planRepair state interrupted supplied) preparedOnly

/- `bundle` is none if no bundle was given, otherwise the result of opening it. -/
def repair (engine : Engine) (bundle : Option (Except Failure ValidatedBundle)) : Ctl Result := do
  let preState ← loadState
  let preJournal ← loadJournal
  match preState, preJournal with
  | none, none => fail notInstalled
  | preState, some journal =>
    if journal.operation = .uninstall then
      repairInterruptedUninstall engine journal
    else repairInterrupted engine bundle preState (some journal)
  | preState, none => repairInterrupted engine bundle preState none

/-! ### Controlling the service -/

/- What happens to a running operation whose context ends: the service is put back. -/
def restoreAfterCancellation (current : GenerationRecord) (actual : DesiredServiceState) :
    Ctl Unit := do
  reassertServiceState actual
  whenever actual.active (verifyTransitionOutcome current actual)
  clearJournal

inductive Control where
  | start
  | stop
  | restart
  deriving DecidableEq

def Control.operation : Control → Operation
  | .start => .start
  | .stop => .stop
  | .restart => .restart

def Control.activating : Control → Bool
  | .stop => false
  | _ => true

def preparedError : Failure :=
  .errorf "prepared installations must be enabled with rnlctl activate" []

def Control.command : Control → Ctl Unit
  | .start => do
    step (.setActive true)
    ask .waitHealthy
  | .stop => step (.setActive false)
  | .restart => do
    step .restart
    ask .waitHealthy

def Control.desired (control : Control) (desired : DesiredServiceState) : DesiredServiceState :=
  match control with
  | .start => { desired with active := true }
  | .stop => { desired with active := false }
  | .restart => desired

def controlPrecheck (control : Control) : Ctl Unit := do
  match ← loadState with
  | none => fail notInstalled
  | some preState => failIf (control.activating && preState.prepared) preparedError

/- The service is as it should be already. -/
def Control.settled (control : Control) (actual desired : DesiredServiceState) : Bool :=
  (control = .start && actual.active && desired.active) ||
    (control = .stop && !actual.active && !desired.active)

/- `canceled` says whether the context has ended when the command is done. -/
def controlTransition (control : Control) (canceled : Bool) (state : PersistentState)
    (current : GenerationRecord) (actual : DesiredServiceState) : Ctl Result := do
  saveJournal ⟨control.operation, .planned, current, state.desired, state.prepared, false, false,
    state.account, none⟩
  if canceled then
    recovering (restoreAfterCancellation current actual) do
      let _ ← attempt control.command
      fail (.system "context canceled")
  else
    control.command
    saveState { state with desired := control.desired state.desired }
    wrapf "%s committed but journal cleanup failed: %w" [control.operation.text] clearJournal
    return ⟨control.operation.text, true, current.id, current.version, false⟩

def controlService (engine : Engine) (control : Control) (canceled : Bool) : Ctl Result := do
  controlPrecheck control
  whenever control.activating (validateManagedConfiguration engine true)
  ask (.preflight control.activating)
  requirePrivileges engine
  acquireOperationLock
  let state ← requireCleanState
  failIf (control.activating && state.prepared) preparedError
  let current ← state.record state.current
  let actual := (← look).service
  if control.settled actual state.desired then
    return ⟨control.operation.text, false, current.id, current.version, false⟩
  else
    failIf (control = .restart && !actual.active)
      (.errorf "service is stopped; use rnlctl start" [])
    controlTransition control canceled state current actual

/-! ### Configuration -/

def requireActiveConfigurationTarget (state : PersistentState) : Ctl Unit := do
  failIf state.prepared preparedError
  let service := (← look).service
  failIf (!state.desired.active || !service.active) (.errorf
    "service is stopped; change the configuration without --apply, then use rnlctl start" [])

def restartManagedConfiguration : Ctl Unit := do
  wrapf "restart service: %w" [] (step .restart)
  wrapf "verify restarted service: %w" [] (ask .waitHealthy)

def restoreManagedFile (restore : Effect) (restart : Bool) : Ctl Unit := do
  wrapf "restore previous %s: %w" [] (step restore)
  wrapf "restore managed ownership: %w" [] (step .applyOwnership)
  whenever restart
    (wrapf "restore service with previous configuration: %w" [] restartManagedConfiguration)

/- A restart whose context has ended is tried once more. -/
def restartRecovered (canceled : Bool) : Ctl Unit :=
  if canceled then recovering restartManagedConfiguration restartManagedConfiguration
  else restartManagedConfiguration

/- A managed file is replaced and what depends on it checked; every failure after the
replacement puts the old file back. -/
def replaceManagedFile (write restore : Effect) (changed apply canceled : Bool) (validate : Ctl Unit) :
    Ctl Unit :=
  if changed then do
    step write
    recovering (restoreManagedFile restore false) (step .applyOwnership)
    recovering (restoreManagedFile restore false) do
      validate
      whenever apply (ask .managedPermissions)
    whenever apply (recovering (restoreManagedFile restore true) restartManagedConfiguration)
  else whenever apply do
    validate
    ask .managedPermissions
    restartRecovered canceled

structure ConfigurationUpdateRequest where
  rewrite : Option Text → Except Failure Text
  operation : Text
  valid : Except Failure Unit
  apply : Bool
  canceled : Bool

def updateConfiguration (engine : Engine) (request : ConfigurationUpdateRequest) : Ctl Result := do
  check request.valid
  requirePrivileges engine
  whenever request.apply (ask (.preflight true))
  acquireOperationLock
  let state ← requireCleanState
  whenever request.apply (requireActiveConfigurationTarget state)
  let snapshot ← look
  let candidate ← check (request.rewrite snapshot.environment)
  check (engine.validConfiguration (some candidate) snapshot.secret !state.prepared)
  let changed : Bool := snapshot.environment ≠ some candidate
  replaceManagedFile (.setEnvironment (some candidate)) (.setEnvironment snapshot.environment)
    changed request.apply request.canceled (pure ())
  let current ← state.record state.current
  return ⟨request.operation, changed || request.apply, current.id, current.version, false⟩

def applyConfiguration (engine : Engine) (canceled : Bool) : Ctl Result := do
  requirePrivileges engine
  ask (.preflight true)
  acquireOperationLock
  let state ← requireCleanState
  requireActiveConfigurationTarget state
  ask .managedPermissions
  validateManagedConfiguration engine !state.prepared
  restartRecovered canceled
  let current ← state.record state.current
  return ⟨"config-apply".toList, true, current.id, current.version, false⟩

structure SecretUpdateRequest where
  file : Option (Except Failure Text)
  apply : Bool
  canceled : Bool

def setSecret (engine : Engine) (request : SecretUpdateRequest) : Ctl Result := do
  match request.file with
  | none => fail (.errorf "--file is required" [])
  | some source =>
    requirePrivileges engine
    whenever request.apply (ask (.preflight true))
    acquireOperationLock
    let state ← requireCleanState
    whenever request.apply (requireActiveConfigurationTarget state)
    let secretData ← check source
    let snapshot ← look
    let changed : Bool := snapshot.secret ≠ some secretData
    replaceManagedFile (.setSecret (some secretData)) (.setSecret snapshot.secret) changed
      request.apply request.canceled (validateManagedConfiguration engine !state.prepared)
    let current ← state.record state.current
    return ⟨"secret-set".toList, changed || request.apply, current.id, current.version, false⟩

end RemnanodeLite.Rnlctl.Lifecycle
