import RemnanodeLite.Rnlctl.Installation

/-! # Install, activate, upgrade and roll back

`lifecycle.go` and `preflight.go` with the parts of `state.go`, `bundle.go` and
`status.go` they rest on. -/

namespace RemnanodeLite.Rnlctl.Lifecycle
open Filepath Program Fallible

/- What is read of the manifest of a bundle, and its `bin/rnlctl`. -/
structure Manifest where
  version : Text
  contractVersion : Text
  architecture : Text
  sourceRevision : Text
  control : Text

/- `root` says that the process has the privileges. The rest is not code of the lifecycle: the
manifest that a digest is the digest of, the texts of configuration files, and the archive
that is written of a directory, its digest and whether it can be unpacked. -/
structure Engine where
  root : Bool
  manifest : Text → Manifest
  validConfiguration : Option Text → Option Text → Bool → Except Failure Unit
  validSecret : Text → Except Failure Unit
  prepareEnvironment : Text → Option Text → ℤ → Except Failure Text
  snapshotSHA256 : Text → Text
  reopens : Text → Bool

def Engine.generationID (engine : Engine) (identity : Text) : Text :=
  (engine.manifest identity).version ++ ['-'] ++ identity.take 16

structure Result where
  operation : Text
  changed : Bool
  generation : Text
  version : Text
  preparedOnly : Bool
  deriving DecidableEq

/-! ### State and journal -/

def generationIDRE (t : Text) : Bool :=
  17 ≤ t.length && projectVersionRE (t.take (t.length - 17)) &&
    (t.drop (t.length - 17)).head? = some '-' && (t.drop (t.length - 16)).all isHex

def validateGenerationRecord (g : GenerationRecord) : Except Failure Unit := do
  refuse (!generationIDRE g.id || !projectVersionRE g.version ||
      !contractVersionRE g.contractVersion || !gitRevisionRE g.sourceRevision ||
      !hexDigestRE g.identity) (.errorf "invalid identity metadata" [])
  refuse (¬ "-rnl.".toList <:+: g.version ∧ g.version ≠ g.contractVersion)
    (.errorf "stable generation version must equal contract version" [])
  refuse (g.architecture ≠ "amd64".toList ∧ g.architecture ≠ "arm64".toList)
    (.errorf "invalid architecture" [])
  refuse (g.cacheFile = []) (.errorf "unsafe cache path" [])
  refuse (!hexDigestRE g.archiveSHA256) (.errorf "invalid cache integrity metadata" [])

def ManagedAccount.complete (a : ManagedAccount) : Bool :=
  a.uid ≠ [] && a.gid ≠ [] && a.home ≠ [] && a.shell ≠ []

def validateGenerations : List ((_ : Text) × GenerationRecord) → Except Failure Unit
  | [] => .ok ()
  | ⟨id, g⟩ :: rest => do
    refuse (id ≠ g.id) (.errorf "generation map key %q does not match record" [id])
    (validateGenerationRecord g).mapError (.wrapf "generation %q: %w" [id])
    validateGenerations rest

def validateState (s : PersistentState) : Except Failure Unit := do
  refuse (s.prepared && (s.desired.enabled || s.desired.active))
    (.errorf "prepared deployment must be stopped and disabled" [])
  refuse (!s.account.complete) (.errorf "managed account identity is incomplete" [])
  refuse (s.generations.entries.length = 0 ∨ 2 < s.generations.entries.length)
    (.errorf "generation count must be one or two" [])
  refuse (s.generations.lookup s.current = none)
    (.errorf "current generation %q is not recorded" [s.current])
  refuse (s.previous ≠ [] ∧ s.previous = s.current)
    (.errorf "current and previous generations are identical" [])
  refuse (s.previous ≠ [] ∧ s.generations.lookup s.previous = none)
    (.errorf "previous generation %q is not recorded" [s.previous])
  validateGenerations s.generations.entries

def loadState : Ctl (Option PersistentState) := do
  match (← look).state with
  | none => return none
  | some state =>
    check ((validateState state).mapError (.wrapf "invalid lifecycle state: %w" []))
    return some state

def saveState (state : PersistentState) : Ctl Unit := do
  check ((validateState state).mapError (.wrapf "refuse invalid lifecycle state: %w" []))
  step (.saveState state)

def allowedPhase : Operation → Phase → Bool
  | .install, .planned | .install, .payloadReady | .install, .servicePrepared
  | .install, .stateCommitted => true
  | .upgrade, .planned | .upgrade, .payloadReady | .upgrade, .serviceRestored
  | .upgrade, .stateCommitted => true
  | .install, .serviceRestored | .upgrade, .servicePrepared => false
  | _, phase => phase = .planned

def validateJournal (j : TransactionJournal) : Except Failure Unit := do
  refuse (!allowedPhase j.operation j.phase)
    (.errorf "unsupported %s journal phase %q" [j.operation.text])
  refuse (j.purge ∧ j.operation ≠ .uninstall)
    (.errorf "purge intent is valid only for uninstall" [])
  refuse (j.restartRequired ∧ j.operation ≠ .activate)
    (.errorf "restart intent is valid only for activate" [])
  (validateGenerationRecord j.target).mapError (.wrapf "journal target: %w" [])

def loadJournal : Ctl (Option TransactionJournal) := do
  match (← look).journal with
  | none => return none
  | some journal =>
    check ((validateJournal journal).mapError (.wrapf "invalid lifecycle journal: %w" []))
    return some journal

def saveJournal (journal : TransactionJournal) : Ctl Unit := do
  check (validateJournal journal)
  step (.saveJournal journal)

def clearJournal : Ctl Unit := step .clearJournal

def loadRetained : Ctl (Option ManagedAccount) := do
  match (← look).retained with
  | none => return none
  | some account =>
    failIf (!account.complete) (.errorf "invalid retained installation metadata" [])
    return some account

def saveRetained (account : ManagedAccount) : Ctl Unit := do
  failIf (!account.complete) (.errorf "cannot retain incomplete account identity" [])
  step (.saveRetained account)

def notInstalled : Failure := .errorf "remnanode-lite is not installed" []

def interruptedError (journal : TransactionJournal) : Failure :=
  .errorf "an interrupted %s operation requires rnlctl repair" [journal.operation.text]

def requireCleanState : Ctl PersistentState := do
  match ← loadState with
  | none => fail notInstalled
  | some state =>
    match ← loadJournal with
    | some journal => fail (interruptedError journal)
    | none => return state

def requirePrivileges (engine : Engine) : Ctl Unit :=
  failIf (!engine.root) (.errorf "Native lifecycle operations must run as root" [])

def acquireOperationLock : Ctl Unit := do
  step (.ensureDirectory .installerState)
  ask .operationLock

/- `state.Generations[id]` of a generation that is recorded. -/
def PersistentState.record (s : PersistentState) (id : Text) : Ctl GenerationRecord :=
  match s.generations.lookup id with
  | some g => return g
  | none => fail (.errorf "generation %q is not recorded" [id])

def mergeAccountOwnership (old current : ManagedAccount) : ManagedAccount :=
  if old.uid = current.uid ∧ old.gid = current.gid ∧ old.home = current.home ∧
      old.shell = current.shell then
    { current with
      userCreated := current.userCreated || old.userCreated
      groupCreated := current.groupCreated || old.groupCreated }
  else current

/-! ### Payloads -/

/- `validateBundleRoot` of a generation. -/
def Machine.validateBundleRoot (m : Machine) (engine : Engine) (id architecture : Text) :
    Option Text :=
  match m.generations id with
  | some (.intact identity) =>
    if (engine.manifest identity).architecture = architecture then some identity else none
  | _ => none

/- `openBundle` of a file in the bundle cache. -/
def Machine.openCache (m : Machine) (engine : Engine) (name sha256 architecture : Text) :
    Option Text :=
  (m.caches.lookup name).bind fun file =>
    if file.sha256 = sha256 && file.opens then
      file.identity.filter fun identity => (engine.manifest identity).architecture = architecture
    else none

/- The bundle found in a directory is the one that is recorded. -/
def recordedBundle (engine : Engine) (record : GenerationRecord) (identity : Text) : Bool :=
  identity = record.identity && engine.generationID identity = record.id

def verifyGeneration (engine : Engine) (record : GenerationRecord) : Ctl Unit := do
  match (← look).validateBundleRoot engine record.id record.architecture with
  | none => fail (.system "validate bundle")
  | some identity =>
    failIf (!recordedBundle engine record identity)
      (.errorf "generation identity does not match lifecycle state" [])

structure CacheInfo where
  path : Text
  sha256 : Text
  kind : CacheKind

/- The file that `cacheBundle` writes. -/
def cacheContent (engine : Engine) (bundle : ValidatedBundle) : CacheFile :=
  match bundle.archiveSHA256 with
  | some sha256 => ⟨sha256, some bundle.identity, true⟩
  | none =>
    ⟨engine.snapshotSHA256 bundle.identity, some bundle.identity, engine.reopens bundle.identity⟩

def ValidatedBundle.cacheName (bundle : ValidatedBundle) : Text :=
  bundle.archiveSHA256.getD bundle.identity ++ ".tar.gz".toList

def ValidatedBundle.kind (bundle : ValidatedBundle) : CacheKind :=
  if bundle.archiveSHA256.isSome then .verifiedArchive else .rootSnapshot

def reuseCache (engine : Engine) (bundle : ValidatedBundle) (file : CacheFile) :
    Except Failure CacheInfo := do
  refuse (file.opens = false) (.errorf "cached bundle is invalid: %w" [])
  let cached ← match file.identity with
    | some identity => .ok identity
    | none => .error (.errorf "cached bundle is invalid: %w" [])
  refuse ((engine.manifest cached).architecture ≠ (engine.manifest bundle.identity).architecture)
    (.errorf "cached bundle is invalid: %w" [])
  refuse (cached ≠ bundle.identity) (.errorf "cached bundle identity mismatch" [])
  refuse (bundle.archiveSHA256.any (file.sha256 ≠ ·))
    (.errorf "cached bundle digest does not match verified archive" [])
  return ⟨bundle.cacheName, file.sha256, bundle.kind⟩

/- The flag says that the cache was created. -/
def cacheBundle (engine : Engine) (bundle : ValidatedBundle) : Ctl (CacheInfo × Bool) := do
  step (.ensureDirectory .bundleCache)
  failIf (bundle.archiveSHA256.any (!hexDigestRE ·))
    (.errorf "verified bundle has invalid archive digest" [])
  match (← look).caches.lookup bundle.cacheName with
  | some file => return (← check (reuseCache engine bundle file), false)
  | none =>
    let file := cacheContent engine bundle
    step (.writeCache bundle.cacheName file)
    let _ ← look
    return (⟨bundle.cacheName, file.sha256, bundle.kind⟩, true)

def generationFromBundle (engine : Engine) (bundle : ValidatedBundle) (cache : CacheInfo) :
    GenerationRecord :=
  let manifest := engine.manifest bundle.identity
  ⟨engine.generationID bundle.identity, manifest.version, manifest.contractVersion,
    manifest.architecture, manifest.sourceRevision, bundle.identity, cache.path, cache.sha256,
    cache.kind⟩

/- The answer says that the directory was created. -/
def copyBundleToGeneration (engine : Engine) (identity : Text) : Ctl Bool := do
  let id := engine.generationID identity
  let m ← look
  match m.generations id with
  | some _ =>
    failIf (m.validateBundleRoot engine id (engine.manifest identity).architecture ≠ some identity)
      (.errorf "existing generation %s does not match bundle identity" [id])
    return false
  | none =>
    step (.ensureDirectory .generations)
    step (.createGeneration id identity)
    return true

/-! ### Host and links -/

def ensureDirectories : List Directory → Ctl Unit
  | [] => return ()
  | directory :: rest => do
    step (.ensureDirectory directory)
    ensureDirectories rest

def ensureRuntimeDirectories : Ctl Unit :=
  ensureDirectories [.libraryRoot, .generations, .configDirectory, .applicationState, .logDirectory,
    .runtimeDirectory, .bundleCache]

/- What can be read as the `bin/rnlctl` of a generation. -/
def Machine.controlOf (m : Machine) (engine : Engine) (id : Text) : Option Text :=
  match m.generations id with
  | some (.intact identity) => some (engine.manifest identity).control
  | some (.damaged control) => control
  | none => none

/- `atomicCopyFile` of the generation's `bin/rnlctl`. -/
def installControl (engine : Engine) (id : Text) : Ctl Unit := do
  match (← look).controlOf engine id with
  | none => fail .notExist
  | some data => step (.writeControl data)

def selectPrevious (previous : Text) : Ctl Unit :=
  if previous = [] then step (.removeLink .previous)
  else wrapf "select previous generation: %w" [] (step (.symlink .previous (.generation previous)))

def selectGeneration (engine : Engine) (current previous : Text) : Ctl Unit := do
  wrapf "select current generation: %w" [] (step (.symlink .current (.generation current)))
  selectPrevious previous
  wrapf "install node binary link: %w" [] (step (.symlink .node .nodeBinary))
  wrapf "install independent rnlctl binary: %w" [] (installControl engine current)

def applyServiceState (desired : DesiredServiceState) : Ctl Unit := do
  let actual := (← look).service
  whenever (actual.active && !desired.active) (step (.setActive false))
  whenever (actual.enabled ≠ desired.enabled) (step (.setEnabled desired.enabled))
  whenever (!actual.active && desired.active) (step (.setActive true))

def reassertServiceState (desired : DesiredServiceState) : Ctl Unit := do
  let enabled ← attempt (whenever desired.enabled (step (.setEnabled true)))
  let active ← attempt (step (.setActive desired.active))
  let disabled ← attempt (whenever (!desired.enabled) (step (.setEnabled false)))
  let verified ← attempt do
    failIf ((← look).service ≠ desired)
      (.errorf "service recovery state is enabled=%t active=%t; want enabled=%t active=%t" [])
  joined [enabled, active, disabled, verified]

def verifyTransitionOutcome (record : GenerationRecord) (desired : DesiredServiceState) :
    Ctl Unit := do
  ask (.validateBinary record.id record.version record.contractVersion)
  whenever desired.active (ask .waitHealthy)

/- `Prepare` where its error ends the operation. -/
def prepareService (id : Text) : Ctl ManagedAccount := do
  let (account, ok) ← prepare id
  failIf (!ok) (.system "prepare")
  return account

/-! ### Install -/

structure InstallRequest where
  bundle : Except Failure ValidatedBundle
  port : ℤ
  secretFile : Option (Except Failure Text)
  prepareOnly : Bool

/- `readExistingSecret` of the managed file. -/
def readExistingSecret (engine : Engine) : Ctl Text := do
  match (← look).secret with
  | none => fail .notExist
  | some data =>
    check ((engine.validSecret data).mapError (.wrapf "validate existing secret: %w" []))
    return data

def secretRequired : Failure :=
  .errorf "a valid Secret Key is required; pass it with --secret-file" []

def effectiveInstallSecret (engine : Engine) (request : InstallRequest) : Ctl (Option Text) := do
  match request.secretFile with
  | some data => return some (← check data)
  | none =>
    match ← attempt (readExistingSecret engine) with
    | .ok data => return some data
    | .error .notExist => if request.prepareOnly then return none else fail secretRequired
    | .error e => fail e

def requireFreshInstallLayout : Ctl Unit := do
  let m ← look
  failIf ((m.links .current).isSome || (m.links .previous).isSome || (m.links .node).isSome ||
    m.control.isSome) (.errorf
      "managed path %s exists without lifecycle state; remove it or recover the prior installation" [])

def rollbackFailedInstall (record : GenerationRecord) (cacheCreated generationCreated : Bool)
    (account : ManagedAccount) (servicePrepared : Bool) (environment secret : Option Text) :
    Ctl Unit := do
  joined (← attemptAll (
    (if servicePrepared then [step (.setActive false), step (.setEnabled false)] else []) ++
    [step .removeService, step (.removeLink .current), step (.removeLink .previous),
      step (.removeLink .node), step .removeControl, step .removeState] ++
    (if generationCreated then [step (.removeGeneration record.id)] else []) ++
    (if cacheCreated then [step (.removeCache record.cacheFile)] else []) ++
    [step (.setEnvironment environment), step (.setSecret secret)] ++
    if account.userCreated || account.groupCreated then [step (.removeAccount account)] else []))

/- The journal is saved: from here on a failure is rolled back. -/
def installTransition (engine : Engine) (request : InstallRequest) (bundle : ValidatedBundle)
    (record : GenerationRecord) (cacheCreated : Bool) (journal : TransactionJournal)
    (retained : Option ManagedAccount) (environment : Text) (secretData : Option Text)
    (environmentSnapshot secretSnapshot : Option Text) : Ctl Unit := do
  let rollback (generationCreated : Bool) (account : ManagedAccount) (servicePrepared : Bool) :
      Ctl Unit := do
    rollbackFailedInstall record cacheCreated generationCreated account servicePrepared
      environmentSnapshot secretSnapshot
    clearJournal
  let created ← recovering (rollback false noAccount false) (copyBundleToGeneration engine bundle.identity)
  recovering (rollback created noAccount false) do
    saveJournal { journal with phase := .payloadReady }
    ask (.checkpoint "install-after-generation")
    ensureRuntimeDirectories
    wrapf "write node.env: %w" [] (step (.setEnvironment (some environment)))
    forSome secretData fun data =>
      wrapf "write Secret Key: %w" [] (step (.setSecret (some data)))
    selectGeneration engine record.id []
    ask (.checkpoint "install-after-current-link")
  let (transactionAccount, ok) ← prepare record.id
  recovering (rollback created transactionAccount false) (failIf (!ok) (.system "prepare"))
  let account := match retained with
    | some owned => mergeAccountOwnership owned transactionAccount
    | none => transactionAccount
  let journal := { journal with account := account, transactionAccount := some transactionAccount }
  recovering (rollback created transactionAccount true) do
    saveJournal { journal with phase := .servicePrepared }
    applyServiceState journal.desired
    verifyTransitionOutcome record journal.desired
    ask (.checkpoint "install-after-service")
    saveState ⟨record.id, [], request.prepareOnly, journal.desired, account,
      AList.singleton record.id record⟩
    saveJournal { journal with phase := .stateCommitted }
    ask (.checkpoint "install-after-state")

/- The first journal, without which nothing needs to be repaired. -/
def planInstall (journal : TransactionJournal) (cacheCreated : Bool) : Ctl Unit := do
  match ← attempt (saveJournal journal) with
  | .ok () => pure ()
  | .error e =>
    let _ ← attempt (whenever cacheCreated (step (.removeCache journal.target.cacheFile)))
    fail e

def firstCheckpoint : Ctl Unit := do
  match ← attempt (ask (.checkpoint "install-after-journal")) with
  | .ok () => pure ()
  | .error e =>
    let _ ← attempt clearJournal
    fail e

def installFresh (engine : Engine) (request : InstallRequest) (bundle : ValidatedBundle) :
    Ctl Result := do
  let secretData ← effectiveInstallSecret engine request
  failIf (!request.prepareOnly && (secretData.getD []).isEmpty)
    (.errorf "a valid Secret Key is required" [])
  ask (.preflight !request.prepareOnly)
  let retained ← loadRetained
  requireFreshInstallLayout
  let m ← look
  let environment ← check (engine.prepareEnvironment bundle.identity m.environment request.port)
  let (cache, cacheCreated) ← cacheBundle engine bundle
  let record := generationFromBundle engine bundle cache
  let journal : TransactionJournal := ⟨.install, .planned, record,
    ⟨!request.prepareOnly, !request.prepareOnly⟩, request.prepareOnly, false, false, noAccount, none⟩
  planInstall journal cacheCreated
  firstCheckpoint
  installTransition engine request bundle record cacheCreated journal retained environment
    secretData m.environment m.secret
  wrapf "installation committed but journal cleanup failed: %w; run rnlctl repair" [] clearJournal
  wrapf "installation committed but retained metadata cleanup failed: %w" [] (step .removeRetained)
  return ⟨"install".toList, true, record.id, record.version, request.prepareOnly⟩

def refusePending : Ctl Unit := do
  forSome (← loadJournal) fun journal => fail (interruptedError journal)

def install (engine : Engine) (request : InstallRequest) : Ctl Result := do
  let bundle ← check request.bundle
  requirePrivileges engine
  acquireOperationLock
  let state ← loadState
  refusePending
  match state with
  | none => installFresh engine request bundle
  | some state =>
    let current ← state.record state.current
    failIf (current.identity ≠ bundle.identity)
      (.errorf "a different remnanode-lite generation is already installed; use upgrade" [])
    return ⟨"install".toList, false, current.id, current.version, state.prepared⟩

/-! ### Activate -/

structure ActivateRequest where
  secretFile : Option (Except Failure Text)

def effectiveActivationSecret (engine : Engine) (request : ActivateRequest) : Ctl Text := do
  match request.secretFile with
  | some data => check data
  | none =>
    match ← attempt (readExistingSecret engine) with
    | .ok data => return data
    | .error .notExist => fail secretRequired
    | .error e => fail e

/- `validateManagedConfiguration`. -/
def validateManagedConfiguration (engine : Engine) (requireSecret : Bool) : Ctl Unit := do
  let m ← look
  check (engine.validConfiguration m.environment m.secret requireSecret)

def restoreAfterActivate (secretSnapshot : Option Text) (before : DesiredServiceState)
    (restartRequired : Bool) : Ctl Unit := do
  let secret ← attempt (step (.setSecret secretSnapshot))
  let service ← attempt (reassertServiceState before)
  joined [secret, service]
  whenever restartRequired do
    step .restart
    ask .waitHealthy
  clearJournal

def activateTransition (engine : Engine) (request : ActivateRequest) (state : PersistentState)
    (journal : TransactionJournal) (secretData : Text) : Ctl Unit := do
  whenever request.secretFile.isSome (step (.setSecret (some secretData)))
  validateManagedConfiguration engine true
  ensureRuntimeDirectories
  let account ← prepareService journal.target.id
  applyServiceState journal.desired
  whenever journal.restartRequired (step .restart)
  verifyTransitionOutcome journal.target journal.desired
  saveState { state with
    desired := journal.desired, prepared := false
    account := mergeAccountOwnership state.account account }

def activate (engine : Engine) (request : ActivateRequest) : Ctl Result := do
  let secretData ← effectiveActivationSecret engine request
  ask (.preflight true)
  requirePrivileges engine
  acquireOperationLock
  let state ← requireCleanState
  let current ← state.record state.current
  verifyGeneration engine current
  let m ← look
  let secretChanged := request.secretFile.isSome && m.secret ≠ some secretData
  let serviceBefore := (← look).service
  if state.desired = ⟨true, true⟩ && serviceBefore = ⟨true, true⟩ && request.secretFile.isNone then
    return ⟨"activate".toList, false, current.id, current.version, false⟩
  else
    let journal : TransactionJournal :=
      ⟨.activate, .planned, current, ⟨true, true⟩, false, false,
        secretChanged && serviceBefore.active, state.account, none⟩
    saveJournal journal
    recovering (restoreAfterActivate m.secret serviceBefore journal.restartRequired)
      (activateTransition engine request state journal secretData)
    wrapf "activation committed but journal cleanup failed: %w" [] clearJournal
    return ⟨"activate".toList, true, current.id, current.version, false⟩

/-! ### Upgrade -/

def requireTarget (found : Option Target) (expected : Target) : Except Failure Unit :=
  refuse (found ≠ some expected) (.errorf "managed link %s targets %s, want %s" [])

def checkSelectedLinks (engine : Engine) (state : PersistentState) : Ctl Unit := do
  let m ← look
  check (requireTarget (m.links .current) (.generation state.current))
  check (if state.previous = [] then
      refuse (m.links .previous).isSome
        (.errorf "previous link exists without a retained generation" [])
    else requireTarget (m.links .previous) (.generation state.previous))
  check (requireTarget (m.links .node) .nodeBinary)
  match m.generations state.current with
  | some (.intact identity) => check (refuse (m.control ≠ some (engine.manifest identity).control)
      (.errorf "independent rnlctl binary does not match the selected generation" []))
  | _ => fail .notExist

structure UpgradeInspection where
  state : PersistentState
  current : GenerationRecord
  superseded : Option GenerationRecord
  service : DesiredServiceState
  changeRequired : Bool

def inspectUpgrade (engine : Engine) (bundle : ValidatedBundle) : Ctl UpgradeInspection := do
  let state ← requireCleanState
  let current ← state.record state.current
  wrapf "verify current generation: %w; run rnlctl repair" [] (verifyGeneration engine current)
  wrapf "verify generation selection: %w; run rnlctl repair" [] (checkSelectedLinks engine state)
  wrapf "validate current configuration: %w" []
    (validateManagedConfiguration engine !state.prepared)
  wrapf "validate current managed permissions: %w" [] (ask .managedPermissions)
  let service := (← look).service
  failIf (state.prepared && (service.enabled || service.active)) (.errorf
    "prepared installation is unexpectedly enabled or active; run rnlctl repair before upgrading" [])
  let changeRequired : Bool := current.identity ≠ bundle.identity
  whenever changeRequired (ask (.preflight service.active))
  return ⟨state, current, state.generations.lookup state.previous, service, changeRequired⟩

def discardStagedUpgrade (record : GenerationRecord) (cacheCreated generationCreated : Bool) :
    Ctl Unit := do
  joined (← attemptAll (
    (if generationCreated then [step (.removeGeneration record.id)] else []) ++
    if cacheCreated then [step (.removeCache record.cacheFile)] else []))

def rollbackTransition (engine : Engine) (old : PersistentState) (desired : DesiredServiceState)
    (target : GenerationRecord) (cacheCreated generationCreated : Bool) : Ctl Unit := do
  let stopped ← attempt (step (.setActive false))
  let selected ← attempt do
    selectGeneration engine old.current old.previous
    ensureRuntimeDirectories
    let _ ← prepareService old.current
  let restored ← attempt do
    applyServiceState desired
    forSome (old.generations.lookup old.current) fun record => verifyTransitionOutcome record desired
  match ← attempt (saveState old) with
  | .error e => joined [stopped, selected, restored, .error e]
  | .ok () =>
    let removed ← attemptAll (
      (if generationCreated then [step (.removeGeneration target.id)] else []) ++
      if cacheCreated then [step (.removeCache target.cacheFile)] else [])
    joined ([stopped, selected, restored] ++ removed)

def removeSuperseded (record : GenerationRecord) (keep : PersistentState) : Ctl Unit := do
  whenever (record.id ≠ []) do
    whenever (keep.generations.lookup record.id).isNone (step (.removeGeneration record.id))
    whenever (!keep.generations.entries.any (·.2.cacheFile = record.cacheFile))
      (step (.removeCache record.cacheFile))

/- The record of the new state that `Upgrade` and `Rollback` commit. -/
def switchedState (state : PersistentState) (target current : GenerationRecord)
    (desired : DesiredServiceState) (account : ManagedAccount) : PersistentState where
  current := target.id
  previous := current.id
  prepared := state.prepared
  desired := desired
  account := mergeAccountOwnership state.account account
  generations := (AList.singleton target.id target).insert current.id current

def upgradeTransition (engine : Engine) (state : PersistentState) (oldRecord : GenerationRecord)
    (serviceBefore : DesiredServiceState) (bundle : ValidatedBundle) (record : GenerationRecord)
    (cacheCreated : Bool) (journal : TransactionJournal) : Ctl PersistentState := do
  let discard (generationCreated : Bool) : Ctl Unit := do
    discardStagedUpgrade record cacheCreated generationCreated
    clearJournal
  let restore (generationCreated : Bool) : Ctl Unit := do
    rollbackTransition engine state serviceBefore record cacheCreated generationCreated
    clearJournal
  let created ← recovering (discard false) (copyBundleToGeneration engine bundle.identity)
  recovering (discard created) do
    saveJournal { journal with phase := .payloadReady }
    ask (.validateBinary record.id record.version record.contractVersion)
  whenever serviceBefore.active (recovering (restore created) (step (.setActive false)))
  recovering (if serviceBefore.active then restore created else discard created) do
    ask (.checkpoint "upgrade-after-stop")
    ensureRuntimeDirectories
  recovering (restore created) do
    selectGeneration engine record.id oldRecord.id
    ask (.checkpoint "upgrade-after-current-link")
    let account ← prepareService record.id
    applyServiceState serviceBefore
    verifyTransitionOutcome record serviceBefore
    saveJournal { journal with phase := .serviceRestored }
    ask (.checkpoint "upgrade-after-service")
    let newState := switchedState state record oldRecord serviceBefore account
    saveState newState
    saveJournal { journal with phase := .stateCommitted }
    ask (.checkpoint "upgrade-after-state")
    return newState

def planUpgrade (journal : TransactionJournal) (cacheCreated : Bool) : Ctl Unit := do
  match ← attempt (saveJournal journal) with
  | .ok () => pure ()
  | .error e =>
    let cleanup ← attempt (discardStagedUpgrade journal.target cacheCreated false)
    joined [.error e, cleanup]

def upgradeTo (engine : Engine) (bundle : ValidatedBundle) (inspection : UpgradeInspection) :
    Ctl Result := do
  let (cache, cacheCreated) ← cacheBundle engine bundle
  let record := generationFromBundle engine bundle cache
  let journal : TransactionJournal := ⟨.upgrade, .planned, record, inspection.service, false, false,
    false, inspection.state.account, none⟩
  planUpgrade journal cacheCreated
  let newState ← upgradeTransition engine inspection.state inspection.current inspection.service
    bundle record cacheCreated journal
  wrapf "upgrade committed but journal cleanup failed: %w; run rnlctl repair" [] clearJournal
  forSome inspection.superseded fun superseded =>
    wrapf "upgrade committed but superseded payload cleanup failed: %w" []
      (removeSuperseded superseded newState)
  return ⟨"upgrade".toList, true, record.id, record.version, newState.prepared⟩

/- `candidate` is what `prepareUpgradeCandidate` opens after its own look at the state. -/
def upgrade (engine : Engine) (candidate : Except Failure ValidatedBundle) : Ctl Result := do
  requirePrivileges engine
  let _ ← requireCleanState
  let bundle ← check candidate
  acquireOperationLock
  let inspection ← inspectUpgrade engine bundle
  if inspection.changeRequired then
    upgradeTo engine bundle inspection
  else
    return ⟨"upgrade".toList, false, inspection.current.id, inspection.current.version,
      inspection.state.prepared⟩

/-! ### Rollback -/

def rollbackSwitch (engine : Engine) (state : PersistentState) (current target : GenerationRecord)
    (serviceBefore : DesiredServiceState) : Ctl PersistentState := do
  whenever serviceBefore.active (step (.setActive false))
  ensureRuntimeDirectories
  selectGeneration engine target.id current.id
  let account ← prepareService target.id
  applyServiceState serviceBefore
  verifyTransitionOutcome target serviceBefore
  let newState := switchedState state target current serviceBefore account
  saveState newState
  return newState

def rollbackFailure (engine : Engine) (state : PersistentState) (target : GenerationRecord)
    (serviceBefore : DesiredServiceState) : Ctl Unit := do
  rollbackTransition engine state serviceBefore target false false
  clearJournal

def notRetained (id : Text) : Failure :=
  .errorf "generation %q is not the retained previous generation" [id]

/- The generation that is asked for, or the retained one. -/
def rollbackTarget (generationID : Text) (state : PersistentState) : Text :=
  if generationID = [] then state.previous else generationID

def checkRollbackTarget (generationID : Text) : Ctl Unit := do
  match ← loadState with
  | none => fail notInstalled
  | some preState =>
    let targetID := rollbackTarget generationID preState
    failIf (targetID = []) (.errorf "no previous generation is available" [])
    failIf (targetID ≠ preState.previous && targetID ≠ preState.current) (notRetained targetID)

def rollback (engine : Engine) (generationID : Text) : Ctl Result := do
  checkRollbackTarget generationID
  ask (.preflight (← look).service.active)
  requirePrivileges engine
  acquireOperationLock
  let state ← requireCleanState
  let targetID := rollbackTarget generationID state
  let current ← state.record state.current
  if targetID = state.current then
    return ⟨"rollback".toList, false, current.id, current.version, state.prepared⟩
  else
    failIf (targetID = [] || targetID ≠ state.previous) (notRetained targetID)
    let target ← state.record targetID
    wrapf "target generation is invalid; run rnlctl repair: %w" [] (verifyGeneration engine target)
    let serviceBefore := (← look).service
    saveJournal
      ⟨.rollback, .planned, target, serviceBefore, false, false, false, state.account, none⟩
    let newState ← recovering (rollbackFailure engine state target serviceBefore)
      (rollbackSwitch engine state current target serviceBefore)
    wrapf "rollback committed but journal cleanup failed: %w" [] clearJournal
    return ⟨"rollback".toList, true, target.id, target.version, newState.prepared⟩

end RemnanodeLite.Rnlctl.Lifecycle
