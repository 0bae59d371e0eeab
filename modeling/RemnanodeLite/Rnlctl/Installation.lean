import RemnanodeLite.Rnlctl.Bundle

/-! # A Native installation

What the lifecycle operations of `rnlctl` keep on the host (`state.go`,
`lifecycle_types.go`) and the durable steps they take: a file is replaced, a link
switched, a tree removed, the service manager or the account database changed. Any
step may fail before or after it has taken effect. -/

namespace RemnanodeLite.Rnlctl.Lifecycle
open Filepath Program

/-! ### Metadata -/

structure ManagedAccount where
  userCreated : Bool
  groupCreated : Bool
  uid : Text
  gid : Text
  home : Text
  shell : Text
  deriving DecidableEq

def noAccount : ManagedAccount := ⟨false, false, [], [], [], []⟩

inductive CacheKind where
  | verifiedArchive
  | rootSnapshot
  deriving DecidableEq

/- `CacheFile` is the name of a file in the bundle cache. -/
structure GenerationRecord where
  id : Text
  version : Text
  contractVersion : Text
  architecture : Text
  sourceRevision : Text
  identity : Text
  cacheFile : Text
  archiveSHA256 : Text
  cacheKind : CacheKind
  deriving DecidableEq

structure DesiredServiceState where
  enabled : Bool
  active : Bool
  deriving DecidableEq

/- An empty `previous` means that no generation is retained. -/
structure PersistentState where
  current : Text
  previous : Text
  prepared : Bool
  desired : DesiredServiceState
  account : ManagedAccount
  generations : AList fun _ : Text => GenerationRecord
  deriving DecidableEq

inductive Operation where
  | install
  | activate
  | upgrade
  | rollback
  | repair
  | uninstall
  | start
  | stop
  | restart
  deriving DecidableEq

def Operation.text : Operation → Text
  | .install => "install".toList
  | .activate => "activate".toList
  | .upgrade => "upgrade".toList
  | .rollback => "rollback".toList
  | .repair => "repair".toList
  | .uninstall => "uninstall".toList
  | .start => "start".toList
  | .stop => "stop".toList
  | .restart => "restart".toList

inductive Phase where
  | planned
  | payloadReady
  | servicePrepared
  | serviceRestored
  | stateCommitted
  deriving DecidableEq

/- Its `From` and `Previous` are read by nothing but the status report. -/
structure TransactionJournal where
  operation : Operation
  phase : Phase
  target : GenerationRecord
  desired : DesiredServiceState
  prepared : Bool
  purge : Bool
  restartRequired : Bool
  account : ManagedAccount
  transactionAccount : Option ManagedAccount
  deriving DecidableEq

/-! ### Payloads -/

/- A bundle that has passed `validateBundleRoot`, named by the digest of its manifest: a
directory, or an archive with the digest that it was checked against. -/
structure ValidatedBundle where
  identity : Text
  archiveSHA256 : Option Text
  deriving DecidableEq

/- A directory below `generations`: one that `validateBundleRoot` accepts, or one that it
refuses, with what can still be read as its `bin/rnlctl`. -/
inductive Payload where
  | intact (identity : Text)
  | damaged (control : Option Text)
  deriving DecidableEq

/- A file in the bundle cache with its digest: the bundle whose files it holds, if any, and
whether it can be unpacked again. -/
structure CacheFile where
  sha256 : Text
  identity : Option Text
  opens : Bool
  deriving DecidableEq

/-! ### The host -/

inductive Directory where
  | libraryRoot
  | generations
  | configDirectory
  | applicationState
  | logDirectory
  | runtimeDirectory
  | bundleCache
  | installerState
  deriving DecidableEq

inductive Link where
  | current
  | previous
  | node
  deriving DecidableEq

/- What a managed link names: a generation, the node binary below `current`, or anything. -/
inductive Target where
  | generation (id : Text)
  | nodeBinary
  | other (path : Text)
  deriving DecidableEq

structure AccountIdentity where
  uid : Text
  gid : Text
  home : Text
  shell : Text
  deriving DecidableEq

@[ext]
structure Machine where
  state : Option PersistentState
  journal : Option TransactionJournal
  retained : Option ManagedAccount
  generations : Text → Option Payload
  caches : AList fun _ : Text => CacheFile
  links : Link → Option Target
  control : Option Text
  environment : Option Text
  secret : Option Text
  directories : Directory → Bool
  service : DesiredServiceState
  registered : Bool
  user : Option AccountIdentity
  group : Bool

/-! ### Durable steps -/

inductive Effect where
  | saveState (state : PersistentState)
  | removeState
  | saveJournal (journal : TransactionJournal)
  | clearJournal
  | saveRetained (account : ManagedAccount)
  | removeRetained
  | symlink (link : Link) (target : Target)
  | removeLink (link : Link)
  | writeControl (data : Text)
  | removeControl
  | setEnvironment (data : Option Text)
  | setSecret (data : Option Text)
  | ensureDirectory (directory : Directory)
  | removeAll (directory : Directory)
  | createGeneration (id identity : Text)
  | removeGeneration (id : Text)
  | writeCache (name : Text) (file : CacheFile)
  | removeCache (name : Text)
  | setEnabled (enabled : Bool)
  | setActive (active : Bool)
  | restart
  | removeService
  | removeAccount (account : ManagedAccount)
  | applyOwnership

def removeTree (m : Machine) : Directory → Machine
  | .libraryRoot =>
    { m with
      generations := fun _ => none
      links := Function.update (Function.update m.links .current none) .previous none
      directories := Function.update (Function.update m.directories .libraryRoot false)
        .generations false }
  | .generations =>
    { m with
      generations := fun _ => none
      directories := Function.update m.directories .generations false }
  | .configDirectory =>
    { m with
      environment := none, secret := none
      directories := Function.update m.directories .configDirectory false }
  | .bundleCache =>
    { m with
      caches := ∅
      directories := Function.update m.directories .bundleCache false }
  | .installerState =>
    { m with
      state := none, journal := none, retained := none, caches := ∅
      directories := Function.update (Function.update m.directories .bundleCache false)
        .installerState false }
  | directory => { m with directories := Function.update m.directories directory false }

def Effect.apply (m : Machine) : Effect → Machine
  | .saveState state => { m with state := some state }
  | .removeState => { m with state := none }
  | .saveJournal journal => { m with journal := some journal }
  | .clearJournal => { m with journal := none }
  | .saveRetained account => { m with retained := some account }
  | .removeRetained => { m with retained := none }
  | .symlink link target => { m with links := Function.update m.links link (some target) }
  | .removeLink link => { m with links := Function.update m.links link none }
  | .writeControl data => { m with control := some data }
  | .removeControl => { m with control := none }
  | .setEnvironment data => { m with environment := data }
  | .setSecret data => { m with secret := data }
  | .ensureDirectory directory =>
    { m with directories := Function.update m.directories directory true }
  | .removeAll directory => removeTree m directory
  | .createGeneration id identity =>
    { m with generations := Function.update m.generations id (some (.intact identity)) }
  | .removeGeneration id => { m with generations := Function.update m.generations id none }
  | .writeCache name file => { m with caches := m.caches.insert name file }
  | .removeCache name => { m with caches := m.caches.erase name }
  | .setEnabled enabled => { m with service := { m.service with enabled := enabled } }
  | .setActive active => { m with service := { m.service with active := active } }
  | .restart => { m with service := { m.service with active := true } }
  | .removeService => { m with registered := false }
  | .removeAccount account =>
    { m with
      user := if account.userCreated then none else m.user
      group := if account.groupCreated then false else m.group }
  | .applyOwnership => m

/- A failed step that has done something: the removal of a generation may stop midway, every
other step, `removeAll` included, is taken as done. -/
def Effect.halfway (m : Machine) : Effect → Machine
  | .removeGeneration id =>
    { m with
      generations := Function.update m.generations id
        ((m.generations id).map fun _ => .damaged none) }
  | e => e.apply m

/- Questions to the host, and the points where a test may inject a failure. -/
inductive Question where
  | preflight (activating : Bool)
  | preflightRemoveAccount (account : ManagedAccount)
  | validateBinary (id version contractVersion : Text)
  | waitHealthy
  | managedPermissions
  | operationLock
  | checkpoint (name : String)

inductive Op where
  | look
  | step (e : Effect)
  | ask (question : Question)
  | prepare (id : Text)
  | mapOrder

def Op.Answer : Op → Type
  | look => Option Machine
  | step _ => Bool
  | ask _ => Bool
  | prepare _ => ManagedAccount × Bool
  | mapOrder => Bool

/- What the environment decides at a call; `identity` is that of an account it creates. -/
structure Choice where
  fails : Bool
  tookEffect : Bool
  identity : AccountIdentity

def AccountIdentity.managed (i : AccountIdentity) (userCreated groupCreated : Bool) : ManagedAccount :=
  ⟨userCreated, groupCreated, i.uid, i.gid, i.home, i.shell⟩

/- `ensureAccount`: an account that exists already was not created. -/
def ensureAccount (m : Machine) (created : AccountIdentity) : ManagedAccount :=
  match m.user with
  | some identity => identity.managed false false
  | none => created.managed true !m.group

/- `Prepare` makes the runtime directories, the account and the service definition. -/
def prepared (m : Machine) (created : AccountIdentity) : Machine :=
  { m with
    directories := Function.update (Function.update (Function.update m.directories
      .applicationState true) .logDirectory true) .runtimeDirectory true
    registered := true
    user := m.user <|> some created
    group := true }

def handle : Handler Op Op.Answer Machine Choice
  | .look, m, c => (if c.fails then none else some m, m)
  | .step e, m, c =>
    if c.fails then (false, if c.tookEffect then e.halfway m else m) else (true, e.apply m)
  | .ask _, m, c => (!c.fails, m)
  | .prepare _, m, c =>
    if c.fails && !c.tookEffect then ((noAccount, false), m)
    else ((ensureAccount m c.identity, !c.fails), prepared m c.identity)
  | .mapOrder, m, c => (c.fails, m)

/-! ### Operations -/

/- How an operation ends without success; `recovery` is history: what the recovery phase
returned if there was one. -/
structure Stop where
  error : Failure
  recovery : Option (Except Failure Unit)

abbrev Ctl := ExceptT Stop (Program Op Op.Answer)

section
variable {α : Type}

def fail (e : Failure) : Ctl α := throw ⟨e, none⟩

def check (r : Except Failure α) : Ctl α :=
  match r with
  | .ok a => pure a
  | .error e => fail e

/- `if c { … }` where nothing is returned, `if c { return e }`, and the same for a value that
may be missing. -/
def whenever (c : Bool) (p : Ctl Unit) : Ctl Unit := if c then p else pure ()

def failIf (c : Bool) (e : Failure) : Ctl Unit := if c then fail e else pure ()

def forSome (a : Option α) (p : α → Ctl Unit) : Ctl Unit :=
  match a with
  | some a => p a
  | none => pure ()

def look : Ctl Machine := do
  match ← ExceptT.lift (perform Op.look) with
  | some m => return m
  | none => fail (.system "read")

def step (e : Effect) : Ctl Unit := do
  failIf (!(← ExceptT.lift (perform (Op.step e)))) (.system "write")

def ask (question : Question) : Ctl Unit := do
  failIf (!(← ExceptT.lift (perform (Op.ask question)))) (.system "host")

/- What `Prepare` returns beside its error. -/
def prepare (id : Text) : Ctl (ManagedAccount × Bool) := ExceptT.lift (perform (Op.prepare id))

def mapOrder : Ctl Bool := ExceptT.lift (perform Op.mapOrder)

def attempt (p : Ctl α) : Ctl (Except Failure α) :=
  ExceptT.mk do return .ok ((← p.run).mapError Stop.error)

def wrapf (format : String) (args : List Text) (p : Ctl α) : Ctl α :=
  ExceptT.mk do return (← p.run).mapError fun stop => { stop with error := .wrapf format args stop.error }

def attemptAll : List (Ctl Unit) → Ctl (List (Except Failure Unit))
  | [] => return []
  | p :: rest => do return (← attempt p) :: (← attemptAll rest)

def joined (results : List (Except Failure Unit)) : Ctl Unit := check (errorsJoin results)

/- `runRecoveryPhase` after a failure of `p`. -/
def recovering (recover : Ctl Unit) (p : Ctl α) : Ctl α :=
  ExceptT.mk do
    match ← p.run with
    | .ok a => return .ok a
    | .error cause =>
      let recovery := (← recover.run).mapError Stop.error
      return .error ⟨match recovery with
        | .ok () => cause.error
        | .error e => .both cause.error e, some recovery⟩

end

end RemnanodeLite.Rnlctl.Lifecycle
