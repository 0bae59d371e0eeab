import RemnanodeLite.Lib.Pass
import RemnanodeLite.Xray.Manager

/-! # The user requests of the node

`internal/nodehandler/handler.go` over the handler calls of
`internal/xray/handler.go`, during the life of one rw-core. Requests hold the
mutation gate and the core's lease, so they run one after another and a commit
is refused only for an empty tag or hash id. -/

namespace RemnanodeLite.Nodehandler
open Xray Json

/-! ### Requests and responses -/

structure AddUserItem where
  type : String
  tag : String
  username : String
  deriving DecidableEq

structure AddUserHashData where
  vlessUUID : String
  prevVlessUUID : Option String
  deriving DecidableEq

structure AddUserRequest where
  data : List AddUserItem
  hashData : AddUserHashData
  deriving DecidableEq

structure RemoveUserRequest where
  username : String
  vlessUUID : String
  deriving DecidableEq

structure BatchInbound where
  type : String
  tag : String
  deriving DecidableEq

structure BatchUserData where
  userID : String
  hashUUID : String
  vlessUUID : String
  deriving DecidableEq

structure BatchUser where
  inboundData : List BatchInbound
  userData : BatchUserData
  deriving DecidableEq

structure AddUsersRequest where
  affectedInboundTags : List String
  users : List BatchUser
  deriving DecidableEq

structure RemoveUsersItem where
  userID : String
  hashUUID : String
  deriving DecidableEq

structure RemoveUsersRequest where
  users : List RemoveUsersItem
  deriving DecidableEq

inductive Request where
  | addUser (request : AddUserRequest)
  | removeUser (request : RemoveUserRequest)
  | addUsers (request : AddUsersRequest)
  | removeUsers (request : RemoveUsersRequest)
  deriving DecidableEq

structure GenericResponse where
  success : Bool
  error : Option String
  deriving DecidableEq

/- `errInternalServer` or a response. -/
inductive Reply where
  | internalServer
  | response (r : GenericResponse)
  deriving DecidableEq

structure HandlerResult where
  ok : Bool
  message : String
  deriving DecidableEq

def stringPtr (value : String) : Option String :=
  if value = "" then none else some value

structure ResultAccumulator where
  failed : Bool
  message : String
  deriving DecidableEq

namespace ResultAccumulator

def new : ResultAccumulator := ⟨false, ""⟩

def add (a : ResultAccumulator) (result : HandlerResult) : ResultAccumulator :=
  if !a.failed && !result.ok then ⟨true, result.message⟩ else a

def response (a : ResultAccumulator) : GenericResponse :=
  if a.failed then ⟨false, stringPtr a.message⟩ else ⟨true, none⟩

theorem failed_add (a : ResultAccumulator) (r : HandlerResult) :
    (a.add r).failed = (a.failed || !r.ok) := by
  unfold add
  cases ha : a.failed <;> cases hr : r.ok <;> simp [ha]

theorem response_success (a : ResultAccumulator) : a.response.success = !a.failed := by
  unfold response
  cases a.failed <;> rfl

end ResultAccumulator

def mutationLeaseFailure (err : String) : GenericResponse :=
  ⟨false, some (if err = "" then "xray is not online" else err)⟩

/-! ### The node and what it talks to -/

inductive RpcKind where
  | add
  | remove
  deriving DecidableEq

structure Rpc where
  kind : RpcKind
  tag : String
  username : String
  ok : Bool
  deriving DecidableEq

/- `core tag user` is the hash id with which rw-core has the user in the
inbound. `rpcs` is history: the requests sent to this core, newest first. -/
structure Node where
  core : String → String → Option String
  hashState : RuntimeHashState
  rpcs : List Rpc

def Node.setUser (n : Node) (tag username : String) (value : Option String) : Node :=
  { n with core := Function.update n.core tag (Function.update (n.core tag) username value) }

/- What one call outside the process meets. `dialed`: a client for the core's
socket could be made. `ok`: the call reported success. `effect`: it changed the
core although it reported an error. -/
structure Answer where
  dialed : Bool
  ok : Bool
  effect : Bool
  message : String
  ips : List String
  deriving DecidableEq

/- Everything a request meets. `cancelAt` is the call before which its context
ends; a context that has ended stays so. `tagOrder` is the order in which Go
ranges over the set of inbound tags. -/
structure Env where
  acquired : Bool
  leaseErr : Option String
  dropAvailable : Bool
  cancelAt : Option (ℕ × CtxErr)
  answer : ℕ → Answer
  tagOrder : List String

def Env.ctxErr (env : Env) (clock : ℕ) : Option CtxErr :=
  match env.cancelAt with
  | some (k, err) => if k ≤ clock then some err else none
  | none => none

/- The locals of a request. `clock` counts its calls, `removeOK` is also the
source's `cleanupOK`. -/
structure Session where
  node : Node
  clock : ℕ
  results : ResultAccumulator
  removeOK : Bool
  dropPlans : List (List String)

namespace Session

def begin (n : Node) : Session := ⟨n, 0, .new, true, []⟩

def addResult (s : Session) (r : HandlerResult) : Session :=
  { s with results := s.results.add r, removeOK := s.removeOK && r.ok }

def reply (s : Session) : Reply := .response s.results.response

end Session

def commitRefused : HandlerResult := ⟨false, "Xray lifecycle changed before user state commit"⟩

/- `commitAddedResult` and `commitRemovedResult` (xray/handler.go:120-132). -/
def commitResult (n : Node) (u : UserCommit) (result : HandlerResult) : Node × HandlerResult :=
  if !result.ok then (n, result)
  else if !u.wellFormed then (n, commitRefused)
  else ({ n with hashState := u.apply n.hashState }, result)

/- A handler call of the manager: dial, send, commit. `value` is what the core
has for the user afterwards if the request takes effect. -/
def handlerCall (env : Env) (s : Session) (kind : RpcKind) (tag username : String)
    (value : Option String) (u : UserCommit) : Session :=
  let a := env.answer s.clock
  let s := { s with clock := s.clock + 1 }
  if !a.dialed then s.addResult ⟨false, a.message⟩
  else
    let sent := { s.node with rpcs := ⟨kind, tag, username, a.ok⟩ :: s.node.rpcs }
    let changed := if a.ok || a.effect then sent.setUser tag username value else sent
    let (node, result) := commitResult changed u ⟨a.ok, if a.ok then "" else a.message⟩
    { s with node := node }.addResult result

def handlerRemoveUser (env : Env) (tag username hashUUID : String) (s : Session) : Session :=
  handlerCall env s .remove tag username none (.removed tag hashUUID)

/- `HandlerAddVlessUser` and its four siblings, which differ in the account
they send. -/
def handlerAddUser (env : Env) (tag username hashUUID : String) (s : Session) : Session :=
  handlerCall env s .add tag username (some hashUUID) (.added tag hashUUID)

def supportedTypes : List String := ["vless", "trojan", "shadowsocks", "shadowsocks22", "hysteria"]

/- The switch that `addSingleUser` and `addBatchUser` share. -/
def addTypedUser (env : Env) (type tag username hashUUID : String) (s : Session) : Session :=
  if type ∈ supportedTypes then handlerAddUser env tag username hashUUID s
  else s.addResult ⟨false, "unsupported user type: " ++ type⟩

def addSingleUser (env : Env) (item : AddUserItem) (hashUUID : String) (s : Session) : Session :=
  addTypedUser env item.type item.tag item.username hashUUID s

def addBatchUser (env : Env) (inbound : BatchInbound) (user : BatchUserData) (hashUUID : String)
    (s : Session) : Session :=
  addTypedUser env inbound.type inbound.tag user.userID hashUUID s

/- The plan, and whether the lookup succeeded. -/
def prepareUserIPDrop (env : Env) (s : Session) : Session × List String × HandlerResult :=
  if !env.dropAvailable then (s, [], ⟨true, ""⟩)
  else
    let a := env.answer s.clock
    let s := { s with clock := s.clock + 1 }
    if !a.ok then (s, [], ⟨false, "failed to read user IP stats"⟩)
    else (s, a.ips.filter (· ≠ ""), ⟨true, ""⟩)

def applyUserIPDrops (env : Env) (s : Session) (plans : List (List String)) :
    Session × HandlerResult :=
  if plans.flatten.isEmpty then (s, ⟨true, ""⟩)
  else
    let a := env.answer s.clock
    ({ s with clock := s.clock + 1 },
      if a.ok then ⟨true, ""⟩ else ⟨false, "failed to drop user connections"⟩)

/-! ### The four requests -/

/- One pass of a loop that begins with `if results.StopForContext(ctx)`. -/
def unlessStopped (env : Env) (s : Session) (k : Session → Pass Session) : Pass Session :=
  match env.ctxErr s.clock with
  | some err => .stop (s.addResult ⟨false, err.text⟩)
  | none => k s

def removeTag (env : Env) (username hashUUID tag : String) (s : Session) : Pass Session :=
  unlessStopped env s fun s => .next (handlerRemoveUser env tag username hashUUID s)

/- The loop of all four requests that removes a user from `tags`. -/
def removeFromTags (env : Env) (username hashUUID : String) (tags : List String) (s : Session) :
    Pass Session :=
  Pass.forEach (removeTag env username hashUUID) tags { s with removeOK := true }

/- `userMutationTags` and `batchMutationTags` after their groups are joined:
the first occurrence of each tag that is not empty. -/
def distinctTags : List String → List String
  | [] => []
  | tag :: tags =>
    if tag = "" then distinctTags tags
    else tag :: (distinctTags tags).filter (· ≠ tag)

def userMutationTags (providerTags itemTags : List String) : List String :=
  distinctTags (providerTags ++ itemTags)

def addUserTags (items : List AddUserItem) : List String := items.map AddUserItem.tag

def batchMutationTags (providerTags affectedTags : List String) (users : List BatchUser) :
    List String :=
  distinctTags (providerTags ++ affectedTags ++
    users.flatMap fun user => user.inboundData.map BatchInbound.tag)

def addItems (env : Env) (hashUUID : String) (items : List AddUserItem) (s : Session) :
    Pass Session :=
  Pass.forEach
    (fun item s => unlessStopped env s fun s => .next (addSingleUser env item hashUUID s)) items s

def addInbounds (env : Env) (user : BatchUserData) (inbounds : List BatchInbound) (s : Session) :
    Pass Session :=
  Pass.forEach
    (fun inbound s => unlessStopped env s fun s =>
      .next (addBatchUser env inbound user user.vlessUUID s)) inbounds s

/- `AddUser` once the lease is held (handler.go:137-181). The result of the
lookup and of the drop is only logged. -/
def addUser (env : Env) (first : AddUserItem) (request : AddUserRequest) (s : Session) : Session :=
  let username := first.username
  let hashUUID := request.hashData.prevVlessUUID.getD request.hashData.vlessUUID
  let (s, plan) :=
    if request.hashData.prevVlessUUID.isSome then
      let (s, plan, _) := prepareUserIPDrop env s
      (s, plan)
    else (s, [])
  match if request.hashData.prevVlessUUID.isSome then env.ctxErr s.clock else none with
  | some err => s.addResult ⟨false, err.text⟩
  | none =>
    let tags := userMutationTags env.tagOrder (addUserTags request.data)
    match removeFromTags env username hashUUID tags s with
    | .stop s => s
    | .next s =>
      if s.results.failed then s
      else
        let (s, _) := applyUserIPDrops env s [plan]
        (addItems env request.hashData.vlessUUID request.data s).state

/- `RemoveUser` once the lease is held (handler.go:200-224). -/
def removeUser (env : Env) (request : RemoveUserRequest) (s : Session) : Session :=
  if env.tagOrder.isEmpty then s
  else
    let (s, plan, lookup) := prepareUserIPDrop env s
    let s := s.addResult lookup
    if !lookup.ok then s
    else
      match removeFromTags env request.username request.vlessUUID env.tagOrder s with
      | .stop s => s
      | .next s =>
        if !s.removeOK then s
        else
          let (s, result) := applyUserIPDrops env s [plan]
          s.addResult result

/- One user of `AddUsers` (handler.go:248-271). -/
def addUsersEntry (env : Env) (tags : List String) (user : BatchUser) (s : Session) :
    Pass Session :=
  unlessStopped env s fun s =>
    (removeFromTags env user.userData.userID user.userData.hashUUID tags s).bind fun s =>
      if !s.removeOK then .next s
      else addInbounds env user.userData user.inboundData s

def addUsers (env : Env) (request : AddUsersRequest) (s : Session) : Session :=
  let tags := batchMutationTags env.tagOrder request.affectedInboundTags request.users
  (Pass.forEach (addUsersEntry env tags) request.users s).state

/- One user of `RemoveUsers` (handler.go:301-323). -/
def removeUsersEntry (env : Env) (user : RemoveUsersItem) (s : Session) : Pass Session :=
  unlessStopped env s fun s =>
    let (s, plan, lookup) := prepareUserIPDrop env s
    let s := s.addResult lookup
    if !lookup.ok then .next s
    else
      (removeFromTags env user.userID user.hashUUID env.tagOrder s).bind fun s =>
        if !s.removeOK then .next s
        else .next { s with dropPlans := s.dropPlans ++ [plan] }

def removeUsers (env : Env) (request : RemoveUsersRequest) (s : Session) : Session :=
  if env.tagOrder.isEmpty then s
  else
    match Pass.forEach (removeUsersEntry env) request.users s with
    | .stop s => s
    | .next s =>
      let (s, result) := applyUserIPDrops env s s.dropPlans
      s.addResult result

def withLease (env : Env) (n : Node) (body : Session → Session) : Node × Reply :=
  if !env.acquired then (n, .internalServer)
  else
    match env.leaseErr with
    | some err => (n, .response (mutationLeaseFailure err))
    | none =>
      let s := body (.begin n)
      (s.node, s.reply)

def handle (env : Env) (n : Node) : Request → Node × Reply
  | .addUser request =>
    match request.data with
    | [] => (n, .response ⟨false, none⟩)
    | first :: _ => withLease env n (addUser env first request)
  | .removeUser request => withLease env n (removeUser env request)
  | .addUsers request =>
    if request.users.isEmpty then (n, .response ⟨true, none⟩)
    else withLease env n (addUsers env request)
  | .removeUsers request =>
    if request.users.isEmpty then (n, .response ⟨true, none⟩)
    else withLease env n (removeUsers env request)

structure Call where
  request : Request
  env : Env

/- `InboundTags()` lists every tracked tag once. -/
def serve (n : Node) (c : Call) : Option (Node × Reply) :=
  if c.env.tagOrder.Nodup ∧ c.env.tagOrder.toFinset = n.hashState.inboundTags then
    some (handle c.env n c.request)
  else none

def step (n : Node) (c : Call) : Option Node := (serve n c).map Prod.fst

/-! ### The core after its start -/

def coreClients (inbound : List (String × Value)) : List (String × String) :=
  match (Value.field inbound "settings").asObject with
  | none => []
  | some settings =>
    match (Value.field settings "clients").asArray with
    | none => []
    | some clients =>
      clients.filterMap fun item => item.asObject.map fun client =>
        ((Value.field client "email").asString.getD "", (Value.field client "id").asString.getD "")

def loadInbound (core : String → String → Option String) (item : Value) :
    String → String → Option String :=
  match item.asObject with
  | none => core
  | some inbound =>
    Function.update core ((Value.field inbound "tag").asString.getD "")
      fun username => (coreClients inbound).lookup username

def startCore (config : List (String × Value)) : String → String → Option String :=
  match (Value.field config "inbounds").asArray with
  | none => fun _ _ => none
  | some rawInbounds => rawInbounds.foldl loadInbound fun _ _ => none

def Node.start (hashes : ConfigHash) (config : List (String × Value)) : Node :=
  ⟨startCore config, buildRuntimeHashState hashes config, []⟩

end RemnanodeLite.Nodehandler
