import RemnanodeLite.Lib.Transition
import RemnanodeLite.Plugin.Service

/-! # The plugin service under concurrent calls

`CloseContext` (`internal/plugin/service.go`), the webhook worker and its
producers (`torrent.go`, `webhook.go`, `poststart.go`) beside any number of
mutations. A mutation is the operation of the sequential model, carried out call by
call: its first look at the context is where it waits for the operation gate. -/

namespace RemnanodeLite.Plugin.Concurrent

abbrev Tid := ℕ

inductive Owner where
  | thread (t : Tid)
  | worker
  deriving DecidableEq

/-! ### Mutations -/

inductive Mutation where
  | initializeContext
  | sync (request : Option SyncPlugin)
  | resetPlugins
  | recreateTables
  | blockIPs (items : List BlockIP)
  | unblockIPs (ips : List String)

/- The answer says whether the request was accepted, or that there was no error. -/
def Mutation.program (c : Codec) : Mutation → PluginM Bool
  | .initializeContext => do return (← Plugin.initializeContext c).isNone
  | .sync request => syncContext c request
  | .resetPlugins => do return (← resetPluginsContext c).isNone
  | .recreateTables => recreateTablesContext c
  | .blockIPs items => blockIPsContext c items
  | .unblockIPs ips => unblockIPsContext ips

/-! ### Webhooks -/

/- `webhookDelivery` without its body, which nothing here reads. -/
structure WebhookDelivery where
  url : String
  reportFailure : Bool
  deriving DecidableEq

inductive QueuedWebhook where
  | payload (payload : WebhookPayload)
  | delivery (delivery : WebhookDelivery)
  deriving DecidableEq

/- `processXrayWebhookLocked` with the delivery that it returns. -/
def processXrayWebhookLocked (c : Codec) (payload : WebhookPayload) :
    PluginM (Option WebhookDelivery) := do
  let service ← load
  if (ready service).isSome then
    return none
  match service.active, payload.email, payload.source with
  | some snapshot, some email, some source =>
    let ip := extractWebhookIP source
    if !effectiveTorrentEnabled (some snapshot) || ip = "" || email = "" ||
        torrentIPIgnored snapshot.torrent ip || torrentUserIgnored snapshot.torrent email then
      return none
    blockAndReport c snapshot payload ip email
    return if snapshot.torrent.webhookURL = "" then none
      else some ⟨snapshot.torrent.webhookURL, false⟩
  | _, _, _ => return none

def maxQueuedWebhooks : ℕ := 64
def maxConcurrentOutboundWebhooks : ℕ := 4

/-! ### Goroutines -/

/- `webhookStopOnce`. -/
inductive Once where
  | fresh
  | running
  | done
  deriving DecidableEq

/- Progress through `CloseContext`; from `storeStopped` to `lockAdmission` it is the
one call of `signalWebhookStop` that does the work. -/
inductive ClosePC where
  | setClosing
  | once
  | storeStopped
  | cancel
  | closeStop
  | lockAdmission
  | acquire
  | checkDone
  | backend (p : PluginM (Option NftError))
  | waitWorker (errs : List ServiceError)
  | drain (errs : List ServiceError)
  | returned (errs : List ServiceError)

/- Progress through `runWebhookWorker`. -/
inductive WorkerPC where
  | poll
  | select
  | gateWait (payload : WebhookPayload)
  | recheck (payload : WebhookPayload)
  | processing (ended : Bool) (p : PluginM (Option WebhookDelivery))
  | dispatch (delivery : WebhookDelivery)
  | slot (delivery : WebhookDelivery)
  | join
  | done

/- Progress through `HandleXrayWebhookContext`. -/
inductive AdmitPC where
  | rlock
  | check
  | select
  | recheck
  | runlock (accepted : Bool)
  | returned (accepted : Bool)

/- Progress through `NotifyCoreStarted`. -/
inductive NotifyPC where
  | snapshot
  | rlock (delivery : WebhookDelivery)
  | check (delivery : WebhookDelivery)
  | select (delivery : WebhookDelivery)
  | runlock
  | returned

/- `ended` says that the context of a call has ended, `held` that a mutation holds the
gate; what is left of it is a program. -/
inductive Thread where
  | idle
  | mutation (held ended : Bool) (p : PluginM Bool)
  | answered (accepted : Bool)
  | close (ended : Bool) (pc : ClosePC)
  | xrayWebhook (payload : WebhookPayload) (ended : Bool) (pc : AdmitPC)
  | notify (pc : NotifyPC)

/- The gate protects the fields of `service` except for `closing`, which is atomic.
`senders` are the outbound deliveries, each with whether its request has been made.
`trace`, `processed` and `sent` are history: the scripts and requests to Xray, the
payloads that were processed and the deliveries that were sent. -/
structure System where
  service : Service
  kernel : Kernel
  gate : Option Owner
  once : Once
  webhookStopped : Bool
  webhookCanceled : Bool
  stopClosed : Bool
  readers : ℕ
  queue : List QueuedWebhook
  worker : WorkerPC
  senders : List (WebhookDelivery × Bool)
  threads : Tid → Thread
  trace : List Effect
  processed : List WebhookPayload
  sent : List WebhookDelivery

def System.initial (service : Service) (kernel : Kernel) : System where
  service := service
  kernel := kernel
  gate := none
  once := .fresh
  webhookStopped := false
  webhookCanceled := false
  stopClosed := false
  readers := 0
  queue := []
  worker := .poll
  senders := []
  threads := fun _ => .idle
  trace := []
  processed := []
  sent := []

def System.session (y : System) (ended : Bool) : Session := ⟨y.service, y.kernel, ended, y.trace⟩

def System.put (y : System) (s : Session) : System :=
  { y with
    service := { s.service with closing := y.service.closing }
    kernel := s.kernel
    trace := s.trace }

def System.acquire (y : System) (owner : Owner) : System := { y with gate := some owner }
def System.release (y : System) : System := { y with gate := none }

def mutationStep (y : System) (t : Tid) (held ended : Bool) (p : PluginM Bool) (choice : Choice) :
    Option (System × Thread) :=
  match p, held with
  | .ret accepted, true => some (y.release, .answered accepted)
  | .ret accepted, false => some (y, .answered accepted)
  | .call op k, true =>
    let r := handle op (y.session ended) choice
    some (y.put r.2, .mutation true r.2.ended (k r.1))
  | .call .load k, false => some (y, .mutation false ended (k y.service))
  -- acquireOperation
  | .call .contextError k, false =>
    if ended || choice.ended then some (y, .mutation false true (k true))
    else if y.gate = none then some (y.acquire (.thread t), .mutation true false (k false))
    else none
  | .call _ _, false => none

def closeStep (y : System) (t : Tid) (ended : Bool) (pc : ClosePC) (choice : Choice) (branch : ℕ) :
    Option (System × ClosePC) :=
  match pc with
  | .setClosing => some ({ y with service := { y.service with closing := true } }, .once)
  | .once => match y.once with
    | .fresh => some ({ y with once := .running }, .storeStopped)
    | .running => none
    | .done => some (y, .acquire)
  | .storeStopped => some ({ y with webhookStopped := true }, .cancel)
  | .cancel => some ({ y with webhookCanceled := true }, .closeStop)
  | .closeStop => some ({ y with stopClosed := true }, .lockAdmission)
  | .lockAdmission => if y.readers = 0 then some ({ y with once := .done }, .acquire) else none
  | .acquire =>
    if ended then some (y, .returned [.context none])
    else if y.gate = none then some (y.acquire (.thread t), .checkDone)
    else none
  | .checkDone =>
    if y.service.closeDone then some (y.release, .waitWorker [])
    else some ({ y with service := { y.service with closed := true } }, .backend Nft.close)
  | .backend (.call op k) =>
    let r := handle op (y.session ended) choice
    some (y.put r.2, .backend (k r.1))
  | .backend (.ret (some error)) => some (y.release, .waitWorker [.firewall error none])
  | .backend (.ret none) =>
    some ({ y.release with service := { y.service with active := none, closeDone := true } },
      .waitWorker [])
  | .waitWorker errs => match branch, y.worker with
    | 0, .done => some (y, .drain errs)
    | 0, _ => none
    | _, _ => if ended then some (y, .returned (errs ++ [.context none])) else none
  | .drain errs => match y.queue with
    | [] => some (y, .returned errs)
    | _ :: rest => some ({ y with queue := rest }, .drain errs)
  | .returned _ => none

/- `branch` is the case that a select takes. -/
def workerStep (c : Codec) (y : System) (pc : WorkerPC) (choice : Choice) (branch : ℕ) :
    Option (System × WorkerPC) :=
  match pc with
  | .poll => some (y, if y.stopClosed then .join else .select)
  | .select => match branch, y.queue with
    | 0, _ => if y.stopClosed then some (y, .join) else none
    | _, .delivery delivery :: rest => some ({ y with queue := rest }, .dispatch delivery)
    | _, .payload payload :: rest => some ({ y with queue := rest }, .gateWait payload)
    | _, [] => none
  | .gateWait payload => match branch with
    | 0 => if y.stopClosed then some (y, .join) else none
    | _ => if y.gate = none then some (y.acquire .worker, .recheck payload) else none
  | .recheck payload =>
    if y.stopClosed then some (y.release, .join)
    else some ({ y with processed := payload :: y.processed },
      .processing false (processXrayWebhookLocked c payload))
  | .processing ended (.call op k) =>
    let r := handle op (y.session ended) choice
    some (y.put r.2, .processing r.2.ended (k r.1))
  | .processing _ (.ret none) => some (y.release, .poll)
  | .processing _ (.ret (some delivery)) => some (y.release, .dispatch delivery)
  -- dispatchWebhook
  | .dispatch delivery => some (y, if y.webhookCanceled then .poll else .slot delivery)
  | .slot delivery =>
    some (if y.senders.length < maxConcurrentOutboundWebhooks then
      { y with senders := y.senders ++ [(delivery, false)] } else y, .poll)
  | .join => if y.senders.isEmpty then some (y, .done) else none
  | .done => none

def admitStep (y : System) (payload : WebhookPayload) (ended : Bool) (pc : AdmitPC) (branch : ℕ) :
    Option (System × AdmitPC) :=
  match pc with
  | .rlock => some ({ y with readers := y.readers + 1 }, .check)
  | .check => some (y, if y.webhookStopped || ended then .runlock false else .select)
  | .select => match branch with
    | 0 =>
      if y.queue.length < maxQueuedWebhooks then
        some ({ y with queue := y.queue ++ [.payload payload] }, .recheck)
      else none
    | 1 => if y.stopClosed then some (y, .runlock false) else none
    | _ => if ended then some (y, .runlock false) else none
  | .recheck => some (y, .runlock (!y.webhookStopped))
  | .runlock accepted => some ({ y with readers := y.readers - 1 }, .returned accepted)
  | .returned _ => none

/- `branch` 0 stands for metadata within its budget. -/
def notifyStep (y : System) (pc : NotifyPC) (branch : ℕ) : Option (System × NotifyPC) :=
  match pc with
  | .snapshot => match y.service.active with
    | none => some (y, .returned)
    | some snapshot =>
      if snapshot.postStart.enabled && snapshot.postStart.webhookEnabled && branch = 0 then
        some (y, .rlock ⟨snapshot.postStart.url, true⟩)
      else some (y, .returned)
  | .rlock delivery => some ({ y with readers := y.readers + 1 }, .check delivery)
  | .check delivery => some (y, if y.webhookStopped then .runlock else .select delivery)
  | .select delivery =>
    some (if y.queue.length < maxQueuedWebhooks then
      { y with queue := y.queue ++ [.delivery delivery] } else y, .runlock)
  | .runlock => some ({ y with readers := y.readers - 1 }, .returned)
  | .returned => none

/- `sendWebhook`: a request is made unless its context has ended, and comes to an end. -/
def senderStep (y : System) (i : ℕ) : Option System :=
  match y.senders[i]? with
  | none => none
  | some (_, true) => some { y with senders := y.senders.eraseIdx i }
  | some (delivery, false) =>
    if y.webhookCanceled then some { y with senders := y.senders.eraseIdx i }
    else some { y with
      senders := y.senders.set i (delivery, true), sent := delivery :: y.sent }

def System.setThread (y : System) (t : Tid) (th : Thread) : System :=
  { y with threads := Function.update y.threads t th }

def endContext : Thread → Thread
  | .mutation held _ p => .mutation held true p
  | .close _ pc => .close true pc
  | .xrayWebhook payload _ pc => .xrayWebhook payload true pc
  | th => th

inductive Call where
  | mutation (m : Mutation)
  | close
  | xrayWebhook (payload : WebhookPayload)
  | notify

def Call.thread (c : Codec) : Call → Thread
  | .mutation m => .mutation false false (m.program c)
  | .close => .close false .setClosing
  | .xrayWebhook payload => .xrayWebhook payload false .rlock
  | .notify => .notify .snapshot

inductive Event where
  | call (t : Tid) (call : Call)
  | endContext (t : Tid)
  | thread (t : Tid) (choice : Choice) (branch : ℕ)
  | worker (choice : Choice) (branch : ℕ)
  | sender (i : ℕ)

def threadStep (y : System) (t : Tid) (choice : Choice) (branch : ℕ) :
    Option (System × Thread) :=
  match y.threads t with
  | .mutation held ended p => mutationStep y t held ended p choice
  | .close ended pc => (closeStep y t ended pc choice branch).map fun (y', pc') =>
      (y', .close ended pc')
  | .xrayWebhook payload ended pc => (admitStep y payload ended pc branch).map fun (y', pc') =>
      (y', .xrayWebhook payload ended pc')
  | .notify pc => (notifyStep y pc branch).map fun (y', pc') => (y', .notify pc')
  | .idle | .answered _ => none

def step (c : Codec) (y : System) : Event → Option System
  | .call t call => match y.threads t with
    | .idle => some (y.setThread t (call.thread c))
    | _ => none
  | .endContext t => some (y.setThread t (endContext (y.threads t)))
  | .thread t choice branch => (threadStep y t choice branch).map fun (y', th) => y'.setThread t th
  | .worker choice branch => (workerStep c y y.worker choice branch).map fun (y', pc) =>
      { y' with worker := pc }
  | .sender i => senderStep y i

/-! ### The sequential model -/

/- Without its delivery this is the operation of the sequential model. -/
theorem processXrayWebhookLocked_forget (c : Codec) (payload : WebhookPayload) :
    (processXrayWebhookLocked c payload >>= fun _ => pure ()) = processXrayWebhook c payload := by
  refine congrArg (Program.call Op.load) (funext fun service => ?_)
  change Program.bind (ite _ _ _) _ = ite _ _ _
  split
  · rfl
  · generalize Service.active service = active
    match active, payload with
    | none, _ => rfl
    | some _, ⟨none, _⟩ => rfl
    | some _, ⟨some _, none⟩ => rfl
    | some snapshot, ⟨some email, some source⟩ =>
      change Program.bind (ite _ _ _) _ = ite _ _ _
      split
      · rfl
      · refine (bind_assoc (m := PluginM) _ _ _).trans ?_
        exact bind_pure_unit

end RemnanodeLite.Plugin.Concurrent
