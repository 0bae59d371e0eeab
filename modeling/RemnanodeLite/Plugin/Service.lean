import RemnanodeLite.Plugin.NftManager
import RemnanodeLite.Plugin.Webhook

/-! # The plugin service

`internal/plugin/service.go` and the torrent webhook of `torrent.go`. An
operation is carried out while it holds the operation gate, so the operations of
a run follow one another; `Close` sets `closing` before it waits for the gate. -/

namespace RemnanodeLite.Plugin

inductive ServiceError where
  | closed
  | notInitialized
  | context (rollback : Option NftError)
  | firewall (error : NftError) (rollback : Option NftError)
  | xray (rollback : Option NftError)
  deriving DecidableEq

/-! ### Snapshots -/

def effectiveTorrentEnabled : Option PluginSnapshot → Bool
  | none => false
  | some snapshot => snapshot.firewallReady && snapshot.torrent.enabled

def snapshotFirewall : Option PluginSnapshot → FirewallConfig
  | none => .empty
  | some snapshot => if snapshot.firewallReady then snapshot.firewall else .empty

def snapshotFirewallReady : Option PluginSnapshot → Bool
  | none => false
  | some snapshot => snapshot.firewallReady

def hashIncludeRuleTags (c : Codec) (tags : List String) : String :=
  let sorted := tags.insertionSort (· ≤ ·)
  if sorted.isEmpty then "" else c.sha256 (c.marshalStrings sorted)

def IpMatcher.equal (m other : IpMatcher) : Bool :=
  m.prefixes.map Netip.Prefix.string = other.prefixes.map Netip.Prefix.string

def torrentSettingsEqual (c : Codec) (left right : TorrentSettings) : Bool :=
  left.enabled = right.enabled && left.blockDuration = right.blockDuration &&
    left.webhookURL = right.webhookURL && left.rulePosition = right.rulePosition &&
    hashIncludeRuleTags c left.includeRuleTags = hashIncludeRuleTags c right.includeRuleTags &&
    left.ignoredIPs.equal right.ignoredIPs && left.ignoredUsers = right.ignoredUsers

def firewallConfigsEqual (c : Codec) (left right : FirewallConfig) : Bool :=
  filterTexts c .ip left.ingressIPs = filterTexts c .ip right.ingressIPs &&
    filterTexts c .ip6 left.ingressIPs = filterTexts c .ip6 right.ingressIPs &&
    filterTexts c .ip left.egressIPs = filterTexts c .ip right.egressIPs &&
    filterTexts c .ip6 left.egressIPs = filterTexts c .ip6 right.egressIPs &&
    normalizedPorts left.egressPorts = normalizedPorts right.egressPorts

def pluginSnapshotsBehaviorEqual (c : Codec) : Option PluginSnapshot → PluginSnapshot → Bool
  | none, _ => false
  | some left, right =>
    left.firewallReady = right.firewallReady && left.whitelistIPs.equal right.whitelistIPs &&
      torrentSettingsEqual c left.torrent right.torrent && left.preStart = right.preStart &&
      left.postStart = right.postStart && firewallConfigsEqual c left.firewall right.firewall

/-! ### Parts of the operations -/

def firewallAvailable (service : Service) : Bool := (service.nft.map NftManager.healthy).getD false

def commitSnapshot (snapshot : Option PluginSnapshot) : PluginM Unit := do
  let service ← load
  store { service with active := snapshot }

def publishDegradedSnapshot (desired : Option PluginSnapshot) : PluginM Unit :=
  commitSnapshot (desired.map fun snapshot => { snapshot with firewallReady := false })

/- `if !s.firewallAvailableLocked() { s.publishDegradedSnapshotLocked(desired) }`. -/
def degradeUnlessAvailable (desired : Option PluginSnapshot) : PluginM Unit := do
  let service ← load
  if firewallAvailable service then pure () else publishDegradedSnapshot desired

def acquireMutation : PluginM (Option ServiceError) := do
  if (← load).closing then
    return some .closed
  if ← contextError then
    return some (.context none)
  if (← load).closing then
    return some .closed
  return none

def ready (service : Service) : Option ServiceError :=
  if service.closed then some .closed
  else if !service.initialized then some .notInitialized
  else none

def stopXray (_ _ : Option PluginSnapshot) : PluginM Bool := do
  if (← load).hasXray then xray .stopIfOnline else pure true

def torrentTags : Option PluginSnapshot → List String
  | none => []
  | some snapshot => snapshot.torrent.includeRuleTags

def torrentPosition : Option PluginSnapshot → ℚ
  | none => 0
  | some snapshot => snapshot.torrent.rulePosition

def reconcileTorrent (c : Codec) (previous next : Option PluginSnapshot) : PluginM Bool := do
  if !(← load).hasXray then
    return true
  let wasEnabled := effectiveTorrentEnabled previous
  let nowEnabled := effectiveTorrentEnabled next
  if wasEnabled && !nowEnabled && (torrentTags next).isEmpty then
    xray .removeTorrentBlockerOutbound
  else if (wasEnabled && !nowEnabled) || (!wasEnabled && nowEnabled) ||
      (wasEnabled && nowEnabled &&
        hashIncludeRuleTags c (torrentTags previous) ≠ hashIncludeRuleTags c (torrentTags next)) ||
      (wasEnabled && nowEnabled && torrentPosition previous ≠ torrentPosition next) then
    xray .stopIfOnline
  else
    return true

abbrev Reconcile := Option PluginSnapshot → Option PluginSnapshot → PluginM Bool

def reconcileIf (now : Bool) (reconcile : Option Reconcile) (previous next : Option PluginSnapshot) :
    PluginM Bool :=
  match reconcile with
  | none => pure true
  | some reconcile => if now then reconcile previous next else pure true

/-! ### Applying a snapshot -/

def applyFirewall (c : Codec) (config : FirewallConfig) (reset : Bool) : PluginM (Option NftError) :=
  if reset then Nft.reset c config else Nft.apply c config

def restoreFirewall (c : Codec) (config : FirewallConfig) : PluginM (Option NftError) :=
  Nft.apply c config

def abandonFirewall (c : Codec) (previous next : Option PluginSnapshot) (resetFirewall : Bool)
    (error : NftError) : PluginM (Option ServiceError) := do
  if resetFirewall then
    degradeUnlessAvailable (if next.isSome then next else previous)
    return some (.firewall error none)
  let rollbackErr ← restoreFirewall c (snapshotFirewall previous)
  degradeUnlessAvailable previous
  return some (.firewall error rollbackErr)

def finishSnapshot (c : Codec) (previous next : Option PluginSnapshot) (reconcile : Option Reconcile)
    (reconcileFirst resetFirewall firewallApplied : Bool) : PluginM (Option ServiceError) := do
  if ← contextError then
    if firewallApplied && resetFirewall then
      -- dynamic elements are gone: the snapshot that matches the tables is published
      commitSnapshot next
      return none
    if firewallApplied then
      let rollbackErr ← restoreFirewall c (snapshotFirewall previous)
      degradeUnlessAvailable previous
      return some (.context rollbackErr)
    return some (.context none)
  if ← reconcileIf (!reconcileFirst) reconcile previous next then
    commitSnapshot next
    return none
  if firewallApplied && !resetFirewall then
    match ← restoreFirewall c (snapshotFirewall previous) with
    | none => return some (.xray none)
    | some rollbackErr =>
      degradeUnlessAvailable previous
      return some (.xray (some rollbackErr))
  return some (.xray none)

def resetsFirewall (previous next : Option PluginSnapshot) (forceReset : Bool) : Bool :=
  forceReset || next.isNone || (effectiveTorrentEnabled previous && !effectiveTorrentEnabled next)

def mutatesFirewall (c : Codec) (previous next : Option PluginSnapshot) (forceReset : Bool) : Bool :=
  resetsFirewall previous next forceReset || previous.isNone ||
    snapshotFirewallReady previous ≠ snapshotFirewallReady next ||
    !firewallConfigsEqual c (snapshotFirewall previous) (snapshotFirewall next)

def applySnapshotWithOrder (c : Codec) (next : Option PluginSnapshot) (reconcile : Option Reconcile)
    (reconcileFirst forceReset : Bool) : PluginM (Option ServiceError) := do
  let previous := (← load).active
  if ← contextError then
    return some (.context none)
  if !(← reconcileIf reconcileFirst reconcile previous next) then
    return some (.xray none)
  if ← contextError then
    return some (.context none)
  let resetFirewall := resetsFirewall previous next forceReset
  let service ← load
  let canMutateFirewall := firewallAvailable service || (resetFirewall && service.nft.isSome)
  if mutatesFirewall c previous next forceReset && canMutateFirewall then
    match ← applyFirewall c (snapshotFirewall next) resetFirewall with
    | some error => abandonFirewall c previous next resetFirewall error
    | none => finishSnapshot c previous next reconcile reconcileFirst resetFirewall true
  else
    finishSnapshot c previous next reconcile reconcileFirst resetFirewall false

/-! ### Operations -/

def initializeContext (c : Codec) : PluginM (Option ServiceError) := do
  if let some error ← acquireMutation then
    return some error
  let service ← load
  if service.closed then
    return some .closed
  if service.initialized && firewallAvailable service then
    return none
  if service.nft.isNone then
    store { service with initialized := true }
    return some (.firewall .unavailable none)
  match ← Nft.initializeTables c with
  | none =>
    store { (← load) with initialized := true }
    return none
  | some error =>
    if (← contextError) || error.canceled then
      return some (.firewall error none)
    store { (← load) with initialized := true }
    return some (.firewall error none)

def clearPlugin (c : Codec) : PluginM Bool := do
  if (← load).active.isNone then
    return false
  return (← applySnapshotWithOrder c none (some stopXray) true false).isNone

def publishPlan (c : Codec) (snapshot : PluginSnapshot) : PluginM Bool := do
  let previous := (← load).active
  if pluginSnapshotsBehaviorEqual c previous snapshot then
    commitSnapshot (some snapshot)
    return true
  let reconcileFirst := effectiveTorrentEnabled previous && !effectiveTorrentEnabled (some snapshot)
  return (← applySnapshotWithOrder c (some snapshot) (some (reconcileTorrent c))
    reconcileFirst false).isNone

/- The request is the one that is active, with another name at most. -/
def sameSource (c : Codec) (service : Service) (request : SyncPlugin) : Option PluginSnapshot :=
  if request.config.utf8ByteSize ≤ maxPluginConfigBytes then
    service.active.filter fun previous => previous.sourceHash = c.sha256 request.config &&
      previous.firewallReady = firewallAvailable service
  else none

def syncPlugin (c : Codec) (request : SyncPlugin) : PluginM Bool := do
  let service ← load
  match sameSource c service request with
  | some previous =>
    if ← contextError then
      return false
    commitSnapshot (some { previous with pluginUUID := request.uuid, pluginName := request.name })
    return true
  | none =>
    let plan := buildPluginPlan c request service.asn (firewallAvailable service)
    if ← contextError then
      return false
    match plan with
    | .error _ =>
      let _ ← applySnapshotWithOrder c none (some stopXray) true false
      return false
    | .ok snapshot => publishPlan c snapshot

def syncContext (c : Codec) (request : Option SyncPlugin) : PluginM Bool := do
  if (← acquireMutation).isSome then
    return false
  if (ready (← load)).isSome then
    return false
  match request with
  | none => clearPlugin c
  | some request => syncPlugin c request

def resetPluginsContext (c : Codec) : PluginM (Option ServiceError) := do
  if let some error ← acquireMutation then
    return some error
  if let some error := ready (← load) then
    return some error
  applySnapshotWithOrder c none none false false

def recreateTablesContext (c : Codec) : PluginM Bool := do
  if (← acquireMutation).isSome then
    return false
  let service ← load
  if (ready service).isSome || service.nft.isNone then
    return false
  let next := service.active.map fun snapshot => { snapshot with firewallReady := true }
  return (← applySnapshotWithOrder c next (some (reconcileTorrent c)) true true).isNone

def blockIPsContext (c : Codec) (items : List BlockIP) : PluginM Bool := do
  if validateBlockMutation items ≠ .ok () then
    return false
  if (← acquireMutation).isSome then
    return false
  let service ← load
  if (ready service).isSome || !firewallAvailable service then
    return false
  match ← Nft.blockIPs c items with
  | none => return true
  | some _ =>
    degradeUnlessAvailable (← load).active
    return false

def unblockIPsContext (ips : List String) : PluginM Bool := do
  if validateUnblockMutation ips ≠ .ok () then
    return false
  if (← acquireMutation).isSome then
    return false
  let service ← load
  if (ready service).isSome || !firewallAvailable service then
    return false
  match ← Nft.unblockIPs ips with
  | none => return true
  | some _ =>
    degradeUnlessAvailable (← load).active
    return false

/- Torrent traffic of one user: the address is blocked and the event reported. -/
def blockAndReport (c : Codec) (snapshot : PluginSnapshot) (payload : WebhookPayload)
    (ip email : String) : PluginM Unit := do
  let duration := snapshot.torrent.blockDuration
  let blocked ← (do
    if !firewallAvailable (← load) then
      return false
    match ← Nft.blockIPs c [⟨ip, some duration⟩] with
    | none => return true
    | some _ =>
      degradeUnlessAvailable (some snapshot)
      return false)
  let service ← load
  store { service with
    reports := service.reports.addReport ⟨blocked, ip, duration, email, payload⟩ }

def processXrayWebhook (c : Codec) (payload : WebhookPayload) : PluginM Unit := do
  let service ← load
  if (ready service).isSome then
    return ()
  match service.active, payload.email, payload.source with
  | some snapshot, some email, some source =>
    let ip := extractWebhookIP source
    if !effectiveTorrentEnabled (some snapshot) || ip = "" || email = "" ||
        torrentIPIgnored snapshot.torrent ip || torrentUserIgnored snapshot.torrent email then
      return ()
    blockAndReport c snapshot payload ip email
  | _, _, _ => return ()

/- `CloseContext` up to the webhook worker. -/
def closeContext : PluginM (Option ServiceError) := do
  store { (← load) with closing := true }
  if ← contextError then
    return some (.context none)
  let service ← load
  if service.closeDone then
    return none
  store { service with closed := true }
  match ← Nft.close with
  | some error => return some (.firewall error none)
  | none =>
    store { (← load) with active := none, closeDone := true }
    return none

/-! ### Runs -/

inductive Operation where
  | initializeContext
  | sync (request : Option SyncPlugin)
  | resetPlugins
  | recreateTables
  | blockIPs (items : List BlockIP)
  | unblockIPs (ips : List String)
  | xrayWebhook (payload : WebhookPayload)
  | close

def Operation.program (c : Codec) : Operation → PluginM Unit
  | .initializeContext => do
    let _ ← Plugin.initializeContext c
    return ()
  | .sync request => do
    let _ ← syncContext c request
    return ()
  | .resetPlugins => do
    let _ ← resetPluginsContext c
    return ()
  | .recreateTables => do
    let _ ← recreateTablesContext c
    return ()
  | .blockIPs items => do
    let _ ← blockIPsContext c items
    return ()
  | .unblockIPs ips => do
    let _ ← unblockIPsContext ips
    return ()
  | .xrayWebhook payload => processXrayWebhook c payload
  | .close => do
    let _ ← closeContext
    return ()

structure World where
  service : Service
  kernel : Kernel

/- An operation with everything that the environment decides during it. -/
structure Event where
  operation : Operation
  choices : ℕ → Choice

def World.session (w : World) : Session := ⟨w.service, w.kernel, false, []⟩

def step (c : Codec) (w : World) (e : Event) : Option World :=
  let s := ((e.operation.program c).run handle e.choices w.session).2
  some ⟨s.service, s.kernel⟩

/- What `NewService` returns; the kernel may hold anything. -/
def newService (nft : Option NftManager) (hasXray : Bool) (asn : ASNResolver) : Service :=
  ⟨false, false, false, false, nft, hasXray, asn, none, ⟨[], 0, 0⟩⟩

def newNFTManager (capable : Bool) (options : NftOptions) : NftManager :=
  ⟨capable, false, false, options⟩

end RemnanodeLite.Plugin
