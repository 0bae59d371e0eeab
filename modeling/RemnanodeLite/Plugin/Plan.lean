import Mathlib.Data.Finset.Basic
import RemnanodeLite.Plugin.Cidr
import RemnanodeLite.Plugin.Schema

/-! # From a plugin config to a snapshot

`internal/plugin/plan.go`, `asn.go` and the snapshot of `state.go`. The checks of
the context between two items are made once, by the caller: a plan that is cut
short and one that is thrown away afterwards leave the same state. -/

namespace RemnanodeLite.Plugin
open Json Netip

def maxPluginConfigBytes : ℕ := 2097152

/- What is not part of this package: the standard library, `netipx` and the
config hash. -/
structure Codec where
  sha256 : String → String
  hashPluginConfig : String → Except String String
  unmarshal : String → Except String (Option Object)
  marshalStrings : List String → String
  parseURL : String → Option Url
  ipSet : List Prefix → List Prefix
  formatFloat : ℚ → String

structure SyncPlugin where
  uuid : String
  name : String
  config : String
  deriving DecidableEq

structure FirewallConfig where
  ingressIPs : List String
  egressIPs : List String
  egressPorts : List ℤ
  deriving DecidableEq

def FirewallConfig.empty : FirewallConfig := ⟨[], [], []⟩

structure TorrentSettings where
  enabled : Bool
  blockDuration : ℚ
  webhookURL : String
  includeRuleTags : List String
  rulePosition : ℚ
  ignoredIPs : IpMatcher
  ignoredUsers : Finset String
  deriving DecidableEq

structure PreStartSettings where
  enabled : Bool
  cleanupSockets : Bool
  files : List String
  deriving DecidableEq

structure PostStartSettings where
  enabled : Bool
  webhookEnabled : Bool
  url : String
  deriving DecidableEq

structure PluginSnapshot where
  configHash : String
  sourceHash : String
  pluginUUID : String
  pluginName : String
  firewallReady : Bool
  whitelistIPs : IpMatcher
  torrent : TorrentSettings
  preStart : PreStartSettings
  postStart : PostStartSettings
  firewall : FirewallConfig
  deriving DecidableEq

/- `PrefixesByASN` of the resolver, if there is one. -/
abbrev ASNResolver := Option (ℕ → List String × List String)

/-! ### Values -/

def toStringSlice (value : Value) : List String :=
  (value.asArray.getD []).filterMap Value.asString

/- Ports are integers once validated. -/
def toIntSlice (value : Value) : List ℤ :=
  (value.asArray.getD []).filterMap fun item => item.asNumber.map fun q => q.num.tdiv q.den

/- User ids are integers once validated. -/
def toNumberStringSlice (value : Value) : List String :=
  (value.asArray.getD []).filterMap fun item =>
    item.asNumber.map fun q => toString (q.num.tdiv q.den)

def maxASN : ℕ := 4294967295

def trimPrefix (p s : List Char) : List Char := if p.isPrefixOf s then s.drop p.length else s

def parseASN : Value → Option ℕ
  | .num q => if 0 < q.num && q.den = 1 && q.num ≤ (maxASN : ℤ) then some q.num.toNat else none
  | .str s =>
    let text := trimPrefix "as".toList (trimPrefix "AS".toList (Strings.trimSpace s.toList))
    (parseDigits text).bind fun n => if n ≤ maxASN && 0 < n then some n else none
  | _ => none

def toASNSlice (value : Value) : List ℕ := (value.asArray.getD []).filterMap parseASN

def enabledSection (config : Object) (name : String) : Option Object :=
  ((Value.field config name).asObject).filter fun object =>
    (Value.field object "enabled").asBool.getD false

/-! ### Shared lists and their expansion -/

def consume (remaining count : ℕ) : Except String ℕ :=
  if remaining < count then .error s!"resolved IP budget exceeded ({maxResolvedIPItems})"
  else .ok (remaining - count)

def validateASNPrefixes (prefixes : List String) : Check :=
  checkItems (fun _ value =>
    let quoted := quotedForError value
    andThen (validateStringLength "resolved ASN prefix" value)
      (require (isSharedListItem value) s!"ASN resolver returned invalid prefix {quoted}")) 0 prefixes

def resolveASNs (prefixesByASN : ℕ → List String × List String) :
    List ℕ → ℕ → Except String (List String × ℕ)
  | [], budget => .ok ([], budget)
  | asn :: asns, budget => do
    let v4 := (prefixesByASN asn).1
    let v6 := (prefixesByASN asn).2
    if v4.isEmpty && v6.isEmpty then resolveASNs prefixesByASN asns budget
    else
      let budget ← consume budget (v4.length + v6.length)
      validateASNPrefixes v4
      validateASNPrefixes v6
      let (rest, budget) ← resolveASNs prefixesByASN asns budget
      return (v4 ++ v6 ++ rest, budget)

def resolveASList (rawItems : Value) (resolver : ASNResolver) (budget : ℕ) :
    Except String (List String × ℕ) :=
  match resolver with
  | none => .ok ([], budget)
  | some prefixesByASN => resolveASNs prefixesByASN (toASNSlice rawItems) budget

/- The map from names to lists, newest entry first. -/
abbrev SharedLists := List (String × List String)

def expandFailure (name message : String) : String :=
  let quoted := quotedForError name
  s!"expand shared list {quoted}: {message}"

def addSharedList (resolver : ASNResolver) (shared : SharedLists) (budget : ℕ) (item : Value) :
    Except String (SharedLists × ℕ) :=
  match item.asObject with
  | none => .ok (shared, budget)
  | some entry =>
    let name := (Value.field entry "name").asString.getD ""
    let entryType := (Value.field entry "type").asString.getD ""
    if entryType = "ipList" then
      let values := toStringSlice (Value.field entry "items")
      match consume budget values.length with
      | .error message => .error (expandFailure name message)
      | .ok budget => .ok ((name, values) :: shared, budget)
    else if entryType = "asList" then
      match resolveASList (Value.field entry "items") resolver budget with
      | .error message => .error (expandFailure name message)
      | .ok (resolved, budget) => .ok ((name, resolved) :: shared, budget)
    else .ok (shared, budget)

def addSharedLists (resolver : ASNResolver) :
    List Value → SharedLists → ℕ → Except String SharedLists
  | [], shared, _ => .ok shared
  | item :: items, shared, budget =>
    match addSharedList resolver shared budget item with
    | .error message => .error message
    | .ok (shared, budget) => addSharedLists resolver items shared budget

def buildSharedIPMap (config : Object) (resolver : ASNResolver) : Except String SharedLists :=
  addSharedLists resolver ((Value.field config "sharedLists").asArray.getD []) [] maxResolvedIPItems

def resolveIPList (shared : SharedLists) : List String → ℕ → Except String (List String × ℕ)
  | [], budget => .ok ([], budget)
  | item :: items, budget =>
    if isExt item then
      match shared.lookup item with
      | none => resolveIPList shared items budget
      | some resolved =>
        match consume budget resolved.length with
        | .error message =>
          let quoted := quotedForError item
          .error s!"resolve {quoted}: {message}"
        | .ok budget =>
          match resolveIPList shared items budget with
          | .error message => .error message
          | .ok (rest, budget) => .ok (resolved ++ rest, budget)
    else
      match consume budget 1 with
      | .error message => .error message
      | .ok budget =>
        match resolveIPList shared items budget with
        | .error message => .error message
        | .ok (rest, budget) => .ok (item :: rest, budget)

/- `resolveIPListContext` on a list of an enabled section; nothing otherwise. -/
def resolveSection (shared : SharedLists) (section' : Option Object) (key : String) (budget : ℕ) :
    Except String (List String × ℕ) :=
  match section' with
  | none => .ok ([], budget)
  | some object => resolveIPList shared (toStringSlice (Value.field object key)) budget

/-! ### The plan -/

def buildPreStart (config : Object) : PreStartSettings :=
  match (Value.field config "preStart").asObject with
  | none => ⟨false, false, []⟩
  | some preStart =>
    let enabled := (Value.field preStart "enabled").asBool.getD false
    match (Value.field preStart "cleanupSockets").asObject with
    | none => ⟨enabled, false, []⟩
    | some cleanup =>
      ⟨enabled, (Value.field cleanup "enabled").asBool.getD false,
        (toStringSlice (Value.field cleanup "files")).map Strings.trim⟩

def buildPostStart (config : Object) : PostStartSettings :=
  match (Value.field config "postStart").asObject with
  | none => ⟨false, false, ""⟩
  | some postStart =>
    let enabled := (Value.field postStart "enabled").asBool.getD false
    match (Value.field postStart "webhook").asObject with
    | none => ⟨enabled, false, ""⟩
    | some webhook =>
      ⟨enabled, (Value.field webhook "enabled").asBool.getD false,
        Strings.trim ((Value.field webhook "url").asString.getD "")⟩

/- The torrent section; `ignored` is its resolved ignore list. -/
def buildTorrent (c : Codec) (config : Object) (ignored : List String) : TorrentSettings :=
  match (Value.field config "torrentBlocker").asObject with
  | none => ⟨false, 0, "", [], 0, ⟨[]⟩, ∅⟩
  | some blocker =>
    let includeRuleTags := toStringSlice (Value.field blocker "includeRuleTags")
    if (Value.field blocker "enabled").asBool.getD false then
      let ignore := (Value.field blocker "ignoreLists").asObject
      { enabled := true
        blockDuration := (Value.field blocker "blockDuration").asNumber.getD 0
        webhookURL := Strings.trim ((Value.field blocker "webhookUrl").asString.getD "")
        includeRuleTags := includeRuleTags
        rulePosition := (Value.field blocker "rulePlacement").asNumber.getD 0
        ignoredIPs := if ignore.isSome then newIPMatcher c.ipSet ignored else ⟨[]⟩
        ignoredUsers := ((ignore.map fun object =>
          toNumberStringSlice (Value.field object "userId")).getD []).toFinset }
    else ⟨false, 0, "", includeRuleTags, 0, ⟨[]⟩, ∅⟩

/- The section that holds the torrent ignore list, if the blocker is enabled. -/
def ignoreSection (config : Object) : Option Object :=
  (enabledSection config "torrentBlocker").bind fun blocker =>
    (Value.field blocker "ignoreLists").asObject

/- `buildPluginPlanFromConfigContext`. The budget of resolved items runs through
the four lists in this order. -/
def buildPluginPlanFromConfig (c : Codec) (request : SyncPlugin) (config : Object)
    (configHash : String) (resolver : ASNResolver) (firewallAvailable : Bool) :
    Except String PluginSnapshot := do
  let shared ← buildSharedIPMap config resolver
  let (whitelist, budget) ← resolveSection shared (enabledSection config "connectionDrop")
    "whitelistIps" maxResolvedIPItems
  let (ignored, budget) ← resolveSection shared (ignoreSection config) "ip" budget
  let (ingress, budget) ← resolveSection shared (enabledSection config "ingressFilter")
    "blockedIps" budget
  let (egress, _) ← resolveSection shared (enabledSection config "egressFilter")
    "blockedIps" budget
  return {
    configHash := configHash
    sourceHash := c.sha256 request.config
    pluginUUID := request.uuid
    pluginName := request.name
    firewallReady := firewallAvailable
    whitelistIPs :=
      if (enabledSection config "connectionDrop").isSome then newIPMatcher c.ipSet whitelist
      else ⟨[]⟩
    torrent := buildTorrent c config ignored
    preStart := buildPreStart config
    postStart := buildPostStart config
    firewall :=
      ⟨ingress, egress, ((enabledSection config "egressFilter").map fun object =>
        toIntSlice (Value.field object "blockedPorts")).getD []⟩ }

def decodePluginConfig (c : Codec) (request : SyncPlugin) : Except String (Object × String) := do
  let size := request.config.utf8ByteSize
  require (size ≤ maxPluginConfigBytes)
    s!"plugin config is {size} bytes; maximum is {maxPluginConfigBytes}"
  let configHash ← c.hashPluginConfig request.config
  match c.unmarshal request.config with
  | .error message => throw s!"decode plugin config: {message}"
  | .ok none => throw "decode plugin config: config must be an object"
  | .ok (some config) =>
    validatePluginConfig c.parseURL config
    return (config, configHash)

def buildPluginPlan (c : Codec) (request : SyncPlugin) (resolver : ASNResolver)
    (firewallAvailable : Bool) : Except String PluginSnapshot := do
  let (config, configHash) ← decodePluginConfig c request
  buildPluginPlanFromConfig c request config configHash resolver firewallAvailable

end RemnanodeLite.Plugin
