import RemnanodeLite.Lib.Fallible
import RemnanodeLite.Lib.Json
import RemnanodeLite.Lib.Netip
import RemnanodeLite.Lib.Strings

/-! # Validation of plugin configs

`internal/plugin/schema_validate.go`, `validate.go`, `validatePostStartSection`
and the limits of `resource_limits.go` they use. -/

namespace RemnanodeLite.Plugin
open Json Netip

abbrev Object := List (String × Value)

def maxJavaScriptSafeInteger : ℕ := 9007199254740991
def maxSharedLists : ℕ := 128
def maxSharedListItems : ℕ := 8192
def maxTotalSharedListItems : ℕ := 16384
def maxASNItems : ℕ := 1024
def maxResolvedIPItems : ℕ := 32768
def maxFilterItems : ℕ := 16384
def maxIgnoreItems : ℕ := 8192
def maxRuleTags : ℕ := 256
def maxPreStartSocketFiles : ℕ := 64
def maxPluginStringBytes : ℕ := 512
def maxLogValueBytes : ℕ := 256

abbrev Check := Except String Unit

def require (condition : Bool) (message : String) : Check :=
  if condition then .ok () else .error message

def validateArrayLength (field : String) (length maximum : ℕ) : Check :=
  require (length ≤ maximum) s!"{field} contains {length} items; maximum is {maximum}"

def validateStringLength (field value : String) : Check :=
  let size := value.utf8ByteSize
  require (size ≤ maxPluginStringBytes) s!"{field} is {size} bytes; maximum is {maxPluginStringBytes}"

def quotedForError (value : String) : String :=
  let quoted := Strings.quoteToASCII value
  if quoted.length ≤ maxLogValueBytes then quoted
  else
    let size := value.utf8ByteSize
    let suffix := s!"... ({size} bytes)"
    String.ofList (quoted.toList.take (maxLogValueBytes - suffix.length)) ++ suffix

/-! ### Items -/

def isPlainIP (value : String) : Bool :=
  if value.toList.contains ':' && value.toList.contains '.' then false
  else (netParseIP value.toList).isSome

def isIPv4CIDR (value : String) : Bool :=
  if value.toList.contains ':' || !value.toList.contains '.' then false
  else (netParseCIDR value.toList).isSome

def isIPv6CIDR (value : String) : Bool :=
  if !value.toList.contains ':' || value.toList.contains '.' then false
  else (netParseCIDR value.toList).isSome

/- `strings.HasPrefix(value, "ext:")`. -/
def isExt (value : String) : Bool := "ext:".toList.isPrefixOf value.toList

def isSharedListItem (value : String) : Bool :=
  isPlainIP value || isIPv4CIDR value || isIPv6CIDR value

def isIPCidrOrExt (value : String) : Bool := isExt value || isSharedListItem value

def isIPOrExt (value : String) : Bool := isExt value || isPlainIP value

/- A number that is an integer of JavaScript. -/
def isIntNumber (value : Value) : Bool :=
  value.asNumber.any fun q => q.den = 1 && q.num.natAbs ≤ maxJavaScriptSafeInteger

/- `for i, item := range items` with a check that may return. -/
def checkItems {α : Type} (check : ℕ → α → Check) : ℕ → List α → Check
  | _, [] => .ok ()
  | i, item :: items =>
    match check i item with
    | .error message => .error message
    | .ok () => checkItems check (i + 1) items

theorem checkItems_ok {α : Type} {check : ℕ → α → Check} {items : List α} {i : ℕ}
    (h : checkItems check i items = .ok ()) : ∀ item ∈ items, ∃ k, check k item = .ok () := by
  induction items generalizing i with
  | nil => simp
  | cons item items ih =>
    unfold checkItems at h
    cases hitem : check i item with
    | error message => simp [hitem] at h
    | ok u =>
      simp only [hitem] at h
      exact List.forall_mem_cons.mpr ⟨⟨i, hitem⟩, ih h⟩

def andThen (first second : Check) : Check :=
  match first with
  | .error message => .error message
  | .ok () => second

theorem andThen_ok {first second : Check} (h : andThen first second = .ok ()) :
    first = .ok () ∧ second = .ok () := by
  unfold andThen at h
  cases first with
  | error message => cases h
  | ok u => exact ⟨rfl, h⟩

theorem require_ok {condition : Bool} {message : String} (h : require condition message = .ok ()) :
    condition = true := by
  unfold require at h
  split at h
  case isTrue hc => exact hc
  case isFalse => cases h

/- An array of the config whose items pass a check of their own. -/
def validateArray (field : String) (raw : Value) (maximum : ℕ) (check : ℕ → Value → Check) :
    Check :=
  match raw.asArray with
  | none => .error s!"{field} must be an array"
  | some items =>
    andThen (validateArrayLength field items.length maximum) (checkItems check 0 items)

def validateStringArrayLimit (field : String) (raw : Value) (itemCheck : String → Bool)
    (maximum : ℕ) : Check :=
  validateArray field raw maximum fun i item =>
    match item.asString with
    | none => .error s!"{field}[{i}] must be a string"
    | some value =>
      let quoted := quotedForError value
      andThen (validateStringLength s!"{field}[{i}]" value)
        (require (itemCheck value) s!"{field}[{i}] has invalid value {quoted}")

def validateASNArray (field : String) (raw : Value) : Check :=
  validateArray field raw maxASNItems fun i item =>
    require (item.asNumber.any fun q => q.den = 1 && 1 ≤ q.num && q.num ≤ 4294967295)
      s!"{field}[{i}] must be a positive AS number"

def validateIntArrayLimit (field : String) (raw : Value) (maximum : ℕ) : Check :=
  validateArray field raw maximum fun i item =>
    require (isIntNumber item) s!"{field}[{i}] must be an integer"

def validatePortArray (field : String) (raw : Value) : Check :=
  validateArray field raw maxFilterItems fun i item =>
    require (item.asNumber.any fun q => q.den = 1 && 1 ≤ q.num && q.num ≤ 65535)
      s!"{field}[{i}] must be an integer between 1 and 65535"

/- `if raw, ok := section[key]; ok { … }`. -/
def whenPresent (object : Object) (key : String) (check : Value → Check) : Check :=
  match object.lookup key with
  | none => .ok ()
  | some raw => check raw

def asSection (name : String) (raw : Value) (check : Object → Check) : Check :=
  match raw.asObject with
  | none => .error s!"{name} must be an object"
  | some object => check object

def requireBool (name : String) (object : Object) : Check :=
  require (Value.field object "enabled").asBool.isSome
    s!"{name}.enabled is required and must be a boolean"

/-! ### Sections -/

/- One entry of `sharedLists`; the running total is checked between the length
and the type. -/
def validateSharedList (i totalItems : ℕ) (entry : Value) : Check :=
  match entry.asObject with
  | none => .error s!"sharedLists[{i}] must be an object"
  | some object =>
    let name := (Value.field object "name").asString.getD ""
    andThen (validateStringLength s!"sharedLists[{i}].name" name) <|
    andThen (require (isExt name) s!"sharedLists[{i}].name must start with ext:") <|
    match (Value.field object "items").asArray with
    | none => .error s!"sharedLists[{i}].items must be an array"
    | some items =>
      let total := totalItems + items.length
      andThen (validateArrayLength s!"sharedLists[{i}].items" items.length maxSharedListItems) <|
      andThen (require (total ≤ maxTotalSharedListItems)
        s!"sharedLists contain {total} total items; maximum is {maxTotalSharedListItems}") <|
      let listType := (Value.field object "type").asString.getD ""
      if listType = "ipList" then
        validateStringArrayLimit s!"sharedLists[{i}].items" (.arr items) isSharedListItem
          maxSharedListItems
      else if listType = "asList" then validateASNArray s!"sharedLists[{i}].items" (.arr items)
      else .error s!"sharedLists[{i}].type must be ipList or asList"

def listLength (entry : Value) : ℕ :=
  ((entry.asObject.bind fun object => (Value.field object "items").asArray).getD []).length

def validateSharedListsFrom : ℕ → ℕ → List Value → Check
  | _, _, [] => .ok ()
  | i, totalItems, entry :: entries =>
    andThen (validateSharedList i totalItems entry)
      (validateSharedListsFrom (i + 1) (totalItems + listLength entry) entries)

def validateSharedLists (raw : Value) : Check :=
  match raw.asArray with
  | none => .error "sharedLists must be an array"
  | some lists =>
    andThen (validateArrayLength "sharedLists" lists.length maxSharedLists)
      (validateSharedListsFrom 0 0 lists)

/- What `url.Parse` finds. -/
structure Url where
  scheme : String
  hostname : String

variable (parseURL : String → Option Url)

def validateRuleTags (tags : Value) : Check :=
  match tags.asArray with
  | none => .error "torrentBlocker.includeRuleTags must be an array"
  | some items =>
    andThen (require (1 ≤ items.length)
      "torrentBlocker.includeRuleTags must contain at least one item") <|
    andThen (validateArrayLength "torrentBlocker.includeRuleTags" items.length maxRuleTags) <|
    checkItems (fun i item =>
      match item.asString with
      | none => .error s!"torrentBlocker.includeRuleTags[{i}] must be a string"
      | some value => validateStringLength s!"torrentBlocker.includeRuleTags[{i}]" value) 0 items

def validateWebhookUrl (rawURL : Value) : Check :=
  match rawURL.asString with
  | none => .error "torrentBlocker.webhookUrl must be a URL"
  | some value =>
    andThen (validateStringLength "torrentBlocker.webhookUrl" value)
      (require ((parseURL (Strings.trim value)).any fun url => url.scheme ≠ "")
        "torrentBlocker.webhookUrl must be a URL")

def validateTorrentBlockerSection (raw : Value) : Check :=
  asSection "torrentBlocker" raw fun section' =>
    andThen (requireBool "torrentBlocker" section') <|
    andThen (require ((Value.field section' "blockDuration").asNumber.any fun q =>
        q.den = 1 && 0 ≤ q.num && q.num ≤ (maxJavaScriptSafeInteger : ℤ))
      "torrentBlocker.blockDuration must be a non-negative safe integer") <|
    match section'.lookup "ignoreLists" with
    | none => .error "torrentBlocker.ignoreLists is required"
    | some ignoreRaw =>
      asSection "torrentBlocker.ignoreLists" ignoreRaw fun ignore =>
        andThen (whenPresent ignore "ip" fun ips =>
          validateStringArrayLimit "torrentBlocker.ignoreLists.ip" ips isIPOrExt maxIgnoreItems) <|
        andThen (whenPresent ignore "userId" fun users =>
          validateIntArrayLimit "torrentBlocker.ignoreLists.userId" users maxIgnoreItems) <|
        andThen (whenPresent section' "includeRuleTags" validateRuleTags) <|
        andThen (whenPresent section' "webhookUrl" (validateWebhookUrl parseURL)) <|
        whenPresent section' "rulePlacement" fun position =>
          require (position.asNumber.any fun q => 0 ≤ q && q ≤ 1000)
            "torrentBlocker.rulePlacement must be a number between 0 and 1000"

def validateConnectionDropSection (raw : Value) : Check :=
  asSection "connectionDrop" raw fun section' =>
    andThen (requireBool "connectionDrop" section') <|
    validateStringArrayLimit "connectionDrop.whitelistIps" (Value.field section' "whitelistIps")
      isIPOrExt maxFilterItems

def validateIngressFilterSection (raw : Value) : Check :=
  asSection "ingressFilter" raw fun section' =>
    andThen (requireBool "ingressFilter" section') <|
    validateStringArrayLimit "ingressFilter.blockedIps" (Value.field section' "blockedIps")
      isIPCidrOrExt maxFilterItems

def validateEgressFilterSection (raw : Value) : Check :=
  asSection "egressFilter" raw fun section' =>
    andThen (requireBool "egressFilter" section') <|
    andThen (whenPresent section' "blockedIps" fun ips =>
      validateStringArrayLimit "egressFilter.blockedIps" ips isIPCidrOrExt maxFilterItems) <|
    whenPresent section' "blockedPorts" (validatePortArray "egressFilter.blockedPorts")

/- `if enabled, present := section["enabled"]; present` in the two start sections. -/
def optionalBool (name : String) (object : Object) : Check :=
  whenPresent object "enabled" fun enabled =>
    require enabled.asBool.isSome s!"{name}.enabled must be a boolean"

def validateSocketFile (index : ℕ) (item : Value) : Check :=
  match item.asString with
  | none => .error s!"preStart.cleanupSockets.files[{index}] must be a string"
  | some raw =>
    let path := Strings.trimSpace raw.toList
    let field := s!"preStart.cleanupSockets.files[{index}]"
    andThen (require (!path.isEmpty) s!"{field} must not be empty") <|
    andThen (require (path.head? = some '/') s!"{field} must be an absolute path") <|
    require (!path.contains (Char.ofNat 0)) s!"{field} must not contain null bytes"

def validatePreStartSection (raw : Value) : Check :=
  asSection "preStart" raw fun section' =>
    andThen (optionalBool "preStart" section') <|
    whenPresent section' "cleanupSockets" fun cleanupRaw =>
      asSection "preStart.cleanupSockets" cleanupRaw fun cleanup =>
        andThen (requireBool "preStart.cleanupSockets" cleanup) <|
        match (Value.field cleanup "files").asArray with
        | none => .error "preStart.cleanupSockets.files is required and must be an array"
        | some files =>
          andThen (validateArrayLength "preStart.cleanupSockets.files" files.length
            maxPreStartSocketFiles) (checkItems validateSocketFile 0 files)

def validatePostStartSection (raw : Value) : Check :=
  asSection "postStart" raw fun section' =>
    andThen (optionalBool "postStart" section') <|
    whenPresent section' "webhook" fun webhookRaw =>
      asSection "postStart.webhook" webhookRaw fun webhook =>
        andThen (requireBool "postStart.webhook" webhook) <|
        match (Value.field webhook "url").asString with
        | none => .error "postStart.webhook.url is required and must be an HTTP(S) URL"
        | some value =>
          andThen (validateStringLength "postStart.webhook.url" value)
            (require ((parseURL (Strings.trim value)).any fun url =>
                url.hostname ≠ "" && (url.scheme = "http" || url.scheme = "https"))
              "postStart.webhook.url must be an HTTP(S) URL")

def validators : List (String × (Value → Check)) :=
  [("sharedLists", validateSharedLists),
    ("ingressFilter", validateIngressFilterSection),
    ("egressFilter", validateEgressFilterSection),
    ("connectionDrop", validateConnectionDropSection),
    ("torrentBlocker", validateTorrentBlockerSection parseURL),
    ("preStart", validatePreStartSection),
    ("postStart", validatePostStartSection parseURL)]

/- `ValidatePluginConfig` on a config that is not nil. -/
def validatePluginConfig (config : Object) : Check :=
  checkItems (fun _ validator => whenPresent config validator.1 validator.2) 0
    (validators parseURL)

theorem validatePluginConfig_section {config : Object} {name : String} {validate : Value → Check}
    {raw : Value} (h : validatePluginConfig parseURL config = .ok ())
    (hmem : (name, validate) ∈ validators parseURL) (hraw : config.lookup name = some raw) :
    validate raw = .ok () := by
  obtain ⟨_, hcheck⟩ := checkItems_ok h _ hmem
  simpa [whenPresent, hraw] using hcheck

end RemnanodeLite.Plugin
