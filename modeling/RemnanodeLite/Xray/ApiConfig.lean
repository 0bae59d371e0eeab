import RemnanodeLite.Plugin.Plan

/-! # The config that a core is started with

`generateAPIConfig` and its helpers (`internal/xray/apiconfig.go`). The rules of
the routing section come out as the API rule, then the rules of the input that do
not route to the API, with the torrent rule among them. -/

namespace RemnanodeLite.Xray
open Json

abbrev Object := List (String × Value)

def apiTag : String := "REMNAWAVE_API"
def apiInboundTag : String := "REMNAWAVE_API_INBOUND"
def torrentBlockerOutboundTag : String := "RW_TB_OUTBOUND_BLOCK"

structure TorrentBlockerOptions where
  enabled : Bool
  includeRuleTags : List String
  rulePosition : ℚ
  socketPath : String
  restToken : String
  deriving DecidableEq

def arrayFrom (value : Value) : List Value := value.asArray.getD []

def buildWebhookURL (socketPath : String) : String := "/" ++ socketPath ++ ":/internal/webhook"

def apiInbound (socketName : String) : Value :=
  .obj [("tag", .str apiInboundTag), ("listen", .str ("@" ++ socketName)), ("protocol", .str "tunnel")]

def policyFrom (existing : Value) (statsUserOnline : Bool) : Value :=
  let zero := existing.asObject.bind fun policy =>
    (Value.field policy "levels").asObject.bind fun levels => (Value.field levels "0").asObject
  let levelZero := Value.setField (Value.setField (Value.setField (zero.getD [])
    "statsUserUplink" (.bool true)) "statsUserDownlink" (.bool true))
    "statsUserOnline" (.bool statsUserOnline)
  .obj [("levels", .obj [("0", .obj levelZero)]),
    ("system", .obj [("statsInboundDownlink", .bool true), ("statsInboundUplink", .bool true),
      ("statsOutboundDownlink", .bool true), ("statsOutboundUplink", .bool true)])]

/-! ### Routing -/

def apiRule : Value :=
  .obj [("inboundTag", .arr [.str apiInboundTag]), ("outboundTag", .str apiTag)]

def routesToAPI (item : Value) : Bool :=
  item.asObject.any fun rule => (Value.field rule "outboundTag").asString.getD "" = apiTag

def routingFrom (existing : Value) : Object :=
  let routing := existing.asObject.getD []
  Value.setField routing "rules"
    (.arr (apiRule :: (arrayFrom (Value.field routing "rules")).filter fun item => !routesToAPI item))

def webhook (url : String) : Value := .obj [("url", .str url), ("deduplication", .num 5)]

def torrentRule (webhookURL : String) : Value :=
  .obj [("protocol", .arr [.str "bittorrent"]), ("outboundTag", .str torrentBlockerOutboundTag),
    ("webhook", webhook webhookURL)]

/- `int(position)`; a value out of range becomes the least integer. -/
def truncInt64 (position : ℚ) : ℤ :=
  let t := position.num.tdiv position.den
  if -2 ^ 63 ≤ t ∧ t < 2 ^ 63 then t else -2 ^ 63

def torrentRuleIndex (position : ℚ) (rulesLength : ℕ) : ℕ :=
  if rulesLength = 0 then 0
  else if position ≤ 0 ∨ position ≠ truncInt64 position then 1
  else 1 + min (truncInt64 position).toNat (rulesLength - 1)

/- The body of the loop over the rules: a rule without a tag has the empty one. -/
def includeRule (includeRuleTags : List String) (webhookURL : String) (item : Value) : Value :=
  match item.asObject with
  | none => item
  | some rule =>
    if (Value.field rule "ruleTag").asString.getD "" ∈ includeRuleTags then
      .obj (Value.setField rule "webhook" (webhook webhookURL))
    else item

def torrentRules (torrent : TorrentBlockerOptions) (rules : List Value) : List Value :=
  let webhookURL := buildWebhookURL torrent.socketPath
  let position := torrentRuleIndex torrent.rulePosition rules.length
  let inserted := rules.take position ++ torrentRule webhookURL :: rules.drop position
  if torrent.includeRuleTags ≠ [] then inserted.map (includeRule torrent.includeRuleTags webhookURL)
  else inserted

def torrentOutbound : Value :=
  .obj [("tag", .str torrentBlockerOutboundTag), ("protocol", .str "blackhole")]

/- The config before the torrent blocker; `capNetAdmin` is `netadmin.HasCapNetAdmin()`. -/
def baseConfig (input : Option Object) (xrayRPCSocket : String) (capNetAdmin : Bool) : Object :=
  let result := input.getD []
  let result := Value.setField result "stats" (.obj [])
  let result := Value.setField result "api" (.obj
    [("services", .arr [.str "HandlerService", .str "StatsService", .str "RoutingService"]),
      ("tag", .str apiTag)])
  let result := Value.setField result "inbounds"
    (.arr (apiInbound xrayRPCSocket :: arrayFrom (Value.field result "inbounds")))
  let result := Value.setField result "outbounds" (.arr (arrayFrom (Value.field result "outbounds")))
  let result := Value.setField result "policy" (policyFrom (Value.field result "policy") capNetAdmin)
  Value.setField result "routing" (.obj (routingFrom (Value.field result "routing")))

def generateAPIConfig (input : Option Object) (xrayRPCSocket : String) (capNetAdmin : Bool)
    (torrent : TorrentBlockerOptions) : Object :=
  let result := baseConfig input xrayRPCSocket capNetAdmin
  if torrent.enabled then
    let outbounds := arrayFrom (Value.field result "outbounds") ++ [torrentOutbound]
    let result := Value.setField result "outbounds" (.arr outbounds)
    let routing := (Value.field result "routing").asObject.getD []
    let rules := torrentRules torrent (arrayFrom (Value.field routing "rules"))
    Value.setField result "routing" (.obj (Value.setField routing "rules" (.arr rules)))
  else result

/-! ### What the generated rules are -/

def rulesOf (config : Object) : List Value :=
  arrayFrom (Value.field ((Value.field config "routing").asObject.getD []) "rules")

section
variable {input : Option Object} {xrayRPCSocket : String} {capNetAdmin : Bool}
  {torrent : TorrentBlockerOptions} {rules : List Value} {tags : List String} {url : String}

@[simp] theorem arrayFrom_arr (items : List Value) : arrayFrom (.arr items) = items := rfl

theorem field_routing_base : Value.field (baseConfig input xrayRPCSocket capNetAdmin) "routing" =
    .obj (routingFrom (Value.field (input.getD []) "routing")) := by
  simp [baseConfig, Value.field_setField_of_ne]

theorem rulesOf_routing (config routing : Object) (rules : List Value) :
    rulesOf (Value.setField config "routing" (.obj (Value.setField routing "rules" (.arr rules)))) =
      rules := by
  simp [rulesOf, Value.asObject]

def keptRules (input : Option Object) : List Value :=
  (rulesOf (input.getD [])).filter fun item => !routesToAPI item

theorem rulesOf_base : rulesOf (baseConfig input xrayRPCSocket capNetAdmin) =
    apiRule :: keptRules input := by
  simp only [rulesOf, field_routing_base, Value.asObject, Option.getD_some, routingFrom,
    Value.field_setField_self, arrayFrom_arr, keptRules]

theorem rulesOf_generateAPIConfig (h : torrent.enabled = true) :
    rulesOf (generateAPIConfig input xrayRPCSocket capNetAdmin torrent) =
      torrentRules torrent (apiRule :: keptRules input) := by
  simp only [generateAPIConfig, h, if_true, rulesOf_routing]
  congr 1
  rw [Value.field_setField_of_ne _ (by decide)]
  exact rulesOf_base

theorem torrentRuleIndex_cons (position : ℚ) (rule : Value) (rules : List Value) :
    ∃ i ≤ rules.length, torrentRuleIndex position (rule :: rules).length = i + 1 := by
  simp only [torrentRuleIndex, List.length_cons, Nat.add_one_ne_zero, if_false, Nat.add_sub_cancel]
  split
  · exact ⟨0, Nat.zero_le _, rfl⟩
  · exact ⟨min (truncInt64 position).toNat rules.length, Nat.min_le_right _ _, Nat.add_comm _ _⟩

theorem map_includeRule_nil (rules : List Value) : rules.map (includeRule [] url) = rules := by
  have hid : includeRule [] url = id := by
    funext item
    simp only [includeRule, List.not_mem_nil, if_false, id]
    split <;> rfl
  rw [hid, List.map_id]

theorem torrentRules_eq (torrent : TorrentBlockerOptions) (rules : List Value) :
    torrentRules torrent rules =
      let url := buildWebhookURL torrent.socketPath
      let position := torrentRuleIndex torrent.rulePosition rules.length
      (rules.take position ++ torrentRule url :: rules.drop position).map
        (includeRule torrent.includeRuleTags url) := by
  unfold torrentRules
  dsimp only
  split_ifs with htags
  · rfl
  · rw [of_not_not htags, map_includeRule_nil]

theorem includeRule_torrentRule (tags : List String) (url : String) :
    includeRule tags url (torrentRule url) = torrentRule url := by
  simp only [includeRule, torrentRule, Value.asObject]
  split_ifs
  · rfl
  · rfl

theorem rules_generated (input : Option Object) (xrayRPCSocket : String) (capNetAdmin : Bool)
    (h : torrent.enabled = true) :
    ∃ before after, keptRules input = before ++ after ∧
      rulesOf (generateAPIConfig input xrayRPCSocket capNetAdmin torrent) =
        let url := buildWebhookURL torrent.socketPath
        let mark := includeRule torrent.includeRuleTags url
        mark apiRule :: (before.map mark ++ torrentRule url :: after.map mark) := by
  obtain ⟨i, -, hi⟩ := torrentRuleIndex_cons torrent.rulePosition apiRule (keptRules input)
  refine ⟨(keptRules input).take i, (keptRules input).drop i, (List.take_append_drop ..).symm, ?_⟩
  rw [rulesOf_generateAPIConfig h, torrentRules_eq]
  simp only [hi, List.take_succ_cons, List.drop_succ_cons, List.cons_append, List.map_cons,
    List.map_append, includeRule_torrentRule]

/- The API rule has no tag, so the empty tag marks it. -/
theorem includeRule_apiRule (h : "" ∈ tags) : includeRule tags url apiRule ≠ apiRule := by
  have hmarked : includeRule tags url apiRule = .obj [("inboundTag", .arr [.str apiInboundTag]),
      ("outboundTag", .str apiTag), ("webhook", webhook url)] := if_pos h
  rw [hmarked]
  simp [apiRule]

/-! ### Rules with a listed tag -/

/- The rule carries a tag, and the tag is listed. -/
def hasListedTag (tags : List String) (rule : Object) : Bool :=
  ((rule.lookup "ruleTag").bind Value.asString).any fun tag => tag ∈ tags

/- What is wanted of a rule: a webhook exactly if it has a listed tag. -/
def withWebhook (tags : List String) (url : String) (item : Value) : Value :=
  match item.asObject with
  | none => item
  | some rule =>
    if hasListedTag tags rule then .obj (Value.setField rule "webhook" (webhook url)) else item

theorem includeRule_eq_withWebhook (h : "" ∉ tags) (item : Value) :
    includeRule tags url item = withWebhook tags url item := by
  unfold includeRule withWebhook
  cases item.asObject with
  | none => rfl
  | some rule =>
    have hiff : (Value.field rule "ruleTag").asString.getD "" ∈ tags ↔
        hasListedTag tags rule = true := by
      simp only [Value.field, hasListedTag]
      cases rule.lookup "ruleTag" with
      | none => simpa [Value.asString] using h
      | some tag =>
        cases hstr : tag.asString with
        | none => simpa [hstr] using h
        | some text => simp [hstr]
    simp only [hiff]

theorem routesToAPI_withWebhook (item : Value) :
    routesToAPI (withWebhook tags url item) = routesToAPI item := by
  unfold withWebhook
  split
  · rfl
  · next rule hrule =>
    split_ifs
    · unfold routesToAPI
      rw [hrule]
      exact congrArg (fun tag : Value => decide (tag.asString.getD "" = apiTag))
        (Value.field_setField_of_ne rule (by decide))
    · rfl

theorem filter_routesToAPI_kept {items : List Value} (h : ∀ item ∈ items, routesToAPI item = false) :
    (items.map (withWebhook tags url)).filter routesToAPI = [] := by
  rw [List.filter_eq_nil_iff]
  intro item hitem
  obtain ⟨rule, hrule, rfl⟩ := List.mem_map.mp hitem
  simp [routesToAPI_withWebhook, h rule hrule]

end

/- The rules that are wanted: exactly one routes to the API, the first one; the
others are those of the input, in order, with one torrent rule among them; and
exactly the input's rules with a listed tag get a webhook. -/
def RulesAsWanted (input : Option Object) (torrent : TorrentBlockerOptions) (rules : List Value) :
    Prop :=
  let url := buildWebhookURL torrent.socketPath
  let wanted := withWebhook torrent.includeRuleTags url
  rules.head? = some apiRule ∧ rules.filter routesToAPI = [apiRule] ∧
    ∃ before after, keptRules input = before ++ after ∧
      rules = apiRule :: (before.map wanted ++ torrentRule url :: after.map wanted)

/-- With the torrent blocker enabled the generated rules are as wanted exactly if
the empty string is not among the listed tags. -/
theorem rules_as_wanted_iff (input : Option Object) (xrayRPCSocket : String) (capNetAdmin : Bool)
    (torrent : TorrentBlockerOptions) (h : torrent.enabled = true) :
    RulesAsWanted input torrent
        (rulesOf (generateAPIConfig input xrayRPCSocket capNetAdmin torrent)) ↔
      "" ∉ torrent.includeRuleTags := by
  obtain ⟨before, after, hkept, hrules⟩ := rules_generated input xrayRPCSocket capNetAdmin h
  rw [hrules]
  constructor
  · rintro ⟨hhead, -⟩ hmem
    exact includeRule_apiRule hmem (Option.some.inj hhead)
  · intro hempty
    have hsame : includeRule torrent.includeRuleTags (buildWebhookURL torrent.socketPath) =
        withWebhook torrent.includeRuleTags (buildWebhookURL torrent.socketPath) :=
      funext (includeRule_eq_withWebhook hempty)
    have hapi : withWebhook torrent.includeRuleTags (buildWebhookURL torrent.socketPath) apiRule =
        apiRule := rfl
    have hnone : ∀ item ∈ before ++ after, routesToAPI item = false := by
      intro item hitem
      rw [← hkept] at hitem
      simpa using (List.mem_filter.mp hitem).2
    simp only [hsame, hapi]
    refine ⟨rfl, ?_, before, after, hkept, rfl⟩
    have hfirst : routesToAPI apiRule = true := by decide
    have htorrent : routesToAPI (torrentRule (buildWebhookURL torrent.socketPath)) = false := by
      rfl
    rw [List.filter_cons_of_pos hfirst, List.filter_append,
      List.filter_cons_of_neg (by simp [htorrent]),
      filter_routesToAPI_kept fun item hitem => hnone item (List.mem_append_left _ hitem),
      filter_routesToAPI_kept fun item hitem => hnone item (List.mem_append_right _ hitem)]
    rfl

/- A rule with a listed tag, one with another tag, one without a tag and one for the API. -/
def mixedRules : Object :=
  [("routing", .obj [("rules", .arr [
    .obj [("ruleTag", .str "custom"), ("outboundTag", .str "direct")],
    .obj [("ruleTag", .str "other")], .obj [("outboundTag", .str "direct")], apiRule])])]

/-- The theorem for these rules. -/
theorem rules_as_wanted_tagged :
    RulesAsWanted (some mixedRules) ⟨true, ["custom"], 2, "run", ""⟩
      (rulesOf (generateAPIConfig (some mixedRules) "rpc" true ⟨true, ["custom"], 2, "run", ""⟩)) :=
  (rules_as_wanted_iff (some mixedRules) "rpc" true ⟨true, ["custom"], 2, "run", ""⟩ rfl).mpr
    (by decide)

/- The options that a snapshot with these settings gives while the firewall is ready. -/
def optionsOf (settings : Plugin.TorrentSettings) (socketPath restToken : String) :
    TorrentBlockerOptions :=
  ⟨settings.enabled, settings.includeRuleTags, settings.rulePosition, socketPath, restToken⟩

def taggedPlugin (tags : List String) : Object :=
  [("torrentBlocker", .obj [("enabled", .bool true), ("blockDuration", .num 300),
    ("ignoreLists", .obj []), ("includeRuleTags", .arr (tags.map .str))])]

/-- The validator accepts an empty tag, and the API rule then gets a webhook. -/
theorem empty_tag_marks_api_rule :
    Plugin.validatePluginConfig (fun _ => none) (taggedPlugin [""]) = .ok () ∧
      ∀ c : Plugin.Codec,
        let torrent := optionsOf (Plugin.buildTorrent c (taggedPlugin [""]) []) "run" ""
        torrent.enabled = true ∧
          ¬ RulesAsWanted none torrent (rulesOf (generateAPIConfig none "rpc" true torrent)) := by
  refine ⟨by rfl, fun c => ⟨rfl, ?_⟩⟩
  rintro ⟨hhead, -⟩
  obtain ⟨before, after, -, hrules⟩ := rules_generated none "rpc" true
    (show (optionsOf (Plugin.buildTorrent c (taggedPlugin [""]) []) "run" "").enabled = true from rfl)
  rw [hrules] at hhead
  exact includeRule_apiRule (List.mem_singleton_self "") (Option.some.inj hhead)

/-! ### Configs apart from the torrent rule and the torrent outbound -/

/- Whether the options attach a webhook to a rule other than the torrent rule. -/
def attachesWebhook (torrent : TorrentBlockerOptions) (item : Value) : Bool :=
  torrent.enabled && item.asObject.any fun rule =>
    (Value.field rule "ruleTag").asString.getD "" ∈ torrent.includeRuleTags

/- The generated config without the rule and the outbound that the options insert. -/
def eraseTorrent (torrent : TorrentBlockerOptions) (config : Object) : Object :=
  if torrent.enabled then
    let rules := rulesOf config
    let position := torrentRuleIndex torrent.rulePosition (rules.length - 1)
    let routing := (Value.field config "routing").asObject.getD []
    let outbounds := arrayFrom (Value.field config "outbounds")
    let config := Value.setField config "outbounds" (.arr outbounds.dropLast)
    Value.setField config "routing"
      (.obj (Value.setField routing "rules" (.arr (rules.eraseIdx position))))
  else config

/-- Under both options every base config has its webhooks on the same rules, and
apart from the torrent rule and the torrent outbound the same config comes out. -/
def SameApartFromTorrent (left right : TorrentBlockerOptions) : Prop :=
  ∀ input xrayRPCSocket capNetAdmin,
    (∀ rule ∈ apiRule :: keptRules input, attachesWebhook left rule = attachesWebhook right rule) ∧
    eraseTorrent left (generateAPIConfig input xrayRPCSocket capNetAdmin left) =
      eraseTorrent right (generateAPIConfig input xrayRPCSocket capNetAdmin right)

def TorrentBlockerOptions.tags (torrent : TorrentBlockerOptions) : List String :=
  if torrent.enabled then torrent.includeRuleTags else []

section
variable {input : Option Object} {xrayRPCSocket : String} {capNetAdmin : Bool}
  {torrent : TorrentBlockerOptions} {tags : List String} {url : String}

theorem includeRule_congr {tags' : List String} (h : ∀ tag, tag ∈ tags ↔ tag ∈ tags') :
    includeRule tags url = includeRule tags' url := by
  funext item
  simp only [includeRule, h]

theorem outbounds_base : ∃ outbounds,
    (baseConfig input xrayRPCSocket capNetAdmin).lookup "outbounds" = some (.arr outbounds) := by
  refine ⟨arrayFrom (Value.field (input.getD []) "outbounds"), ?_⟩
  simp [baseConfig, Value.lookup_setField_of_ne, Value.lookup_setField_self,
    Value.field_setField_of_ne]

def includeRules (tags : List String) (url : String) (config : Object) : Object :=
  Value.setField config "routing" (.obj (Value.setField
    ((Value.field config "routing").asObject.getD []) "rules"
    (.arr ((rulesOf config).map (includeRule tags url)))))

theorem includeRules_nil : includeRules [] url (baseConfig input xrayRPCSocket capNetAdmin) =
    baseConfig input xrayRPCSocket capNetAdmin := by
  have hrouting : (baseConfig input xrayRPCSocket capNetAdmin).lookup "routing" =
      some (.obj (routingFrom (Value.field (input.getD []) "routing"))) := by
    simp [baseConfig, Value.lookup_setField_self, Value.field_setField_of_ne]
  unfold includeRules
  rw [map_includeRule_nil, field_routing_base, rulesOf_base]
  apply Value.setField_of_lookup
  rw [hrouting]
  exact congrArg (fun routing => some (Value.obj routing)) (Value.setField_setField _ _).symm

theorem eraseIdx_torrentRules (rule : Value) (rules : List Value) :
    (torrentRules torrent (rule :: rules)).eraseIdx (torrentRuleIndex torrent.rulePosition
        ((torrentRules torrent (rule :: rules)).length - 1)) =
      (rule :: rules).map (includeRule torrent.includeRuleTags (buildWebhookURL torrent.socketPath)) := by
  obtain ⟨i, hi, hindex⟩ := torrentRuleIndex_cons torrent.rulePosition rule rules
  have hlen : (torrentRules torrent (rule :: rules)).length - 1 = (rule :: rules).length := by
    simp only [torrentRules_eq, List.length_map, List.length_append, List.length_take,
      List.length_cons, List.length_drop]
    omega
  have htake : (((rule :: rules).take (i + 1)).map (includeRule torrent.includeRuleTags
      (buildWebhookURL torrent.socketPath))).length = i + 1 := by
    simp only [List.length_map, List.length_take, List.length_cons]
    omega
  rw [hlen, hindex, torrentRules_eq]
  simp only [hindex, List.map_append, List.map_cons]
  rw [List.eraseIdx_append_of_length_le (le_of_eq htake), htake, Nat.sub_self, List.eraseIdx_zero,
    List.tail_cons, ← List.map_append, List.take_append_drop, List.map_cons]

theorem eraseTorrent_generated (torrent : TorrentBlockerOptions) :
    eraseTorrent torrent (generateAPIConfig input xrayRPCSocket capNetAdmin torrent) =
      includeRules torrent.tags (buildWebhookURL torrent.socketPath)
        (baseConfig input xrayRPCSocket capNetAdmin) := by
  unfold TorrentBlockerOptions.tags
  cases h : torrent.enabled with
  | false =>
    simp only [eraseTorrent, generateAPIConfig, h, Bool.false_eq_true, if_false]
    exact includeRules_nil.symm
  | true =>
    obtain ⟨outbounds, hout⟩ : ∃ outbounds, (baseConfig input xrayRPCSocket capNetAdmin).lookup
      "outbounds" = some (.arr outbounds) := outbounds_base
    have hfield : Value.field (baseConfig input xrayRPCSocket capNetAdmin) "outbounds" =
        .arr outbounds := by simp only [Value.field, hout, Option.getD_some]
    have hne : ("outbounds" : String) ≠ "routing" := by decide
    simp only [eraseTorrent, h, if_true, rulesOf_generateAPIConfig h, eraseIdx_torrentRules]
    simp only [generateAPIConfig, h, if_true, hfield, arrayFrom_arr, Value.field_setField_self,
      Value.field_setField_of_ne _ hne, Value.field_setField_of_ne _ hne.symm, Value.asObject,
      Option.getD_some, List.dropLast_concat, Value.setField_below _ hne, Value.setField_setField,
      Value.setField_of_lookup _ hout, includeRules, rulesOf_base]

theorem attachesWebhook_eq (torrent : TorrentBlockerOptions) (item : Value) :
    attachesWebhook torrent item = item.asObject.any fun rule =>
      (Value.field rule "ruleTag").asString.getD "" ∈ torrent.tags := by
  unfold attachesWebhook TorrentBlockerOptions.tags
  cases torrent.enabled with
  | true => rfl
  | false => cases item.asObject <;> simp

theorem sameApartFromTorrent_of_tags {left right : TorrentBlockerOptions}
    (htags : ∀ tag, tag ∈ left.tags ↔ tag ∈ right.tags) (hpath : left.socketPath = right.socketPath) :
    SameApartFromTorrent left right := by
  intro input xrayRPCSocket capNetAdmin
  refine ⟨?_, ?_⟩
  · intro rule _
    simp only [attachesWebhook_eq, htags]
  · rw [eraseTorrent_generated, eraseTorrent_generated]
    simp only [includeRules, includeRule_congr htags, hpath]

end

end RemnanodeLite.Xray
