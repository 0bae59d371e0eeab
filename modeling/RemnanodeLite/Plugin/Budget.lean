import RemnanodeLite.Lib.NetipSize
import RemnanodeLite.Plugin.FilterEntries
import RemnanodeLite.Plugin.Service

/-! # The budgets of a plan are sufficient

What a plan may resolve, the number of prefixes after merging and the lengths of
their texts keep every script below the limit of the backend. -/

namespace RemnanodeLite.Plugin
open Json Netip

/-! ### Merging -/

/- Hypothesis on `netipx`: the set that is built consists of the maximal prefixes
of the union of what was added, each once. -/
def Codec.MaximalPrefixes (c : Codec) : Prop :=
  ∀ ps : List Prefix, (∀ p ∈ ps, p.bits ≤ p.addr.bitLen) → (c.ipSet ps).Nodup ∧
    ∀ q, q ∈ c.ipSet ps ↔ Laminar.MaximalIn Prefix.block Prefix.Canonical (blocks ps) q

section
variable {c : Codec} {ps : List Prefix} {items : List String}

theorem length_ipSet_le (hset : c.MaximalPrefixes) (hps : ∀ p ∈ ps, p.bits ≤ p.addr.bitLen) :
    (c.ipSet ps).length ≤ ps.length := by
  obtain ⟨hnodup, hmem⟩ := hset ps hps
  have hcanonical : ∀ p ∈ ps.map Prefix.masked, p.Canonical := by
    intro q hq
    obtain ⟨p, hp, rfl⟩ := List.mem_map.mp hq
    exact canonical_masked (hps p hp)
  have hmaximal : ∀ q ∈ c.ipSet ps, Laminar.MaximalIn Prefix.block Prefix.Canonical
      (Laminar.union Prefix.block (ps.map Prefix.masked)) q := by
    intro q hq
    rw [blocks_map_masked]
    exact (hmem q).mp hq
  have hle := Laminar.length_le_of_maximalIn prefixes_laminar hcanonical hnodup hmaximal
  rwa [List.length_map] at hle

theorem bits_of_mem_ipSet (hset : c.MaximalPrefixes) (hps : ∀ p ∈ ps, p.bits ≤ p.addr.bitLen) :
    ∀ q ∈ c.ipSet ps, q.bits ≤ q.addr.bitLen :=
  fun q hq => (((hset ps hps).2 q).mp hq).belongs.bits

theorem parsePrefix_bits {s : List Char} {p : Prefix} (h : parsePrefix s = some p) :
    p.bits ≤ p.addr.bitLen := by
  unfold parsePrefix at h
  split at h
  · cases h
  · split at h
    · split_ifs at h
      obtain ⟨bits, -, hbits⟩ := Option.bind_eq_some_iff.mp h
      split_ifs at hbits with hlong
      cases hbits
      exact Nat.le_of_not_lt hlong
    · cases h

theorem normalizeIPPrefix_bits {p : Prefix} (h : p.bits ≤ p.addr.bitLen) :
    (normalizeIPPrefix p).bits ≤ (normalizeIPPrefix p).addr.bitLen := by
  have hmasked : p.masked.bits ≤ p.masked.addr.bitLen := (canonical_masked h).bits
  unfold normalizeIPPrefix
  dsimp only
  split_ifs with hin
  · rw [Bool.and_eq_true] at hin
    have hunmapped : p.masked.bits - 96 ≤ p.masked.addr.unmap.bitLen := by
      cases haddr : p.masked.addr with
      | v4 a =>
        rw [haddr] at hin
        simp [Addr.is4In6] at hin
      | v6 a =>
        rw [haddr] at hin hmasked
        have hv4 : (Addr.v6 a).unmap.bitLen = 32 := by
          have hmapped : a >>> 32 = 0xffff#128 := by simpa [Addr.is4In6] using hin.1
          rw [Addr.unmap, if_pos hmapped]
          rfl
        have h128 : p.masked.bits ≤ 128 := hmasked
        rw [hv4]
        omega
    exact (canonical_masked hunmapped).bits
  · exact hmasked

theorem filterPrefix_bits {item : String} {p : Prefix} (h : filterPrefix item = some p) :
    p.bits ≤ p.addr.bitLen := by
  unfold filterPrefix at h
  dsimp only at h
  split_ifs at h
  split at h
  · rename_i q hq
    cases h
    exact normalizeIPPrefix_bits (parsePrefix_bits hq)
  · obtain ⟨a, -, rfl⟩ := Option.map_eq_some_iff.mp h
    exact Nat.le_refl _

def addedPrefixes (items : List String) (four : Bool) : List Prefix :=
  (items.filterMap filterPrefix).filter fun p => p.addr.is4 == four

theorem addedPrefixes_bits (items : List String) (four : Bool) :
    ∀ p ∈ addedPrefixes items four, p.bits ≤ p.addr.bitLen := by
  intro p hp
  obtain ⟨hmem, -⟩ := List.mem_filter.mp hp
  obtain ⟨item, -, hitem⟩ := List.mem_filterMap.mp hmem
  exact filterPrefix_bits hitem

theorem filterTexts_eq (family : Family) : filterTexts c family items =
    (c.ipSet (addedPrefixes items (family = .ip))).map Prefix.string := by
  cases family with
  | ip | ip6 => simp [filterTexts, normalizeFilterPrefixes, addedPrefixes]

theorem length_addedPrefixes (items : List String) :
    (addedPrefixes items true).length + (addedPrefixes items false).length ≤ items.length := by
  have hadded : (items.filterMap filterPrefix).length ≤ items.length := List.length_filterMap_le _ _
  have hsplit := List.length_eq_length_filter_add (l := items.filterMap filterPrefix)
    (fun p => p.addr.is4)
  simp only [addedPrefixes, beq_true, beq_false]
  omega

/-- Merging does not make the prefixes more. -/
theorem length_filterTexts (hset : c.MaximalPrefixes) (items : List String) :
    (filterTexts c .ip items).length + (filterTexts c .ip6 items).length ≤ items.length := by
  have h4 := length_ipSet_le hset (addedPrefixes_bits items true)
  have h6 := length_ipSet_le hset (addedPrefixes_bits items false)
  have hadded := length_addedPrefixes items
  rw [filterTexts_eq, filterTexts_eq, List.length_map, List.length_map]
  simp only [decide_true, reduceCtorEq, decide_false]
  omega

theorem size_filterTexts (hset : c.MaximalPrefixes) (items : List String) (family : Family) :
    ∀ text ∈ filterTexts c family items, text.utf8ByteSize ≤ 43 := by
  intro text htext
  rw [filterTexts_eq] at htext
  obtain ⟨p, hp, rfl⟩ := List.mem_map.mp htext
  exact utf8ByteSize_prefix (bits_of_mem_ipSet hset (addedPrefixes_bits items _) p hp)

end

/-! ### Resolving -/

section
variable {budget left : ℕ}

theorem resolveSection_budget {shared : SharedLists} {object : Option Object} {key : String}
    {resolved : List String} (h : resolveSection shared object key budget = .ok (resolved, left)) :
    resolved.length + left = budget := by
  cases object with
  | none =>
    obtain ⟨rfl, rfl⟩ := Prod.mk.inj (Except.ok.inj h)
    simp
  | some object => exact (resolveIPList_ok h).2

theorem length_toIntSlice {field : String} {raw : Value} (h : validatePortArray field raw = .ok ()) :
    (toIntSlice raw).length ≤ maxFilterItems := by
  unfold validatePortArray validateArray at h
  cases harray : raw.asArray with
  | none => simp [harray] at h
  | some items =>
    simp only [harray] at h
    have hlength := require_ok (andThen_ok h).1
    rw [toIntSlice, harray, Option.getD_some]
    exact (List.length_filterMap_le _ _).trans (by simpa using hlength)

theorem length_blockedPorts {parseURL : String → Option Url} {config : Object}
    (hvalid : validatePluginConfig parseURL config = .ok ()) :
    (((enabledSection config "egressFilter").map fun object =>
      toIntSlice (Value.field object "blockedPorts")).getD []).length ≤ maxFilterItems := by
  cases hsection : enabledSection config "egressFilter" with
  | none => simp
  | some object =>
    obtain ⟨raw, hraw, hobject⟩ := enabledSection_lookup hsection
    have hcheck : validateEgressFilterSection raw = .ok () :=
      validatePluginConfig_section parseURL hvalid (by simp [validators]) hraw
    have hports := (andThen_ok (andThen_ok (asSection_ok hcheck hobject)).2).2
    rw [Option.map_some, Option.getD_some]
    cases hlookup : object.lookup "blockedPorts" with
    | none => simp [Value.field, hlookup, toIntSlice, Value.asArray]
    | some ports =>
      simp only [whenPresent, hlookup] at hports
      have hfield : Value.field object "blockedPorts" = ports := by simp [Value.field, hlookup]
      rw [hfield]
      exact length_toIntSlice hports

end

structure FirewallConfig.Bounded (config : FirewallConfig) : Prop where
  ips : config.ingressIPs.length + config.egressIPs.length ≤ maxResolvedIPItems
  ports : config.egressPorts.length ≤ maxFilterItems

theorem plan_bounded {c : Codec} {request : SyncPlugin} {resolver : ASNResolver} {ready : Bool}
    {snapshot : PluginSnapshot} (h : buildPluginPlan c request resolver ready = .ok snapshot) :
    snapshot.firewall.Bounded := by
  obtain ⟨⟨config, configHash⟩, hdecode, h⟩ := Fallible.bind_ok_iff.mp h
  obtain ⟨-, hvalid⟩ := decodePluginConfig_ok hdecode
  obtain ⟨shared, -, h⟩ := Fallible.bind_ok_iff.mp h
  obtain ⟨⟨whitelist, budget₁⟩, hwhitelist, h⟩ := Fallible.bind_ok_iff.mp h
  obtain ⟨⟨ignored, budget₂⟩, hignored, h⟩ := Fallible.bind_ok_iff.mp h
  obtain ⟨⟨ingress, budget₃⟩, hingress, h⟩ := Fallible.bind_ok_iff.mp h
  obtain ⟨⟨egress, budget₄⟩, hegress, h⟩ := Fallible.bind_ok_iff.mp h
  cases h
  have h₁ := resolveSection_budget hwhitelist
  have h₂ := resolveSection_budget hignored
  have h₃ := resolveSection_budget hingress
  have h₄ := resolveSection_budget hegress
  exact ⟨by dsimp only; omega, length_blockedPorts hvalid⟩

/-! ### Sizes -/

def cost (elements : List String) : ℕ := (elements.map fun e => ", ".utf8ByteSize + e.utf8ByteSize).sum

section
variable {c : Codec} {config : FirewallConfig} {elements : List String}

theorem cost_le {k : ℕ} (h : ∀ e ∈ elements, e.utf8ByteSize ≤ k) :
    cost elements ≤ (k + 2) * elements.length := by
  induction elements with
  | nil => simp [cost]
  | cons e elements ih =>
    have he := h e List.mem_cons_self
    have hrest := ih fun e' he' => h e' (List.mem_cons_of_mem _ he')
    have hsep : ", ".utf8ByteSize = 2 := rfl
    simp only [cost, List.map_cons, List.sum_cons, List.length_cons, Nat.mul_add, Nat.mul_one] at hrest ⊢
    omega

theorem size_join_le : (Strings.join ", " elements).utf8ByteSize ≤ cost elements := by
  cases elements with
  | nil => exact Nat.zero_le _
  | cons e elements =>
    have hjoin : (Strings.join ", " ([e] ++ elements)).utf8ByteSize =
        (Strings.join ", " [e]).utf8ByteSize + cost elements :=
      Strings.utf8ByteSize_join_append (List.cons_ne_nil e []) elements
    rw [List.singleton_append] at hjoin
    rw [hjoin]
    simp only [Strings.join, cost, List.map_cons, List.sum_cons]
    omega

theorem size_frame_le (set : NftSet) : ("add element " ++ set.path ++ " \x7b ").utf8ByteSize ≤ 69 := by
  cases set <;> decide +kernel

theorem render_addElement (set : NftSet) (elements : List String) :
    (NftCommand.addElement set elements).render =
      "add element " ++ set.path ++ " \x7b " ++ Strings.join ", " elements ++ " \x7d" := rfl

theorem size_addElement_le (set : NftSet) (elements : List String) :
    "\n".utf8ByteSize + (NftCommand.addElement set elements).render.utf8ByteSize ≤ 72 + cost elements := by
  have hframe := size_frame_le set
  have hjoin : (Strings.join ", " elements).utf8ByteSize ≤ cost elements := size_join_le
  have hend : " \x7d".utf8ByteSize = 2 := by decide +kernel
  have hline : "\n".utf8ByteSize = 1 := by decide +kernel
  rw [render_addElement, String.utf8ByteSize_append, String.utf8ByteSize_append, hend, hline]
  generalize ("add element " ++ set.path ++ " \x7b ").utf8ByteSize = frame at hframe
  generalize (Strings.join ", " elements).utf8ByteSize = joined at hjoin
  omega

def lineCost (script : NftScript) : ℕ :=
  ((script.map NftCommand.render).map fun line => "\n".utf8ByteSize + line.utf8ByteSize).sum

theorem lineCost_appendElementCommand (set : NftSet) (elements : List String) :
    lineCost (appendElementCommand set elements) ≤ 72 + cost elements := by
  unfold appendElementCommand
  split_ifs
  · exact Nat.zero_le _
  · simpa [lineCost] using size_addElement_le set elements

theorem lineCost_append (x y : NftScript) : lineCost (x ++ y) = lineCost x + lineCost y := by
  simp [lineCost]

theorem lineCost_elementCommands (c : Codec) (config : FirewallConfig) : lineCost (elementCommands c config) ≤
    (NftSet.statics.map fun set => 72 + cost (staticElements c config set)).sum := by
  unfold elementCommands
  induction NftSet.statics with
  | nil => exact Nat.zero_le _
  | cons set sets ih =>
    have hset := lineCost_appendElementCommand set (staticElements c config set)
    rw [List.flatMap_cons, lineCost_append, List.map_cons, List.sum_cons]
    omega

theorem size_tables_le (options : NftOptions) :
    (NftScript.render [.createTables options]).utf8ByteSize ≤ 4096 := by
  obtain ⟨logging, acceptReplyTraffic⟩ := options
  cases logging <;> cases acceptReplyTraffic <;> decide +kernel

theorem size_renderNFTConfig (options : NftOptions) :
    (renderNFTConfig c config options).render.utf8ByteSize =
      (NftScript.render [.createTables options]).utf8ByteSize + lineCost (elementCommands c config) := by
  have hne : ([.createTables options] : NftScript) ≠ [] := List.cons_ne_nil _ _
  exact render_append_size hne (elementCommands c config)

theorem length_normalizedPorts (ports : List ℤ) : (normalizedPorts ports).length ≤ ports.length := by
  rw [normalizedPorts, List.length_insertionSort]
  exact (List.dedup_sublist _).length_le.trans (List.length_filter_le _ _)

theorem size_port (ports : List ℤ) :
    ∀ text ∈ (normalizedPorts ports).map toString, String.utf8ByteSize text ≤ 5 := by
  intro text htext
  obtain ⟨port, hport, rfl⟩ := List.mem_map.mp htext
  have hmem := List.mem_dedup.mp ((List.mem_insertionSort _).mp hport)
  obtain ⟨-, hrange⟩ := List.mem_filter.mp hmem
  simp only [Bool.and_eq_true, decide_eq_true_eq] at hrange
  obtain ⟨n, rfl⟩ := Int.eq_ofNat_of_zero_le (show 0 ≤ port by omega)
  exact utf8ByteSize_toString (by decide) (show n < 10 ^ 5 by omega)

theorem cost_statics_le (hset : c.MaximalPrefixes) (h : config.Bounded) :
    (NftSet.statics.map fun set => 72 + cost (staticElements c config set)).sum ≤
      432 + 45 * maxResolvedIPItems + 14 * maxFilterItems := by
  have hingress := length_filterTexts hset config.ingressIPs
  have hegress := length_filterTexts hset config.egressIPs
  have h₁ := cost_le (size_filterTexts hset config.ingressIPs .ip)
  have h₂ := cost_le (size_filterTexts hset config.ingressIPs .ip6)
  have h₃ := cost_le (size_filterTexts hset config.egressIPs .ip)
  have h₄ := cost_le (size_filterTexts hset config.egressIPs .ip6)
  have hports := cost_le (size_port config.egressPorts)
  have hcount := (length_normalizedPorts config.egressPorts).trans h.ports
  have hips := h.ips
  simp only [NftSet.statics, List.map_cons, List.map_nil, List.sum_cons, List.sum_nil, staticElements]
  rw [List.length_map] at hports
  omega

def NftSet.size : NftSet → ℕ
  | .torrentBlockerSet | .torrentBlockerSetV6 => maxDynamicNFTElements
  | .egressFilterPortSet | .egressFilterPortSetV6 => maxFilterItems
  | _ => maxResolvedIPItems

theorem renderSet_mem (options : NftOptions) (set : NftSet) :
    ∃ body, renderSet set body set.size ∈ tableLines options := by
  cases set with
  | torrentBlockerSet => exact ⟨_, List.mem_of_getElem? (i := 5) rfl⟩
  | ingressFilterIPSet => exact ⟨_, List.mem_of_getElem? (i := 6) rfl⟩
  | egressFilterIPSet => exact ⟨_, List.mem_of_getElem? (i := 7) rfl⟩
  | egressFilterPortSet => exact ⟨_, List.mem_of_getElem? (i := 8) rfl⟩
  | torrentBlockerSetV6 => exact ⟨_, List.mem_of_getElem? (i := 27) rfl⟩
  | ingressFilterIPSetV6 => exact ⟨_, List.mem_of_getElem? (i := 28) rfl⟩
  | egressFilterIPSetV6 => exact ⟨_, List.mem_of_getElem? (i := 29) rfl⟩
  | egressFilterPortSetV6 => exact ⟨_, List.mem_of_getElem? (i := 30) rfl⟩

theorem length_staticElements (hset : c.MaximalPrefixes) (h : config.Bounded) (set : NftSet) :
    (staticElements c config set).length ≤ set.size := by
  have hingress := length_filterTexts hset config.ingressIPs
  have hegress := length_filterTexts hset config.egressIPs
  have hcount := (length_normalizedPorts config.egressPorts).trans h.ports
  have hips := h.ips
  cases set with
  | torrentBlockerSet => exact Nat.zero_le _
  | torrentBlockerSetV6 => exact Nat.zero_le _
  | ingressFilterIPSet =>
    show (filterTexts c .ip config.ingressIPs).length ≤ maxResolvedIPItems
    omega
  | ingressFilterIPSetV6 =>
    show (filterTexts c .ip6 config.ingressIPs).length ≤ maxResolvedIPItems
    omega
  | egressFilterIPSet =>
    show (filterTexts c .ip config.egressIPs).length ≤ maxResolvedIPItems
    omega
  | egressFilterIPSetV6 =>
    show (filterTexts c .ip6 config.egressIPs).length ≤ maxResolvedIPItems
    omega
  | egressFilterPortSet | egressFilterPortSetV6 =>
    rw [staticElements, List.length_map]
    exact hcount

theorem mem_elementCommands {set : NftSet} (h : .addElement set elements ∈ elementCommands c config) :
    elements = staticElements c config set := by
  obtain ⟨set', -, hmem⟩ := List.mem_flatMap.mp h
  unfold appendElementCommand at hmem
  split_ifs at hmem
  · cases hmem
  · cases List.mem_singleton.mp hmem
    rfl

/- A bounded config can be rendered, and no set is larger than declared. -/
theorem fits_of_bounded (hset : c.MaximalPrefixes) (h : config.Bounded) (options : NftOptions) :
    (renderNFTConfig c config options).render.utf8ByteSize ≤ maxNFTScriptBytes := by
  have htables := size_tables_le options
  have hlines := (lineCost_elementCommands c config).trans (cost_statics_le hset h)
  rw [size_renderNFTConfig]
  calc (NftScript.render [.createTables options]).utf8ByteSize + lineCost (elementCommands c config)
      ≤ 4096 + (432 + 45 * maxResolvedIPItems + 14 * maxFilterItems) := Nat.add_le_add htables hlines
    _ ≤ maxNFTScriptBytes := by decide


end

/-- The scripts of an accepted plan are within the limit of the backend, also for
the rollback to it, and no set gets more elements than its table declares. -/
theorem plan_fits (c : Codec) (hset : c.MaximalPrefixes) (request : SyncPlugin) (resolver : ASNResolver)
    (ready : Bool) (snapshot : PluginSnapshot)
    (h : buildPluginPlan c request resolver ready = .ok snapshot) (options : NftOptions) :
    (renderNFTConfig c snapshot.firewall options).render.utf8ByteSize ≤ maxNFTScriptBytes ∧
    (renderNFTStaticUpdate c snapshot.firewall).render.utf8ByteSize ≤ maxNFTScriptBytes ∧
    (∀ set, ∃ body size, renderSet set body size ∈ tableLines options ∧
      ∀ elements, .addElement set elements ∈ renderNFTConfig c snapshot.firewall options ∨
        .addElement set elements ∈ renderNFTStaticUpdate c snapshot.firewall → elements.length ≤ size) ∧
    ∀ available, validateNFTScript (renderNFTConfig c
        (snapshotFirewall (some { snapshot with firewallReady := available })) options) = .ok () ∧
      validateNFTScript (renderNFTStaticUpdate c
        (snapshotFirewall (some { snapshot with firewallReady := available }))) = .ok () := by
  have hbounded := plan_bounded h
  have hfits := fits_of_bounded hset hbounded options
  refine ⟨hfits, (staticUpdate_size_le c _ options).trans hfits, fun set => ?_, fun available => ?_⟩
  · obtain ⟨body, hbody⟩ := renderSet_mem options set
    refine ⟨body, set.size, hbody, fun elements helements => ?_⟩
    have hmem : .addElement set elements ∈ elementCommands c snapshot.firewall := by
      rcases helements with helements | helements
      · rcases List.mem_cons.mp helements with heq | hmem
        · cases heq
        · exact hmem
      · rcases List.mem_append.mp helements with hflush | hmem
        · obtain ⟨set', -, heq⟩ := List.mem_map.mp hflush
          cases heq
        · exact hmem
    rw [mem_elementCommands hmem]
    exact length_staticElements hset hbounded set
  · have happlied : (snapshotFirewall (some { snapshot with firewallReady := available })).Bounded := by
      cases available with
      | true => exact hbounded
      | false => exact ⟨Nat.zero_le _, Nat.zero_le _⟩
    have hconfig := validateNFTScript_ok.mpr (fits_of_bounded hset happlied options)
    exact ⟨hconfig, validate_staticUpdate hconfig⟩

/-! ### A set builder -/

/- Sets that consist of the maximal prefixes of what was added. -/
noncomputable def maximalPrefixes (ps : List Prefix) : List Prefix :=
  ((finite_canonical.subset fun _ h => h.belongs :
    {q | Laminar.MaximalIn Prefix.block Prefix.Canonical (blocks ps) q}.Finite).toFinset).toList

noncomputable def mergingCodec (config : Object) : Codec :=
  { plainCodec config with ipSet := maximalPrefixes }

theorem mergingCodec_maximalPrefixes (config : Object) : (mergingCodec config).MaximalPrefixes := by
  intro ps _
  refine ⟨Finset.nodup_toList _, fun q => ?_⟩
  show q ∈ maximalPrefixes ps ↔ _
  rw [maximalPrefixes, Finset.mem_toList, Set.Finite.mem_toFinset]
  rfl

/-- The theorem for a config that blocks three prefixes. -/
theorem plan_fits_blocked :
    (renderNFTConfig (mergingCodec (blockedConfig privateNets)) (blockedSnapshot privateNets).firewall
      ⟨true, true⟩).render.utf8ByteSize ≤ maxNFTScriptBytes := by
  have hplan : buildPluginPlan (mergingCodec (blockedConfig privateNets))
      ⟨"uuid", "name", "config"⟩ none true = .ok (blockedSnapshot privateNets) := by
    decide +kernel
  exact (plan_fits _ (mergingCodec_maximalPrefixes _) _ none true _ hplan ⟨true, true⟩).1

end RemnanodeLite.Plugin
