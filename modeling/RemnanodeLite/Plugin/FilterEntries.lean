import RemnanodeLite.Plugin.Plan

/-! # What the filter lists filter -/

namespace RemnanodeLite.Plugin
open Json Netip

/-! ### The meaning of an entry -/

/- What `net.ParseIP` or `net.ParseCIDR` reads from an item. -/
def readItem (item : String) : Option Prefix :=
  match netParseIP item.toList with
  | some a => some (.ofAddr a)
  | none => netParseCIDR item.toList

def denoted (item : String) : Set Addr := {a | ∃ p, readItem item = some p ∧ a ∈ p.unmapped.block}

/- The prefix length of the item starts with a zero. -/
def padded (item : String) : Bool := paddedBits item.toList

def asValues (resolver : ASNResolver) (raw : Value) : List String :=
  match resolver with
  | none => []
  | some prefixesByASN => (toASNSlice raw).flatMap fun asn =>
    (prefixesByASN asn).1 ++ (prefixesByASN asn).2

/- The values of one entry of `sharedLists`. -/
def listValues (resolver : ASNResolver) (entry : Object) : Option (List String) :=
  let entryType := (Value.field entry "type").asString.getD ""
  if entryType = "ipList" then some (toStringSlice (Value.field entry "items"))
  else if entryType = "asList" then some (asValues resolver (Value.field entry "items"))
  else none

/- What the entry says about the list called `name`. -/
def namedValues (resolver : ASNResolver) (name : String) (item : Value) : Option (List String) :=
  item.asObject.bind fun entry =>
    if (Value.field entry "name").asString.getD "" = name then listValues resolver entry else none

/- The shared list called `name`; of several the last one counts. -/
def sharedList (config : Object) (resolver : ASNResolver) (name : String) : Option (List String) :=
  ((Value.field config "sharedLists").asArray.getD []).reverse.findSome? (namedValues resolver name)

def expansion (config : Object) (resolver : ASNResolver) (item : String) : List String :=
  if isExt item then (sharedList config resolver item).getD [] else [item]

def denotes (config : Object) (resolver : ASNResolver) (item : String) : Set Addr :=
  {a | ∃ text ∈ expansion config resolver item, a ∈ denoted text}

/-! ### One text -/

theorem isSpace_of_addrChar {c : Char} (h : isAddrChar c = true) : Strings.isSpace c = false := by
  have hge : 46 ≤ c.toNat ∧ c.toNat ≤ 102 := by
    simp only [isAddrChar, isHexDigit, isDigit, Bool.or_eq_true, Bool.and_eq_true,
      decide_eq_true_eq] at h
    have hnat : ∀ a b : Char, a ≤ b ↔ a.toNat ≤ b.toNat := fun a b => Iff.rfl
    simp only [hnat] at h
    have h0 : '0'.toNat = 48 := rfl
    have h9 : '9'.toNat = 57 := rfl
    have ha : 'a'.toNat = 97 := rfl
    have hf : 'f'.toNat = 102 := rfl
    have hA : 'A'.toNat = 65 := rfl
    have hF : 'F'.toNat = 70 := rfl
    rw [h0, h9, ha, hf, hA, hF] at h
    rcases h with (((h | h) | h) | rfl) | rfl
    · omega
    · omega
    · omega
    · decide
    · decide
  simp only [Strings.isSpace, Bool.or_eq_false_iff, Bool.and_eq_false_iff, decide_eq_false_iff_not]
  omega

theorem isAddrChar_of_digit {c : Char} (h : isDigit c = true) : isAddrChar c = true :=
  isAddrChar_of_hex (by simp [isHexDigit, h])

variable {a : Addr} {item name : String} {c : Codec} {budget left i totalItems : ℕ}
  {resolved : List String} {raw : Value} {resolver : ASNResolver} {shared : SharedLists}
  {config object : Object}

theorem trim_plain {s : List Char} (h : netParseIP s = some a) :
    Strings.trimSpace s = s :=
  Strings.trimSpace_eq_self fun c hc => isSpace_of_addrChar (parseAddr_chars (netParseIP_iff.mp h) c hc)

theorem trim_cidr {s : List Char} {p : Prefix} (h : netParseCIDR s = some p) :
    Strings.trimSpace s = s := by
  obtain ⟨addr, mask, rfl, haddr, hmask, -⟩ := netParseCIDR_split h
  apply Strings.trimSpace_eq_self
  intro c hc
  rcases List.mem_append.mp hc with hc | hc
  · exact isSpace_of_addrChar (parseAddr_chars haddr c hc)
  · rcases List.mem_cons.mp hc with rfl | hc
    · decide
    · exact isSpace_of_addrChar (isAddrChar_of_digit ((parseDigits_digits hmask).2 c hc))

theorem unmapped_ofAddr (a : Addr) : (Prefix.ofAddr a).unmapped = .ofAddr a.unmap := by
  cases a with
  | v4 a => rfl
  | v6 a =>
    by_cases h : a >>> 32 = 0xffff#128
    · simp [Prefix.unmapped, Prefix.ofAddr, Addr.is4In6, Addr.unmap, Addr.bitLen, h]
    · simp [Prefix.unmapped, Prefix.ofAddr, Addr.is4In6, Addr.unmap, Addr.bitLen, h]

theorem filterPrefix_plain (h : netParseIP item.toList = some a) :
    filterPrefix item = some (.ofAddr a.unmap) := by
  have hne : item.toList.isEmpty = false := by
    cases hs : item.toList with
    | nil =>
      rw [hs] at h
      cases h
    | cons c s => rfl
  simp [filterPrefix, trim_plain h, hne, parsePrefix_of_netParseIP h, h]

theorem filterPrefix_cidr {p : Prefix} (h : netParseCIDR item.toList = some p) :
    filterPrefix item = if padded item then none else some (normalizeIPPrefix p) := by
  have hne : item.toList.isEmpty = false := by
    cases hs : item.toList with
    | nil =>
      rw [hs] at h
      cases h
    | cons c s => rfl
  simp only [filterPrefix, trim_cidr h, hne, parsePrefix_of_netParseCIDR h,
    netParseIP_of_netParseCIDR h, padded]
  by_cases hpad : paddedBits item.toList = true
  · simp [hpad]
  · simp [hpad]

theorem isSharedListItem_cases (h : isSharedListItem item = true) :
    (∃ a, netParseIP item.toList = some a) ∨ ∃ p, netParseCIDR item.toList = some p := by
  simp only [isSharedListItem, Bool.or_eq_true, isPlainIP, isIPv4CIDR, isIPv6CIDR] at h
  rcases h with (h | h) | h
  all_goals split at h
  case inl.inl.isFalse => exact Or.inl (Option.isSome_iff_exists.mp h)
  case inl.inr.isFalse => exact Or.inr (Option.isSome_iff_exists.mp h)
  case inr.isFalse => exact Or.inr (Option.isSome_iff_exists.mp h)
  all_goals cases h

theorem padded_of_plain (h : netParseIP item.toList = some a) :
    padded item = false := by
  have hslash := slash_notMem_addr (netParseIP_iff.mp h)
  rw [padded, paddedBits, cut_eq_none.mpr hslash]

/- An accepted text is dropped if its length is padded and otherwise adds exactly
the block it denotes. -/
theorem mem_filterPrefix (h : isSharedListItem item = true) (a : Addr) :
    (∃ p, filterPrefix item = some p ∧ a ∈ p.block) ↔ padded item = false ∧ a ∈ denoted item := by
  rcases isSharedListItem_cases h with ⟨b, hb⟩ | ⟨p, hp⟩
  · have hread : readItem item = some (.ofAddr b) := by simp [readItem, hb]
    simp [filterPrefix_plain hb, padded_of_plain hb, denoted, hread, unmapped_ofAddr]
  · have hread : readItem item = some p := by
      simp [readItem, netParseIP_of_netParseCIDR hp, hp]
    obtain ⟨-, -, -, -, -, hbits⟩ := netParseCIDR_split hp
    rw [filterPrefix_cidr hp]
    cases padded item with
    | true => simp
    | false => simp [denoted, hread, normalizeIPPrefix_block hbits]

/-! ### One list -/

/- Hypothesis on `netipx`: the set it builds is the union of what was added. -/
def Codec.ExactUnion (c : Codec) : Prop := ∀ ps, blocks (c.ipSet ps) = blocks ps

theorem blocks_filter_family (ps : List Prefix) :
    blocks (ps.filter fun p => p.addr.is4) ∪ blocks (ps.filter fun p => !p.addr.is4) =
      blocks ps := by
  ext a
  simp only [blocks, List.mem_filter, Set.mem_union, Set.mem_ofPred_eq]
  constructor
  · rintro (⟨p, hp, ha⟩ | ⟨p, hp, ha⟩)
    · exact ⟨p, hp.1, ha⟩
    · exact ⟨p, hp.1, ha⟩
  · rintro ⟨p, hp, ha⟩
    cases hfam : p.addr.is4 with
    | true => exact Or.inl ⟨p, ⟨hp, hfam⟩, ha⟩
    | false => exact Or.inr ⟨p, ⟨hp, by simp [hfam]⟩, ha⟩

theorem blocks_newIPMatcher (hset : c.ExactUnion) (texts : List String) :
    blocks (newIPMatcher c.ipSet texts).prefixes = blocks (texts.filterMap filterPrefix) := by
  simp only [newIPMatcher, normalizeFilterPrefixes, blocks_append]
  rw [hset, hset, blocks_filter_family]

/- The list filters what its unpadded texts denote. -/
theorem mem_blocks_newIPMatcher (hset : c.ExactUnion) {texts : List String}
    (htexts : ∀ text ∈ texts, isSharedListItem text = true) (a : Addr) :
    a ∈ blocks (newIPMatcher c.ipSet texts).prefixes ↔
      ∃ text ∈ texts, padded text = false ∧ a ∈ denoted text := by
  rw [blocks_newIPMatcher hset]
  simp only [blocks, List.mem_filterMap, Set.mem_ofPred_eq]
  constructor
  · rintro ⟨p, ⟨text, htext, hp⟩, ha⟩
    exact ⟨text, htext, (mem_filterPrefix (htexts text htext) a).mp ⟨p, hp, ha⟩⟩
  · rintro ⟨text, htext, hkept⟩
    obtain ⟨p, hp, ha⟩ := (mem_filterPrefix (htexts text htext) a).mpr hkept
    exact ⟨p, ⟨text, htext, hp⟩, ha⟩

/- Every address of a padded text is also in an unpadded one. -/
def PaddedCovered (texts : List String) : Prop :=
  ∀ text ∈ texts, padded text = true → ∀ a ∈ denoted text,
    ∃ other ∈ texts, padded other = false ∧ a ∈ denoted other

theorem blocks_eq_iff_covered (hset : c.ExactUnion) {texts : List String}
    (htexts : ∀ text ∈ texts, isSharedListItem text = true) :
    blocks (newIPMatcher c.ipSet texts).prefixes = {a | ∃ text ∈ texts, a ∈ denoted text} ↔
      PaddedCovered texts := by
  constructor
  · intro heq text htext _ a ha
    have hall : a ∈ {a | ∃ text ∈ texts, a ∈ denoted text} := ⟨text, htext, ha⟩
    rw [← heq] at hall
    exact (mem_blocks_newIPMatcher hset htexts a).mp hall
  · intro hcovered
    ext a
    rw [mem_blocks_newIPMatcher hset htexts a]
    constructor
    · rintro ⟨text, htext, -, ha⟩
      exact ⟨text, htext, ha⟩
    · rintro ⟨text, htext, ha⟩
      cases hpad : padded text with
      | false => exact ⟨text, htext, hpad, ha⟩
      | true => exact hcovered text htext hpad a ha

/-! ### Shared lists -/

theorem validateASNPrefixes_ok {prefixes : List String}
    (h : validateASNPrefixes prefixes = .ok ()) :
    ∀ value ∈ prefixes, isSharedListItem value = true := by
  intro value hvalue
  obtain ⟨_, hcheck⟩ := checkItems_ok h value hvalue
  exact require_ok (andThen_ok hcheck).2

theorem resolveASNs_ok {prefixesByASN : ℕ → List String × List String} {asns : List ℕ}
    (h : resolveASNs prefixesByASN asns budget = .ok (resolved, left)) :
    resolved = (asns.flatMap fun asn => (prefixesByASN asn).1 ++ (prefixesByASN asn).2) ∧
      ∀ value ∈ resolved, isSharedListItem value = true := by
  induction asns generalizing budget resolved left with
  | nil =>
    obtain ⟨rfl, -⟩ := Prod.mk.inj (Except.ok.inj h)
    simp
  | cons asn asns ih =>
    unfold resolveASNs at h
    dsimp only at h
    rw [List.flatMap_cons]
    split at h
    case isTrue hempty =>
      rw [Bool.and_eq_true, List.isEmpty_iff, List.isEmpty_iff] at hempty
      rw [hempty.1, hempty.2]
      exact ih h
    case isFalse =>
      obtain ⟨budget', -, h⟩ := Fallible.bind_ok_iff.mp h
      obtain ⟨u4, h4, h⟩ := Fallible.bind_ok_iff.mp h
      obtain ⟨u6, h6, h⟩ := Fallible.bind_ok_iff.mp h
      obtain ⟨⟨rest, budget''⟩, hrest, h⟩ := Fallible.bind_ok_iff.mp h
      obtain ⟨rfl, -⟩ := Prod.mk.inj (Except.ok.inj h)
      obtain ⟨heq, hvalid⟩ := ih hrest
      refine ⟨by rw [heq], fun value hvalue => ?_⟩
      rcases List.mem_append.mp hvalue with hvalue | hvalue
      · rcases List.mem_append.mp hvalue with hvalue | hvalue
        · exact validateASNPrefixes_ok h4 value hvalue
        · exact validateASNPrefixes_ok h6 value hvalue
      · exact hvalid value hvalue

theorem validateStringArrayLimit_ok {field : String} {itemCheck : String → Bool} {maximum : ℕ}
    (h : validateStringArrayLimit field raw itemCheck maximum = .ok ()) :
    ∀ value ∈ toStringSlice raw, itemCheck value = true := by
  unfold validateStringArrayLimit validateArray at h
  cases harr : raw.asArray with
  | none => simp [harr] at h
  | some items =>
    simp only [harr] at h
    intro value hvalue
    rw [toStringSlice, harr, Option.getD_some, List.mem_filterMap] at hvalue
    obtain ⟨item, hitem, hstr⟩ := hvalue
    obtain ⟨_, hcheck⟩ := checkItems_ok (andThen_ok h).2 item hitem
    simp only [hstr] at hcheck
    exact require_ok (andThen_ok hcheck).2

theorem validateSharedList_ipList {item : Value} {entry : Object}
    (h : validateSharedList i totalItems item = .ok ()) (hobj : item.asObject = some entry)
    (htype : (Value.field entry "type").asString.getD "" = "ipList") :
    ∀ value ∈ toStringSlice (Value.field entry "items"), isSharedListItem value = true := by
  unfold validateSharedList at h
  simp only [hobj] at h
  have hrest := (andThen_ok (andThen_ok h).2).2
  cases harr : (Value.field entry "items").asArray with
  | none => simp [harr] at hrest
  | some items =>
    simp only [harr, htype, if_true] at hrest
    have hstrings := validateStringArrayLimit_ok (andThen_ok (andThen_ok hrest).2).2
    have harr' : toStringSlice (Value.field entry "items") = toStringSlice (.arr items) := by
      rw [toStringSlice, harr]
      rfl
    rw [harr']
    exact hstrings

theorem resolveASList_ok (h : resolveASList raw resolver budget = .ok (resolved, left)) :
    resolved = asValues resolver raw ∧ ∀ value ∈ resolved, isSharedListItem value = true := by
  cases resolver with
  | none =>
    obtain ⟨rfl, -⟩ := Prod.mk.inj (Except.ok.inj h)
    simp [asValues]
  | some prefixesByASN => exact resolveASNs_ok h

def ValidLists (shared : SharedLists) : Prop :=
  ∀ entry ∈ shared, ∀ value ∈ entry.2, isSharedListItem value = true

theorem lookup_cons_name {key : String} {values : List String} {entry : Object}
    (hkey : (Value.field entry "name").asString.getD "" = key)
    (hvalues : listValues resolver entry = some values) {item : Value}
    (hobj : item.asObject = some entry) :
    List.lookup name ((key, values) :: shared) =
      (namedValues resolver name item).or (shared.lookup name) := by
  rw [namedValues, hobj, Option.bind_some, hkey, hvalues, List.lookup_cons]
  by_cases hname : name = key
  · simp [hname]
  · simp [beq_eq_false_iff_ne.mpr hname, Ne.symm hname]

theorem addSharedList_ok {shared' : SharedLists} {budget' : ℕ} {item : Value}
    (h : addSharedList resolver shared budget item = .ok (shared', budget'))
    (hvalid : validateSharedList i totalItems item = .ok ()) (hshared : ValidLists shared) :
    (∀ name, shared'.lookup name =
      (namedValues resolver name item).or (shared.lookup name)) ∧ ValidLists shared' := by
  unfold addSharedList at h
  cases hobj : item.asObject with
  | none =>
    simp only [hobj, Except.ok.injEq, Prod.mk.injEq] at h
    obtain ⟨rfl, -⟩ := h
    refine ⟨fun name => ?_, hshared⟩
    simp [namedValues, hobj]
  | some entry =>
    simp only [hobj] at h
    split at h
    case isTrue htype =>
      have hip := validateSharedList_ipList hvalid hobj htype
      split at h
      · cases h
      · obtain ⟨rfl, -⟩ := Prod.mk.inj (Except.ok.inj h)
        refine ⟨fun name => lookup_cons_name rfl (by simp [listValues, htype]) hobj, ?_⟩
        exact List.forall_mem_cons.mpr ⟨hip, hshared⟩
    case isFalse htype =>
      split at h
      case isTrue hasList =>
        split at h
        · cases h
        case h_2 resolved left hresolved =>
          obtain ⟨heq, hall⟩ := resolveASList_ok hresolved
          obtain ⟨rfl, -⟩ := Prod.mk.inj (Except.ok.inj h)
          have hvalues : listValues resolver entry = some resolved := by
            rw [listValues, if_neg htype, if_pos hasList, heq]
          refine ⟨fun name => lookup_cons_name rfl hvalues hobj, ?_⟩
          exact List.forall_mem_cons.mpr ⟨hall, hshared⟩
      case isFalse hasList =>
        obtain ⟨rfl, -⟩ := Prod.mk.inj (Except.ok.inj h)
        refine ⟨fun name => ?_, hshared⟩
        simp [namedValues, hobj, listValues, htype, hasList]

theorem addSharedLists_ok {items : List Value} {shared' : SharedLists}
    (h : addSharedLists resolver items shared budget = .ok shared')
    (hvalid : validateSharedListsFrom i totalItems items = .ok ()) (hshared : ValidLists shared) :
    (∀ name, shared'.lookup name =
      (items.reverse.findSome? (namedValues resolver name)).or (shared.lookup name)) ∧
      ValidLists shared' := by
  induction items generalizing shared budget i totalItems with
  | nil =>
    obtain rfl := Except.ok.inj h
    exact ⟨fun name => by simp, hshared⟩
  | cons item items ih =>
    unfold addSharedLists at h
    unfold validateSharedListsFrom at hvalid
    obtain ⟨hitem, hrest⟩ := andThen_ok hvalid
    split at h
    · cases h
    case h_2 shared₁ budget₁ hadd =>
      obtain ⟨hlook, hvalid₁⟩ := addSharedList_ok hadd hitem hshared
      obtain ⟨hlook', hvalid'⟩ := ih h hrest hvalid₁
      refine ⟨fun name => ?_, hvalid'⟩
      rw [hlook' name, hlook name, List.reverse_cons, List.findSome?_append]
      simp [Option.or_assoc]

theorem buildSharedIPMap_ok {parseURL : String → Option Url}
    (hvalid : validatePluginConfig parseURL config = .ok ())
    (h : buildSharedIPMap config resolver = .ok shared) :
    (∀ name, shared.lookup name = sharedList config resolver name) ∧ ValidLists shared := by
  have hfrom : validateSharedListsFrom 0 0
      ((Value.field config "sharedLists").asArray.getD []) = .ok () := by
    cases hraw : config.lookup "sharedLists" with
    | none => simp [Value.field, hraw, Value.asArray, validateSharedListsFrom]
    | some raw =>
      have hlists : validateSharedLists raw = .ok () :=
        validatePluginConfig_section parseURL hvalid (by simp [validators]) hraw
      have hfield : Value.field config "sharedLists" = raw := by simp [Value.field, hraw]
      unfold validateSharedLists at hlists
      cases harr : raw.asArray with
      | none => simp [harr] at hlists
      | some lists =>
        simp only [harr] at hlists
        rw [hfield, harr, Option.getD_some]
        exact (andThen_ok hlists).2
  obtain ⟨hlook, hlists⟩ := addSharedLists_ok h hfrom fun _ hmem => by cases hmem
  refine ⟨fun name => ?_, hlists⟩
  rw [hlook name, sharedList]
  simp

theorem mem_of_lookup {values : List String} (h : shared.lookup name = some values) :
    (name, values) ∈ shared := by
  induction shared with
  | nil => cases h
  | cons entry shared ih =>
    rw [List.lookup_cons] at h
    split at h
    case h_1 hname =>
      obtain rfl := beq_iff_eq.mp hname
      obtain rfl := Option.some.inj h
      exact List.mem_cons_self
    case h_2 => exact List.mem_cons_of_mem _ (ih h)

theorem consume_add {remaining count : ℕ} (h : consume remaining count = .ok left) :
    count + left = remaining := by
  unfold consume at h
  split_ifs at h with hless
  cases h
  omega

theorem resolveIPList_ok {items : List String}
    (h : resolveIPList shared items budget = .ok (resolved, left)) :
    (resolved = items.flatMap fun item =>
      if isExt item then (shared.lookup item).getD [] else [item]) ∧
      resolved.length + left = budget := by
  induction items generalizing budget resolved left with
  | nil =>
    obtain ⟨rfl, rfl⟩ := Prod.mk.inj (Except.ok.inj h)
    exact ⟨rfl, Nat.zero_add _⟩
  | cons item items ih =>
    unfold resolveIPList at h
    rw [List.flatMap_cons]
    split at h
    case isTrue hext =>
      rw [if_pos hext]
      split at h
      case h_1 hlook =>
        rw [hlook]
        exact ih h
      case h_2 values hlook =>
        split at h
        · cases h
        case h_2 budget' hconsume =>
          split at h
          · cases h
          case h_2 rest left' hrest =>
            obtain ⟨rfl, rfl⟩ := Prod.mk.inj (Except.ok.inj h)
            obtain ⟨hitems, hleft⟩ := ih hrest
            rw [List.length_append, Nat.add_assoc, hleft, hitems, hlook, Option.getD_some]
            exact ⟨rfl, consume_add hconsume⟩
    case isFalse hext =>
      rw [if_neg hext]
      split at h
      · cases h
      case h_2 budget' hconsume =>
        split at h
        · cases h
        case h_2 rest left' hrest =>
          obtain ⟨rfl, rfl⟩ := Prod.mk.inj (Except.ok.inj h)
          obtain ⟨hitems, hleft⟩ := ih hrest
          rw [List.length_cons, Nat.add_right_comm, hleft, Nat.add_comm, hitems]
          exact ⟨rfl, consume_add hconsume⟩

/-! ### The four lists of a config -/

inductive FilterList where
  | ingress
  | egress
  | whitelist
  | torrentIgnore

def FilterList.sectionOf (config : Object) : FilterList → Option Object
  | ingress => enabledSection config "ingressFilter"
  | egress => enabledSection config "egressFilter"
  | whitelist => enabledSection config "connectionDrop"
  | torrentIgnore => ignoreSection config

def FilterList.key : FilterList → String
  | ingress => "blockedIps"
  | egress => "blockedIps"
  | whitelist => "whitelistIps"
  | torrentIgnore => "ip"

def FilterList.items (config : Object) (l : FilterList) : Option (List String) :=
  (l.sectionOf config).map fun object => toStringSlice (Value.field object l.key)

def FilterList.produced (c : Codec) (snapshot : PluginSnapshot) : FilterList → List Prefix
  | ingress => (newIPMatcher c.ipSet snapshot.firewall.ingressIPs).prefixes
  | egress => (newIPMatcher c.ipSet snapshot.firewall.egressIPs).prefixes
  | whitelist => snapshot.whitelistIPs.prefixes
  | torrentIgnore => snapshot.torrent.ignoredIPs.prefixes

theorem enabledSection_lookup (h : enabledSection config name = some object) :
    ∃ raw, config.lookup name = some raw ∧ raw.asObject = some object := by
  have hobj : (Value.field config name).asObject = some object := (Option.filter_eq_some_iff.mp h).1
  cases hraw : config.lookup name with
  | none => simp [Value.field, hraw, Value.asObject] at hobj
  | some raw => exact ⟨raw, rfl, by simpa [Value.field, hraw] using hobj⟩

theorem asSection_ok {check : Object → Check} (h : asSection name raw check = .ok ())
    (hobj : raw.asObject = some object) :
    check object = .ok () := by
  simpa [asSection, hobj] using h

theorem whenPresent_strings {key field : String} {itemCheck : String → Bool} {maximum : ℕ}
    (h : whenPresent object key (fun raw =>
      validateStringArrayLimit field raw itemCheck maximum) = .ok ()) :
    ∀ item ∈ toStringSlice (Value.field object key), itemCheck item = true := by
  cases hraw : object.lookup key with
  | none => simp [Value.field, hraw, toStringSlice, Value.asArray]
  | some raw =>
    simp only [whenPresent, hraw] at h
    have hfield : Value.field object key = raw := by simp [Value.field, hraw]
    rw [hfield]
    exact validateStringArrayLimit_ok h

theorem isIPCidrOrExt_item (h : isIPCidrOrExt item = true) (hext : isExt item = false) :
    isSharedListItem item = true := by
  simpa [isIPCidrOrExt, hext] using h

theorem isIPOrExt_item (h : isIPOrExt item = true) (hext : isExt item = false) :
    isSharedListItem item = true := by
  have hplain : isPlainIP item = true := by simpa [isIPOrExt, hext] using h
  simp [isSharedListItem, hplain]

theorem FilterList.items_valid {parseURL : String → Option Url}
    (hvalid : validatePluginConfig parseURL config = .ok ()) {l : FilterList} {items : List String}
    (hitems : l.items config = some items) :
    ∀ item ∈ items, isExt item = false → isSharedListItem item = true := by
  obtain ⟨object, hsection, rfl⟩ := Option.map_eq_some_iff.mp hitems
  intro item hitem hext
  cases l with
  | ingress =>
    obtain ⟨raw, hraw, hobj⟩ := enabledSection_lookup hsection
    have hcheck : validateIngressFilterSection raw = .ok () :=
      validatePluginConfig_section parseURL hvalid (by simp [validators]) hraw
    have hstrings := (andThen_ok (asSection_ok hcheck hobj)).2
    exact isIPCidrOrExt_item (validateStringArrayLimit_ok hstrings item hitem) hext
  | egress =>
    obtain ⟨raw, hraw, hobj⟩ := enabledSection_lookup hsection
    have hcheck : validateEgressFilterSection raw = .ok () :=
      validatePluginConfig_section parseURL hvalid (by simp [validators]) hraw
    have hstrings := (andThen_ok (andThen_ok (asSection_ok hcheck hobj)).2).1
    exact isIPCidrOrExt_item (whenPresent_strings hstrings item hitem) hext
  | whitelist =>
    obtain ⟨raw, hraw, hobj⟩ := enabledSection_lookup hsection
    have hcheck : validateConnectionDropSection raw = .ok () :=
      validatePluginConfig_section parseURL hvalid (by simp [validators]) hraw
    have hstrings := (andThen_ok (asSection_ok hcheck hobj)).2
    exact isIPOrExt_item (validateStringArrayLimit_ok hstrings item hitem) hext
  | torrentIgnore =>
    obtain ⟨blocker, hblocker, hignore⟩ := Option.bind_eq_some_iff.mp hsection
    obtain ⟨raw, hraw, hobj⟩ := enabledSection_lookup hblocker
    have hcheck : validateTorrentBlockerSection parseURL raw = .ok () :=
      validatePluginConfig_section parseURL hvalid (by simp [validators]) hraw
    have hrest := (andThen_ok (andThen_ok (asSection_ok hcheck hobj)).2).2
    cases hlook : blocker.lookup "ignoreLists" with
    | none => simp [Value.field, hlook, Value.asObject] at hignore
    | some ignoreRaw =>
      simp only [hlook] at hrest
      have hobj' : ignoreRaw.asObject = some object := by simpa [Value.field, hlook] using hignore
      have hstrings := (andThen_ok (asSection_ok hrest hobj')).1
      exact isIPOrExt_item (whenPresent_strings hstrings item hitem) hext

theorem plan_produced {request : SyncPlugin} {configHash : String} {firewallAvailable : Bool}
    {snapshot : PluginSnapshot}
    (h : buildPluginPlanFromConfig c request config configHash resolver firewallAvailable =
      .ok snapshot)
    {l : FilterList} {items : List String} (hitems : l.items config = some items) :
    ∃ shared, buildSharedIPMap config resolver = .ok shared ∧
      l.produced c snapshot = (newIPMatcher c.ipSet (items.flatMap fun item =>
        if isExt item then (shared.lookup item).getD [] else [item])).prefixes := by
  obtain ⟨shared, hshared, h⟩ := Fallible.bind_ok_iff.mp h
  obtain ⟨⟨whitelist, budget₁⟩, hwhitelist, h⟩ := Fallible.bind_ok_iff.mp h
  obtain ⟨⟨ignored, budget₂⟩, hignored, h⟩ := Fallible.bind_ok_iff.mp h
  obtain ⟨⟨ingress, budget₃⟩, hingress, h⟩ := Fallible.bind_ok_iff.mp h
  obtain ⟨⟨egress, budget₄⟩, hegress, h⟩ := Fallible.bind_ok_iff.mp h
  obtain rfl := Except.ok.inj h
  refine ⟨shared, hshared, ?_⟩
  obtain ⟨object, hsection, rfl⟩ := Option.map_eq_some_iff.mp hitems
  cases l with
  | ingress =>
    have hsec : enabledSection config "ingressFilter" = some object := hsection
    simp only [resolveSection, hsec] at hingress
    simp only [FilterList.produced, FilterList.key, (resolveIPList_ok hingress).1]
  | egress =>
    have hsec : enabledSection config "egressFilter" = some object := hsection
    simp only [resolveSection, hsec] at hegress
    simp only [FilterList.produced, FilterList.key, (resolveIPList_ok hegress).1]
  | whitelist =>
    have hsec : enabledSection config "connectionDrop" = some object := hsection
    simp only [resolveSection, hsec] at hwhitelist
    simp only [FilterList.produced, FilterList.key, (resolveIPList_ok hwhitelist).1, hsec,
      Option.isSome_some, if_true]
  | torrentIgnore =>
    have hsec : ignoreSection config = some object := hsection
    simp only [resolveSection, hsec] at hignored
    obtain ⟨blocker, hblocker, hignore⟩ := Option.bind_eq_some_iff.mp hsection
    obtain ⟨hobj, henabled⟩ := Option.filter_eq_some_iff.mp hblocker
    simp only [FilterList.produced, FilterList.key, (resolveIPList_ok hignored).1, buildTorrent, hobj,
      henabled, hignore, Option.isSome_some, if_true]

theorem flatMap_valid (hshared : ValidLists shared) {items : List String}
    (hitems : ∀ item ∈ items, isExt item = false → isSharedListItem item = true) :
    ∀ text ∈ items.flatMap fun item =>
      if isExt item then (shared.lookup item).getD [] else [item],
      isSharedListItem text = true := by
  intro text htext
  obtain ⟨item, hitem, htext⟩ := List.mem_flatMap.mp htext
  cases hext : isExt item with
  | true =>
    simp only [hext, if_true] at htext
    cases hlook : shared.lookup item with
    | none => simp [hlook] at htext
    | some values =>
      rw [hlook, Option.getD_some] at htext
      exact hshared _ (mem_of_lookup hlook) text htext
  | false =>
    simp only [hext, Bool.false_eq_true, if_false, List.mem_singleton] at htext
    exact htext ▸ hitems item hitem hext

theorem decodePluginConfig_ok {request : SyncPlugin} {configHash : String}
    (h : decodePluginConfig c request = .ok (config, configHash)) :
    c.unmarshal request.config = .ok (some config) ∧
      validatePluginConfig c.parseURL config = .ok () := by
  obtain ⟨_, -, h⟩ := Fallible.bind_ok_iff.mp h
  obtain ⟨hash, -, h⟩ := Fallible.bind_ok_iff.mp h
  cases hdecoded : c.unmarshal request.config with
  | error message => simp [hdecoded, throw, throwThe, MonadExceptOf.throw] at h
  | ok decoded =>
    cases decoded with
    | none => simp [hdecoded, throw, throwThe, MonadExceptOf.throw] at h
    | some config' =>
      simp only [hdecoded] at h
      obtain ⟨u, hvalid, h⟩ := Fallible.bind_ok_iff.mp h
      obtain ⟨rfl, -⟩ := Prod.mk.inj (Except.ok.inj h)
      exact ⟨rfl, hvalid⟩

/-- Of a config that is accepted and planned, each enabled list filters exactly
what its items denote if and only if every address of a prefix whose length is
written with a leading zero is also denoted by an item without one. -/
theorem filter_entries_kept_iff (c : Codec) (hset : c.ExactUnion) (request : SyncPlugin)
    (config : Object) (hconfig : c.unmarshal request.config = .ok (some config))
    (resolver : ASNResolver) (firewallAvailable : Bool) (snapshot : PluginSnapshot)
    (h : buildPluginPlan c request resolver firewallAvailable = .ok snapshot)
    (l : FilterList) (items : List String) (hitems : l.items config = some items) :
    blocks (l.produced c snapshot) = {a | ∃ item ∈ items, a ∈ denotes config resolver item} ↔
      PaddedCovered (items.flatMap (expansion config resolver)) := by
  obtain ⟨⟨config', configHash⟩, hdecode, h⟩ := Fallible.bind_ok_iff.mp h
  obtain ⟨hconfig', hvalid⟩ := decodePluginConfig_ok hdecode
  obtain rfl : config' = config := by
    rw [hconfig] at hconfig'
    exact (Option.some.inj (Except.ok.inj hconfig')).symm
  obtain ⟨shared, hshared, hproduced⟩ := plan_produced h hitems
  obtain ⟨hlook, hlists⟩ := buildSharedIPMap_ok hvalid hshared
  have hexpand : (fun item => if isExt item then (shared.lookup item).getD [] else [item]) =
      expansion config' resolver := by
    funext item
    rw [hlook item, expansion]
  have htexts := flatMap_valid hlists (FilterList.items_valid hvalid hitems)
  rw [hexpand] at hproduced htexts
  rw [hproduced, ← blocks_eq_iff_covered hset htexts]
  have hmeaning : {a | ∃ item ∈ items, a ∈ denotes config' resolver item} =
      {a | ∃ text ∈ items.flatMap (expansion config' resolver), a ∈ denoted text} := by
    ext a
    simp only [denotes, Set.mem_ofPred_eq, List.mem_flatMap]
    constructor
    · rintro ⟨item, hitem, text, htext, ha⟩
      exact ⟨text, ⟨item, hitem, htext⟩, ha⟩
    · rintro ⟨text, ⟨item, hitem, htext⟩, ha⟩
      exact ⟨item, hitem, text, htext, ha⟩
  rw [hmeaning]

/- A config that blocks these items, and what is planned for it by a codec that
keeps the prefixes as they are. -/
def blockedConfig (items : List String) : Object :=
  [("ingressFilter", .obj [("enabled", .bool true), ("blockedIps", .arr (items.map .str))])]

def plainCodec (config : Object) : Codec where
  sha256 := id
  hashPluginConfig := .ok
  unmarshal := fun _ => .ok (some config)
  marshalStrings := String.join
  parseURL := fun _ => none
  ipSet := id
  formatFloat := fun q => toString q.num

def blockedSnapshot (items : List String) : PluginSnapshot where
  configHash := "config"
  sourceHash := "config"
  pluginUUID := "uuid"
  pluginName := "name"
  firewallReady := true
  whitelistIPs := ⟨[]⟩
  torrent := ⟨false, 0, "", [], 0, ⟨[]⟩, ∅⟩
  preStart := ⟨false, false, []⟩
  postStart := ⟨false, false, ""⟩
  firewall := ⟨items, [], []⟩

theorem plainCodec_exactUnion (config : Object) : (plainCodec config).ExactUnion := fun _ => rfl

def privateNets : List String := ["10.0.0.0/8", "192.168.0.0/16", "fd00::/8"]

theorem filter_entries_kept_iff_unpadded :
    blocks (FilterList.ingress.produced (plainCodec (blockedConfig privateNets))
      (blockedSnapshot privateNets)) =
      {a | ∃ item ∈ privateNets, a ∈ denotes (blockedConfig privateNets) none item} := by
  have hplan : buildPluginPlan (plainCodec (blockedConfig privateNets))
      ⟨"uuid", "name", "config"⟩ none true = .ok (blockedSnapshot privateNets) := by
    decide +kernel
  have hunpadded : ∀ item ∈ privateNets, isExt item = false ∧ padded item = false := by decide
  apply (filter_entries_kept_iff _ (plainCodec_exactUnion _) _ _ rfl none true _ hplan .ingress
    privateNets rfl).mpr
  intro text htext hpadded
  obtain ⟨item, hitem, hmem⟩ := List.mem_flatMap.mp htext
  obtain ⟨hext, hpad⟩ := hunpadded item hitem
  obtain rfl : text = item := by simpa [expansion, hext] using hmem
  rw [hpad] at hpadded
  cases hpadded

/-- The accepted item `10.0.0.0/08` denotes the addresses of `10.0.0.0/8`, and
nothing is blocked for it. -/
theorem padded_item_is_dropped :
    (plainCodec (blockedConfig ["10.0.0.0/08"])).ExactUnion ∧
    validatePluginConfig (fun _ => none) (blockedConfig ["10.0.0.0/08"]) = .ok () ∧
    buildPluginPlan (plainCodec (blockedConfig ["10.0.0.0/08"])) ⟨"uuid", "name", "config"⟩ none true =
      .ok (blockedSnapshot ["10.0.0.0/08"]) ∧
    FilterList.ingress.items (blockedConfig ["10.0.0.0/08"]) = some ["10.0.0.0/08"] ∧
    .v4 0x0a010203#32 ∈ denotes (blockedConfig ["10.0.0.0/08"]) none "10.0.0.0/08" ∧
    .v4 0x0a010203#32 ∉ blocks (FilterList.ingress.produced
      (plainCodec (blockedConfig ["10.0.0.0/08"])) (blockedSnapshot ["10.0.0.0/08"])) := by
  have hread : readItem "10.0.0.0/08" = some ⟨.v4 0x0a000000#32, 8⟩ := by decide
  have hext : isExt "10.0.0.0/08" = false := by decide
  have hmem : .v4 0x0a010203#32 ∈ denotes (blockedConfig ["10.0.0.0/08"]) none "10.0.0.0/08" := by
    refine ⟨"10.0.0.0/08", by simp [expansion, hext], _, hread, ?_⟩
    have hin : Prefix.contains (Prefix.unmapped ⟨.v4 0x0a000000#32, 8⟩) (.v4 0x0a010203#32) := by
      decide
    exact hin
  have hnone : FilterList.ingress.produced (plainCodec (blockedConfig ["10.0.0.0/08"]))
      (blockedSnapshot ["10.0.0.0/08"]) = [] := by decide +kernel
  refine ⟨plainCodec_exactUnion _, by decide +kernel, by decide +kernel, rfl, hmem, ?_⟩
  rw [hnone]
  simp [blocks]

end RemnanodeLite.Plugin
