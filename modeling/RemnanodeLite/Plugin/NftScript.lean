import Mathlib.Data.Finset.Lattice.Lemmas
import Mathlib.Data.List.Sort
import RemnanodeLite.Lib.NetipText
import RemnanodeLite.Plugin.Plan

/-! # nft scripts

`internal/plugin/nft_script.go` and the set names of `state.go` and
`ip_helpers.go`. A script is a list of commands with the text the code sends and
the effect on the sets of the two tables. -/

namespace RemnanodeLite.Plugin
open Netip

def tableName : String := "remnanode"
def tableNameV6 : String := "remnanode6"
def maxDynamicNFTElements : ℕ := 16384
def maxNFTBlockBatch : ℕ := 1024
def maxNFTUnblockBatch : ℕ := 128
def maxNFTScriptBytes : ℕ := 2097152

inductive Family where
  | ip
  | ip6
  deriving DecidableEq

def Family.text : Family → String
  | ip => "ip"
  | ip6 => "ip6"

def Family.table : Family → String
  | ip => tableName
  | ip6 => tableNameV6

inductive NftSet where
  | torrentBlockerSet
  | torrentBlockerSetV6
  | ingressFilterIPSet
  | ingressFilterIPSetV6
  | egressFilterIPSet
  | egressFilterIPSetV6
  | egressFilterPortSet
  | egressFilterPortSetV6
  deriving DecidableEq

namespace NftSet

def name : NftSet → String
  | torrentBlockerSet => "torrent-blocker"
  | torrentBlockerSetV6 => "torrent-blocker6"
  | ingressFilterIPSet => "ingress-filter-ip"
  | ingressFilterIPSetV6 => "ingress-filter-ip6"
  | egressFilterIPSet => "egress-filter-ip"
  | egressFilterIPSetV6 => "egress-filter-ip6"
  | egressFilterPortSet => "egress-filter-port"
  | egressFilterPortSetV6 => "egress-filter-port6"

def family : NftSet → Family
  | torrentBlockerSet | ingressFilterIPSet | egressFilterIPSet | egressFilterPortSet => .ip
  | torrentBlockerSetV6 | ingressFilterIPSetV6 | egressFilterIPSetV6 | egressFilterPortSetV6 => .ip6

/- The family, the table and the set as commands name them. -/
def path (set : NftSet) : String :=
  set.family.text ++ " " ++ set.family.table ++ " " ++ set.name

/- The sets a config fills, in the order of the commands. -/
def statics : List NftSet :=
  [ingressFilterIPSet, ingressFilterIPSetV6, egressFilterIPSet, egressFilterIPSetV6,
    egressFilterPortSet, egressFilterPortSetV6]

end NftSet

structure NftOptions where
  logging : Bool
  acceptReplyTraffic : Bool
  deriving DecidableEq

/-! ### The text of a table -/

def renderNFTIngressRules (addressFamily : Family) (options : NftOptions) (sets : List NftSet) :
    String :=
  let reply := if options.acceptReplyTraffic then ["ct direction reply accept"] else []
  let rules := sets.map fun set =>
    let logged := if options.logging then
      " log prefix " ++ Strings.quoteToASCII (set.name ++ ": ") else ""
    addressFamily.text ++ " saddr @" ++ set.name ++ logged ++ " drop"
  "\t\t" ++ Strings.join "\n\t\t" (reply ++ rules)

def renderSet (set : NftSet) (body : String) (size : ℕ) : String :=
  "\tset " ++ set.name ++ " \x7b " ++ body ++ " size " ++ toString size ++ "; \x7d"

def renderChain (hook rules : String) : List String :=
  ["\tchain " ++ hook ++ " \x7b",
    "\t\ttype filter hook " ++ hook ++ " priority -10; policy accept;", rules, "\t\x7d"]

/- One of the two tables of `renderNFTConfig`. -/
def renderTable (family : Family) (options : NftOptions) (torrent ingress egress port : NftSet)
    (address : String) : List String :=
  let rules := renderNFTIngressRules family options [ingress, torrent]
  let output := Strings.join "\n"
    ["\t\t" ++ family.text ++ " daddr @" ++ egress.name ++ " drop",
      "\t\ttcp dport @" ++ port.name ++ " drop", "\t\tudp dport @" ++ port.name ++ " drop"]
  ["table " ++ family.text ++ " " ++ family.table ++ " \x7b",
    renderSet torrent ("type " ++ address ++ "; flags timeout;") maxDynamicNFTElements,
    renderSet ingress ("type " ++ address ++ "; flags interval;") maxResolvedIPItems,
    renderSet egress ("type " ++ address ++ "; flags interval;") maxResolvedIPItems,
    renderSet port "type inet_service;" maxFilterItems, ""] ++
    renderChain "input" rules ++ [""] ++ renderChain "forward" rules ++ [""] ++
    renderChain "output" output ++ ["\x7d"]

def dropTables : List String :=
  ["add table ip " ++ tableName, "add table ip6 " ++ tableNameV6,
    "delete table ip " ++ tableName, "delete table ip6 " ++ tableNameV6]

def tableLines (options : NftOptions) : List String :=
  dropTables ++
    renderTable .ip options .torrentBlockerSet .ingressFilterIPSet .egressFilterIPSet
      .egressFilterPortSet "ipv4_addr" ++ [""] ++
    renderTable .ip6 options .torrentBlockerSetV6 .ingressFilterIPSetV6 .egressFilterIPSetV6
      .egressFilterPortSetV6 "ipv6_addr"

/-! ### Commands -/

inductive NftCommand where
  | createTables (options : NftOptions)
  | deleteTables
  | flushSet (set : NftSet)
  | addElement (set : NftSet) (elements : List String)
  | deleteElement (set : NftSet) (element : String)
  | listTable (family : Family)
  deriving DecidableEq

def NftCommand.render : NftCommand → String
  | createTables options => Strings.join "\n" (tableLines options)
  | deleteTables => "\n" ++ Strings.join "\n" dropTables ++ "\n"
  | flushSet set => "flush set " ++ set.path
  | addElement set elements =>
    "add element " ++ set.path ++ " \x7b " ++ Strings.join ", " elements ++ " \x7d"
  | deleteElement set element => "delete element " ++ set.path ++ " \x7b " ++ element ++ " \x7d"
  | listTable family => "list table " ++ family.text ++ " " ++ family.table

abbrev Kernel := NftSet → Finset String

def NftCommand.exec : NftCommand → Kernel → Kernel
  | createTables _, _ => fun _ => ∅
  | deleteTables, _ => fun _ => ∅
  | flushSet set, kernel => Function.update kernel set ∅
  | addElement set elements, kernel => Function.update kernel set (kernel set ∪ elements.toFinset)
  | deleteElement set element, kernel => Function.update kernel set ((kernel set).erase element)
  | listTable _, kernel => kernel

abbrev NftScript := List NftCommand

namespace NftScript

def render (script : NftScript) : String := Strings.join "\n" (script.map NftCommand.render)

/- A script is one transaction. -/
def exec (script : NftScript) (kernel : Kernel) : Kernel :=
  script.foldl (fun k command => command.exec k) kernel

end NftScript

def validateNFTScript (script : NftScript) : Check :=
  let size := script.render.utf8ByteSize
  require (size ≤ maxNFTScriptBytes) s!"nft script is {size} bytes; maximum is {maxNFTScriptBytes}"

def appendElementCommand (set : NftSet) (elements : List String) : NftScript :=
  if elements.isEmpty then [] else [.addElement set elements]

/-! ### Static filters -/

def normalizedPorts (ports : List ℤ) : List ℤ :=
  (ports.filter fun port => 1 ≤ port && port ≤ 65535).dedup.insertionSort (· ≤ ·)

/- `prefixStrings` of one family. -/
def filterTexts (c : Codec) (family : Family) (items : List String) : List String :=
  let normalized := normalizeFilterPrefixes c.ipSet items
  (match family with
    | .ip => normalized.1
    | .ip6 => normalized.2).map Prefix.string

def staticElements (c : Codec) (config : FirewallConfig) : NftSet → List String
  | .torrentBlockerSet | .torrentBlockerSetV6 => []
  | .ingressFilterIPSet => filterTexts c .ip config.ingressIPs
  | .ingressFilterIPSetV6 => filterTexts c .ip6 config.ingressIPs
  | .egressFilterIPSet => filterTexts c .ip config.egressIPs
  | .egressFilterIPSetV6 => filterTexts c .ip6 config.egressIPs
  | .egressFilterPortSet | .egressFilterPortSetV6 => (normalizedPorts config.egressPorts).map toString

def elementCommands (c : Codec) (config : FirewallConfig) : NftScript :=
  NftSet.statics.flatMap fun set => appendElementCommand set (staticElements c config set)

def renderNFTConfig (c : Codec) (config : FirewallConfig) (options : NftOptions) : NftScript :=
  .createTables options :: elementCommands c config

def renderNFTStaticUpdate (c : Codec) (config : FirewallConfig) : NftScript :=
  NftSet.statics.map .flushSet ++ elementCommands c config

/-! ### Dynamic blocks -/

/- `timeout` is missing if it is not a finite number. -/
structure BlockIP where
  ip : String
  timeout : Option ℚ
  deriving DecidableEq

def validateBlockMutation (items : List BlockIP) : Check :=
  andThen (validateArrayLength "ips" items.length maxNFTBlockBatch)
    (checkItems (fun i item =>
      andThen (validateStringLength s!"ips[{i}].ip" item.ip)
        (require (match item.timeout with
          | none => false
          | some timeout => 0 ≤ timeout)
          s!"ips[{i}].timeout must be a finite non-negative number of seconds")) 0 items)

def validateUnblockMutation (ips : List String) : Check :=
  andThen (validateArrayLength "ips" ips.length maxNFTUnblockBatch)
    (checkItems (fun i ip => validateStringLength s!"ips[{i}]" ip) 0 ips)

def parseBlockAddress (text : String) : Except String Addr :=
  match netParseIP (Strings.trimSpace text.toList) with
  | none =>
    let quoted := quotedForError text
    .error s!"invalid ip {quoted}"
  | some address => .ok address.unmap

/- The map from addresses to timeouts, by address; the last item counts. -/
def timedEntries (items : List (String × ℚ)) : List (String × ℚ) :=
  ((items.map Prod.fst).dedup.insertionSort (· ≤ ·)).map fun key =>
    (key, (items.reverse.lookup key).getD 0)

def timedElement (c : Codec) (entry : String × ℚ) : String :=
  if entry.2 = 0 then entry.1 else entry.1 ++ " timeout " ++ c.formatFloat entry.2 ++ "s"

def renderNFTBlock (c : Codec) (items : List BlockIP) : Except String NftScript := do
  validateBlockMutation items
  let addressed ← items.mapM fun item => do
    let address ← parseBlockAddress item.ip
    return (address, item.timeout.getD 0)
  let elements (is4 : Bool) := (timedEntries ((addressed.filter fun entry =>
    entry.1.is4 = is4).map fun entry => (entry.1.string, entry.2))).map (timedElement c)
  let script := appendElementCommand .torrentBlockerSet (elements true) ++
    appendElementCommand .torrentBlockerSetV6 (elements false)
  let size := NftScript.render script |>.utf8ByteSize
  require (size ≤ maxNFTScriptBytes)
    s!"nft block script is {size} bytes; maximum is {maxNFTScriptBytes}"
  return script

def renderNFTUnblock (ips : List String) : Except String (List NftScript) := do
  validateUnblockMutation ips
  let addresses ← ips.mapM parseBlockAddress
  let sorted (is4 : Bool) := ((addresses.filter fun a => a.is4 = is4).map
    Addr.string).dedup.insertionSort (· ≤ ·)
  let deletions (set : NftSet) (texts : List String) : List NftScript :=
    texts.map fun text => [.deleteElement set text]
  let commands := deletions .torrentBlockerSet (sorted true) ++
    deletions .ingressFilterIPSet (sorted true) ++
    deletions .torrentBlockerSetV6 (sorted false) ++
    deletions .ingressFilterIPSetV6 (sorted false)
  match commands.find? fun command => maxNFTScriptBytes < command.render.utf8ByteSize with
  | some command =>
    let size := command.render.utf8ByteSize
    throw s!"nft unblock command is {size} bytes; maximum is {maxNFTScriptBytes}"
  | none => return commands

def renderNFTStructureProbes : List NftScript := [[.listTable .ip], [.listTable .ip6]]

/-! ### What the scripts do -/

theorem NftScript.exec_append (xs ys : NftScript) (kernel : Kernel) :
    NftScript.exec (xs ++ ys) kernel = NftScript.exec ys (NftScript.exec xs kernel) :=
  List.foldl_append

theorem NftScript.exec_cons (command : NftCommand) (script : NftScript) (kernel : Kernel) :
    NftScript.exec (command :: script) kernel = NftScript.exec script (command.exec kernel) := rfl

theorem exec_appendElementCommand (set : NftSet) (elements : List String) (kernel : Kernel) :
    NftScript.exec (appendElementCommand set elements) kernel =
      Function.update kernel set (kernel set ∪ elements.toFinset) := by
  cases elements with
  | nil => simp [appendElementCommand, NftScript.exec]
  | cons e elements => rfl

theorem exec_flushSets (sets : List NftSet) (kernel : Kernel) (set : NftSet) :
    NftScript.exec (sets.map .flushSet) kernel set = if set ∈ sets then ∅ else kernel set := by
  induction sets generalizing kernel with
  | nil => rfl
  | cons first sets ih =>
    rw [List.map_cons, NftScript.exec_cons, ih]
    by_cases hset : set ∈ sets
    · simp [hset]
    · by_cases heq : set = first
      · simp [heq, NftCommand.exec]
      · simp [hset, heq, NftCommand.exec]

theorem exec_addElements (sets : List NftSet) (elements : NftSet → List String) (kernel : Kernel)
    (set : NftSet) :
    NftScript.exec (sets.flatMap fun set => appendElementCommand set (elements set)) kernel set =
      if set ∈ sets then kernel set ∪ (elements set).toFinset else kernel set := by
  induction sets generalizing kernel with
  | nil => rfl
  | cons first sets ih =>
    rw [List.flatMap_cons, NftScript.exec_append, exec_appendElementCommand, ih]
    by_cases heq : set = first
    · subst heq
      by_cases hset : set ∈ sets
      · simp [hset, Finset.union_assoc]
      · simp [hset]
    · by_cases hset : set ∈ sets
      · simp [hset, heq]
      · simp [hset, heq]

/- The static sets hold exactly what the config puts into them. -/
def StaticsAre (c : Codec) (config : FirewallConfig) (kernel : Kernel) : Prop :=
  ∀ set ∈ NftSet.statics, kernel set = (staticElements c config set).toFinset

theorem exec_renderNFTConfig (c : Codec) (config : FirewallConfig) (options : NftOptions)
    (kernel : Kernel) : StaticsAre c config ((renderNFTConfig c config options).exec kernel) := by
  intro set hset
  rw [renderNFTConfig, NftScript.exec_cons, elementCommands, exec_addElements, if_pos hset]
  simp [NftCommand.exec]

theorem exec_renderNFTStaticUpdate (c : Codec) (config : FirewallConfig) (kernel : Kernel) :
    StaticsAre c config ((renderNFTStaticUpdate c config).exec kernel) := by
  intro set hset
  rw [renderNFTStaticUpdate, NftScript.exec_append, elementCommands, exec_addElements,
    if_pos hset, exec_flushSets, if_pos hset, Finset.empty_union]

theorem renderNFTBlock_statics {c : Codec} {items : List BlockIP} {script : NftScript}
    (h : renderNFTBlock c items = .ok script) {config : FirewallConfig} {kernel : Kernel}
    (hstatic : StaticsAre c config kernel) : StaticsAre c config (script.exec kernel) := by
  obtain ⟨_, -, h⟩ := Fallible.bind_ok_iff.mp h
  obtain ⟨addressed, -, h⟩ := Fallible.bind_ok_iff.mp h
  obtain ⟨_, -, h⟩ := Fallible.bind_ok_iff.mp h
  obtain rfl := Except.ok.inj h
  intro set hset
  have h4 : set ≠ .torrentBlockerSet := by
    rintro rfl
    simp [NftSet.statics] at hset
  have h6 : set ≠ .torrentBlockerSetV6 := by
    rintro rfl
    simp [NftSet.statics] at hset
  rw [NftScript.exec_append, exec_appendElementCommand, exec_appendElementCommand,
    Function.update_of_ne h6, Function.update_of_ne h4]
  exact hstatic set hset

/-! ### Sizes -/

theorem render_append_size {x : NftScript} (h : x ≠ []) (ys : NftScript) :
    (NftScript.render (x ++ ys)).utf8ByteSize = x.render.utf8ByteSize +
      ((ys.map NftCommand.render).map fun y => "\n".utf8ByteSize + y.utf8ByteSize).sum := by
  rw [NftScript.render, List.map_append]
  exact Strings.utf8ByteSize_join_append (by simpa using h) _

theorem flushSets_size_le (options : NftOptions) :
    (NftScript.render (NftSet.statics.map .flushSet)).utf8ByteSize ≤
      (NftScript.render [.createTables options]).utf8ByteSize := by
  have hlines : tableLines options =
      (tableLines ⟨false, false⟩).take 9 ++ (tableLines options).drop 9 := by
    rw [← List.take_append_drop 9 (tableLines options)]
    rfl
  have hne : (tableLines ⟨false, false⟩).take 9 ≠ [] := List.cons_ne_nil _ _
  have hhead : (NftScript.render (NftSet.statics.map .flushSet)).utf8ByteSize ≤
      (Strings.join "\n" ((tableLines ⟨false, false⟩).take 9)).utf8ByteSize := by decide +kernel
  calc (NftScript.render (NftSet.statics.map .flushSet)).utf8ByteSize
      ≤ (Strings.join "\n" ((tableLines ⟨false, false⟩).take 9)).utf8ByteSize := hhead
    _ ≤ (Strings.join "\n" (tableLines options)).utf8ByteSize := by
      rw [hlines, Strings.utf8ByteSize_join_append hne]
      exact Nat.le_add_right _ _

/- A config that can be installed can be restored. -/
theorem staticUpdate_size_le (c : Codec) (config : FirewallConfig) (options : NftOptions) :
    (renderNFTStaticUpdate c config).render.utf8ByteSize ≤
      (renderNFTConfig c config options).render.utf8ByteSize := by
  have hflush := flushSets_size_le options
  have hupdate := render_append_size (x := NftSet.statics.map .flushSet)
    (by simp [NftSet.statics]) (elementCommands c config)
  have hconfig := render_append_size (x := [.createTables options]) (by simp)
    (elementCommands c config)
  rw [List.singleton_append] at hconfig
  rw [renderNFTStaticUpdate, renderNFTConfig, hupdate, hconfig]
  omega

theorem validateNFTScript_ok {script : NftScript} :
    validateNFTScript script = .ok () ↔ script.render.utf8ByteSize ≤ maxNFTScriptBytes := by
  unfold validateNFTScript require
  dsimp only
  split
  case isTrue h => exact ⟨fun _ => by simpa using h, fun _ => rfl⟩
  case isFalse h => exact ⟨fun h' => (nomatch h'), fun h' => absurd (by simpa using h') h⟩

theorem validate_staticUpdate {c : Codec} {config : FirewallConfig} {options : NftOptions}
    (h : validateNFTScript (renderNFTConfig c config options) = .ok ()) :
    validateNFTScript (renderNFTStaticUpdate c config) = .ok () := by
  rw [validateNFTScript_ok] at h ⊢
  exact (staticUpdate_size_le c config options).trans h

end RemnanodeLite.Plugin
