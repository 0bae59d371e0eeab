import RemnanodeLite.Lib.NetipRoundTrip
import RemnanodeLite.Lib.Strconv
import RemnanodeLite.Plugin.RunningCore

/-! # Snapshots that behave alike

`pluginSnapshotsBehaviorEqual` compares printed prefixes, a hash of the sorted tags and
merged filters. Each consumer of a snapshot reads no more than that. -/

namespace RemnanodeLite.Plugin
open Netip
variable {c : Codec} {left right : PluginSnapshot}

/- `State.IsWhitelisted`. -/
def isWhitelisted (active : Option PluginSnapshot) (ip : String) : Bool :=
  match active with
  | none => false
  | some snapshot => snapshot.whitelistIPs.contains ip

/-! ### A prefix is known from its text -/

theorem bits_of_text (address : List Char) (n : ℕ) :
    ((address ++ '/' :: Nat.toDigits 10 n).reverse.takeWhile (· ≠ '/')).reverse =
      Nat.toDigits 10 n := by
  have hdigits : ∀ d ∈ (Nat.toDigits 10 n).reverse, decide (d ≠ '/') = true := by
    intro d hd
    have hdigit := isDigit_toDigits d (List.mem_reverse.mp hd)
    rw [decide_eq_true_eq]
    rintro rfl
    exact absurd hdigit (by decide)
  rw [List.reverse_append, List.reverse_cons, List.append_assoc,
    List.takeWhile_append_of_pos hdigits]
  simp

theorem prefix_string_injective : Function.Injective Prefix.string := by
  intro p q h
  have htexts : p.addr.string.toList ++ '/' :: Nat.toDigits 10 p.bits =
      q.addr.string.toList ++ '/' :: Nat.toDigits 10 q.bits := by
    have hlist := congrArg String.toList h
    simpa [Prefix.string, Nat.toString_eq_ofList_toDigits] using hlist
  have hdigits : Nat.toDigits 10 p.bits = Nat.toDigits 10 q.bits := by
    rw [← bits_of_text p.addr.string.toList, htexts, bits_of_text]
  have haddr : p.addr = q.addr := by
    rw [hdigits] at htexts
    exact string_injective (String.toList_inj.mp (List.append_cancel_right htexts))
  have hbits : p.bits = q.bits := by
    have hvalue := congrArg Strconv.unsigned hdigits
    rw [Strconv.unsigned_toDigits, Strconv.unsigned_toDigits] at hvalue
    exact Option.some.inj hvalue
  cases p
  cases q
  cases haddr
  cases hbits
  rfl

theorem prefixes_of_equal {m other : IpMatcher} (h : m.equal other = true) : m = other := by
  have hprefixes : m.prefixes = other.prefixes :=
    List.map_injective_iff.mpr prefix_string_injective (of_decide_eq_true h)
  cases m
  cases other
  cases hprefixes
  rfl

/-! ### The consumers -/

/-- Whoever reads a snapshot cannot tell the one from the other. -/
structure Interchangeable (c : Codec) (left right : PluginSnapshot) : Prop where
  config : ∀ options, (renderNFTConfig c left.firewall options).render =
    (renderNFTConfig c right.firewall options).render
  update : (renderNFTStaticUpdate c left.firewall).render =
    (renderNFTStaticUpdate c right.firewall).render
  whitelist : ∀ ip, isWhitelisted (some left) ip = isWhitelisted (some right) ip
  address : ∀ ip, torrentIPIgnored left.torrent ip = torrentIPIgnored right.torrent ip
  user : ∀ userID, torrentUserIgnored left.torrent userID = torrentUserIgnored right.torrent userID
  core : ∀ input xrayRPCSocket capNetAdmin socketPath restToken,
    Xray.generateAPIConfig input xrayRPCSocket capNetAdmin
        (torrentBlockerOptions (some left) socketPath restToken) =
      Xray.generateAPIConfig input xrayRPCSocket capNetAdmin
        (torrentBlockerOptions (some right) socketPath restToken)

theorem elementCommands_of_equal {left right : FirewallConfig}
    (h : firewallConfigsEqual c left right = true) :
    elementCommands c left = elementCommands c right := by
  simp only [elementCommands, staticElements_eq_of_equal h]

/- The options in which the torrent rules of two configs are the same. -/
structure SameOptions (left right : Xray.TorrentBlockerOptions) : Prop where
  enabled : left.enabled = right.enabled
  tags : ∀ tag, tag ∈ left.includeRuleTags ↔ tag ∈ right.includeRuleTags
  position : left.rulePosition = right.rulePosition
  path : left.socketPath = right.socketPath

theorem generateAPIConfig_of_same {left right : Xray.TorrentBlockerOptions}
    (h : SameOptions left right) (input : Option Xray.Object) (xrayRPCSocket : String)
    (capNetAdmin : Bool) : Xray.generateAPIConfig input xrayRPCSocket capNetAdmin left =
      Xray.generateAPIConfig input xrayRPCSocket capNetAdmin right := by
  have hrules : Xray.torrentRules left = Xray.torrentRules right := by
    funext rules
    simp only [Xray.torrentRules_eq, Xray.includeRule_congr h.tags, h.position, h.path]
  simp only [Xray.generateAPIConfig, h.enabled, hrules]

theorem sameOptions_of_torrent (hc : c.Collisionless)
    (hready : left.firewallReady = right.firewallReady)
    (htorrent : torrentSettingsEqual c left.torrent right.torrent = true)
    (socketPath restToken : String) :
    SameOptions (torrentBlockerOptions (some left) socketPath restToken)
      (torrentBlockerOptions (some right) socketPath restToken) := by
  simp only [torrentSettingsEqual, Bool.and_eq_true, decide_eq_true_eq] at htorrent
  obtain ⟨⟨⟨⟨⟨⟨henabled, -⟩, -⟩, hposition⟩, htags⟩, -⟩, -⟩ := htorrent
  have heffective : effectiveTorrentEnabled (some left) = effectiveTorrentEnabled (some right) := by
    simp only [effectiveTorrentEnabled, hready, henabled]
  have hperm := hc.perm htags
  refine ⟨heffective, fun tag => ?_, ?_, rfl⟩
  · simp only [torrentBlockerOptions, heffective, torrentTags]
    split_ifs with hon
    · exact hperm.mem_iff
    · rfl
  · simp only [torrentBlockerOptions, heffective, torrentPosition, hposition]

/-- Two snapshots that are equal in behaviour, planned or not, give the same scripts, the
same answers for every address and every user, and the same config of the core for every
base config. -/
theorem interchangeable_of_behaviorEqual (c : Codec) (hc : c.Collisionless)
    (left right : PluginSnapshot)
    (h : pluginSnapshotsBehaviorEqual c (some left) right = true) :
    Interchangeable c left right := by
  simp only [pluginSnapshotsBehaviorEqual, Bool.and_eq_true, decide_eq_true_eq] at h
  obtain ⟨⟨⟨⟨⟨hready, hwhitelist⟩, htorrent⟩, -⟩, -⟩, hfirewall⟩ := h
  have hcommands := elementCommands_of_equal hfirewall
  have hoptions := sameOptions_of_torrent hc hready htorrent
  simp only [torrentSettingsEqual, Bool.and_eq_true, decide_eq_true_eq] at htorrent
  obtain ⟨⟨-, hignored⟩, husers⟩ := htorrent
  have haddresses := prefixes_of_equal hignored
  constructor
  case config =>
    intro options
    rw [renderNFTConfig, renderNFTConfig, hcommands]
  case update => rw [renderNFTStaticUpdate, renderNFTStaticUpdate, hcommands]
  case whitelist =>
    intro ip
    simp only [isWhitelisted, prefixes_of_equal hwhitelist]
  case address =>
    intro ip
    simp only [torrentIPIgnored, haddresses]
  case user =>
    intro userID
    simp only [torrentUserIgnored, husers]
  case core =>
    intro input xrayRPCSocket capNetAdmin socketPath restToken
    exact generateAPIConfig_of_same (hoptions socketPath restToken) input xrayRPCSocket capNetAdmin

def blocking (includeRuleTags : List String) (egressPorts : List ℤ) : PluginSnapshot where
  configHash := ""
  sourceHash := ""
  pluginUUID := "uuid"
  pluginName := "name"
  firewallReady := true
  whitelistIPs := ⟨[⟨.v4 0x0a000000#32, 8⟩]⟩
  torrent := ⟨true, 300, "", includeRuleTags, 2, ⟨[]⟩, {"7"}⟩
  preStart := ⟨false, false, []⟩
  postStart := ⟨false, false, ""⟩
  firewall := ⟨["192.0.2.1"], [], egressPorts⟩

theorem blocking_behaviorEqual : pluginSnapshotsBehaviorEqual torrentCodec
    (some (blocking ["a", "b"] [443, 80])) (blocking ["b", "a"] [80, 443, 80, 0]) = true := by
  have htags : ["a", "b"].insertionSort (· ≤ ·) = ["b", "a"].insertionSort (· ≤ ·) := by decide
  have hports : normalizedPorts [443, 80] = normalizedPorts [80, 443, 80, 0] := by decide
  simp [pluginSnapshotsBehaviorEqual, torrentSettingsEqual, firewallConfigsEqual, IpMatcher.equal,
    blocking, hashIncludeRuleTags, htags, hports]

theorem interchangeable_blocking : Interchangeable torrentCodec (blocking ["a", "b"] [443, 80])
    (blocking ["b", "a"] [80, 443, 80, 0]) :=
  interchangeable_of_behaviorEqual torrentCodec torrentCodec_collisionless _ _ blocking_behaviorEqual

end RemnanodeLite.Plugin
