import RemnanodeLite.Lib.Netip
import RemnanodeLite.Lib.Strings

/-! # Normalized filter prefixes

`internal/plugin/cidr.go`. `ipSet` stands for `netipx`: the prefixes of the set
that a builder makes of the prefixes added to it. -/

namespace RemnanodeLite.Plugin
open Netip

variable (ipSet : List Prefix → List Prefix)

def normalizeIPPrefix (p : Prefix) : Prefix :=
  let p := p.masked
  if p.addr.is4In6 && 96 ≤ p.bits then Prefix.masked ⟨p.addr.unmap, p.bits - 96⟩ else p

def filterPrefix (item : String) : Option Prefix :=
  let text := Strings.trimSpace item.toList
  if text.isEmpty then none
  else
    match parsePrefix text with
    | some p => some (normalizeIPPrefix p)
    | none => (netParseIP text).map fun a => Prefix.ofAddr a.unmap

def normalizeFilterPrefixes (items : List String) : List Prefix × List Prefix :=
  let added := items.filterMap filterPrefix
  (ipSet (added.filter fun p => p.addr.is4), ipSet (added.filter fun p => !p.addr.is4))

structure IpMatcher where
  prefixes : List Prefix
  deriving DecidableEq

def newIPMatcher (items : List String) : IpMatcher :=
  let normalized := normalizeFilterPrefixes ipSet items
  ⟨normalized.1 ++ normalized.2⟩

def IpMatcher.contains (m : IpMatcher) (raw : String) : Bool :=
  match netParseIP (Strings.trimSpace raw.toList) with
  | none => false
  | some address =>
    m.prefixes.any (fun p => p.contains address) ||
      (address.is4In6 && m.prefixes.any fun p => p.contains address.unmap)

theorem normalizeIPPrefix_block {p : Prefix} (h : p.bits ≤ p.addr.bitLen) :
    (normalizeIPPrefix p).block = p.unmapped.block := by
  rw [← unmapped_masked p h]
  unfold normalizeIPPrefix Prefix.unmapped
  dsimp only
  by_cases hin : p.masked.addr.is4In6 = true ∧ 96 ≤ p.masked.bits
  · rw [if_pos hin, if_pos (by simpa using hin), block_masked]
  · rw [if_neg hin, if_neg (by simpa using hin)]

end RemnanodeLite.Plugin
