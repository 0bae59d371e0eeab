import RemnanodeLite.Lib.Netip
import RemnanodeLite.Lib.Strings

/-! # How addresses and prefixes are written

`String` of `netip.Addr` and `netip.Prefix`. -/

namespace Netip

def Addr.octets (a : BitVec 32) : List ℕ :=
  [(a >>> 24).toNat % 256, (a >>> 16).toNat % 256, (a >>> 8).toNat % 256, a.toNat % 256]

def Addr.groups (a : BitVec 128) : List ℕ :=
  (List.range 8).map fun i => (a >>> (16 * (7 - i))).toNat % 65536

/- The start and the length of the first longest run of two or more zeros. -/
def zeroRun (groups : List ℕ) : Option (ℕ × ℕ) :=
  (List.range groups.length).foldl (fun best i =>
    let length := ((groups.drop i).takeWhile (· = 0)).length
    if 2 ≤ length && (best.map Prod.snd).getD 0 < length then some (i, length) else best) none

def hexText (n : ℕ) : String := String.ofList (Nat.toDigits 16 n)

def groupsText (groups : List ℕ) : String := Strings.join ":" (groups.map hexText)

def string4 (a : BitVec 32) : String := Strings.join "." ((Addr.octets a).map toString)

def string6 (a : BitVec 128) : String :=
  let groups := Addr.groups a
  match zeroRun groups with
  | none => groupsText groups
  | some (start, length) =>
    groupsText (groups.take start) ++ "::" ++ groupsText (groups.drop (start + length))

def Addr.string : Addr → String
  | v4 a => string4 a
  | v6 a => if a >>> 32 = 0xffff#128 then "::ffff:" ++ string4 (a.setWidth 32) else string6 a

def Prefix.string (p : Prefix) : String := p.addr.string ++ "/" ++ toString p.bits

end Netip
