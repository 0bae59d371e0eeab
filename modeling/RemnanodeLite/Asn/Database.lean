import Mathlib.Data.Prod.Lex
import RemnanodeLite.Lib.Bytes
import RemnanodeLite.Lib.Distinct
import RemnanodeLite.Lib.NetipText
import RemnanodeLite.Lib.Search

/-! # The ASN database

`Write` and `DB` of the version 1 file: a header, an index of entries sorted by
AS number, and for every entry the records of its IPv4 and IPv6 prefixes. -/

namespace RemnanodeLite.Asn
open Netip Bytes

/- A value stands for `netip.PrefixFrom(addr, bits)`. -/
def isValid (p : Prefix) : Bool := p.bits ≤ p.addr.bitLen

/- The order of `Addr.Compare` and then of the lengths. -/
def prefixKey (p : Prefix) : ℕ ×ₗ ℕ ×ₗ ℕ :=
  match p.addr with
  | .v4 a => toLex (32, toLex (a.toNat, p.bits))
  | .v6 a => toLex (128, toLex (a.toNat, p.bits))

def as4 : Addr → ℕ
  | .v4 a => a.toNat
  | .v6 a => (a.setWidth 32).toNat

def as16 : Addr → ℕ
  | .v4 a => 0xffff * 2 ^ 32 + a.toNat
  | .v6 a => a.toNat

/-! ### Writing -/

structure Entry where
  asn : UInt32
  ipv4 : List Prefix
  ipv6 : List Prefix
  deriving DecidableEq

def maxPrefixesPerFamily : ℕ := 2 ^ 16 - 1
def maxEntries : ℕ := 2 ^ 32 - 1
def headerLen : ℕ := 16
def entryLen : ℕ := 16
def v4Record : ℕ := 5
def v6Record : ℕ := 17

/- `RWASNDB` and the format version. -/
def magic : List UInt8 := [0x52, 0x57, 0x41, 0x53, 0x4e, 0x44, 0x42, 0x01]

def normalizePrefixes (prefixes : List Prefix) (wantV4 : Bool) : List Prefix :=
  Distinct.dropRepeats (Distinct.sortBy prefixKey
    (((prefixes.filter isValid).map Prefix.masked).filter fun p => p.addr.is4 = wantV4))

def tooMany (entry : Entry) (family : String) (n : ℕ) : String :=
  "AS" ++ toString entry.asn ++ " has " ++ toString n ++ " " ++ family ++
    " prefixes; ASN database v1 supports at most " ++ toString maxPrefixesPerFamily

def normalizeEntry (entry : Entry) : Entry :=
  { entry with ipv4 := normalizePrefixes entry.ipv4 true, ipv6 := normalizePrefixes entry.ipv6 false }

/- The loop that fills `prepared`; `previous` is the AS number before. -/
def prepare (previous : Option UInt32) : List Entry → Except String (List Entry)
  | [] => .ok []
  | entry :: rest =>
    if previous = some entry.asn then .error ("duplicate ASN entry: AS" ++ toString entry.asn)
    else if (normalizeEntry entry).ipv4.length > maxPrefixesPerFamily then
      .error (tooMany entry "IPv4" (normalizeEntry entry).ipv4.length)
    else if (normalizeEntry entry).ipv6.length > maxPrefixesPerFamily then
      .error (tooMany entry "IPv6" (normalizeEntry entry).ipv6.length)
    else do
      let prepared ← prepare (some entry.asn) rest
      return normalizeEntry entry :: prepared

def header (count : ℕ) : List UInt8 := magic ++ (le 4 count ++ [0, 0, 0, 0])

def indexEntry (entry : Entry) (dataOff : ℕ) : List UInt8 :=
  le 4 entry.asn.toNat ++ (le 8 dataOff ++ (le 2 entry.ipv4.length ++ le 2 entry.ipv6.length))

def blobLen (entry : Entry) : ℕ := entry.ipv4.length * v4Record + entry.ipv6.length * v6Record

def index (dataOff : ℕ) : List Entry → List UInt8
  | [] => []
  | entry :: rest => indexEntry entry dataOff ++ index (dataOff + blobLen entry) rest

def record4 (p : Prefix) : List UInt8 := be 4 (as4 p.addr) ++ [UInt8.ofNat p.bits]

def record6 (p : Prefix) : List UInt8 := be 16 (as16 p.addr) ++ [UInt8.ofNat p.bits]

def blob (entry : Entry) : List UInt8 := entry.ipv4.flatMap record4 ++ entry.ipv6.flatMap record6

/- What `Write` has written when it returns nil. -/
def write (entries : List Entry) : Except String (List UInt8) :=
  if entries.length > maxEntries then
    .error ("ASN database v1 supports at most " ++ toString maxEntries ++ " entries")
  else do
    let prepared ← prepare none (Distinct.sortBy (fun entry => entry.asn.toNat) entries)
    return header prepared.length ++
      (index (headerLen + prepared.length * entryLen) prepared ++ prepared.flatMap blob)

/-! ### Reading -/

structure DB where
  file : List UInt8
  count : ℕ

/- `Open` of a file with these bytes. -/
def openDB (file : List UInt8) : Except String DB :=
  match readAt file 0 headerLen with
  | none => .error "read header"
  | some hdr =>
    if hdr.take 8 = magic then .ok ⟨file, ofLE ((hdr.drop 8).take 4)⟩
    else .error "invalid asn database magic"

def DB.available (d : DB) : Bool := 0 < d.count

/- `netip.PrefixFrom(...).String()`. -/
def prefixText (p : Prefix) : String := if isValid p then p.string else "invalid Prefix"

def parse4 (r : List UInt8) : Prefix :=
  ⟨.v4 (BitVec.ofNat 32 (ofBE (r.take 4))), ofLE ((r.drop 4).take 1)⟩

def parse6 (r : List UInt8) : Prefix :=
  ⟨.v6 (BitVec.ofNat 128 (ofBE (r.take 16))), ofLE ((r.drop 16).take 1)⟩

def DB.readBlob (d : DB) (off v4n v6n : ℕ) : List String × List String :=
  match readAt d.file off (v4n * v4Record + v6n * v6Record) with
  | none => ([], [])
  | some buf =>
    ((records v4Record v4n buf).map fun r => prefixText (parse4 r),
      (records v6Record v6n (buf.drop (v4n * v4Record))).map fun r => prefixText (parse6 r))

/- One round of the search: the entry at `mid` against `asn`. An offset past
`2 ^ 63` is negative as an `int64` and cannot be read. -/
def DB.probe (d : DB) (asn : UInt32) (mid : ℕ) : Search.Probe (ℕ × ℕ × ℕ) :=
  match readAt d.file (headerLen + mid * entryLen) entryLen with
  | none => .failed
  | some entry =>
    if ofLE (entry.take 4) < asn.toNat then .less
    else if ofLE (entry.take 4) > asn.toNat then .greater
    else .found (ofLE ((entry.drop 4).take 8), ofLE ((entry.drop 12).take 2),
      ofLE ((entry.drop 14).take 2))

def DB.prefixesByASN (d : DB) (asn : UInt32) : List String × List String :=
  if d.available then
    match Search.search (d.probe asn) 0 d.count with
    | none => ([], [])
    | some (dataOff, v4n, v6n) => if dataOff < 2 ^ 63 then d.readBlob dataOff v4n v6n else ([], [])
  else ([], [])

end RemnanodeLite.Asn
