import Mathlib.Algebra.Order.Ring.Int

/-! # Internet addresses, blocks and their texts

The parts of Go's `net/netip` and `net` that read addresses and prefixes, over
lists of characters, and the set of addresses a prefix stands for. -/

namespace Netip

inductive Addr where
  | v4 (a : BitVec 32)
  | v6 (a : BitVec 128)
  deriving DecidableEq

/- `bits` is at most the length of the address in every prefix that is read. -/
structure Prefix where
  addr : Addr
  bits : ℕ
  deriving DecidableEq

namespace Addr

def bitLen : Addr → ℕ
  | v4 _ => 32
  | v6 _ => 128

def is4 : Addr → Bool
  | v4 _ => true
  | v6 _ => false

/- Inside `::ffff:0:0/96`. -/
def is4In6 : Addr → Bool
  | v4 _ => false
  | v6 a => a >>> 32 = 0xffff#128

def unmap : Addr → Addr
  | v4 a => v4 a
  | v6 a => if a >>> 32 = 0xffff#128 then v4 (a.setWidth 32) else v6 a

/- The addresses agree on their first `bits` bits. -/
def sharesBits (bits : ℕ) : Addr → Addr → Prop
  | v4 a, v4 b => a >>> (32 - bits) = b >>> (32 - bits)
  | v6 a, v6 b => a >>> (128 - bits) = b >>> (128 - bits)
  | _, _ => False

instance (bits : ℕ) : (a b : Addr) → Decidable (a.sharesBits bits b)
  | v4 a, v4 b => inferInstanceAs (Decidable (a >>> (32 - bits) = b >>> (32 - bits)))
  | v6 a, v6 b => inferInstanceAs (Decidable (a >>> (128 - bits) = b >>> (128 - bits)))
  | v4 _, v6 _ => inferInstanceAs (Decidable False)
  | v6 _, v4 _ => inferInstanceAs (Decidable False)

/- All bits after the first `bits` are cleared. -/
def mask (bits : ℕ) : Addr → Addr
  | v4 a => v4 (a >>> (32 - bits) <<< (32 - bits))
  | v6 a => v6 (a >>> (128 - bits) <<< (128 - bits))

def isUnspecified : Addr → Bool
  | v4 a => a = 0
  | v6 a => a = 0

def isLoopback : Addr → Bool
  | v4 a => a >>> 24 = 127
  | v6 a => a = 1

def isMulticast : Addr → Bool
  | v4 a => a >>> 28 = 14
  | v6 a => a >>> 120 = 255

def isLinkLocalUnicast : Addr → Bool
  | v4 a => a >>> 16 = 0xa9fe
  | v6 a => a >>> 118 = 0x3fa

def isLinkLocalMulticast : Addr → Bool
  | v4 a => a >>> 8 = 0xe00000
  | v6 a => a >>> 112 &&& 0xff0f = 0xff02

end Addr

namespace Prefix

def masked (p : Prefix) : Prefix := ⟨p.addr.mask p.bits, p.bits⟩

def ofAddr (a : Addr) : Prefix := ⟨a, a.bitLen⟩

def contains (p : Prefix) (a : Addr) : Prop := a.sharesBits p.bits p.addr

instance (p : Prefix) (a : Addr) : Decidable (p.contains a) :=
  inferInstanceAs (Decidable (a.sharesBits p.bits p.addr))

def block (p : Prefix) : Set Addr := {a | p.contains a}

/- A block of `::ffff:0:0/96` is the IPv4 block it maps. -/
def unmapped (p : Prefix) : Prefix :=
  if p.addr.is4In6 = true ∧ 96 ≤ p.bits then ⟨p.addr.unmap, p.bits - 96⟩ else p

end Prefix

def blocks (ps : List Prefix) : Set Addr := {a | ∃ p ∈ ps, a ∈ p.block}

theorem blocks_append (ps qs : List Prefix) : blocks (ps ++ qs) = blocks ps ∪ blocks qs := by
  ext a
  simp only [blocks, List.mem_append, Set.mem_ofPred_eq, Set.mem_union]
  constructor
  · rintro ⟨p, hp | hp, ha⟩
    · exact Or.inl ⟨p, hp, ha⟩
    · exact Or.inr ⟨p, hp, ha⟩
  · rintro (⟨p, hp, ha⟩ | ⟨p, hp, ha⟩)
    · exact ⟨p, Or.inl hp, ha⟩
    · exact ⟨p, Or.inr hp, ha⟩

theorem shiftRight_shiftLeft_shiftRight {w : ℕ} (a : BitVec w) (k : ℕ) :
    a >>> k <<< k >>> k = a >>> k := by
  ext i hi
  simp only [BitVec.getElem_ushiftRight, BitVec.getLsbD_shiftLeft]
  by_cases h : k + i < w
  · simp [h, BitVec.getLsbD_ushiftRight]
  · have hout : w ≤ k + i := Nat.le_of_not_lt h
    simp [h, BitVec.getLsbD_of_ge a (k + i) hout]

@[simp] theorem block_masked (p : Prefix) : p.masked.block = p.block := by
  ext a
  obtain ⟨addr, bits⟩ := p
  cases addr <;> cases a <;>
    simp [Prefix.block, Prefix.contains, Prefix.masked, Addr.mask, Addr.sharesBits,
      shiftRight_shiftLeft_shiftRight]

theorem clear_shiftRight {w : ℕ} (a : BitVec w) {k m : ℕ} (h : k ≤ m) :
    a >>> k <<< k >>> m = a >>> m := by
  ext i hi
  simp only [BitVec.getElem_ushiftRight, BitVec.getLsbD_shiftLeft, BitVec.getLsbD_ushiftRight]
  by_cases hw : m + i < w
  · have hge : ¬ m + i < k := by omega
    have hidx : k + (m + i - k) = m + i := by omega
    simp [hw, hge, hidx]
  · have hout : w ≤ m + i := Nat.le_of_not_lt hw
    simp [hw, BitVec.getLsbD_of_ge a (m + i) hout]

theorem clear_setWidth_shiftRight (a : BitVec 128) (k : ℕ) :
    (a >>> k <<< k).setWidth 32 >>> k = a.setWidth 32 >>> k := by
  ext i hi
  simp only [BitVec.getElem_ushiftRight, BitVec.getLsbD_setWidth, BitVec.getLsbD_shiftLeft,
    BitVec.getLsbD_ushiftRight]
  by_cases hw : k + i < 32
  · have h128 : k + i < 128 := by omega
    simp [hw, h128]
  · simp [hw]

theorem unmapped_masked (p : Prefix) (hbits : p.bits ≤ p.addr.bitLen) :
    p.masked.unmapped.block = p.unmapped.block := by
  obtain ⟨addr, bits⟩ := p
  cases addr with
  | v4 a =>
    have hmasked : (⟨.v4 a, bits⟩ : Prefix).masked.unmapped = (⟨.v4 a, bits⟩ : Prefix).masked := rfl
    rw [hmasked, block_masked]
    rfl
  | v6 a =>
    by_cases h96 : 96 ≤ bits
    · have hle : 128 - bits ≤ 32 := by omega
      have hsub : 32 - (bits - 96) = 128 - bits := by
        have h128 : bits ≤ 128 := hbits
        omega
      have hmap := clear_shiftRight a hle
      by_cases hin : a >>> 32 = 0xffff#128
      · have hclear := clear_setWidth_shiftRight a (128 - bits)
        have hin' : a >>> (128 - bits) <<< (128 - bits) >>> 32 = 0xffff#128 := hmap.trans hin
        have hleft : (⟨.v6 a, bits⟩ : Prefix).masked.unmapped =
            ⟨.v4 ((a >>> (128 - bits) <<< (128 - bits)).setWidth 32), bits - 96⟩ := by
          simp only [Prefix.unmapped, Prefix.masked, Addr.mask, Addr.is4In6, Addr.unmap, hin', h96,
            decide_true, and_self, if_true]
        have hright : (⟨.v6 a, bits⟩ : Prefix).unmapped = ⟨.v4 (a.setWidth 32), bits - 96⟩ := by
          simp only [Prefix.unmapped, Addr.is4In6, Addr.unmap, hin, h96, decide_true, and_self,
            if_true]
        ext b
        rw [hleft, hright]
        cases b with
        | v4 b =>
          simp only [Prefix.block, Prefix.contains, Addr.sharesBits, Set.mem_ofPred_eq, hsub, hclear]
        | v6 b => exact Iff.rfl
      · have hout : ∀ c : BitVec 128, c >>> 32 = a >>> 32 →
            (⟨.v6 c, bits⟩ : Prefix).unmapped = ⟨.v6 c, bits⟩ := by
          intro c hc
          simp [Prefix.unmapped, Addr.is4In6, hc, hin]
        rw [hout a rfl, Prefix.masked, Addr.mask, hout _ hmap]
        exact block_masked ⟨.v6 a, bits⟩
    · have hout : ∀ c : Addr, (⟨c, bits⟩ : Prefix).unmapped = ⟨c, bits⟩ := by
        intro c
        simp [Prefix.unmapped, h96]
      rw [Prefix.masked, hout, hout]
      exact block_masked ⟨.v6 a, bits⟩

/-! ### Reading -/

/- `strings.Cut` at the first `sep`. -/
def cut (sep : Char) : List Char → Option (List Char × List Char)
  | [] => none
  | c :: s => if c = sep then some ([], s) else (cut sep s).map fun r => (c :: r.1, r.2)

/- The same at the last `sep`. -/
def cutLast (sep : Char) (s : List Char) : Option (List Char × List Char) :=
  (cut sep s.reverse).map fun r => (r.2.reverse, r.1.reverse)

variable {s : List Char} {sep : Char}

theorem cut_eq_some {a b : List Char} :
    cut sep s = some (a, b) ↔ s = a ++ sep :: b ∧ sep ∉ a := by
  induction s generalizing a with
  | nil => simp [cut]
  | cons c s ih =>
    unfold cut
    by_cases hc : c = sep
    · subst hc
      rw [if_pos rfl]
      cases a with
      | nil => simp
      | cons d a =>
        simp only [Option.some.injEq, Prod.mk.injEq, reduceCtorEq, false_and, List.cons_append,
          List.cons.injEq, List.mem_cons, not_or, false_iff, not_and]
        rintro ⟨rfl, -⟩ hne
        exact absurd rfl hne
    · rw [if_neg hc]
      cases a with
      | nil =>
        simp only [Option.map_eq_some_iff, Prod.mk.injEq, reduceCtorEq, false_and, and_false,
          exists_false, List.nil_append, List.cons.injEq, hc]
      | cons d a =>
        simp only [Option.map_eq_some_iff, Prod.mk.injEq, List.cons.injEq, List.cons_append,
          List.mem_cons, not_or]
        constructor
        · rintro ⟨⟨a', b'⟩, hcut, ⟨rfl, rfl⟩, rfl⟩
          obtain ⟨hs, ha⟩ := ih.mp hcut
          exact ⟨⟨rfl, hs⟩, Ne.symm hc, ha⟩
        · rintro ⟨⟨rfl, hs⟩, -, ha⟩
          exact ⟨(a, b), ih.mpr ⟨hs, ha⟩, ⟨rfl, rfl⟩, rfl⟩

theorem cut_eq_none : cut sep s = none ↔ sep ∉ s := by
  induction s with
  | nil => simp [cut]
  | cons c s ih =>
    unfold cut
    by_cases hc : c = sep
    · simp [hc]
    · simp [hc, ih, Ne.symm hc]

theorem cutLast_append {a b : List Char} (h : sep ∉ b) :
    cutLast sep (a ++ sep :: b) = some (a, b) := by
  have hcut : cut sep (a ++ sep :: b).reverse = some (b.reverse, a.reverse) := by
    rw [cut_eq_some]
    exact ⟨by simp, by simpa using h⟩
  rw [cutLast, hcut]
  simp

theorem cutLast_eq_none : cutLast sep s = none ↔ sep ∉ s := by
  rw [cutLast, Option.map_eq_none_iff, cut_eq_none, List.mem_reverse]

def isDigit (c : Char) : Bool := '0' ≤ c && c ≤ '9'

def digitVal (c : Char) : ℕ := c.toNat - '0'.toNat

def isHexDigit (c : Char) : Bool := isDigit c || ('a' ≤ c && c ≤ 'f') || ('A' ≤ c && c ≤ 'F')

def hexVal (c : Char) : ℕ :=
  if isDigit c then digitVal c
  else if 'a' ≤ c && c ≤ 'f' then c.toNat - 'a'.toNat + 10
  else c.toNat - 'A'.toNat + 10

/- `parseIPv4Fields`: the fields read so far, the value and the number of digits
of the current one. A dot is refused at either end and after another dot. -/
def parseIPv4Fields : List Char → List ℕ → ℕ → ℕ → Option (List ℕ)
  | [], fields, val, _ => if fields.length < 3 then none else some (fields ++ [val])
  | c :: rest, fields, val, digLen =>
    if isDigit c then
      if digLen = 1 ∧ val = 0 then none
      else if 255 < val * 10 + digitVal c then none
      else parseIPv4Fields rest fields (val * 10 + digitVal c) (digLen + 1)
    else if c = '.' then
      if digLen = 0 ∨ rest = [] then none
      else if fields.length = 3 then none
      else parseIPv4Fields rest (fields ++ [val]) 0 0
    else none

/- Big-endian digits in base `base`. -/
def fromDigits (base : ℕ) (digits : List ℕ) : ℕ := digits.foldl (fun n d => n * base + d) 0

def parseIPv4 (s : List Char) : Option Addr :=
  (parseIPv4Fields s [] 0 0).map fun fields => .v4 (BitVec.ofNat 32 (fromDigits 256 fields))

/- The loop of `parseIPv6`: the 16-bit groups read so far, where the ellipsis
stands among them, and what is left to read. -/
def parseIPv6Groups : ℕ → List Char → List ℕ → Option ℕ → Option (List ℕ × Option ℕ × List Char)
  | 0, s, groups, ellipsis => some (groups, ellipsis, s)
  | fuel + 1, s, groups, ellipsis =>
    let digits := s.takeWhile isHexDigit
    let group := fromDigits 16 (digits.map hexVal)
    if 4 < digits.length then none
    else if digits.isEmpty then none
    else
      match s.dropWhile isHexDigit with
      | [] => some (groups ++ [group], ellipsis, [])
      | c :: rest =>
        if c = '.' then
          if ellipsis.isNone && groups.length ≠ 6 then none
          else if 8 < groups.length + 2 then none
          else (parseIPv4Fields s [] 0 0).map fun fields =>
            (groups ++ [fromDigits 256 (fields.take 2), fromDigits 256 (fields.drop 2)],
              ellipsis, [])
        else if c ≠ ':' then none
        else
          match rest with
          | [] => none
          | d :: rest' =>
            if d = ':' then
              if ellipsis.isSome then none
              else if rest'.isEmpty then some (groups ++ [group], some (groups.length + 1), [])
              else parseIPv6Groups fuel rest' (groups ++ [group]) (some (groups.length + 1))
            else parseIPv6Groups fuel (d :: rest') (groups ++ [group]) ellipsis

/- What follows the loop: nothing may be left, and the ellipsis is filled. -/
def expandEllipsis : List ℕ × Option ℕ × List Char → Option (List ℕ)
  | (groups, ellipsis, rest) =>
    if !rest.isEmpty then none
    else if groups.length < 8 then
      ellipsis.map fun k => groups.take k ++ List.replicate (8 - groups.length) 0 ++ groups.drop k
    else if ellipsis.isSome then none
    else some groups

def parseIPv6Text (s : List Char) : Option Addr :=
  let groups :=
    match s with
    | ':' :: ':' :: [] => some (List.replicate 8 0)
    | ':' :: ':' :: rest => (parseIPv6Groups 8 rest [] (some 0)).bind expandEllipsis
    | _ => (parseIPv6Groups 8 s [] none).bind expandEllipsis
  groups.map fun groups => .v6 (BitVec.ofNat 128 (fromDigits 65536 groups))

/- `netip.ParseAddr`: the address and its zone. -/
def parseAddr (s : List Char) : Option (Addr × List Char) :=
  match s.find? fun c => c = '.' || c = ':' || c = '%' with
  | none => none
  | some c =>
    if c = '.' then (parseIPv4 s).map fun a => (a, [])
    else if c = '%' then none
    else
      match cut '%' s with
      | none => (parseIPv6Text s).map fun a => (a, [])
      | some (text, zone) =>
        if zone.isEmpty then none else (parseIPv6Text text).map fun a => (a, zone)

def parseDigits (s : List Char) : Option ℕ :=
  if s.isEmpty || !s.all isDigit then none else some (fromDigits 10 (s.map digitVal))

/- `netip.ParsePrefix`: it cuts at the last slash and wants no leading zero. -/
def parsePrefix (s : List Char) : Option Prefix :=
  match cutLast '/' s with
  | none => none
  | some (addr, bitsStr) =>
    match parseAddr addr with
    | some (a, []) =>
      if 1 < bitsStr.length && !bitsStr.head?.any (fun c => '1' ≤ c && c ≤ '9') then none
      else (parseDigits bitsStr).bind fun bits => if a.bitLen < bits then none else some ⟨a, bits⟩
    | _ => none

/- `net.ParseIP`. -/
def netParseIP (s : List Char) : Option Addr :=
  match parseAddr s with
  | some (a, []) => some a
  | _ => none

/- `net.ParseCIDR`, which cuts at the first slash. Its `dtoi` gives up on numbers
far beyond any length. -/
def netParseCIDR (s : List Char) : Option Prefix :=
  match cut '/' s with
  | none => none
  | some (addr, mask) =>
    match parseAddr addr with
    | some (a, []) =>
      (parseDigits mask).bind fun bits => if a.bitLen < bits then none else some ⟨a, bits⟩
    | _ => none

/-! ### What accepted texts look like -/

def isAddrChar (c : Char) : Bool := isHexDigit c || c = ':' || c = '.'

theorem isAddrChar_of_hex {c : Char} (h : isHexDigit c = true) : isAddrChar c = true := by
  simp [isAddrChar, h]

theorem parseIPv4Fields_chars (s : List Char) (fields r : List ℕ) (val digLen : ℕ)
    (h : parseIPv4Fields s fields val digLen = some r) : ∀ c ∈ s, isAddrChar c = true := by
  induction s generalizing fields val digLen with
  | nil => simp
  | cons c rest ih =>
    simp only [parseIPv4Fields] at h
    split at h
    case isTrue hdigit =>
      split at h
      · cases h
      · split at h
        · cases h
        · exact List.forall_mem_cons.mpr
            ⟨isAddrChar_of_hex (by simp [isHexDigit, hdigit]), ih _ _ _ h⟩
    case isFalse =>
      split at h
      case isTrue hdot =>
        split at h
        · cases h
        · split at h
          · cases h
          · exact List.forall_mem_cons.mpr ⟨by simp [isAddrChar, hdot], ih _ _ _ h⟩
      case isFalse => cases h

theorem parseIPv6Groups_chars (fuel : ℕ) (s rest : List Char) (groups groups' : List ℕ)
    (ellipsis ellipsis' : Option ℕ)
    (h : parseIPv6Groups fuel s groups ellipsis = some (groups', ellipsis', rest)) :
    ∀ c ∈ s, isAddrChar c = true ∨ c ∈ rest := by
  induction fuel generalizing s groups ellipsis with
  | zero =>
    simp only [parseIPv6Groups, Option.some.injEq, Prod.mk.injEq] at h
    obtain ⟨-, -, rfl⟩ := h
    exact fun c hc => Or.inr hc
  | succ fuel ih =>
    have hhex : ∀ c ∈ s.takeWhile isHexDigit, isAddrChar c = true := by
      intro c hc
      exact isAddrChar_of_hex (List.all_eq_true.mp (List.all_takeWhile ..) c hc)
    have hsplit : ∀ c ∈ s, c ∈ s.takeWhile isHexDigit ∨ c ∈ s.dropWhile isHexDigit := by
      intro c hc
      rw [← List.takeWhile_append_dropWhile (p := isHexDigit) (l := s)] at hc
      exact List.mem_append.mp hc
    simp only [parseIPv6Groups] at h
    split at h
    · cases h
    · split at h
      · cases h
      · cases hdrop : s.dropWhile isHexDigit with
        | nil =>
          intro c hc
          rcases hsplit c hc with hc | hc
          · exact Or.inl (hhex c hc)
          · simp [hdrop] at hc
        | cons d tail =>
          simp only [hdrop] at h
          split at h
          case isTrue =>
            split at h
            · cases h
            · split at h
              · cases h
              · obtain ⟨fields, hfields, -⟩ := Option.map_eq_some_iff.mp h
                exact fun c hc => Or.inl (parseIPv4Fields_chars s _ _ _ _ hfields c hc)
          case isFalse =>
            split at h
            · cases h
            case isFalse hcolon =>
              have hd : d = ':' := not_not.mp hcolon
              cases htail : tail with
              | nil => simp [htail] at h
              | cons e tail' =>
                simp only [htail] at h
                have hrest : ∀ c ∈ e :: tail', isAddrChar c = true ∨ c ∈ rest := by
                  split at h
                  case isTrue he =>
                    split at h
                    · cases h
                    · split at h
                      case isTrue hempty =>
                        intro c hc
                        rw [List.isEmpty_iff.mp hempty, List.mem_singleton] at hc
                        exact Or.inl (by simp [hc, he, isAddrChar])
                      case isFalse =>
                        exact List.forall_mem_cons.mpr
                          ⟨Or.inl (by simp [he, isAddrChar]), ih _ _ _ h⟩
                  case isFalse => exact ih _ _ _ h
                intro c hc
                rcases hsplit c hc with hc | hc
                · exact Or.inl (hhex c hc)
                · rw [hdrop, htail] at hc
                  rcases List.mem_cons.mp hc with rfl | hc
                  · exact Or.inl (by simp [hd, isAddrChar])
                  · exact hrest c hc

theorem expandEllipsis_chars {fuel : ℕ} {ellipsis : Option ℕ} {groups : List ℕ}
    (h : (parseIPv6Groups fuel s [] ellipsis).bind expandEllipsis = some groups) :
    ∀ c ∈ s, isAddrChar c = true := by
  obtain ⟨⟨gs, e, rest⟩, hgroups, hexpand⟩ := Option.bind_eq_some_iff.mp h
  have hrest : rest = [] := by
    simp only [expandEllipsis] at hexpand
    split at hexpand
    · cases hexpand
    case isFalse hempty => simpa using hempty
  intro c hc
  rcases parseIPv6Groups_chars fuel s rest [] gs ellipsis e hgroups c hc with hc | hc
  · exact hc
  · simp [hrest] at hc

variable {a : Addr}

theorem parseIPv6Text_chars (h : parseIPv6Text s = some a) :
    ∀ c ∈ s, isAddrChar c = true := by
  obtain ⟨groups, hgroups, -⟩ := Option.map_eq_some_iff.mp h
  split at hgroups
  · exact List.all_eq_true.mp (by decide)
  · have hrest := expandEllipsis_chars hgroups
    exact List.forall_mem_cons.mpr ⟨by decide, List.forall_mem_cons.mpr ⟨by decide, hrest⟩⟩
  · exact expandEllipsis_chars hgroups

/- An address without a zone has only characters of addresses: no slash, no
space, no percent sign. -/
theorem parseAddr_chars (h : parseAddr s = some (a, [])) :
    ∀ c ∈ s, isAddrChar c = true := by
  unfold parseAddr at h
  split at h
  · cases h
  · split at h
    · obtain ⟨b, hb, -⟩ := Option.map_eq_some_iff.mp h
      obtain ⟨fields, hfields, -⟩ := Option.map_eq_some_iff.mp hb
      exact parseIPv4Fields_chars s _ _ _ _ hfields
    · split at h
      · cases h
      · split at h
        · obtain ⟨b, hb, -⟩ := Option.map_eq_some_iff.mp h
          exact parseIPv6Text_chars hb
        · split at h
          · cases h
          case isFalse hzone =>
            obtain ⟨b, -, hb⟩ := Option.map_eq_some_iff.mp h
            obtain ⟨-, rfl⟩ := Prod.mk.inj hb
            simp at hzone

theorem netParseIP_iff :
    netParseIP s = some a ↔ parseAddr s = some (a, []) := by
  unfold netParseIP
  cases h : parseAddr s with
  | none => simp
  | some r =>
    obtain ⟨b, zone⟩ := r
    cases zone with
    | nil => simp
    | cons c zone => simp

variable {p : Prefix}

theorem netParseCIDR_split (h : netParseCIDR s = some p) :
    ∃ addr mask, s = addr ++ '/' :: mask ∧ parseAddr addr = some (p.addr, []) ∧
      parseDigits mask = some p.bits ∧ p.bits ≤ p.addr.bitLen := by
  unfold netParseCIDR at h
  cases hcut : cut '/' s with
  | none => simp [hcut] at h
  | some r =>
    obtain ⟨addr, mask⟩ := r
    simp only [hcut] at h
    cases haddr : parseAddr addr with
    | none => simp [haddr] at h
    | some r =>
      obtain ⟨a, zone⟩ := r
      cases zone with
      | cons z zone => simp [haddr] at h
      | nil =>
        simp only [haddr] at h
        obtain ⟨bits, hbits, hle⟩ := Option.bind_eq_some_iff.mp h
        split at hle
        · cases hle
        case isFalse hnot =>
          obtain rfl := Option.some.inj hle
          exact ⟨addr, mask, (cut_eq_some.mp hcut).1, haddr, hbits, Nat.le_of_not_lt hnot⟩

theorem parseDigits_digits {n : ℕ} (h : parseDigits s = some n) :
    s ≠ [] ∧ ∀ c ∈ s, isDigit c = true := by
  unfold parseDigits at h
  split at h
  · cases h
  case isFalse hnot =>
    simp only [Bool.or_eq_true, not_or, List.isEmpty_iff, Bool.not_eq_true', Bool.not_eq_false,
      List.all_eq_true] at hnot
    exact hnot

/- A length written with a zero in front. -/
def paddedBits (s : List Char) : Bool :=
  match cut '/' s with
  | none => false
  | some (_, mask) => 1 < mask.length && mask.head? = some '0'

theorem slash_notMem_digits (h : ∀ c ∈ s, isDigit c = true) : '/' ∉ s := by
  intro hmem
  have hslash := h '/' hmem
  simp [isDigit] at hslash

theorem slash_notMem_addr (h : parseAddr s = some (a, [])) :
    '/' ∉ s := by
  intro hmem
  have hslash := parseAddr_chars h '/' hmem
  simp [isAddrChar, isHexDigit, isDigit] at hslash

/- Where `net.ParseCIDR` reads a prefix, `netip.ParsePrefix` reads the same one
unless its length is padded. -/
theorem parsePrefix_of_netParseCIDR (h : netParseCIDR s = some p) :
    parsePrefix s = if paddedBits s then none else some p := by
  obtain ⟨addr, mask, rfl, haddr, hmask, hle⟩ := netParseCIDR_split h
  obtain ⟨hne, hdigits⟩ := parseDigits_digits hmask
  have hlast : cutLast '/' (addr ++ '/' :: mask) = some (addr, mask) :=
    cutLast_append (slash_notMem_digits hdigits)
  have hfirst : cut '/' (addr ++ '/' :: mask) = some (addr, mask) :=
    cut_eq_some.mpr ⟨rfl, slash_notMem_addr haddr⟩
  obtain ⟨c, rest, rfl⟩ := List.exists_cons_of_ne_nil hne
  have hc : isDigit c = true := hdigits c List.mem_cons_self
  have hzero : (!('1' ≤ c && c ≤ '9' : Bool)) = decide (c = '0') := by
    simp only [isDigit, Bool.and_eq_true, decide_eq_true_eq] at hc
    by_cases h0 : c = '0'
    · subst h0
      decide
    · have h1 : '1' ≤ c := by
        have hge : 48 ≤ c.val.toNat := hc.1
        have hne : c.val.toNat ≠ 48 := fun h => h0 (Char.ext (UInt32.toNat_inj.mp h))
        have hgt : 49 ≤ c.val.toNat := by omega
        exact hgt
      simp [h0, h1, hc.2]
  simp only [parsePrefix, paddedBits, hlast, hfirst, haddr, hmask, List.head?_cons, Option.any_some,
    hzero, Option.some.injEq]
  split
  · rfl
  · simp [Nat.not_lt.mpr hle]

theorem parsePrefix_of_netParseIP (h : netParseIP s = some a) :
    parsePrefix s = none := by
  have hslash := slash_notMem_addr (netParseIP_iff.mp h)
  rw [parsePrefix, cutLast_eq_none.mpr hslash]

theorem netParseIP_of_netParseCIDR (h : netParseCIDR s = some p) :
    netParseIP s = none := by
  obtain ⟨addr, mask, rfl, -, -, -⟩ := netParseCIDR_split h
  cases hip : netParseIP (addr ++ '/' :: mask) with
  | none => rfl
  | some a => exact absurd (by simp) (slash_notMem_addr (netParseIP_iff.mp hip))

end Netip
