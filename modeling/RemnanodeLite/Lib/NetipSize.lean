import Mathlib.Data.Finite.Prod
import Mathlib.Data.Finite.Sum
import Mathlib.Data.Set.Finite.Range
import RemnanodeLite.Lib.Laminar
import RemnanodeLite.Lib.NetipRoundTrip

/-! # Prefixes as a family of blocks, and the length of their texts -/

namespace Netip

/-! ### Blocks -/

section
variable {a b c : Addr} {m n : ℕ}

theorem shiftRight_congr {w : ℕ} {x y : BitVec w} (h : x >>> (w - n) = y >>> (w - n)) (hmn : m ≤ n) :
    x >>> (w - m) = y >>> (w - m) := by
  have hsplit : w - m = (w - n) + ((w - m) - (w - n)) := by omega
  rw [hsplit, BitVec.shiftRight_add, BitVec.shiftRight_add, h]

theorem sharesBits_refl : a.sharesBits n a := by
  cases a with
  | v4 a => exact rfl
  | v6 a => exact rfl

theorem sharesBits_symm (h : a.sharesBits n b) : b.sharesBits n a := by
  cases a with
  | v4 a =>
    cases b with
    | v4 b => exact Eq.symm h
    | v6 b => exact h
  | v6 a =>
    cases b with
    | v4 b => exact h
    | v6 b => exact Eq.symm h

theorem sharesBits_trans (h : a.sharesBits n b) (h' : b.sharesBits n c) : a.sharesBits n c := by
  cases a with
  | v4 a =>
    cases b with
    | v6 b => exact h.elim
    | v4 b =>
      cases c with
      | v6 c => exact h'
      | v4 c => exact Eq.trans h h'
  | v6 a =>
    cases b with
    | v4 b => exact h.elim
    | v6 b =>
      cases c with
      | v4 c => exact h'
      | v6 c => exact Eq.trans h h'

theorem sharesBits_mono (h : a.sharesBits n b) (hmn : m ≤ n) : a.sharesBits m b := by
  cases a with
  | v4 a =>
    cases b with
    | v4 b => exact shiftRight_congr h hmn
    | v6 b => exact h
  | v6 a =>
    cases b with
    | v4 b => exact h
    | v6 b => exact shiftRight_congr h hmn

end

/- A prefix as `Masked` leaves it. -/
structure Prefix.Canonical (p : Prefix) : Prop where
  bits : p.bits ≤ p.addr.bitLen
  masked : p.masked = p

theorem block_subset {p q : Prefix} {a : Addr} (hp : a ∈ p.block) (hq : a ∈ q.block)
    (hbits : p.bits ≤ q.bits) : q.block ⊆ p.block := by
  intro b hb
  have hshared := sharesBits_trans hb (sharesBits_symm hq)
  exact sharesBits_trans (sharesBits_mono hshared hbits) hp

theorem prefixes_laminar : Laminar.Family Prefix.block Prefix.Canonical where
  nonempty p _ := ⟨p.addr, sharesBits_refl⟩
  nested p q _ _ h := by
    obtain ⟨a, hp, hq⟩ := h
    rcases Nat.le_total p.bits q.bits with hbits | hbits
    · exact .inr (block_subset hp hq hbits)
    · exact .inl (block_subset hq hp hbits)

instance : Finite Addr := by
  have hfinite : ∀ w, Finite (BitVec w) := fun w =>
    Finite.of_injective BitVec.toFin fun _ _ h => BitVec.toFin_inj.mp h
  have h4 := hfinite 32
  have h6 := hfinite 128
  refine Finite.of_surjective (Sum.elim Addr.v4 Addr.v6) fun a => ?_
  cases a with
  | v4 a => exact ⟨.inl a, rfl⟩
  | v6 a => exact ⟨.inr a, rfl⟩

theorem bitLen_le (a : Addr) : a.bitLen ≤ 128 := by
  cases a with
  | v4 a => exact (by decide : 32 ≤ 128)
  | v6 a => exact Nat.le_refl 128

theorem finite_canonical : {p : Prefix | p.Canonical}.Finite := by
  refine (Set.finite_range fun x : Addr × Fin 129 => (⟨x.1, x.2⟩ : Prefix)).subset fun p hp => ?_
  have hbits : p.bits < 129 := Nat.lt_succ_of_le (hp.bits.trans (bitLen_le p.addr))
  exact ⟨(p.addr, ⟨p.bits, hbits⟩), rfl⟩

theorem bitLen_mask (a : Addr) (bits : ℕ) : (a.mask bits).bitLen = a.bitLen := by
  cases a with
  | v4 a => rfl
  | v6 a => rfl

theorem canonical_masked {p : Prefix} (h : p.bits ≤ p.addr.bitLen) : p.masked.Canonical := by
  refine ⟨h.trans (bitLen_mask p.addr p.bits).ge, ?_⟩
  obtain ⟨a, bits⟩ := p
  cases a with
  | v4 a | v6 a => simp [Prefix.masked, Addr.mask, shiftRight_shiftLeft_shiftRight]

theorem blocks_map_masked (ps : List Prefix) :
    Laminar.union Prefix.block (ps.map Prefix.masked) = blocks ps := by
  ext a
  simp only [Laminar.union, blocks, List.mem_map, Set.mem_ofPred_eq]
  constructor
  · rintro ⟨_, ⟨p, hp, rfl⟩, ha⟩
    exact ⟨p, hp, block_masked p ▸ ha⟩
  · rintro ⟨p, hp, ha⟩
    exact ⟨p.masked, ⟨p, hp, rfl⟩, (block_masked p).symm ▸ ha⟩

/-! ### Texts -/

theorem utf8Size_of_addrChar {c : Char} (h : isAddrChar c = true) : c.utf8Size = 1 := by
  have hsmall : c.val ≤ 127 := by
    simp only [isAddrChar, isHexDigit, isDigit, Bool.or_eq_true, Bool.and_eq_true,
      decide_eq_true_eq] at h
    rcases h with ((((⟨-, hc⟩ | ⟨-, hc⟩) | ⟨-, hc⟩) | rfl) | rfl)
    · exact UInt32.le_trans hc (by decide)
    · exact UInt32.le_trans hc (by decide)
    · exact UInt32.le_trans hc (by decide)
    · decide
    · decide
  exact if_pos hsmall

theorem utf8ByteSize_ofList {s : List Char} (h : ∀ c ∈ s, isAddrChar c = true) :
    (String.ofList s).utf8ByteSize = s.length := by
  induction s with
  | nil => rfl
  | cons c s ih =>
    have hc := utf8Size_of_addrChar (h c List.mem_cons_self)
    have hs := ih fun d hd => h d (List.mem_cons_of_mem _ hd)
    rw [String.ofList_cons, String.utf8ByteSize_append, String.utf8ByteSize_singleton, hc, hs,
      List.length_cons, Nat.add_comm]

theorem utf8ByteSize_of_addrChars {s : String} (h : ∀ c ∈ s.toList, isAddrChar c = true) :
    s.utf8ByteSize = s.toList.length := by
  have hsize := utf8ByteSize_ofList h
  rwa [String.ofList_toList] at hsize

section
variable {gs l r : List ℕ}

theorem length_grouped_le (hgs : ∀ g ∈ gs, g < 65536) : (grouped gs).length ≤ 5 * gs.length - 1 := by
  induction gs with
  | nil => simp
  | cons g gs ih =>
    have hg := length_toDigits_group (hgs g List.mem_cons_self)
    have hrest := ih fun d hd => hgs d (List.mem_cons_of_mem _ hd)
    by_cases hempty : gs = []
    · subst hempty
      rw [grouped_singleton, List.length_singleton]
      omega
    · have hpositive := List.length_pos_iff.mpr hempty
      rw [grouped_cons g hempty, List.length_append, List.length_cons, List.length_cons]
      omega

theorem length_dotted_four {a b c d : ℕ} (ha : a < 256) (hb : b < 256) (hc : c < 256) (hd : d < 256) :
    (dotted [a, b, c, d]).length ≤ 15 := by
  have hlength : ∀ n < 256, (Nat.toDigits 10 n).length ≤ 3 := fun n hn =>
    (Nat.length_toDigits_le_iff (by decide) (by decide)).mpr (by omega)
  have h0 := hlength a ha
  have h1 := hlength b hb
  have h2 := hlength c hc
  have h3 := hlength d hd
  rw [dotted_four]
  simp only [List.length_append, List.length_cons]
  omega

end

theorem length_string4 (a : BitVec 32) : (string4 a).toList.length ≤ 15 := by
  have hsmall := octets_small a
  rw [toList_string4]
  simp only [Addr.octets, List.forall_mem_cons] at hsmall ⊢
  obtain ⟨h0, h1, h2, h3, -⟩ := hsmall
  exact length_dotted_four h0 h1 h2 h3

theorem length_string6 (a : BitVec 128) : (string6 a).toList.length ≤ 39 := by
  have hsmall := groups_small a
  have hlength := groups_length a
  rw [toList_string6]
  cases hrun : zeroRun (Addr.groups a) with
  | none =>
    have hbound := length_grouped_le hsmall
    dsimp only
    omega
  | some run =>
    obtain ⟨start, length⟩ := run
    have hspec := zeroRun_spec hrun
    have hlong := hspec.long
    have hwithin := hspec.within
    have hleft := length_grouped_le fun g (hg : g ∈ (Addr.groups a).take start) =>
      hsmall g (List.mem_of_mem_take hg)
    have hright := length_grouped_le fun g (hg : g ∈ (Addr.groups a).drop (start + length)) =>
      hsmall g (List.mem_of_mem_drop hg)
    rw [List.length_take] at hleft
    rw [List.length_drop] at hright
    simp only [compressed, List.length_append, List.length_cons]
    omega

theorem length_string (a : Addr) : a.string.toList.length ≤ 39 := by
  cases a with
  | v4 a => exact (length_string4 a).trans (by decide)
  | v6 a =>
    rw [Addr.string]
    split_ifs
    · have hmapped := length_string4 (a.setWidth 32)
      rw [String.toList_append, List.length_append]
      have hfirst : "::ffff:".toList.length = 7 := rfl
      omega
    · exact length_string6 a

theorem utf8ByteSize_toString {n k : ℕ} (hk : 0 < k) (h : n < 10 ^ k) : (toString n).utf8ByteSize ≤ k := by
  have htext : (toString n : String).toList = Nat.toDigits 10 n := by simp
  have hdigits : ∀ c ∈ (toString n : String).toList, isAddrChar c = true := by
    intro c hc
    rw [htext] at hc
    simp [isAddrChar, isHexDigit, isDigit_toDigits c hc]
  rw [utf8ByteSize_of_addrChars hdigits, htext]
  exact (Nat.length_toDigits_le_iff (by decide) hk).mpr h

/-- The text of a prefix has at most 43 bytes. -/
theorem utf8ByteSize_prefix {p : Prefix} (h : p.bits ≤ p.addr.bitLen) : p.string.utf8ByteSize ≤ 43 := by
  have haddr := utf8ByteSize_of_addrChars (isAddrChar_string p.addr)
  have hlength := length_string p.addr
  have hbits : p.bits < 10 ^ 3 := by
    have hlen := bitLen_le p.addr
    omega
  have hnumber := utf8ByteSize_toString (by decide) hbits
  have hslash : "/".utf8ByteSize = 1 := rfl
  rw [Prefix.string, String.utf8ByteSize_append, String.utf8ByteSize_append]
  omega

end Netip
