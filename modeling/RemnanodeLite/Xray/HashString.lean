import RemnanodeLite.Lib.NetipRoundTrip
import RemnanodeLite.Xray.HashedSet

/-! # The string of a hashed set determines its words

A word takes eight characters, or nine if it is negative with eight digits; then the
sign comes first. In a string of seventeen characters the ninth tells which of the two
words is the long one. -/

namespace RemnanodeLite.Xray
open Netip (hexVal isHexDigit fromDigits)

theorem formatJavaScriptHashWord_eq (v : BitVec 32) : formatJavaScriptHashWord v =
    List.replicate (8 - (formatInt32Hex v).length) '0' ++ formatInt32Hex v := by
  unfold formatJavaScriptHashWord
  dsimp only
  split_ifs with hlong
  · rw [Nat.sub_eq_zero_of_le hlong]
    rfl
  · rfl

theorem sign_notMem_digits (n : ℕ) : '-' ∉ Nat.toDigits 16 n := by
  intro hmem
  have hdigit := Netip.isHexDigit_toDigits '-' hmem
  exact absurd hdigit (by decide)

theorem length_digits (v : BitVec 32) : (Nat.toDigits 16 v.toInt.natAbs).length ≤ 8 := by
  rw [Nat.length_toDigits_le_iff (by decide) (by decide)]
  have hlow := BitVec.le_toInt v
  have hhigh := BitVec.toInt_lt (x := v)
  omega

/-! ### One word -/

def readWord (s : List Char) : ℤ :=
  if '-' ∈ s then -(fromDigits 16 ((s.dropWhile (· ≠ '-')).tail.map hexVal) : ℤ)
  else fromDigits 16 (s.map hexVal)

theorem fromDigits_padded (k : ℕ) (s : List Char) :
    fromDigits 16 ((List.replicate k '0' ++ s).map hexVal) = fromDigits 16 (s.map hexVal) := by
  have hzeros : fromDigits 16 ((List.replicate k '0').map hexVal) = 0 := by
    induction k with
    | zero => rfl
    | succ k ih =>
      rw [List.replicate_succ', List.map_append, List.map_singleton, Netip.fromDigits_append, ih]
      decide
  simp only [fromDigits] at hzeros ⊢
  rw [List.map_append, List.foldl_append, hzeros]

theorem dropWhile_padded (k : ℕ) (s : List Char) :
    (List.replicate k '0' ++ '-' :: s).dropWhile (· ≠ '-') = '-' :: s := by
  induction k with
  | zero => simp
  | succ k ih =>
    rw [List.replicate_succ, List.cons_append, List.dropWhile_cons_of_pos (by decide)]
    exact ih

theorem readWord_format (v : BitVec 32) : readWord (formatJavaScriptHashWord v) = v.toInt := by
  have hdigits : fromDigits 16 ((Nat.toDigits 16 v.toInt.natAbs).map hexVal) = v.toInt.natAbs :=
    Netip.fromDigits_toDigits (by decide) Netip.hexVal_digitChar _
  rw [formatJavaScriptHashWord_eq]
  generalize 8 - (formatInt32Hex v).length = k
  unfold readWord formatInt32Hex
  by_cases hneg : v.toInt < 0
  · rw [if_pos hneg, if_pos (by simp), dropWhile_padded, List.tail_cons, hdigits]
    omega
  · have hunsigned : '-' ∉ List.replicate k '0' ++ Nat.toDigits 16 v.toInt.natAbs := by
      rw [List.mem_append, not_or]
      refine ⟨fun hmem => ?_, sign_notMem_digits _⟩
      exact absurd (List.eq_of_mem_replicate hmem) (by decide)
    rw [if_neg hneg, if_neg hunsigned, fromDigits_padded, hdigits]
    omega

theorem formatJavaScriptHashWord_injective {v v' : BitVec 32}
    (h : formatJavaScriptHashWord v = formatJavaScriptHashWord v') : v = v' := by
  have hvalue : v.toInt = v'.toInt := by rw [← readWord_format v, h, readWord_format]
  exact BitVec.eq_of_toInt_eq hvalue

/-! ### Two words -/

theorem word_shape (v : BitVec 32) : (formatJavaScriptHashWord v).length = 8 ∨
    ∃ digits, formatJavaScriptHashWord v = '-' :: digits ∧ digits.length = 8 ∧ '-' ∉ digits := by
  have hshort := length_digits v
  rw [formatJavaScriptHashWord_eq]
  by_cases hnine : (formatInt32Hex v).length ≤ 8
  · left
    rw [List.length_append, List.length_replicate]
    omega
  · unfold formatInt32Hex at hnine ⊢
    split_ifs at hnine ⊢
    · refine .inr ⟨_, ?_, ?_, sign_notMem_digits v.toInt.natAbs⟩
      · rw [Nat.sub_eq_zero_of_le (by omega)]
        rfl
      · rw [List.length_cons] at hnine
        omega
    · exact absurd hshort hnine

/- The ninth character is the sign of the second word or a digit of the first. -/
theorem no_shift {high low high' low' : BitVec 32} (hhigh : (formatJavaScriptHashWord high).length = 8)
    (hhigh' : (formatJavaScriptHashWord high').length ≠ 8) :
    formatJavaScriptHashWord high ++ formatJavaScriptHashWord low ≠
      formatJavaScriptHashWord high' ++ formatJavaScriptHashWord low' := by
  intro h
  obtain ⟨digits, heq, hlength, hsign⟩ := (word_shape high').resolve_left hhigh'
  have htotal := congrArg List.length h
  simp only [List.length_append, heq, List.length_cons, hhigh, hlength] at htotal
  have hlow : (formatJavaScriptHashWord low).length ≠ 8 := by
    rcases word_shape low' with hlow' | ⟨digits', hlow', hlength', -⟩
    · omega
    · rw [hlow', List.length_cons] at htotal
      omega
  obtain ⟨lower, hlower, -⟩ := (word_shape low).resolve_left hlow
  have hninth := congrArg (fun s => s[8]?) h
  rw [heq, hlower] at hninth
  have hleft : (formatJavaScriptHashWord high ++ '-' :: lower)[8]? = some '-' := by
    rw [List.getElem?_append_right hhigh.le, hhigh]
    rfl
  have hright : ('-' :: digits ++ formatJavaScriptHashWord low')[8]? = digits[7]? := by
    rw [List.cons_append, List.getElem?_cons_succ, List.getElem?_append_left (by omega)]
  exact hsign (List.mem_of_getElem? (hright.symm.trans (hninth.symm.trans hleft)))

/-- Two sets print alike exactly if they agree in both words. -/
theorem HashedSet.hash64String_eq_iff {α : Type} (s s' : HashedSet α) :
    s.hash64String = s'.hash64String ↔ s.hashHigh = s'.hashHigh ∧ s.hashLow = s'.hashLow := by
  refine ⟨fun h => ?_, fun ⟨hhigh, hlow⟩ => by rw [hash64String, hash64String, hhigh, hlow]⟩
  have hwords := String.ofList_injective h
  have hlength : (formatJavaScriptHashWord s.hashHigh).length =
      (formatJavaScriptHashWord s'.hashHigh).length := by
    rcases word_shape s.hashHigh with hshort | ⟨digits, heq, hlen, -⟩
    · by_contra hne
      exact no_shift hshort (fun h8 => hne (hshort.trans h8.symm)) hwords
    · rcases word_shape s'.hashHigh with hshort' | ⟨digits', heq', hlen', -⟩
      · refine absurd hwords.symm (no_shift hshort' ?_)
        rw [heq, List.length_cons, hlen]
        decide
      · rw [heq, heq', List.length_cons, List.length_cons, hlen, hlen']
  obtain ⟨hhigh, hlow⟩ := List.append_inj hwords hlength
  exact ⟨formatJavaScriptHashWord_injective hhigh, formatJavaScriptHashWord_injective hlow⟩

end RemnanodeLite.Xray
