import RemnanodeLite.Asn.Database

/-! # What is written is what is read

The prefixes of an entry after normalization, the place of every entry and blob
in the file, and the search that finds them again. -/

namespace RemnanodeLite.Asn
open Netip Bytes Distinct

/-! ### Normalized prefixes -/

/- Ascending by address and then by length; no prefix is repeated. -/
def Ascending (ps : List Prefix) : Prop := ps.Pairwise fun p q => prefixKey p < prefixKey q

theorem prefixKey_injective : Function.Injective prefixKey := by
  rintro ⟨a, m⟩ ⟨b, n⟩ h
  cases a with
  | v4 a =>
    cases b with
    | v4 b =>
      simp only [prefixKey, EmbeddingLike.apply_eq_iff_eq, Prod.mk.injEq, true_and] at h
      rw [BitVec.eq_of_toNat_eq h.1, h.2]
    | v6 b => simp [prefixKey] at h
  | v6 a =>
    cases b with
    | v4 b => simp [prefixKey] at h
    | v6 b =>
      simp only [prefixKey, EmbeddingLike.apply_eq_iff_eq, Prod.mk.injEq, true_and] at h
      rw [BitVec.eq_of_toNat_eq h.1, h.2]

theorem is4_masked (p : Prefix) : p.masked.addr.is4 = p.addr.is4 := by
  obtain ⟨addr, bits⟩ := p
  cases addr <;> rfl

theorem isValid_masked (p : Prefix) : isValid p.masked = isValid p := by
  obtain ⟨addr, bits⟩ := p
  cases addr <;> rfl

theorem ascending_normalizePrefixes (ps : List Prefix) (wantV4 : Bool) :
    Ascending (normalizePrefixes ps wantV4) :=
  pairwise_dropRepeats prefixKey_injective (pairwise_sortBy _)

variable {p : Prefix} {entry : Entry} {entries : List Entry}

theorem mem_normalizePrefixes {ps : List Prefix} {wantV4 : Bool} :
    p ∈ normalizePrefixes ps wantV4 ↔
      ∃ q ∈ ps, isValid q = true ∧ q.addr.is4 = wantV4 ∧ q.masked = p := by
  rw [normalizePrefixes, mem_dropRepeats, mem_sortBy, List.mem_filter, List.mem_map]
  constructor
  · rintro ⟨⟨q, hq, rfl⟩, hfamily⟩
    rw [decide_eq_true_eq, is4_masked] at hfamily
    obtain ⟨hmem, hvalid⟩ := List.mem_filter.mp hq
    exact ⟨q, hmem, hvalid, hfamily, rfl⟩
  · rintro ⟨q, hmem, hvalid, hfamily, rfl⟩
    refine ⟨⟨q, List.mem_filter.mpr ⟨hmem, hvalid⟩, rfl⟩, ?_⟩
    rw [decide_eq_true_eq, is4_masked]
    exact hfamily

theorem normalizePrefixes_fits {ps : List Prefix} {wantV4 : Bool}
    (h : p ∈ normalizePrefixes ps wantV4) : isValid p = true ∧ p.addr.is4 = wantV4 := by
  obtain ⟨q, -, hvalid, hfamily, rfl⟩ := mem_normalizePrefixes.mp h
  rw [isValid_masked, is4_masked]
  exact ⟨hvalid, hfamily⟩

/-! ### Records -/

theorem length_record4 (p : Prefix) : (record4 p).length = v4Record := by
  simp [record4, v4Record]

theorem length_record6 (p : Prefix) : (record6 p).length = v6Record := by
  simp [record6, v6Record]

theorem ofLE_singleton {n : ℕ} (h : n < 256) : ofLE [UInt8.ofNat n] = n := by
  have hbyte : (UInt8.ofNat n).toNat = n % 256 := UInt8.toNat_ofNat'
  rw [ofLE, ofLE, hbyte, Nat.mod_eq_of_lt h]
  omega

theorem parse4_record4 (hvalid : isValid p = true) (h4 : p.addr.is4 = true) :
    parse4 (record4 p) = p := by
  obtain ⟨addr, bits⟩ := p
  cases addr with
  | v6 a => cases h4
  | v4 a =>
    have hbits : bits ≤ 32 := of_decide_eq_true hvalid
    have ha : a.toNat < 256 ^ 4 := a.isLt
    have htake : (record4 ⟨.v4 a, bits⟩).take 4 = be 4 a.toNat := List.take_left' (length_be _ _)
    have hdrop : (record4 ⟨.v4 a, bits⟩).drop 4 = [UInt8.ofNat bits] :=
      List.drop_left' (length_be _ _)
    rw [parse4, htake, hdrop, ofBE_be_of_lt ha, BitVec.ofNat_toNat, BitVec.setWidth_eq,
      List.take_of_length_le (by simp), ofLE_singleton (by omega)]

theorem parse6_record6 (hvalid : isValid p = true) (h4 : p.addr.is4 = false) :
    parse6 (record6 p) = p := by
  obtain ⟨addr, bits⟩ := p
  cases addr with
  | v4 a => cases h4
  | v6 a =>
    have hbits : bits ≤ 128 := of_decide_eq_true hvalid
    have ha : a.toNat < 256 ^ 16 := a.isLt
    have htake : (record6 ⟨.v6 a, bits⟩).take 16 = be 16 a.toNat := List.take_left' (length_be _ _)
    have hdrop : (record6 ⟨.v6 a, bits⟩).drop 16 = [UInt8.ofNat bits] :=
      List.drop_left' (length_be _ _)
    rw [parse6, htake, hdrop, ofBE_be_of_lt ha, BitVec.ofNat_toNat, BitVec.setWidth_eq,
      List.take_of_length_le (by simp), ofLE_singleton (by omega)]

structure Prepared (entry : Entry) : Prop where
  valid4 : ∀ p ∈ entry.ipv4, isValid p = true ∧ p.addr.is4 = true
  valid6 : ∀ p ∈ entry.ipv6, isValid p = true ∧ p.addr.is4 = false
  count4 : entry.ipv4.length ≤ maxPrefixesPerFamily
  count6 : entry.ipv6.length ≤ maxPrefixesPerFamily

theorem length_blob (entry : Entry) : (blob entry).length = blobLen entry := by
  rw [blob, List.length_append, length_flatMap_records length_record4,
    length_flatMap_records length_record6, blobLen]

theorem length_blobs (entries : List Entry) :
    (entries.flatMap blob).length = (entries.map blobLen).sum := by
  induction entries with
  | nil => rfl
  | cons entry rest ih =>
    rw [List.flatMap_cons, List.length_append, length_blob, ih, List.map_cons, List.sum_cons]

theorem readBlob_blob {d : DB} {off : ℕ} (h : Prepared entry)
    (hread : readAt d.file off (blobLen entry) = some (blob entry)) :
    d.readBlob off entry.ipv4.length entry.ipv6.length =
      (entry.ipv4.map Prefix.string, entry.ipv6.map Prefix.string) := by
  have h4 : records v4Record entry.ipv4.length (blob entry) = entry.ipv4.map record4 :=
    records_flatMap length_record4 _ _
  have hdrop : (blob entry).drop (entry.ipv4.length * v4Record) = entry.ipv6.flatMap record6 :=
    List.drop_left' (length_flatMap_records length_record4 _)
  have h6 : records v6Record entry.ipv6.length (entry.ipv6.flatMap record6) =
      entry.ipv6.map record6 := by
    have hrecords := records_flatMap length_record6 entry.ipv6 []
    rwa [List.append_nil] at hrecords
  have htext4 : ∀ p ∈ entry.ipv4, prefixText (parse4 (record4 p)) = p.string := by
    intro p hp
    obtain ⟨hvalid, hfamily⟩ := h.valid4 p hp
    rw [parse4_record4 hvalid hfamily, prefixText, if_pos hvalid]
  have htext6 : ∀ p ∈ entry.ipv6, prefixText (parse6 (record6 p)) = p.string := by
    intro p hp
    obtain ⟨hvalid, hfamily⟩ := h.valid6 p hp
    rw [parse6_record6 hvalid hfamily, prefixText, if_pos hvalid]
  rw [blobLen] at hread
  simp only [DB.readBlob, hread, h4, hdrop, h6, List.map_map]
  refine Prod.ext (List.map_congr_left htext4) (List.map_congr_left htext6)

/-! ### The index -/

theorem length_indexEntry (entry : Entry) (dataOff : ℕ) :
    (indexEntry entry dataOff).length = entryLen := by
  simp [indexEntry, entryLen]

theorem length_index (dataOff : ℕ) (entries : List Entry) :
    (index dataOff entries).length = entries.length * entryLen := by
  induction entries generalizing dataOff with
  | nil => simp [index]
  | cons entry rest ih =>
    rw [index, List.length_append, length_indexEntry, ih, List.length_cons]
    ring

theorem index_append (dataOff : ℕ) (before rest : List Entry) :
    index dataOff (before ++ rest) =
      index dataOff before ++ index (dataOff + (before.map blobLen).sum) rest := by
  induction before generalizing dataOff with
  | nil => rfl
  | cons entry before ih =>
    rw [List.cons_append, index, index, ih, List.append_assoc, List.map_cons, List.sum_cons,
      Nat.add_assoc]

theorem blobLen_le (h : Prepared entry) :
    blobLen entry ≤ maxPrefixesPerFamily * (v4Record + v6Record) := by
  have h4 := h.count4
  have h6 := h.count6
  simp only [blobLen, maxPrefixesPerFamily, v4Record, v6Record] at *
  omega

theorem sum_blobLen_le (h : ∀ entry ∈ entries, Prepared entry) :
    (entries.map blobLen).sum ≤ entries.length * (maxPrefixesPerFamily * (v4Record + v6Record)) := by
  induction entries with
  | nil => simp
  | cons entry rest ih =>
    have hfirst := blobLen_le (h entry List.mem_cons_self)
    have hrest := ih fun e he => h e (List.mem_cons_of_mem _ he)
    rw [List.map_cons, List.sum_cons, List.length_cons, Nat.succ_mul]
    omega

/-! ### The file -/

def fileOf (prepared : List Entry) : List UInt8 :=
  header prepared.length ++
    (index (headerLen + prepared.length * entryLen) prepared ++ prepared.flatMap blob)

def dataOffset (before rest : List Entry) : ℕ :=
  headerLen + (before ++ rest).length * entryLen + (before.map blobLen).sum

theorem length_header (count : ℕ) : (header count).length = headerLen := by
  simp [header, magic, headerLen]

theorem readAt_indexEntry (before rest : List Entry) (entry : Entry) :
    readAt (fileOf (before ++ entry :: rest)) (headerLen + before.length * entryLen) entryLen =
      some (indexEntry entry (dataOffset before (entry :: rest))) := by
  have hfile : fileOf (before ++ entry :: rest) =
      (header (before ++ entry :: rest).length ++
        index (headerLen + (before ++ entry :: rest).length * entryLen) before) ++
      (indexEntry entry (dataOffset before (entry :: rest)) ++
        (index (dataOffset before (entry :: rest) + blobLen entry) rest ++
          (before ++ entry :: rest).flatMap blob)) := by
    rw [fileOf, index_append, index, dataOffset]
    simp only [List.append_assoc]
  rw [hfile]
  apply readAt_segment
  · rw [List.length_append, length_header, length_index]
  · exact length_indexEntry entry _

theorem readAt_blob (before rest : List Entry) (entry : Entry) :
    readAt (fileOf (before ++ entry :: rest)) (dataOffset before (entry :: rest)) (blobLen entry) =
      some (blob entry) := by
  have hfile : fileOf (before ++ entry :: rest) =
      (header (before ++ entry :: rest).length ++
        (index (headerLen + (before ++ entry :: rest).length * entryLen) (before ++ entry :: rest) ++
          before.flatMap blob)) ++ (blob entry ++ rest.flatMap blob) := by
    rw [fileOf, List.flatMap_append, List.flatMap_cons]
    simp only [List.append_assoc]
  rw [hfile]
  apply readAt_segment
  · simp only [List.length_append, length_header, length_index, length_blobs, dataOffset,
      Nat.add_assoc]
  · exact length_blob entry

/-! ### The search -/

theorem probe_indexEntry {d : DB} {asn : UInt32} {mid dataOff : ℕ}
    (hread : readAt d.file (headerLen + mid * entryLen) entryLen = some (indexEntry entry dataOff))
    (hprepared : Prepared entry) (hoff : dataOff < 256 ^ 8) :
    d.probe asn mid =
      if entry.asn.toNat < asn.toNat then .less
      else if entry.asn.toNat > asn.toNat then .greater
      else .found (dataOff, entry.ipv4.length, entry.ipv6.length) := by
  have h4 : entry.ipv4.length < 256 ^ 2 := by
    have hcount := hprepared.count4
    simp only [maxPrefixesPerFamily] at hcount
    omega
  have h6 : entry.ipv6.length < 256 ^ 2 := by
    have hcount := hprepared.count6
    simp only [maxPrefixesPerFamily] at hcount
    omega
  have hasn : ofLE ((indexEntry entry dataOff).take 4) = entry.asn.toNat := by
    rw [indexEntry, List.take_left' (length_le _ _)]
    exact ofLE_le_of_lt entry.asn.toNat_lt
  have hdrop4 : (indexEntry entry dataOff).drop 4 =
      le 8 dataOff ++ (le 2 entry.ipv4.length ++ le 2 entry.ipv6.length) :=
    List.drop_left' (length_le _ _)
  have hdrop12 : (indexEntry entry dataOff).drop 12 =
      le 2 entry.ipv4.length ++ le 2 entry.ipv6.length := by
    rw [show (12 : ℕ) = 4 + 8 from rfl, ← List.drop_drop, hdrop4, List.drop_left' (length_le _ _)]
  have hdrop14 : (indexEntry entry dataOff).drop 14 = le 2 entry.ipv6.length := by
    rw [show (14 : ℕ) = 12 + 2 from rfl, ← List.drop_drop, hdrop12, List.drop_left' (length_le _ _)]
  have hfound : (ofLE (((indexEntry entry dataOff).drop 4).take 8),
      ofLE (((indexEntry entry dataOff).drop 12).take 2),
      ofLE (((indexEntry entry dataOff).drop 14).take 2)) =
      (dataOff, entry.ipv4.length, entry.ipv6.length) := by
    rw [hdrop4, hdrop12, hdrop14, List.take_left' (length_le _ _), List.take_left' (length_le _ _),
      List.take_of_length_le (by simp), ofLE_le_of_lt hoff, ofLE_le_of_lt h4, ofLE_le_of_lt h6]
  simp only [DB.probe, hread, hasn, hfound]

theorem prepare_ok {previous : Option UInt32} {prepared : List Entry}
    (hsorted : entries.Pairwise fun a b => a.asn.toNat ≤ b.asn.toNat)
    (hprevious : ∀ p ∈ previous, ∀ entry ∈ entries, p.toNat ≤ entry.asn.toNat)
    (h : prepare previous entries = .ok prepared) :
    prepared = entries.map normalizeEntry ∧ (∀ entry ∈ prepared, Prepared entry) ∧
      (∀ p ∈ previous, ∀ entry ∈ entries, p.toNat < entry.asn.toNat) ∧
      entries.Pairwise fun a b => a.asn.toNat < b.asn.toNat := by
  induction entries generalizing previous prepared with
  | nil =>
    obtain rfl : [] = prepared := Except.ok.inj h
    exact ⟨rfl, by simp, by simp, List.Pairwise.nil⟩
  | cons entry rest ih =>
    obtain ⟨hfirst, hrest⟩ := List.pairwise_cons.mp hsorted
    rw [prepare] at h
    split_ifs at h with hsame h4 h6
    cases htail : prepare (some entry.asn) rest with
    | error message =>
      rw [htail] at h
      cases h
    | ok tail =>
      rw [htail] at h
      obtain rfl : normalizeEntry entry :: tail = prepared := Except.ok.inj h
      have hnext : ∀ p ∈ some entry.asn, ∀ e ∈ rest, p.toNat ≤ e.asn.toNat := by
        intro p hp e he
        obtain rfl := Option.mem_some.mp hp
        exact hfirst e he
      obtain ⟨hmap, hprepared, hless, hpair⟩ := ih hrest hnext htail
      have hself : Prepared (normalizeEntry entry) :=
        ⟨fun p hp => normalizePrefixes_fits hp, fun p hp => normalizePrefixes_fits hp,
          Nat.le_of_not_lt h4, Nat.le_of_not_lt h6⟩
      have hlater : ∀ e ∈ rest, entry.asn.toNat < e.asn.toNat := hless entry.asn rfl
      refine ⟨by rw [hmap, List.map_cons], ?_, ?_, List.pairwise_cons.mpr ⟨hlater, hpair⟩⟩
      · intro e he
        rcases List.mem_cons.mp he with rfl | he
        · exact hself
        · exact hprepared e he
      · intro p hp e he
        have hle := hprevious p hp entry List.mem_cons_self
        have hne : p.toNat ≠ entry.asn.toNat := by
          intro heq
          rw [Option.mem_def] at hp
          exact hsame (hp.trans (congrArg some (UInt32.toNat_inj.mp heq)))
        rcases List.mem_cons.mp he with rfl | he
        · omega
        · have hlt := hlater e he
          omega

theorem write_ok {file : List UInt8} (h : write entries = .ok file) :
    ∃ prepared, file = fileOf prepared ∧ prepared.length < 2 ^ 32 ∧
      (∀ entry ∈ prepared, Prepared entry) ∧
      (prepared.Pairwise fun a b => a.asn.toNat < b.asn.toNat) ∧
      ∀ entry, entry ∈ prepared ↔ ∃ e ∈ entries, normalizeEntry e = entry := by
  rw [write] at h
  split_ifs at h with hmany
  cases hprepare : prepare none (sortBy (fun entry => entry.asn.toNat) entries) with
  | error message =>
    rw [hprepare] at h
    cases h
  | ok prepared =>
    rw [hprepare] at h
    obtain rfl : fileOf prepared = file := Except.ok.inj h
    obtain ⟨hmap, hprepared, -, hpair⟩ := prepare_ok (pairwise_sortBy entries)
      (fun _ hp => by cases hp) hprepare
    refine ⟨prepared, rfl, ?_, hprepared, ?_, ?_⟩
    · rw [hmap, List.length_map, length_sortBy]
      simp only [maxEntries] at hmany
      omega
    · rw [hmap, List.pairwise_map]
      exact hpair
    · intro entry
      rw [hmap, List.mem_map]
      simp only [mem_sortBy]

theorem openDB_fileOf {prepared : List Entry} (hlen : prepared.length < 2 ^ 32) :
    openDB (fileOf prepared) = .ok ⟨fileOf prepared, prepared.length⟩ := by
  have hread : readAt (fileOf prepared) 0 headerLen = some (header prepared.length) := by
    show readAt ([] ++ fileOf prepared) 0 headerLen = _
    exact readAt_segment rfl (length_header _)
  have hcount : ofLE (((header prepared.length).drop 8).take 4) = prepared.length := by
    have hdrop : (header prepared.length).drop 8 = le 4 prepared.length ++ [0, 0, 0, 0] :=
      List.drop_left' rfl
    rw [hdrop, List.take_left' (length_le _ _), ofLE_le_of_lt (by omega)]
  have hmagic : (header prepared.length).take 8 = magic := List.take_left' rfl
  simp only [openDB, hread, hmagic, if_true, hcount]

theorem dataOffset_lt {before rest : List Entry} (hlen : (before ++ rest).length < 2 ^ 32)
    (h : ∀ entry ∈ before ++ rest, Prepared entry) : dataOffset before rest < 2 ^ 63 := by
  have hsum := sum_blobLen_le fun entry he => h entry (List.mem_append_left rest he)
  rw [List.length_append] at hlen
  simp only [dataOffset, List.length_append, headerLen, entryLen, maxPrefixesPerFamily, v4Record,
    v6Record] at *
  omega

variable {prepared : List Entry} {asn : UInt32}

theorem probe_fileOf (asn : UInt32) (hlen : prepared.length < 2 ^ 32)
    (hall : ∀ entry ∈ prepared, Prepared entry) {i : ℕ} (hget : prepared[i]? = some entry) :
    ∃ dataOff, dataOff < 2 ^ 63 ∧
      readAt (fileOf prepared) dataOff (blobLen entry) = some (blob entry) ∧
      DB.probe ⟨fileOf prepared, prepared.length⟩ asn i =
        if entry.asn.toNat < asn.toNat then .less
        else if entry.asn.toNat > asn.toNat then .greater
        else .found (dataOff, entry.ipv4.length, entry.ipv6.length) := by
  obtain ⟨hi, hentry⟩ := List.getElem?_eq_some_iff.mp hget
  have hsplit : prepared = prepared.take i ++ entry :: prepared.drop (i + 1) := by
    rw [← hentry, List.cons_getElem_drop_succ, List.take_append_drop]
  have htake : (prepared.take i).length = i := List.length_take_of_le hi.le
  generalize prepared.take i = before at hsplit htake
  generalize prepared.drop (i + 1) = rest at hsplit
  subst hsplit
  have hoff := dataOffset_lt hlen hall
  have hread := readAt_indexEntry before rest entry
  rw [htake] at hread
  have hself : Prepared entry := hall entry (by simp)
  refine ⟨_, hoff, readAt_blob before rest entry, ?_⟩
  exact probe_indexEntry hread hself (by omega)

theorem prefixesByASN_present (hlen : prepared.length < 2 ^ 32)
    (hall : ∀ entry ∈ prepared, Prepared entry)
    (hsorted : prepared.Pairwise fun a b => a.asn.toNat < b.asn.toNat) (hmem : entry ∈ prepared)
    (hasn : entry.asn = asn) :
    DB.prefixesByASN ⟨fileOf prepared, prepared.length⟩ asn =
      (entry.ipv4.map Prefix.string, entry.ipv6.map Prefix.string) := by
  obtain ⟨k, hk⟩ := List.mem_iff_getElem?.mp hmem
  obtain ⟨hklt, hget⟩ := List.getElem?_eq_some_iff.mp hk
  obtain ⟨dataOff, hoff, hblob, hprobe⟩ := probe_fileOf asn hlen hall hk
  rw [hasn, if_neg (Nat.lt_irrefl _), if_neg (Nat.lt_irrefl _)] at hprobe
  have horder : ∀ i j (hi : i < prepared.length) (hj : j < prepared.length), i < j →
      prepared[i].asn.toNat < prepared[j].asn.toNat :=
    fun i j hi hj hij => List.pairwise_iff_getElem.mp hsorted i j hi hj hij
  have hbelow : ∀ i, i < k → DB.probe ⟨fileOf prepared, prepared.length⟩ asn i = .less := by
    intro i hik
    have hi : i < prepared.length := hik.trans hklt
    obtain ⟨_, -, -, hp⟩ := probe_fileOf asn hlen hall (List.getElem?_eq_getElem hi)
    have hlt := horder i k hi hklt hik
    rw [hget, hasn] at hlt
    rw [hp, if_pos hlt]
  have habove : ∀ i, k < i → i < prepared.length →
      DB.probe ⟨fileOf prepared, prepared.length⟩ asn i = .greater := by
    intro i hki hi
    obtain ⟨_, -, -, hp⟩ := probe_fileOf asn hlen hall (List.getElem?_eq_getElem hi)
    have hlt := horder k i hklt hi hki
    rw [hget, hasn] at hlt
    rw [hp, if_neg (by omega), if_pos hlt]
  have hsearch := Search.search_found hprobe (Nat.zero_le k) hklt hbelow habove
  have havailable : DB.available ⟨fileOf prepared, prepared.length⟩ = true :=
    decide_eq_true (Nat.zero_lt_of_lt hklt)
  rw [DB.prefixesByASN, if_pos havailable, hsearch]
  simp only [if_pos hoff]
  exact readBlob_blob (hall entry hmem) hblob

theorem prefixesByASN_absent (hlen : prepared.length < 2 ^ 32)
    (hall : ∀ entry ∈ prepared, Prepared entry) (hasn : ∀ entry ∈ prepared, entry.asn ≠ asn) :
    DB.prefixesByASN ⟨fileOf prepared, prepared.length⟩ asn = ([], []) := by
  have hsearch : Search.search (DB.probe ⟨fileOf prepared, prepared.length⟩ asn) 0
      prepared.length = none := by
    apply Search.search_absent
    intro i hi found hfound
    obtain ⟨_, -, -, hp⟩ := probe_fileOf asn hlen hall (List.getElem?_eq_getElem hi)
    have hne : prepared[i].asn.toNat ≠ asn.toNat := fun h =>
      hasn _ (List.getElem_mem hi) (UInt32.toNat_inj.mp h)
    rw [hp] at hfound
    split_ifs at hfound with hless hgreater
    omega
  unfold DB.prefixesByASN
  split
  · rw [hsearch]
  · rfl

/-- The file that `Write` leaves for an accepted list of entries gives back, for
every AS number, the masked valid prefixes of its entry, by family, each once and
in ascending order, and nothing for an AS number without an entry. -/
theorem prefixes_survive_the_file {entries : List Entry} {file : List UInt8}
    (h : write entries = .ok file) (asn : UInt32) :
    ∃ d, openDB file = .ok d ∧ ∃ ipv4 ipv6,
      d.prefixesByASN asn = (ipv4.map Prefix.string, ipv6.map Prefix.string) ∧
      Ascending ipv4 ∧ Ascending ipv6 ∧
      (∀ p, p ∈ ipv4 ↔ ∃ e ∈ entries, e.asn = asn ∧
        ∃ q ∈ e.ipv4, isValid q = true ∧ q.addr.is4 = true ∧ q.masked = p) ∧
      (∀ p, p ∈ ipv6 ↔ ∃ e ∈ entries, e.asn = asn ∧
        ∃ q ∈ e.ipv6, isValid q = true ∧ q.addr.is4 = false ∧ q.masked = p) ∧
      ((∀ e ∈ entries, e.asn ≠ asn) → d.prefixesByASN asn = ([], [])) := by
  obtain ⟨prepared, rfl, hlen, hall, hsorted, hmem⟩ := write_ok h
  have habsent : (∀ e ∈ entries, e.asn ≠ asn) →
      DB.prefixesByASN ⟨fileOf prepared, prepared.length⟩ asn = ([], []) := by
    intro hnone
    apply prefixesByASN_absent hlen hall
    intro entry hentry
    obtain ⟨e, he, rfl⟩ := (hmem entry).mp hentry
    exact hnone e he
  refine ⟨_, openDB_fileOf hlen, ?_⟩
  by_cases hentry : ∃ e ∈ entries, e.asn = asn
  · obtain ⟨e, he, rfl⟩ := hentry
    have hin : normalizeEntry e ∈ prepared := (hmem _).mpr ⟨e, he, rfl⟩
    have hread := prefixesByASN_present hlen hall hsorted hin rfl
    -- another entry with this AS number would have been refused
    have honly : ∀ e' ∈ entries, e'.asn = e.asn → normalizeEntry e' = normalizeEntry e := by
      intro e' he' heq
      have hin' : normalizeEntry e' ∈ prepared := (hmem _).mpr ⟨e', he', rfl⟩
      exact eq_of_key_eq hsorted hin' hin (congrArg UInt32.toNat heq)
    refine ⟨_, _, hread, ascending_normalizePrefixes _ _, ascending_normalizePrefixes _ _, ?_, ?_,
      habsent⟩
    · intro p
      constructor
      · intro hp
        exact ⟨e, he, rfl, mem_normalizePrefixes.mp hp⟩
      · rintro ⟨e', he', heq, hq⟩
        rw [← honly e' he' heq]
        exact mem_normalizePrefixes.mpr hq
    · intro p
      constructor
      · intro hp
        exact ⟨e, he, rfl, mem_normalizePrefixes.mp hp⟩
      · rintro ⟨e', he', heq, hq⟩
        rw [← honly e' he' heq]
        exact mem_normalizePrefixes.mpr hq
  · have hnone : ∀ e ∈ entries, e.asn ≠ asn := fun e he heq => hentry ⟨e, he, heq⟩
    refine ⟨[], [], habsent hnone, List.Pairwise.nil, List.Pairwise.nil, ?_, ?_, habsent⟩
    · intro p
      constructor
      · intro hp
        cases hp
      · rintro ⟨e, he, heq, -⟩
        exact absurd heq (hnone e he)
    · intro p
      constructor
      · intro hp
        cases hp
      · rintro ⟨e, he, heq, -⟩
        exact absurd heq (hnone e he)

/- Entries out of order, with a host address, a repeat, a prefix that is too long
and one in the wrong list. -/
def sampleEntries : List Entry :=
  [⟨64501, [], [⟨.v6 0x20010db8000000000000000000000001#128, 32⟩]⟩,
    ⟨64500, [⟨.v4 0xc0000207#32, 24⟩, ⟨.v4 0xc0000200#32, 24⟩, ⟨.v4 0x0a000000#32, 33⟩,
      ⟨.v6 0#128, 0⟩], []⟩]

theorem prefixes_survive_the_file_sample :
    ∃ file, write sampleEntries = .ok file ∧ ∃ d, openDB file = .ok d ∧
      ∃ ipv4 ipv6 : List Prefix, d.prefixesByASN 64500 = (ipv4.map Prefix.string, ipv6.map Prefix.string) ∧
        Ascending ipv4 ∧ ⟨.v4 0xc0000200#32, 24⟩ ∈ ipv4 := by
  have hwrite : (write sampleEntries).isOk = true := by decide +kernel
  obtain ⟨file, hfile⟩ : ∃ file, write sampleEntries = .ok file := by
    cases hresult : write sampleEntries with
    | ok file => exact ⟨file, rfl⟩
    | error message =>
      rw [hresult] at hwrite
      cases hwrite
  obtain ⟨d, hd, ipv4, ipv6, hread, hascending, -, hmem, -⟩ :=
    prefixes_survive_the_file hfile 64500
  refine ⟨file, hfile, d, hd, ipv4, ipv6, hread, hascending, (hmem _).mpr ?_⟩
  exact ⟨_, List.mem_cons_of_mem _ List.mem_cons_self, rfl, _, List.mem_cons_self, by decide,
    by decide, by decide⟩

end RemnanodeLite.Asn
