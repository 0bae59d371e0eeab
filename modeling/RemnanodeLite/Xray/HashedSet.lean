import Mathlib.Data.Finset.Card
import Mathlib.Data.Finset.Fold

/-! # XOR-hashed sets

`internal/xray/hashedset.go`. The element type stays abstract and `bytes` gives
the bytes of an element, so that the set serves any kind of string. -/

namespace RemnanodeLite.Xray

/-- `HashedSet` (hashedset.go:10-14). -/
structure HashedSet (α : Type) where
  members : Finset α
  hashHigh : BitVec 32
  hashLow : BitVec 32
  deriving DecidableEq

/-- One round of the loop in `djb2Dual` (hashedset.go:66-70). -/
def djb2Step (words : BitVec 32 × BitVec 32) (char : UInt8) : BitVec 32 × BitVec 32 :=
  ((words.1 <<< 5) + words.1 + BitVec.ofNat 32 char.toNat,
   (words.2 <<< 6) + words.2 + BitVec.ofNat 32 char.toNat * 37)

def djb2Dual (value : List UInt8) : BitVec 32 × BitVec 32 :=
  value.foldl djb2Step (5381, 5387)

namespace HashedSet
variable {α : Type} [DecidableEq α] (bytes : α → List UInt8)

def empty : HashedSet α := ⟨∅, 0, 0⟩

def add (s : HashedSet α) (value : α) : HashedSet α :=
  if value ∈ s.members then s
  else ⟨insert value s.members, s.hashHigh ^^^ (djb2Dual (bytes value)).1,
    s.hashLow ^^^ (djb2Dual (bytes value)).2⟩

/- The boolean result of `Delete` is whether the value was a member; no caller
reads it. -/
def delete (s : HashedSet α) (value : α) : HashedSet α :=
  if value ∈ s.members then
    ⟨s.members.erase value, s.hashHigh ^^^ (djb2Dual (bytes value)).1,
      s.hashLow ^^^ (djb2Dual (bytes value)).2⟩
  else s

/-- `NewHashedSet(items...)`. -/
def ofItems (items : List α) : HashedSet α := items.foldl (add bytes) empty

def size (s : HashedSet α) : ℕ := s.members.card

omit [DecidableEq α] in
@[simp] theorem members_empty : (empty : HashedSet α).members = ∅ := rfl

@[simp] theorem members_add (s : HashedSet α) (value : α) :
    (s.add bytes value).members = insert value s.members := by
  unfold add
  split_ifs with h
  · exact (Finset.insert_eq_self.mpr h).symm
  · rfl

@[simp] theorem members_delete (s : HashedSet α) (value : α) :
    (s.delete bytes value).members = s.members.erase value := by
  unfold delete
  split_ifs with h
  · rfl
  · exact (Finset.erase_eq_of_notMem h).symm

theorem members_foldl_add (items : List α) (s : HashedSet α) :
    (items.foldl (add bytes) s).members = s.members ∪ items.toFinset := by
  induction items generalizing s with
  | nil => simp
  | cons x xs ih => simp [ih, Finset.union_insert, Finset.insert_union]

@[simp] theorem members_ofItems (items : List α) :
    (ofItems bytes items).members = items.toFinset := by
  simp [ofItems, members_foldl_add]

end HashedSet

/-- `strconv.FormatInt(int64(int32(value)), 16)`: the sign comes first. -/
def formatInt32Hex (value : BitVec 32) : List Char :=
  if value.toInt < 0 then '-' :: Nat.toDigits 16 value.toInt.natAbs
  else Nat.toDigits 16 value.toInt.natAbs

/-- `formatJavaScriptHashWord` (hashedset.go:55-61). -/
def formatJavaScriptHashWord (value : BitVec 32) : List Char :=
  let encoded := formatInt32Hex value
  if encoded.length ≥ 8 then encoded
  else List.replicate (8 - encoded.length) '0' ++ encoded

def HashedSet.hash64String {α : Type} (s : HashedSet α) : String :=
  String.ofList (formatJavaScriptHashWord s.hashHigh ++ formatJavaScriptHashWord s.hashLow)

namespace HashedSet
variable {α : Type} [DecidableEq α] (bytes : α → List UInt8)

/-- `hash64FromItems` (hashedset.go:74-79); `sort.Strings` compares bytes. -/
def hash64FromItems (items : List α) : String :=
  (ofItems bytes (items.mergeSort fun a b => bytes a ≤ bytes b)).hash64String

/-! ### The words are a digest of the members -/

/- A call of `Add` or `Delete`. -/
inductive Edit (α : Type) where
  | add (value : α)
  | delete (value : α)

def apply (s : HashedSet α) : Edit α → HashedSet α
  | .add value => s.add bytes value
  | .delete value => s.delete bytes value

/- What a sequence of calls makes of a new set. -/
def replay (edits : List (Edit α)) : HashedSet α := edits.foldl (apply bytes) empty

/- The XOR of `word` over a set. -/
def xorOver (word : α → BitVec 32) (members : Finset α) : BitVec 32 :=
  members.fold (· ^^^ ·) 0 word

section XorOver
variable {word : α → BitVec 32} {members : Finset α} {value : α}

theorem xorOver_insert (h : value ∉ members) :
    xorOver word (insert value members) = xorOver word members ^^^ word value := by
  rw [xorOver, Finset.fold_insert h]
  exact BitVec.xor_comm _ _

theorem xorOver_erase (h : value ∈ members) :
    xorOver word (members.erase value) = xorOver word members ^^^ word value := by
  have hback : xorOver word (insert value (members.erase value)) =
      xorOver word (members.erase value) ^^^ word value :=
    xorOver_insert (Finset.notMem_erase value members)
  rw [Finset.insert_erase h] at hback
  rw [hback, BitVec.xor_assoc, BitVec.xor_self, BitVec.xor_zero]

end XorOver

structure Digested (s : HashedSet α) : Prop where
  high : s.hashHigh = xorOver (fun value => (djb2Dual (bytes value)).1) s.members
  low : s.hashLow = xorOver (fun value => (djb2Dual (bytes value)).2) s.members

variable {bytes} {s : HashedSet α}

omit [DecidableEq α] in
theorem Digested.empty : Digested bytes (empty : HashedSet α) := ⟨rfl, rfl⟩

theorem Digested.apply (hs : Digested bytes s) (edit : Edit α) :
    Digested bytes (s.apply bytes edit) := by
  cases edit with
  | add value =>
    rw [HashedSet.apply, HashedSet.add]
    split_ifs with hmem
    · exact hs
    · constructor
      · rw [xorOver_insert hmem, ← hs.high]
      · rw [xorOver_insert hmem, ← hs.low]
  | delete value =>
    rw [HashedSet.apply, HashedSet.delete]
    split_ifs with hmem
    · constructor
      · rw [xorOver_erase hmem, ← hs.high]
      · rw [xorOver_erase hmem, ← hs.low]
    · exact hs

theorem Digested.foldl (hs : Digested bytes s) (edits : List (Edit α)) :
    Digested bytes (edits.foldl (HashedSet.apply bytes) s) := by
  induction edits generalizing s with
  | nil => exact hs
  | cons edit edits ih => exact ih (hs.apply edit)

theorem Digested.replay (edits : List (Edit α)) : Digested bytes (replay bytes edits) :=
  Digested.empty.foldl edits

theorem ofItems_eq_replay (items : List α) :
    ofItems bytes items = HashedSet.replay bytes (items.map Edit.add) := by
  rw [ofItems, HashedSet.replay, List.foldl_map]
  rfl

omit [DecidableEq α] in
theorem Digested.hash64String_eq {s' : HashedSet α} (hs : Digested bytes s)
    (hs' : Digested bytes s') (hmembers : s.members = s'.members) :
    s.hash64String = s'.hash64String := by
  rw [hash64String, hash64String, hs.high, hs.low, hs'.high, hs'.low, hmembers]

/-- Whatever was added and deleted before, the words are the XOR over the current
members; so equal members print alike, and like any list of them. -/
theorem words_are_xor_of_members (bytes : α → List UInt8) (edits : List (Edit α)) :
    (HashedSet.replay bytes edits).hashHigh =
        xorOver (fun value => (djb2Dual (bytes value)).1) (HashedSet.replay bytes edits).members ∧
      (HashedSet.replay bytes edits).hashLow =
        xorOver (fun value => (djb2Dual (bytes value)).2) (HashedSet.replay bytes edits).members ∧
      (∀ edits', (HashedSet.replay bytes edits').members = (HashedSet.replay bytes edits).members →
        (HashedSet.replay bytes edits').hash64String = (HashedSet.replay bytes edits).hash64String) ∧
      ∀ items : List α, (∀ value, value ∈ items ↔ value ∈ (HashedSet.replay bytes edits).members) →
        hash64FromItems bytes items = (HashedSet.replay bytes edits).hash64String := by
  have hdigest : Digested bytes (HashedSet.replay bytes edits) := Digested.replay edits
  refine ⟨hdigest.high, hdigest.low, ?_, ?_⟩
  · intro edits' hmembers
    exact (Digested.replay edits').hash64String_eq hdigest hmembers
  · intro items hitems
    rw [hash64FromItems, ofItems_eq_replay]
    refine (Digested.replay _).hash64String_eq hdigest ?_
    rw [← ofItems_eq_replay, members_ofItems]
    ext value
    rw [List.mem_toFinset, List.mem_mergeSort]
    exact hitems value

end HashedSet

end RemnanodeLite.Xray
