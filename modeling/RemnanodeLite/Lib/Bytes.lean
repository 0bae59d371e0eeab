import Mathlib.Tactic.Ring

/-! # Byte strings

Fixed-width integers in both byte orders, reads at an offset, and tables of
records of one size. -/

namespace Bytes

/- The low `n` bytes of `v`, least significant first. -/
def le : ℕ → ℕ → List UInt8
  | 0, _ => []
  | n + 1, v => UInt8.ofNat v :: le n (v / 256)

def ofLE : List UInt8 → ℕ
  | [] => 0
  | b :: bs => b.toNat + 256 * ofLE bs

def be (n v : ℕ) : List UInt8 := (le n v).reverse

def ofBE (bs : List UInt8) : ℕ := ofLE bs.reverse

@[simp] theorem length_le (n v : ℕ) : (le n v).length = n := by
  induction n generalizing v with
  | zero => rfl
  | succ n ih => simp only [le, List.length_cons, ih]

@[simp] theorem length_be (n v : ℕ) : (be n v).length = n := by
  rw [be, List.length_reverse, length_le]

theorem ofLE_le (n v : ℕ) : ofLE (le n v) = v % 256 ^ n := by
  induction n generalizing v with
  | zero => simp [le, ofLE, Nat.mod_one]
  | succ n ih =>
    have hbyte : (UInt8.ofNat v).toNat = v % 256 := UInt8.toNat_ofNat'
    have hpow : 256 ^ (n + 1) = 256 * 256 ^ n := by ring
    rw [le, ofLE, ih, hbyte, hpow, Nat.mod_mul]

variable {n v i j : ℕ}

theorem ofLE_le_of_lt (h : v < 256 ^ n) : ofLE (le n v) = v := by
  rw [ofLE_le, Nat.mod_eq_of_lt h]

theorem ofBE_be_of_lt (h : v < 256 ^ n) : ofBE (be n v) = v := by
  rw [ofBE, be, List.reverse_reverse, ofLE_le_of_lt h]

inductive Order where
  | little
  | big
  deriving DecidableEq

def Order.put : Order → ℕ → ℕ → List UInt8
  | little => le
  | big => be

def Order.get : Order → List UInt8 → ℕ
  | little => ofLE
  | big => ofBE

@[simp] theorem Order.length_put (o : Order) (n v : ℕ) : (o.put n v).length = n := by
  cases o with
  | little => exact length_le n v
  | big => exact length_be n v

theorem Order.get_put_of_lt (o : Order) (hv : v < 256 ^ n) : o.get (o.put n v) = v := by
  cases o with
  | little => exact ofLE_le_of_lt hv
  | big => exact ofBE_be_of_lt hv

/- `bytes[i:j]`. -/
def slice (bytes : List UInt8) (i j : ℕ) : List UInt8 := (bytes.take j).drop i

theorem length_slice {bytes : List UInt8} (hj : j ≤ bytes.length) :
    (slice bytes i j).length = j - i := by
  rw [slice, List.length_drop, List.length_take]
  omega

theorem slice_append_left {xs ys : List UInt8} (hj : j ≤ xs.length) :
    slice (xs ++ ys) i j = slice xs i j := by
  rw [slice, slice, List.take_append_of_le_length hj]

theorem slice_append_right {xs ys : List UInt8} (hi : xs.length ≤ i) (hij : i ≤ j) :
    slice (xs ++ ys) i j = slice ys (i - xs.length) (j - xs.length) := by
  have hxs : xs.take j = xs := List.take_of_length_le (by omega)
  rw [slice, slice, List.take_append, hxs, List.drop_append, List.drop_eq_nil_of_le hi,
    List.nil_append]

theorem slice_self (xs : List UInt8) : slice xs 0 xs.length = xs := by
  rw [slice, List.take_length, List.drop_zero]

/-! ### Reading at an offset -/

/- A read of exactly `n` bytes; it fails at the end of the file. -/
def readAt (file : List UInt8) (off n : ℕ) : Option (List UInt8) :=
  if ((file.drop off).take n).length = n then some ((file.drop off).take n) else none

theorem readAt_segment {before segment rest : List UInt8} {off : ℕ} (hoff : before.length = off)
    (hn : segment.length = n) :
    readAt (before ++ (segment ++ rest)) off n = some segment := by
  have hdrop : (before ++ (segment ++ rest)).drop off = segment ++ rest :=
    List.drop_left' hoff
  have htake : (segment ++ rest).take n = segment := List.take_left' hn
  rw [readAt, hdrop, htake, if_pos hn]

/-! ### Records of one size -/

def records (size : ℕ) : ℕ → List UInt8 → List (List UInt8)
  | 0, _ => []
  | n + 1, bytes => bytes.take size :: records size n (bytes.drop size)

variable {α : Type*} {f : α → List UInt8} {size : ℕ}

theorem length_flatMap_records (hf : ∀ a, (f a).length = size) (l : List α) :
    (l.flatMap f).length = l.length * size := by
  induction l with
  | nil => simp
  | cons a l ih => rw [List.flatMap_cons, List.length_append, hf, ih, List.length_cons]; ring

theorem records_flatMap (hf : ∀ a, (f a).length = size) (l : List α) (rest : List UInt8) :
    records size l.length (l.flatMap f ++ rest) = l.map f := by
  induction l with
  | nil => rfl
  | cons a l ih =>
    rw [List.length_cons, records, List.flatMap_cons, List.append_assoc,
      List.take_left' (hf a), List.drop_left' (hf a), ih, List.map_cons]

end Bytes
