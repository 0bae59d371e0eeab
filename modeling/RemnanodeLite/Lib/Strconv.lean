import RemnanodeLite.Lib.Strings

/-! # Decimal numbers and words in texts

`strconv.Itoa`, `strconv.Atoi`, `strings.Fields` and the text behind the last
occurrence of a pattern. -/

namespace Strconv

/-! ### Decimal numbers -/

def itoa (n : ℤ) : List Char :=
  if n < 0 then '-' :: Nat.toDigits 10 n.natAbs else Nat.toDigits 10 n.natAbs

def unsigned (s : List Char) : Option ℕ :=
  if s = [] ∨ !s.all Char.isDigit then none else some (Nat.ofDigitChars 10 s 0)

def signed : List Char → Option ℤ
  | '-' :: digits => (unsigned digits).map fun n : ℕ => -(n : ℤ)
  | '+' :: digits => (unsigned digits).map fun n : ℕ => (n : ℤ)
  | digits => (unsigned digits).map fun n : ℕ => (n : ℤ)

def isInt64 (n : ℤ) : Bool := -2 ^ 63 ≤ n && n < 2 ^ 63

/- The `int64` that a result of its arithmetic wraps around to. -/
def int64 (n : ℤ) : ℤ := n.bmod (2 ^ 64)

theorem int64_eq_self {n : ℤ} (hlow : -2 ^ 63 ≤ n) (hhigh : n < 2 ^ 63) : int64 n = n :=
  Int.bmod_eq_of_le_mul_two (by omega) (by omega)

/- `strconv.Atoi` where an `int` has 64 bits. -/
def atoi (s : List Char) : Option ℤ := (signed s).filter isInt64

theorem isDigit_toDigits {n : ℕ} {c : Char} (h : c ∈ Nat.toDigits 10 n) : c.isDigit = true :=
  Nat.isDigit_of_mem_toDigits (by decide) (by decide) h

theorem unsigned_toDigits (n : ℕ) : unsigned (Nat.toDigits 10 n) = some n := by
  have hall : (Nat.toDigits 10 n).all Char.isDigit = true :=
    List.all_eq_true.mpr fun c hc => isDigit_toDigits hc
  simp [unsigned, hall, Nat.ofDigitChars_ten_toDigits]

theorem signed_toDigits (n : ℕ) : signed (Nat.toDigits 10 n) = some (n : ℤ) := by
  have hdigits : ∀ c ∈ Nat.toDigits 10 n, c.isDigit = true := fun c hc => isDigit_toDigits hc
  unfold signed
  split
  · next digits heq =>
    have hsign := hdigits '-' (heq ▸ List.mem_cons_self)
    exact absurd hsign (by decide)
  · next digits heq =>
    have hsign := hdigits '+' (heq ▸ List.mem_cons_self)
    exact absurd hsign (by decide)
  · rw [unsigned_toDigits]
    rfl

theorem atoi_itoa {n : ℤ} (h : isInt64 n = true) : atoi (itoa n) = some n := by
  have hsigned : signed (itoa n) = some n := by
    unfold itoa
    split_ifs with hn
    · have hminus : signed ('-' :: Nat.toDigits 10 n.natAbs) =
          (unsigned (Nat.toDigits 10 n.natAbs)).map fun k : ℕ => -(k : ℤ) := rfl
      rw [hminus, unsigned_toDigits, Option.map_some, Option.some.injEq]
      omega
    · rw [signed_toDigits, Option.some.injEq]
      omega
  simp only [atoi, hsigned, Option.filter_some, h, if_true]

theorem mem_itoa {n : ℤ} {c : Char} (h : c ∈ itoa n) : c = '-' ∨ c.isDigit = true := by
  unfold itoa at h
  split_ifs at h
  · rcases List.mem_cons.mp h with rfl | h
    · exact .inl rfl
    · exact .inr (isDigit_toDigits h)
  · exact .inr (isDigit_toDigits h)

theorem itoa_ne_nil (n : ℤ) : itoa n ≠ [] := by
  unfold itoa
  split_ifs
  · simp
  · exact Nat.toDigits_ne_nil

/-! ### Words -/

def fieldsFrom (word : List Char) : List Char → List (List Char)
  | [] => if word = [] then [] else [word.reverse]
  | c :: rest =>
    if Strings.isSpace c then
      if word = [] then fieldsFrom [] rest else word.reverse :: fieldsFrom [] rest
    else fieldsFrom (c :: word) rest

/- `strings.Fields`. -/
def fields (s : List Char) : List (List Char) := fieldsFrom [] s

theorem fieldsFrom_append {word w rest : List Char} (h : ∀ c ∈ w, Strings.isSpace c = false) :
    fieldsFrom word (w ++ rest) = fieldsFrom (w.reverse ++ word) rest := by
  induction w generalizing word with
  | nil => rfl
  | cons c w ih =>
    have hc : Strings.isSpace c = false := h c List.mem_cons_self
    simp only [List.cons_append, fieldsFrom, hc, Bool.false_eq_true, if_false]
    rw [ih fun d hd => h d (List.mem_cons_of_mem c hd)]
    simp

theorem fields_cons {w rest : List Char} {c : Char} (hw : w ≠ [])
    (h : ∀ d ∈ w, Strings.isSpace d = false) (hc : Strings.isSpace c = true) :
    fields (w ++ c :: rest) = w :: fields rest := by
  unfold fields
  rw [fieldsFrom_append h]
  simp [fieldsFrom, hc, hw]

/-! ### The last occurrence of a pattern -/

/- What follows the last occurrence. -/
def afterLast (pattern : List Char) : List Char → Option (List Char)
  | [] => if pattern = [] then some [] else none
  | c :: rest => (afterLast pattern rest).or
      (if pattern.isPrefixOf (c :: rest) then some ((c :: rest).drop pattern.length) else none)

theorem afterLast_eq_none {p : Char} {pattern s : List Char} (h : p ∉ s) :
    afterLast (p :: pattern) s = none := by
  induction s with
  | nil => rfl
  | cons c s ih =>
    have hne : (p == c) = false := by
      simp only [beq_eq_false_iff_ne]
      exact fun heq => h (heq ▸ List.mem_cons_self)
    simp [afterLast, ih fun hs => h (List.mem_cons_of_mem c hs), List.isPrefixOf, hne]

theorem afterLast_append {p : Char} {pattern before after : List Char}
    (hp : p ∉ pattern) (h : p ∉ after) :
    afterLast (p :: pattern) (before ++ (p :: pattern ++ after)) = some after := by
  induction before with
  | nil =>
    have hrest : afterLast (p :: pattern) (pattern ++ after) = none :=
      afterLast_eq_none (by simp [hp, h])
    simp [afterLast, hrest, List.isPrefixOf]
  | cons c before ih =>
    simp only [List.cons_append] at ih ⊢
    simp [afterLast, ih]

end Strconv
