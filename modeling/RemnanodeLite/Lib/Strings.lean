import Mathlib.Algebra.Order.Ring.Int
import Mathlib.Data.List.Infix

/-! # Texts

The parts of Go's `strings`, `strconv` and `unicode` that the models use, on
lists of characters. -/

namespace Strings

/- `unicode.IsSpace`. -/
def isSpace (c : Char) : Bool :=
  let n := c.toNat
  (9 ≤ n && n ≤ 13) || n = 0x20 || n = 0x85 || n = 0xa0 || n = 0x1680 ||
    (0x2000 ≤ n && n ≤ 0x200a) || n = 0x2028 || n = 0x2029 || n = 0x202f || n = 0x205f || n = 0x3000

def trimSpace (s : List Char) : List Char :=
  ((s.dropWhile isSpace).reverse.dropWhile isSpace).reverse

theorem dropWhile_eq_self {p : Char → Bool} {s : List Char} (h : ∀ c ∈ s, p c = false) :
    s.dropWhile p = s := by
  cases s with
  | nil => rfl
  | cons c s => simp [h c List.mem_cons_self]

theorem trimSpace_eq_self {s : List Char} (h : ∀ c ∈ s, isSpace c = false) : trimSpace s = s := by
  have hrev : ∀ c ∈ s.reverse, isSpace c = false := fun c hc => h c (List.mem_reverse.mp hc)
  rw [trimSpace, dropWhile_eq_self h, dropWhile_eq_self hrev, List.reverse_reverse]

/- `strings.TrimSpace` on strings. -/
def trim (s : String) : String := String.ofList (trimSpace s.toList)

def hexDigit (n : ℕ) : Char := (Nat.digitChar n)

/- `width` hexadecimal digits of `n`. -/
def hex : ℕ → ℕ → List Char
  | 0, _ => []
  | width + 1, n => hex width (n / 16) ++ [hexDigit (n % 16)]

/- One character inside the quotes of `strconv.QuoteToASCII`. -/
def escape (c : Char) : List Char :=
  let n := c.toNat
  if c = '"' || c = '\\' then ['\\', c]
  else if 0x20 ≤ n && n < 0x7f then [c]
  else if n = 7 then ['\\', 'a']
  else if n = 8 then ['\\', 'b']
  else if n = 12 then ['\\', 'f']
  else if n = 10 then ['\\', 'n']
  else if n = 13 then ['\\', 'r']
  else if n = 9 then ['\\', 't']
  else if n = 11 then ['\\', 'v']
  else if n < 0x20 || n = 0x7f then ['\\', 'x'] ++ hex 2 n
  else if n < 0x10000 then ['\\', 'u'] ++ hex 4 n
  else ['\\', 'U'] ++ hex 8 n

def quoteToASCII (s : String) : String :=
  String.ofList (['"'] ++ s.toList.flatMap escape ++ ['"'])

/- `strings.Join`. -/
def join (sep : String) : List String → String
  | [] => ""
  | [s] => s
  | s :: rest => s ++ sep ++ join sep rest

/- `strings.Contains`. -/
def contains (s part : String) : Bool := decide (part.toList <:+: s.toList)

theorem join_cons {sep s : String} {rest : List String} (h : rest ≠ []) :
    join sep (s :: rest) = s ++ sep ++ join sep rest := by
  cases rest with
  | nil => exact absurd rfl h
  | cons t rest => rfl

theorem utf8ByteSize_join_append {sep : String} {xs : List String} (h : xs ≠ [])
    (ys : List String) : (join sep (xs ++ ys)).utf8ByteSize =
      (join sep xs).utf8ByteSize + (ys.map fun y => sep.utf8ByteSize + y.utf8ByteSize).sum := by
  induction xs with
  | nil => exact absurd rfl h
  | cons x xs ih =>
    cases xs with
    | cons z xs =>
      have hrest := ih (List.cons_ne_nil z xs)
      rw [List.cons_append, join_cons (by simp), join_cons (List.cons_ne_nil z xs)]
      simp only [String.utf8ByteSize_append, hrest]
      omega
    | nil =>
      clear ih h
      induction ys generalizing x with
      | nil => rfl
      | cons y ys ih =>
        have hrest := ih y
        simp only [List.cons_append, List.nil_append] at hrest ⊢
        rw [join_cons (List.cons_ne_nil y ys)]
        simp only [String.utf8ByteSize_append, hrest, join, List.map_cons, List.sum_cons]
        omega

end Strings
