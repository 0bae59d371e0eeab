import RemnanodeLite.Lib.Strings

/-! # Texts that need not be encoded well

A Go string as the runes that a `range` loop over it yields: characters, and
bytes that do not belong to an encoded character. With them, the parts of
`strings`, and `bufio.Scanner` with `ScanLines`. -/

inductive Rune where
  | char (c : Char)
  | byte (b : UInt8)
  deriving DecidableEq

abbrev Runes := List Rune

instance : LawfulBEq Runes := inferInstance

namespace Rune

def size : Rune → ℕ
  | char c => c.utf8Size
  | byte _ => 1

/- `unicode.IsSpace` and `unicode.IsControl`. -/
def isSpace : Rune → Bool
  | char c => Strings.isSpace c
  | byte _ => false

def isControl : Rune → Bool
  | char c => c.toNat < 0x20 || (0x7f ≤ c.toNat && c.toNat < 0xa0)
  | byte _ => false

def isChar : Rune → Bool
  | char _ => true
  | byte _ => false

end Rune

namespace Runes
open Rune

def ofString (s : String) : Runes := s.toList.map char

def size (s : Runes) : ℕ := (s.map Rune.size).sum

/- `strings.TrimSpace`, `strings.TrimPrefix`, and `strings.SplitN(s, "=", 2)` with two parts. -/
def trimSpace (s : Runes) : Runes := ((s.dropWhile isSpace).reverse.dropWhile isSpace).reverse

def trimStart (start s : Runes) : Runes := if start <+: s then s.drop start.length else s

def cut (sep : Rune) : Runes → Option (Runes × Runes)
  | [] => none
  | c :: s => if c = sep then some ([], s) else (cut sep s).map fun parts => (c :: parts.1, parts.2)

section
variable {s t : Runes} {c sep : Rune}

@[simp] theorem size_append (s t : Runes) : size (s ++ t) = size s + size t := by
  simp [size]

@[simp] theorem size_cons (c : Rune) (s : Runes) : size (c :: s) = c.size + size s := by
  simp [size]

theorem dropWhile_eq_self (h : ∀ c ∈ s, isSpace c = false) : s.dropWhile isSpace = s := by
  cases s with
  | nil => rfl
  | cons c s => simp [h c List.mem_cons_self]

theorem trimSpace_eq_self (h : ∀ c ∈ s, isSpace c = false) : trimSpace s = s := by
  have hreverse : ∀ c ∈ s.reverse, isSpace c = false := fun c hc => h c (List.mem_reverse.mp hc)
  rw [trimSpace, dropWhile_eq_self h, dropWhile_eq_self hreverse, List.reverse_reverse]

theorem trimSpace_append_space (h : isSpace c = true) : trimSpace (s ++ [c]) = trimSpace s := by
  unfold trimSpace
  by_cases hall : s.dropWhile isSpace = []
  · have hboth : (s ++ [c]).dropWhile isSpace = [] := by
      rw [List.dropWhile_append, hall]
      simp [h]
    rw [hboth, hall]
  · have happend : (s ++ [c]).dropWhile isSpace = s.dropWhile isSpace ++ [c] := by
      rw [List.dropWhile_append]
      simp [hall]
    rw [happend]
    simp [h]

theorem cut_append (h : sep ∉ s) : cut sep (s ++ sep :: t) = some (s, t) := by
  induction s with
  | nil => simp [cut]
  | cons c s ih =>
    obtain ⟨hc, hs⟩ := not_or.mp (mt List.mem_cons.mpr h)
    simp [cut, Ne.symm hc, ih hs]

theorem idxOf_cut (sep : Rune) (s : Runes) :
    (s.idxOf? sep).map (fun index => s.take index) = (cut sep s).map Prod.fst := by
  induction s with
  | nil => rfl
  | cons c s ih =>
    by_cases hc : c = sep
    · simp [cut, hc, List.idxOf?_cons]
    · have hmap : (s.idxOf? sep).map (fun index => c :: s.take index) =
          ((cut sep s).map Prod.fst).map (c :: ·) := by
        rw [← ih, Option.map_map]
        rfl
      simpa [cut, hc, List.idxOf?_cons, Option.map_map, Function.comp_def] using hmap

end

/-! ### Lines -/

def newline : Rune := char '\n'
def carriageReturn : Rune := char '\r'

/- The lines of a text; one that is empty at the end is none. -/
def lines : Runes → List Runes
  | [] => []
  | c :: s =>
    if c = newline then [] :: lines s
    else match lines s with
      | [] => [[c]]
      | line :: rest => (c :: line) :: rest

def unlines (ls : List Runes) : Runes := ls.flatMap fun line => line ++ [newline]

def dropCR (line : Runes) : Runes :=
  if line.getLast? = some carriageReturn then line.dropLast else line

section
variable {σ ε : Type} (limit : ℕ) (tooLong : ε) (body : σ → Runes → Except ε σ)

/- `for scanner.Scan() { … }` over the lines, with `scanner.Err()` after it: a line that does
not fit into the buffer ends the loop. -/
def scan : List Runes → σ → Except ε σ
  | [], s => .ok s
  | line :: rest, s =>
    if limit ≤ size line then .error tooLong
    else do
      let s ← body s (dropCR line)
      scan rest s

end

section
variable {s line : Runes} {ls : List Runes}

@[simp] theorem unlines_nil : unlines [] = [] := rfl

@[simp] theorem unlines_cons (line : Runes) (ls : List Runes) :
    unlines (line :: ls) = line ++ newline :: unlines ls := by
  simp [unlines]

@[simp] theorem unlines_append (ls ms : List Runes) : unlines (ls ++ ms) = unlines ls ++ unlines ms := by
  simp [unlines]

theorem lines_append (h : newline ∉ line) : lines (line ++ newline :: s) = line :: lines s := by
  induction line with
  | nil => simp [lines]
  | cons c line ih =>
    obtain ⟨hc, hline⟩ := not_or.mp (mt List.mem_cons.mpr h)
    simp [lines, Ne.symm hc, ih hline]

theorem lines_unlines (h : ∀ line ∈ ls, newline ∉ line) : lines (unlines ls) = ls := by
  induction ls with
  | nil => rfl
  | cons line ls ih =>
    rw [unlines_cons, lines_append (h line List.mem_cons_self),
      ih fun other hother => h other (List.mem_cons_of_mem _ hother)]

theorem newline_notMem_lines : ∀ line ∈ lines s, newline ∉ line := by
  induction s with
  | nil => simp [lines]
  | cons c s ih =>
    intro line hline
    rw [lines] at hline
    split_ifs at hline with hc
    · rcases List.mem_cons.mp hline with rfl | hline
      · simp
      · exact ih line hline
    · cases hs : lines s with
      | nil =>
        rw [hs] at hline
        simp only [List.mem_singleton] at hline
        simp [hline, Ne.symm hc]
      | cons first rest =>
        rw [hs] at hline ih
        rcases List.mem_cons.mp hline with rfl | hline
        · exact mt List.mem_cons.mp (not_or.mpr ⟨Ne.symm hc, ih first List.mem_cons_self⟩)
        · exact ih line (List.mem_cons_of_mem _ hline)

theorem size_le_unlines (h : line ∈ ls) : size line + 1 ≤ size (unlines ls) := by
  induction ls with
  | nil => cases h
  | cons first ls ih =>
    have hnewline : newline.size = 1 := by decide
    rw [unlines_cons, size_append, size_cons, hnewline]
    rcases List.mem_cons.mp h with rfl | h
    · omega
    · have hrest := ih h
      omega

theorem dropCR_cases (line : Runes) : dropCR line = line ∨ line = dropCR line ++ [carriageReturn] := by
  unfold dropCR
  split_ifs with hlast
  · exact .inr (List.dropLast_append_getLast? _ hlast).symm
  · exact .inl rfl

theorem size_dropCR_le (line : Runes) : size (dropCR line) ≤ size line := by
  rcases dropCR_cases line with heq | heq
  · exact le_of_eq (congrArg size heq)
  · conv_rhs => rw [heq]
    rw [size_append]
    exact Nat.le_add_right _ _

theorem newline_notMem_dropCR (h : newline ∉ line) : newline ∉ dropCR line := by
  rcases dropCR_cases line with heq | heq
  · rwa [heq]
  · intro hmem
    rw [heq] at h
    exact h (List.mem_append_left _ hmem)

@[simp] theorem trimSpace_dropCR (line : Runes) : trimSpace (dropCR line) = trimSpace line := by
  rcases dropCR_cases line with heq | heq
  · rw [heq]
  · conv_rhs => rw [heq]
    rw [trimSpace_append_space (by decide)]

end

section
variable {σ ε : Type} {limit : ℕ} {tooLong : ε} {body : σ → Runes → Except ε σ} {ls : List Runes}

theorem scan_ok_iff {s t : σ} : scan limit tooLong body ls s = .ok t ↔
    (∀ line ∈ ls, size line < limit) ∧ (ls.map dropCR).foldlM body s = .ok t := by
  induction ls generalizing s with
  | nil => simp [scan, pure, Except.pure]
  | cons line ls ih =>
    rw [scan]
    by_cases hlong : limit ≤ size line
    · rw [if_pos hlong]
      constructor
      · intro h
        cases h
      · intro h
        exact absurd (h.1 line List.mem_cons_self) (Nat.not_lt.mpr hlong)
    · rw [if_neg hlong, List.map_cons, List.foldlM_cons, List.forall_mem_cons]
      cases hbody : body s (dropCR line) with
      | error e =>
        constructor
        · intro h
          cases h
        · intro h
          cases h.2
      | ok s' =>
        constructor
        · intro h
          obtain ⟨hrest, hfold⟩ := ih.mp h
          exact ⟨⟨Nat.lt_of_not_le hlong, hrest⟩, hfold⟩
        · intro h
          exact ih.mpr ⟨h.1.2, h.2⟩

end

end Runes
