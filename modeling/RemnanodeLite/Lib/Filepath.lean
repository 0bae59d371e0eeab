import Mathlib.Data.List.Infix

/-! # Slash-separated paths

The lexical part of Go's `path` and `path/filepath`. A path is a text whose
characters stand for its bytes; a cleaned absolute path is the list of its
names, the innermost first, so that the ancestors of a location are its suffixes. -/

namespace Filepath

abbrev Text := List Char
abbrev Location := List Text

instance : LawfulBEq Text := inferInstance

/- `strings.Split(p, "/")` and `strings.Join(names, "/")`. -/
def split (p : Text) : List Text := p.splitOn '/'
def unsplit (names : List Text) : Text := ['/'].intercalate names

def Plain (name : Text) : Prop := name ≠ [] ∧ name ≠ ['.'] ∧ name ≠ ['.', '.']

instance (name : Text) : Decidable (Plain name) := inferInstanceAs (Decidable (_ ∧ _))

def isAbs (p : Text) : Bool := p.head? = some '/'

/- One name of a path: `out` is what the names before it have come to. -/
def cleanStep (rooted : Bool) (out : List Text) (name : Text) : List Text :=
  if name = [] ∨ name = ['.'] then out
  else if name = ['.', '.'] then match out with
    | [] => if rooted then [] else [name]
    | last :: up => if last = ['.', '.'] then name :: out else up
  else name :: out

/- `path.Clean`. -/
def clean (p : Text) : Text :=
  let names := ((split p).foldl (cleanStep (isAbs p)) []).reverse
  if isAbs p then '/' :: unsplit names
  else if names = [] then ['.'] else unsplit names

/- `filepath.Base`. -/
def base (p : Text) : Text :=
  if p = [] then ['.']
  else match ((p.reverse.dropWhile (· = '/')).takeWhile (· ≠ '/')).reverse with
    | [] => ['/']
    | name => name

/- `filepath.Join` of a cleaned absolute path and a relative one. -/
def join (base : Location) (relative : Text) : Location :=
  (split relative).foldl (cleanStep true) base

/- `filepath.Rel` of cleaned absolute paths, from the root inwards. -/
def relNames : List Text → List Text → List Text
  | b :: base, t :: target =>
    if b = t then relNames base target
    else (b :: base).map (fun _ => ['.', '.']) ++ t :: target
  | base, target => base.map (fun _ => ['.', '.']) ++ target

def rel (base target : Location) : List Text := relNames base.reverse target.reverse

variable {p : Text} {names : List Text} {base : Location}

@[simp] theorem unsplit_split (p : Text) : unsplit (split p) = p := List.intercalate_splitOn '/'

theorem split_unsplit (hnames : ∀ n ∈ names, '/' ∉ n) (hne : names ≠ []) :
    split (unsplit names) = names := List.splitOn_intercalate '/' hnames hne

theorem split_ne_nil (p : Text) : split p ≠ [] := List.splitOnP_ne_nil _ p

theorem slash_notMem_of_mem_split {n : Text} (h : n ∈ split p) : '/' ∉ n := by
  induction p generalizing n with
  | nil =>
    simp only [split, List.splitOn, List.splitOnP_nil, List.mem_singleton] at h
    simp [h]
  | cons c p ih =>
    simp only [split, List.splitOn, List.splitOnP_cons_eq_if_modifyHead] at h
    split_ifs at h with hc
    · rcases List.mem_cons.mp h with rfl | h
      · simp
      · exact ih h
    · cases hs : List.splitOnP (fun x => x == '/') p with
      | nil => exact absurd hs (List.splitOnP_ne_nil _ p)
      | cons first rest =>
        have hmem : ∀ m ∈ first :: rest, '/' ∉ m := by
          intro m hm
          rw [← hs] at hm
          exact ih hm
        rw [hs, List.modifyHead_cons, List.mem_cons] at h
        rcases h with rfl | h
        · have hne : '/' ≠ c := fun he => hc (by simp [← he])
          simpa [hne] using hmem first List.mem_cons_self
        · exact hmem n (List.mem_cons_of_mem _ h)

theorem cleanStep_plain {rooted : Bool} {out : List Text} {n : Text} (h : Plain n) :
    cleanStep rooted out n = n :: out := by
  have hskip : ¬ (n = [] ∨ n = ['.']) := by simp [h.1, h.2.1]
  unfold cleanStep
  rw [if_neg hskip, if_neg h.2.2]

theorem foldl_cleanStep {rooted : Bool} (out : List Text) (h : ∀ n ∈ names, Plain n) :
    names.foldl (cleanStep rooted) out = names.reverse ++ out := by
  induction names generalizing out with
  | nil => rfl
  | cons n names ih =>
    rw [List.foldl_cons, cleanStep_plain (h n List.mem_cons_self),
      ih _ fun m hm => h m (List.mem_cons_of_mem _ hm)]
    simp

theorem join_plain (base : Location) (h : ∀ n ∈ split p, Plain n) :
    join base p = (split p).reverse ++ base := foldl_cleanStep base h

theorem isAbs_of_plain (h : ∀ n ∈ split p, Plain n) : isAbs p = false := by
  cases p with
  | nil => rfl
  | cons c p =>
    by_cases hc : c = '/'
    · have hempty : [] ∈ split (c :: p) := by
        simp [split, List.splitOn, List.splitOnP_cons_eq_if_modifyHead, hc]
      exact absurd rfl (h [] hempty).1
    · simp [isAbs, hc]

theorem clean_plain (h : ∀ n ∈ split p, Plain n) : clean p = p := by
  have hnames : ((split p).foldl (cleanStep (isAbs p)) []).reverse = split p := by
    simp [foldl_cleanStep [] h]
  unfold clean
  dsimp only
  rw [hnames, if_neg (by simp [isAbs_of_plain h]), if_neg (split_ne_nil p), unsplit_split]

theorem relNames_append (base target : List Text) : relNames base (base ++ target) = target := by
  induction base with
  | nil =>
    cases target with
    | nil => rfl
    | cons t target => rfl
  | cons b base ih => simpa [relNames] using ih

theorem rel_append (base target : Location) : rel base (target ++ base) = target.reverse := by
  rw [rel, List.reverse_append, relNames_append]

end Filepath
