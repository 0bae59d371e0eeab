import RemnanodeLite.Rnlctl.Filesystem

/-! # Unpacking a release archive

`extractBundleArchive` of `bundle.go`. The entries come from an untrusted
archive, so that names, types, modes and sizes are arbitrary. -/

namespace RemnanodeLite.Rnlctl
open Filepath FileTree Program

def bundleTopDirectory : Text := "remnanode-lite".toList
def releaseManifest : Text := "release-manifest.json".toList

def maxBundleFiles : ℕ := 512
def maxBundleEntries : ℕ := 512
def maxBundleFileBytes : ℕ := 256 * 2 ^ 20
def maxBundleTotalBytes : ℕ := 512 * 2 ^ 20

def validateBundleRelativePath (value : Text) : Except Failure Unit :=
  if value = [] ∨ value.length > 512 ∨ '\x00' ∈ value ∨ '\\' ∈ value then
    .error (.errorf "unsafe path" [])
  else if isAbs value ∨ clean value ≠ value ∨ value = ['.'] ∨ ['.', '.', '/'] <+: value then
    .error (.errorf "path is not a canonical relative path" [])
  else if ∃ component ∈ split value, ¬ Plain component then
    .error (.errorf "path contains an unsafe component" [])
  else .ok ()

variable {value : Text} {root : Location}

theorem plain_of_validate (h : validateBundleRelativePath value = .ok ()) :
    ∀ name ∈ split value, Plain name := by
  unfold validateBundleRelativePath at h
  split_ifs at h with hunsafe hcanonical hcomponents
  intro name hname
  by_contra hplain
  exact hcomponents ⟨name, hname, hplain⟩

theorem join_validated (h : validateBundleRelativePath value = .ok ()) :
    join root value = (split value).reverse ++ root := join_plain root (plain_of_validate h)

theorem suffix_tail_join (h : validateBundleRelativePath value = .ok ()) :
    root <:+ (join root value).tail := by
  have hne : (split value).reverse ≠ [] := by
    rw [Ne, List.reverse_eq_nil_iff]
    exact split_ne_nil value
  rw [join_validated h, List.tail_append_of_ne_nil hne]
  exact List.suffix_append _ root

theorem suffix_join {path : Text} (h : validateBundleRelativePath path = .ok ()) :
    root <:+ join root path := (suffix_tail_join h).trans (List.tail_suffix _)

theorem join_ne {path : Text} (h : validateBundleRelativePath path = .ok ()) :
    join root path ≠ root := by
  rw [join_validated h]
  intro heq
  have hempty : split path = [] := by simpa using heq
  exact split_ne_nil path hempty

/- `strings.TrimSuffix(name, "/")`. -/
def trimSlash (name : Text) : Text := if name.getLast? = some '/' then name.dropLast else name

/- `mode & 0o777` of an `int64`. -/
def permBits (mode : ℤ) : ℕ := (mode % 0o1000).toNat

def octal (n : ℕ) : Text := Nat.toDigits 8 n

structure Progress where
  seen : List Text
  files : ℕ
  total : ℤ

def overLimits (header : Header) (carried : Progress) : Prop :=
  carried.files + 1 > maxBundleFiles ∨ header.size ≤ 0 ∨ header.size > maxBundleFileBytes ∨
    carried.total > maxBundleTotalBytes - header.size

instance (header : Header) (carried : Progress) : Decidable (overLimits header carried) :=
  inferInstanceAs (Decidable (_ ∨ _))

def setMode (target : Location) (mode : ℕ) : Sys Unit := do
  match ← chmod target mode with
  | .ok () => pure ()
  | .error e => do
    let _ ← close target
    throw e

/- The data of a regular file, once its directory exists. -/
def writeFile (target : Location) (mode size : ℕ) : Sys Unit := do
  create target mode >>= returned
  setMode target mode
  let copied ← copyN target size
  let synced ← sync target
  let closed ← close target
  returned (errorsJoin [copied, synced, closed])

def extractFile (target : Location) (header : Header) (carried : Progress) : Sys Progress := do
  refuseIf (overLimits header carried) (.errorf "bundle archive exceeds file or size limits" [])
  let mode := permBits header.mode
  refuseIf (mode ≠ 0o644 ∧ mode ≠ 0o755)
    (.errorf "bundle file %q has unsupported mode %04o" [header.name, octal mode])
  ensureDirectory target.tail 0o755
  writeFile target mode header.size.toNat
  return { carried with files := carried.files + 1, total := carried.total + header.size }

def extractDirectory (target : Location) (header : Header) : Sys Unit := do
  refuseIf (permBits header.mode ≠ 0o755)
    (.errorf "bundle directory %q has unsupported mode" [header.name])
  ensureDirectory target 0o755

def extractTarget (target : Location) (header : Header) (carried : Progress) : Sys Progress :=
  match header.typeflag with
  | .directory => do
    extractDirectory target header
    return carried
  | .regular | .regularA => extractFile target header carried
  | .other _ => throw (.errorf "bundle archive entry %q has unsupported type" [header.name])

def extractBelow (root : Location) (header : Header) (name : Text) (carried : Progress) :
    Sys Progress := do
  let top := bundleTopDirectory ++ ['/']
  refuseIf (¬ top <+: name) (.errorf "unsafe bundle archive entry %q" [header.name])
  let relative := name.drop top.length
  wrap (.wrapf "unsafe bundle archive entry %q: %w" [header.name])
    (returned (validateBundleRelativePath relative))
  refuseIf (relative ∈ carried.seen) (.errorf "bundle archive repeats entry %q" [header.name])
  let target := join root relative
  refuseIf (pathWithin root target = false) (.errorf "unsafe bundle archive entry %q" [header.name])
  extractTarget target header { carried with seen := relative :: carried.seen }

def extractEntry (root : Location) (header : Header) (carried : Progress) : Sys Progress :=
  let name := trimSlash header.name
  if name = bundleTopDirectory ∧ header.typeflag = .directory then do
    ensureDirectory root 0o755
    return carried
  else extractBelow root header name carried

def extractEntries (root : Location) (entries : ℕ) (carried : Progress) : Sys Unit := do
  match ← next with
  | .error e => throw (.wrapf "read bundle archive: %w" [] e)
  | .ok none => pure ()
  | .ok (some header) =>
    if _h : entries + 1 > maxBundleEntries then
      throw (.errorf "bundle archive exceeds %d entries" [Nat.toDigits 10 maxBundleEntries])
    else do
      let carried ← extractEntry root header carried
      extractEntries root (entries + 1) carried
termination_by maxBundleEntries - entries

def chmodBundleDirectory (p : Location) : Sys Unit := do
  let node ← lstat p >>= returned
  refuseIf (node.isDirectory = false)
    (.errorf "bundle path %q is not a real directory" [pathText p])
  if node.perm ≠ 0o755 then
    wrap (.wrapf "set bundle directory permissions on %s: %w" [pathText p])
      (chmod p 0o755 >>= returned)
  else pure ()

def chmodFound (p : Location) (node : Node) : Sys Unit :=
  if node.isDirectory then chmodBundleDirectory p else pure ()

def chmodEach : List (Location × Node) → Sys Unit
  | [] => pure ()
  | (p, node) :: rest => do
    chmodFound p node
    chmodEach rest

def chmodBundleDirectories (root : Location) : Sys Unit := do
  let found ← walk root >>= returned
  chmodEach found

def extractBundleArchive (destination : Location) : Sys Location := do
  let root := join destination bundleTopDirectory
  extractEntries root 0 ⟨[], 0, 0⟩
  wrap (.wrapf "bundle archive is missing %s root: %w" [bundleTopDirectory])
    (requireRealDirectory root)
  chmodBundleDirectories root
  return root

/- A directory with no top directory in it. -/
structure Vacant (t : Tree) (destination : Location) : Prop where
  directory : t.isDirectory destination = true
  empty : ∀ p, bundleTopDirectory :: destination <:+ p → t.node p = none

end RemnanodeLite.Rnlctl
