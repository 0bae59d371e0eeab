import RemnanodeLite.Rnlctl.Validation

/-! # The payload of a bundle

What `validateManifestPayload` accepts, said of the manifest and the directory
alone: no loop, no map and no machine integer. -/

namespace RemnanodeLite.Rnlctl
open Filepath FileTree Fallible Strconv

/-! ### Paths -/

structure Canonical (path : Text) : Prop where
  positive : 1 ≤ path.length
  bounded : path.length ≤ 512
  nul : '\x00' ∉ path
  backslash : '\\' ∉ path
  names : ∀ name ∈ split path, Plain name

theorem not_dotdot_of_plain {path : Text} (h : ∀ name ∈ split path, Plain name) :
    ¬ ['.', '.', '/'] <+: path := by
  rintro ⟨rest, rfl⟩
  have hmem : ['.', '.'] ∈ split (['.', '.', '/'] ++ rest) := by
    simp [split, List.splitOn, List.splitOnP_cons_eq_if_modifyHead]
  exact (h _ hmem).2.2 rfl

theorem validateBundleRelativePath_ok_iff {path : Text} :
    validateBundleRelativePath path = .ok () ↔ Canonical path := by
  constructor
  · intro h
    have hnames := plain_of_validate h
    unfold validateBundleRelativePath at h
    split_ifs at h with hunsafe hcanonical hcomponents
    simp only [not_or, Nat.not_lt] at hunsafe
    exact ⟨List.length_pos_of_ne_nil hunsafe.1, hunsafe.2.1, hunsafe.2.2.1, hunsafe.2.2.2, hnames⟩
  · intro h
    have hne : path ≠ [] := List.ne_nil_of_length_pos h.positive
    have hdot : path ≠ ['.'] := by
      rintro rfl
      exact (h.names ['.'] (by decide)).2.1 rfl
    have hunsafe : ¬ (path = [] ∨ path.length > 512 ∨ '\x00' ∈ path ∨ '\\' ∈ path) := by
      simp only [not_or, Nat.not_lt]
      exact ⟨hne, h.bounded, h.nul, h.backslash⟩
    have hcanonical :
        ¬ (isAbs path ∨ clean path ≠ path ∨ path = ['.'] ∨ ['.', '.', '/'] <+: path) := by
      simp only [not_or, isAbs_of_plain h.names, clean_plain h.names]
      exact ⟨by decide, fun hne => hne rfl, hdot, not_dotdot_of_plain h.names⟩
    have hcomponents : ¬ ∃ component ∈ split path, ¬ Plain component := by
      rintro ⟨name, hname, hplain⟩
      exact hplain (h.names name hname)
    unfold validateBundleRelativePath
    rw [if_neg hunsafe, if_neg hcanonical, if_neg hcomponents]

/-! ### The manifest -/

structure Listable (file : ManifestFile) : Prop where
  path : Canonical file.path
  payload : file.path ≠ releaseManifest
  mode : file.mode = "0644".toList ∨ file.mode = "0755".toList
  positive : 0 < file.size
  bounded : file.size ≤ maxBundleFileBytes
  digest : hexDigestRE file.sha256 = true
  role : file.role ≠ []
  license : file.license ≠ []

theorem listable_iff {file : ManifestFile} : Listable file ↔ WellListed file ∧ Complete file := by
  constructor
  · intro h
    exact ⟨⟨validateBundleRelativePath_ok_iff.mpr h.path, h.payload, h.mode, h.positive, h.bounded⟩,
      h.digest, h.role, h.license⟩
  · rintro ⟨hlisted, hcomplete⟩
    exact ⟨validateBundleRelativePath_ok_iff.mp hlisted.valid, hlisted.payload, hlisted.mode,
      hlisted.positive, hlisted.bounded, hcomplete.digest, hcomplete.role, hcomplete.license⟩

theorem checkRequired_ok_iff {listing : Listing} {names : List (Text × Text)} :
    checkRequired listing names = .ok () ↔
      ∀ entry ∈ names, ∃ file, listing.find entry.1 = some file ∧ file.mode = entry.2 := by
  induction names with
  | nil => simp [checkRequired]
  | cons entry names ih =>
    obtain ⟨name, mode⟩ := entry
    rw [List.forall_mem_cons]
    unfold checkRequired
    cases hfind : listing.find name with
    | none => simp
    | some file =>
      simp only [bind_ok_iff, refuse_ok_iff, not_not, ih]
      simp

structure FilesAccepted (files : List ManifestFile) : Prop where
  listable : ∀ file ∈ files, Listable file
  order : files.Pairwise fun a b => a.path < b.path
  positive : 1 ≤ files.length
  bounded : files.length ≤ 512
  total : (files.map ManifestFile.size).sum ≤ maxBundleTotalBytes
  required : ∀ entry ∈ required, ∃ file ∈ files, file.path = entry.1 ∧ file.mode = entry.2

theorem lists_iff {files : List ManifestFile} :
    (∃ listing, Lists files listing) ↔ FilesAccepted files := by
  constructor
  · rintro ⟨listing, h⟩
    obtain ⟨hall, -⟩ := (checkFiles_ok_iff carried_start).mp h.checked
    refine ⟨fun file hfile => listable_iff.mpr (hall file hfile).1, h.order, h.positive, h.bounded,
      h.total, fun entry hentry => ?_⟩
    obtain ⟨file, hfind, hmode⟩ := checkRequired_ok_iff.mp h.required entry hentry
    obtain ⟨hfile, hpath⟩ := h.find_iff.mp hfind
    exact ⟨file, hfile, hpath, hmode⟩
  · intro h
    have hlast : ∀ file ∈ files, ([] : Text) < file.path := by
      intro file hfile
      have hpositive := (h.listable file hfile).path.positive
      cases hpath : file.path with
      | nil => simp [hpath] at hpositive
      | cons c rest => exact List.nil_lt_cons c rest
    have hchecked : checkFiles files ⟨[], [], 0⟩ = .ok (files.foldl Listing.add ⟨[], [], 0⟩) := by
      refine (checkFiles_ok_iff carried_start).mpr ⟨fun file hfile => ?_, h.order, ?_, rfl⟩
      · exact ⟨listable_iff.mp (h.listable file hfile), hlast file hfile⟩
      · simpa using h.total
    have hseen := foldl_add_seen files ⟨[], [], 0⟩
    refine ⟨_, hchecked, h.positive, h.bounded, checkRequired_ok_iff.mpr fun entry hentry => ?_⟩
    obtain ⟨file, hfile, hpath, hmode⟩ := h.required entry hentry
    refine ⟨file, ?_, hmode⟩
    rw [← hpath]
    refine find_mem ?_ ?_
    · rw [hseen, List.append_nil, List.reverse_reverse]
      exact h.order
    · rw [hseen, List.append_nil]
      exact List.mem_reverse.mpr hfile

/-! ### The directory -/

section
variable (codec : Codec) (tree : Tree) (root : Location) (manifest : Manifest)

/- A regular file at `path` below the root. -/
def FileAt (path : Text) (perm : ℕ) (data : List UInt8) : Prop :=
  tree.node (join root path) = some (.file perm data)

structure PayloadAccepted : Prop where
  files : FilesAccepted manifest.files
  plain : ∀ p node, root <:+ p → p ≠ root → tree.node p = some node →
    node.isDirectory = true ∨ node.isRegular = true
  exactly : ∀ p perm data, root <:+ p → p ≠ root → p ≠ join root releaseManifest →
    tree.node p = some (.file perm data) → ∃ file ∈ manifest.files, p = join root file.path
  listed : ∀ file ∈ manifest.files, ∃ data, FileAt tree root file.path (parseMode file.mode) data ∧
    (data.length : ℤ) = file.size ∧ codec.digest data = file.sha256
  lock : ∃ perm data, FileAt tree root runtimeAssetsLock perm data ∧
    data.length ≤ maxManifestBytes ∧ codec.digest data = manifest.runtimeAssetLockSHA256

/-- `validateManifestPayload` accepts exactly what belongs together. -/
theorem validateManifestPayload_accepts :
    validateManifestPayload codec tree root manifest = .ok () ↔
      PayloadAccepted codec tree root manifest := by
  rw [validateManifestPayload_ok_iff, lists_iff, checkLock_ok_iff]
  constructor
  · rintro ⟨hfiles, hheld, honly, hlock⟩
    refine ⟨hfiles, fun p node hp hne hnode => ?_, fun p perm data hp hne hother hnode => ?_,
      fun file hfile => ?_, hlock⟩
    · exact (honly p node hp hne hnode).imp_right And.left
    · rcases honly p _ hp hne hnode with hdirectory | ⟨-, hmanifest | hfile⟩
      · cases hdirectory
      · exact absurd hmanifest hother
      · exact hfile
    · obtain ⟨data, hdata⟩ := hheld file hfile
      exact ⟨data, hdata.node, hdata.size, hdata.digest⟩
  · intro h
    refine ⟨h.files, fun file hfile => ?_, fun p node hp hne hnode => ?_, h.lock⟩
    · obtain ⟨data, hnode, hsize, hdigest⟩ := h.listed file hfile
      exact ⟨data, hnode, hsize, hdigest⟩
    · refine (h.plain p node hp hne hnode).imp_right fun hregular => ⟨hregular, ?_⟩
      by_cases hmanifest : p = join root releaseManifest
      · exact .inl hmanifest
      · cases node with
        | file perm data => exact .inr (h.exactly p perm data hp hne hmanifest hnode)
        | _ => cases hregular

end

end RemnanodeLite.Rnlctl
