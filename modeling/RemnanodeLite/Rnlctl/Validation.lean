import Mathlib.Data.List.Perm.Subperm
import RemnanodeLite.Rnlctl.Bundle

/-! # What a valid bundle is

`validateBundleRoot` accepts a directory exactly when it holds the manifest, the
files the manifest lists and, directories apart, nothing else. -/

namespace RemnanodeLite.Rnlctl
open Filepath FileTree Program Fallible Strconv

/-! ### The list of files -/

structure WellListed (file : ManifestFile) : Prop where
  valid : validateBundleRelativePath file.path = .ok ()
  payload : file.path ≠ releaseManifest
  mode : file.mode = "0644".toList ∨ file.mode = "0755".toList
  positive : 0 < file.size
  bounded : file.size ≤ maxBundleFileBytes

/- The metadata that nothing but its presence is checked of, and the digest. -/
structure Complete (file : ManifestFile) : Prop where
  digest : hexDigestRE file.sha256 = true
  role : file.role ≠ []
  license : file.license ≠ []

/- What the loop over the files keeps: the paths so far are not above the last one and the sum of
the sizes is in the range where the arithmetic of `int64` is exact. -/
structure Listing.Carried (listing : Listing) : Prop where
  below : ∀ file ∈ listing.seen, file.path ≤ listing.last
  low : 0 ≤ listing.total
  high : listing.total ≤ maxBundleTotalBytes

theorem carried_start : Listing.Carried ⟨[], [], 0⟩ := ⟨by simp, le_refl 0, by decide⟩

section Files
variable {file : ManifestFile} {listing next : Listing}

def Listing.add (listing : Listing) (file : ManifestFile) : Listing :=
  ⟨file :: listing.seen, file.path, listing.total + file.size⟩

theorem Listing.Carried.add (h : listing.Carried) (hpositive : 0 < file.size)
    (horder : listing.last < file.path) (htotal : listing.total + file.size ≤ maxBundleTotalBytes) :
    (listing.add file).Carried where
  below := by
    intro other hother
    rcases List.mem_cons.mp hother with rfl | hother
    · exact le_refl other.path
    · exact (h.below other hother).trans horder.le
  low := by
    have hlow := h.low
    simp only [Listing.add]
    omega
  high := htotal

theorem Listing.Carried.find_eq_none (h : listing.Carried) (horder : listing.last < file.path) :
    listing.find file.path = none := by
  refine List.find?_eq_none.mpr fun other hother heq => ?_
  have hpath : other.path = file.path := by simpa using heq
  exact absurd (h.below other hother) (not_le_of_gt (hpath ▸ horder))

/- The comparison by a subtraction and the sum do not wrap around. -/
theorem Listing.Carried.exact (h : listing.Carried) (hpositive : 0 < file.size)
    (hbounded : file.size ≤ maxBundleFileBytes) :
    int64 (maxBundleTotalBytes - file.size) = maxBundleTotalBytes - file.size ∧
      int64 (listing.total + file.size) = listing.total + file.size := by
  have hlow := h.low
  have hhigh := h.high
  simp only [maxBundleTotalBytes, maxBundleFileBytes] at hbounded hhigh ⊢
  constructor
  · exact int64_eq_self (by omega) (by omega)
  · exact int64_eq_self (by omega) (by omega)

theorem checkFile_ok_iff (h : listing.Carried) :
    checkFile file listing = .ok next ↔
      (WellListed file ∧ Complete file) ∧ listing.last < file.path ∧
        listing.total + file.size ≤ maxBundleTotalBytes ∧ next = listing.add file := by
  simp only [checkFile, bind_ok_iff, mapError_ok_iff, refuse_ok_iff]
  constructor
  · rintro ⟨_, hvalid, _, horder, _, hpayload, _, hmode, _, hsize, _, hcomplete, _, _, hnext⟩
    have hpositive : 0 < file.size := by omega
    have hbounded : file.size ≤ maxBundleFileBytes := by omega
    obtain ⟨hdifference, hsum⟩ := h.exact hpositive hbounded
    rw [hdifference] at hsize
    rw [hsum] at hnext
    rw [not_or, not_or, Bool.not_eq_false] at hcomplete
    refine ⟨⟨⟨hvalid, hpayload, ?_, hpositive, hbounded⟩, hcomplete.1, hcomplete.2.1, hcomplete.2.2⟩,
      lt_of_not_ge horder, by omega, (Except.ok.inj hnext).symm⟩
    by_contra hnone
    rw [not_or] at hnone
    exact hmode hnone
  · rintro ⟨⟨hlisted, hcomplete⟩, horder, htotal, rfl⟩
    obtain ⟨hdifference, hsum⟩ := h.exact hlisted.positive hlisted.bounded
    have hpositive := hlisted.positive
    have hbounded := hlisted.bounded
    have hmode := hlisted.mode
    rw [hdifference, hsum, h.find_eq_none horder]
    refine ⟨(), hlisted.valid, (), not_le_of_gt horder, (), hlisted.payload, (), ?_, (), by omega, (),
      ?_, (), by simp, rfl⟩
    · rintro ⟨hfirst, hsecond⟩
      exact hmode.elim hfirst hsecond
    · rw [not_or, not_or, Bool.not_eq_false]
      exact ⟨hcomplete.digest, hcomplete.role, hcomplete.license⟩

theorem sum_size_nonneg {files : List ManifestFile} (h : ∀ file ∈ files, WellListed file) :
    0 ≤ (files.map ManifestFile.size).sum := by
  induction files with
  | nil => exact le_refl 0
  | cons file files ih =>
    have hfile := (h file List.mem_cons_self).positive
    have hfiles := ih fun other hother => h other (List.mem_cons_of_mem _ hother)
    rw [List.map_cons, List.sum_cons]
    omega

/-- The loop accepts files in strict order whose sizes stay within the total, and has then seen
them all. -/
theorem checkFiles_ok_iff {files : List ManifestFile} (h : listing.Carried) :
    checkFiles files listing = .ok next ↔
      (∀ file ∈ files, (WellListed file ∧ Complete file) ∧ listing.last < file.path) ∧
        files.Pairwise (fun a b => a.path < b.path) ∧
        listing.total + (files.map ManifestFile.size).sum ≤ maxBundleTotalBytes ∧
        next = files.foldl Listing.add listing := by
  induction files generalizing listing with
  | nil =>
    have hhigh := h.high
    simp [checkFiles, eq_comm, hhigh]
  | cons file files ih =>
    simp only [checkFiles, bind_ok_iff, checkFile_ok_iff h, List.forall_mem_cons, List.pairwise_cons,
      List.map_cons, List.sum_cons, List.foldl_cons]
    constructor
    · rintro ⟨_, ⟨hfile, horder, htotal, rfl⟩, hrest⟩
      obtain ⟨hall, hpairwise, hsum, hresult⟩ := (ih (h.add hfile.1.positive horder htotal)).mp hrest
      refine ⟨⟨⟨hfile, horder⟩, fun other hother => ⟨(hall other hother).1, ?_⟩⟩,
        ⟨fun other hother => (hall other hother).2, hpairwise⟩, ?_, hresult⟩
      · exact horder.trans (hall other hother).2
      · rw [← Int.add_assoc]
        exact hsum
    · rintro ⟨⟨⟨hfile, horder⟩, hall⟩, ⟨hfirst, hpairwise⟩, hsum, hresult⟩
      have hnonneg := sum_size_nonneg fun other hother => (hall other hother).1.1
      have htotal : listing.total + file.size ≤ maxBundleTotalBytes := by omega
      refine ⟨_, ⟨hfile, horder, htotal, rfl⟩, ?_⟩
      refine (ih (h.add hfile.1.positive horder htotal)).mpr ⟨?_, hpairwise, ?_, hresult⟩
      · exact fun other hother => ⟨(hall other hother).1, hfirst other hother⟩
      · have hassoc := Int.add_assoc listing.total file.size (files.map ManifestFile.size).sum
        exact hassoc.trans_le hsum

theorem foldl_add_seen (files : List ManifestFile) (listing : Listing) :
    (files.foldl Listing.add listing).seen = files.reverse ++ listing.seen := by
  induction files generalizing listing with
  | nil => rfl
  | cons file files ih => simp [ih, Listing.add]

end Files

variable {listing : Listing}

theorem find_ok {path : Text} {file : ManifestFile} (h : listing.find path = some file) :
    file ∈ listing.seen ∧ file.path = path := by
  refine ⟨List.mem_of_find?_eq_some h, ?_⟩
  simpa using List.find?_some h

theorem find_mem {file : ManifestFile}
    (horder : listing.seen.reverse.Pairwise fun a b => a.path < b.path) (h : file ∈ listing.seen) :
    listing.find file.path = some file := by
  cases hfind : listing.find file.path with
  | none =>
    have hnone := List.find?_eq_none.mp hfind file h
    simp at hnone
  | some other =>
    obtain ⟨hother, hpath⟩ := find_ok hfind
    have heq : other = file := Distinct.eq_of_key_eq horder (List.mem_reverse.mpr hother)
      (List.mem_reverse.mpr h) hpath
    rw [heq]

/-! ### The walk -/

section Walk
variable (codec : Codec) (root : Location) (listing : Listing)

/- `data` and `perm` are what the manifest says of a file. -/
structure Matches (file : ManifestFile) (perm : ℕ) (data : List UInt8) : Prop where
  perm : perm = parseMode file.mode
  size : (data.length : ℤ) = file.size
  bounded : data.length ≤ maxBundleFileBytes
  digest : codec.digest data = file.sha256

inductive Fits (p : Location) : Node → Prop
  | root {node} : p = root → Fits p node
  | directory {perm} : Fits p (.directory perm)
  | manifest {perm data} : unsplit (rel root p) = releaseManifest → Fits p (.file perm data)
  | payload {perm data file} : unsplit (rel root p) ≠ releaseManifest →
      listing.find (unsplit (rel root p)) = some file → Matches codec file perm data →
      Fits p (.file perm data)

def counted (p : Location) : Node → Option Text
  | .file _ _ =>
    if p = root ∨ unsplit (rel root p) = releaseManifest then none else some (unsplit (rel root p))
  | _ => none

variable {codec root listing} {p : Location} {node : Node} {actual : List Text}

theorem checkEntry_of_fits (h : Fits codec root listing p node) :
    checkEntry codec root listing p node actual =
      .ok (match counted root p node with
        | none => actual
        | some path => actual.insert path) := by
  unfold checkEntry
  by_cases hroot : p = root
  · have hnone : counted root p node = none := by
      cases node with
      | file perm data => simp [counted, hroot]
      | _ => rfl
    rw [if_pos hroot, hnone]
  · rw [if_neg hroot]
    cases h with
    | root h => exact absurd h hroot
    | directory => rfl
    | manifest h => simp [counted, h]
    | @payload perm data file hname hfind hmatches =>
      have hmode : ¬ (perm ≠ parseMode file.mode ∨ (data.length : ℤ) ≠ file.size) := by
        rw [not_or, not_not, not_not]
        exact ⟨hmatches.perm, hmatches.size⟩
      have hsize : ¬ data.length > maxBundleFileBytes := Nat.not_lt.mpr hmatches.bounded
      have hdigest : ¬ codec.digest data ≠ file.sha256 := not_not.mpr hmatches.digest
      simp only [hfind, refuse, if_neg hmode, if_neg hsize, if_neg hdigest, counted,
        hroot, hname, or_self, if_false]
      rfl

theorem fits_of_checkEntry {result : List Text}
    (h : checkEntry codec root listing p node actual = .ok result) :
    Fits codec root listing p node := by
  unfold checkEntry at h
  by_cases hroot : p = root
  · exact .root hroot
  · rw [if_neg hroot] at h
    cases node with
    | symlink target => cases h
    | special => cases h
    | directory perm => exact .directory
    | file perm data =>
      by_cases hname : unsplit (rel root p) = releaseManifest
      · exact .manifest hname
      · simp only [if_neg hname] at h
        cases hfind : listing.find (unsplit (rel root p)) with
        | none => simp [hfind] at h
        | some file =>
          simp only [hfind, bind_ok_iff, refuse_ok_iff, not_or, not_not] at h
          obtain ⟨_, ⟨hperm, hsize⟩, _, hbounded, _, hdigest, _⟩ := h
          exact .payload hname hfind ⟨hperm, hsize, Nat.le_of_not_lt hbounded, hdigest⟩

theorem checkWalk_ok_iff {found : List (Location × Node)} {result : List Text} :
    checkWalk codec root listing found actual = .ok result ↔
      (∀ x ∈ found, Fits codec root listing x.1 x.2) ∧
        result = (found.filterMap fun x => counted root x.1 x.2).foldl
          (fun actual path => actual.insert path) actual := by
  induction found generalizing actual with
  | nil => simp [checkWalk, eq_comm]
  | cons x found ih =>
    obtain ⟨p, node⟩ := x
    simp only [checkWalk, bind_ok_iff, List.forall_mem_cons]
    constructor
    · rintro ⟨next, hnext, hrest⟩
      have hfits := fits_of_checkEntry hnext
      rw [checkEntry_of_fits hfits] at hnext
      cases hnext
      obtain ⟨hall, hresult⟩ := ih.mp hrest
      refine ⟨⟨hfits, hall⟩, hresult.trans ?_⟩
      cases hcounted : counted root p node with
      | none => simp [hcounted]
      | some path => simp [hcounted]
    · rintro ⟨⟨hfits, hall⟩, hresult⟩
      refine ⟨_, checkEntry_of_fits hfits, ih.mpr ⟨hall, hresult.trans ?_⟩⟩
      cases hcounted : counted root p node with
      | none => simp [hcounted]
      | some path => simp [hcounted]

theorem mem_foldl_insert {paths : List Text} {path : Text} :
    path ∈ paths.foldl (fun actual path => actual.insert path) actual ↔
      path ∈ actual ∨ path ∈ paths := by
  induction paths generalizing actual with
  | nil => simp
  | cons first paths ih =>
    rw [List.foldl_cons, ih, List.mem_insert_iff, List.mem_cons]
    constructor
    · rintro ((h | h) | h)
      · exact .inr (.inl h)
      · exact .inl h
      · exact .inr (.inr h)
    · rintro (h | h | h)
      · exact .inl (.inr h)
      · exact .inl (.inl h)
      · exact .inr h

theorem nodup_foldl_insert {paths : List Text} (h : actual.Nodup) :
    (paths.foldl (fun actual path => actual.insert path) actual).Nodup := by
  induction paths generalizing actual with
  | nil => exact h
  | cons first paths ih => exact ih h.insert

end Walk

theorem checkMissing_ok_iff {actual : List Text} (hactual : actual.Nodup)
    (hseen : ∀ path ∈ actual, path ∈ listing.seen.map ManifestFile.path) :
    checkMissing listing actual = .ok () ↔ ∀ file ∈ listing.seen, file.path ∈ actual := by
  unfold checkMissing
  by_cases hlength : actual.length = listing.seen.length
  · -- as many distinct paths as files: none is missing
    rw [if_pos hlength]
    refine ⟨fun _ file hfile => ?_, fun _ => rfl⟩
    have hsubperm : List.Subperm actual (listing.seen.map ManifestFile.path) :=
      List.subperm_of_subset hactual hseen
    have hperm := hsubperm.perm_of_length_le (by rw [List.length_map, hlength])
    exact hperm.mem_iff.mpr (List.mem_map_of_mem hfile)
  · rw [if_neg hlength]
    cases hfind : listing.seen.find? fun file => file.path ∉ actual with
    | none =>
      refine ⟨fun _ file hfile => ?_, fun _ => rfl⟩
      have hnone := List.find?_eq_none.mp hfind file hfile
      simpa using hnone
    | some file =>
      refine ⟨fun h => (by cases h), fun hall => ?_⟩
      have habsent : file.path ∉ actual := by simpa using List.find?_some hfind
      exact absurd (hall file (List.mem_of_find?_eq_some hfind)) habsent

/-! ### Locations and paths -/

section Locations
variable {tree : Tree} {root p : Location} {node : Node}

theorem join_rel (hp : root <:+ p) (hne : p ≠ root) (hnode : tree.node p = some node) :
    join root (unsplit (rel root p)) = p := by
  obtain ⟨below, rfl⟩ := hp
  have hbelow : below.reverse ≠ [] := by
    intro hnil
    rw [List.reverse_eq_nil_iff] at hnil
    exact hne (by rw [hnil, List.nil_append])
  have hnamed : ∀ name ∈ below.reverse, Named name := fun name hname =>
    tree.named _ (Tree.mem_of_node hnode) name (List.mem_append_left _ (List.mem_reverse.mp hname))
  have hsplit : split (unsplit (rel root (below ++ root))) = below.reverse := by
    rw [rel_append]
    exact split_unsplit (fun name hname => (hnamed name hname).2) hbelow
  have hplain : ∀ name ∈ split (unsplit (rel root (below ++ root))), Plain name := by
    rw [hsplit]
    exact fun name hname => (hnamed name hname).1
  rw [join_plain root hplain, hsplit, List.reverse_reverse]

theorem rel_join {path : Text} (h : validateBundleRelativePath path = .ok ()) :
    unsplit (rel root (join root path)) = path := by
  rw [join_validated h, rel_append, List.reverse_reverse, unsplit_split]

theorem valid_releaseManifest : validateBundleRelativePath releaseManifest = .ok () := by
  decide

end Locations

/-! ### Valid bundles -/

section Valid
variable (codec : Codec) (tree : Tree) (root : Location) (architecture : Text)

structure Holds (file : ManifestFile) (data : List UInt8) : Prop where
  node : tree.node (join root file.path) = some (.file (parseMode file.mode) data)
  size : (data.length : ℤ) = file.size
  digest : codec.digest data = file.sha256

/- `listing` is what a manifest with these files comes to. -/
structure Lists (files : List ManifestFile) (listing : Listing) : Prop where
  checked : checkFiles files ⟨[], [], 0⟩ = .ok listing
  positive : 0 < files.length
  bounded : files.length ≤ maxBundleFiles
  required : checkRequired listing Rnlctl.required = .ok ()

/-- What `validateBundleRoot` has made sure of. -/
structure Valid (bundle : Bundle) : Prop where
  root_eq : bundle.root = root
  directory : tree.isDirectory root = true
  manifest : ∃ perm, tree.node (join root releaseManifest) = some (.file perm bundle.manifestRaw)
  small : bundle.manifestRaw.length ≤ maxManifestBytes
  decoded : codec.decodeManifest bundle.manifestRaw = .ok bundle.manifest
  identified : validateManifestIdentity codec bundle.manifest architecture = .ok ()
  listed : ∃ listing, Lists bundle.manifest.files listing
  payload : ∀ file ∈ bundle.manifest.files, ∃ data, Holds codec tree root file data
  only : ∀ p node, root <:+ p → p ≠ root → tree.node p = some node →
    node.isDirectory = true ∨ node.isRegular = true ∧ (p = join root releaseManifest ∨
      ∃ file ∈ bundle.manifest.files, p = join root file.path)
  locked : checkLock codec tree root bundle.manifest = .ok ()
  identity : bundle.identity = codec.digest bundle.manifestRaw
  generation : bundle.generationID =
    bundle.manifest.version ++ ['-'] ++ bundle.identity.take 16

variable {codec tree root architecture} {files : List ManifestFile} {listing : Listing}

theorem Lists.seen (h : Lists files listing) : listing.seen = files.reverse := by
  obtain ⟨-, -, -, hlisting⟩ := (checkFiles_ok_iff carried_start).mp h.checked
  rw [hlisting, foldl_add_seen, List.append_nil]

theorem Lists.wellListed (h : Lists files listing) : ∀ file ∈ files, WellListed file :=
  fun file hfile => (((checkFiles_ok_iff carried_start).mp h.checked).1 file hfile).1.1

theorem Lists.order (h : Lists files listing) : files.Pairwise fun a b => a.path < b.path :=
  ((checkFiles_ok_iff carried_start).mp h.checked).2.1

theorem Lists.total (h : Lists files listing) :
    (files.map ManifestFile.size).sum ≤ maxBundleTotalBytes := by
  obtain ⟨-, -, htotal, -⟩ := (checkFiles_ok_iff carried_start).mp h.checked
  simpa using htotal

variable {path : Text} {node : Node} {p : Location}

theorem Lists.find_iff (h : Lists files listing) {file : ManifestFile} :
    listing.find path = some file ↔ file ∈ files ∧ file.path = path := by
  constructor
  · intro hfind
    obtain ⟨hmem, hpath⟩ := find_ok hfind
    rw [h.seen, List.mem_reverse] at hmem
    exact ⟨hmem, hpath⟩
  · rintro ⟨hmem, rfl⟩
    refine find_mem ?_ ?_
    · rw [h.seen, List.reverse_reverse]
      exact h.order
    · rw [h.seen, List.mem_reverse]
      exact hmem

theorem counted_eq_some (h : counted root p node = some path) : p ≠ root ∧ path ≠ releaseManifest ∧
      unsplit (rel root p) = path ∧ ∃ perm data, node = .file perm data := by
  cases node with
  | file perm data =>
    simp only [counted] at h
    split_ifs at h with hskip
    rw [not_or] at hskip
    have hpath := Option.some.inj h
    exact ⟨hskip.1, hpath ▸ hskip.2, hpath, perm, data, rfl⟩
  | _ => cases h

theorem mem_counted {actual : List Text}
    (hactual : actual = ((tree.walk root).filterMap fun x => counted root x.1 x.2).foldl
      (fun actual path => actual.insert path) []) :
    path ∈ actual ↔ ∃ p node, root <:+ p ∧ tree.node p = some node ∧
      counted root p node = some path := by
  rw [hactual, mem_foldl_insert, List.mem_filterMap]
  simp only [List.not_mem_nil, false_or, Prod.exists]
  constructor
  · rintro ⟨p, node, hwalk, hcounted⟩
    obtain ⟨hroot, hnode⟩ := Tree.mem_walk.mp hwalk
    exact ⟨p, node, hroot, hnode, hcounted⟩
  · rintro ⟨p, node, hroot, hnode, hcounted⟩
    exact ⟨p, node, Tree.mem_walk.mpr ⟨hroot, hnode⟩, hcounted⟩

theorem holds_of_fits (h : Lists files listing) (hp : root <:+ p) (hnode : tree.node p = some node)
    (hcounted : counted root p node = some path) (hfits : Fits codec root listing p node) :
    ∃ file ∈ files, file.path = path ∧ p = join root path ∧
      ∃ data, Holds codec tree root file data := by
  obtain ⟨hne, hpath, hrel, -⟩ := counted_eq_some hcounted
  have hjoin := join_rel hp hne hnode
  cases hfits with
  | root hroot => exact absurd hroot hne
  | directory => cases hcounted
  | manifest hmanifest => exact absurd (hrel ▸ hmanifest) hpath
  | @payload perm data file hname hfind hmatches =>
    obtain ⟨hmem, hfile⟩ := h.find_iff.mp hfind
    rw [hrel] at hfile hjoin
    refine ⟨file, hmem, hfile, hjoin.symm, data, ?_, hmatches.size, hmatches.digest⟩
    rw [hfile, hjoin, hnode, hmatches.perm]

theorem fits_of_holds (h : Lists files listing)
    (hpayload : ∀ file ∈ files, ∃ data, Holds codec tree root file data)
    (hnode : tree.node p = some node)
    (honly : node.isDirectory = true ∨ node.isRegular = true ∧ (p = join root releaseManifest ∨
      ∃ file ∈ files, p = join root file.path)) :
    Fits codec root listing p node := by
  rcases honly with hdirectory | ⟨hregular, hmanifest | ⟨file, hfile, hpath⟩⟩
  · obtain ⟨perm, rfl⟩ := Node.isDirectory_iff.mp hdirectory
    exact .directory
  · cases node with
    | file perm data =>
      refine .manifest ?_
      rw [hmanifest, rel_join valid_releaseManifest]
    | _ => cases hregular
  · obtain ⟨data, hdata⟩ := hpayload file hfile
    have hlisted := h.wellListed file hfile
    rw [hpath, hdata.node] at hnode
    cases hnode
    have hrel : unsplit (rel root p) = file.path := by rw [hpath, rel_join hlisted.valid]
    have hbound := hlisted.bounded
    have hsize := hdata.size
    refine .payload (by rw [hrel]; exact hlisted.payload) ?_ ⟨rfl, hsize, by omega, hdata.digest⟩
    rw [hrel]
    exact h.find_iff.mpr ⟨hfile, rfl⟩

theorem counted_of_wellListed {file : ManifestFile} (hlisted : WellListed file)
    (data : List UInt8) :
    counted root (join root file.path) (.file (parseMode file.mode) data) = some file.path := by
  have hskip : ¬ (join root file.path = root ∨ file.path = releaseManifest) := by
    rw [not_or]
    exact ⟨join_ne hlisted.valid, hlisted.payload⟩
  simp only [counted, rel_join hlisted.valid, if_neg hskip]

/-- The walk over a directory finds exactly the files of the manifest. -/
theorem checkPayload_iff (h : Lists files listing) :
    (∃ actual, checkWalk codec root listing (tree.walk root) [] = .ok actual ∧
      checkMissing listing actual = .ok ()) ↔
    (∀ file ∈ files, ∃ data, Holds codec tree root file data) ∧
    ∀ p node, root <:+ p → p ≠ root → tree.node p = some node →
      node.isDirectory = true ∨ node.isRegular = true ∧ (p = join root releaseManifest ∨
        ∃ file ∈ files, p = join root file.path) := by
  have hmem : ∀ file, file ∈ listing.seen ↔ file ∈ files := by
    intro file
    rw [h.seen, List.mem_reverse]
  constructor
  · rintro ⟨actual, hwalk, hmissing⟩
    obtain ⟨hfits, hactual⟩ := checkWalk_ok_iff.mp hwalk
    have hfit : ∀ p node, root <:+ p → tree.node p = some node → Fits codec root listing p node :=
      fun p node hp hnode => hfits (p, node) (Tree.mem_walk.mpr ⟨hp, hnode⟩)
    have hseen : ∀ path ∈ actual, path ∈ listing.seen.map ManifestFile.path := by
      intro path hpath
      obtain ⟨p, node, hp, hnode, hcounted⟩ := (mem_counted hactual).mp hpath
      obtain ⟨file, hfile, rfl, -⟩ := holds_of_fits h hp hnode hcounted (hfit p node hp hnode)
      exact List.mem_map_of_mem ((hmem file).mpr hfile)
    have hnodup : actual.Nodup := hactual ▸ nodup_foldl_insert List.nodup_nil
    have hall := (checkMissing_ok_iff hnodup hseen).mp hmissing
    constructor
    · intro file hfile
      obtain ⟨p, node, hp, hnode, hcounted⟩ :=
        (mem_counted hactual).mp (hall file ((hmem file).mpr hfile))
      obtain ⟨other, hother, hpath, -, hdata⟩ :=
        holds_of_fits h hp hnode hcounted (hfit p node hp hnode)
      rwa [Distinct.eq_of_key_eq h.order hother hfile hpath] at hdata
    · intro p node hp hne hnode
      have hjoin := join_rel hp hne hnode
      cases hfit p node hp hnode with
      | root hroot => exact absurd hroot hne
      | directory => exact .inl rfl
      | manifest hmanifest =>
        rw [hmanifest] at hjoin
        exact .inr ⟨rfl, .inl hjoin.symm⟩
      | @payload perm data file hname hfind hmatches =>
        obtain ⟨hfile, hpath⟩ := h.find_iff.mp hfind
        rw [← hpath] at hjoin
        exact .inr ⟨rfl, .inr ⟨file, hfile, hjoin.symm⟩⟩
  · rintro ⟨hpayload, honly⟩
    have hfits : ∀ x ∈ tree.walk root, Fits codec root listing x.1 x.2 := by
      rintro ⟨p, node⟩ hx
      obtain ⟨hp, hnode⟩ := Tree.mem_walk.mp hx
      by_cases hne : p = root
      · exact .root hne
      · exact fits_of_holds h hpayload hnode (honly p node hp hne hnode)
    refine ⟨_, checkWalk_ok_iff.mpr ⟨hfits, rfl⟩, ?_⟩
    rw [checkMissing_ok_iff (nodup_foldl_insert List.nodup_nil)]
    · intro file hfile
      rw [hmem] at hfile
      obtain ⟨data, hdata⟩ := hpayload file hfile
      have hlisted := h.wellListed file hfile
      exact (mem_counted rfl).mpr ⟨_, _, suffix_join hlisted.valid, hdata.node,
        counted_of_wellListed hlisted data⟩
    · intro path hpath
      obtain ⟨p, node, hp, hnode, hcounted⟩ := (mem_counted rfl).mp hpath
      obtain ⟨file, hfile, rfl, -⟩ := holds_of_fits h hp hnode hcounted
        (hfits (p, node) (Tree.mem_walk.mpr ⟨hp, hnode⟩))
      exact List.mem_map_of_mem ((hmem file).mpr hfile)

theorem realDirectory_ok_iff {u : Unit} :
    realDirectory tree root = .ok u ↔ tree.isDirectory root = true := by
  unfold realDirectory Tree.isDirectory
  cases tree.node root with
  | none => simp
  | some node => simp [refuse_ok_iff]

theorem readRegularFile_ok_iff {limit : ℕ} {data : List UInt8} :
    readRegularFile tree p limit = .ok data ↔
      (∃ perm, tree.node p = some (.file perm data)) ∧ data.length ≤ limit := by
  unfold readRegularFile
  cases hnode : tree.node p with
  | none => simp
  | some node =>
    cases node with
    | file perm found =>
      by_cases hlimit : found.length > limit
      · simp only [if_pos hlimit, Option.some.injEq, Node.file.injEq]
        constructor
        · intro h
          cases h
        · rintro ⟨⟨_, -, rfl⟩, hle⟩
          omega
      · simp only [if_neg hlimit, Option.some.injEq, Node.file.injEq, Except.ok.injEq]
        constructor
        · rintro rfl
          exact ⟨⟨perm, rfl, rfl⟩, Nat.le_of_not_lt hlimit⟩
        · rintro ⟨⟨_, -, h⟩, -⟩
          exact h
    | _ => simp

theorem checkLock_ok_iff {manifest : Manifest} :
    checkLock codec tree root manifest = .ok () ↔
      ∃ perm data, tree.node (join root runtimeAssetsLock) = some (.file perm data) ∧
        data.length ≤ maxManifestBytes ∧ codec.digest data = manifest.runtimeAssetLockSHA256 := by
  simp only [checkLock, bind_ok_iff, mapError_ok_iff, refuse_ok_iff, not_not]
  unfold digestFile
  cases tree.node (join root runtimeAssetsLock) with
  | none => simp
  | some node =>
    cases node with
    | file perm data =>
      by_cases hlimit : data.length > maxManifestBytes
      · simp only [if_pos hlimit, Option.some.injEq, Node.file.injEq]
        constructor
        · rintro ⟨_, hfalse, _⟩
          cases hfalse
        · rintro ⟨_, _, ⟨-, rfl⟩, hle, -⟩
          omega
      · simp only [if_neg hlimit, Option.some.injEq, Node.file.injEq, Except.ok.injEq]
        constructor
        · rintro ⟨_, rfl, hdigest⟩
          exact ⟨perm, data, ⟨rfl, rfl⟩, Nat.le_of_not_lt hlimit, hdigest⟩
        · rintro ⟨_, _, ⟨-, rfl⟩, -, hdigest⟩
          exact ⟨_, rfl, hdigest⟩
    | _ => simp

theorem validateManifestPayload_ok_iff {manifest : Manifest} {u : Unit} :
    validateManifestPayload codec tree root manifest = .ok u ↔
      (∃ listing, Lists manifest.files listing) ∧
      (∀ file ∈ manifest.files, ∃ data, Holds codec tree root file data) ∧
      (∀ p node, root <:+ p → p ≠ root → tree.node p = some node →
        node.isDirectory = true ∨ node.isRegular = true ∧ (p = join root releaseManifest ∨
          ∃ file ∈ manifest.files, p = join root file.path)) ∧
      checkLock codec tree root manifest = .ok () := by
  simp only [validateManifestPayload, bind_ok_iff, refuse_ok_iff]
  constructor
  · rintro ⟨listing, hchecked, _, hcount, _, hrequired, actual, hwalk, _, hmissing, hlock⟩
    have hlisting := ((checkFiles_ok_iff carried_start).mp hchecked).2.2.2
    have hlength : listing.seen.length = manifest.files.length := by simp [hlisting, foldl_add_seen]
    have hlists : Lists manifest.files listing :=
      ⟨hchecked, by omega, by omega, hrequired⟩
    obtain ⟨hpayload, honly⟩ := (checkPayload_iff hlists).mp ⟨actual, hwalk, hmissing⟩
    exact ⟨⟨listing, hlists⟩, hpayload, honly, hlock⟩
  · rintro ⟨⟨listing, hlists⟩, hpayload, honly, hlock⟩
    obtain ⟨actual, hwalk, hmissing⟩ := (checkPayload_iff hlists).mpr ⟨hpayload, honly⟩
    have hlength : listing.seen.length = manifest.files.length := by simp [hlists.seen]
    have hpositive := hlists.positive
    have hbounded := hlists.bounded
    exact ⟨listing, hlists.checked, (), by omega, (), hlists.required, actual, hwalk, (), hmissing,
      hlock⟩

/-- `validateBundleRoot` accepts exactly the valid bundles. -/
theorem validateBundleRoot_ok_iff {bundle : Bundle} :
    validateBundleRoot codec tree root architecture = .ok bundle ↔
      Valid codec tree root architecture bundle := by
  simp only [validateBundleRoot, bind_ok_iff, mapError_ok_iff, realDirectory_ok_iff,
    readRegularFile_ok_iff, validateManifestPayload_ok_iff]
  constructor
  · rintro ⟨_, hdirectory, raw, ⟨hraw, hsmall⟩, manifest, hdecoded, _, hidentified, _,
      ⟨hlists, hpayload, honly, hlock⟩, hbundle⟩
    cases hbundle
    exact ⟨rfl, hdirectory, hraw, hsmall, hdecoded, hidentified, hlists, hpayload, honly, hlock,
      rfl, rfl⟩
  · intro h
    refine ⟨(), h.directory, bundle.manifestRaw, ⟨h.manifest, h.small⟩, bundle.manifest, h.decoded,
      (), h.identified, (), ⟨h.listed, h.payload, h.only, h.locked⟩, ?_⟩
    rw [← h.identity, ← h.generation, ← h.root_eq]
    rfl

end Valid

end RemnanodeLite.Rnlctl
