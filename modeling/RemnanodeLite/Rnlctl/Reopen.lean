import RemnanodeLite.Rnlctl.Unpacking
import RemnanodeLite.Rnlctl.Validation

/-! # Repair caches and their limits

The archive that is kept of a bundle holds the files of the manifest, the
manifest itself and an entry for the top directory, and all of them count when
it is unpacked again. -/

namespace RemnanodeLite.Rnlctl
open Filepath FileTree Program Fallible

/-! ### What is packed -/

def dataAt (tree : Tree) (p : Location) : List UInt8 :=
  match tree.node p with
  | some (.file _ data) => data
  | _ => []

def packedOf (tree : Tree) (root : Location) (file : ManifestFile) : Packed :=
  ⟨file.path, parseMode file.mode, dataAt tree (join root file.path)⟩

/- The files of the archive: those of the manifest and the manifest. -/
def archived (bundle : Bundle) : List ManifestFile := bundle.manifest.files ++ [manifestEntry bundle]

section Packed
variable {codec : Codec} {tree : Tree} {root : Location} {architecture : Text} {bundle : Bundle}

structure Found (codec : Codec) (tree : Tree) (root : Location) (file : ManifestFile) : Prop where
  node : ∃ perm, tree.node (join root file.path) =
    some (.file perm (dataAt tree (join root file.path)))
  size : ((dataAt tree (join root file.path)).length : ℤ) = file.size
  digest : codec.digest (dataAt tree (join root file.path)) = file.sha256

theorem dataAt_eq {p : Location} {perm : ℕ} {data : List UInt8}
    (h : tree.node p = some (.file perm data)) : dataAt tree p = data := by
  unfold dataAt
  rw [h]

theorem Valid.found (h : Valid codec tree root architecture bundle) :
    ∀ file ∈ archived bundle, Found codec tree root file := by
  intro file hfile
  rcases List.mem_append.mp hfile with hfile | hfile
  · obtain ⟨data, hdata⟩ := h.payload file hfile
    have heq := dataAt_eq hdata.node
    exact ⟨⟨_, heq ▸ hdata.node⟩, heq ▸ hdata.size, heq ▸ hdata.digest⟩
  · rw [List.mem_singleton] at hfile
    obtain ⟨perm, hnode⟩ := h.manifest
    have heq := dataAt_eq hnode
    subst hfile
    refine ⟨⟨perm, ?_⟩, ?_, ?_⟩
    · rw [manifestEntry, heq]
      exact hnode
    · rw [manifestEntry, heq]
    · rw [manifestEntry, heq]
      exact h.identity.symm

theorem Valid.raw_ne_nil (h : Valid codec tree root architecture bundle) :
    bundle.manifestRaw ≠ [] := by
  intro hnil
  have hdecoded := h.decoded
  rw [hnil] at hdecoded
  exact codec.decode_empty _ hdecoded

theorem acceptable_of_found {file : ManifestFile} (h : Found codec tree root file)
    (hvalid : validateBundleRelativePath file.path = .ok ())
    (hmode : file.mode = "0644".toList ∨ file.mode = "0755".toList) (hpositive : 0 < file.size)
    (hbounded : file.size ≤ maxBundleFileBytes) : Acceptable (packedOf tree root file) := by
  have hsize := h.size
  refine ⟨hvalid, ?_, ?_, ?_⟩
  · have h644 : parseMode "0644".toList = 0o644 := by decide
    have h755 : parseMode "0755".toList = 0o755 := by decide
    rcases hmode with hmode | hmode
    · exact .inl (by rw [packedOf, hmode, h644])
    · exact .inr (by rw [packedOf, hmode, h755])
  · simp only [packedOf]
    omega
  · simp only [packedOf]
    omega

theorem Valid.acceptable (h : Valid codec tree root architecture bundle) :
    ∀ file ∈ archived bundle, Acceptable (packedOf tree root file) := by
  intro file hfile
  have hfound := h.found file hfile
  rcases List.mem_append.mp hfile with hmem | hmem
  · obtain ⟨listing, hlists⟩ := h.listed
    have hlisted := hlists.wellListed file hmem
    exact acceptable_of_found hfound hlisted.valid hlisted.mode hlisted.positive hlisted.bounded
  · rw [List.mem_singleton] at hmem
    have hraw := List.length_pos_iff.mpr h.raw_ne_nil
    have hsmall := h.small
    have hmax : maxManifestBytes ≤ maxBundleFileBytes := by decide
    subst hmem
    refine acceptable_of_found hfound valid_releaseManifest (.inl rfl) ?_ ?_
    · simp only [manifestEntry]
      omega
    · simp only [manifestEntry]
      omega

/-- The cache writer does not fail on a valid bundle. -/
theorem cacheEntries_valid (h : Valid codec tree root architecture bundle) :
    cacheEntries codec tree bundle =
      .ok (topEntry :: ((archived bundle).map (packedOf tree root)).map Packed.entry) := by
  have hall : ∀ file ∈ archived bundle,
      cacheEntry codec tree bundle.root file = .ok (packedOf tree root file).entry := by
    intro file hfile
    have hfound := h.found file hfile
    have hacceptable := h.acceptable file hfile
    have hread : readRegularFile tree (join root file.path) maxBundleFileBytes =
        .ok (dataAt tree (join root file.path)) :=
      readRegularFile_ok_iff.mpr ⟨hfound.node, hacceptable.bounded⟩
    have hsame : ¬ (((dataAt tree (join root file.path)).length : ℤ) ≠ file.size ∨
        codec.digest (dataAt tree (join root file.path)) ≠ file.sha256) := by
      rw [not_or, not_not, not_not]
      exact ⟨hfound.size, hfound.digest⟩
    have hname : archiveName file.path = bundleTopDirectory ++ ['/'] ++ file.path :=
      clean_below_top hacceptable.valid
    unfold cacheEntry refuse
    rw [h.root_eq, hread, hname]
    simp only [Except.bind, bind, if_neg hsame]
    rfl
  have hmap := mapM_ok hall
  unfold cacheEntries
  rw [archived] at hmap
  rw [hmap, List.map_map]
  rfl

theorem not_suffix_of_files {p q : Location} {perm perm' : ℕ} {data data' : List UInt8}
    (hp : tree.node p = some (.file perm data)) (hq : tree.node q = some (.file perm' data'))
    (hne : p ≠ q) : ¬ p <:+ q := by
  rintro ⟨below, rfl⟩
  have hbelow : below ≠ [] := by
    rintro rfl
    exact hne rfl
  obtain ⟨node, hnode, hkind⟩ := Tree.isDirectory_iff.mp (Tree.isDirectory_above hbelow hq)
  rw [hp] at hnode
  cases hnode
  cases hkind

theorem suffix_join_iff {a b : Text} (ha : validateBundleRelativePath a = .ok ())
    (hb : validateBundleRelativePath b = .ok ()) (root' : Location) :
    join root' a <:+ join root' b ↔ join root a <:+ join root b := by
  rw [join_validated ha, join_validated hb, join_validated ha, join_validated hb,
    List.suffix_append_self_iff, List.suffix_append_self_iff]

theorem join_injective {a b : Text} (ha : validateBundleRelativePath a = .ok ())
    (hb : validateBundleRelativePath b = .ok ()) (h : join root a = join root b) : a = b := by
  have hrel : unsplit (rel root (join root a)) = a := rel_join ha
  rw [← hrel, h, rel_join hb]

theorem Valid.apart (h : Valid codec tree root architecture bundle) (root' : Location) :
    ((archived bundle).map (packedOf tree root)).Pairwise (Apart root') := by
  have hpaths : (archived bundle).Pairwise fun a b => a.path ≠ b.path := by
    obtain ⟨listing, hlists⟩ := h.listed
    refine List.pairwise_append.mpr ⟨hlists.order.imp ne_of_lt, List.pairwise_singleton _ _, ?_⟩
    intro a ha b hb
    rw [List.mem_singleton] at hb
    subst hb
    exact (hlists.wellListed a ha).payload
  rw [List.pairwise_map]
  refine hpaths.imp_of_mem fun {a b} ha hb hne => ?_
  have hva := (h.acceptable a ha).valid
  have hvb := (h.acceptable b hb).valid
  obtain ⟨perm, hnode⟩ := (h.found a ha).node
  obtain ⟨perm', hnode'⟩ := (h.found b hb).node
  have hlocations : join root a.path ≠ join root b.path := fun heq => hne (join_injective hva hvb heq)
  constructor
  · exact fun hsuffix => not_suffix_of_files hnode hnode' hlocations
      ((suffix_join_iff hva hvb root').mp hsuffix)
  · exact fun hsuffix => not_suffix_of_files hnode' hnode hlocations.symm
      ((suffix_join_iff hvb hva root').mp hsuffix)

/-! ### What is unpacked -/

variable {t : Tree} {root' : Location}

theorem Laid.node (hl : Laid root' ((archived bundle).map (packedOf tree root)).reverse t)
    {file : ManifestFile} (hfile : file ∈ archived bundle) :
    t.node (join root' file.path) =
      some (.file (parseMode file.mode) (dataAt tree (join root file.path))) :=
  hl.held (packedOf tree root file) (List.mem_reverse.mpr (List.mem_map_of_mem hfile))

theorem Laid.only_archived (hl : Laid root' ((archived bundle).map (packedOf tree root)).reverse t)
    {p : Location} {node : Node} (hp : root' <:+ p) (hnode : t.node p = some node) :
    node.isDirectory = true ∨ ∃ file ∈ archived bundle, p = join root' file.path := by
  rcases hl.only p node hp hnode with ⟨hdirectory, -⟩ | ⟨packed, hpacked, heq⟩
  · exact .inl hdirectory
  · obtain ⟨file, hfile, rfl⟩ := List.mem_map.mp (List.mem_reverse.mp hpacked)
    exact .inr ⟨file, hfile, heq⟩

theorem Valid.lock_mem (h : Valid codec tree root architecture bundle) :
    ∃ file ∈ bundle.manifest.files, file.path = runtimeAssetsLock := by
  have hlock : validateBundleRelativePath runtimeAssetsLock = .ok () := by decide
  obtain ⟨perm, data, hnode, -⟩ := checkLock_ok_iff.mp h.locked
  rcases h.only _ _ (suffix_join hlock) (join_ne hlock) hnode with
    hdirectory | ⟨-, heq | ⟨file, hfile, heq⟩⟩
  · cases hdirectory
  · exact absurd (join_injective hlock valid_releaseManifest heq) (by decide)
  · obtain ⟨listing, hlists⟩ := h.listed
    exact ⟨file, hfile, (join_injective hlock (hlists.wellListed file hfile).valid heq).symm⟩

/-- What is unpacked from the cache of a valid bundle is that bundle. -/
theorem Valid.unpacked (h : Valid codec tree root architecture bundle)
    (hl : Laid root' ((archived bundle).map (packedOf tree root)).reverse t) :
    Valid codec t root' architecture { bundle with root := root' } := by
  have hmem : ∀ file ∈ bundle.manifest.files, file ∈ archived bundle :=
    fun file hfile => List.mem_append_left _ hfile
  have hmanifest : manifestEntry bundle ∈ archived bundle :=
    List.mem_append_right _ (List.mem_singleton.mpr rfl)
  constructor
  · rfl
  · exact hl.directory
  · obtain ⟨perm, hnode⟩ := h.manifest
    have hunpacked := hl.node hmanifest
    rw [manifestEntry, dataAt_eq hnode] at hunpacked
    exact ⟨_, hunpacked⟩
  · exact h.small
  · exact h.decoded
  · exact h.identified
  · exact h.listed
  · intro file hfile
    have hfound := h.found file (hmem file hfile)
    exact ⟨_, hl.node (hmem file hfile), hfound.size, hfound.digest⟩
  · intro p node hp hne hnode
    rcases hl.only_archived hp hnode with hdirectory | ⟨file, hfile, heq⟩
    · exact .inl hdirectory
    · have hregular : node.isRegular = true := by
        have hunpacked := hl.node hfile
        rw [← heq, hnode] at hunpacked
        cases hunpacked
        rfl
      refine .inr ⟨hregular, ?_⟩
      rcases List.mem_append.mp hfile with hfile | hfile
      · exact .inr ⟨file, hfile, heq⟩
      · rw [List.mem_singleton] at hfile
        rw [hfile] at heq
        exact .inl heq
  · obtain ⟨perm, data, hnode, hsmall, hdigest⟩ := checkLock_ok_iff.mp h.locked
    obtain ⟨file, hfile, hpath⟩ := h.lock_mem
    have hunpacked := hl.node (hmem file hfile)
    rw [hpath, dataAt_eq hnode] at hunpacked
    exact checkLock_ok_iff.mpr ⟨_, data, hunpacked, hsmall, hdigest⟩
  · exact h.identity
  · exact h.generation

/-! ### Reopening -/

theorem Valid.dataSum_eq (h : Valid codec tree root architecture bundle) :
    (dataSum ((archived bundle).map (packedOf tree root)) : ℤ) =
      (bundle.manifest.files.map ManifestFile.size).sum + bundle.manifestRaw.length := by
  have hsizes : ∀ files : List ManifestFile, (∀ file ∈ files, Found codec tree root file) →
      (dataSum (files.map (packedOf tree root)) : ℤ) =
        (files.map ManifestFile.size).sum := by
    intro files hfiles
    induction files with
    | nil => rfl
    | cons file files ih =>
      have hrest := ih fun other hother => hfiles other (List.mem_cons_of_mem _ hother)
      have hsize := (hfiles file List.mem_cons_self).size
      simp only [dataSum, List.map_cons, List.sum_cons, packedOf] at hrest ⊢
      rw [Nat.cast_add, hsize]
      omega
  rw [hsizes _ h.found, archived, List.map_append, List.sum_append]
  simp [manifestEntry]

end Packed

section Reopen
variable {codec : Codec} {tree : Tree} {root : Location} {architecture : Text} {bundle : Bundle}

/- The limits as they are for an archive: the manifest and the top directory count. -/
def FitsArchive (bundle : Bundle) : Prop :=
  bundle.manifest.files.length ≤ 510 ∧
    (bundle.manifest.files.map ManifestFile.size).sum + bundle.manifestRaw.length ≤ 512 * 2 ^ 20

theorem Valid.fitsArchive_iff (h : Valid codec tree root architecture bundle) :
    FitsArchive bundle ↔ 1 + ((archived bundle).map (packedOf tree root)).length ≤ maxBundleEntries ∧
      (dataSum ((archived bundle).map (packedOf tree root)) : ℤ) ≤ maxBundleTotalBytes := by
  have hmax : maxBundleEntries = 512 := rfl
  have htotal : maxBundleTotalBytes = 512 * 2 ^ 20 := rfl
  rw [h.dataSum_eq, FitsArchive, List.length_map, archived, List.length_append, List.length_singleton]
  omega

variable {archive : List UInt8} {s : World} {source temporary : Location} {perm : ℕ} {w : ℕ → Fault}

theorem bindExpectedVersion_nil : bindExpectedVersion bundle [] = .ok bundle := rfl

theorem snapshot_ok (hne : archive ≠ []) (hfits : archive.length ≤ maxBundleArchive)
    (hsource : s.tree.node source = some (.file perm archive)) :
    snapshotVerifiedArchive codec s.tree source (codec.digest archive) = .ok archive := by
  have hlength : ¬ (archive.length = 0 ∨ archive.length > maxBundleArchive) := by
    rw [List.length_eq_zero_iff]
    exact not_or.mpr ⟨hne, Nat.not_lt.mpr hfits⟩
  have hdigest : ¬ codec.digest archive ≠ codec.digest archive := not_not.mpr rfl
  unfold snapshotVerifiedArchive refuse
  simp only [hsource, if_neg hlength, if_neg hdigest]
  rfl

theorem openBundle_archive {entries : List Entry} (harchive : codec.unpack archive = .ok entries)
    (hne : archive ≠ []) (hfits : archive.length ≤ maxBundleArchive)
    (hsource : s.tree.node source = some (.file perm archive)) {reopened : Bundle} :
    openBundle codec ⟨none, some source, codec.digest archive, []⟩ architecture temporary w s =
        .ok reopened ↔
      ∃ root', (unpackArchive entries temporary w s).1 = .ok root' ∧
        validateBundleRoot codec (unpackArchive entries temporary w s).2.tree root' architecture =
          .ok reopened := by
  have hhex : ¬ hexDigestRE (codec.digest archive) = false := by simp [codec.digest_hex]
  simp only [openBundle, openArchive, bind_ok_iff, refuse_ok_iff, mapError_ok_iff,
    snapshot_ok hne hfits hsource, bindExpectedVersion_nil]
  constructor
  · rintro ⟨opened, ⟨_, -, snapshot, hsnapshot, found, hfound, root', hroot, hvalid⟩, hopened⟩
    cases hsnapshot
    rw [harchive] at hfound
    cases hfound
    cases hopened
    exact ⟨root', hroot, hvalid⟩
  · rintro ⟨root', hroot, hvalid⟩
    exact ⟨reopened, ⟨(), hhex, archive, rfl, entries, harchive, root', hroot, hvalid⟩, rfl⟩

theorem Valid.reopens_iff (h : Valid codec tree root architecture bundle) {entries : List Entry}
    (hentries : entries = topEntry :: ((archived bundle).map (packedOf tree root)).map Packed.entry)
    (harchive : codec.unpack archive = .ok entries)
    (hne : archive ≠ []) (hfits : archive.length ≤ maxBundleArchive)
    (hsource : s.tree.node source = some (.file perm archive)) (hvacant : Vacant s.tree temporary)
    (hw : ∀ n, (w n).failure = none) :
    (∃ reopened, openBundle codec ⟨none, some source, codec.digest archive, []⟩ architecture
        temporary w s = .ok reopened ∧ reopened.manifestRaw = bundle.manifestRaw ∧
        reopened.identity = bundle.identity ∧ reopened.generationID = bundle.generationID) ↔
      FitsArchive bundle := by
  have hacceptable : ∀ f ∈ (archived bundle).map (packedOf tree root), Acceptable f := by
    intro f hf
    obtain ⟨file, hfile, rfl⟩ := List.mem_map.mp hf
    exact h.acceptable file hfile
  have happart := h.apart (bundleTopDirectory :: temporary)
  subst hentries
  rw [h.fitsArchive_iff]
  constructor
  · rintro ⟨reopened, hopened, -⟩
    obtain ⟨root', hroot, -⟩ := (openBundle_archive harchive hne hfits hsource).mp hopened
    by_contra hover
    have hfails : Fails (extractBundleArchive temporary) (staged _ s) :=
      fails_extractBundleArchive _ rfl hvacant hacceptable happart hover
    obtain ⟨e, he⟩ := fails_run hfails hw
    rw [unpackArchive, he] at hroot
    cases hroot
  · rintro ⟨hcount, htotal⟩
    have hsucceeds : Succeeds (extractBundleArchive temporary) (fun root' t =>
        root' = bundleTopDirectory :: temporary ∧
        Laid root' ((archived bundle).map (packedOf tree root)).reverse t.tree) (staged _ s) :=
      succeeds_extractBundleArchive _ rfl hvacant hacceptable happart hcount htotal
    obtain ⟨root', hrun, rfl, hlaid⟩ := succeeds_run hsucceeds hw
    refine ⟨{ bundle with root := bundleTopDirectory :: temporary }, ?_, rfl, rfl, rfl⟩
    exact (openBundle_archive harchive hne hfits hsource).mpr
      ⟨_, hrun, validateBundleRoot_ok_iff.mpr (h.unpacked hlaid)⟩

/-- The repair cache of an accepted bundle root can be reopened, to the same
manifest, identity and generation, exactly when the root lists at most 510 files
and these and the manifest together have at most 512 MiB. -/
theorem repair_cache_reopens_iff (codec : Codec) (tree : Tree) (root : Location)
    (architecture : Text) (bundle : Bundle)
    (haccepted : validateBundleRoot codec tree root architecture = .ok bundle)
    (hround : ∀ entries, cacheEntries codec tree bundle = .ok entries →
      codec.unpack (codec.pack entries) = .ok entries) :
    ∃ archive, writeBundleCacheArchive codec tree bundle = .ok archive ∧
      ∀ (s : World) (source temporary : Location) (perm : ℕ) (w : ℕ → Fault),
        archive.length ≤ maxBundleArchive → s.tree.node source = some (.file perm archive) →
        Vacant s.tree temporary → (∀ n, (w n).failure = none) →
        ((∃ reopened, openBundle codec ⟨none, some source, codec.digest archive, []⟩ architecture
            temporary w s = .ok reopened ∧ reopened.manifestRaw = bundle.manifestRaw ∧
            reopened.identity = bundle.identity ∧
            reopened.generationID = bundle.generationID) ↔
          bundle.manifest.files.length ≤ 510 ∧
            (bundle.manifest.files.map ManifestFile.size).sum + bundle.manifestRaw.length ≤
              512 * 2 ^ 20) := by
  have hvalid := validateBundleRoot_ok_iff.mp haccepted
  have hentries := cacheEntries_valid hvalid
  refine ⟨codec.pack (topEntry :: ((archived bundle).map (packedOf tree root)).map Packed.entry),
    ?_, ?_⟩
  · rw [writeBundleCacheArchive, hentries]
    rfl
  · intro s source temporary perm w hfits hsource hvacant hw
    exact hvalid.reopens_iff rfl (hround _ hentries) (codec.pack_ne_nil _) hfits hsource hvacant hw

end Reopen

/-! ### A bundle with two large files -/

namespace Sample

/- The required files; the first has `a` bytes and the second `b`. -/
def specs (a b : ℕ) : List (Text × Text × ℕ) :=
  [("LICENSE", "0644", a), ("SBOM.spdx.json", "0644", b), ("SOURCE-OFFER.md", "0644", 1),
    ("THIRD_PARTY_NOTICES.md", "0644", 1), ("bin/remnanode-lite", "0755", 1),
    ("bin/rnlctl", "0755", 1), ("install.sh", "0755", 1), ("lib/rw-core", "0755", 1),
    ("licenses/CC-BY-SA-4.0.txt", "0644", 1), ("licenses/CC0-1.0.txt", "0644", 1),
    ("licenses/GPL-3.0-only.txt", "0644", 1), ("licenses/MPL-2.0.txt", "0644", 1),
    ("runtime-assets.lock.json", "0644", 1), ("share/asn/asn-prefixes.bin", "0644", 1),
    ("share/xray/geoip.dat", "0644", 1), ("share/xray/geosite.dat", "0644", 1),
    ("support/deploy/node.env.example", "0644", 1),
    ("support/deploy/remnanode-lite-hardening.conf", "0644", 1),
    ("support/deploy/remnanode-lite.openrc", "0755", 1),
    ("support/deploy/remnanode-lite.service", "0644", 1)].map
      fun file => (file.1.toList, file.2.1.toList, file.2.2)

def hash : Text := List.replicate 64 '0'

def fileOf (spec : Text × Text × ℕ) : ManifestFile :=
  ⟨spec.1, spec.2.1, spec.2.2, hash, ['r'], ['l']⟩

def nodeOf (spec : Text × Text × ℕ) : Location × Node :=
  (join [] spec.1, .file (parseMode spec.2.1) (List.replicate spec.2.2 0))

def directories : List Location :=
  [[], ["bin"], ["lib"], ["licenses"], ["share"], ["asn", "share"], ["xray", "share"], ["support"],
    ["deploy", "support"]].map (·.map String.toList)

def nodes (a b : ℕ) : List (Location × Node) :=
  directories.map (fun p => (p, .directory 0o755)) ++
    ((specs a b).map nodeOf ++ [(join [] releaseManifest, .file 0o644 [1])])

def artifact : Artifact := ⟨['u'], hash, 1⟩
def payload : RuntimePayload := ⟨hash, 1, ['l']⟩
def revision : Text := List.replicate 40 'a'
def geo : GeoRuntime := ⟨['1'], revision, ['u'], artifact, artifact, ['l']⟩

def manifest (a b : ℕ) : Manifest where
  schemaVersion := manifestSchema
  name := bundleTopDirectory
  version := "1.0.0".toList
  contractVersion := "1.0.0".toList
  os := "linux".toList
  architecture := "amd64".toList
  sourceRevision := revision
  sourceDateEpoch := 1
  runtimeAssetLockSHA256 := hash
  runtimeAssets := ⟨⟨['1'], revision, ['u'], artifact, payload⟩, geo, geo, ⟨revision, artifact, payload⟩⟩
  files := (specs a b).map fileOf

def bundle (a b : ℕ) : Bundle :=
  ⟨[], manifest a b, [1], hash, "1.0.0".toList ++ ['-'] ++ hash.take 16⟩

def entries (a b : ℕ) (h : Tree.WellFormed (nodes a b)) : List Entry :=
  topEntry :: ((archived (bundle a b)).map (packedOf (Tree.ofList h) [])).map Packed.entry

def codec (a b : ℕ) (h : Tree.WellFormed (nodes a b)) : Codec where
  goarch := "amd64".toList
  decodeManifest raw := if raw = [] then .error .unexpectedEOF else .ok (manifest a b)
  digest _ := hash
  pack _ := [1]
  unpack _ := .ok (entries a b h)
  decode_empty := by simp
  digest_hex := fun _ => by decide
  pack_ne_nil := by simp

theorem wellFormed_small : Tree.WellFormed (nodes 1 1) := by decide +kernel

theorem identity_files {c : Codec} (c' : Codec) (hgoarch : c.goarch = c'.goarch) (m : Manifest)
    (files : List ManifestFile) (architecture : Text) :
    validateManifestIdentity c { m with files := files } architecture =
      validateManifestIdentity c' m architecture := by
  unfold validateManifestIdentity hostArchitecture
  rw [hgoarch]

theorem identified_small : validateManifestIdentity (codec 1 1 wellFormed_small) (manifest 1 1)
    "amd64".toList = .ok () := by decide +kernel

section Sample
variable {a b : ℕ} (h : Tree.WellFormed (nodes a b))

theorem node_file {spec : Text × Text × ℕ} (hspec : spec ∈ specs a b) :
    (Tree.ofList h).node (join [] spec.1) =
      some (.file (parseMode spec.2.1) (List.replicate spec.2.2 0)) :=
  (Tree.node_ofList h).mpr
    (List.mem_append_right _ (List.mem_append_left _ (List.mem_map_of_mem hspec)))

theorem node_cases {p : Location} {node : Node} (hnode : (Tree.ofList h).node p = some node) :
    node.isDirectory = true ∨ node.isRegular = true ∧ (p = join [] releaseManifest ∨
      ∃ file ∈ (manifest a b).files, p = join [] file.path) := by
  rcases List.mem_append.mp ((Tree.node_ofList h).mp hnode) with hmem | hmem
  · obtain ⟨q, -, heq⟩ := List.mem_map.mp hmem
    cases heq
    exact .inl rfl
  · rcases List.mem_append.mp hmem with hmem | hmem
    · obtain ⟨spec, hspec, heq⟩ := List.mem_map.mp hmem
      cases heq
      exact .inr ⟨rfl, .inr ⟨fileOf spec, List.mem_map_of_mem hspec, rfl⟩⟩
    · rw [List.mem_singleton] at hmem
      cases hmem
      exact .inr ⟨rfl, .inl rfl⟩

theorem valid (hlists : ∃ listing, Lists (manifest a b).files listing) :
    Valid (codec a b h) (Tree.ofList h) [] "amd64".toList (bundle a b) where
  root_eq := rfl
  directory := by
    have hroot : (Tree.ofList h).node [] = some (.directory 0o755) :=
      (Tree.node_ofList h).mpr (List.mem_append_left _ List.mem_cons_self)
    simp [Tree.isDirectory, hroot, Node.isDirectory]
  manifest := ⟨0o644, (Tree.node_ofList h).mpr
    (List.mem_append_right _ (List.mem_append_right _ (List.mem_singleton.mpr rfl)))⟩
  small := by simp [bundle, maxManifestBytes]
  decoded := rfl
  identified := (identity_files _ rfl (manifest 1 1) _ _).trans identified_small
  listed := hlists
  payload := by
    intro file hfile
    obtain ⟨spec, hspec, rfl⟩ := List.mem_map.mp hfile
    exact ⟨_, node_file h hspec, by simp [fileOf], rfl⟩
  only := fun _ _ _ _ hnode => node_cases h hnode
  locked := by
    have hlock : (runtimeAssetsLock, "0644".toList, 1) ∈ specs a b :=
      List.mem_of_getElem? (i := 12) rfl
    exact checkLock_ok_iff.mpr ⟨_, _, node_file h hlock, by simp [maxManifestBytes], rfl⟩
  identity := rfl
  generation := rfl

end Sample

theorem lists_of_checked {files : List ManifestFile}
    (hchecked : (checkFiles files ⟨[], [], 0⟩ >>= fun l => checkRequired l required) = .ok ())
    (hpositive : 0 < files.length) (hbounded : files.length ≤ maxBundleFiles) :
    ∃ listing, Lists files listing := by
  obtain ⟨listing, hlisting, hrequired⟩ := bind_ok_iff.mp hchecked
  exact ⟨listing, hlisting, hpositive, hbounded, hrequired⟩

theorem lists_small : ∃ listing, Lists (manifest 1 1).files listing :=
  lists_of_checked (by decide +kernel) (by decide) (by decide)

theorem wellFormed_large : Tree.WellFormed (nodes (2 ^ 28) (2 ^ 28 - 18)) := by decide +kernel

theorem lists_large : ∃ listing, Lists (manifest (2 ^ 28) (2 ^ 28 - 18)).files listing :=
  lists_of_checked (by decide +kernel) (by decide) (by decide)

/- A world with the cache as `/c` and a workspace. -/
def cacheNodes : List (Location × Node) :=
  [([], .directory 0o755), ([['c']], .file 0o600 [1])]

theorem wellFormed_cache : Tree.WellFormed cacheNodes := by decide

def cacheWorld : World where
  tree := Tree.ofList wellFormed_cache
  umask := 0o022
  unread := []
  content := []
  read := 0
  written := []

theorem node_cache : cacheWorld.tree.node [['c']] = some (.file 0o600 [1]) :=
  (Tree.node_ofList wellFormed_cache).mpr (List.mem_cons_of_mem _ List.mem_cons_self)

theorem vacant_cacheWorld : Vacant cacheWorld.tree [] where
  directory := by decide +kernel
  empty := by
    intro p hp
    cases hnode : cacheWorld.tree.node p with
    | none => rfl
    | some node =>
      have hmem : (p, node) ∈ cacheNodes := (Tree.node_ofList wellFormed_cache).mp hnode
      have hshort : p = [] ∨ p = [['c']] := by
        simp only [cacheNodes, List.mem_cons, Prod.mk.injEq, List.not_mem_nil, or_false] at hmem
        exact hmem.imp And.left And.left
      rcases hshort with rfl | rfl
      · exact absurd hp (by decide)
      · exact absurd hp (by decide)

end Sample

open Sample in
theorem repair_cache_reopens_iff_small :
    ∃ archive, writeBundleCacheArchive (codec 1 1 wellFormed_small) (Tree.ofList wellFormed_small)
        (bundle 1 1) = .ok archive ∧
      (cacheWorld.tree.node [['c']] = some (.file 0o600 archive) →
        ∃ reopened, openBundle (codec 1 1 wellFormed_small) ⟨none, some [['c']], hash, []⟩
            "amd64".toList [] (fun _ => Fault.none) cacheWorld = .ok reopened ∧
          reopened.manifestRaw = [1] ∧ reopened.identity = hash) := by
  have hvalid := valid wellFormed_small lists_small
  obtain ⟨archive, hwrite, hreopen⟩ := repair_cache_reopens_iff (codec 1 1 wellFormed_small)
    (Tree.ofList wellFormed_small) [] "amd64".toList (bundle 1 1)
    (validateBundleRoot_ok_iff.mpr hvalid) (fun entries hentries =>
      (cacheEntries_valid hvalid).symm.trans hentries)
  refine ⟨archive, hwrite, fun hnode => ?_⟩
  have harchive : archive = [1] := by
    rw [node_cache] at hnode
    exact (Node.file.inj (Option.some.inj hnode)).2.symm
  subst harchive
  obtain ⟨reopened, hopened, hraw, hidentity, -⟩ := (hreopen cacheWorld [['c']] [] 0o600
    (fun _ => Fault.none) (by decide) node_cache vacant_cacheWorld (fun _ => rfl)).mpr
    ⟨by decide, by decide⟩
  exact ⟨reopened, hopened, hraw, hidentity⟩

open Sample in
/- A root whose files have 512 MiB is accepted, but not the archive kept of it. -/
theorem cache_of_full_root_refused :
    let wf := wellFormed_large
    let full := bundle (2 ^ 28) (2 ^ 28 - 18)
    validateBundleRoot (codec _ _ wf) (Tree.ofList wf) [] "amd64".toList = .ok full ∧
    cacheEntries (codec _ _ wf) (Tree.ofList wf) full = .ok (entries _ _ wf) ∧
    (codec _ _ wf).unpack ((codec _ _ wf).pack (entries _ _ wf)) = .ok (entries _ _ wf) ∧
    writeBundleCacheArchive (codec _ _ wf) (Tree.ofList wf) full = .ok [1] ∧
    cacheWorld.tree.node [['c']] = some (.file 0o600 [1]) ∧ Vacant cacheWorld.tree [] ∧
    ¬ ∃ reopened, openBundle (codec _ _ wf) ⟨none, some [['c']], hash, []⟩ "amd64".toList []
        (fun _ => Fault.none) cacheWorld = .ok reopened ∧
      reopened.manifestRaw = full.manifestRaw ∧ reopened.identity = full.identity ∧
      reopened.generationID = full.generationID := by
  have hvalid := valid wellFormed_large lists_large
  have hentries := cacheEntries_valid hvalid
  refine ⟨validateBundleRoot_ok_iff.mpr hvalid, hentries, rfl, ?_, node_cache, vacant_cacheWorld, ?_⟩
  · rw [writeBundleCacheArchive, hentries]
    rfl
  · intro hreopened
    have hfits := (hvalid.reopens_iff rfl rfl (List.cons_ne_nil 1 []) (by decide) node_cache
      vacant_cacheWorld fun _ => rfl).mp hreopened
    exact absurd hfits.2 (by decide)

end RemnanodeLite.Rnlctl
