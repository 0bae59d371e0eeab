import Mathlib.Data.List.Dedup
import RemnanodeLite.Lib.Fallible
import RemnanodeLite.Lib.Strconv
import RemnanodeLite.Rnlctl.Extraction

/-! # Release bundles

`bundle.go`: what makes a directory a release bundle, the archive that is kept of
it for a repair, and how a bundle is opened. JSON, SHA-256, tar and gzip are
parameters. -/

namespace RemnanodeLite.Rnlctl
open Filepath FileTree Program Fallible Strconv

def maxManifestBytes : ℕ := 4 * 2 ^ 20
def maxBundleArchive : ℕ := 512 * 2 ^ 20

structure Artifact where
  url : Text
  sha256 : Text
  size : ℤ
  deriving DecidableEq

structure RuntimePayload where
  sha256 : Text
  size : ℤ
  license : Text
  deriving DecidableEq

structure XrayRuntime where
  version : Text
  commit : Text
  sourceURL : Text
  archive : Artifact
  core : RuntimePayload
  deriving DecidableEq

structure GeoRuntime where
  version : Text
  commit : Text
  sourceURL : Text
  sourceArtifact : Artifact
  artifact : Artifact
  license : Text
  deriving DecidableEq

structure ASNRuntime where
  commit : Text
  source : Artifact
  output : RuntimePayload
  deriving DecidableEq

structure RuntimeAssets where
  xray : XrayRuntime
  geoIP : GeoRuntime
  geoSite : GeoRuntime
  asn : ASNRuntime
  deriving DecidableEq

structure ManifestFile where
  path : Text
  mode : Text
  size : ℤ
  sha256 : Text
  role : Text
  license : Text
  deriving DecidableEq

structure Manifest where
  schemaVersion : ℤ
  name : Text
  version : Text
  contractVersion : Text
  os : Text
  architecture : Text
  sourceRevision : Text
  sourceDateEpoch : ℤ
  runtimeAssetLockSHA256 : Text
  runtimeAssets : RuntimeAssets
  files : List ManifestFile
  deriving DecidableEq

structure Bundle where
  root : Location
  manifest : Manifest
  manifestRaw : List UInt8
  identity : Text
  generationID : Text
  deriving DecidableEq

/-! ### Texts -/

def isDigit (c : Char) : Bool := '0' ≤ c && c ≤ '9'

def isHex (c : Char) : Bool := isDigit c || ('a' ≤ c && c ≤ 'f')

/- `[1-9][0-9]*`. -/
def isPositive (t : Text) : Bool := t.head?.any ('1' ≤ ·) && t.all isDigit

def isNumber (t : Text) : Bool := t = ['0'] || isPositive t

def contractVersionRE (t : Text) : Bool :=
  match t.splitOn '.' with
  | [a, b, c] => isNumber a && isNumber b && isNumber c
  | _ => false

def projectVersionRE (t : Text) : Bool :=
  match t.splitOn '-' with
  | [v] => contractVersionRE v
  | [v, r] => contractVersionRE v && decide ("rnl.".toList <+: r) && isPositive (r.drop 4)
  | _ => false

def gitRevisionRE (t : Text) : Bool := t.length = 40 && t.all isHex

def hexDigestRE (t : Text) : Bool := t.length = 64 && t.all isHex

/- `strconv.ParseUint(mode, 8, 32)` of a mode that was checked. -/
def parseMode (mode : Text) : ℕ := mode.foldl (fun n c => 8 * n + (c.toNat - '0'.toNat)) 0

/- What is not code of the repository: SHA-256 in hexadecimal, the JSON decoder for
a manifest, and tar with gzip. -/
structure Codec where
  goarch : Text
  decodeManifest : List UInt8 → Except Failure Manifest
  digest : List UInt8 → Text
  pack : List Entry → List UInt8
  unpack : List UInt8 → Except Failure (List Entry)
  decode_empty : ∀ manifest, decodeManifest [] ≠ .ok manifest
  digest_hex : ∀ data, hexDigestRE (digest data) = true
  pack_ne_nil : ∀ entries, pack entries ≠ []

/-! ### The manifest -/

def validateManifestArtifact (artifact : Artifact) : Except Failure Unit :=
  refuse (artifact.url = [] ∨ hexDigestRE artifact.sha256 = false ∨ artifact.size ≤ 0)
    (.errorf "invalid artifact metadata" [])

def validateRuntimePayload (payload : RuntimePayload) : Except Failure Unit :=
  refuse (hexDigestRE payload.sha256 = false ∨ payload.size ≤ 0 ∨ payload.license = [])
    (.errorf "invalid runtime payload metadata" [])

def validateGeo (name : Text) (geo : GeoRuntime) : Except Failure Unit := do
  refuse (geo.version = [] ∨ gitRevisionRE geo.commit = false ∨ geo.sourceURL = [] ∨
    geo.license = []) (.errorf "invalid %s provenance" [name])
  (validateManifestArtifact geo.sourceArtifact).mapError (.wrapf "%s source artifact: %w" [name])
  (validateManifestArtifact geo.artifact).mapError (.wrapf "%s artifact: %w" [name])

def validateRuntimeAssets (assets : RuntimeAssets) : Except Failure Unit := do
  refuse (assets.xray.version = [] ∨ gitRevisionRE assets.xray.commit = false ∨
    assets.xray.sourceURL = []) (.errorf "invalid Xray provenance" [])
  (validateManifestArtifact assets.xray.archive).mapError (.wrapf "Xray archive: %w" [])
  (validateRuntimePayload assets.xray.core).mapError (.wrapf "Xray core: %w" [])
  validateGeo "geoIP".toList assets.geoIP
  validateGeo "geoSite".toList assets.geoSite
  refuse (gitRevisionRE assets.asn.commit = false) (.errorf "invalid ASN provenance" [])
  (validateManifestArtifact assets.asn.source).mapError (.wrapf "ASN source: %w" [])
  (validateRuntimePayload assets.asn.output).mapError (.wrapf "ASN output: %w" [])

def manifestSchema : ℤ := 2

def hostArchitecture (codec : Codec) (architecture : Text) : Text :=
  if architecture = [] then codec.goarch else architecture

def validateManifestIdentity (codec : Codec) (manifest : Manifest) (architecture : Text) :
    Except Failure Unit := do
  refuse (manifest.schemaVersion ≠ manifestSchema ∨ manifest.name ≠ bundleTopDirectory ∨
    manifest.os ≠ "linux".toList)
    (.errorf "release manifest has unsupported schema or identity" [])
  let host := hostArchitecture codec architecture
  refuse (host ≠ "amd64".toList ∧ host ≠ "arm64".toList)
    (.errorf "unsupported host architecture %q" [host])
  refuse (manifest.architecture ≠ host)
    (.errorf "bundle architecture %q does not match host architecture %q"
      [manifest.architecture, host])
  refuse (projectVersionRE manifest.version = false ∨
    contractVersionRE manifest.contractVersion = false)
    (.errorf "release manifest contains an invalid version" [])
  refuse (¬ "-rnl.".toList <:+: manifest.version ∧ manifest.version ≠ manifest.contractVersion)
    (.errorf "stable release version %q must equal contract version %q"
      [manifest.version, manifest.contractVersion])
  refuse (gitRevisionRE manifest.sourceRevision = false ∨ manifest.sourceDateEpoch ≤ 0)
    (.errorf "release manifest contains invalid source metadata" [])
  (validateRuntimeAssets manifest.runtimeAssets).mapError
    (.wrapf "release manifest runtime assets: %w" [])
  refuse (hexDigestRE manifest.runtimeAssetLockSHA256 = false)
    (.errorf "release manifest has invalid runtime asset lock digest" [])

/-! ### The files -/

def runtimeAssetsLock : Text := "runtime-assets.lock.json".toList

def required : List (Text × Text) :=
  [("LICENSE", "0644"), ("SOURCE-OFFER.md", "0644"), ("THIRD_PARTY_NOTICES.md", "0644"),
    ("SBOM.spdx.json", "0644"), ("install.sh", "0755"), ("bin/remnanode-lite", "0755"),
    ("bin/rnlctl", "0755"), ("lib/rw-core", "0755"), ("share/asn/asn-prefixes.bin", "0644"),
    ("share/xray/geoip.dat", "0644"), ("share/xray/geosite.dat", "0644"),
    ("support/deploy/remnanode-lite.service", "0644"),
    ("support/deploy/remnanode-lite-hardening.conf", "0644"),
    ("support/deploy/remnanode-lite.openrc", "0755"),
    ("support/deploy/node.env.example", "0644"), ("runtime-assets.lock.json", "0644"),
    ("licenses/MPL-2.0.txt", "0644"), ("licenses/GPL-3.0-only.txt", "0644"),
    ("licenses/CC-BY-SA-4.0.txt", "0644"), ("licenses/CC0-1.0.txt", "0644")].map
      fun file => (file.1.toList, file.2.toList)

structure Listing where
  seen : List ManifestFile
  last : Text
  total : ℤ

def Listing.find (listing : Listing) (path : Text) : Option ManifestFile :=
  listing.seen.find? fun file => file.path = path

def checkFile (file : ManifestFile) (listing : Listing) : Except Failure Listing := do
  (validateBundleRelativePath file.path).mapError (.wrapf "manifest path %q: %w" [file.path])
  refuse (file.path ≤ listing.last)
    (.errorf "manifest file paths are not in strict order at %q" [file.path])
  refuse (file.path = releaseManifest) (.errorf "release manifest cannot checksum itself" [])
  refuse (file.mode ≠ "0644".toList ∧ file.mode ≠ "0755".toList)
    (.errorf "manifest file %q has invalid mode %q" [file.path, file.mode])
  refuse (file.size ≤ 0 ∨ file.size > maxBundleFileBytes ∨
    listing.total > int64 (maxBundleTotalBytes - file.size))
    (.errorf "manifest file %q exceeds bundle size limits" [file.path])
  refuse (hexDigestRE file.sha256 = false ∨ file.role = [] ∨ file.license = [])
    (.errorf "manifest file %q has incomplete metadata" [file.path])
  refuse ((listing.find file.path).isSome = true) (.errorf "manifest repeats file %q" [file.path])
  return ⟨file :: listing.seen, file.path, int64 (listing.total + file.size)⟩

def checkFiles : List ManifestFile → Listing → Except Failure Listing
  | [], listing => .ok listing
  | file :: rest, listing => do
    let listing ← checkFile file listing
    checkFiles rest listing

def checkRequired (listing : Listing) : List (Text × Text) → Except Failure Unit
  | [] => .ok ()
  | (name, mode) :: rest => match listing.find name with
    | none => .error (.errorf "manifest is missing required file %q" [name])
    | some file => do
      refuse (file.mode ≠ mode) (.errorf "required file %q has mode %s, want %s" [name, file.mode, mode])
      checkRequired listing rest

/- A visit of the walk over the bundle; a manifested file is added to `actual`. -/
def checkEntry (codec : Codec) (root : Location) (listing : Listing) (p : Location) (node : Node)
    (actual : List Text) : Except Failure (List Text) :=
  let relative := unsplit (rel root p)
  if p = root then .ok actual
  else match node with
    | .symlink _ => .error (.errorf "bundle path %q is a symlink" [relative])
    | .directory _ => .ok actual
    | .special => .error (.errorf "bundle path %q is not a regular file" [relative])
    | .file perm data =>
      if relative = releaseManifest then .ok actual
      else match listing.find relative with
        | none => .error (.errorf "bundle contains unmanifested file %q" [relative])
        | some file => do
          refuse (perm ≠ parseMode file.mode ∨ (data.length : ℤ) ≠ file.size)
            (.errorf "bundle file %q does not match manifest mode or size" [relative])
          refuse (data.length > maxBundleFileBytes)
            (.errorf "%s exceeds the %d-byte size limit"
              [pathText p, Nat.toDigits 10 maxBundleFileBytes])
          refuse (codec.digest data ≠ file.sha256)
            (.errorf "bundle file %q does not match manifest SHA-256" [relative])
          return actual.insert relative

def checkWalk (codec : Codec) (root : Location) (listing : Listing) :
    List (Location × Node) → List Text → Except Failure (List Text)
  | [], actual => .ok actual
  | (p, node) :: rest, actual => do
    let actual ← checkEntry codec root listing p node actual
    checkWalk codec root listing rest actual

def checkMissing (listing : Listing) (actual : List Text) : Except Failure Unit :=
  if actual.length = listing.seen.length then .ok ()
  else match listing.seen.find? fun file => file.path ∉ actual with
    | none => .ok ()
    | some file => .error (.errorf "manifest file %q is missing from bundle" [file.path])

/- `digestFile`. -/
def digestFile (codec : Codec) (tree : Tree) (p : Location) (limit : ℕ) : Except Failure Text :=
  match tree.node p with
  | some (.file _ data) =>
    if data.length > limit then
      .error (.errorf "%s exceeds the %d-byte size limit" [pathText p, Nat.toDigits 10 limit])
    else .ok (codec.digest data)
  | some _ => .error (.system "not a file")
  | none => .error .notExist

def checkLock (codec : Codec) (tree : Tree) (root : Location) (manifest : Manifest) :
    Except Failure Unit := do
  let lockDigest ← (digestFile codec tree (join root runtimeAssetsLock) maxManifestBytes).mapError
    (.wrapf "hash runtime asset lock: %w" [])
  refuse (lockDigest ≠ manifest.runtimeAssetLockSHA256)
    (.errorf "runtime asset lock does not match manifest SHA-256" [])

def validateManifestPayload (codec : Codec) (tree : Tree) (root : Location) (manifest : Manifest) :
    Except Failure Unit := do
  let listing ← checkFiles manifest.files ⟨[], [], 0⟩
  refuse (listing.seen.length = 0 ∨ listing.seen.length > maxBundleFiles)
    (.errorf "manifest file count is outside supported limits" [])
  checkRequired listing required
  let actual ← checkWalk codec root listing (tree.walk root) []
  checkMissing listing actual
  checkLock codec tree root manifest

/-! ### Opening a bundle -/

def realDirectory (tree : Tree) (p : Location) : Except Failure Unit :=
  match tree.node p with
  | none => .error .notExist
  | some node =>
    refuse (node.isDirectory = false) (.errorf "%s must be a real directory" [pathText p])

def readRegularFile (tree : Tree) (p : Location) (limit : ℕ) : Except Failure (List UInt8) :=
  match tree.node p with
  | none => .error .notExist
  | some (.file _ data) =>
    if data.length > limit then
      .error (.errorf "%s exceeds the %d-byte size limit" [pathText p, Nat.toDigits 10 limit])
    else .ok data
  | some _ => .error (.errorf "%s must be a regular non-symlink file" [pathText p])

def validateBundleRoot (codec : Codec) (tree : Tree) (root : Location) (architecture : Text) :
    Except Failure Bundle := do
  (realDirectory tree root).mapError (.wrapf "inspect bundle root: %w" [])
  let raw ← (readRegularFile tree (join root releaseManifest) maxManifestBytes).mapError
    (.wrapf "read release manifest: %w" [])
  let manifest ← (codec.decodeManifest raw).mapError (.wrapf "decode release manifest: %w" [])
  validateManifestIdentity codec manifest architecture
  validateManifestPayload codec tree root manifest
  let identity := codec.digest raw
  return ⟨root, manifest, raw, identity, manifest.version ++ ['-'] ++ identity.take 16⟩

structure BundleInput where
  root : Option Location
  archive : Option Location
  sha256 : Text
  expectedVersion : Text

def bindExpectedVersion (bundle : Bundle) (expected : Text) : Except Failure Bundle := do
  if expected = [] then return bundle
  refuse (projectVersionRE expected = false) (.errorf "invalid expected version %q" [expected])
  refuse (bundle.manifest.version ≠ expected)
    (.errorf "bundle version %q does not match expected version %q"
      [bundle.manifest.version, expected])
  return bundle

def locateBundleRoot (tree : Tree) (candidate : Location) : Except Failure Location := do
  (realDirectory tree candidate).mapError (.wrapf "inspect bundle root: %w" [])
  if (tree.node (join candidate releaseManifest)).isSome then return candidate
  let nested := join candidate bundleTopDirectory
  if (tree.node (join nested releaseManifest)).isSome then
    realDirectory tree nested
    return nested
  else throw (.errorf "%s does not contain release-manifest.json" [pathText candidate])

/- The archive as it is copied to the workspace. -/
def snapshotVerifiedArchive (codec : Codec) (tree : Tree) (source : Location) (expected : Text) :
    Except Failure (List UInt8) :=
  match tree.node source with
  | some (.file _ data) => do
    refuse (data.length = 0 ∨ data.length > maxBundleArchive)
      (.errorf "bundle archive must be a regular file no larger than %d bytes"
        [Nat.toDigits 10 maxBundleArchive])
    refuse (codec.digest data ≠ expected)
      (.errorf "bundle archive SHA-256 mismatch: got %s, want %s" [codec.digest data, expected])
    return data
  | some _ => .error (.errorf "bundle archive must be a regular file no larger than %d bytes"
      [Nat.toDigits 10 maxBundleArchive])
  | none => .error (.wrapf "open bundle archive: %w" [] .notExist)

def staged (entries : List Entry) (s : World) : World :=
  { s with unread := entries, content := [], read := 0, written := [] }

/- Unpacking in the workspace `temporary`. -/
def unpackArchive (entries : List Entry) (temporary : Location) (w : ℕ → Fault) (s : World) :
    Except Failure Location × World :=
  run operatingSystem (extractBundleArchive temporary).run w (staged entries s)

def openArchive (codec : Codec) (source : Location) (sha256 architecture : Text)
    (temporary : Location) (w : ℕ → Fault) (s : World) : Except Failure Bundle := do
  refuse (hexDigestRE sha256 = false)
    (.errorf "--bundle requires a lowercase 64-character --sha256" [])
  let snapshot ← snapshotVerifiedArchive codec s.tree source sha256
  let entries ← (codec.unpack snapshot).mapError (.wrapf "open bundle gzip stream: %w" [])
  let unpacked := unpackArchive entries temporary w s
  let root ← unpacked.1
  validateBundleRoot codec unpacked.2.tree root architecture

def openBundle (codec : Codec) (input : BundleInput) (architecture : Text) (temporary : Location)
    (w : ℕ → Fault) (s : World) : Except Failure Bundle :=
  match input.root, input.archive with
  | some candidate, none => do
    refuse (input.sha256 ≠ []) (.errorf "--sha256 is valid only with --bundle" [])
    let root ← locateBundleRoot s.tree candidate
    let bundle ← validateBundleRoot codec s.tree root architecture
    bindExpectedVersion bundle input.expectedVersion
  | none, some source => do
    let bundle ← openArchive codec source input.sha256 architecture temporary w s
    bindExpectedVersion bundle input.expectedVersion
  | _, _ => .error (.errorf "exactly one of --bundle-root or --bundle is required" [])

/-! ### The archive kept for a repair -/

/- `path.Join(bundleTopDirectory, p)`. -/
def archiveName (p : Text) : Text := clean (bundleTopDirectory ++ ['/'] ++ p)

def topEntry : Entry := ⟨⟨bundleTopDirectory ++ ['/'], .directory, 0o755, 0⟩, []⟩

def cacheEntry (codec : Codec) (tree : Tree) (root : Location) (file : ManifestFile) :
    Except Failure Entry := do
  let data ← readRegularFile tree (join root file.path) maxBundleFileBytes
  refuse ((data.length : ℤ) ≠ file.size ∨ codec.digest data ≠ file.sha256)
    (.errorf "bundle source file %q changed after validation" [file.path])
  return ⟨⟨archiveName file.path, .regular, parseMode file.mode, data.length⟩, data⟩

def manifestEntry (bundle : Bundle) : ManifestFile :=
  ⟨releaseManifest, "0644".toList, bundle.manifestRaw.length, bundle.identity, [], []⟩

/- What `writeBundleCacheArchive` gives to the tar writer. -/
def cacheEntries (codec : Codec) (tree : Tree) (bundle : Bundle) : Except Failure (List Entry) := do
  let files ← (bundle.manifest.files ++ [manifestEntry bundle]).mapM
    (cacheEntry codec tree bundle.root)
  return topEntry :: files

def writeBundleCacheArchive (codec : Codec) (tree : Tree) (bundle : Bundle) :
    Except Failure (List UInt8) := do
  let entries ← cacheEntries codec tree bundle
  return codec.pack entries

end RemnanodeLite.Rnlctl
