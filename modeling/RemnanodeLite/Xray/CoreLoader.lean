import RemnanodeLite.Lib.Filepath
import RemnanodeLite.Lib.Strings
import RemnanodeLite.Xray.Origins

/-! # The cores that the panel selects

`internal/xray/core_loader.go` as a part of Start: the cache directory of
downloaded cores beside the manager, the steps of `prepareCore` inside
`preparePanelRuntime`, the binary of every process and the sweep of the cache
once a core is ready. -/

namespace RemnanodeLite.Xray.Cores
open Filepath Json

/- What the manager is given: the bundled core and the cache directory as cleaned
absolute paths, SHA-256 in hexadecimal and the test of an address. -/
structure Settings where
  xrayBin : Location
  coreDir : Location
  sha256 : List UInt8 → Text
  validHTTPSURL : String → Bool

/-! ### The request -/

-- coreSHA256Pattern
def isSHA256 (digest : Text) : Bool :=
  digest.length = 64 && digest.all fun c =>
    c.isDigit || ('A' ≤ c && c ≤ 'F') || ('a' ≤ c && c ≤ 'f')

structure CustomCore where
  url : String
  sha256 : Text
  hex : isSHA256 sha256 = true

theorem isSHA256_toLower {digest : Text} (h : isSHA256 digest = true) :
    isSHA256 (digest.map Char.toLower) = true := by
  have hsmall : ∀ n < 128, ((Char.ofNat n).isDigit || ('A' ≤ Char.ofNat n && Char.ofNat n ≤ 'F') ||
      ('a' ≤ Char.ofNat n && Char.ofNat n ≤ 'f')) = true →
      ((Char.ofNat n).toLower.isDigit || ('A' ≤ (Char.ofNat n).toLower &&
        (Char.ofNat n).toLower ≤ 'F') || ('a' ≤ (Char.ofNat n).toLower &&
        (Char.ofNat n).toLower ≤ 'f')) = true := by decide
  simp only [isSHA256, Bool.and_eq_true, List.all_eq_true, List.length_map] at h ⊢
  refine ⟨h.1, ?_⟩
  intro c hc
  obtain ⟨d, hd, rfl⟩ := List.mem_map.mp hc
  have hd' := h.2 d hd
  have hlt : d.toNat < 128 := by
    simp only [Bool.or_eq_true, Bool.and_eq_true, decide_eq_true_eq, Char.isDigit] at hd'
    rcases hd' with (⟨-, h⟩ | ⟨-, h⟩) | ⟨-, h⟩
    · exact lt_of_le_of_lt (UInt32.le_iff_toNat_le.mp h) (by decide)
    · exact lt_of_le_of_lt (Char.le_def.mp h) (by decide)
    · exact lt_of_le_of_lt (Char.le_def.mp h) (by decide)
  have hofNat : Char.ofNat d.toNat = d := Char.ofNat_toNat d
  rw [← hofNat] at hd' ⊢
  exact hsmall d.toNat hlt hd'

/- `coreSelectionMode` with the core of the one mode that has one. -/
inductive Selection where
  | useBundled
  | keepCurrent (err : String)
  | useCustom (core : CustomCore)

def sha256Error : String := "core.sha256 must contain 64 hexadecimal characters"

/- `geodata` is none when the config has no such key. -/
def parseCustomCore (m : Settings) (geodata : Option Value) : Selection :=
  match geodata with
  | none | some .null => .useBundled
  | some (.obj object) => match object.lookup "core" with
    | none => .useBundled
    | some (.obj coreObject) =>
      match ((Value.field coreObject "url").asString.map Strings.trim).filter m.validHTTPSURL with
      | none => .keepCurrent "core.url must use HTTPS"
      | some address =>
        match (Value.field coreObject "sha256").asString with
        | none => .keepCurrent sha256Error
        | some digest =>
          if hex : isSHA256 digest.toList = true then
            .useCustom ⟨address, digest.toList.map Char.toLower, isSHA256_toLower hex⟩
          else .keepCurrent sha256Error
    | some _ => .keepCurrent "core must be an object"
  | some _ => .keepCurrent "geodata must be an object"

/-! ### The cache directory -/

inductive Entry where
  | file (content : List UInt8)
  | directory
  | other
  deriving DecidableEq

abbrev Cache := Text → Option Entry

def panelDownloadMaxSize : ℕ := 128 * 2 ^ 20

/- `readable` says whether the file can be read to its end in time. -/
def hashRegularFile (m : Settings) (entry : Option Entry) (readable : Bool) : Option Text :=
  match entry with
  | some (.file content) =>
    if content.length = 0 ∨ panelDownloadMaxSize < content.length then none
    else if readable then some (m.sha256 content) else none
  | _ => none

/- What the environment decides in a step of `preparePanelRuntime`. -/
structure PanelChoice where
  mkdir : Bool
  readable : Bool
  chmod : Bool
  /-- The version probe succeeds. -/
  probe : Bool
  /-- What a download brings, none if it fails. -/
  content : Option (List UInt8)
  removed : Bool
  /-- `prepareGeoData` succeeds. -/
  assets : Bool
  err : String

def validateCoreCandidate (m : Settings) (entry : Option Entry) (expectedHash : Text)
    (ch : PanelChoice) : Bool :=
  hashRegularFile m entry ch.readable = some expectedHash && ch.chmod && ch.probe

def cached (m : Settings) : Location → Option Text
  | base :: dir => if dir = m.coreDir then some base else none
  | [] => none

/- `stuck` are the files that cannot be removed. -/
def cleanupCoreCache (m : Settings) (cores : Cache) (selectedBinary : Location)
    (stuck : List Text) : Cache := fun name =>
  (cores name).filter fun entry =>
    cached m selectedBinary = some name || entry = .directory || name ∈ stuck

/-! ### The manager with the cache -/

/- Progress through `preparePanelRuntime`. -/
inductive PreparePC where
  | prepareCore
  | validateCached (core : CustomCore)
  | ctxAfterCached (core : CustomCore)
  | download (core : CustomCore)
  | ctxAfterDownload
  | validateDownloaded (core : CustomCore)
  | ctxAfterDownloaded (core : CustomCore)
  | remove (core : CustomCore)
  | prepareGeoData (binary : Location)

/- `binary` is the field of every process; `geodata`, `prep` and `selected` belong to
the calls of Start; `probed` is history: the names of the cache whose version
probe has succeeded. -/
structure Host where
  xray : World
  cores : Cache
  binary : Pid → Location
  geodata : Tid → Option Value
  prep : Tid → PreparePC
  selected : Tid → Location
  probed : List Text

def Host.initial (disableHashCheck : Bool) (cores : Cache) : Host where
  xray := .initial disableHashCheck
  cores := cores
  binary _ := []
  geodata _ := none
  prep _ := .prepareCore
  selected _ := []
  probed := []

def CustomCore.destination (m : Settings) (core : CustomCore) : Location :=
  join m.coreDir core.sha256

theorem CustomCore.destination_eq (m : Settings) (core : CustomCore) :
    core.destination m = core.sha256 :: m.coreDir := by
  have hhex := core.hex
  simp only [isSHA256, Bool.and_eq_true, decide_eq_true_eq, List.all_eq_true] at hhex
  have hslash : '/' ∉ core.sha256 := fun h => absurd (hhex.2 _ h) (by decide)
  have hsplit : split core.sha256 = [core.sha256] := by
    have h : split (unsplit [core.sha256]) = [core.sha256] :=
      split_unsplit (by simpa using hslash) (by simp)
    simpa [unsplit] using h
  have hplain : Plain core.sha256 := by
    refine ⟨?_, ?_, ?_⟩ <;> intro h <;> rw [h] at hhex <;> exact absurd hhex.1 (by decide)
  rw [CustomCore.destination, join_plain _ (by simpa [hsplit] using hplain), hsplit]
  rfl

def Host.fallbackBinary (m : Settings) (h : Host) (s : StartCall) : Location :=
  match s.previousProcess with
  | some p => if h.binary p ≠ [] then h.binary p else m.xrayBin
  | none => m.xrayBin

def Host.goto (h : Host) (t : Tid) (pc : PreparePC) : Host :=
  { h with prep := Function.update h.prep t pc }

/- What the step of Start is told that `preparePanelRuntime` has come to. -/
def outcome (ok : Bool) (err : String) : Pick :=
  ⟨ok, false, 0, false, err, none, ⟨"", .cleared⟩⟩

/- `preparePanelRuntime` returns an error. -/
def Host.failPanel (h : Host) (t : Tid) (err : String) : Option Host :=
  (Xray.step h.xray (.thread t (outcome false err))).map fun w =>
    { h.goto t .prepareCore with xray := w }

def Host.finishPanel (h : Host) (t : Tid) (binary : Location) : Option Host :=
  (Xray.step h.xray (.thread t (outcome true ""))).map fun w =>
    { h.goto t .prepareCore with xray := w, selected := Function.update h.selected t binary }

def Host.checkCtx (h : Host) (t : Tid) (s : StartCall) (next : PreparePC) : Option Host :=
  match s.ctxErr with
  | some err => h.failPanel t err.text
  | none => some (h.goto t next)

/- `validateCoreCandidate` on the file of `core`; a success is the end of `prepareCore`. -/
def Host.validate (m : Settings) (h : Host) (t : Tid) (core : CustomCore) (ch : PanelChoice)
    (failed : PreparePC) : Host :=
  if validateCoreCandidate m (h.cores core.sha256) core.sha256 ch then
    { h.goto t (.prepareGeoData (core.destination m)) with probed := core.sha256 :: h.probed }
  else h.goto t failed

/- A step of `preparePanelRuntime`. -/
def panelStep (m : Settings) (h : Host) (t : Tid) (s : StartCall) (ch : PanelChoice) :
    Option Host :=
  let useFallback := PreparePC.prepareGeoData (h.fallbackBinary m s)
  match h.prep t with
  | .prepareCore => some (h.goto t (match parseCustomCore m (h.geodata t) with
    | .useBundled => .prepareGeoData m.xrayBin
    | .keepCurrent _ => useFallback
    | .useCustom core => if ch.mkdir then .validateCached core else useFallback))
  | .validateCached core => some (h.validate m t core ch (.ctxAfterCached core))
  | .ctxAfterCached core => h.checkCtx t s (.download core)
  | .download core =>
    -- a download with another digest fails and touches nothing
    match ch.content.filter fun content => m.sha256 content = core.sha256 with
    | some content => some { h.goto t (.validateDownloaded core) with
        cores := Function.update h.cores core.sha256 (some (.file content)) }
    | none => some (h.goto t .ctxAfterDownload)
  | .ctxAfterDownload => h.checkCtx t s useFallback
  | .validateDownloaded core => some (h.validate m t core ch (.ctxAfterDownloaded core))
  | .ctxAfterDownloaded core => h.checkCtx t s (.remove core)
  | .remove core => some { h.goto t useFallback with
      cores := if ch.removed then Function.update h.cores core.sha256 none else h.cores }
  | .prepareGeoData binary =>
    if ch.assets then h.finishPanel t binary else h.failPanel t ch.err

def Host.executable (m : Settings) (h : Host) (binary : Location) : Bool :=
  binary = m.xrayBin || (cached m binary).any fun name => (h.cores name).isSome

inductive Event where
  | callStart (t : Tid) (req : StartRequest) (geodata : Option Value)
  | panel (t : Tid) (ch : PanelChoice)
  | xray (e : Xray.Event) (stuck : List Text)

/- A step of Start outside `preparePanelRuntime`. -/
def startStep (m : Settings) (h : Host) (t : Tid) (s : StartCall) (ch : Pick)
    (stuck : List Text) : Option Host :=
  let moved := (Xray.step h.xray (.thread t ch)).map fun w => { h with xray := w }
  match s.pc with
  | .panelRuntime => none
  | .startProcess =>
    if ch.ok then
      if h.executable m (h.selected t) then moved.map fun h' =>
        { h' with binary := Function.update h.binary h.xray.spawned (h.selected t) }
      else none
    else moved
  | .ctxAfterVersion p =>
    -- the cache is swept before the Start is committed
    if s.ctxErr = none then moved.map fun h' =>
      { h' with cores := cleanupCoreCache m h.cores (h.binary p) stuck }
    else moved
  | _ => moved

def step (m : Settings) (h : Host) : Event → Option Host
  | .callStart t req geodata => (Xray.step h.xray (.callStart t req)).map fun w =>
      { h.goto t .prepareCore with xray := w, geodata := Function.update h.geodata t geodata }
  | .panel t ch => match h.xray.threads t with
    | .start s => if s.pc = .panelRuntime then panelStep m h t s ch else none
    | _ => none
  | .xray (.callStart _ _) _ => none
  | .xray (.thread t ch) stuck => match h.xray.threads t with
    | .start s => startStep m h t s ch stuck
    | _ => (Xray.step h.xray (.thread t ch)).map fun w => { h with xray := w }
  | .xray e _ => (Xray.step h.xray e).map fun w => { h with xray := w }

/- The bundled core, or a file of the cache that has the digest in its name and has
passed a version probe. -/
def Usable (m : Settings) (h : Host) (binary : Location) : Prop :=
  binary = m.xrayBin ∨ ∃ name content, binary = name :: m.coreDir ∧
    h.cores name = some (.file content) ∧ m.sha256 content = name ∧ name ∈ h.probed

end RemnanodeLite.Xray.Cores
