import Mathlib.Data.List.AList
import RemnanodeLite.Lib.Fallible
import RemnanodeLite.Config.DotEnv

/-! # Changes of the configuration file

`rnlctl` rewrites `node.env` line by line (`configuration.go`,
`native_config.go`), with its own idea of what a line assigns; the installer and
the daemon read the result with parsers of their own. -/

namespace RemnanodeLite.Rnlctl.Environment
open Rune Runes Config Fallible

def maxEnvironmentBytes : ℕ := 2 ^ 20

/-! ### The parser of the installer -/

def unquoteEnvironment (value : Runes) : Runes :=
  if 2 ≤ size value ∧ (quoted '"' value ∨ quoted '\'' value) then value.tail.dropLast else value

structure Parsed where
  lineNumber : ℕ
  values : Values

def parseLine (parsed : Parsed) (text : Runes) : Except EnvError Parsed :=
  let lineNumber := parsed.lineNumber + 1
  let line := trimSpace text
  if line = [] ∨ ofString "#" <+: line then .ok { parsed with lineNumber := lineNumber }
  else match cut (.char '=') (trimStart (ofString "export ") line) with
    | none => .error (.errorf "node.env:%d is not an assignment" [number lineNumber])
    | some (left, right) =>
      let key := trimSpace left
      if key = [] then .error (.errorf "node.env:%d has an empty key" [number lineNumber])
      else if (parsed.values key).isSome then .error (.errorf "node.env repeats key %s" [key])
      else .ok ⟨lineNumber, Function.update parsed.values key (some (unquoteEnvironment (trimSpace right)))⟩

def parseEnvironmentAssignments (data : Runes) : Except EnvError Values :=
  (scan maxEnvironmentBytes .tooLong parseLine (lines data) ⟨0, fun _ => none⟩).map Parsed.values

/-! ### Requests -/

structure ConfigurationUpdateRequest where
  set : AList fun _ : Runes => Runes
  unset : List Runes

def editableConfigurationKeys : List Runes :=
  ["NODE_PORT", "NODE_BIND_ADDR", "LOW_MEMORY", "BODY_LIMIT_MB", "GOMEMLIMIT",
    "DISABLE_HASHED_SET_CHECK", "SNI_VERIFICATION", "NFTABLES_LOGGING",
    "NFTABLES_ACCEPT_REPLY_TRAFFIC"].map ofString

def validateEditableConfigurationKey (key : Runes) : Except EnvError Unit :=
  refuse (key ∉ editableConfigurationKeys)
    (.errorf "configuration key %q is not administrator-editable" [key])

def validateConfigurationValue (key value : Runes) : Except EnvError Unit :=
  refuse (value.all isChar = false ∨ ofString "\\n" <:+: value ∨
    (value.any fun r => isSpace r || isControl r) = true)
    (.errorf "%s contains unsupported whitespace or control data" [key])

def checkSet : List (Sigma fun _ : Runes => Runes) → List Runes → Except EnvError (List Runes)
  | [], seen => .ok seen
  | ⟨key, value⟩ :: rest, seen => do
    validateEditableConfigurationKey key
    refuse (key ∈ seen) (.errorf "configuration key %s is repeated" [key])
    validateConfigurationValue key value
    checkSet rest (key :: seen)

def checkUnset : List Runes → List Runes → Except EnvError Unit
  | [], _ => .ok ()
  | key :: rest, seen => do
    validateEditableConfigurationKey key
    refuse (key ∈ seen) (.errorf "configuration key %s is repeated" [key])
    checkUnset rest (key :: seen)

def validateConfigurationUpdate (request : ConfigurationUpdateRequest) : Except EnvError Unit := do
  refuse (request.set.entries = [] ∧ request.unset = [])
    (.errorf "at least one configuration assignment or key is required" [])
  let seen ← checkSet request.set.entries []
  checkUnset request.unset seen

/-! ### Rewriting -/

structure Rewriting where
  output : Runes
  seen : List Runes

def Rewriting.write (r : Rewriting) (line : Runes) : Rewriting :=
  { r with output := r.output ++ line ++ [newline] }

section
variable (set : AList fun _ : Runes => Runes) (unset : List Runes)

def assignment (key value : Runes) : Runes := key ++ ofString "=" ++ value

def rewriteLine (r : Rewriting) (line : Runes) : Rewriting :=
  let trimmed := trimSpace line
  if trimmed ≠ [] ∧ ¬ ofString "#" <+: trimmed then
    let text := trimStart (ofString "export ") trimmed
    match text.idxOf? (.char '=') with
    | none => r.write line
    | some index =>
      if index > 0 then
        let key := trimSpace (text.take index)
        if key ∈ unset then r
        else match set.lookup key with
          | some value => { r.write (assignment key value) with seen := key :: r.seen }
          | none => r.write line
      else r.write line
  else r.write line

/- The keys that the file did not have. -/
def appendKeys : List Runes → Rewriting → Rewriting
  | [], r => r
  | key :: rest, r => match set.lookup key with
    | none => appendKeys rest r
    | some value => appendKeys rest (if key ∈ r.seen then r else r.write (assignment key value))

def rewriteEditableConfiguration (input : Runes) : Except EnvError Runes := do
  let _ ← parseEnvironmentAssignments input
  let r ← scan maxEnvironmentBytes .tooLong (fun r line => .ok (rewriteLine set unset r line))
    (lines input) ⟨[], []⟩
  return (appendKeys set editableConfigurationKeys r).output

end

end RemnanodeLite.Rnlctl.Environment
