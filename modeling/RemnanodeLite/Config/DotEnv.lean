import RemnanodeLite.Lib.Runes
import RemnanodeLite.Lib.Fallible

/-! # The environment file of the daemon

`parseDotEnvData` of `internal/config/config.go`, and how a line of such a file
reads. -/

namespace RemnanodeLite.Config
open Rune Runes

inductive EnvError where
  | errorf (format : String) (args : List Runes)
  | tooLong
  deriving DecidableEq

def number (n : ℕ) : Runes := (Nat.toDigits 10 n).map char

abbrev Values := Runes → Option Runes

def maxDotEnvBytes : ℕ := 2 ^ 20
def maxDotEnvLines : ℕ := 4096
def maxDotEnvAssignments : ℕ := 256

/- `strings.ReplaceAll(value, "\\n", "\n")`. -/
def replaceNewlines : Runes → Runes
  | .char '\\' :: .char 'n' :: rest => newline :: replaceNewlines rest
  | c :: rest => c :: replaceNewlines rest
  | [] => []

def quoted (quote : Char) (value : Runes) : Prop :=
  value.head? = some (.char quote) ∧ value.getLast? = some (.char quote)

instance (quote : Char) (value : Runes) : Decidable (quoted quote value) :=
  inferInstanceAs (Decidable (_ ∧ _))

def unquote (value : Runes) : Runes :=
  if size value < 2 then value
  else replaceNewlines
    (if quoted '"' value ∨ quoted '\'' value then value.tail.dropLast else value)

structure DotEnv where
  lineNo : ℕ
  assignments : ℕ
  values : Values

def dotEnvLine (path : Runes) (env : DotEnv) (text : Runes) : Except EnvError DotEnv :=
  let lineNo := env.lineNo + 1
  if lineNo > maxDotEnvLines then
    .error (.errorf "%s contains more than %d lines" [path, number maxDotEnvLines])
  else
    let line := trimSpace text
    if line = [] ∨ ofString "#" <+: line then .ok { env with lineNo := lineNo }
    else match cut (.char '=') (trimStart (ofString "export ") line) with
      | none => .error (.errorf "%s:%d invalid .env line" [path, number lineNo])
      | some (left, right) =>
        let key := trimSpace left
        let value := trimSpace right
        if key = [] then .error (.errorf "%s:%d empty .env key" [path, number lineNo])
        else if env.assignments + 1 > maxDotEnvAssignments then
          .error (.errorf "%s contains more than %d assignments" [path, number maxDotEnvAssignments])
        else .ok ⟨lineNo, env.assignments + 1, Function.update env.values key (some (unquote value))⟩

def parseDotEnvData (path raw : Runes) : Except EnvError Values :=
  if size raw > maxDotEnvBytes then
    .error (.errorf "%s exceeds %d bytes" [path, number maxDotEnvBytes])
  else (scan maxDotEnvBytes .tooLong (dotEnvLine path) (lines raw) ⟨0, 0, fun _ => none⟩).map DotEnv.values

/-! ### How a line reads -/

inductive Reading where
  | skipped
  | assigned (key value : Runes)
  | malformed
  deriving DecidableEq

def reading (line : Runes) : Reading :=
  if trimSpace line = [] ∨ ofString "#" <+: trimSpace line then .skipped
  else match cut (.char '=') (trimStart (ofString "export ") (trimSpace line)) with
    | none => .malformed
    | some (left, right) =>
      if trimSpace left = [] then .malformed else .assigned (trimSpace left) (trimSpace right)

def Reading.entry : Reading → Option (Runes × Runes)
  | .assigned key value => some (key, value)
  | _ => none

def entries (ls : List Runes) : List (Runes × Runes) := ls.filterMap fun line => (reading line).entry

/- Every line is blank, a comment or an assignment. -/
def WellRead (ls : List Runes) : Prop := ∀ line ∈ ls, reading line ≠ .malformed

def Holds (unquote : Runes → Runes) (values : Values) (es : List (Runes × Runes)) : Prop :=
  ∀ key value, values key = some value ↔ ∃ raw, (key, raw) ∈ es ∧ unquote raw = value

section
variable {line key raw : Runes} {ls : List Runes} {values : Values} {es : List (Runes × Runes)}
  {decode : Runes → Runes}

theorem skip_of_reading (h : reading line = .skipped) :
    trimSpace line = [] ∨ ofString "#" <+: trimSpace line := by
  by_contra hnot
  simp only [reading, if_neg hnot] at h
  split at h
  · cases h
  · split_ifs at h

theorem cut_of_reading (h : reading line = .assigned key raw) :
    ¬ (trimSpace line = [] ∨ ofString "#" <+: trimSpace line) ∧ ∃ left right,
      cut (.char '=') (trimStart (ofString "export ") (trimSpace line)) = some (left, right) ∧
        trimSpace left ≠ [] ∧ trimSpace left = key ∧ trimSpace right = raw := by
  unfold reading at h
  split_ifs at h with hskip
  split at h
  · cases h
  next left right hcut =>
    split_ifs at h with hkey
    cases h
    exact ⟨hskip, left, right, hcut, hkey, rfl, rfl⟩

@[simp] theorem reading_dropCR (line : Runes) : reading (dropCR line) = reading line := by
  simp [reading]

theorem holds_nil : Holds decode (fun _ => none) [] := by
  intro key value
  simp

theorem Holds.eq_none (h : Holds decode values es) (hkey : key ∉ es.map Prod.fst) :
    values key = none := by
  cases hvalue : values key with
  | none => rfl
  | some value =>
    obtain ⟨raw, hmem, -⟩ := (h key value).mp hvalue
    exact absurd (List.mem_map_of_mem hmem) hkey

theorem Holds.update (h : Holds decode values es) (hkey : key ∉ es.map Prod.fst) :
    Holds decode (Function.update values key (some (decode raw))) (es ++ [(key, raw)]) := by
  intro other value
  by_cases heq : other = key
  · subst heq
    rw [Function.update_self, Option.some.injEq]
    constructor
    · intro hvalue
      exact ⟨raw, List.mem_append_right _ (List.mem_singleton.mpr rfl), hvalue⟩
    · rintro ⟨raw', hmem, hvalue⟩
      rcases List.mem_append.mp hmem with hold | hnew
      · exact absurd (List.mem_map_of_mem hold) hkey
      · cases List.mem_singleton.mp hnew
        exact hvalue
  · rw [Function.update_of_ne heq, h other value]
    simp [heq]

theorem entries_cons (line : Runes) (ls : List Runes) :
    entries (line :: ls) = (reading line).entry.toList ++ entries ls := by
  cases hreading : (reading line).entry with
  | none => simp [entries, hreading]
  | some entry => simp [entries, hreading]

theorem entries_append (ls ms : List Runes) : entries (ls ++ ms) = entries ls ++ entries ms := by
  simp [entries]

end

section
variable {path line : Runes} {env : DotEnv}

theorem dotEnvLine_skipped (hreading : reading line = .skipped) (hlines : env.lineNo < maxDotEnvLines) :
    dotEnvLine path env line = .ok { env with lineNo := env.lineNo + 1 } := by
  simp only [dotEnvLine]
  rw [if_neg (by omega), if_pos (skip_of_reading hreading)]

theorem dotEnvLine_assigned {key value : Runes} (hreading : reading line = .assigned key value)
    (hlines : env.lineNo < maxDotEnvLines) (hroom : env.assignments < maxDotEnvAssignments) :
    dotEnvLine path env line =
      .ok ⟨env.lineNo + 1, env.assignments + 1, Function.update env.values key (some (unquote value))⟩ := by
  obtain ⟨hskip, left, right, hcut, hkey, rfl, rfl⟩ := cut_of_reading hreading
  simp only [dotEnvLine]
  rw [if_neg (by omega), if_neg hskip, hcut]
  dsimp only
  rw [if_neg hkey, if_neg (by omega)]

theorem dotEnvLine_limits {next : DotEnv} (hroom : env.assignments ≤ maxDotEnvAssignments)
    (h : dotEnvLine path env line = .ok next) :
    next.lineNo = env.lineNo + 1 ∧ next.lineNo ≤ maxDotEnvLines ∧
      next.assignments = env.assignments + (reading line).entry.toList.length ∧
      next.assignments ≤ maxDotEnvAssignments := by
  simp only [dotEnvLine] at h
  split at h
  case isTrue => cases h
  case isFalse hlines =>
    have hlines := Nat.not_lt.mp hlines
    unfold reading
    split at h
    case isTrue hskip =>
      cases h
      rw [if_pos hskip]
      exact ⟨rfl, hlines, rfl, hroom⟩
    case isFalse hskip =>
      rw [if_neg hskip]
      split at h
      · cases h
      · split_ifs at h with hkey hfull
        cases h
        dsimp only
        rw [if_neg hkey]
        exact ⟨rfl, hlines, rfl, Nat.not_lt.mp hfull⟩

theorem dotEnv_fold_limits {ls : List Runes} {next : DotEnv} (hlines : env.lineNo ≤ maxDotEnvLines)
    (hroom : env.assignments ≤ maxDotEnvAssignments)
    (h : ls.foldlM (dotEnvLine path) env = .ok next) :
    env.lineNo + ls.length ≤ maxDotEnvLines ∧
      env.assignments + (entries ls).length ≤ maxDotEnvAssignments := by
  induction ls generalizing env with
  | nil => exact ⟨hlines, hroom⟩
  | cons line ls ih =>
    rw [List.foldlM_cons] at h
    obtain ⟨mid, hline, hrest⟩ := Fallible.bind_ok_iff.mp h
    obtain ⟨hnumber, hlines', hcount, hroom'⟩ := dotEnvLine_limits hroom hline
    have hih := ih hlines' hroom' hrest
    rw [entries_cons, List.length_append, List.length_cons]
    omega

theorem dotEnv_fold {ls : List Runes} {es : List (Runes × Runes)} (hread : WellRead ls)
    (hkeys : ((es ++ entries ls).map Prod.fst).Nodup) (hholds : Holds unquote env.values es)
    (hlines : env.lineNo + ls.length ≤ maxDotEnvLines)
    (hroom : env.assignments + (entries ls).length ≤ maxDotEnvAssignments) :
    ∃ env', ls.foldlM (dotEnvLine path) env = .ok env' ∧ Holds unquote env'.values (es ++ entries ls) := by
  induction ls generalizing env es with
  | nil => exact ⟨env, rfl, by simpa [entries] using hholds⟩
  | cons line ls ih =>
    have hrest : WellRead ls := fun other hother => hread other (List.mem_cons_of_mem _ hother)
    rw [List.length_cons] at hlines
    rw [entries_cons] at hkeys hroom ⊢
    cases hreading : reading line with
    | malformed => exact absurd hreading (hread line List.mem_cons_self)
    | skipped =>
      rw [List.foldlM_cons, dotEnvLine_skipped hreading (by omega)]
      simp only [hreading, Reading.entry, Option.toList_none, List.nil_append] at hkeys hroom ⊢
      exact ih hrest hkeys hholds (by dsimp only; omega) hroom
    | assigned key value =>
      simp only [hreading, Reading.entry, Option.toList_some, List.singleton_append,
        List.length_cons] at hkeys hroom ⊢
      have hfresh : key ∉ es.map Prod.fst := by
        rw [List.map_append, List.map_cons] at hkeys
        exact fun hmem => (List.nodup_append.mp hkeys).2.2 key hmem key List.mem_cons_self rfl
      rw [List.foldlM_cons, dotEnvLine_assigned hreading (by omega) (by omega)]
      rw [List.append_cons] at hkeys ⊢
      exact ih hrest hkeys (hholds.update hfresh) (by dsimp only; omega) (by dsimp only; omega)

end

end RemnanodeLite.Config
