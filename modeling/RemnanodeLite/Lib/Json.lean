import Mathlib.Data.Rat.Defs

/-! # Decoded JSON trees

What `encoding/json` leaves in an `any`: objects are maps, so of two members
with one key only one exists. Lookup takes the first, and the functions that
build objects keep the keys apart. -/

namespace Json

inductive Value where
  | null
  | bool (b : Bool)
  | num (q : ℚ)
  | str (s : String)
  | arr (items : List Value)
  | obj (members : List (String × Value))

namespace Value

/- The comma-ok type assertions `v.(map[string]any)`, `v.([]any)` and so on. -/
def asObject : Value → Option (List (String × Value))
  | obj members => some members
  | _ => none

def asArray : Value → Option (List Value)
  | arr items => some items
  | _ => none

def asString : Value → Option String
  | str s => some s
  | _ => none

def asBool : Value → Option Bool
  | bool b => some b
  | _ => none

def asNumber : Value → Option ℚ
  | num q => some q
  | _ => none

/-- Indexing a decoded map; a missing key yields the nil interface. -/
def field (members : List (String × Value)) (key : String) : Value :=
  (members.lookup key).getD null

/-- `members[key] = value` on a decoded map. -/
def setField : List (String × Value) → String → Value → List (String × Value)
  | [], key, value => [(key, value)]
  | (k, v) :: members, key, value =>
    if k = key then (key, value) :: members else (k, v) :: setField members key value

section
variable (members : List (String × Value)) {key other : String} {value : Value}

theorem lookup_setField_self : (setField members key value).lookup key = some value := by
  induction members with
  | nil => simp [setField]
  | cons member members ih =>
    obtain ⟨k, v⟩ := member
    by_cases hk : k = key
    · simp [setField, hk]
    · have hne : (key == k) = false := beq_false_of_ne (Ne.symm hk)
      simp [setField, hk, List.lookup_cons, hne, ih]

theorem lookup_setField_of_ne (h : other ≠ key) :
    (setField members key value).lookup other = members.lookup other := by
  have hne : (other == key) = false := beq_false_of_ne h
  induction members with
  | nil => simp [setField, List.lookup_cons, hne]
  | cons member members ih =>
    obtain ⟨k, v⟩ := member
    by_cases hk : k = key
    · subst hk
      simp [setField, List.lookup_cons, hne]
    · simp [setField, hk, List.lookup_cons, ih]

@[simp] theorem field_setField_self : field (setField members key value) key = value := by
  simp [field, lookup_setField_self]

theorem field_setField_of_ne (h : other ≠ key) :
    field (setField members key value) other = field members other := by
  simp only [field, lookup_setField_of_ne members h]

@[simp] theorem setField_setField (value' : Value) :
    setField (setField members key value) key value' = setField members key value' := by
  induction members with
  | nil => simp [setField]
  | cons member members ih =>
    obtain ⟨k, v⟩ := member
    by_cases hk : k = key
    · simp [setField, hk]
    · simp [setField, hk, ih]

theorem setField_below {value₂ value₃ : Value} (h : key ≠ other) :
    setField (setField (setField members key value) other value₂) key value₃ =
      setField (setField members key value₃) other value₂ := by
  induction members with
  | nil => simp [setField, h]
  | cons member members ih =>
    obtain ⟨k, v⟩ := member
    by_cases hk : k = key
    · subst hk
      simp [setField, h]
    · by_cases ho : k = other
      · subst ho
        simp [setField, hk]
      · simp [setField, hk, ho, ih]

theorem setField_of_lookup (h : members.lookup key = some value) :
    setField members key value = members := by
  induction members with
  | nil => cases h
  | cons member members ih =>
    obtain ⟨k, v⟩ := member
    by_cases hk : k = key
    · subst hk
      simp only [List.lookup_cons, beq_self_eq_true] at h
      cases h
      simp [setField]
    · have hne : (key == k) = false := beq_false_of_ne (Ne.symm hk)
      simp only [List.lookup_cons, hne] at h
      simp [setField, hk, ih h]

end

end Value

end Json
