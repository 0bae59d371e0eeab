import Mathlib.Data.Int.Notation
import Mathlib.Tactic.Common

/-! # Counting the members of a population

How many members of a list have a property, as an integer, and how the number
changes when one member is replaced or a new one joins. -/

namespace Tally
variable {α : Type*} {p : α → Bool} {l : List α} {i : ℕ} {a b : α}

def tally (p : α → Bool) (l : List α) : ℤ := (l.countP p : ℤ)

def one (p : α → Bool) (a : α) : ℤ := if p a then 1 else 0

theorem tally_nonneg : 0 ≤ tally p l := Int.natCast_nonneg _

@[simp] theorem tally_nil : tally p ([] : List α) = 0 := rfl

@[simp] theorem tally_append_one : tally p (l ++ [a]) = tally p l + one p a := by
  by_cases h : p a = true
  · simp [tally, one, h]
  · simp [tally, one, h]

theorem one_le_tally (h : a ∈ l) (hp : p a = true) : 1 ≤ tally p l := by
  have hpos : 0 < l.countP p := List.countP_pos_iff.mpr ⟨a, h, hp⟩
  unfold tally
  omega

theorem tally_set (h : l[i]? = some a) :
    tally p (l.set i b) = tally p l - one p a + one p b := by
  obtain ⟨hi, hget⟩ := List.getElem?_eq_some_iff.mp h
  have hmem : a ∈ l := List.mem_of_getElem? h
  have hset : (l.set i b).countP p =
      (l.countP p - if p a = true then 1 else 0) + if p b = true then 1 else 0 := by
    rw [List.countP_set hi, hget]
  by_cases ha : p a = true
  · have hpos : 0 < l.countP p := List.countP_pos_iff.mpr ⟨a, hmem, ha⟩
    by_cases hb : p b = true
    · simp only [tally, one, hset, ha, hb, if_true]
      omega
    · simp only [tally, one, hset, ha, hb, if_true, Bool.false_eq_true, if_false]
      omega
  · by_cases hb : p b = true
    · simp only [tally, one, hset, ha, hb, if_true, Bool.false_eq_true, if_false]
      omega
    · simp only [tally, one, hset, ha, hb, Bool.false_eq_true, if_false]
      omega

end Tally
