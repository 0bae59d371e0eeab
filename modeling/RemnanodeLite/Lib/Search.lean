import Mathlib.Tactic.Common

/-! # Binary search over a probed range -/

namespace Search
variable {α : Type*}

/- What looking at one position says about the one that is sought. -/
inductive Probe (α : Type*) where
  | failed
  | less
  | greater
  | found (a : α)

def search (probe : ℕ → Probe α) (lo hi : ℕ) : Option α :=
  if lo < hi then
    match probe (lo + (hi - lo) / 2) with
    | .failed => none
    | .less => search probe (lo + (hi - lo) / 2 + 1) hi
    | .greater => search probe lo (lo + (hi - lo) / 2)
    | .found a => some a
  else none
termination_by hi - lo

variable {probe : ℕ → Probe α} {lo hi k : ℕ} {a : α}

/- The position is found when everything below it is less and everything above
it is greater. -/
theorem search_found (hk : probe k = .found a) (hlo : lo ≤ k) (hhi : k < hi)
    (hbelow : ∀ i, i < k → probe i = .less)
    (habove : ∀ i, k < i → i < hi → probe i = .greater) : search probe lo hi = some a := by
  induction lo, hi using search.induct probe with
  | case1 lo hi hlt hprobe =>
    have hmid : lo + (hi - lo) / 2 < hi := by omega
    rcases Nat.lt_trichotomy (lo + (hi - lo) / 2) k with h | h | h
    · rw [hbelow _ h] at hprobe
      cases hprobe
    · rw [h, hk] at hprobe
      cases hprobe
    · rw [habove _ h hmid] at hprobe
      cases hprobe
  | case2 lo hi hlt hprobe ih =>
    have hmid : lo + (hi - lo) / 2 < hi := by omega
    have hle : lo + (hi - lo) / 2 + 1 ≤ k := by
      rcases Nat.lt_trichotomy (lo + (hi - lo) / 2) k with h | h | h
      · omega
      · rw [h, hk] at hprobe
        cases hprobe
      · rw [habove _ h hmid] at hprobe
        cases hprobe
    rw [search, if_pos hlt, hprobe]
    exact ih hle hhi habove
  | case3 lo hi hlt hprobe ih =>
    have hmid : lo + (hi - lo) / 2 < hi := by omega
    have hlt' : k < lo + (hi - lo) / 2 := by
      rcases Nat.lt_trichotomy (lo + (hi - lo) / 2) k with h | h | h
      · rw [hbelow _ h] at hprobe
        cases hprobe
      · rw [h, hk] at hprobe
        cases hprobe
      · exact h
    rw [search, if_pos hlt, hprobe]
    exact ih hlo hlt' fun i hi' hilt => habove i hi' (by omega)
  | case4 lo hi hlt b hprobe =>
    have hmid : lo + (hi - lo) / 2 < hi := by omega
    have heq : lo + (hi - lo) / 2 = k := by
      rcases Nat.lt_trichotomy (lo + (hi - lo) / 2) k with h | h | h
      · rw [hbelow _ h] at hprobe
        cases hprobe
      · exact h
      · rw [habove _ h hmid] at hprobe
        cases hprobe
    rw [search, if_pos hlt, hprobe]
    rw [heq, hk] at hprobe
    cases hprobe
    rfl
  | case5 lo hi hge => omega

theorem search_absent (h : ∀ i, i < hi → ∀ a, probe i ≠ .found a) : search probe lo hi = none := by
  induction lo, hi using search.induct probe with
  | case1 lo hi hlt hprobe => rw [search, if_pos hlt, hprobe]
  | case2 lo hi hlt hprobe ih =>
    rw [search, if_pos hlt, hprobe]
    exact ih h
  | case3 lo hi hlt hprobe ih =>
    rw [search, if_pos hlt, hprobe]
    exact ih fun i hi' => h i (by omega)
  | case4 lo hi hlt b hprobe => exact absurd hprobe (h _ (by omega) b)
  | case5 lo hi hge => rw [search, if_neg hge]

end Search
