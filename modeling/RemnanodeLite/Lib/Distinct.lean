import Mathlib.Data.List.Sort

/-! # Sorting and dropping repeats

A list sorted by a key, and the pass that keeps an element only when it differs
from the last one kept. -/

namespace Distinct
variable {α β : Type*} [LinearOrder β] {key : α → β}

/- Any sort by `key` gives this list up to the order of equal keys. -/
def sortBy (key : α → β) (l : List α) : List α := l.insertionSort fun a b => key a ≤ key b

variable {a : α} {l : List α}

theorem mem_sortBy : a ∈ sortBy key l ↔ a ∈ l := List.mem_insertionSort _

theorem length_sortBy : (sortBy key l).length = l.length :=
  List.length_insertionSort _ l

theorem pairwise_sortBy (l : List α) : (sortBy key l).Pairwise fun a b => key a ≤ key b := by
  have htotal : Std.Total fun a b : α => key a ≤ key b := ⟨fun a b => le_total (key a) (key b)⟩
  have htrans : IsTrans α fun a b => key a ≤ key b := ⟨fun _ _ _ => le_trans⟩
  exact List.pairwise_insertionSort _ l

theorem eq_of_key_eq {b : α} (hl : l.Pairwise fun a b => key a < key b) (ha : a ∈ l) (hb : b ∈ l)
    (heq : key a = key b) : a = b := by
  induction l with
  | nil => cases ha
  | cons c l ih =>
    obtain ⟨hc, hl⟩ := List.pairwise_cons.mp hl
    rcases List.mem_cons.mp ha with hac | hal
    · rcases List.mem_cons.mp hb with hbc | hbl
      · rw [hac, hbc]
      · rw [hac] at heq
        exact absurd heq (hc b hbl).ne
    · rcases List.mem_cons.mp hb with hbc | hbl
      · rw [hbc] at heq
        exact absurd heq.symm (hc a hal).ne
      · exact ih hl hal hbl

variable [DecidableEq α]

def dropRepeatsAfter (last : α) : List α → List α
  | [] => []
  | a :: l => if a = last then dropRepeatsAfter last l else a :: dropRepeatsAfter a l

def dropRepeats : List α → List α
  | [] => []
  | a :: l => a :: dropRepeatsAfter a l

theorem mem_dropRepeatsAfter {last : α} :
    a = last ∨ a ∈ dropRepeatsAfter last l ↔ a = last ∨ a ∈ l := by
  induction l generalizing last with
  | nil => rfl
  | cons b l ih =>
    rw [dropRepeatsAfter, List.mem_cons]
    by_cases hb : b = last
    · rw [if_pos hb, ih, hb]
      tauto
    · have hrest := @ih b
      rw [if_neg hb, List.mem_cons]
      tauto

@[simp] theorem mem_dropRepeats : a ∈ dropRepeats l ↔ a ∈ l := by
  cases l with
  | nil => rfl
  | cons b l => rw [dropRepeats, List.mem_cons, List.mem_cons, mem_dropRepeatsAfter]

theorem pairwise_dropRepeatsAfter (hkey : Function.Injective key) {last : α}
    (hl : l.Pairwise fun a b => key a ≤ key b) (hlast : ∀ a ∈ l, key last ≤ key a) :
    (∀ a ∈ dropRepeatsAfter last l, key last < key a) ∧
      (dropRepeatsAfter last l).Pairwise fun a b => key a < key b := by
  induction l generalizing last with
  | nil => exact ⟨by simp [dropRepeatsAfter], List.Pairwise.nil⟩
  | cons b l ih =>
    obtain ⟨hb, hl⟩ := List.pairwise_cons.mp hl
    have hlastb : key last ≤ key b := hlast b List.mem_cons_self
    rw [dropRepeatsAfter]
    by_cases hbl : b = last
    · rw [if_pos hbl]
      exact ih hl fun a ha => hlast a (List.mem_cons_of_mem _ ha)
    · rw [if_neg hbl]
      obtain ⟨hafter, hpair⟩ := ih hl hb
      have hlt : key last < key b := lt_of_le_of_ne hlastb fun h => hbl (hkey h).symm
      refine ⟨fun a ha => ?_, List.pairwise_cons.mpr ⟨hafter, hpair⟩⟩
      rcases List.mem_cons.mp ha with rfl | ha
      · exact hlt
      · exact hlt.trans (hafter a ha)

theorem pairwise_dropRepeats (hkey : Function.Injective key)
    (hl : l.Pairwise fun a b => key a ≤ key b) :
    (dropRepeats l).Pairwise fun a b => key a < key b := by
  cases l with
  | nil => exact List.Pairwise.nil
  | cons b l =>
    obtain ⟨hb, hl⟩ := List.pairwise_cons.mp hl
    obtain ⟨hafter, hpair⟩ := pairwise_dropRepeatsAfter hkey hl hb
    exact List.pairwise_cons.mpr ⟨hafter, hpair⟩

end Distinct
