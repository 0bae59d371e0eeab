import Mathlib.Data.List.Nodup
import Mathlib.Data.List.Perm.Subperm
import Mathlib.Data.Set.Lattice

/-! # Laminar families

Members of a laminar family are nested or disjoint. The maximal members inside a
union of members are not more than the members united. -/

namespace Laminar
variable {ι α : Type*} {block : ι → Set α} {member : ι → Prop}

structure Family (block : ι → Set α) (member : ι → Prop) : Prop where
  nonempty : ∀ i, member i → (block i).Nonempty
  nested : ∀ i j, member i → member j → (block i ∩ block j).Nonempty →
    block i ⊆ block j ∨ block j ⊆ block i

def union (block : ι → Set α) (is : List ι) : Set α := {a | ∃ i ∈ is, a ∈ block i}

/- A member inside `s` that no other member inside `s` contains. -/
structure MaximalIn (block : ι → Set α) (member : ι → Prop) (s : Set α) (i : ι) : Prop where
  belongs : member i
  inside : block i ⊆ s
  maximal : ∀ j, member j → block j ⊆ s → block i ⊆ block j → j = i

theorem subset_union {is : List ι} {i : ι} (h : i ∈ is) : block i ⊆ union block is :=
  fun _ ha => ⟨i, h, ha⟩

/- A maximal member contains one of those that make up the union: a larger one
would not be inside. -/
theorem MaximalIn.exists_subset (hfamily : Family block member) {is : List ι}
    (his : ∀ i ∈ is, member i) {j : ι} (h : MaximalIn block member (union block is) j) :
    ∃ i ∈ is, block i ⊆ block j := by
  obtain ⟨a, ha⟩ := hfamily.nonempty j h.belongs
  obtain ⟨i, hi, hai⟩ := h.inside ha
  refine ⟨i, hi, ?_⟩
  rcases hfamily.nested i j (his i hi) h.belongs ⟨a, hai, ha⟩ with hsub | hsub
  · exact hsub
  · rw [h.maximal i (his i hi) (subset_union hi) hsub]

theorem MaximalIn.eq_of_meet (hfamily : Family block member) {s : Set α} {i j : ι}
    (hi : MaximalIn block member s i) (hj : MaximalIn block member s j)
    (h : (block i ∩ block j).Nonempty) : i = j := by
  rcases hfamily.nested i j hi.belongs hj.belongs h with hsub | hsub
  · exact (hi.maximal j hj.belongs hj.inside hsub).symm
  · exact hj.maximal i hi.belongs hi.inside hsub

/-- There are at most as many maximal members of a union as members united. -/
theorem length_le_of_maximalIn (hfamily : Family block member) {is js : List ι}
    (his : ∀ i ∈ is, member i) (hnodup : js.Nodup)
    (hjs : ∀ j ∈ js, MaximalIn block member (union block is) j) : js.length ≤ is.length := by
  classical
  have hbelow : ∀ j, ∃ i, j ∈ js → i ∈ is ∧ block i ⊆ block j := by
    intro j
    by_cases hj : j ∈ js
    · obtain ⟨i, hi, hsub⟩ := (hjs j hj).exists_subset hfamily his
      exact ⟨i, fun _ => ⟨hi, hsub⟩⟩
    · exact ⟨j, fun h => absurd h hj⟩
  choose below hbelow using hbelow
  have hinjective : ∀ j ∈ js, ∀ j' ∈ js, below j = below j' → j = j' := by
    intro j hj j' hj' heq
    obtain ⟨a, ha⟩ := hfamily.nonempty _ (his _ (hbelow j hj).1)
    have ha' : a ∈ block j' := (hbelow j' hj').2 (heq ▸ ha)
    exact (hjs j hj).eq_of_meet hfamily (hjs j' hj') ⟨a, (hbelow j hj).2 ha, ha'⟩
  have hsub : js.map below ⊆ is := by
    intro i hi
    obtain ⟨j, hj, rfl⟩ := List.mem_map.mp hi
    exact (hbelow j hj).1
  calc js.length = (js.map below).length := (List.length_map below).symm
    _ ≤ is.length := ((List.Nodup.map_on hinjective hnodup).subperm hsub).length_le

end Laminar
