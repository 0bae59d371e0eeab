import RemnanodeLite.Rnlctl.Footprint
import RemnanodeLite.Rnlctl.Validation

/-! # What a state file records -/

namespace RemnanodeLite.Rnlctl.Lifecycle
open Filepath Program Fallible

theorem validateGenerations_ok {entries : List ((_ : Text) × GenerationRecord)}
    (h : validateGenerations entries = .ok ()) :
    ∀ e ∈ entries, e.1 = e.2.id ∧ validateGenerationRecord e.2 = .ok () := by
  induction entries with
  | nil =>
    intro e he
    cases he
  | cons first rest ih =>
    obtain ⟨_, hid, h⟩ := Fallible.bind_ok_iff.mp h
    obtain ⟨_, hrecord, h⟩ := Fallible.bind_ok_iff.mp h
    intro e he
    rcases List.mem_cons.mp he with rfl | he
    · exact ⟨not_not.mp (refuse_ok_iff.mp hid), Fallible.mapError_ok_iff.mp hrecord⟩
    · exact ih h e he

/- What `validateState` has checked. -/
structure ValidState (s : PersistentState) : Prop where
  current : (s.generations.lookup s.current).isSome = true
  previous : s.previous ≠ [] → (s.generations.lookup s.previous).isSome = true
  distinct : s.previous ≠ [] → s.previous ≠ s.current
  records : ∀ id g, s.generations.lookup id = some g → g.id = id ∧ validateGenerationRecord g = .ok ()

theorem validState {s : PersistentState} (h : validateState s = .ok ()) : ValidState s := by
  obtain ⟨_, -, h⟩ := Fallible.bind_ok_iff.mp h
  obtain ⟨_, -, h⟩ := Fallible.bind_ok_iff.mp h
  obtain ⟨_, -, h⟩ := Fallible.bind_ok_iff.mp h
  obtain ⟨_, hcurrent, h⟩ := Fallible.bind_ok_iff.mp h
  obtain ⟨_, hdistinct, h⟩ := Fallible.bind_ok_iff.mp h
  obtain ⟨_, hprevious, h⟩ := Fallible.bind_ok_iff.mp h
  have hrecords := validateGenerations_ok h
  refine ⟨?_, fun hne => ?_, fun hne heq => ?_, fun id g hg => ?_⟩
  · exact Option.isSome_iff_ne_none.mpr (refuse_ok_iff.mp hcurrent)
  · exact Option.isSome_iff_ne_none.mpr fun hnone => refuse_ok_iff.mp hprevious ⟨hne, hnone⟩
  · exact refuse_ok_iff.mp hdistinct ⟨hne, heq⟩
  · obtain ⟨hid, hrecord⟩ := hrecords ⟨id, g⟩ (AList.mem_lookup_iff.mp hg)
    exact ⟨hid.symm, hrecord⟩

theorem ValidState.record {s : PersistentState} (h : ValidState s) :
    ∃ g, s.record s.current = pure g := by
  obtain ⟨g, hg⟩ := Option.isSome_iff_exists.mp h.current
  refine ⟨g, ?_⟩
  unfold PersistentState.record
  rw [hg]

end RemnanodeLite.Rnlctl.Lifecycle
