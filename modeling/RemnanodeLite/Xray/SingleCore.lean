import RemnanodeLite.Xray.Refinement

/-! # At most one rw-core -/

namespace RemnanodeLite.Xray
open Ownership

/- Whoever owns the lifecycle, everything that lives is one process. -/
theorem unfinalized_unique {w : World} (hinv : w.ownership.Inv) {p q : Pid}
    (hp : w.Unfinalized p) (hq : w.Unfinalized q) : p = q := by
  obtain ⟨r, hr⟩ : ∃ r, Covers w.ownership.live r := by
    cases ho : w.lifecycleMu with
    | none => exact ⟨_, hinv.free ho⟩
    | some t =>
      obtain ⟨k, ph, hrole⟩ := hinv.role_of_owner t ho
      have hok := hinv.phase t k ph hrole
      cases ph with
      | unread => exact ⟨_, hok⟩
      | holding r => exact ⟨r, hok.2⟩
      | drained r => exact ⟨none, fun x hx => absurd hx (by simp [hok.2])⟩
      | detached x => exact ⟨some x, hok.2⟩
  have h1 := hr p hp
  rw [hr q hq] at h1
  exact (Option.some.inj h1).symm

theorem stopView_spawned {w w' : World} {t : Tid} {s s' : StopCall} (h : StopView w t s w' s') :
    w'.spawned = w.spawned := by
  cases h with
  | signal p s' => exact recordSignal_spawned ..
  | finalize p pc ch ps sent => exact recordSignal_spawned ..
  | cancel target =>
    obtain ⟨threads, heq, -⟩ := cancel_kept w target
    rw [heq]
  | _ => rfl

theorem spawn_step {w w' : World} {e : Event} (hinv : w.ownership.Inv)
    (h : step w e = some w') (hlt : w.spawned < w'.spawned) {p : Pid} (hp : p < w.spawned) :
    (w.procs p).finalized = true := by
  have hkept : ∀ {v v' : World}, v.CoreKept v' → ¬ v.spawned < v'.spawned := by
    intro v v' hcore
    rw [hcore.1]
    exact lt_irrefl _
  cases step_view h with
  | callStart t req ht => exact absurd hlt (lt_irrefl _)
  | callStop t ht => exact absurd hlt (lt_irrefl _)
  | callLease t ht => exact absurd hlt (lt_irrefl _)
  | endStart t s err c ht => exact absurd hlt (lt_irrefl _)
  | endLease t l err c ht => exact absurd hlt (lt_irrefl _)
  | start t ch s s' w₁ ht hstep =>
    obtain ⟨-, hcore | ⟨hpc, -⟩⟩ := startView_kept (startStep_view hinv ht hstep)
    · exact absurd hlt (hkept hcore)
    · have hr : w.ownership.role t = .owns (.start s.operationEpoch) (.drained none) := by
        simp only [World.ownership, ht, Thread.role, StartCall.role, hpc]
      have hempty : w.ownership.live = ∅ := (hinv.phase t _ _ hr).2
      by_contra hf
      have hlive : p ∈ w.ownership.live := ⟨hp, by simpa using hf⟩
      rw [hempty] at hlive
      exact hlive
  | stop t ch s s' w₁ ht hstep =>
    have hn := stopView_spawned (stopStep_view hinv ht hstep)
    exact absurd (hn ▸ hlt : w.spawned < w.spawned) (lt_irrefl _)
  | lease t ch l l' w₁ ht hstep => exact absurd hlt (hkept (leaseView_kept (leaseStep_view hstep)).2)
  | monitor x ch _ hx hstep =>
    rw [(monitorView_shared (monitorStep_view hstep)).2.1] at hlt
    exact absurd hlt (lt_irrefl _)
  | commit t u l x active ht htok => exact absurd hlt (hkept (commitUser_kept w active x u).2)

/-- In every reachable world at most one spawned rw-core is not finalized, a
process is spawned only when all earlier ones are finalized with their cleanup
verified, and while nobody holds `lifecycleMu` the one that is not finalized is
`m.process`. -/
theorem at_most_one_unfinalized_core (disableHashCheck : Bool) (w : World)
    (h : Reachable disableHashCheck w) :
    (∀ p q, w.Unfinalized p → w.Unfinalized q → p = q) ∧
      (∀ e w', step w e = some w' → w.spawned < w'.spawned →
        ∀ p, p < w.spawned →
          (w.procs p).finalized = true ∧ (w.procs p).cleanupVerified = true) ∧
      (w.lifecycleMu = none → ∀ p, w.Unfinalized p → w.process = some p) := by
  obtain ⟨hinv, hok⟩ := reachable_inv h
  refine ⟨fun p q hp hq => unfinalized_unique hinv hp hq, ?_, ?_⟩
  · intro e w' hstep hlt p hp
    have hf := spawn_step hinv hstep hlt hp
    exact ⟨hf, (hok.procs p).verified.trans hf⟩
  · intro ho p hp
    exact hinv.free ho p hp

/-- The theorem at a world in which a core has just been spawned. -/
theorem at_most_one_unfinalized_core_spawned :
    ∃ w : World, w.Unfinalized 0 ∧ (∀ p q, w.Unfinalized p → w.Unfinalized q → p = q) ∧
      (w.lifecycleMu = none → ∀ p, w.Unfinalized p → w.process = some p) := by
  let w := (Transition.run step (World.initial false) (startUntilSpawn 0)).get startUntilSpawn_runs
  have hw : Reachable false w := Transition.run_reach _ (Option.some_get _).symm
  obtain ⟨hunique, -, hfree⟩ := at_most_one_unfinalized_core false w hw
  exact ⟨w, by decide, hunique, hfree⟩

end RemnanodeLite.Xray
