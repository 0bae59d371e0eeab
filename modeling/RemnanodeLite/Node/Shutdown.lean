import RemnanodeLite.Node.Cleanup
import RemnanodeLite.Xray.Origins
import RemnanodeLite.Xray.Restoration

/-! # The firewall outlives every core

A Stop that succeeds after the lifetime of the node has ended leaves a manager in
which no core can appear any more: every Start that still comes finds its context
ended before it gets anywhere. The cleanup closes the plugin only after such a
Stop, its own or an older one that its own has joined. -/

namespace RemnanodeLite.Node
open Xray

/-! ### Managers in which no core can appear -/

/- A Start that gives up at its next look at the context, or has given up. -/
def Harmless (s : StartCall) : Prop :=
  match s.pc with
  | .makeLogDir | .beginStart | .readPrevious | .ctxBeforeGate => s.ctxErr ≠ none
  | .restorePrevious _ | .deferredUnlock _ | .returned _ => True
  | _ => False

structure Safe (w : World) : Prop where
  finalized : ∀ p, ¬ w.Unfinalized p
  starts : ∀ t s, w.threads t = .start s → Harmless s

section
variable {w w' : World} {e : Xray.Event} {t u : Tid} {s s' : StartCall}

theorem harmless_of_ends (h : Ends s s') (hs : Harmless s) : Harmless s' := by
  unfold Harmless at hs ⊢
  rw [h.pc]
  split at hs
  · exact h.ctxErr hs
  · exact h.ctxErr hs
  · exact h.ctxErr hs
  · exact h.ctxErr hs
  · trivial
  · trivial
  · trivial
  · exact hs

variable {ch : Pick}

theorem startStep_harmless (h : Harmless s) (hstep : startStep w t s ch = some (w', s')) :
    Harmless s' := by
  unfold Harmless at h
  split at h
  · next hpc =>
    simp only [startStep, hpc, Option.some.injEq, Prod.mk.injEq] at hstep
    obtain ⟨-, rfl⟩ := hstep
    split_ifs
    · exact h
    · trivial
  · next hpc =>
    simp only [startStep, hpc] at hstep
    split at hstep
    · cases hstep
      trivial
    · cases hstep
      exact h
  · next hpc =>
    simp only [startStep, hpc, Option.some.injEq, Prod.mk.injEq] at hstep
    obtain ⟨-, rfl⟩ := hstep
    exact h
  · next hpc =>
    obtain ⟨err, herr⟩ := Option.ne_none_iff_exists'.mp h
    simp only [startStep, hpc, StartCall.checkCtx, herr, Option.some.injEq, Prod.mk.injEq] at hstep
    obtain ⟨-, rfl⟩ := hstep
    trivial
  · next r hpc =>
    simp only [startStep, hpc, Option.some.injEq, Prod.mk.injEq] at hstep
    obtain ⟨-, rfl⟩ := hstep
    trivial
  · next r hpc =>
    simp only [startStep, hpc, startStep.releasePreviousGate, Option.some.injEq] at hstep
    split at hstep
    · cases hstep
      trivial
    · cases hstep
      trivial
  · next r hpc =>
    simp only [startStep, hpc] at hstep
    cases hstep
  · exact h.elim

theorem live_subset {T P : Type} [DecidableEq T] {a b : Ownership.Model T P} (h : a.Step b)
    (hno : ∀ t e, a.role t ≠ .owns (.start e) (.drained none)) : b.live ⊆ a.live := by
  cases h with
  | spawn t e p hr => exact absurd hr (hno t e)
  | finalize p => exact Set.sdiff_subset
  | _ => exact subset_rfl

theorem Harmless.role (h : Harmless s) (k : ℕ) : s.role ≠ .owns (.start k) (.drained none) := by
  unfold Harmless at h
  split at h <;> simp_all [StartCall.role]

theorem Safe.step (h : Safe w) (hinv : w.ownership.Inv) (hok : w.FinalOk)
    (hstep : Xray.step w e = some w') :
    (∀ p, ¬ w'.Unfinalized p) ∧ w'.spawned = w.spawned := by
  have hrole : ∀ t k, w.ownership.role t ≠ .owns (.start k) (.drained none) := by
    intro t k hr
    simp only [World.ownership] at hr
    cases hth : w.threads t with
    | idle | lease l => simp [hth, Thread.role] at hr
    | start s =>
      rw [hth] at hr
      exact (h.starts t s hth).role k hr
    | stop s =>
      rw [hth] at hr
      cases hpc : s.pc <;> simp [Thread.role, StopCall.role, hpc] at hr
  have hlive : ∀ p, ¬ w'.Unfinalized p := by
    intro p hp
    refine h.finalized p ?_
    rcases step_moves hinv hok hstep with heq | hmove
    · have hmem : p ∈ w'.ownership.live := hp
      rw [heq] at hmem
      exact hmem
    · exact live_subset hmove hrole hp
  refine ⟨hlive, ?_⟩
  -- a process that was spawned now would not be finalized
  cases step_view hstep with
  | start t ch s s' w₁ ht hs =>
    rcases (startView_kept (startStep_view hinv ht hs)).2 with hcore | ⟨hpc, -⟩
    · exact hcore.1
    · have hharm := h.starts t s ht
      simp [Harmless, hpc] at hharm
  | stop t ch s s' w₁ ht hs =>
    have hspawned : w₁.spawned = w.spawned := stopView_spawned (stopStep_view hinv ht hs)
    exact hspawned
  | lease t ch l l' w₁ ht hs => exact (leaseView_kept (leaseStep_view hs)).2.1
  | monitor p ch _ hp hs => exact (monitorView_shared (monitorStep_view hs)).2.1
  | commit t u l p active ht htok => exact (commitUser_kept w active p u).2.1
  | _ => rfl

/-! ### Stops that have published their success -/

/- The Stop of goroutine `t` has found every core gone. -/
def Published (w : World) (t : Tid) : Prop :=
  ∃ s, w.threads t = .stop s ∧ (s.pc = .deferredUnlock true ∨ s.pc = .returned true)

/- A Stop that has neither joined another nor is about to begin. -/
def ownStop : StopPC → Bool
  | .reserve | .waitOnly _ => false
  | _ => true

theorem stopStep_published {s s' : StopCall} (hinv : w.ownership.Inv) (ht : w.threads t = .stop s)
    (h : stopStep w t s ch = some (w', s'))
    (hp : s'.pc = .deferredUnlock true ∨ s'.pc = .returned true) :
    s.pc = .deferredUnlock true ∨ s.pc = .publish true ∨
      ∃ op, s.pc = .waitOnly op ∧ Published w op := by
  have hview := stopStep_view hinv ht h
  cases hview with
  | publishStopped hpc => exact .inr (.inl hpc)
  | unlock p b hpc =>
    cases b with
    | false => simp at hp
    | true => exact .inl hpc
  | quiet _ hframe | signal _ _ hframe =>
    have hrole : s.role = .idle := by
      rw [← hframe.role]
      rcases hp with hp | hp <;> simp only [StopCall.role, hp]
    cases hpc : s.pc with
    | reserve =>
      simp only [stopStep, hpc] at h
      split at h <;> cases h
      · simp at hp
      · dsimp only at hp
        split_ifs at hp <;> simp at hp
    | waitOnly op =>
      simp only [stopStep, hpc] at h
      split at h
      · next b _ _ hop =>
        simp only [Option.some.injEq, Prod.mk.injEq] at h
        obtain ⟨-, rfl⟩ := h
        cases b with
        | false => simp at hp
        | true => exact .inr (.inr ⟨op, rfl, _, hop, .inl rfl⟩)
      · next b _ _ hop =>
        simp only [Option.some.injEq, Prod.mk.injEq] at h
        obtain ⟨-, rfl⟩ := h
        cases b with
        | false => simp at hp
        | true => exact .inr (.inr ⟨op, rfl, _, hop, .inr rfl⟩)
      · cases h
    | deferredUnlock b =>
      simp only [stopStep, hpc, Option.some.injEq, Prod.mk.injEq] at h
      obtain ⟨-, rfl⟩ := h
      cases b with
      | false => simp at hp
      | true => exact .inl rfl
    | returned b =>
      simp only [stopStep, hpc] at h
      cases h
    | _ => simp [StopCall.role, hpc] at hrole
  | lock p next _ _ hnext =>
    rcases hnext with rfl | rfl <;> simp at hp
  | finalize p pc ch ps sent r next _ _ _ hnext =>
    rcases hnext with ⟨pc', -, rfl⟩ | ⟨err, -, rfl⟩ <;> simp at hp
  | _ => simp at hp

theorem stopStep_own {s s' : StopCall} (hinv : w.ownership.Inv) (ht : w.threads t = .stop s)
    (h : stopStep w t s ch = some (w', s')) (hown : ownStop s.pc = true) :
    ownStop s'.pc = true := by
  by_contra hn
  have hidle : s'.role = .idle := by
    cases hpc : s'.pc <;> simp [ownStop, hpc] at hn <;> simp only [StopCall.role, hpc]
  have hview := stopStep_view hinv ht h
  cases hview with
  | quiet _ hframe | signal _ _ hframe =>
    have hrole : s.role = .idle := hframe.role ▸ hidle
    cases hpc : s.pc with
    | reserve | waitOnly op => simp [ownStop, hpc] at hown
    | deferredUnlock b =>
      simp only [stopStep, hpc, Option.some.injEq, Prod.mk.injEq] at h
      obtain ⟨-, rfl⟩ := h
      simp [ownStop] at hn
    | returned b =>
      simp only [stopStep, hpc] at h
      cases h
    | _ => simp [StopCall.role, hpc] at hrole
  | lock p next _ _ hnext =>
    rcases hnext with rfl | rfl <;> simp [ownStop] at hn
  | finalize p pc ch ps sent r next _ _ _ hnext =>
    rcases hnext with ⟨pc', -, rfl⟩ | ⟨err, -, rfl⟩ <;> simp [ownStop] at hn
  | _ => simp [ownStop] at hn

/-! ### After the end of the lifetime -/

/- Every Start that has not begun finds its context ended. -/
def Ended (w : World) : Prop :=
  ∀ t s, w.threads t = .start s → s.pc.begun = false → s.ctxErr ≠ none

theorem startStep_unbegun (hinv : w.ownership.Inv) (ht : w.threads t = .start s)
    (h : startStep w t s ch = some (w', s')) (hs' : s'.pc.begun = false) :
    s.pc.begun = false ∧ s'.ctxErr = s.ctxErr := by
  have hs : s.pc.begun = false := by
    by_contra hn
    rw [(own_step (by simpa using hn) (startStep_view hinv ht h)).1] at hs'
    cases hs'
  refine ⟨hs, ?_⟩
  cases hpc : s.pc with
  | makeLogDir =>
    simp only [startStep, hpc, Option.some.injEq, Prod.mk.injEq] at h
    obtain ⟨-, rfl⟩ := h
    rfl
  | beginStart =>
    simp only [startStep, hpc] at h
    split at h
    · cases h
      simp [StartCall.goto] at hs'
    · cases h
      simp at hs'
  | _ => simp [hpc] at hs

/- A success that is published after the end of the lifetime is for good. -/
theorem publish_safe {s s' : StopCall} (hinv : w.ownership.Inv) (hended : Ended w)
    (ht : w.threads t = .stop s) (hpc : s.pc = .publish true)
    (h : stopStep w t s ch = some (w', s')) : Safe (w'.setThread t (.stop s')) := by
  have hr : w.ownership.role t = .owns .stop (.drained s.process) := by
    simp [World.ownership, ht, Thread.role, StopCall.role, hpc]
  have hempty : w.ownership.live = ∅ := (hinv.phase t _ _ hr).2
  have hw' : w'.spawned = w.spawned ∧ w'.procs = w.procs ∧ w'.threads = w.threads := by
    simp only [stopStep, hpc, Option.some.injEq, Prod.mk.injEq] at h
    rw [← h.1]
    exact ⟨rfl, rfl, rfl⟩
  refine ⟨?_, ?_⟩
  · intro p hp
    have hlive : w.Unfinalized p := by
      refine ⟨?_, ?_⟩
      · have hlt : p < w'.spawned := hp.1
        rwa [hw'.1] at hlt
      · have hfin : (w'.procs p).finalized = false := hp.2
        rwa [hw'.2.1] at hfin
    have hmem : p ∈ w.ownership.live := hlive
    rw [hempty] at hmem
    exact hmem
  · intro u s₁ hu
    have hne : u ≠ t := by
      rintro rfl
      rw [World.setThread_self] at hu
      cases hu
    rw [World.setThread_of_ne _ _ hne, hw'.2.2] at hu
    -- nobody else owns the lifecycle, so the Start has not begun or is over
    have hno : ∀ k ph, s₁.role ≠ .owns k ph := by
      intro k ph hrole
      exact hne (hinv.unique hr (show w.ownership.role u = .owns k ph by
        simp only [World.ownership, hu, Thread.role, hrole]))
    cases hpc₁ : s₁.pc <;> simp only [StartCall.role, hpc₁, ne_eq] at hno <;>
      first
      | exact absurd rfl (hno _ _)
      | simp only [Harmless, hpc₁]
        try exact hended u s₁ hu (by simp [hpc₁])

theorem published_origin (hinv : w.ownership.Inv) (hended : Ended w)
    (hstep : Xray.step w e = some w') (h : Published w' t) :
    Published w t ∨ Safe w' ∨
      ∃ s op, w.threads t = .stop s ∧ s.pc = .waitOnly op ∧ Published w op := by
  obtain ⟨s', ht, hpc⟩ := h
  rcases stop_origin hinv hstep ht with hres | ⟨s, hs, rfl | ⟨ch, w₁, hstop, rfl⟩⟩
  · rcases hpc with hpc | hpc <;> (rw [hres] at hpc; cases hpc)
  · exact .inl ⟨s', hs, hpc⟩
  · rcases stopStep_published hinv hs hstop hpc with h1 | h1 | ⟨op, h1, h2⟩
    · exact .inl ⟨s, hs, .inl h1⟩
    · exact .inr (.inl (publish_safe hinv hended hs h1 hstop))
    · exact .inr (.inr ⟨s, op, hs, h1, h2⟩)

def OwnStop (w : World) (t : Tid) : Prop := ∃ s, w.threads t = .stop s ∧ ownStop s.pc = true

theorem OwnStop.step (h : OwnStop w t) (hinv : w.ownership.Inv)
    (hstep : Xray.step w e = some w') : OwnStop w' t := by
  obtain ⟨s, hs, hown⟩ := h
  have hkeep : ∀ {w₁ : World} {v : Tid} {th : Thread}, w.threads v ≠ .stop s →
      w₁.threads t = .stop s → OwnStop (w₁.setThread v th) t := by
    intro w₁ v th hv h₁
    have hne : t ≠ v := by
      rintro rfl
      exact hv hs
    exact ⟨s, by rw [World.setThread_of_ne _ _ hne, h₁], hown⟩
  cases step_view hstep with
  | callStart v req hv | callStop v hv | callLease v hv | endStart v _ _ _ hv | endLease v _ _ _ hv =>
    exact hkeep (by simp [hv]) hs
  | start v ch s₁ s₂ w₁ hv hstart =>
    refine hkeep (by simp [hv]) ?_
    rw [(startView_kept (startStep_view hinv hv hstart)).1, hs]
  | stop v ch s₁ s₂ w₁ hv hstop =>
    rcases eq_or_ne t v with rfl | hne
    · rw [hs] at hv
      cases hv
      exact ⟨s₂, World.setThread_self .., stopStep_own hinv hs hstop hown⟩
    · refine ⟨s, ?_, hown⟩
      rw [World.setThread_of_ne _ _ hne, stopStep_stops hinv hv hstop, hs]
  | lease v ch l l' w₁ hv hlease =>
    refine hkeep (by simp [hv]) ?_
    rw [(leaseView_kept (leaseStep_view hlease)).1, hs]
  | monitor p ch _ hp hmon =>
    exact ⟨s, by rw [(monitorView_shared (monitorStep_view hmon)).1, hs], hown⟩
  | commit v c l p active =>
    exact ⟨s, by rw [(commitUser_kept w active p c).1, hs], hown⟩

theorem joined_stop {s s' : StopCall} {op : Tid} (hinv : w.ownership.Inv)
    (hs : w.threads t = .stop s) (h : stopStep w t s ch = some (w', s'))
    (hpc : s'.pc = .waitOnly op) : OwnStop w op ∧ ¬ Published w op := by
  have hspc : s.pc = .reserve := by
    by_contra hne
    cases hspc : s.pc with
    | reserve => exact hne hspc
    | waitOnly op' =>
      simp only [stopStep, hspc] at h
      split at h
      · cases h
        cases hpc
      · cases h
        cases hpc
      · cases h
    | _ =>
      have hown := stopStep_own hinv hs h (by simp only [hspc, ownStop])
      rw [hpc] at hown
      cases hown
  simp only [stopStep, hspc, World.reserveStop] at h
  have hstopOp : w.stopOp = some op := by
    cases hsop : w.stopOp with
    | none =>
      simp only [hsop] at h
      split_ifs at h <;> (cases h; simp at hpc)
    | some op₁ =>
      simp only [hsop] at h
      split_ifs at h <;> (cases h; simp at hpc)
      rw [hpc]
  -- the operation in the slot is that of a Stop that owns the lifecycle or waits for it
  have hrole := hinv.role_of_stop op hstopOp
  simp only [World.ownership] at hrole
  cases hth : w.threads op with
  | idle | lease l => simp [hth, Thread.role] at hrole
  | start s₁ =>
    rw [hth] at hrole
    rcases hrole with hrole | ⟨ph, hrole⟩ <;>
      (simp only [Thread.role, StartCall.role] at hrole; split at hrole <;> cases hrole)
  | stop s₁ =>
    have hbusy : s₁.role ≠ .idle := by
      rw [hth] at hrole
      intro hidle
      simp only [Thread.role, hidle] at hrole
      rcases hrole with hrole | ⟨ph, hrole⟩ <;> cases hrole
    refine ⟨⟨s₁, hth, ?_⟩, ?_⟩
    · cases hpc₁ : s₁.pc with
      | reserve | waitOnly x => simp [StopCall.role, hpc₁] at hbusy
      | _ => rfl
    · rintro ⟨s₂, hs₂, hpub⟩
      rw [hth] at hs₂
      cases hs₂
      rcases hpub with hpub | hpub <;> simp [StopCall.role, hpub] at hbusy

/- A Stop that succeeds, by itself or with the one it has joined, gives `done`. -/
structure Waits (w : World) (t : Tid) (done : Prop) : Prop where
  published : Published w t → done
  joined : ∀ s op, w.threads t = .stop s → s.pc = .waitOnly op →
    OwnStop w op ∧ (Published w op → done)

theorem Waits.step {done done' : Prop} (h : Waits w t done) (hinv : w.ownership.Inv)
    (hended : Ended w) (hstep : Xray.step w e = some w') (hdone : done → done')
    (hsafe : Safe w' → done') : Waits w' t done' := by
  refine ⟨?_, ?_⟩
  · intro hp
    rcases published_origin hinv hended hstep hp with hp | hp | ⟨s, op, hs, hpc, hop⟩
    · exact hdone (h.published hp)
    · exact hsafe hp
    · exact hdone ((h.joined s op hs hpc).2 hop)
  · intro s' op ht hpc
    have hop : OwnStop w op ∧ (Published w op → done) := by
      rcases stop_origin hinv hstep ht with hres | ⟨s, hs, rfl | ⟨ch, w₁, hstop, -⟩⟩
      · rw [hres] at hpc
        cases hpc
      · exact h.joined s' op hs hpc
      · obtain ⟨hown, hnot⟩ := joined_stop hinv hs hstop hpc
        exact ⟨hown, fun hp => absurd hp hnot⟩
    refine ⟨hop.1.step hinv hstep, ?_⟩
    intro hp
    rcases published_origin hinv hended hstep hp with hp | hp | ⟨s₂, op₂, hs₂, hpc₂, -⟩
    · exact hdone (hop.2 hp)
    · exact hsafe hp
    · obtain ⟨s₁, hs₁, hown₁⟩ := hop.1
      rw [hs₁] at hs₂
      cases hs₂
      rw [hpc₂] at hown₁
      cases hown₁

theorem Waits.of_stops {done done' : Prop} (h : Waits w t done) (hdone : done → done')
    (hstops : ∀ u s, w'.threads u = .stop s ↔ w.threads u = .stop s) : Waits w' t done' := by
  have hpub : ∀ u, Published w' u → Published w u := by
    rintro u ⟨s, hs, hpc⟩
    exact ⟨s, (hstops u s).mp hs, hpc⟩
  refine ⟨fun hp => hdone (h.published (hpub t hp)), ?_⟩
  intro s op hs hpc
  obtain ⟨⟨s', hs', hown⟩, hop⟩ := h.joined s op ((hstops t s).mp hs) hpc
  exact ⟨⟨s', (hstops op s').mpr hs', hown⟩, fun hp => hdone (hop (hpub op hp))⟩

theorem waits_callStop (hstep : Xray.step w (.callStop t) = some w') (done : Prop) :
    Waits w' t done := by
  cases step_view hstep with
  | callStop _ ht =>
    refine ⟨?_, ?_⟩
    · rintro ⟨s, hs, hpc⟩
      rw [World.setThread_self] at hs
      cases hs
      rcases hpc with hpc | hpc <;> cases hpc
    · intro s op hs hpc
      rw [World.setThread_self] at hs
      cases hs
      cases hpc

end

/-! ### The contexts that the lifetime gives -/

section
variable {w w' : World} {e : Xray.Event} {t : Tid} {n : System}

/- Everything but the contexts of the Starts is the same. -/
structure SameButContexts (w w' : World) : Prop where
  ownership : w'.ownership = w.ownership
  spawned : w'.spawned = w.spawned
  procs : w'.procs = w.procs
  stops : ∀ t s, w'.threads t = .stop s ↔ w.threads t = .stop s
  starts : ∀ t s', w'.threads t = .start s' → ∃ s, w.threads t = .start s ∧ Ends s s'

theorem SameButContexts.refl (w : World) : SameButContexts w w :=
  ⟨rfl, rfl, rfl, fun _ _ => Iff.rfl, fun _ s h => ⟨s, h, .inl rfl⟩⟩

theorem SameButContexts.finalOk (h : SameButContexts w w') (hok : w.FinalOk) : w'.FinalOk where
  procs p := h.procs ▸ hok.procs p
  stops t s p hs := h.procs ▸ hok.stops t s p ((h.stops t s).mp hs)
  previous t s' hs' := by
    obtain ⟨s, hs, rfl | ⟨c, rfl⟩⟩ := h.starts t s' hs'
    · exact hok.previous t s' hs
    · exact hok.previous t s hs

theorem SameButContexts.safe (h : SameButContexts w w') (hsafe : Safe w) : Safe w' where
  finalized p hp := hsafe.finalized p ⟨h.spawned ▸ hp.1, h.procs ▸ hp.2⟩
  starts t s' hs' := by
    obtain ⟨s, hs, hends⟩ := h.starts t s' hs'
    exact harmless_of_ends hends (hsafe.starts t s hs)

theorem role_endStart (th : Thread) : (endStart th).role = th.role := by
  cases th with
  | start s => rfl
  | idle | stop s | lease l => rfl

theorem sameButContexts_endStarts (w : World) : SameButContexts w (endStarts w) where
  ownership := by
    simp only [World.ownership, endStarts, role_endStart]
    rfl
  spawned := rfl
  procs := rfl
  stops t s := by
    simp only [endStarts]
    cases w.threads t with
    | idle | start s' | stop s' | lease l => simp [endStart]
  starts t s' hs' := by
    simp only [endStarts] at hs'
    cases hth : w.threads t with
    | start s =>
      rw [hth] at hs'
      cases hs'
      exact ⟨s, rfl, .inr ⟨.canceled, rfl⟩⟩
    | idle | stop s | lease l =>
      rw [hth] at hs'
      cases hs'

theorem ended_endStarts (w : World) : Ended (endStarts w) := by
  intro t s' hs' _
  simp only [endStarts] at hs'
  cases hth : w.threads t with
  | start s =>
    rw [hth] at hs'
    cases hs'
    exact ctxErr_orElse_ne_none _ _
  | idle | stop s | lease l =>
    rw [hth] at hs'
    cases hs'

theorem sameButContexts_cancelStart (w : World) (t : Tid) : SameButContexts w (w.cancelStart t) where
  ownership := ownership_cancelStart w (some t)
  spawned := by
    unfold World.cancelStart
    split <;> rfl
  procs := by
    unfold World.cancelStart
    split <;> rfl
  stops u s := cancelStart_stop w t
  starts u s' hs' := cancelStart_ends w t hs'

theorem sameButContexts_derive (n : System) (e : Xray.Event) (w : World) :
    SameButContexts w (derive n e w) := by
  unfold derive
  split
  · split_ifs
    · exact sameButContexts_cancelStart w _
    · exact .refl w
  · exact .refl w

theorem derived_start {s' : StartCall} (hdone : n.lifetimeDone = true)
    (hinv : n.xray.ownership.Inv) (hstep : Xray.step n.xray e = some w)
    (ht : (derive n e w).threads t = .start s') :
    (s'.pc = .makeLogDir ∧ s'.ctxErr ≠ none) ∨ ∃ s, n.xray.threads t = .start s ∧
      (Ends s s' ∨ ∃ ch w₁, startStep n.xray t s ch = some (w₁, s')) := by
  obtain ⟨s₁, hs₁, hends⟩ := (sameButContexts_derive n e w).starts t s' ht
  rcases start_origin hinv hstep hs₁ with ⟨req, rfl, rfl⟩ | ⟨s, hs, hfrom⟩
  · left
    refine ⟨hends.pc, ?_⟩
    simp only [derive, hdone, if_true, World.cancelStart, hs₁, World.setThread_self] at ht
    cases ht
    exact ctxErr_orElse_ne_none _ _
  · right
    refine ⟨s, hs, ?_⟩
    cases e with
    | callStart v req =>
      -- the called Start is a new one, every other stays as it was
      cases step_view hstep with
      | callStart _ _ hv =>
        have hne : t ≠ v := by
          rintro rfl
          rw [hs] at hv
          cases hv
        rw [World.setThread_of_ne _ _ hne, hs] at hs₁
        cases hs₁
        exact .inl hends
    | _ =>
      have hsame : s' = s₁ := by
        simp only [derive, hs₁] at ht
        cases ht
        rfl
      rw [hsame]
      exact hfrom.imp_right fun ⟨ch, w₁, _, hstart, _⟩ => ⟨ch, w₁, hstart⟩

theorem Safe.derive (h : Safe n.xray) (hdone : n.lifetimeDone = true)
    (hinv : n.xray.ownership.Inv) (hok : n.xray.FinalOk) (hstep : Xray.step n.xray e = some w) :
    Safe (derive n e w) ∧ (Node.derive n e w).spawned = n.xray.spawned := by
  have hsame := sameButContexts_derive n e w
  obtain ⟨hfin, hspawned⟩ := h.step hinv hok hstep
  refine ⟨⟨?_, ?_⟩, hsame.spawned.trans hspawned⟩
  · intro p hp
    exact hfin p ⟨hsame.spawned ▸ hp.1, hsame.procs ▸ hp.2⟩
  · intro t s' ht
    rcases derived_start hdone hinv hstep ht with ⟨hpc, hctx⟩ | ⟨s, hs, hends | ⟨ch, w₁, hstart⟩⟩
    · simp only [Harmless, hpc]
      exact hctx
    · exact harmless_of_ends hends (h.starts t s hs)
    · exact startStep_harmless (h.starts t s hs) hstart

theorem Ended.derive (h : Ended n.xray) (hdone : n.lifetimeDone = true)
    (hinv : n.xray.ownership.Inv) (hstep : Xray.step n.xray e = some w) :
    Ended (derive n e w) := by
  intro t s' ht hpc
  rcases derived_start hdone hinv hstep ht with ⟨-, hctx⟩ | ⟨s, hs, hends | ⟨ch, w₁, hstart⟩⟩
  · exact hctx
  · exact hends.ctxErr (h t s hs (hends.pc ▸ hpc))
  · obtain ⟨hun, hctx⟩ := startStep_unbegun hinv hs hstart hpc
    rw [hctx]
    exact h t s hs hun

end

/-! ### Runs of the cleanup -/

/- What the goroutine that stops the core knows at each of its program counters. -/
def Cleanup.CoreOk (parts : Components) (w : World) (c : Cleanup) : Prop :=
  match c.core with
  | .stopCore _ | .stopDelay _ => c.closes = 0
  | .stopping t _ => c.closes = 0 ∧ Waits w t (Safe w)
  | .closePlugin _ | .closing _ | .closeDelay _ =>
    parts.stopCore = true → Safe w ∧ true ∈ c.stops
  | .sent => parts.stopCore = true → true ∉ c.stops → c.closes = 0

structure System.Ok (parts : Components) (n : System) : Prop where
  inv : n.xray.ownership.Inv
  final : n.xray.FinalOk
  begun : n.cleanup ≠ none → n.lifetimeDone = true
  ended : n.lifetimeDone = true → Ended n.xray
  core : ∀ c, n.cleanup = some c → c.CoreOk parts n.xray

section
variable {parts : Components} {w w' : World} {c c' : Cleanup} {n n' : System}

theorem initial_ok (parts : Components) (disableHashCheck : Bool) :
    (System.initial disableHashCheck).Ok parts where
  inv := inv_initial disableHashCheck
  final := finalOk_initial disableHashCheck
  begun h := absurd rfl h
  ended h := by cases h
  core c h := by cases h

theorem Cleanup.CoreOk.of_eq (h : c.CoreOk parts w) (hcore : c'.core = c.core)
    (hstops : c'.stops = c.stops) (hcloses : c'.closes = c.closes) : c'.CoreOk parts w := by
  unfold CoreOk at h ⊢
  rw [hcore, hstops, hcloses]
  exact h

theorem managerStep_core {ch : Choice} (h : managerStep parts n c ch = some c') :
    c'.core = c.core ∧ c'.stops = c.stops ∧ c'.closes = c.closes := by
  unfold managerStep at h
  split at h
  · split_ifs at h
    · split at h <;> (cases h; exact ⟨rfl, rfl, rfl⟩)
    · cases h
      exact ⟨rfl, rfl, rfl⟩
  · obtain ⟨r, -, rfl⟩ := Option.map_eq_some_iff.mp h
    cases r with
    | none => exact ⟨rfl, rfl, rfl⟩
    | some err => exact ⟨rfl, rfl, rfl⟩
  · cases h

theorem collectStep_core {ctxDone : Bool} (h : collectStep n c ctxDone = some c') :
    c'.core = c.core ∧ c'.stops = c.stops ∧ c'.closes = c.closes := by
  unfold collectStep at h
  split at h
  · cases h
  split at h
  · dsimp only at h
    split_ifs at h
    cases h
    exact ⟨rfl, rfl, rfl⟩
  · split at h
    · cases h
    · cases h
      exact ⟨rfl, rfl, rfl⟩

/- What the goroutine knows in a world it knows in every other in which a Stop that
has succeeded, and what it has led to, are still there. -/
theorem Cleanup.CoreOk.mono (h : c.CoreOk parts w) (hsafe : Safe w → Safe w')
    (hwaits : ∀ t, Waits w t (Safe w) → Waits w' t (Safe w')) : c.CoreOk parts w' := by
  unfold CoreOk at h ⊢
  split
  · next hpc => simpa only [hpc] using h
  · next hpc => simpa only [hpc] using h
  · next t _ hpc =>
    simp only [hpc] at h
    exact ⟨h.1, hwaits t h.2⟩
  · next hpc =>
    simp only [hpc] at h
    exact fun hp => ⟨hsafe (h hp).1, (h hp).2⟩
  · next hpc =>
    simp only [hpc] at h
    exact fun hp => ⟨hsafe (h hp).1, (h hp).2⟩
  · next hpc =>
    simp only [hpc] at h
    exact fun hp => ⟨hsafe (h hp).1, (h hp).2⟩
  · next hpc => simpa only [hpc] using h

theorem coreStep_ok {ch : Choice} (hc : c.CoreOk parts n.xray)
    (h : coreStep parts n c ch = some (w', c')) :
    c'.CoreOk parts w' ∧ (w' = n.xray ∨ ∃ t, Xray.step n.xray (.callStop t) = some w') := by
  unfold Cleanup.CoreOk at hc
  unfold coreStep at h
  split at h
  · next firstErr hpc =>
    simp only [hpc] at hc
    split_ifs at h with hparts
    · obtain ⟨w₁, hcall, heq⟩ := Option.map_eq_some_iff.mp h
      cases heq
      exact ⟨⟨hc, waits_callStop hcall _⟩, .inr ⟨ch.tid, hcall⟩⟩
    · cases h
      exact ⟨fun hp => absurd hp hparts, .inl rfl⟩
  · next t firstErr hpc =>
    simp only [hpc] at hc
    split at h
    · next isStopped _ _ hth =>
      simp only [Option.some.injEq, Prod.mk.injEq] at h
      obtain ⟨rfl, rfl⟩ := h
      refine ⟨?_, .inl rfl⟩
      cases isStopped with
      | true =>
        have hsafe : Safe n.xray := hc.2.published ⟨_, hth, .inr rfl⟩
        exact fun _ => ⟨hsafe, List.mem_append_right _ (List.mem_singleton_self true)⟩
      | false =>
        cases firstErr with
        | none => exact hc.1
        | some first => exact fun _ _ => hc.1
    · cases h
  · next firstErr hpc =>
    simp only [hpc] at hc
    obtain ⟨r, -, heq⟩ := Option.map_eq_some_iff.mp h
    cases r with
    | none =>
      cases heq
      exact ⟨hc, .inl rfl⟩
    | some err =>
      cases heq
      exact ⟨fun _ _ => hc, .inl rfl⟩
  · next firstErr hpc =>
    simp only [hpc] at hc
    split_ifs at h
    · cases h
      exact ⟨hc, .inl rfl⟩
    · cases h
      exact ⟨fun hp hnot => absurd (hc hp).2 hnot, .inl rfl⟩
  · next firstErr hpc =>
    simp only [hpc] at hc
    simp only [Option.some.injEq, Prod.mk.injEq] at h
    obtain ⟨rfl, rfl⟩ := h
    refine ⟨?_, .inl rfl⟩
    split
    · exact fun hp hnot => absurd (hc hp).2 hnot
    · exact hc
    · exact fun hp hnot => absurd (hc hp).2 hnot
  · next firstErr hpc =>
    simp only [hpc] at hc
    obtain ⟨r, -, heq⟩ := Option.map_eq_some_iff.mp h
    cases r with
    | none =>
      cases heq
      exact ⟨hc, .inl rfl⟩
    | some err =>
      cases heq
      exact ⟨fun hp hnot => absurd (hc hp).2 hnot, .inl rfl⟩
  · cases h

theorem System.Ok.xray {e : Xray.Event} (h : n.Ok parts) (hstep : Xray.step n.xray e = some w) :
    System.Ok parts { n with xray := derive n e w } := by
  have hsame := sameButContexts_derive n e w
  have hinv : w.ownership.Inv := by
    rcases step_moves h.inv h.final hstep with heq | hmove
    · exact heq ▸ h.inv
    · exact hmove.inv h.inv
  refine ⟨?_, ?_, h.begun, ?_, ?_⟩
  · exact hsame.ownership ▸ hinv
  · exact hsame.finalOk (step_finalOk h.inv h.final hstep)
  · exact fun hdone => (h.ended hdone).derive hdone h.inv hstep
  · intro c hc
    have hdone : n.lifetimeDone = true := h.begun (by rw [hc]; simp)
    have hsafe : Safe n.xray → Safe (derive n e w) :=
      fun hs => (hs.derive hdone h.inv h.final hstep).1
    refine (h.core c hc).mono hsafe ?_
    intro t hwaits
    exact (hwaits.step h.inv (h.ended hdone) hstep hsafe hsame.safe).of_stops id hsame.stops

theorem System.Ok.step {e : Event} (h : n.Ok parts) (hguard : AfterLifetime n e)
    (hstep : Node.step parts n e = some n') : n'.Ok parts := by
  cases e with
  | xray e =>
    obtain ⟨w, hw, rfl⟩ := Option.map_eq_some_iff.mp hstep
    exact h.xray hw
  | cancelLifetime =>
    cases hstep
    have hsame := sameButContexts_endStarts n.xray
    refine ⟨hsame.ownership ▸ h.inv, hsame.finalOk h.final, fun _ => rfl,
      fun _ => ended_endStarts n.xray, ?_⟩
    intro c hc
    exact (h.core c hc).mono hsame.safe fun t hw => hw.of_stops hsame.safe hsame.stops
  | expire =>
    cases hstep
    exact ⟨h.inv, h.final, h.begun, h.ended, h.core⟩
  | run =>
    simp only [Node.step] at hstep
    split at hstep
    · cases hstep
    · cases hstep
      refine ⟨h.inv, h.final, fun _ => hguard rfl, h.ended, ?_⟩
      intro c hc
      cases hc
      rfl
  | manager ch =>
    obtain ⟨c, hc, hmap⟩ := Option.bind_eq_some_iff.mp hstep
    obtain ⟨c', hc', rfl⟩ := Option.map_eq_some_iff.mp hmap
    obtain ⟨hcore, hstops, hcloses⟩ := managerStep_core hc'
    refine ⟨h.inv, h.final, fun _ => h.begun (by rw [hc]; simp), h.ended, ?_⟩
    intro d hd
    cases hd
    exact (h.core c hc).of_eq hcore hstops hcloses
  | core ch =>
    obtain ⟨c, hc, hmap⟩ := Option.bind_eq_some_iff.mp hstep
    obtain ⟨⟨w, c'⟩, hc', rfl⟩ := Option.map_eq_some_iff.mp hmap
    obtain ⟨hok, hw⟩ := coreStep_ok (h.core c hc) hc'
    have hdone : n.lifetimeDone = true := h.begun (by rw [hc]; simp)
    have hn : System.Ok parts { n with xray := w } := by
      rcases hw with rfl | ⟨t, hcall⟩
      · exact ⟨h.inv, h.final, h.begun, h.ended, h.core⟩
      · exact h.xray hcall
    refine ⟨hn.inv, hn.final, fun _ => hdone, hn.ended, ?_⟩
    intro d hd
    cases hd
    exact hok
  | collect ctxDone =>
    obtain ⟨c, hc, hmap⟩ := Option.bind_eq_some_iff.mp hstep
    obtain ⟨c', hc', rfl⟩ := Option.map_eq_some_iff.mp hmap
    obtain ⟨hcore, hstops, hcloses⟩ := collectStep_core hc'
    refine ⟨h.inv, h.final, fun _ => h.begun (by rw [hc]; simp), h.ended, ?_⟩
    intro d hd
    cases hd
    exact (h.core c hc).of_eq hcore hstops hcloses

theorem System.Ok.no_core {e : Event} (h : n.Ok parts) (hsafe : Safe n.xray)
    (hdone : n.lifetimeDone = true) (hstep : Node.step parts n e = some n') :
    n'.Ok parts ∧ Safe n'.xray ∧ n'.lifetimeDone = true ∧ n'.xray.spawned = n.xray.spawned := by
  refine ⟨h.step (fun _ => hdone) hstep, ?_⟩
  cases e with
  | xray e =>
    obtain ⟨w, hw, rfl⟩ := Option.map_eq_some_iff.mp hstep
    obtain ⟨hs, hspawned⟩ := hsafe.derive hdone h.inv h.final hw
    exact ⟨hs, hdone, hspawned⟩
  | cancelLifetime =>
    cases hstep
    exact ⟨(sameButContexts_endStarts n.xray).safe hsafe, rfl, rfl⟩
  | expire =>
    cases hstep
    exact ⟨hsafe, hdone, rfl⟩
  | run =>
    simp only [Node.step] at hstep
    split at hstep
    · cases hstep
    · cases hstep
      exact ⟨hsafe, hdone, rfl⟩
  | manager ch | collect ctxDone =>
    obtain ⟨c, -, hmap⟩ := Option.bind_eq_some_iff.mp hstep
    obtain ⟨c', -, rfl⟩ := Option.map_eq_some_iff.mp hmap
    exact ⟨hsafe, hdone, rfl⟩
  | core ch =>
    obtain ⟨c, hc, hmap⟩ := Option.bind_eq_some_iff.mp hstep
    obtain ⟨⟨w, c'⟩, hc', rfl⟩ := Option.map_eq_some_iff.mp hmap
    rcases (coreStep_ok (h.core c hc) hc').2 with rfl | ⟨t, hcall⟩
    · exact ⟨hsafe, hdone, rfl⟩
    · obtain ⟨hs, hspawned⟩ := hsafe.derive hdone h.inv h.final hcall
      exact ⟨hs, hdone, hspawned⟩

theorem System.Ok.never_again (h : n.Ok parts) (hsafe : Safe n.xray)
    (hdone : n.lifetimeDone = true) (hrun : Transition.Reach (Node.step parts) n n') :
    n'.xray.spawned = n.xray.spawned ∧ ∀ p, ¬ n'.xray.Unfinalized p := by
  have hinv : n'.Ok parts ∧ Safe n'.xray ∧ n'.lifetimeDone = true ∧
      n'.xray.spawned = n.xray.spawned := by
    refine hrun.invariant (fun m => m.Ok parts ∧ Safe m.xray ∧ m.lifetimeDone = true ∧
      m.xray.spawned = n.xray.spawned) ⟨h, hsafe, hdone, rfl⟩ ?_
    intro a e b ⟨hok, hs, hd, hsp⟩ _ hstep
    obtain ⟨hok', hs', hd', hsp'⟩ := hok.no_core hs hd hstep
    exact ⟨hok', hs', hd', hsp'.trans hsp⟩
  exact ⟨hinv.2.2.2, hinv.2.1.finalized⟩

/- The state in which the goroutine calls `closePlugin`. -/
def System.ClosesPlugin (parts : Components) (n : System) : Prop :=
  parts.closePlugin = true ∧ ∃ c firstErr, n.cleanup = some c ∧ c.core = .closePlugin firstErr

/-- In every run in which the cleanup begins after the lifetime has ended: when the
plugin is closed no core is left that is not finalized, none is spawned at any later
time, and without a successful Stop the plugin is not closed at all. -/
theorem firewall_outlives_core (parts : Components) (disableHashCheck : Bool) (n : System)
    (hrun : Transition.Steps (step parts) AfterLifetime (System.initial disableHashCheck) n) :
    (n.ClosesPlugin parts → (∀ p, ¬ n.xray.Unfinalized p) ∧
      ∀ n', Transition.Reach (step parts) n n' → n'.xray.spawned = n.xray.spawned) ∧
    (∀ c, n.cleanup = some c → parts.closePlugin = true → true ∉ c.stops →
      ¬ n.ClosesPlugin parts ∧ c.closes = 0) := by
  have hok : n.Ok parts := hrun.invariant (System.Ok parts) (initial_ok parts disableHashCheck)
    fun a e b ha hg hstep => ha.step hg hstep
  refine ⟨?_, ?_⟩
  · rintro ⟨hparts, c, firstErr, hc, hpc⟩
    have hcore := hok.core c hc
    simp only [Cleanup.CoreOk, hpc] at hcore
    have hsafe : Safe n.xray := (hcore (parts.ordered hparts)).1
    have hdone : n.lifetimeDone = true := hok.begun (by rw [hc]; simp)
    exact ⟨hsafe.finalized, fun n' hr => (hok.never_again hsafe hdone hr).1⟩
  · intro c hc hparts hnot
    have hstop := parts.ordered hparts
    have hcore := hok.core c hc
    unfold Cleanup.CoreOk at hcore
    refine ⟨?_, ?_⟩
    · rintro ⟨-, d, firstErr, hd, hpc⟩
      rw [hc] at hd
      cases hd
      simp only [hpc] at hcore
      exact hnot (hcore hstop).2
    · split at hcore
      · exact hcore
      · exact hcore
      · exact hcore.1
      · exact absurd (hcore hstop).2 hnot
      · exact absurd (hcore hstop).2 hnot
      · exact absurd (hcore hstop).2 hnot
      · exact hcore hstop hnot

end

/- A core runs, the lifetime ends and the cleanup stops the core. -/
def stopThenClose : List Event :=
  (startToRunning 0).map .xray ++ [.cancelLifetime, .run, .core ⟨1, none, false⟩] ++
    List.replicate 5 (.xray (.thread 1 succeed)) ++ List.replicate 7 (.xray (.monitor 0 succeed)) ++
    List.replicate 5 (.xray (.thread 1 succeed)) ++ [.core ⟨1, none, false⟩]

def allParts : Components := ⟨true, true, true, fun _ => rfl⟩

theorem stopThenClose_runs :
    (Transition.run (fun n e => if AfterLifetime n e then step allParts n e else none)
      (System.initial false) stopThenClose).isSome = true := by
  decide

/-- The theorem at a node whose core has run and is stopped by the cleanup. -/
theorem firewall_outlives_core_stopped :
    ∃ n : System, n.xray.spawned = 1 ∧ (∀ p, ¬ n.xray.Unfinalized p) ∧
      ∀ n', Transition.Reach (step allParts) n n' → n'.xray.spawned = 1 := by
  let n := (Transition.run (fun n e => if AfterLifetime n e then step allParts n e else none)
    (System.initial false) stopThenClose).get stopThenClose_runs
  have hcloses : n.ClosesPlugin allParts := ⟨rfl, _, none, rfl, rfl⟩
  have hspawned : n.xray.spawned = 1 := rfl
  obtain ⟨hfin, hlater⟩ := (firewall_outlives_core allParts false n
    (Transition.run_steps _ (Option.some_get _).symm)).1 hcloses
  exact ⟨n, hspawned, hfin, fun n' hn' => (hlater n' hn').trans hspawned⟩

end RemnanodeLite.Node
