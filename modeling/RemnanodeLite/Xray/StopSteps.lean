import RemnanodeLite.Xray.StepLemmas

/-! # Every way a Stop, a monitor or a lease can move

The inversion lemmas for `stopStep`, `monitorStep` and `leaseStep`, and for the
commits made with a token. -/

namespace RemnanodeLite.Xray
open Ownership

/- A Stop past its acquisition of the mutation gate. -/
@[simp] def StopPC.gated : StopPC → Bool
  | .retryOutcome | .retryFinalize _ | .terminate _ | .readOutcome _ | .publish _
  | .deferredUnlock _ => true
  | _ => false

/- A Stop whose own finalization of the process has succeeded. -/
def StopPC.finishing : StopPC → Bool
  | .retryFinalize .closeDone | .retryFinalize (.unlock none) | .readOutcome none
  | .publish true => true
  | _ => false

structure StopCall.SameFrame (s s' : StopCall) : Prop where
  role : s'.role = s.role
  process : s'.process = s.process
  gated : s.process ≠ none → s'.pc.gated = s.pc.gated
  finishing : s.pc.finishing = false
  closing : s'.pc ≠ .retryFinalize .closeDone

/- What `readOutcome` computes from the outcome (lifecycle.go:512-516). -/
def World.stopSucceeded (w : World) (process : Option Pid) : Bool :=
  match process with
  | none => true
  | some p => (w.procs p).finalized && (w.procs p).cleanupVerified

inductive StopView (w : World) (t : Tid) (s : StopCall) : World → StopCall → Prop
  | quiet (s' : StopCall) : s.SameFrame s' → StopView w t s w s'
  | signal (p : Pid) (s' : StopCall) : s.SameFrame s' → s.process = some p → s.pc.gated = true →
      (w.procs p).finalized = false → StopView w t s (w.recordSignal true (.thread t) p) s'
  | reserveWait (retry : Bool) : s.pc = .reserve → w.stopOp = none → w.lifecycleMu ≠ none →
      StopView w t s
        { w with
          operationEpoch := w.operationEpoch + 1, state := .stopping
          stopOp := some t, startCancel := none }
        { s with pc := .cancelStart w.startCancel, retryCleanup := retry }
  | reserveOwn (retry : Bool) : s.pc = .reserve → w.stopOp = none → w.lifecycleMu = none →
      StopView w t s
        { w with
          operationEpoch := w.operationEpoch + 1, state := .stopping
          stopOp := some t, lifecycleMu := some t }
        { s with pc := .readProcess, retryCleanup := retry }
  | cancel (target : Option Tid) : s.pc = .cancelStart target →
      StopView w t s ((target.map w.cancelStart).getD w) { s with pc := .lockLifecycle }
  | acquire : s.pc = .lockLifecycle → w.lifecycleMu = none →
      StopView w t s { w with lifecycleMu := some t } { s with pc := .readProcess }
  | read : s.pc = .readProcess →
      StopView w t s w { s with pc := .lockGate, process := w.process }
  | lock (p : Pid) (next : StopPC) : s.pc = .lockGate → s.process = some p →
      next = .retryOutcome ∨ next = .terminate .exitStatus →
      (w.procs p).gateWriter = none → (w.procs p).gateReaders = ∅ →
      StopView w t s (w.setProc p { w.procs p with gateWriter := some t }) { s with pc := next }
  | unlock (p : Pid) (isStopped : Bool) : s.pc = .deferredUnlock isStopped → s.process = some p →
      StopView w t s (w.setProc p { w.procs p with gateWriter := none })
        { s with pc := .returned isStopped }
  | finalize (p : Pid) (pc : FinalizePC) (ch : Pick) (ps : ProcessState) (sent : Bool)
      (r : Progress FinalizePC) (next : StopPC) : s.pc = .retryFinalize pc → s.process = some p →
      finalizeStep (w.procs p) (.thread t) ch pc = some (ps, sent, r) →
      ((∃ pc', r = .next pc' ∧ next = .retryFinalize pc') ∨
        ∃ err, r = .done err ∧ next = .readOutcome err) →
      StopView w t s ((w.setProc p ps).recordSignal sent (.thread t) p) { s with pc := next }
  | outcome (err : Option String) : s.pc = .readOutcome err →
      StopView w t s w { s with pc := .publish (w.stopSucceeded s.process) }
  | publishStopped : s.pc = .publish true → w.process = s.process →
      StopView w t s
        { w.forgetProcess with state := .stopped, stopOp := none, lifecycleMu := none }
        { s with pc := .deferredUnlock true }
  | publishStopping : s.pc = .publish false →
      StopView w t s { w with state := .stopping, stopOp := none, lifecycleMu := none }
        { s with pc := .deferredUnlock false }

section
variable {w w' : World} {t : Tid} {s s' : StopCall} {ch : Pick}

theorem sameFrame_pc {pc' : StopPC} (hrole : ({ s with pc := pc' } : StopCall).role = s.role)
    (hgated : pc'.gated = s.pc.gated) (hfinishing : s.pc.finishing = false)
    (hclosing : pc' ≠ .retryFinalize .closeDone) : s.SameFrame { s with pc := pc' } :=
  ⟨hrole, rfl, fun _ => hgated, hfinishing, hclosing⟩

theorem reserveStop_view (hinv : w.ownership.Inv) (hpc : s.pc = .reserve)
    (h : stopStep w t s ch = some (w', s')) : StopView w t s w' s' := by
  have hstopping : w.stopOp ≠ none → w.state = .stopping := hinv.stopping
  simp only [stopStep, hpc, World.reserveStop] at h
  by_cases hop : w.stopOp = none
  · simp only [hop] at h
    by_cases hst : w.state = .starting
    · simp only [hst, if_true] at h
      cases h
      exact .reserveWait false hpc hop (hinv.starting hst)
    · simp only [hst, if_false] at h
      by_cases ho : w.lifecycleMu = none
      · simp only [ho, ne_eq, not_true_eq_false, if_false] at h
        cases h
        exact .reserveOwn _ hpc hop ho
      · simp only [ne_eq, ho, not_false_eq_true, if_true] at h
        cases h
        exact .reserveWait _ hpc hop ho
  · obtain ⟨op, hop'⟩ := Option.ne_none_iff_exists'.mp hop
    simp only [hop', hstopping hop, if_true] at h
    cases h
    exact .quiet _ (by apply sameFrame_pc <;> simp [StopCall.role, StopPC.finishing, hpc])

theorem stopLockGate_view (hpc : s.pc = .lockGate) (h : stopStep w t s ch = some (w', s')) :
    StopView w t s w' s' := by
  obtain ⟨next, hnext, hor⟩ : ∃ next : StopPC,
      (if s.retryCleanup then StopPC.retryOutcome else .terminate .exitStatus) = next ∧
        (next = .retryOutcome ∨ next = .terminate .exitStatus) := by
    refine ⟨_, rfl, ?_⟩
    split_ifs
    · exact .inl rfl
    · exact .inr rfl
  simp only [stopStep, hpc, hnext] at h
  split at h
  · next hnone =>
    cases h
    refine .quiet _ ⟨?_, rfl, fun hne => absurd hnone hne, by simp only [StopPC.finishing, hpc], ?_⟩
    · rcases hor with rfl | rfl <;> simp only [StopCall.role, hpc]
    · rcases hor with rfl | rfl <;> simp
  · next p hp =>
    split_ifs at h with hgate
    cases h
    exact .lock p next hpc hp hor hgate.1 hgate.2

theorem retryOutcome_view (hpc : s.pc = .retryOutcome) (h : stopStep w t s ch = some (w', s')) :
    StopView w t s w' s' := by
  have hframe : ∀ pc', (∃ e, pc' = .readOutcome e) ∨ pc' = .retryFinalize .lock ∨
      pc' = .terminate .exitStatus → s.SameFrame { s with pc := pc' } := by
    rintro pc' (⟨e, rfl⟩ | rfl | rfl) <;> apply sameFrame_pc <;>
      simp [StopCall.role, StopPC.finishing, hpc]
  simp only [stopStep, hpc] at h
  split at h
  · cases h
    exact .quiet _ (hframe _ (.inl ⟨none, rfl⟩))
  · cases h
    refine .quiet _ (hframe _ ?_)
    split_ifs
    · exact .inl ⟨none, rfl⟩
    · split
      · exact .inl ⟨_, rfl⟩
      · exact .inr (.inl rfl)
    · split
      · exact .inl ⟨_, rfl⟩
      · exact .inr (.inr rfl)

theorem retryFinalize_view {pc : FinalizePC} (hpc : s.pc = .retryFinalize pc)
    (h : stopStep w t s ch = some (w', s')) : StopView w t s w' s' := by
  simp only [stopStep, hpc] at h
  split at h
  · cases h
  · next p hp =>
    split at h
    · cases h
    · next ps sent pc' hfin =>
      cases h
      exact .finalize p pc ch ps sent _ _ hpc hp hfin (.inl ⟨pc', rfl, rfl⟩)
    · next ps sent err hfin =>
      cases h
      exact .finalize p pc ch ps sent _ _ hpc hp hfin (.inr ⟨err, rfl, rfl⟩)

theorem stopTerminate_view {pc : TerminatePC} (hpc : s.pc = .terminate pc)
    (h : stopStep w t s ch = some (w', s')) : StopView w t s w' s' := by
  have hnext : ∀ pc', s.SameFrame { s with pc := .terminate pc' } := by
    intro pc'
    apply sameFrame_pc <;> simp [StopCall.role, StopPC.finishing, hpc]
  have hret : ∀ err, s.SameFrame { s with pc := .readOutcome err } := by
    intro err
    apply sameFrame_pc <;> simp [StopCall.role, StopPC.finishing, hpc]
  have hgated : s.pc.gated = true := by simp [hpc]
  simp only [stopStep, hpc] at h
  split at h
  · cases h
    exact .quiet _ (hret none)
  · next p hp =>
    have hsignals : ∀ {w₁ pc'}, Signals w t p w₁ → s.SameFrame { s with pc := pc' } →
        StopView w t s w₁ { s with pc := pc' } := by
      rintro w₁ pc' (rfl | ⟨rfl, hfin⟩) hframe
      · exact .quiet _ hframe
      · exact .signal p _ hframe hp hgated hfin
    obtain ⟨⟨w₁, pc'⟩, hterm, heq⟩ := Option.map_eq_some_iff.mp h
    cases heq
    rcases terminateIn_cases hterm with ⟨tpc, rfl, hsig⟩ | ⟨err, rfl, hsig⟩ | ⟨rfl, rfl, -⟩
    · exact hsignals hsig (hnext tpc)
    · exact hsignals hsig (hret _)
    · exact .quiet _ (hret none)

theorem publishStop_view {succeeded : Bool} (hinv : w.ownership.Inv)
    (hs : w.threads t = .stop s) (hpc : s.pc = .publish succeeded)
    (h : stopStep w t s ch = some (w', s')) : StopView w t s w' s' := by
  simp only [stopStep, hpc, Option.some.injEq, Prod.mk.injEq] at h
  obtain ⟨rfl, rfl⟩ := h
  cases succeeded with
  | false => exact .publishStopping hpc
  | true =>
    have hr : w.ownership.role t = .owns .stop (.drained s.process) := role_stop hs hpc
    have hproc : w.process = s.process := (hinv.phase t _ _ hr).1
    have hview : StopView w t s
        { w.forgetProcess with state := .stopped, stopOp := none, lifecycleMu := none }
        { s with pc := .deferredUnlock true } := .publishStopped hpc hproc
    simpa only [World.publishStop, if_true, if_pos hproc, World.forgetProcess,
      World.clearRuntime] using hview

theorem stopStep_view (hinv : w.ownership.Inv) (hs : w.threads t = .stop s)
    (h : stopStep w t s ch = some (w', s')) : StopView w t s w' s' := by
  cases hpc : s.pc with
  | reserve => exact reserveStop_view hinv hpc h
  | waitOnly op =>
    simp only [stopStep, hpc] at h
    split at h <;> cases h <;>
      exact .quiet _ (by apply sameFrame_pc <;> simp [StopCall.role, StopPC.finishing, hpc])
  | cancelStart target =>
    simp only [stopStep, hpc, Option.some.injEq, Prod.mk.injEq] at h
    obtain ⟨rfl, rfl⟩ := h
    exact .cancel target hpc
  | lockLifecycle =>
    simp only [stopStep, hpc] at h
    split_ifs at h with ho
    cases h
    exact .acquire hpc ho
  | readProcess =>
    simp only [stopStep, hpc, Option.some.injEq, Prod.mk.injEq] at h
    obtain ⟨rfl, rfl⟩ := h
    exact .read hpc
  | lockGate => exact stopLockGate_view hpc h
  | retryOutcome => exact retryOutcome_view hpc h
  | retryFinalize pc => exact retryFinalize_view hpc h
  | terminate pc => exact stopTerminate_view hpc h
  | readOutcome err =>
    simp only [stopStep, hpc, Option.some.injEq, Prod.mk.injEq] at h
    obtain ⟨rfl, rfl⟩ := h
    exact .outcome err hpc
  | publish succeeded => exact publishStop_view hinv hs hpc h
  | deferredUnlock isStopped =>
    simp only [stopStep, hpc, Option.some.injEq, Prod.mk.injEq] at h
    obtain ⟨rfl, rfl⟩ := h
    split
    · next hnone =>
      exact .quiet _ ⟨by simp only [StopCall.role, hpc], rfl, fun hne => absurd hnone hne,
        by simp only [StopPC.finishing, hpc], by simp⟩
    · next p hp => exact .unlock p isStopped hpc hp
  | returned isStopped =>
    simp only [stopStep, hpc] at h
    cases h

end

/-! ### Monitors -/

/- A monitor's step outside finalization and callback: it may only record how the
leader ended, close its two channels and go on. -/
structure ProcessState.Observes (p p' : ProcessState) : Prop where
  finalized : p'.finalized = p.finalized
  cleanupVerified : p'.cleanupVerified = p.cleanupVerified
  done : p'.done = p.done
  epoch : p'.epoch = p.epoch
  gateWriter : p'.gateWriter = p.gateWriter
  gateReaders : p'.gateReaders = p.gateReaders
  published : p'.published = p.published
  commits : p'.commits = p.commits
  before : p.monitor = .waitLeader ∨ p.monitor = .closeLeaderDone ∨ p.monitor = .closeMonitorDone
  after : p'.monitor = .closeLeaderDone ∨ p'.monitor = .finalize .lock ∨
    p'.monitor = .closeMonitorDone ∨ p'.monitor = .readOutcome

inductive MonitorView (w : World) (p : Pid) : World → Prop
  | observe (ps : ProcessState) : (w.procs p).Observes ps → MonitorView w p (w.setProc p ps)
  | finalize (pc : FinalizePC) (ch : Pick) (ps : ProcessState) (sent : Bool)
      (r : Progress FinalizePC) (next : MonitorPC) : (w.procs p).monitor = .finalize pc →
      finalizeStep (w.procs p) .monitor ch pc = some (ps, sent, r) →
      ((∃ pc', r = .next pc' ∧ next = .finalize pc') ∨
        ∃ err, r = .done err ∧ next = .closeMonitorDone) →
      MonitorView w p ((w.setProc p { ps with monitor := next }).recordSignal sent .monitor p)
  | readOutcome : (w.procs p).monitor = .readOutcome →
      MonitorView w p
        (w.setProc p { w.procs p with monitor := .callback (w.procs p).toProcessOutcome })
  | callback (o : ProcessOutcome) : (w.procs p).monitor = .callback o →
      MonitorView w p
        ((w.monitorCallback p o).setProc p { w.procs p with monitor := .returned })

theorem monitorStep_view {w w' : World} {p : Pid} {ch : Pick}
    (h : monitorStep w p ch = some w') : MonitorView w p w' := by
  cases hpc : (w.procs p).monitor with
  | waitLeader =>
    simp only [monitorStep, hpc, Option.some.injEq] at h
    subst h
    exact .observe _ ⟨rfl, rfl, rfl, rfl, rfl, rfl, rfl, rfl, .inl hpc, .inl rfl⟩
  | closeLeaderDone =>
    simp only [monitorStep, hpc, Option.some.injEq] at h
    subst h
    refine .observe _ ⟨rfl, rfl, rfl, rfl, rfl, rfl, rfl, rfl, .inr (.inl hpc), ?_⟩
    dsimp only
    split_ifs
    · exact .inr (.inl rfl)
    · exact .inr (.inr (.inl rfl))
  | finalize pc =>
    simp only [monitorStep, hpc] at h
    split at h
    · cases h
    · next ps sent pc' hfin =>
      cases h
      exact .finalize pc ch ps sent _ _ hpc hfin (.inl ⟨pc', rfl, rfl⟩)
    · next ps sent err hfin =>
      cases h
      exact .finalize pc ch ps sent _ _ hpc hfin (.inr ⟨err, rfl, rfl⟩)
  | closeMonitorDone =>
    simp only [monitorStep, hpc, Option.some.injEq] at h
    subst h
    exact .observe _ ⟨rfl, rfl, rfl, rfl, rfl, rfl, rfl, rfl, .inr (.inr hpc),
      .inr (.inr (.inr rfl))⟩
  | readOutcome =>
    simp only [monitorStep, hpc, Option.some.injEq] at h
    subst h
    exact .readOutcome hpc
  | callback o =>
    simp only [monitorStep, hpc, Option.some.injEq] at h
    subst h
    exact .callback o hpc
  | returned =>
    simp only [monitorStep, hpc] at h
    cases h

/-! ### Leases -/

/- The process a lease has found at its beginning and not let go yet. -/
def LeasePC.pid : LeasePC → Option Pid
  | .rlock p | .validate p | .ctxCheck p | .runlock p _ | .active p | .released p => some p
  | _ => none

/- The process whose gate a lease reads. -/
def LeasePC.reads : LeasePC → Option Pid
  | .validate p | .ctxCheck p | .runlock p _ | .active p | .released p => some p
  | _ => none

inductive LeaseView (w : World) (t : Tid) (l : LeaseCall) : World → LeaseCall → Prop
  | quiet (l' : LeaseCall) : (∀ p, l'.pc.pid = some p → l.pc.pid = some p) →
      (∀ p, l'.pc.reads = some p → l.pc.reads = some p) → LeaseView w t l w l'
  | begin (p : Pid) : l.pc = .begin → w.leasable p = true →
      LeaseView w t l w { l with pc := .rlock p }
  | enter (p : Pid) : l.pc = .rlock p → (w.procs p).gateWriter = none →
      LeaseView w t l
        (w.setProc p { w.procs p with gateReaders := insert t (w.procs p).gateReaders })
        { l with pc := .validate p }
  | leave (p : Pid) (l' : LeaseCall) : l.pc.reads = some p → l'.pc.pid = none →
      l'.pc.reads = none →
      LeaseView w t l
        (w.setProc p { w.procs p with gateReaders := (w.procs p).gateReaders.erase t }) l'

theorem leaseStep_view {w w' : World} {t : Tid} {l l' : LeaseCall}
    (h : leaseStep w t l = some (w', l')) : LeaseView w t l w' l' := by
  have hover : ∀ {token : Option Pid}, LeaseView w t l w { l with pc := .returned token } :=
    .quiet _ (by simp [LeasePC.pid]) (by simp [LeasePC.reads])
  cases hpc : l.pc with
  | begin =>
    simp only [leaseStep, hpc] at h
    split at h
    · cases h
      exact hover
    · cases h
      exact hover
    · next p _ _ =>
      cases h
      by_cases hlea : w.leasable p = true
      · rw [if_pos hlea]
        exact .begin p hpc hlea
      · rw [if_neg hlea]
        exact hover
  | rlock p =>
    simp only [leaseStep, hpc] at h
    split_ifs at h with hwriter
    cases h
    exact .enter p hpc hwriter
  | validate p =>
    simp only [leaseStep, hpc] at h
    cases h
    split_ifs <;> exact .quiet _ (by simp [LeasePC.pid, hpc]) (by simp [LeasePC.reads, hpc])
  | ctxCheck p =>
    simp only [leaseStep, hpc] at h
    split at h <;>
    · cases h
      exact .quiet _ (by simp [LeasePC.pid, hpc]) (by simp [LeasePC.reads, hpc])
  | active p =>
    simp only [leaseStep, hpc] at h
    cases h
    exact .quiet _ (by simp [LeasePC.pid, hpc]) (by simp [LeasePC.reads, hpc])
  | runlock p err | released p =>
    simp only [leaseStep, hpc] at h
    cases h
    exact .leave p _ (by simp only [LeasePC.reads, hpc]) rfl rfl
  | returned token =>
    simp only [leaseStep, hpc] at h
    cases h

def World.committed (w : World) (p : Pid) (u : UserCommit) : World :=
  { w.setProc p { w.procs p with commits := (w.procs p).commits ++ [u] } with
    runtime := { w.runtime with hashState := u.apply w.runtime.hashState } }

theorem commitUser_cases (w : World) (active : Bool) (p : Pid) (u : UserCommit) :
    (w.commitUser active p u).1 = w ∨
      w.tokenCurrent active p = true ∧ (w.commitUser active p u).1 = w.committed p u := by
  unfold World.commitUser
  split_ifs with hwf htok
  · exact .inl rfl
  · exact .inl rfl
  · exact .inr ⟨by simpa using htok, rfl⟩

end RemnanodeLite.Xray
