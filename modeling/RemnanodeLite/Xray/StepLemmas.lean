import RemnanodeLite.Xray.Roles

/-! # What one step can do

Inversion lemmas for the step function: which event kinds exist, which steps
leave the shared state alone, and who writes which part of a process. -/

namespace RemnanodeLite.Xray

/-! ### Events -/

/- The shape of every step: a call arrives, a context ends, a goroutine or a
monitor moves, a token commits. -/
inductive StepView (w : World) : Event → World → Prop
  | callStart (t : Tid) (req : StartRequest) : w.threads t = .idle →
      StepView w (.callStart t req) (w.setThread t (.start (.new req)))
  | callStop (t : Tid) : w.threads t = .idle →
      StepView w (.callStop t) (w.setThread t (.stop ⟨.reserve, false, none⟩))
  | callLease (t : Tid) : w.threads t = .idle →
      StepView w (.callLease t) (w.setThread t (.lease ⟨.begin, none⟩))
  | endStart (t : Tid) (s : StartCall) (err : CtxErr) (c : Option CtxErr) :
      w.threads t = .start s →
      StepView w (.endContext t err) (w.setThread t (.start { s with ctxErr := c }))
  | endLease (t : Tid) (l : LeaseCall) (err : CtxErr) (c : Option CtxErr) :
      w.threads t = .lease l →
      StepView w (.endContext t err) (w.setThread t (.lease { l with ctxErr := c }))
  | start (t : Tid) (ch : Pick) (s s' : StartCall) (w' : World) : w.threads t = .start s →
      startStep w t s ch = some (w', s') →
      StepView w (.thread t ch) (w'.setThread t (.start s'))
  | stop (t : Tid) (ch : Pick) (s s' : StopCall) (w' : World) : w.threads t = .stop s →
      stopStep w t s ch = some (w', s') →
      StepView w (.thread t ch) (w'.setThread t (.stop s'))
  | lease (t : Tid) (ch : Pick) (l l' : LeaseCall) (w' : World) : w.threads t = .lease l →
      leaseStep w t l = some (w', l') →
      StepView w (.thread t ch) (w'.setThread t (.lease l'))
  | monitor (p : Pid) (ch : Pick) (w' : World) : p < w.spawned →
      monitorStep w p ch = some w' → StepView w (.monitor p ch) w'
  | commit (t : Tid) (u : UserCommit) (l : LeaseCall) (p : Pid) (active : Bool) :
      w.threads t = .lease l → l.pc.token = some (p, active) →
      StepView w (.commit t u) (w.commitUser active p u).1

variable {w w' : World} {ch : Pick} {p : ProcessState} {sent : Bool}

theorem step_view {e : Event} (h : step w e = some w') : StepView w e w' := by
  cases e with
  | callStart t req =>
    simp only [step] at h
    split at h
    · next ht =>
      cases h
      exact .callStart t req ht
    · cases h
  | callStop t =>
    simp only [step] at h
    split at h
    · next ht =>
      cases h
      exact .callStop t ht
    · cases h
  | callLease t =>
    simp only [step] at h
    split at h
    · next ht =>
      cases h
      exact .callLease t ht
    · cases h
  | endContext t err =>
    simp only [step] at h
    split at h
    · next s ht =>
      cases h
      exact .endStart t s err _ ht
    · next l ht =>
      cases h
      exact .endLease t l err _ ht
    · cases h
  | thread t ch =>
    simp only [step] at h
    split at h
    · cases h
    · next s ht =>
      obtain ⟨⟨w₁, s'⟩, hstep, heq⟩ := Option.map_eq_some_iff.mp h
      cases heq
      exact .start t ch s s' w₁ ht hstep
    · next s ht =>
      obtain ⟨⟨w₁, s'⟩, hstep, heq⟩ := Option.map_eq_some_iff.mp h
      cases heq
      exact .stop t ch s s' w₁ ht hstep
    · next l ht =>
      obtain ⟨⟨w₁, l'⟩, hstep, heq⟩ := Option.map_eq_some_iff.mp h
      cases heq
      exact .lease t ch l l' w₁ ht hstep
  | monitor p ch =>
    simp only [step] at h
    split_ifs at h with hp
    exact .monitor p ch w' hp h
  | commit t u =>
    simp only [step] at h
    split at h
    · next l ht =>
      obtain ⟨⟨p, active⟩, htok, heq⟩ := Option.map_eq_some_iff.mp h
      cases heq
      exact .commit t u l p active ht htok
    · cases h

/-! ### Routines on a process -/

/- A step of `terminateProcess` signals only a process that is not finalized, and
returns nil only when it has seen the process finalized. -/
theorem terminateStep_spec {pc : TerminatePC} {r : Progress TerminatePC}
    (h : terminateStep p ch pc = some (sent, r)) :
    (sent = true → p.finalized = false) ∧
      (r = .done none → sent = false ∧ p.finalized = true) := by
  cases pc <;> simp only [terminateStep, Option.map_eq_some_iff] at h <;> grind

/- What a step of `terminateProcess` does to the shared state: nothing, or one
signal to a process that is not finalized. -/
def Signals (w : World) (t : Tid) (p : Pid) (w' : World) : Prop :=
  w' = w ∨ w' = w.recordSignal true (.thread t) p ∧ (w.procs p).finalized = false

theorem terminateIn_cases {PC : Type} {t : Tid} {p : Pid} {pc : TerminatePC}
    {next : TerminatePC → PC} {ret : Option String → PC} {pc' : PC}
    (h : terminateIn w t p ch pc next ret = some (w', pc')) :
    (∃ tpc, pc' = next tpc ∧ Signals w t p w') ∨
      (∃ err, pc' = ret (some err) ∧ Signals w t p w') ∨
      pc' = ret none ∧ w' = w ∧ (w.procs p).finalized = true := by
  have hsig : ∀ sent, (sent = true → (w.procs p).finalized = false) →
      Signals w t p (w.recordSignal sent (.thread t) p) := by
    intro sent hfin
    cases sent with
    | false => exact .inl rfl
    | true => exact .inr ⟨rfl, hfin rfl⟩
  unfold terminateIn at h
  split at h
  · cases h
  · next sent tpc heq =>
    cases h
    exact .inl ⟨tpc, rfl, hsig sent (terminateStep_spec heq).1⟩
  · next sent err heq =>
    cases h
    cases err with
    | some err => exact .inr (.inl ⟨err, rfl, hsig sent (terminateStep_spec heq).1⟩)
    | none =>
      obtain ⟨rfl, hfin⟩ := (terminateStep_spec heq).2 rfl
      exact .inr (.inr ⟨rfl, rfl, hfin⟩)

/- Only the marking step of `finalizeExitedProcess` finalizes, and it verifies the
cleanup in the same critical section. -/
theorem finalizeStep_finalized {p' : ProcessState} {who : Actor} {pc : FinalizePC}
    {r : Progress FinalizePC} (h : finalizeStep p who ch pc = some (p', sent, r)) :
    (p'.finalized = p.finalized ∧ p'.cleanupVerified = p.cleanupVerified) ∨
      (∃ e, pc = .mark e) ∧ p'.finalized = true ∧ p'.cleanupVerified = true := by
  cases pc <;> simp only [finalizeStep] at h <;> grind

/- The rest of what a step of `finalizeExitedProcess` can do. -/
structure FinalizeSpec (p p' : ProcessState) (pc : FinalizePC) (r : Progress FinalizePC) : Prop where
  monitor : p'.monitor = p.monitor
  epoch : p'.epoch = p.epoch
  gateWriter : p'.gateWriter = p.gateWriter
  gateReaders : p'.gateReaders = p.gateReaders
  published : p'.published = p.published
  commits : p'.commits = p.commits
  finalized : p.finalized = true → p'.finalized = true
  done : p'.done = true → p.done = true ∨ pc = .closeDone
  done_mono : p.done = true → p'.done = true
  closing : r = .next .closeDone → p'.finalized = true ∧ ∃ e, pc = .mark e
  closes : pc = .closeDone → p'.done = true ∧ r = .next (.unlock none)
  marks : (∃ e, pc = .mark e) → r = .next .closeDone
  returns : pc = .unlock none → r = .done none

theorem finalizeStep_spec {p' : ProcessState} {who : Actor} {pc : FinalizePC}
    {r : Progress FinalizePC} (h : finalizeStep p who ch pc = some (p', sent, r)) :
    FinalizeSpec p p' pc r := by
  cases pc <;> simp only [finalizeStep] at h <;> constructor <;> grind

/- The monitor's last critical section either leaves the manager alone, and then
for one of four reasons, or forgets the process, or only its runtime data. -/
theorem monitorCallback_cases (w : World) (p : Pid) (o : ProcessOutcome) :
    (w.process ≠ some p ∨ w.state = .starting ∨ w.state = .stopped ∨
        w.state = .stopping ∧ w.stopOp ≠ none) ∧ w.monitorCallback p o = w ∨
      w.process = some p ∧ (w.state = .running ∨ w.state = .stopping ∧ w.stopOp = none) ∧
        (o.finalized = true ∧ w.monitorCallback p o = { w.forgetProcess with state := .stopped } ∨
          o.finalized = false ∧
            w.monitorCallback p o = { w.clearRuntime with state := .stopping }) := by
  by_cases hp : w.process = some p
  · have hne : ¬ w.process ≠ some p := not_not.mpr hp
    cases hst : w.state with
    | starting | stopped => exact .inl ⟨by simp, by rw [World.monitorCallback, if_neg hne, hst]⟩
    | running =>
      refine .inr ⟨hp, .inl rfl, ?_⟩
      rw [World.monitorCallback, if_neg hne, hst]
      cases hf : o.finalized with
      | true => exact .inl ⟨rfl, by simp⟩
      | false => exact .inr ⟨rfl, by simp⟩
    | stopping =>
      by_cases hop : w.stopOp = none
      · refine .inr ⟨hp, .inr ⟨rfl, hop⟩, ?_⟩
        rw [World.monitorCallback, if_neg hne, hst]
        cases hf : o.finalized with
        | true => exact .inl ⟨rfl, by simp [hop]⟩
        | false => exact .inr ⟨rfl, by simp [hop, World.clearRuntime, hst]⟩
      · refine .inl ⟨by simp [hop], ?_⟩
        rw [World.monitorCallback, if_neg hne, hst]
        simp [hop]
  · exact .inl ⟨.inl hp, by rw [World.monitorCallback, if_pos hp]⟩

/-! ### Quiet steps of a Start -/

/- The program counters at which a Start only looks at the shared state. -/
@[simp] def StartPC.quiet : StartPC → Bool
  | .makeLogDir | .ctxBeforeGate | .ctxAfterGate | .probeRunning | .ctxAfterProbe | .checkRestart
  | .ctxAfterUnchanged | .prepareConfig | .ctxAfterPrepare | .panelRuntime
  | .ctxAfterPanelRuntime | .ctxAfterTerminate | .runPreStart | .ctxAfterPreStart | .waitCheck _
  | .waitProbe _ | .waitReady _ | .waitReadyLeader _ | .waitSelect _ | .probeVersion _
  | .ctxAfterVersion _ => true
  | _ => false

theorem checkCtx_eq (s : StartCall) (next : StartPC) :
    s.checkCtx next = s.goto next ∨ ∃ r, s.checkCtx next = s.goto (.restorePrevious r) := by
  unfold StartCall.checkCtx
  cases s.ctxErr with
  | none => exact .inl rfl
  | some e => exact .inr ⟨_, rfl⟩

theorem checkCtxGone_eq (s : StartCall) (next : StartPC) :
    s.checkCtxGone next = s.goto next ∨ ∃ e, s.checkCtxGone next = s.goto (.publishCanceled e) := by
  unfold StartCall.checkCtxGone
  cases s.ctxErr with
  | none => exact .inl rfl
  | some e => exact .inr ⟨_, rfl⟩

/- The process a Start has spawned itself. -/
@[simp] def StartPC.newPid : StartPC → Option Pid
  | .assignProcess p | .terminateUnassigned p _ | .retainUnclean p _ | .publishUnassigned p _
  | .waitCheck p | .waitProbe p | .waitReady p | .waitReadyLeader p | .waitSelect p
  | .probeVersion p | .ctxAfterVersion p | .commitRunning p | .terminateNew p _ _
  | .publishNew p _ _ => some p
  | _ => none

/- A Start that has not touched the previous process yet. -/
@[simp] def StartPC.pre : StartPC → Bool
  | .readPrevious | .ctxBeforeGate | .lockGate | .ctxAfterGate | .probeRunning | .ctxAfterProbe
  | .checkRestart | .completeUnchanged | .ctxAfterUnchanged | .reserveIdentity | .prepareConfig
  | .ctxAfterPrepare | .panelRuntime | .ctxAfterPanelRuntime | .terminatePrevious _
  | .publishPreviousUnclean _ | .restorePrevious _ => true
  | _ => false

/- A Start that holds a process identity it has not used yet. -/
@[simp] def StartPC.reserved : StartPC → Bool
  | .prepareConfig | .ctxAfterPrepare | .panelRuntime | .ctxAfterPanelRuntime
  | .terminatePrevious _ | .ctxAfterTerminate | .runPreStart | .ctxAfterPreStart | .stageConfig
  | .releaseGate | .startProcess => true
  | _ => false

@[simp] def StartPC.comparing : StartPC → Bool
  | .ctxAfterProbe | .checkRestart | .completeUnchanged => true
  | _ => false

/- A Start that cannot hold the gate of the previous process yet. -/
@[simp] def StartPC.early : StartPC → Bool
  | .makeLogDir | .beginStart | .readPrevious | .ctxBeforeGate | .lockGate => true
  | _ => false

@[simp] def StartPC.locked : StartPC → Bool
  | .ctxAfterGate | .probeRunning | .ctxAfterProbe | .checkRestart | .completeUnchanged
  | .ctxAfterUnchanged | .reserveIdentity | .prepareConfig | .ctxAfterPrepare | .panelRuntime
  | .ctxAfterPanelRuntime | .terminatePrevious _ => true
  | _ => false

/- What two moments of one Start have in common when only its program counter and
its prepared config may differ. -/
structure StartCall.SameFrame (s s' : StartCall) : Prop where
  role : s'.role = s.role
  previousProcess : s'.previousProcess = s.previousProcess
  gateHeld : s'.gateHeld = s.gateHeld
  previous : s'.previous = s.previous
  processEpoch : s'.processEpoch = s.processEpoch
  operationEpoch : s'.operationEpoch = s.operationEpoch
  newPid : s'.pc.newPid = s.pc.newPid
  pre : s'.pc.pre = s.pc.pre
  reserved : s'.pc.reserved = true → s.pc.reserved = true
  comparing : s'.pc.comparing = true → s.pc.comparing = true ∨ s.previous = .running
  early : s'.pc.early = true → s.pc.early = true
  locked : s'.pc.locked = true → s.pc.locked = true ∨ s.previousProcess = none

theorem sameFrame_goto {s : StartCall} {pc' : StartPC} (hrole : (s.goto pc').role = s.role)
    (hnew : pc'.newPid = s.pc.newPid) (hpre : pc'.pre = s.pc.pre)
    (hres : pc'.reserved = true → s.pc.reserved = true)
    (hcomp : pc'.comparing = true → s.pc.comparing = true ∨ s.previous = .running)
    (hearly : pc'.early = true → s.pc.early = true)
    (hlocked : pc'.locked = true → s.pc.locked = true ∨ s.previousProcess = none) :
    s.SameFrame (s.goto pc') :=
  ⟨hrole, rfl, rfl, rfl, rfl, rfl, hnew, hpre, hres, hcomp, hearly, hlocked⟩

theorem startStep_quiet {t : Tid} {s s' : StartCall} (hq : s.pc.quiet = true)
    (h : startStep w t s ch = some (w', s')) :
    w' = w ∧ s.SameFrame s' := by
  cases hpc : s.pc with
  | makeLogDir | probeRunning | checkRestart | panelRuntime | runPreStart | waitCheck p
  | waitProbe p | waitReady p | waitReadyLeader p | probeVersion p | ctxAfterVersion p =>
    simp only [startStep, hpc, Option.some.injEq, Prod.mk.injEq] at h
    obtain ⟨rfl, rfl⟩ := h
    refine ⟨rfl, sameFrame_goto ?_ ?_ ?_ ?_ ?_ ?_ ?_⟩
    · grind [StartCall.role, StartCall.goto]
    · grind [StartPC.newPid]
    · grind [StartPC.pre]
    · grind [StartPC.reserved]
    · grind [StartPC.comparing]
    · grind [StartPC.early]
    · grind [StartPC.locked]
  | ctxBeforeGate | ctxAfterGate | ctxAfterProbe | ctxAfterUnchanged | ctxAfterPrepare
  | ctxAfterPanelRuntime =>
    simp only [startStep, hpc, Option.some.injEq, Prod.mk.injEq] at h
    obtain ⟨rfl, rfl⟩ := h
    refine ⟨rfl, ?_⟩
    rcases checkCtx_eq s _ with heq | ⟨r, heq⟩ <;> rw [heq] <;> apply sameFrame_goto <;>
      simp [StartCall.role, StartCall.goto, hpc]
  | ctxAfterTerminate | ctxAfterPreStart =>
    simp only [startStep, hpc, Option.some.injEq, Prod.mk.injEq] at h
    obtain ⟨rfl, rfl⟩ := h
    refine ⟨rfl, ?_⟩
    rcases checkCtxGone_eq s _ with heq | ⟨r, heq⟩ <;> rw [heq] <;> apply sameFrame_goto <;>
      simp [StartCall.role, StartCall.goto, hpc]
  | prepareConfig =>
    simp only [startStep, hpc, Option.some.injEq, Prod.mk.injEq] at h
    obtain ⟨rfl, rfl⟩ := h
    refine ⟨rfl, ?_⟩
    split_ifs
    · constructor <;> simp [StartCall.role, hpc]
    · apply sameFrame_goto <;> simp [StartCall.role, StartCall.goto, hpc]
  | waitSelect p =>
    have hgoto : ∀ pc', pc' = .waitCheck p ∨ (∃ r, pc' = .terminateNew p r .exitStatus) →
        s.SameFrame (s.goto pc') := by
      rintro pc' (rfl | ⟨r, rfl⟩) <;> apply sameFrame_goto <;>
        simp [StartCall.role, StartCall.goto, hpc]
    simp only [startStep, hpc] at h
    split at h
    · obtain ⟨e, -, heq⟩ := Option.map_eq_some_iff.mp h
      cases heq
      exact ⟨rfl, hgoto _ (.inr ⟨_, rfl⟩)⟩
    · split at h
      · cases h
        exact ⟨rfl, hgoto _ (.inr ⟨_, rfl⟩)⟩
      · split_ifs at h
        cases h
        exact ⟨rfl, hgoto _ (.inr ⟨_, rfl⟩)⟩
    · split_ifs at h
      cases h
      exact ⟨rfl, hgoto _ (.inr ⟨_, rfl⟩)⟩
    · cases h
      exact ⟨rfl, hgoto _ (.inl rfl)⟩
  | _ => simp [hpc] at hq

end RemnanodeLite.Xray
