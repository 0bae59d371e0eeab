import RemnanodeLite.Xray.Lifecycle
import RemnanodeLite.Xray.Ownership

/-! # The ownership model of a world

Each program counter has a role in the ownership protocol; forgetting everything
else turns a world into a state of the abstract model. -/

namespace RemnanodeLite.Xray
open Ownership

/- What a Start is to the lifecycle at each of its program counters. -/
def StartCall.role (s : StartCall) : Role Pid :=
  let owner := Role.owns (.start s.operationEpoch)
  let former := Role.owns (.lost s.operationEpoch)
  match s.pc with
  | .makeLogDir | .beginStart => .idle
  | .readPrevious => owner .unread
  | .ctxBeforeGate | .lockGate | .ctxAfterGate | .probeRunning | .ctxAfterProbe | .checkRestart
  | .completeUnchanged | .ctxAfterUnchanged | .reserveIdentity | .prepareConfig
  | .ctxAfterPrepare | .panelRuntime | .ctxAfterPanelRuntime | .terminatePrevious _
  | .publishPreviousUnclean _ | .restorePrevious _ => owner (.holding s.previousProcess)
  | .ctxAfterTerminate | .runPreStart | .ctxAfterPreStart | .publishCanceled _ | .stageConfig =>
    owner (.drained s.previousProcess)
  | .publishUnstaged => former (.drained s.previousProcess)
  | .releaseGate | .startProcess | .publishSpawnFailed _ => owner (.drained none)
  | .assignProcess p => owner (.detached p)
  | .terminateUnassigned p _ | .retainUnclean p _ => former (.detached p)
  | .publishUnassigned p err => former (if err.isSome then .holding (some p) else .drained none)
  | .waitCheck p | .waitProbe p | .waitReady p | .waitReadyLeader p | .waitSelect p
  | .probeVersion p | .ctxAfterVersion p | .commitRunning p | .terminateNew p _ _ =>
    owner (.holding (some p))
  | .publishNew p _ err =>
    owner (if err.isSome then .holding (some p) else .drained (some p))
  | .deferredUnlock _ | .returned _ => .idle

def StopCall.role (s : StopCall) : Role Pid :=
  match s.pc with
  | .reserve | .waitOnly _ => .idle
  | .cancelStart _ | .lockLifecycle => .waiting
  | .readProcess => .owns .stop .unread
  | .lockGate | .retryOutcome | .retryFinalize _ | .terminate _ | .readOutcome _ =>
    .owns .stop (.holding s.process)
  | .publish succeeded => .owns .stop (if succeeded then .drained s.process else .holding s.process)
  | .deferredUnlock _ | .returned _ => .idle

def Thread.role : Thread → Role Pid
  | .idle => .idle
  | .start s => s.role
  | .stop s => s.role
  | .lease _ => .idle

def World.Unfinalized (w : World) (p : Pid) : Prop :=
  p < w.spawned ∧ (w.procs p).finalized = false

instance (w : World) (p : Pid) : Decidable (w.Unfinalized p) :=
  inferInstanceAs (Decidable (_ ∧ _))

/-- The abstraction: the manager's fields, the processes that are not finalized and
the role of every goroutine. -/
def World.ownership (w : World) : Model Tid Pid where
  state := w.state
  epoch := w.operationEpoch
  startCancel := w.startCancel
  stopOp := w.stopOp
  process := w.process
  owner := w.lifecycleMu
  live := {p | w.Unfinalized p}
  role := fun t => (w.threads t).role

variable {t : Tid} {w : World} {p : Pid}

theorem role_of_start {s : StartCall} (hs : w.threads t = .start s) :
    w.ownership.role t = s.role := by
  simp only [World.ownership, hs, Thread.role]

theorem role_of_stop {s : StopCall} (hs : w.threads t = .stop s) :
    w.ownership.role t = s.role := by
  simp only [World.ownership, hs, Thread.role]

theorem role_start {s : StartCall} {pc : StartPC} (hs : w.threads t = .start s) (hpc : s.pc = pc) :
    w.ownership.role t = StartCall.role { s with pc := pc } := by
  subst hpc
  exact role_of_start hs

theorem role_stop {s : StopCall} {pc : StopPC} (hs : w.threads t = .stop s) (hpc : s.pc = pc) :
    w.ownership.role t = StopCall.role { s with pc := pc } := by
  subst hpc
  exact role_of_stop hs

theorem ownership_setThread (w : World) (t : Tid) (th : Thread) :
    (w.setThread t th).ownership = w.ownership.setRole t th.role := by
  simp only [World.ownership, World.setThread, Model.setRole, World.Unfinalized, Model.mk.injEq, true_and]
  funext u
  by_cases hu : u = t
  · subst hu; simp
  · simp [Function.update_of_ne hu]

theorem ownership_setProc {ps : ProcessState} (h : ps.finalized = (w.procs p).finalized) :
    (w.setProc p ps).ownership = w.ownership := by
  have hlive : ∀ x, (w.setProc p ps).Unfinalized x ↔ w.Unfinalized x := by
    intro x
    by_cases hx : x = p
    · subst hx; simp [World.Unfinalized, World.setProc, h]
    · simp [World.Unfinalized, World.setProc, Function.update_of_ne hx]
  simp [World.ownership, World.setProc] 
  ext x
  exact hlive x

@[simp] theorem ownership_recordSignal (w : World) (sent : Bool) (who : Actor) (p : Pid) :
    (w.recordSignal sent who p).ownership = w.ownership := by
  unfold World.recordSignal
  split_ifs <;> rfl

theorem ownership_spawn (w : World) (processEpoch : ℕ) :
    (w.spawn processEpoch).ownership =
      { w.ownership with live := insert w.spawned w.ownership.live } := by
  have hlive : ∀ x, (w.spawn processEpoch).Unfinalized x ↔ x = w.spawned ∨ w.Unfinalized x := by
    intro x
    by_cases hx : x = w.spawned
    · subst hx
      simp [World.Unfinalized, World.spawn, World.setProc, ProcessState.spawn]
    · simp only [World.Unfinalized, World.spawn, World.setProc, Function.update_of_ne hx, hx,
        false_or, Nat.lt_succ_iff_lt_or_eq, or_false]
  simp only [World.ownership, Model.mk.injEq]
  refine ⟨rfl, rfl, rfl, rfl, rfl, rfl, ?_, rfl⟩
  ext x
  exact hlive x

theorem ownership_setProc_finalized {ps : ProcessState} (h : ps.finalized = true) :
    (w.setProc p ps).ownership = { w.ownership with live := w.ownership.live \ {p} } := by
  have hlive : ∀ x, (w.setProc p ps).Unfinalized x ↔ w.Unfinalized x ∧ x ≠ p := by
    intro x
    by_cases hx : x = p
    · subst hx
      simp [World.Unfinalized, World.setProc, h]
    · simp [World.Unfinalized, World.setProc, hx]
  simp only [World.ownership, Model.mk.injEq]
  refine ⟨rfl, rfl, rfl, rfl, rfl, rfl, ?_, rfl⟩
  ext x
  exact hlive x

theorem not_live_of_finalized (h : (w.procs p).finalized = true) :
    p ∉ w.ownership.live := by
  rintro ⟨-, hf⟩
  rw [h] at hf
  cases hf

end RemnanodeLite.Xray
