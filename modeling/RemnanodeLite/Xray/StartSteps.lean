import RemnanodeLite.Xray.StepLemmas

/-! # Every way a Start can move

The inversion lemma for `startStep` in worlds that satisfy the ownership
invariant. Most steps only move the program counter; the others are listed with
what they change and what is known when they do. -/

namespace RemnanodeLite.Xray
open Ownership

def StartCall.target (s : StartCall) : Option Pid :=
  match s.pc with
  | .terminatePrevious _ => s.previousProcess
  | .terminateUnassigned p _ | .terminateNew p _ _ => some p
  | _ => none

@[simp] def StartPC.releasing : StartPC → Bool
  | .completeUnchanged | .publishPreviousUnclean _ | .restorePrevious _ | .publishCanceled _
  | .publishUnstaged | .publishSpawnFailed _ | .publishUnassigned _ _ | .commitRunning _
  | .publishNew _ _ _ => true
  | _ => false

@[simp] def StartPC.terminating : StartPC → Bool
  | .terminatePrevious _ | .terminateUnassigned _ _ | .terminateNew _ _ _ => true
  | _ => false

@[simp] def StartPC.recording : StartPC → Bool
  | .stageConfig | .startProcess | .assignProcess _ | .retainUnclean _ _ => true
  | _ => false

/- Ownership is given up and `st` published. -/
def World.concluded (w : World) (st : LifecycleState) : World :=
  { w with state := st, startCancel := none, lifecycleMu := none }

inductive StartRecords (w : World) (s : StartCall) : World → StartPC → Prop
  | stage : s.pc = .stageConfig → w.process = s.previousProcess →
      StartRecords w s
        { w with
          process := none, publishedFor := none
          runtime := ⟨some s.prepared.json, 0, .cleared⟩ }
        .releaseGate
  | spawn : s.pc = .startProcess →
      StartRecords w s (w.spawn s.processEpoch) (.assignProcess w.spawned)
  | assign (p : Pid) : s.pc = .assignProcess p → w.operationEpoch = s.operationEpoch →
      w.state = .starting → StartRecords w s { w with process := some p } (.waitCheck p)
  | retain (p : Pid) (err : String) : s.pc = .retainUnclean p err → w.process = none →
      w.state = .stopping →
      StartRecords w s { w with process := some p } (.publishUnassigned p (some err))

inductive StartConcludes (w : World) (s : StartCall) : World → StartResult → Prop
  | handOver (r : StartResult) : s.pc.releasing = true → w.operationEpoch ≠ s.operationEpoch →
      StartConcludes w s { w with lifecycleMu := none } r
  | unchanged (p : Pid) : s.pc = .completeUnchanged → w.operationEpoch = s.operationEpoch →
      w.process = some p → (w.procs p).leaderUnavailable = false →
      StartConcludes w s (w.concluded .running) .unchanged
  | commit (p : Pid) : s.pc = .commitRunning p → w.operationEpoch = s.operationEpoch →
      w.state = .starting → w.process = some p → (w.procs p).leaderUnavailable = false →
      StartConcludes w s
        ({ w.setProc p { w.procs p with published := some s.prepared.hashState } with
            runtime := ⟨none, (w.procs p).epoch, s.prepared.hashState⟩
            publishedFor := some p : World }.concluded .running) .started
  | publishUnclean (r : StartResult) : w.operationEpoch = s.operationEpoch →
      ((∃ e, s.pc = .publishPreviousUnclean e) ∨ ∃ p x e, s.pc = .publishNew p x (some e)) →
      StartConcludes w s (w.concluded .stopping) r
  | publishGone (r : StartResult) : w.operationEpoch = s.operationEpoch →
      ((∃ e, s.pc = .publishCanceled e) ∨ (∃ e, s.pc = .publishSpawnFailed e) ∨
        ∃ p x, s.pc = .publishNew p x none) →
      StartConcludes w s (w.forgetProcess.concluded .stopped) r
  | restore (r : StartResult) : s.pc = .restorePrevious r → w.operationEpoch = s.operationEpoch →
      (s.previous = .running → ∃ p, w.process = some p ∧ (w.procs p).done = false ∧
        (w.procs p).leaderDone = false) →
      StartConcludes w s (w.concluded s.previous) r
  | restoreGone (r : StartResult) : s.pc = .restorePrevious r →
      w.operationEpoch = s.operationEpoch → s.previous = .running →
      (∀ p, w.process = some p → (w.procs p).done = true) →
      StartConcludes w s (w.forgetProcess.concluded .stopped) r
  | restoreExited (r : StartResult) (p : Pid) : s.pc = .restorePrevious r →
      w.operationEpoch = s.operationEpoch → s.previous = .running → w.process = some p →
      (w.procs p).done = false → (w.procs p).leaderDone = true →
      StartConcludes w s (w.clearRuntime.concluded .stopping) r

theorem StartConcludes.releasing {w w' : World} {s : StartCall} {r : StartResult}
    (h : StartConcludes w s w' r) : s.pc.releasing = true := by
  cases h with
  | handOver r hrel => exact hrel
  | publishUnclean r _ hpc => rcases hpc with ⟨e, hpc⟩ | ⟨p, x, e, hpc⟩ <;> simp [hpc]
  | publishGone r _ hpc =>
    rcases hpc with ⟨e, hpc⟩ | ⟨e, hpc⟩ | ⟨p, x, hpc⟩ <;> simp [hpc]
  | unchanged p hpc | commit p hpc | restore r hpc | restoreGone r hpc | restoreExited r p hpc =>
    simp [hpc]

inductive StartView (w : World) (t : Tid) (s : StartCall) : World → StartCall → Prop
  | quiet (s' : StartCall) : s.SameFrame s' → StartView w t s w s'
  | signal (p : Pid) (s' : StartCall) : s.SameFrame s' → s.target = some p →
      (w.procs p).finalized = false → StartView w t s (w.recordSignal true (.thread t) p) s'
  | begin : s.pc = .beginStart → w.state ≠ .starting → w.state ≠ .stopping →
      w.lifecycleMu = none →
      StartView w t s
        { w with
          state := .starting, operationEpoch := w.operationEpoch + 1
          startCancel := some t, lifecycleMu := some t }
        { s with
          pc := .readPrevious, operationEpoch := w.operationEpoch + 1, previous := w.state }
  | read : s.pc = .readPrevious →
      StartView w t s w { s with pc := .ctxBeforeGate, previousProcess := w.process }
  | lock (p : Pid) : s.pc = .lockGate → s.previousProcess = some p →
      (w.procs p).gateWriter = none → (w.procs p).gateReaders = ∅ →
      StartView w t s (w.setProc p { w.procs p with gateWriter := some t })
        { s with pc := .ctxAfterGate, gateHeld := true }
  | unlock (p : Pid) (next : StartPC) : s.gateHeld = true → s.previousProcess = some p →
      s.SameFrame (s.goto next) →
      (s.pc = .releaseGate ∧ next = .startProcess ∨
        ∃ r, s.pc = .deferredUnlock r ∧ next = .returned r) →
      StartView w t s (w.setProc p { w.procs p with gateWriter := none })
        { s with pc := next, gateHeld := false }
  | reserve : s.pc = .reserveIdentity →
      StartView w t s { w with nextProcessEpoch := w.nextProcessEpoch + 1 }
        { s with pc := .prepareConfig, processEpoch := w.nextProcessEpoch + 1 }
  | drainPrevious (pc : TerminatePC) : s.pc = .terminatePrevious pc →
      (∀ p, s.previousProcess = some p → (w.procs p).finalized = true) →
      StartView w t s w (s.goto .ctxAfterTerminate)
  | drainUnassigned (p : Pid) (pc : TerminatePC) : s.pc = .terminateUnassigned p pc →
      (w.procs p).finalized = true → StartView w t s w (s.goto (.publishUnassigned p none))
  | drainNew (p : Pid) (ready : ReadyErr) (pc : TerminatePC) : s.pc = .terminateNew p ready pc →
      (w.procs p).finalized = true → StartView w t s w (s.goto (.publishNew p ready none))
  | lose (next : StartPC) : w.operationEpoch ≠ s.operationEpoch ∨ w.state ≠ .starting →
      (s.pc = .stageConfig ∧ next = .publishUnstaged ∨
        ∃ p, s.pc = .assignProcess p ∧ next = .terminateUnassigned p .exitStatus) →
      StartView w t s w (s.goto next)
  | records (w' : World) (next : StartPC) : StartRecords w s w' next →
      StartView w t s w' (s.goto next)
  | concludes (w' : World) (r : StartResult) : StartConcludes w s w' r →
      StartView w t s w' (s.goto (.deferredUnlock r))

section
variable {w w' : World} {t : Tid} {s s' : StartCall} {ch : Pick}

/- A Start that terminates a process goes on, gives up or has seen the process finalized. -/
theorem terminateIn_view {p : Pid} {pc : TerminatePC} {next : TerminatePC → StartPC}
    {ret : Option String → StartPC}
    (h : (terminateIn w t p ch pc next ret).map (fun (w', pc') => (w', s.goto pc')) =
      some (w', s'))
    (htarget : s.target = some p) (hnext : ∀ pc', s.SameFrame (s.goto (next pc')))
    (hret : ∀ err, s.SameFrame (s.goto (ret (some err))))
    (hdrained : (w.procs p).finalized = true → StartView w t s w (s.goto (ret none))) :
    StartView w t s w' s' := by
  have hsignals : ∀ {w₁ pc'}, Signals w t p w₁ → s.SameFrame (s.goto pc') →
      StartView w t s w₁ (s.goto pc') := by
    rintro w₁ pc' (rfl | ⟨rfl, hfin⟩) hframe
    · exact .quiet _ hframe
    · exact .signal p _ hframe htarget hfin
  obtain ⟨⟨w₁, pc'⟩, hterm, heq⟩ := Option.map_eq_some_iff.mp h
  cases heq
  rcases terminateIn_cases hterm with ⟨tpc, rfl, hsig⟩ | ⟨err, rfl, hsig⟩ | ⟨rfl, rfl, hfin⟩
  · exact hsignals hsig (hnext tpc)
  · exact hsignals hsig (hret err)
  · exact hdrained hfin

theorem completeStart_view {e : LifecycleState} {apply : World → World} {r : StartResult}
    (hrel : s.pc.releasing = true)
    (howned : w.operationEpoch = s.operationEpoch → StartConcludes w s ((apply w).concluded e) r) :
    StartConcludes w s (w.completeStart s.operationEpoch e apply) r := by
  unfold World.completeStart
  split_ifs with he
  · exact howned he
  · exact .handOver r hrel he

theorem forgetProcess_of_none (h : w.process = none) : w.forgetProcess = w.clearRuntime := by
  unfold World.forgetProcess World.clearRuntime
  rw [← h]

theorem restorePrevious_view {r : StartResult} (hpc : s.pc = .restorePrevious r)
    (hproc : w.process = s.previousProcess) :
    StartConcludes w s (w.restorePreviousStart s.operationEpoch s.previous s.previousProcess)
      r := by
  have hrel : s.pc.releasing = true := by simp [hpc]
  unfold World.restorePreviousStart
  split_ifs with he hrun
  · exact .handOver r hrel he
  · rw [ne_eq, not_not] at he
    split
    · next hnone =>
      have hp : w.process = none := hproc.trans hnone
      rw [← forgetProcess_of_none hp]
      exact .restoreGone r hpc he hrun (by simp [hp])
    · next p hp =>
      have hcur : w.process = some p := hproc.trans hp
      rw [if_neg (not_not.mpr hcur)]
      by_cases hd : (w.procs p).done = true
      · rw [if_pos hd]
        refine .restoreGone r hpc he hrun ?_
        intro x hx
        rw [hcur] at hx
        cases hx
        exact hd
      · rw [if_neg hd]
        have hd' : (w.procs p).done = false := by simpa using hd
        by_cases hl : (w.procs p).leaderDone = true
        · rw [if_pos hl]
          exact .restoreExited r p hpc he hrun hcur hd' hl
        · rw [if_neg hl]
          exact .restore r hpc he fun _ => ⟨p, hcur, hd', by simpa using hl⟩
  · exact .restore r hpc (not_not.mp he) fun hrun' => absurd hrun' hrun

theorem releasePreviousGate_view {next : StartPC}
    (h : startStep.releasePreviousGate w s next = (w', s'))
    (hframe : s.SameFrame (s.goto next))
    (hpc : s.pc = .releaseGate ∧ next = .startProcess ∨
      ∃ r, s.pc = .deferredUnlock r ∧ next = .returned r) : StartView w t s w' s' := by
  unfold startStep.releasePreviousGate at h
  split at h
  · next p hheld hp =>
    cases h
    exact .unlock p next hheld hp hframe hpc
  · cases h
    exact .quiet _ hframe

theorem beginStart_view (hpc : s.pc = .beginStart) (h : startStep w t s ch = some (w', s')) :
    StartView w t s w' s' := by
  simp only [startStep, hpc] at h
  split at h
  · cases h
    exact .quiet _ (by apply sameFrame_goto <;> simp [StartCall.role, StartCall.goto, hpc])
  · next w₁ hw₁ =>
    cases h
    unfold World.beginStart at hw₁
    split_ifs at hw₁ with h1 h2 h3
    cases hw₁
    rw [not_or] at h1
    exact .begin hpc h1.1 h1.2 (not_not.mp h3)

theorem lockGate_view (hpc : s.pc = .lockGate) (h : startStep w t s ch = some (w', s')) :
    StartView w t s w' s' := by
  simp only [startStep, hpc] at h
  split at h
  · next hnone =>
    cases h
    exact .quiet _ (by apply sameFrame_goto <;>
      simp [StartCall.role, StartCall.goto, hpc, hnone])
  · next p hp =>
    split_ifs at h with hgate
    cases h
    exact .lock p hpc hp hgate.1 hgate.2

theorem terminating_view (hterm : s.pc.terminating = true)
    (h : startStep w t s ch = some (w', s')) : StartView w t s w' s' := by
  cases hpc : s.pc with
  | terminatePrevious pc =>
    simp only [startStep, hpc] at h
    split at h
    · next hnone =>
      cases h
      exact .drainPrevious pc hpc (by simp [hnone])
    · next p hp =>
      refine terminateIn_view h (by simp only [StartCall.target, hpc, hp]) ?_ ?_ ?_
      · intro pc'
        apply sameFrame_goto <;> simp [StartCall.role, StartCall.goto, hpc]
      · intro err
        apply sameFrame_goto <;> simp [StartCall.role, StartCall.goto, hpc]
      · intro hfin
        exact .drainPrevious pc hpc (by simpa [hp] using hfin)
  | terminateUnassigned p pc =>
    simp only [startStep, hpc] at h
    refine terminateIn_view h (by simp only [StartCall.target, hpc]) ?_ ?_
      (.drainUnassigned p pc hpc)
    · intro pc'
      apply sameFrame_goto <;> simp [StartCall.role, StartCall.goto, hpc]
    · intro err
      apply sameFrame_goto <;> simp [StartCall.role, StartCall.goto, hpc]
  | terminateNew p ready pc =>
    simp only [startStep, hpc] at h
    refine terminateIn_view h (by simp only [StartCall.target, hpc]) ?_ ?_
      (.drainNew p ready pc hpc)
    · intro pc'
      apply sameFrame_goto <;> simp [StartCall.role, StartCall.goto, hpc]
    · intro err
      apply sameFrame_goto <;> simp [StartCall.role, StartCall.goto, hpc]
  | _ => simp [hpc] at hterm

theorem completeUnchanged_view (hpc : s.pc = .completeUnchanged)
    (h : startStep w t s ch = some (w', s')) : StartView w t s w' s' := by
  have hback : s.SameFrame (s.goto .ctxAfterUnchanged) := by
    apply sameFrame_goto <;> simp [StartCall.role, StartCall.goto, hpc]
  simp only [startStep, hpc, World.completeUnchangedStart] at h
  split_ifs at h with he
  · cases h
    exact .concludes _ _ (.handOver _ (by simp [hpc]) he)
  · cases hp : w.process with
    | none =>
      simp only [hp] at h
      cases h
      exact .quiet _ hback
    | some p =>
      simp only [hp] at h
      split_ifs at h with hun
      · cases h
        exact .quiet _ hback
      · cases h
        have hview : StartConcludes w s (w.concluded .running) .unchanged :=
          .unchanged p hpc (not_not.mp he) hp (by simpa using hun)
        exact .concludes _ _ (by simpa only [World.concluded, hp] using hview)

theorem commitRunning_view {p : Pid} (hinv : w.ownership.Inv) (hs : w.threads t = .start s)
    (hpc : s.pc = .commitRunning p) (h : startStep w t s ch = some (w', s')) :
    StartView w t s w' s' := by
  have hr : w.ownership.role t = .owns (.start s.operationEpoch) (.holding (some p)) :=
    role_start hs hpc
  have hback : ∀ x, s.SameFrame (s.goto (.terminateNew p x .exitStatus)) := by
    intro x
    apply sameFrame_goto <;> simp [StartCall.role, StartCall.goto, hpc]
  simp only [startStep, hpc, World.commitRunningStart] at h
  split_ifs at h with he hproc hun
  · cases h
    have hne : w.operationEpoch ≠ s.operationEpoch := by
      rcases hinv.start t _ _ hr with hh | hl
      · exact he.resolve_right (not_not.mpr hh.1)
      · exact hl.2.2.ne'
    exact .concludes _ _ (.handOver _ (by simp [hpc]) hne)
  · cases h
    exact .quiet _ (hback _)
  · cases h
    exact .quiet _ (hback _)
  · cases h
    rw [not_or, not_not, not_not] at he
    exact .concludes _ _ (.commit p hpc he.1 he.2 (not_not.mp hproc) (by simpa using hun))

/- The steps that give up the lifecycle. Two of them come only after it was lost, so the
epoch has moved on. -/
theorem releasing_view (hinv : w.ownership.Inv) (hs : w.threads t = .start s)
    (hrel : s.pc.releasing = true) (h : startStep w t s ch = some (w', s')) :
    StartView w t s w' s' := by
  cases hpc : s.pc with
  | completeUnchanged => exact completeUnchanged_view hpc h
  | commitRunning p => exact commitRunning_view hinv hs hpc h
  | restorePrevious result =>
    have hr : w.ownership.role t = .owns (.start s.operationEpoch) (.holding s.previousProcess) :=
      role_start hs hpc
    simp only [startStep, hpc, Option.some.injEq, Prod.mk.injEq] at h
    obtain ⟨rfl, rfl⟩ := h
    exact .concludes _ _ (restorePrevious_view hpc (hinv.phase t _ _ hr).1)
  | publishPreviousUnclean err =>
    simp only [startStep, hpc, Option.some.injEq, Prod.mk.injEq] at h
    obtain ⟨rfl, rfl⟩ := h
    exact .concludes _ _ (completeStart_view hrel fun he => .publishUnclean _ he (.inl ⟨err, hpc⟩))
  | publishCanceled err =>
    simp only [startStep, hpc, Option.some.injEq, Prod.mk.injEq] at h
    obtain ⟨rfl, rfl⟩ := h
    exact .concludes _ _ (completeStart_view hrel fun he => .publishGone _ he (.inl ⟨err, hpc⟩))
  | publishSpawnFailed err =>
    have hr : w.ownership.role t = .owns (.start s.operationEpoch) (.drained none) :=
      role_start hs hpc
    have hproc : w.process = none := (hinv.phase t _ _ hr).1
    simp only [startStep, hpc, Option.some.injEq, Prod.mk.injEq] at h
    obtain ⟨rfl, rfl⟩ := h
    refine .concludes _ _ (completeStart_view hrel fun he => ?_)
    rw [← forgetProcess_of_none hproc]
    exact .publishGone _ he (.inr (.inl ⟨err, hpc⟩))
  | publishUnstaged | publishUnassigned p err =>
    obtain ⟨ph, hr⟩ : ∃ ph, w.ownership.role t = .owns (.lost s.operationEpoch) ph :=
      ⟨_, role_start hs hpc⟩
    simp only [startStep, hpc, Option.some.injEq, Prod.mk.injEq] at h
    obtain ⟨rfl, rfl⟩ := h
    exact .concludes _ _ (completeStart_view hrel fun he => absurd he (hinv.lost t _ _ hr).2.2.ne')
  | publishNew p ready err =>
    simp only [startStep, hpc, Option.some.injEq, Prod.mk.injEq] at h
    obtain ⟨rfl, rfl⟩ := h
    refine .concludes _ _ (completeStart_view hrel fun he => ?_)
    cases err with
    | some err => exact .publishUnclean _ he (.inr ⟨p, ready, err, hpc⟩)
    | none => exact .publishGone _ he (.inr (.inr ⟨p, ready, hpc⟩))
  | _ => simp [hpc] at hrel

theorem recording_view (hinv : w.ownership.Inv) (hs : w.threads t = .start s)
    (hrec : s.pc.recording = true) (h : startStep w t s ch = some (w', s')) :
    StartView w t s w' s' := by
  cases hpc : s.pc with
  | stageConfig =>
    have hr : w.ownership.role t = .owns (.start s.operationEpoch) (.drained s.previousProcess) :=
      role_start hs hpc
    have hproc : w.process = s.previousProcess := (hinv.phase t _ _ hr).1
    simp only [startStep, hpc, World.stagePendingConfig] at h
    split_ifs at h with he
    · cases h
      exact .lose _ he (.inl ⟨hpc, rfl⟩)
    · cases h
      exact .records _ _ (.stage hpc hproc)
  | startProcess =>
    simp only [startStep, hpc] at h
    split_ifs at h
    · cases h
      exact .records _ _ (.spawn hpc)
    · cases h
      exact .quiet _ (by apply sameFrame_goto <;> simp [StartCall.role, StartCall.goto, hpc])
  | assignProcess p =>
    simp only [startStep, hpc, World.assignProcess] at h
    split_ifs at h with he
    · cases h
      exact .lose _ he (.inr ⟨p, hpc, rfl⟩)
    · cases h
      rw [not_or, not_not, not_not] at he
      exact .records _ _ (.assign p hpc he.1 he.2)
  | retainUnclean p err =>
    have hr : w.ownership.role t = .owns (.lost s.operationEpoch) (.detached p) :=
      role_start hs hpc
    have hproc : w.process = none := (hinv.phase t _ _ hr).1
    have hst : w.state = .stopping := (hinv.lost t _ _ hr).1
    simp only [startStep, hpc, Option.some.injEq, Prod.mk.injEq] at h
    obtain ⟨rfl, rfl⟩ := h
    have hview : StartRecords w s { w with process := some p } (.publishUnassigned p (some err)) :=
      .retain p err hpc hproc hst
    exact .records _ _ (by simpa only [World.retainUncleanProcess, hproc, hst, if_true] using hview)
  | _ => simp [hpc] at hrec

theorem startStep_view (hinv : w.ownership.Inv) (hs : w.threads t = .start s)
    (h : startStep w t s ch = some (w', s')) : StartView w t s w' s' := by
  by_cases hq : s.pc.quiet = true
  · obtain ⟨rfl, hframe⟩ := startStep_quiet hq h
    exact .quiet _ hframe
  by_cases hterm : s.pc.terminating = true
  · exact terminating_view hterm h
  by_cases hrel : s.pc.releasing = true
  · exact releasing_view hinv hs hrel h
  by_cases hrec : s.pc.recording = true
  · exact recording_view hinv hs hrec h
  cases hpc : s.pc with
  | beginStart => exact beginStart_view hpc h
  | readPrevious =>
    simp only [startStep, hpc, Option.some.injEq, Prod.mk.injEq] at h
    obtain ⟨rfl, rfl⟩ := h
    exact .read hpc
  | lockGate => exact lockGate_view hpc h
  | reserveIdentity =>
    simp only [startStep, hpc, World.reserveProcessIdentity] at h
    split_ifs at h
    · cases h
      exact .quiet _ (by apply sameFrame_goto <;> simp [StartCall.role, StartCall.goto, hpc])
    · cases h
      exact .reserve hpc
  | releaseGate =>
    simp only [startStep, hpc, Option.some.injEq] at h
    refine releasePreviousGate_view h ?_ (.inl ⟨hpc, rfl⟩)
    apply sameFrame_goto <;> simp [StartCall.role, StartCall.goto, hpc]
  | deferredUnlock result =>
    simp only [startStep, hpc, Option.some.injEq] at h
    refine releasePreviousGate_view h ?_ (.inr ⟨result, hpc, rfl⟩)
    apply sameFrame_goto <;> simp [StartCall.role, StartCall.goto, hpc]
  | returned result =>
    simp only [startStep, hpc] at h
    cases h
  | _ => simp [hpc] at hq hterm hrel hrec

end

end RemnanodeLite.Xray
