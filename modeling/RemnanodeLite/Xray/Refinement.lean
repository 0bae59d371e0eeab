import RemnanodeLite.Lib.Transition
import RemnanodeLite.Xray.Finalization

/-! # The code refines the ownership model

Every step of Start, Stop, a monitor or a lease is a step of the abstract model
or is invisible to it. -/

namespace RemnanodeLite.Xray
open Ownership

def Moves (a b : Model Tid Pid) : Prop := b = a ∨ a.Step b

section Moves
variable {w w₁ : World} {t : Tid} {th : Thread} {k : Kind} {e : ℕ} {ph : Phase Pid}

theorem same_step (hw₁ : w₁.ownership = w.ownership) (hth : th.role = (w.threads t).role) :
    Moves w.ownership (w₁.setThread t th).ownership := by
  left
  rw [ownership_setThread, hw₁, hth]
  simp only [Model.setRole, World.ownership, Function.update_eq_self]

theorem handOver_step (hr : w.ownership.role t = .owns k ph) (hk : k = .start e ∨ k = .lost e)
    (hset : ph.Settled) (hne : w.operationEpoch ≠ e) (hth : th.role = .idle)
    (hw₁ : w₁.ownership = { w.ownership with owner := none }) :
    Moves w.ownership (w₁.setThread t th).ownership := by
  right
  rw [ownership_setThread, hw₁, hth]
  exact .handOver t k e ph hr hset hk hne

theorem finish_step (hr : w.ownership.role t = .owns (.start e) ph) (hset : ph.Settled)
    (he : w.operationEpoch = e) (hth : th.role = .idle) (st : LifecycleState) (q : Option Pid)
    (hst : st ≠ .starting) (hc : Covers w.ownership.live q)
    (hw₁ : w₁.ownership =
      { w.ownership with state := st, process := q, owner := none, startCancel := none }) :
    Moves w.ownership (w₁.setThread t th).ownership := by
  right
  rw [ownership_setThread, hw₁, hth]
  exact .finish t e ph st q hr he hset hst hc

theorem moves_setThread (hmove : Moves w.ownership w₁.ownership)
    (hrole : th.role = w₁.ownership.role t) :
    Moves w.ownership (w₁.setThread t th).ownership := by
  have heq : (w₁.setThread t th).ownership = w₁.ownership := by
    rw [ownership_setThread, hrole]
    simp only [Model.setRole, Function.update_eq_self]
  rw [heq]
  exact hmove

theorem finalizeStep_moves {p : Pid} {ps ps' : ProcessState} {who : Actor} {ch : Pick}
    {pc : FinalizePC} {sent : Bool} {r : Progress FinalizePC}
    (h : finalizeStep (w.procs p) who ch pc = some (ps, sent, r))
    (hps : ps'.finalized = ps.finalized) : Moves w.ownership (w.setProc p ps').ownership := by
  rcases finalizeStep_finalized h with ⟨hsame, -⟩ | ⟨-, hfin, -⟩
  · exact .inl (ownership_setProc (hps.trans hsame))
  · right
    rw [ownership_setProc_finalized (hps.trans hfin)]
    exact .finalize p

end Moves

/-! ### Start -/

theorem role_of_releasing {s : StartCall} (h : s.pc.releasing = true) :
    ∃ k ph, s.role = .owns k ph ∧ ph.Settled ∧
      (k = .start s.operationEpoch ∨ k = .lost s.operationEpoch) := by
  cases hpc : s.pc with
  | completeUnchanged | publishPreviousUnclean err | restorePrevious r | publishCanceled err
  | publishSpawnFailed err | commitRunning p =>
    simp only [StartCall.role, hpc]
    exact ⟨_, _, rfl, trivial, .inl rfl⟩
  | publishUnstaged =>
    simp only [StartCall.role, hpc]
    exact ⟨_, _, rfl, trivial, .inr rfl⟩
  | publishUnassigned p err =>
    simp only [StartCall.role, hpc]
    exact ⟨_, _, rfl, by split_ifs <;> trivial, .inr rfl⟩
  | publishNew p ready err =>
    simp only [StartCall.role, hpc]
    exact ⟨_, _, rfl, by split_ifs <;> trivial, .inl rfl⟩
  | _ => simp [hpc] at h

section
variable {w w' : World} {t : Tid} {s s' : StartCall}

theorem role_publishUnclean (hs : w.threads t = .start s)
    (hpc : (∃ e, s.pc = .publishPreviousUnclean e) ∨ ∃ p x e, s.pc = .publishNew p x (some e)) :
    ∃ q, w.ownership.role t = .owns (.start s.operationEpoch) (.holding q) := by
  rcases hpc with ⟨e, hpc⟩ | ⟨p, x, e, hpc⟩ <;> rw [role_of_start hs] <;>
    simp [StartCall.role, hpc]

theorem role_publishGone (hs : w.threads t = .start s)
    (hpc : (∃ e, s.pc = .publishCanceled e) ∨ (∃ e, s.pc = .publishSpawnFailed e) ∨
      ∃ p x, s.pc = .publishNew p x none) :
    ∃ q, w.ownership.role t = .owns (.start s.operationEpoch) (.drained q) := by
  rcases hpc with ⟨e, hpc⟩ | ⟨e, hpc⟩ | ⟨p, x, hpc⟩ <;> rw [role_of_start hs] <;>
    simp [StartCall.role, hpc]

theorem startRecords_moves {next : StartPC} (hs : w.threads t = .start s)
    (h : StartRecords w s w' next) :
    Moves w.ownership (w'.setThread t (.start (s.goto next))).ownership := by
  right
  rw [ownership_setThread]
  cases h with
  | stage hpc => exact .stage t _ s.previousProcess (role_start hs hpc)
  | spawn hpc =>
    rw [ownership_spawn]
    exact .spawn t _ w.spawned (role_start hs hpc)
  | assign p hpc => exact .assign t _ p (role_start hs hpc)
  | retain p err hpc hproc hst =>
    have hstep : w.ownership.Step _ := .retain t s.operationEpoch p (role_start hs hpc)
    rw [← show w.ownership.state = .stopping from hst] at hstep
    exact hstep

theorem startConcludes_moves {r : StartResult} (hinv : w.ownership.Inv) (hok : w.FinalOk)
    (hs : w.threads t = .start s) (h : StartConcludes w s w' r) :
    Moves w.ownership (w'.setThread t (.start (s.goto (.deferredUnlock r)))).ownership := by
  cases h with
  | handOver r hrel hne =>
    obtain ⟨k, ph, hr, hset, hk⟩ := role_of_releasing hrel
    exact handOver_step ((role_of_start hs).trans hr) hk hset hne rfl rfl
  | unchanged p hpc he hp =>
    have hr := role_start hs hpc
    exact finish_step hr trivial he rfl .running w.process (by simp) (hinv.covers hr trivial) rfl
  | commit p hpc he =>
    have hr := role_start hs hpc
    refine finish_step hr trivial he rfl .running w.process (by simp) (hinv.covers hr trivial) ?_
    have hset : (w.setProc p { w.procs p with
        published := some s.prepared.hashState }).ownership = w.ownership := ownership_setProc rfl
    exact congrArg (fun a : Model Tid Pid =>
      { a with state := .running, owner := none, startCancel := none }) hset
  | publishUnclean r he hpc =>
    obtain ⟨q, hr⟩ := role_publishUnclean hs hpc
    exact finish_step hr trivial he rfl .stopping w.process (by simp) (hinv.covers hr trivial) rfl
  | publishGone r he hpc =>
    obtain ⟨q, hr⟩ := role_publishGone hs hpc
    refine finish_step hr trivial he rfl .stopped none (by simp) ?_ rfl
    intro x hx
    rw [show w.ownership.live = ∅ from (hinv.phase t _ _ hr).2] at hx
    exact hx.elim
  | restore r hpc he =>
    have hr := role_start hs hpc
    have hprev : s.previous ≠ .starting := by
      rcases hok.previous t s hs with hprev | hprev <;> simp [hprev]
    exact finish_step hr trivial he rfl s.previous w.process hprev (hinv.covers hr trivial) rfl
  | restoreGone r hpc he _ hdone =>
    have hr := role_start hs hpc
    refine finish_step hr trivial he rfl .stopped none (by simp) ?_ rfl
    -- whatever lives is the current process, and that one has closed `done`
    intro x hx
    have hdone' := hdone x (hinv.covers hr trivial x hx)
    exact absurd hx (not_live_of_finalized ((hok.procs x).done hdone'))
  | restoreExited r p hpc he =>
    have hr := role_start hs hpc
    exact finish_step hr trivial he rfl .stopping w.process (by simp) (hinv.covers hr trivial) rfl

theorem startView_moves (hinv : w.ownership.Inv) (hok : w.FinalOk) (hs : w.threads t = .start s)
    (h : StartView w t s w' s') : Moves w.ownership (w'.setThread t (.start s')).ownership := by
  have hth : (w.threads t).role = s.role := by rw [hs]; rfl
  cases h with
  | quiet s' hframe => exact same_step rfl (hframe.role.trans hth.symm)
  | signal p s' hframe =>
    exact same_step (ownership_recordSignal ..) (hframe.role.trans hth.symm)
  | begin hpc h1 h2 hfree =>
    right
    rw [ownership_setThread]
    exact .begin t (role_start hs hpc) hfree h1 h2
  | read hpc =>
    right
    rw [ownership_setThread]
    exact .read t _ (role_start hs hpc)
  | lock p hpc =>
    refine same_step (ownership_setProc rfl) ?_
    rw [hth]
    simp only [Thread.role, StartCall.role, hpc]
  | unlock p next _ _ hframe =>
    exact same_step (ownership_setProc rfl) (Eq.trans hframe.role hth.symm)
  | reserve hpc =>
    refine same_step ?_ ?_
    · rfl
    · rw [hth]
      simp only [Thread.role, StartCall.role, hpc]
  | drainPrevious pc hpc hfin =>
    right
    rw [ownership_setThread]
    exact .drain t _ s.previousProcess (role_start hs hpc)
      fun p hp => not_live_of_finalized (hfin p hp)
  | drainUnassigned p pc hpc hfin =>
    right
    rw [ownership_setThread]
    exact .drainDetached t _ p (role_start hs hpc)
      (not_live_of_finalized hfin)
  | drainNew p ready pc hpc hfin =>
    right
    rw [ownership_setThread]
    refine .drain t _ (some p) (role_start hs hpc) ?_
    rintro x hx
    cases hx
    exact not_live_of_finalized hfin
  | lose next hlost hnext =>
    right
    rw [ownership_setThread]
    rcases hnext with ⟨hpc, rfl⟩ | ⟨p, hpc, rfl⟩
    · exact .lose t _ (.drained s.previousProcess) (role_start hs hpc) hlost
    · exact .lose t _ (.detached p) (role_start hs hpc) hlost
  | records w' next hrec => exact startRecords_moves hs hrec
  | concludes w' r hcon => exact startConcludes_moves hinv hok hs hcon

end

/-! ### Stop -/

theorem ownership_cancelStart (w : World) (target : Option Tid) :
    ((target.map w.cancelStart).getD w).ownership = w.ownership := by
  obtain ⟨threads, heq, hkept⟩ := cancel_kept w target
  have hroles : (fun t => (threads t).role) = fun t => (w.threads t).role := by
    funext u
    rcases hkept u with hu | ⟨s, c, hs, hu⟩
    · exact congrArg Thread.role hu
    · exact (congrArg Thread.role hu).trans (congrArg Thread.role hs).symm
  rw [heq]
  simp only [World.ownership, hroles]
  rfl

variable {t : Tid} {w w' : World}

theorem stopView_moves {s s' : StopCall} (hinv : w.ownership.Inv) (hs : w.threads t = .stop s)
    (h : StopView w t s w' s') :
    Moves w.ownership (w'.setThread t (.stop s')).ownership := by
  have hth : (w.threads t).role = s.role := by rw [hs]; rfl
  cases h with
  | quiet s' hframe => exact same_step rfl (hframe.role.trans hth.symm)
  | signal p s' hframe =>
    exact same_step (ownership_recordSignal ..) (hframe.role.trans hth.symm)
  | reserveWait retry hpc hop ho =>
    right
    rw [ownership_setThread]
    exact .reserveWait t (role_stop hs hpc) hop ho
  | reserveOwn retry hpc hop ho =>
    right
    rw [ownership_setThread]
    exact .reserveOwn t (role_stop hs hpc) hop ho
  | cancel target hpc =>
    refine same_step (ownership_cancelStart w target) ?_
    rw [hth]
    simp only [Thread.role, StopCall.role, hpc]
  | acquire hpc ho =>
    right
    rw [ownership_setThread]
    exact .acquire t (role_stop hs hpc) ho
  | read hpc =>
    right
    rw [ownership_setThread]
    exact .read t _ (role_stop hs hpc)
  | lock p next hpc _ hnext =>
    refine same_step (ownership_setProc rfl) ?_
    rw [hth]
    rcases hnext with rfl | rfl <;> simp only [Thread.role, StopCall.role, hpc]
  | unlock p b hpc =>
    refine same_step (ownership_setProc rfl) ?_
    rw [hth]
    simp only [Thread.role, StopCall.role, hpc]
  | finalize p pc ch ps sent r next hpc hp hfin hnext =>
    refine moves_setThread ?_ ?_
    · rw [ownership_recordSignal]
      exact finalizeStep_moves hfin rfl
    · rw [ownership_recordSignal]
      change (Thread.stop _).role = (w.threads t).role
      rw [hth]
      rcases hnext with ⟨pc', -, rfl⟩ | ⟨err, -, rfl⟩ <;>
        simp only [Thread.role, StopCall.role, hpc]
  | outcome err hpc =>
    have hr : w.ownership.role t = .owns .stop (.holding s.process) := role_stop hs hpc
    cases hout : w.stopSucceeded s.process with
    | false =>
      refine same_step rfl ?_
      rw [hth]
      simp [Thread.role, StopCall.role, hpc]
    | true =>
      right
      rw [ownership_setThread]
      refine .drain t _ s.process hr ?_
      intro p hp
      simp only [World.stopSucceeded, hp, Bool.and_eq_true] at hout
      exact not_live_of_finalized hout.1
  | publishStopped hpc hproc =>
    have hr : w.ownership.role t = .owns .stop (.drained s.process) := role_stop hs hpc
    right
    rw [ownership_setThread]
    refine .publishStop t _ .stopped none hr trivial (by simp) ?_
    rw [(hinv.phase t _ _ hr).2]
    exact fun x hx => hx.elim
  | publishStopping hpc =>
    have hr : w.ownership.role t = .owns .stop (.holding s.process) := role_stop hs hpc
    right
    rw [ownership_setThread]
    exact .publishStop t _ .stopping w.process hr trivial (by simp) (hinv.covers hr trivial)

/-! ### Monitors, leases and the whole system -/

theorem callback_free (hinv : w.ownership.Inv)
    (hst : w.state = .running ∨ w.state = .stopping ∧ w.stopOp = none) :
    w.lifecycleMu = none ∧ w.stopOp = none := by
  have hns : w.ownership.state ≠ .starting := by
    rcases hst with hst | ⟨hst, -⟩ <;> simp [World.ownership, hst]
  have hop : w.stopOp = none := by
    rcases hst with hst | ⟨-, hop⟩
    · by_contra hop
      have hstop : w.state = .stopping := hinv.stopping hop
      rw [hst] at hstop
      cases hstop
    · exact hop
  exact ⟨hinv.owner_eq_none hns hop, hop⟩

theorem no_owner (hinv : w.ownership.Inv) (hfree : w.lifecycleMu = none) {s : StartCall}
    (hs : w.threads t = .start s) (k : Kind) (ph : Phase Pid) : s.role ≠ .owns k ph := by
  intro hrole
  have hr : w.ownership.role t = .owns k ph := by
    simp only [World.ownership, hs, Thread.role, hrole]
  have howner : w.lifecycleMu = some t := hinv.owner_of_role t k ph hr
  rw [hfree] at howner
  cases howner

theorem monitorCallback_moves {p : Pid} {outcome : ProcessOutcome} (hinv : w.ownership.Inv)
    (hfin : outcome.finalized = true → (w.procs p).finalized = true) :
    Moves w.ownership (w.monitorCallback p outcome).ownership := by
  rcases monitorCallback_cases w p outcome with ⟨-, heq⟩ | ⟨hp, hst, hres⟩
  · rw [heq]
    exact .inl rfl
  obtain ⟨hfree, hop⟩ := callback_free hinv hst
  right
  rcases hres with ⟨hf, heq⟩ | ⟨-, heq⟩
  · rw [heq]
    refine .callback .stopped none hfree hop (by simp) ?_
    intro x hx
    have hxp := hinv.free hfree x hx
    rw [show w.ownership.process = some p from hp] at hxp
    cases hxp
    exact absurd hx (not_live_of_finalized (hfin hf))
  · rw [heq]
    exact .callback .stopping w.process hfree hop (by simp) (hinv.free hfree)

theorem monitorView_moves {p : Pid} (hinv : w.ownership.Inv) (hok : (w.procs p).FinalOk)
    (h : MonitorView w p w') : Moves w.ownership w'.ownership := by
  cases h with
  | observe ps hobs => exact .inl (ownership_setProc hobs.finalized)
  | finalize pc ch ps sent r next _ hfin =>
    rw [ownership_recordSignal]
    exact finalizeStep_moves hfin rfl
  | readOutcome => exact .inl (ownership_setProc rfl)
  | callback o hpc =>
    rw [ownership_setProc]
    · exact monitorCallback_moves hinv (hok.callback o hpc)
    · rw [(monitorCallback_shared w p o).1]

theorem leaseView_ownership {l l' : LeaseCall} (h : LeaseView w t l w' l') :
    w'.ownership = w.ownership := by
  cases h with
  | quiet l' => rfl
  | begin p => rfl
  | enter p => exact ownership_setProc rfl
  | leave p l' => exact ownership_setProc rfl

theorem commitUser_ownership (w : World) (active : Bool) (p : Pid) (u : UserCommit) :
    (w.commitUser active p u).1.ownership = w.ownership := by
  rcases commitUser_cases w active p u with heq | ⟨-, heq⟩ <;> rw [heq]
  have hset : (w.setProc p { w.procs p with
      commits := (w.procs p).commits ++ [u] }).ownership = w.ownership := ownership_setProc rfl
  exact hset

/-- One step of the system is one step of the ownership model, or none. -/
theorem step_moves {e : Event} (hinv : w.ownership.Inv) (hok : w.FinalOk) (h : step w e = some w') :
    Moves w.ownership w'.ownership := by
  cases step_view h with
  | callStart t req ht => exact same_step rfl (by rw [ht]; rfl)
  | callStop t ht => exact same_step rfl (by rw [ht]; rfl)
  | callLease t ht => exact same_step rfl (by rw [ht]; rfl)
  | endStart t s err c ht => exact same_step rfl (by rw [ht]; rfl)
  | endLease t l err c ht => exact same_step rfl (by rw [ht]; rfl)
  | start t ch s s' w₁ ht hstep => exact startView_moves hinv hok ht (startStep_view hinv ht hstep)
  | stop t ch s s' w₁ ht hstep => exact stopView_moves hinv ht (stopStep_view hinv ht hstep)
  | lease t ch l l' w₁ ht hstep =>
    exact same_step (leaseView_ownership (leaseStep_view hstep)) (by rw [ht]; rfl)
  | monitor p ch _ hp hstep => exact monitorView_moves hinv (hok.procs p) (monitorStep_view hstep)
  | commit t u l p active ht htok => exact .inl (commitUser_ownership w active p u)

/-! ### Reachable worlds -/

theorem inv_initial (disableHashCheck : Bool) :
    (World.initial disableHashCheck).ownership.Inv := by
  have hrole : ∀ t k ph, (World.initial disableHashCheck).ownership.role t ≠ .owns k ph := by
    intro t k ph h
    cases h
  refine ⟨fun t k ph h => absurd h (hrole t k ph), ?_, fun t k ph h => absurd h (hrole t k ph),
    ?_, fun t e ph h => absurd h (hrole t _ ph), fun t e ph h => absurd h (hrole t _ ph),
    ?_, ?_, ?_, ?_⟩
  · intro t h
    cases h
  · rintro _ x ⟨hx, -⟩
    exact absurd hx (Nat.not_lt_zero x)
  · rintro t (h | ⟨ph, h⟩)
    · cases h
    · exact absurd h (hrole t _ ph)
  · intro t h
    cases h
  · intro h
    exact absurd rfl h
  · intro h
    cases h

/- The worlds that interleavings of Start, Stop, monitors and leases can reach. -/
abbrev Reachable (disableHashCheck : Bool) (w : World) : Prop :=
  Transition.Reach step (World.initial disableHashCheck) w

theorem reachable_inv {disableHashCheck : Bool} (h : Reachable disableHashCheck w) :
    w.ownership.Inv ∧ w.FinalOk := by
  refine h.invariant (fun w => w.ownership.Inv ∧ w.FinalOk)
    ⟨inv_initial disableHashCheck, finalOk_initial disableHashCheck⟩ ?_
  rintro a e b ⟨hinv, hok⟩ - hstep
  refine ⟨?_, step_finalOk hinv hok hstep⟩
  rcases step_moves hinv hok hstep with heq | hmove
  · rw [heq]
    exact hinv
  · exact hmove.inv hinv

/-- The lifecycle code refines the ownership model: what a run has reached is a state of
the model, and each further step of the code is one step of the model or none. -/
theorem reachable_ownership {disableHashCheck : Bool} {w : World}
    (h : Reachable disableHashCheck w) :
    Relation.ReflTransGen Model.Step (World.initial disableHashCheck).ownership w.ownership ∧
      ∀ e w', step w e = some w' → Moves w.ownership w'.ownership := by
  have hmoves : ∀ {a e b}, a.ownership.Inv ∧ a.FinalOk → step a e = some b →
      Moves a.ownership b.ownership := fun ha hstep => step_moves ha.1 ha.2 hstep
  refine ⟨?_, fun e w' hstep => hmoves (reachable_inv h) hstep⟩
  exact h.simulate World.ownership Model.Step (fun w => w.ownership.Inv ∧ w.FinalOk)
    (fun a ha => reachable_inv ha) fun a e b ha hstep => hmoves ha hstep

/- A step in which every call succeeds and no timer fires. -/
def succeed : Pick := ⟨true, false, 3, false, "", none, ⟨"config", .cleared⟩⟩

def startUntilSpawn (t : Tid) : List Event :=
  .callStart t ⟨false, ⟨"", []⟩⟩ :: List.replicate 19 (.thread t succeed)

theorem startUntilSpawn_runs :
    (Transition.run step (World.initial false) (startUntilSpawn 0)).isSome = true := by
  decide

/-- The refinement at a world in which a core has just been spawned and its Start
assigns it. -/
theorem reachable_ownership_spawned : ∃ w w' : World, w.spawned = 1 ∧
    step w (.thread 0 succeed) = some w' ∧ w'.process = some 0 ∧
      Relation.ReflTransGen Model.Step (World.initial false).ownership w.ownership ∧
      Moves w.ownership w'.ownership := by
  have hrun := Transition.run_reach _ (Option.some_get startUntilSpawn_runs).symm
  obtain ⟨hsteps, hmoves⟩ := reachable_ownership hrun
  exact ⟨_, _, by decide, rfl, by decide, hsteps, hmoves (.thread 0 succeed) _ rfl⟩

end RemnanodeLite.Xray
