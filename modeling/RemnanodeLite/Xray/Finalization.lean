import RemnanodeLite.Xray.StartSteps
import RemnanodeLite.Xray.StopSteps

/-! # Who writes a process

Start, Stop and leases write the gate and the history of a process, its monitor
and a retrying Stop write everything else. From this follow the facts about
finalization that hold in every reachable world: `finalized`, `cleanupVerified`,
the channel `done` and a monitor's captured outcome never contradict each other. -/

namespace RemnanodeLite.Xray

/-! ### Unrelated parts of the world -/

/- Equal but for the mutation gate and the history. -/
def ProcessState.SameCore (p p' : ProcessState) : Prop :=
  p' = { p with
    gateWriter := p'.gateWriter, gateReaders := p'.gateReaders
    published := p'.published, commits := p'.commits }

namespace ProcessState.SameCore
variable {p p' : ProcessState}

theorem monitor (h : p.SameCore p') : p'.monitor = p.monitor := by
  rw [h]

theorem done (h : p.SameCore p') : p'.done = p.done := by
  rw [h]

theorem epoch (h : p.SameCore p') : p'.epoch = p.epoch := by
  rw [h]

theorem finalized (h : p.SameCore p') : p'.finalized = p.finalized := by
  rw [h]

end ProcessState.SameCore

def World.CoreKept (w w' : World) : Prop :=
  w'.spawned = w.spawned ∧ ∀ p, (w.procs p).SameCore (w'.procs p)

variable {w w' : World} {p : Pid} {ps : ProcessState} {s s' : StartCall} {t : Tid} {pc : FinalizePC}

theorem coreKept_of_eq (hn : w'.spawned = w.spawned) (hp : w'.procs = w.procs) :
    w.CoreKept w' :=
  ⟨hn, fun p => by rw [hp]; rfl⟩

theorem coreKept_setProc (h : (w.procs p).SameCore ps) : w.CoreKept (w.setProc p ps) := by
  refine ⟨rfl, fun x => ?_⟩
  rcases eq_or_ne x p with rfl | hx
  · rwa [World.setProc_self]
  · rw [World.setProc_of_ne _ _ hx]
    rfl

@[simp] theorem recordSignal_procs (w : World) (sent : Bool) (who : Actor) (p : Pid) :
    (w.recordSignal sent who p).procs = w.procs := by
  unfold World.recordSignal
  split_ifs <;> rfl

@[simp] theorem recordSignal_threads (w : World) (sent : Bool) (who : Actor) (p : Pid) :
    (w.recordSignal sent who p).threads = w.threads := by
  unfold World.recordSignal
  split_ifs <;> rfl

@[simp] theorem recordSignal_process (w : World) (sent : Bool) (who : Actor) (p : Pid) :
    (w.recordSignal sent who p).process = w.process := by
  unfold World.recordSignal
  split_ifs <;> rfl

@[simp] theorem recordSignal_spawned (w : World) (sent : Bool) (who : Actor) (p : Pid) :
    (w.recordSignal sent who p).spawned = w.spawned := by
  unfold World.recordSignal
  split_ifs <;> rfl

theorem cancelStart_threads (w : World) (target u : Tid) :
    (w.cancelStart target).threads u = w.threads u ∨
      ∃ s c, w.threads u = .start s ∧
        (w.cancelStart target).threads u = .start { s with ctxErr := c } := by
  unfold World.cancelStart
  split
  · next s hs =>
    rcases eq_or_ne u target with rfl | hu
    · exact .inr ⟨s, s.ctxErr <|> some .canceled, hs, World.setThread_self ..⟩
    · exact .inl (World.setThread_of_ne _ _ hu)
  · exact .inl rfl

/- All threads are the same up to the context of a Start. -/
def World.ThreadsKept (w w' : World) : Prop :=
  ∀ u, w'.threads u = w.threads u ∨
    ∃ s c, w.threads u = .start s ∧ w'.threads u = .start { s with ctxErr := c }

theorem threadsKept_of_eq (h : w'.threads = w.threads) : w.ThreadsKept w' :=
  fun u => .inl (by rw [h])

theorem cancel_kept (w : World) (target : Option Tid) :
    ∃ threads, (target.map w.cancelStart).getD w = { w with threads := threads } ∧
      w.ThreadsKept { w with threads := threads } := by
  cases target with
  | none => exact ⟨w.threads, rfl, threadsKept_of_eq rfl⟩
  | some u =>
    have heq : w.cancelStart u = { w with threads := (w.cancelStart u).threads } := by
      unfold World.cancelStart
      split <;> rfl
    exact ⟨(w.cancelStart u).threads, heq, fun v => cancelStart_threads w u v⟩

theorem stopView_threadsKept {s s' : StopCall} (h : StopView w t s w' s') : w.ThreadsKept w' := by
  cases h with
  | signal p | finalize p pc ch ps sent => exact threadsKept_of_eq (recordSignal_threads ..)
  | cancel target =>
    obtain ⟨threads, heq, ht⟩ := cancel_kept w target
    rw [heq]
    exact ht
  | _ => exact threadsKept_of_eq rfl

/-! ### Which steps keep the core of every process -/

theorem startView_kept (h : StartView w t s w' s') :
    w'.threads = w.threads ∧ (w.CoreKept w' ∨ s.pc = .startProcess ∧ w' = w.spawn s.processEpoch) := by
  cases h with
  | signal p s' hframe htarget hfin =>
    exact ⟨recordSignal_threads .., .inl (coreKept_of_eq (recordSignal_spawned ..)
      (recordSignal_procs ..))⟩
  | lock p | unlock p => exact ⟨rfl, .inl (coreKept_setProc rfl)⟩
  | records w' next hrec =>
    cases hrec with
    | spawn hpc => exact ⟨rfl, .inr ⟨hpc, rfl⟩⟩
    | _ => exact ⟨rfl, .inl (coreKept_of_eq rfl rfl)⟩
  | concludes w' r hcon =>
    cases hcon with
    | commit p hpc =>
      have hcore : w.CoreKept (w.setProc p { w.procs p with
        published := some s.prepared.hashState }) := coreKept_setProc rfl
      exact ⟨rfl, .inl ⟨hcore.1, hcore.2⟩⟩
    | _ => exact ⟨rfl, .inl (coreKept_of_eq rfl rfl)⟩
  | _ => exact ⟨rfl, .inl (coreKept_of_eq rfl rfl)⟩

theorem startView_process (h : StartView w t s w' s') (hp : w'.process = some p) :
    w.process = some p ∨ s.pc = .assignProcess p ∨ ∃ err, s.pc = .retainUnclean p err := by
  cases h with
  | signal x => exact .inl ((recordSignal_process ..).symm.trans hp)
  | records w' next hrec =>
    cases hrec with
    | stage => cases hp
    | spawn => exact .inl hp
    | assign x hpc =>
      cases hp
      exact .inr (.inl hpc)
    | retain x err hpc =>
      cases hp
      exact .inr (.inr ⟨err, hpc⟩)
  | concludes w' r hcon =>
    cases hcon with
    | publishGone | restoreGone => cases hp
    | _ => exact .inl hp
  | _ => exact .inl hp

theorem leaseView_kept {l l' : LeaseCall} (h : LeaseView w t l w' l') :
    w'.threads = w.threads ∧ w.CoreKept w' := by
  cases h with
  | quiet l' => exact ⟨rfl, coreKept_of_eq rfl rfl⟩
  | begin p => exact ⟨rfl, coreKept_of_eq rfl rfl⟩
  | enter p => exact ⟨rfl, coreKept_setProc rfl⟩
  | leave p l' => exact ⟨rfl, coreKept_setProc rfl⟩

theorem commitUser_kept (w : World) (active : Bool) (p : Pid) (u : UserCommit) :
    (w.commitUser active p u).1.threads = w.threads ∧ w.CoreKept (w.commitUser active p u).1 := by
  rcases commitUser_cases w active p u with heq | ⟨-, heq⟩ <;> rw [heq]
  · exact ⟨rfl, coreKept_of_eq rfl rfl⟩
  · have hcore : w.CoreKept (w.setProc p { w.procs p with
        commits := (w.procs p).commits ++ [u] }) := coreKept_setProc rfl
    exact ⟨rfl, hcore.1, hcore.2⟩

theorem monitorCallback_shared (w : World) (p : Pid) (o : ProcessOutcome) :
    (w.monitorCallback p o).procs = w.procs ∧ (w.monitorCallback p o).threads = w.threads ∧
      (w.monitorCallback p o).spawned = w.spawned := by
  rcases monitorCallback_cases w p o with ⟨-, heq⟩ | ⟨-, -, ⟨-, heq⟩ | ⟨-, heq⟩⟩ <;>
    (rw [heq]; exact ⟨rfl, rfl, rfl⟩)

theorem monitorView_shared (h : MonitorView w p w') :
    w'.threads = w.threads ∧ w'.spawned = w.spawned ∧ ∀ x, x ≠ p → w'.procs x = w.procs x := by
  cases h with
  | observe ps hobs | readOutcome => exact ⟨rfl, rfl, fun x hx => World.setProc_of_ne _ _ hx⟩
  | finalize pc ch ps sent r next =>
    refine ⟨recordSignal_threads .., recordSignal_spawned .., fun x hx => ?_⟩
    rw [recordSignal_procs, World.setProc_of_ne _ _ hx]
  | callback o =>
    obtain ⟨h1, h2, h3⟩ := monitorCallback_shared w p o
    exact ⟨h2, h3, fun x hx => by rw [World.setProc_of_ne _ _ hx, h1]⟩

/-! ### Finalization is consistent -/

structure ProcessState.FinalOk (ps : ProcessState) : Prop where
  verified : ps.cleanupVerified = ps.finalized
  done : ps.done = true → ps.finalized = true
  closing : ps.monitor = .finalize .closeDone → ps.finalized = true
  callback : ∀ o, ps.monitor = .callback o → o.finalized = true → ps.finalized = true

theorem ProcessState.FinalOk.of_core {p p' : ProcessState} (h : p.FinalOk) (hc : p.SameCore p') :
    p'.FinalOk := by
  rw [hc]
  exact ⟨h.verified, h.done, h.closing, h.callback⟩

theorem finalOk_spawn (epoch : ℕ) : (ProcessState.spawn epoch).FinalOk :=
  ⟨rfl, by simp [ProcessState.spawn], by simp [ProcessState.spawn], by simp [ProcessState.spawn]⟩

/- A step of `finalizeExitedProcess`, whatever the monitor's program counter is
afterwards, if whoever closes `done` knows that the process is finalized. -/
theorem ProcessState.FinalOk.finalize {p : ProcessState} {who : Actor} {ch : Pick} {sent : Bool}
    {r : Progress FinalizePC} (h : p.FinalOk) (hfin : finalizeStep p who ch pc = some (ps, sent, r))
    (hclose : pc = .closeDone → p.finalized = true) (m : MonitorPC)
    (hm : m = .finalize .closeDone → ps.finalized = true)
    (hcb : ∀ o, m = .callback o → o.finalized = true → ps.finalized = true) :
    ({ ps with monitor := m } : ProcessState).FinalOk := by
  have hspec := finalizeStep_spec hfin
  refine ⟨?_, ?_, hm, hcb⟩
  · rcases finalizeStep_finalized hfin with ⟨h1, h2⟩ | ⟨-, h1, h2⟩
    · exact (h2.trans h.verified).trans h1.symm
    · exact h2.trans h1.symm
  · intro hd
    rcases hspec.done hd with hd | rfl
    · exact hspec.finalized (h.done hd)
    · exact hspec.finalized (hclose rfl)

structure World.FinalOk (w : World) : Prop where
  procs : ∀ p, (w.procs p).FinalOk
  stops : ∀ t s p, w.threads t = .stop s → s.pc = .retryFinalize .closeDone →
    s.process = some p → (w.procs p).finalized = true
  previous : ∀ t s, w.threads t = .start s → s.previous = .stopped ∨ s.previous = .running

theorem finalOk_initial (disableHashCheck : Bool) : (World.initial disableHashCheck).FinalOk where
  procs _ := finalOk_spawn 0
  stops t s p h := by cases h
  previous t s h := by cases h

theorem monitorView_finalOk (hok : (w.procs p).FinalOk) (h : MonitorView w p w') :
    (w'.procs p).FinalOk ∧ ((w.procs p).finalized = true → (w'.procs p).finalized = true) := by
  cases h with
  | observe ps hobs =>
    rw [World.setProc_self]
    refine ⟨⟨?_, ?_, ?_, ?_⟩, fun hf => hobs.finalized ▸ hf⟩
    · rw [hobs.cleanupVerified, hobs.finalized]
      exact hok.verified
    · rw [hobs.done, hobs.finalized]
      exact hok.done
    · intro hm
      rcases hobs.after with ha | ha | ha | ha <;> (rw [ha] at hm; cases hm)
    · intro o hm
      rcases hobs.after with ha | ha | ha | ha <;> (rw [ha] at hm; cases hm)
  | finalize pc ch ps sent r next hpc hfin hnext =>
    rw [recordSignal_procs, World.setProc_self]
    refine ⟨hok.finalize hfin (fun hc => hok.closing (hc ▸ hpc)) next ?_ ?_,
      (finalizeStep_spec hfin).finalized⟩
    · rintro rfl
      rcases hnext with ⟨pc', hr, hn⟩ | ⟨err, -, hn⟩
      · cases hn
        exact ((finalizeStep_spec hfin).closing hr).1
      · cases hn
    · rintro o rfl
      rcases hnext with ⟨pc', -, hn⟩ | ⟨err, -, hn⟩ <;> cases hn
  | readOutcome hpc =>
    rw [World.setProc_self]
    refine ⟨⟨hok.verified, hok.done, by simp, ?_⟩, id⟩
    rintro o ho hf
    cases ho
    exact hf
  | callback o hpc =>
    rw [World.setProc_self]
    exact ⟨⟨hok.verified, hok.done, by simp, by simp⟩, id⟩

theorem World.FinalOk.update {th : Thread} (hok : w.FinalOk) (hthreads : w.ThreadsKept w')
    (hprocs : ∀ p, (w'.procs p).FinalOk)
    (hmono : ∀ u s p, w.threads u = .stop s → s.pc = .retryFinalize .closeDone →
      s.process = some p → (w'.procs p).finalized = true)
    (hstop : ∀ s p, th = .stop s → s.pc = .retryFinalize .closeDone → s.process = some p →
      (w'.procs p).finalized = true)
    (hstart : ∀ s, th = .start s → s.previous = .stopped ∨ s.previous = .running) :
    (w'.setThread t th).FinalOk := by
  refine ⟨hprocs, ?_, ?_⟩
  · intro u s p hu hpc hp
    rcases eq_or_ne u t with rfl | hne
    · rw [World.setThread_self] at hu
      exact hstop s p hu hpc hp
    · rw [World.setThread_of_ne _ _ hne] at hu
      rcases hthreads u with heq | ⟨s₀, c, -, heq⟩
      · exact hmono u s p (heq ▸ hu) hpc hp
      · rw [heq] at hu
        cases hu
  · intro u s hu
    rcases eq_or_ne u t with rfl | hne
    · rw [World.setThread_self] at hu
      exact hstart s hu
    · rw [World.setThread_of_ne _ _ hne] at hu
      rcases hthreads u with heq | ⟨s₀, c, h₀, heq⟩
      · exact hok.previous u s (heq ▸ hu)
      · rw [heq] at hu
        cases hu
        exact hok.previous u s₀ h₀

theorem World.FinalOk.update_core {th : Thread} (hok : w.FinalOk) (hthreads : w.ThreadsKept w')
    (hcore : w.CoreKept w') (hstop : ∀ s, th = .stop s → s.pc ≠ .retryFinalize .closeDone)
    (hstart : ∀ s, th = .start s → s.previous = .stopped ∨ s.previous = .running) :
    (w'.setThread t th).FinalOk := by
  refine hok.update hthreads (fun p => (hok.procs p).of_core (hcore.2 p)) ?_ ?_ hstart
  · intro u s p hu hpc hp
    rw [(hcore.2 p).finalized]
    exact hok.stops u s p hu hpc hp
  · intro s p hs hpc
    exact absurd hpc (hstop s hs)

theorem finalizeView_finalOk {s : StopCall} {ch : Pick} {sent : Bool} {r : Progress FinalizePC}
    {next : StopPC} (hok : w.FinalOk) (hs : w.threads t = .stop s) (hpc : s.pc = .retryFinalize pc)
    (hp : s.process = some p)
    (hfin : finalizeStep (w.procs p) (.thread t) ch pc = some (ps, sent, r))
    (hnext : (∃ pc', r = .next pc' ∧ next = .retryFinalize pc') ∨
      ∃ err, r = .done err ∧ next = .readOutcome err) :
    (((w.setProc p ps).recordSignal sent (.thread t) p).setThread t
      (.stop { s with pc := next })).FinalOk := by
  have hspec := finalizeStep_spec hfin
  have hps : ps.FinalOk := by
    refine (hok.procs p).finalize hfin (fun hc => hok.stops t s p hs (hc ▸ hpc) hp) ps.monitor ?_ ?_
    · intro hm
      exact hspec.finalized ((hok.procs p).closing (hspec.monitor ▸ hm))
    · intro o hm ho
      exact hspec.finalized ((hok.procs p).callback o (hspec.monitor ▸ hm) ho)
  have hmono : ∀ x, (w.procs x).finalized = true → ((w.setProc p ps).procs x).finalized = true := by
    intro x hf
    rcases eq_or_ne x p with rfl | hne
    · rw [World.setProc_self]
      exact hspec.finalized hf
    · rw [World.setProc_of_ne _ _ hne]
      exact hf
  refine hok.update (threadsKept_of_eq (recordSignal_threads ..)) ?_ ?_ ?_ (by simp)
  · intro x
    rw [recordSignal_procs]
    rcases eq_or_ne x p with rfl | hne
    · rw [World.setProc_self]
      exact hps
    · rw [World.setProc_of_ne _ _ hne]
      exact hok.procs x
  · intro u s₁ x hu hpc₁ hx
    rw [recordSignal_procs]
    exact hmono x (hok.stops u s₁ x hu hpc₁ hx)
  · intro s₁ x hs₁ hpc₁ hx
    cases hs₁
    rw [hp] at hx
    cases hx
    rw [recordSignal_procs, World.setProc_self]
    rcases hnext with ⟨pc', hr, hn⟩ | ⟨err, -, hn⟩
    · rw [show next = .retryFinalize .closeDone from hpc₁] at hn
      cases hn
      exact (hspec.closing hr).1
    · rw [show next = .retryFinalize .closeDone from hpc₁] at hn
      cases hn

theorem stopView_finalOk {s s' : StopCall} (hok : w.FinalOk) (hs : w.threads t = .stop s)
    (h : StopView w t s w' s') :
    (w'.setThread t (.stop s')).FinalOk := by
  have hcore : w.CoreKept w' → s'.pc ≠ .retryFinalize .closeDone →
      (w'.setThread t (.stop s')).FinalOk := by
    intro hc hpc
    refine hok.update_core (stopView_threadsKept h) hc ?_ (by simp)
    intro s₂ hs₂
    cases hs₂
    exact hpc
  cases h with
  | quiet s' hframe => exact hcore (coreKept_of_eq rfl rfl) hframe.closing
  | signal p s' hframe =>
    exact hcore (coreKept_of_eq (recordSignal_spawned ..) (recordSignal_procs ..)) hframe.closing
  | cancel target =>
    obtain ⟨threads, heq, -⟩ := cancel_kept w target
    exact hcore (by rw [heq]; exact coreKept_of_eq rfl rfl) (by simp)
  | lock p next _ _ hnext =>
    refine hcore (coreKept_setProc rfl) ?_
    rcases hnext with rfl | rfl <;> simp
  | unlock p b => exact hcore (coreKept_setProc rfl) (by simp)
  | finalize p pc ch ps sent r next hpc hp hfin hnext =>
    exact finalizeView_finalOk hok hs hpc hp hfin hnext
  | _ => exact hcore (coreKept_of_eq rfl rfl) (by simp)

theorem no_stop_finalizing {u : Tid} {s₁ : StopCall} (hinv : w.ownership.Inv)
    (hs : w.threads t = .start s) (hpc : s.pc = .startProcess) (hu : w.threads u = .stop s₁)
    (hpc₁ : s₁.pc = .retryFinalize pc) : False := by
  have h1 : w.ownership.role t = .owns (.start s.operationEpoch) (.drained none) := by
    simp only [World.ownership, hs, Thread.role, StartCall.role, hpc]
  have h2 : w.ownership.role u = .owns .stop (.holding s₁.process) := by
    simp only [World.ownership, hu, Thread.role, StopCall.role, hpc₁]
  have hut := hinv.unique h1 h2
  subst hut
  rw [hs] at hu
  cases hu

theorem startView_previous (h : StartView w t s w' s')
    (hok : s.previous = .stopped ∨ s.previous = .running) :
    s'.previous = .stopped ∨ s'.previous = .running := by
  cases h with
  | quiet s' hframe | signal p s' hframe =>
    rw [hframe.previous]
    exact hok
  | begin hpc h1 h2 =>
    dsimp only
    cases hst : w.state <;> simp_all
  | _ => exact hok

theorem startView_finalOk (hinv : w.ownership.Inv) (hok : w.FinalOk) (hs : w.threads t = .start s)
    (h : StartView w t s w' s') : (w'.setThread t (.start s')).FinalOk := by
  have hstart : ∀ s₁, Thread.start s' = .start s₁ →
      s₁.previous = .stopped ∨ s₁.previous = .running := by
    rintro s₁ hs₁
    cases hs₁
    exact startView_previous h (hok.previous t s hs)
  obtain ⟨ht, hcore | ⟨hpc, rfl⟩⟩ := startView_kept h
  · exact hok.update_core (threadsKept_of_eq ht) hcore (by simp) hstart
  · refine hok.update (threadsKept_of_eq rfl) ?_ ?_ (by simp) hstart
    · intro x
      rcases eq_or_ne x w.spawned with rfl | hx
      · simp only [World.spawn, World.setProc_self]
        exact finalOk_spawn _
      · simp only [World.spawn, World.setProc_of_ne _ _ hx]
        exact hok.procs x
    · intro u s₁ x hu hpc₁ _
      exact (no_stop_finalizing hinv hs hpc hu hpc₁).elim

theorem step_finalOk {e : Event} (hinv : w.ownership.Inv) (hok : w.FinalOk)
    (h : step w e = some w') : w'.FinalOk := by
  have hself : w.CoreKept w := coreKept_of_eq rfl rfl
  cases step_view h with
  | callStart t req ht =>
    refine hok.update_core (threadsKept_of_eq rfl) hself (by simp) ?_
    intro s hs
    cases hs
    exact .inl rfl
  | callStop t ht =>
    refine hok.update_core (threadsKept_of_eq rfl) hself ?_ (by simp)
    intro s hs
    cases hs
    simp
  | callLease t ht => exact hok.update_core (threadsKept_of_eq rfl) hself (by simp) (by simp)
  | endStart t s err c ht =>
    refine hok.update_core (threadsKept_of_eq rfl) hself (by simp) ?_
    intro s₁ hs₁
    cases hs₁
    exact hok.previous t s ht
  | endLease t l err c ht =>
    exact hok.update_core (threadsKept_of_eq rfl) hself (by simp) (by simp)
  | start t ch s s' w₁ ht hstep =>
    exact startView_finalOk hinv hok ht (startStep_view hinv ht hstep)
  | stop t ch s s' w₁ ht hstep => exact stopView_finalOk hok ht (stopStep_view hinv ht hstep)
  | lease t ch l l' w₁ ht hstep =>
    obtain ⟨hth, hcore⟩ := leaseView_kept (leaseStep_view hstep)
    exact hok.update_core (threadsKept_of_eq hth) hcore (by simp) (by simp)
  | monitor p ch _ hp hstep =>
    have hview := monitorStep_view hstep
    obtain ⟨hth, -, hother⟩ := monitorView_shared hview
    obtain ⟨hpok, hmono⟩ := monitorView_finalOk (hok.procs p) hview
    refine ⟨?_, ?_, ?_⟩
    · intro x
      rcases eq_or_ne x p with rfl | hx
      · exact hpok
      · rw [hother x hx]
        exact hok.procs x
    · intro u s x hu hpc hx
      have hfin := hok.stops u s x (hth ▸ hu) hpc hx
      rcases eq_or_ne x p with rfl | hne
      · exact hmono hfin
      · rw [hother x hne]
        exact hfin
    · intro u s hu
      exact hok.previous u s (hth ▸ hu)
  | commit t u l p active ht htok =>
    obtain ⟨hth, hcore⟩ := commitUser_kept w active p u
    refine ⟨fun x => (hok.procs x).of_core (hcore.2 x), ?_, ?_⟩
    · intro v s x hv hpc hx
      rw [(hcore.2 x).finalized]
      exact hok.stops v s x (hth ▸ hv) hpc hx
    · intro v s hv
      exact hok.previous v s (hth ▸ hv)

end RemnanodeLite.Xray
