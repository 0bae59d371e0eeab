import RemnanodeLite.Xray.Publication
import RemnanodeLite.Xray.SingleCore

/-! # What a Start leaves behind

The fields of the manager agree with its state in every reachable world. A Start
that gives up before it has touched the previous process puts them back: as they
were, with the commits made meanwhile, or as the exit of that process demands,
whose report nobody has acted upon while the Start was in progress. -/

namespace RemnanodeLite.Xray

/-- The runtime fields in every reachable world: complete while Running, empty while
Stopped, a pending config only in between, and an epoch only of `m.process`. -/
theorem fields_agree_with_state (disableHashCheck : Bool) (w : World)
    (h : Reachable disableHashCheck w) :
    (w.state = .running → ∃ p, w.process = some p ∧
        w.runtime.runtimeProcessEpoch = (w.procs p).epoch ∧ w.runtime.pendingConfigJSON = none) ∧
      (w.state = .stopped → w.process = none ∧ w.runtime.runtimeProcessEpoch = 0 ∧
        w.runtime.pendingConfigJSON = none ∧ w.runtime.hashState.emptyConfigHash = "" ∧
        w.runtime.hashState.inboundHashes = ∅ ∧ w.runtime.hashState.inboundTags = ∅) ∧
      (w.runtime.pendingConfigJSON ≠ none → w.state = .starting ∨ w.state = .stopping) ∧
      (w.runtime.runtimeProcessEpoch ≠ 0 →
        ∃ p, w.process = some p ∧ w.runtime.runtimeProcessEpoch = (w.procs p).epoch) := by
  have hpub := reachable_pubOk h
  have hrunning : w.state = .running → ∃ p, w.process = some p ∧
      w.runtime.runtimeProcessEpoch = (w.procs p).epoch ∧ w.runtime.pendingConfigJSON = none := by
    intro hst
    have hcons := hpub.state
    rw [hst] at hcons
    obtain ⟨p, hp, hfor⟩ := hcons
    obtain ⟨-, hpending, hepoch, -⟩ := hpub.record.published p hfor
    exact ⟨p, hp, hepoch, hpending⟩
  have hstopped : w.state = .stopped → w.process = none ∧ w.runtime = .cleared := by
    intro hst
    have hcons := hpub.state
    rw [hst] at hcons
    exact ⟨hcons.1, hcons.2.2⟩
  refine ⟨hrunning, ?_, ?_, ?_⟩
  · intro hst
    obtain ⟨hp, hruntime⟩ := hstopped hst
    rw [hruntime]
    exact ⟨hp, rfl, rfl, rfl, rfl, rfl⟩
  · intro hpending
    cases hst : w.state with
    | starting => exact .inl rfl
    | stopping => exact .inr rfl
    | running =>
      obtain ⟨p, -, -, hnone⟩ := hrunning hst
      exact absurd hnone hpending
    | stopped =>
      rw [(hstopped hst).2] at hpending
      exact absurd rfl hpending
  · intro hepoch
    cases hfor : w.publishedFor with
    | none => exact absurd (hpub.record.unpublished hfor).1 hepoch
    | some p =>
      obtain ⟨hp, -, heq, -⟩ := hpub.record.published p hfor
      exact ⟨p, hp, heq⟩

def startToRunning (t : Tid) : List Event :=
  startUntilSpawn t ++ List.replicate 9 (.thread t succeed)

theorem startToRunning_runs :
    (Transition.run step (World.initial false) (startToRunning 0)).isSome = true := by
  decide

/-- The theorem at a world with a running core. -/
theorem fields_agree_with_state_running :
    ∃ w : World, w.state = .running ∧ ∃ p, w.process = some p ∧
      w.runtime.runtimeProcessEpoch = (w.procs p).epoch ∧ w.runtime.pendingConfigJSON = none := by
  let w := (Transition.run step (World.initial false) (startToRunning 0)).get startToRunning_runs
  have hw : Reachable false w := Transition.run_reach _ (Option.some_get _).symm
  have hst : w.state = .running := by decide
  exact ⟨w, hst, (fields_agree_with_state false w hw).1 hst⟩

/-! ### How far a monitor has got -/

/- The leader's end is recorded before `leaderDone` is closed, and `leaderDone` is
closed before anything else is done about it. -/
structure ProcessState.ReportOk (ps : ProcessState) : Prop where
  observed : ps.monitor ≠ .waitLeader → ps.leaderObserved = true ∨ ps.observationErr ≠ none
  closed : ps.leaderDone = true ↔ ps.monitor ≠ .waitLeader ∧ ps.monitor ≠ .closeLeaderDone

variable {p p' : ProcessState} {ch : Pick} {w w' : World}

theorem ProcessState.ReportOk.of_core (h : p.ReportOk) (hc : p.SameCore p') :
    p'.ReportOk := by
  rw [hc]
  exact ⟨h.observed, h.closed⟩

theorem ProcessState.ReportOk.waiting (h : p.ReportOk) (hleader : p.leaderDone = false) :
    p.monitor = .waitLeader ∨ p.monitor = .closeLeaderDone := by
  by_contra hmon
  rw [not_or] at hmon
  exact absurd (hleader.symm.trans (h.closed.mpr hmon)) (by decide)

theorem reportOk_spawn (epoch : ℕ) : (ProcessState.spawn epoch).ReportOk :=
  ⟨by simp [ProcessState.spawn], by simp [ProcessState.spawn]⟩

theorem finalizeStep_leader {who : Actor} {pc : FinalizePC} {sent : Bool} {r : Progress FinalizePC}
    (h : finalizeStep p who ch pc = some (p', sent, r)) :
    p'.leaderDone = p.leaderDone ∧ p'.leaderObserved = p.leaderObserved ∧
      p'.observationErr = p.observationErr := by
  cases pc <;> simp only [finalizeStep] at h <;> grind

theorem ProcessState.ReportOk.finalize {who : Actor} {pc : FinalizePC} {sent : Bool}
    {r : Progress FinalizePC} (h : p.ReportOk)
    (hfin : finalizeStep p who ch pc = some (p', sent, r)) {m : MonitorPC}
    (hm : m = p.monitor ∨ p.monitor = .finalize pc ∧ m ≠ .waitLeader ∧ m ≠ .closeLeaderDone) :
    ({ p' with monitor := m } : ProcessState).ReportOk := by
  obtain ⟨h1, h2, h3⟩ := finalizeStep_leader hfin
  rcases hm with rfl | ⟨hp, hm1, hm2⟩
  · exact ⟨by rw [h2, h3]; exact h.observed, by rw [h1]; exact h.closed⟩
  · have hp1 : p.monitor ≠ .waitLeader := by simp [hp]
    have hp2 : p.monitor ≠ .closeLeaderDone := by simp [hp]
    refine ⟨fun _ => ?_, ?_⟩
    · rw [h2, h3]
      exact h.observed hp1
    · rw [h1, h.closed]
      exact ⟨fun _ => ⟨hm1, hm2⟩, fun _ => ⟨hp1, hp2⟩⟩

theorem monitorStep_reportOk {p : Pid} (h : (w.procs p).ReportOk)
    (hstep : monitorStep w p ch = some w') : (w'.procs p).ReportOk := by
  cases hpc : (w.procs p).monitor with
  | waitLeader =>
    have hopen : (w.procs p).leaderDone = false := by
      have := h.closed
      simpa [hpc] using this
    simp only [monitorStep, hpc, Option.some.injEq] at hstep
    subst hstep
    rw [World.setProc_self]
    refine ⟨fun _ => ?_, by simp [hopen]⟩
    cases ch.ok with
    | true => exact .inl rfl
    | false => exact .inr (by simp)
  | closeLeaderDone =>
    simp only [monitorStep, hpc, Option.some.injEq] at hstep
    subst hstep
    rw [World.setProc_self]
    have hobs := h.observed (by simp [hpc])
    refine ⟨fun _ => hobs, ?_⟩
    dsimp only
    split_ifs <;> simp
  | finalize pc =>
    simp only [monitorStep, hpc] at hstep
    split at hstep
    · cases hstep
    · next ps sent pc' hfin =>
      cases hstep
      rw [recordSignal_procs, World.setProc_self]
      exact h.finalize hfin (.inr ⟨hpc, by simp, by simp⟩)
    · next ps sent err hfin =>
      cases hstep
      rw [recordSignal_procs, World.setProc_self]
      exact h.finalize hfin (.inr ⟨hpc, by simp, by simp⟩)
  | closeMonitorDone | readOutcome | callback o =>
    have hdone : (w.procs p).leaderDone = true := h.closed.mpr (by simp [hpc])
    have hobs := h.observed (by simp [hpc])
    simp only [monitorStep, hpc, Option.some.injEq] at hstep
    subst hstep
    rw [World.setProc_self]
    exact ⟨fun _ => hobs, by simp [hdone]⟩
  | returned =>
    simp only [monitorStep, hpc] at hstep
    cases hstep

theorem stopView_reportOk {t : Tid} {s s' : StopCall} (h : ∀ p, (w.procs p).ReportOk)
    (hv : StopView w t s w' s') : ∀ p, (w'.procs p).ReportOk := by
  have hset : ∀ {p : Pid} {ps : ProcessState}, ps.ReportOk →
      ∀ x, ((w.setProc p ps).procs x).ReportOk := by
    intro p ps hps x
    rcases eq_or_ne x p with rfl | hx
    · rwa [World.setProc_self]
    · rw [World.setProc_of_ne _ _ hx]
      exact h x
  cases hv with
  | signal p s' =>
    rw [recordSignal_procs]
    exact h
  | cancel target =>
    obtain ⟨threads, heq, -⟩ := cancel_kept w target
    rw [heq]
    exact h
  | lock p next => exact hset ((h p).of_core rfl)
  | unlock p b => exact hset ((h p).of_core rfl)
  | finalize p pc ch ps sent r next _ _ hfin =>
    rw [recordSignal_procs]
    have hps := (h p).finalize hfin (.inl rfl)
    rw [← (finalizeStep_spec hfin).monitor] at hps
    exact hset hps
  | _ => exact h

theorem step_reportOk {e : Event} (hinv : w.ownership.Inv) (h : ∀ p, (w.procs p).ReportOk)
    (hstep : step w e = some w') : ∀ p, (w'.procs p).ReportOk := by
  cases step_view hstep with
  | start t ch s s' w₁ ht hs =>
    intro p
    rcases (startView_kept (startStep_view hinv ht hs)).2 with hcore | ⟨-, rfl⟩
    · exact (h p).of_core (hcore.2 p)
    · rcases eq_or_ne p w.spawned with rfl | hp
      · have hnew : ((w.spawn s.processEpoch).setThread t (.start s')).procs w.spawned =
            .spawn s.processEpoch := World.setProc_self ..
        rw [hnew]
        exact reportOk_spawn _
      · have hold : ((w.spawn s.processEpoch).setThread t (.start s')).procs p = w.procs p :=
          World.setProc_of_ne _ _ hp
        rw [hold]
        exact h p
  | stop t ch s s' w₁ ht hs =>
    have hall : ∀ p, (w₁.procs p).ReportOk := stopView_reportOk h (stopStep_view hinv ht hs)
    exact hall
  | lease t ch l l' w₁ ht hs =>
    exact fun p => (h p).of_core ((leaseView_kept (leaseStep_view hs)).2.2 p)
  | monitor p ch _ hp hs =>
    intro x
    rcases eq_or_ne x p with rfl | hx
    · exact monitorStep_reportOk (h x) hs
    · rw [(monitorView_shared (monitorStep_view hs)).2.2 x hx]
      exact h x
  | commit t u l p active ht htok => exact fun x => (h x).of_core ((commitUser_kept w active p u).2.2 x)
  | _ => exact h

theorem reachable_reportOk {disableHashCheck : Bool} (h : Reachable disableHashCheck w) :
    ∀ p, (w.procs p).ReportOk := by
  refine h.invariant_of (fun w => w.ownership.Inv) (fun w => ∀ p, (w.procs p).ReportOk)
    (fun a ha => (reachable_inv ha).1) (fun _ => reportOk_spawn 0) ?_
  intro a e b hinv hok _ hstep
  exact step_reportOk hinv hok hstep

/-! ### A Start in progress that has touched nothing -/

/- The first step of a Stop that takes the lifecycle away from others. -/
def reservesStop (w : World) : Event → Bool
  | .thread t _ => match w.threads t with
    | .stop s => s.pc = .reserve
    | _ => false
  | _ => false

/- A Start whose `beginStart` was accepted. -/
@[simp] def StartPC.begun : StartPC → Bool
  | .makeLogDir | .beginStart => false
  | _ => true

/- Nothing of the record has changed since `w₀` but for these commits. -/
structure World.CommittedSince (w₀ w : World) (commits : List UserCommit) : Prop where
  process : w.process = w₀.process
  publishedFor : w.publishedFor = w₀.publishedFor
  runtime : w.runtime =
    { w₀.runtime with hashState := commits.foldl UserCommit.apply w₀.runtime.hashState }
  history : ∀ p, w₀.process = some p → (w.procs p).commits = (w₀.procs p).commits ++ commits

structure StartCall.Pending (s : StartCall) (w₀ w : World) : Prop where
  epoch : w.operationEpoch = s.operationEpoch
  previous : s.previous = w₀.state
  since : ∃ commits, w₀.CommittedSince w commits

/- Goroutine `t` has begun its Start in `w₀`. -/
def Trying (w₀ : World) (t : Tid) (w : World) : Prop :=
  ∃ s, w.threads t = .start s ∧ s.pc.begun = true ∧ (s.pc.pre = true → s.Pending w₀ w)

section
variable {w₀ w w' : World} {t u : Tid} {s s' : StartCall}

/- The two worlds agree on everything a Start that has touched nothing relies on. -/
def World.Undisturbed (w w' : World) : Prop :=
  w.SameRecord w' ∧ w'.operationEpoch = w.operationEpoch

theorem World.Undisturbed.refl : w.Undisturbed w := ⟨.of_procs rfl rfl rfl rfl rfl, rfl⟩

variable {p : Pid}

theorem World.Undisturbed.setProc {ps : ProcessState} (hepoch : ps.epoch = (w.procs p).epoch)
    (hpub : ps.published = (w.procs p).published) (hcom : ps.commits = (w.procs p).commits) :
    w.Undisturbed (w.setProc p ps) :=
  ⟨.setProc hepoch hpub hcom, rfl⟩

theorem World.Undisturbed.signal (h : w.Undisturbed w') (sent : Bool) (who : Actor) (p : Pid) :
    w.Undisturbed (w'.recordSignal sent who p) := by
  refine ⟨h.1.signal sent who p, ?_⟩
  unfold World.recordSignal
  split_ifs
  · exact h.2
  · exact h.2

theorem World.Undisturbed.setThread (h : w.Undisturbed w') (u : Tid) (th : Thread) :
    w.Undisturbed (w'.setThread u th) :=
  ⟨⟨h.1.process, h.1.publishedFor, h.1.runtime, h.1.spawned, h.1.epoch, h.1.published,
    h.1.commits⟩, h.2⟩

theorem World.CommittedSince.undisturbed {commits : List UserCommit}
    (h : w₀.CommittedSince w commits) (hsame : w.SameRecord w') : w₀.CommittedSince w' commits := by
  refine ⟨?_, ?_, ?_, ?_⟩
  · rw [hsame.process, h.process]
  · rw [hsame.publishedFor, h.publishedFor]
  · rw [hsame.runtime, h.runtime]
  · intro p hp
    rw [hsame.commits, h.history p hp]

theorem World.CommittedSince.commit {commits : List UserCommit} (h : w₀.CommittedSince w commits)
    (hp : w.process = some p) (u : UserCommit) :
    w₀.CommittedSince (w.committed p u) (commits ++ [u]) := by
  refine ⟨h.process, h.publishedFor, ?_, ?_⟩
  · rw [World.committed, List.foldl_append]
    dsimp only
    rw [h.runtime]
    rfl
  · intro x hx
    rw [← h.process, hp] at hx
    cases hx
    have hcommits : ((w.committed p u).procs p).commits = (w.procs p).commits ++ [u] := by
      simp [World.committed]
    rw [hcommits, h.history p (h.process ▸ hp), List.append_assoc]

theorem StartCall.Pending.undisturbed (h : s.Pending w₀ w) (hsame : w.Undisturbed w') :
    s.Pending w₀ w' := by
  obtain ⟨commits, hsince⟩ := h.since
  exact ⟨hsame.2.trans h.epoch, h.previous, commits, hsince.undisturbed hsame.1⟩

theorem role_of_pre (h : s.pc.pre = true) :
    ∃ ph, s.role = .owns (.start s.operationEpoch) ph := by
  cases hpc : s.pc <;> simp only [StartPC.pre, hpc, Bool.false_eq_true] at h <;>
    exact ⟨_, by simp only [StartCall.role, hpc]; rfl⟩

/- While the Start is in progress nobody else owns the lifecycle or wants it. -/
structure Alone (w : World) (t : Tid) : Prop where
  starting : w.state = .starting
  stopOp : w.stopOp = none
  owner : ∀ u k ph, u ≠ t → (w.threads u).role ≠ .owns k ph
  waiting : ∀ u, (w.threads u).role ≠ .waiting

theorem StartCall.Pending.alone (hinv : w.ownership.Inv) (h : s.Pending w₀ w)
    (hs : w.threads t = .start s) (hpre : s.pc.pre = true) : Alone w t := by
  obtain ⟨ph, hrole⟩ := role_of_pre hpre
  have hr : w.ownership.role t = .owns (.start s.operationEpoch) ph := by
    simp only [World.ownership, hs, Thread.role, hrole]
  have hholds : w.ownership.Holds t s.operationEpoch := by
    rcases hinv.start t _ ph hr with hh | hl
    · exact hh
    · have hlt : s.operationEpoch < w.operationEpoch := hl.2.2
      have heq := h.epoch
      omega
  refine ⟨hholds.1, hholds.2.2.1, ?_, ?_⟩
  · intro u k ph' hu hown
    exact hu (hinv.unique hr hown)
  · intro u hw
    have hop := hinv.stop_of_role u (.inl hw)
    rw [hholds.2.2.1] at hop
    cases hop

theorem other_start {s s' : StartCall} (hstate : w.state = .starting)
    (hno : ∀ k ph, s.role ≠ .owns k ph) (hv : StartView w u s w' s') : w.Undisturbed w' := by
  cases hv with
  | quiet | read | drainPrevious | drainUnassigned | drainNew | lose => exact .refl
  | signal p s' => exact World.Undisturbed.refl.signal ..
  | begin hpc hst => exact absurd hstate hst
  | lock p | unlock p => exact .setProc rfl rfl rfl
  | reserve hpc => exact ⟨.of_procs rfl rfl rfl rfl rfl, rfl⟩
  | records w' next hrec =>
    cases hrec with
    | stage hpc | spawn hpc | assign p hpc | retain p err hpc =>
      exact absurd (by simp only [StartCall.role, hpc]; rfl) (hno _ _)
  | concludes w' r hcon =>
    obtain ⟨k, ph, hrole, -⟩ := role_of_releasing hcon.releasing
    exact absurd hrole (hno k ph)

theorem other_stop {s s' : StopCall} (hno : ∀ k ph, s.role ≠ .owns k ph) (hnw : s.role ≠ .waiting)
    (hreserve : s.pc ≠ .reserve) (hv : StopView w u s w' s') : w.Undisturbed w' := by
  cases hv with
  | quiet | read | outcome => exact .refl
  | signal p s' => exact World.Undisturbed.refl.signal ..
  | reserveWait _ hpc | reserveOwn _ hpc => exact absurd hpc hreserve
  | cancel target hpc | acquire hpc => exact absurd (by simp only [StopCall.role, hpc]) hnw
  | lock p | unlock p => exact .setProc rfl rfl rfl
  | finalize p pc ch ps sent r next _ _ hfin =>
    have hspec := finalizeStep_spec hfin
    exact (World.Undisturbed.setProc hspec.epoch hspec.published hspec.commits).signal ..
  | publishStopped hpc | publishStopping hpc =>
    exact absurd (by simp only [StopCall.role, hpc]; rfl) (hno _ _)

/- A monitor's report is ignored while a Start is in progress. -/
theorem monitor_undisturbed (hstate : w.state = .starting) (hv : MonitorView w p w') :
    w.Undisturbed w' := by
  cases hv with
  | observe ps hobs => exact .setProc hobs.epoch hobs.published hobs.commits
  | finalize pc ch ps sent r next _ hfin =>
    have hspec := finalizeStep_spec hfin
    have hset : w.Undisturbed (w.setProc p { ps with monitor := next }) :=
      .setProc hspec.epoch hspec.published hspec.commits
    exact hset.signal ..
  | readOutcome => exact .setProc rfl rfl rfl
  | callback o =>
    rcases monitorCallback_cases w p o with ⟨-, heq⟩ | ⟨-, hst, -⟩
    · rw [heq]
      exact .setProc rfl rfl rfl
    · rw [hstate] at hst
      simp at hst

theorem begun_of_frame (hframe : s.SameFrame s') (h : s.pc.begun = true) : s'.pc.begun = true := by
  by_contra hn
  have hidle : s'.role = .idle ∧ s'.pc.early = true := by
    cases hpc : s'.pc <;> simp [hpc] at hn <;>
      exact ⟨by simp only [StartCall.role, hpc], rfl⟩
  have hrole : s.role = .idle := hframe.role ▸ hidle.1
  have hearly := hframe.early hidle.2
  cases hpc : s.pc <;> simp [StartCall.role, hpc] at h hearly hrole

/- The Start's own steps: as long as it has touched nothing it disturbs nothing. -/
theorem own_step (hbegun : s.pc.begun = true) (hv : StartView w t s w' s') :
    s'.pc.begun = true ∧ (s'.pc.pre = true → s.pc.pre = true ∧ w.Undisturbed w' ∧
      s'.previous = s.previous ∧ s'.operationEpoch = s.operationEpoch) := by
  have hover : ∀ {pc : StartPC}, pc.begun = true → pc.pre = false → (s.goto pc).pc.begun = true ∧
      ((s.goto pc).pc.pre = true → s.pc.pre = true ∧ w.Undisturbed w' ∧
        (s.goto pc).previous = s.previous ∧ (s.goto pc).operationEpoch = s.operationEpoch) := by
    intro pc h1 h2
    refine ⟨h1, fun hpre => ?_⟩
    have hpc : pc.pre = true := hpre
    rw [h2] at hpc
    cases hpc
  cases hv with
  | quiet s' hframe =>
    exact ⟨begun_of_frame hframe hbegun, fun hpre =>
      ⟨hframe.pre ▸ hpre, .refl, hframe.previous, hframe.operationEpoch⟩⟩
  | signal p s' hframe =>
    exact ⟨begun_of_frame hframe hbegun, fun hpre =>
      ⟨hframe.pre ▸ hpre, World.Undisturbed.refl.signal .., hframe.previous,
        hframe.operationEpoch⟩⟩
  | begin hpc => simp [hpc] at hbegun
  | read hpc => exact ⟨rfl, fun _ => ⟨by simp [hpc], .refl, rfl, rfl⟩⟩
  | lock p hpc =>
    exact ⟨rfl, fun _ => ⟨by simp [hpc], .setProc rfl rfl rfl, rfl, rfl⟩⟩
  | reserve hpc =>
    exact ⟨rfl, fun _ => ⟨by simp [hpc], ⟨.of_procs rfl rfl rfl rfl rfl, rfl⟩,
      rfl, rfl⟩⟩
  | unlock p next _ _ _ hpc =>
    rcases hpc with ⟨-, rfl⟩ | ⟨r, -, rfl⟩
    · exact ⟨rfl, by simp⟩
    · exact ⟨rfl, by simp⟩
  | lose next _ hpc =>
    rcases hpc with ⟨-, rfl⟩ | ⟨p, -, rfl⟩
    · exact hover rfl rfl
    · exact hover rfl rfl
  | records w' next hrec => cases hrec <;> exact hover rfl rfl
  | _ => exact hover rfl rfl

theorem Trying.keep (h : Trying w₀ t w) (hthreads : w.ThreadsKept w')
    (hkeep : Alone w t → w.Undisturbed w') (hinv : w.ownership.Inv) : Trying w₀ t w' := by
  obtain ⟨s, hs, hbegun, hpending⟩ := h
  have hp : s.pc.pre = true → s.Pending w₀ w' := by
    intro hpre
    exact (hpending hpre).undisturbed (hkeep ((hpending hpre).alone hinv hs hpre))
  rcases hthreads t with heq | ⟨s₁, c, hs₁, heq⟩
  · exact ⟨s, heq.trans hs, hbegun, hp⟩
  · rw [hs] at hs₁
    cases hs₁
    exact ⟨_, heq, hbegun, fun hpre => ⟨(hp hpre).epoch, (hp hpre).previous, (hp hpre).since⟩⟩

/- Another goroutine has made a step. -/
theorem Trying.other {th : Thread} (h : Trying w₀ t w) (hthreads : w.ThreadsKept w')
    (hkeep : Alone w t → w.Undisturbed w') (hinv : w.ownership.Inv) (htu : t ≠ u) :
    Trying w₀ t (w'.setThread u th) := by
  obtain ⟨s, hs, hbegun, hpending⟩ := h.keep hthreads hkeep hinv
  exact ⟨s, (World.setThread_of_ne _ _ htu).trans hs, hbegun, fun hpre =>
    (hpending hpre).undisturbed (World.Undisturbed.refl.setThread ..)⟩

theorem trying_step {e : Event} (hinv : w.ownership.Inv) (hpub : w.PubOk) (h : Trying w₀ t w)
    (hguard : reservesStop w e = false) (hstep : step w e = some w') : Trying w₀ t w' := by
  have htrying := h
  obtain ⟨s, hs, hbegun, hpending⟩ := h
  have hne : ∀ {u : Tid} {th : Thread}, w.threads u = th → (∀ s, th ≠ .start s) → t ≠ u := by
    rintro u th hu hth rfl
    exact hth s (hu ▸ hs)
  cases step_view hstep with
  | callStart u req hu | callStop u hu | callLease u hu | endLease u l err c hu =>
    exact htrying.other (threadsKept_of_eq rfl) (fun _ => .refl) hinv (hne hu (by simp))
  | endStart u s₁ err c hu =>
    refine htrying.keep (fun v => ?_) (fun _ => World.Undisturbed.refl.setThread ..) hinv
    rcases eq_or_ne v u with rfl | hv
    · exact .inr ⟨s₁, c, hu, World.setThread_self ..⟩
    · exact .inl (World.setThread_of_ne _ _ hv)
  | start u ch s₁ s' w₁ hu hstart =>
    have hview := startStep_view hinv hu hstart
    rcases eq_or_ne t u with rfl | htu
    · rw [hs] at hu
      cases hu
      obtain ⟨hbegun', hpre'⟩ := own_step hbegun hview
      refine ⟨s', World.setThread_self .., hbegun', fun hpre => ?_⟩
      obtain ⟨hpre₀, hsame, hprevious, hepoch⟩ := hpre' hpre
      have hp := (hpending hpre₀).undisturbed (hsame.setThread t (.start s'))
      exact ⟨hp.epoch.trans hepoch.symm, hprevious.trans hp.previous, hp.since⟩
    · refine htrying.other (threadsKept_of_eq (startView_kept hview).1) (fun halone => ?_) hinv htu
      refine other_start halone.starting (fun k ph hrole => ?_) hview
      exact halone.owner u k ph htu.symm (by rw [hu]; exact hrole)
  | stop u ch s₁ s' w₁ hu hstop =>
    have hview := stopStep_view hinv hu hstop
    have htu := hne hu (by simp)
    have hrole : (w.threads u).role = s₁.role := by
      rw [hu]
      rfl
    refine htrying.other (stopView_threadsKept hview) (fun halone => ?_) hinv htu
    refine other_stop (fun k ph => ?_) (hrole ▸ halone.waiting u) ?_ hview
    · exact hrole ▸ halone.owner u k ph htu.symm
    · simpa [reservesStop, hu] using hguard
  | lease u ch l l' w₁ hu hlease =>
    have hview := leaseStep_view hlease
    refine htrying.other (threadsKept_of_eq (leaseView_kept hview).1) (fun _ => ?_) hinv
      (hne hu (by simp))
    refine ⟨(leaseView_same hview).1, ?_⟩
    cases hview <;> rfl
  | monitor p ch _ hp hmon =>
    have hview := monitorStep_view hmon
    exact htrying.keep (threadsKept_of_eq (monitorView_shared hview).1)
      (fun halone => monitor_undisturbed halone.starting hview) hinv
  | commit u c l p active hu htok =>
    rcases commitUser_cases w active p c with heq | ⟨hcur, heq⟩
    · rw [heq]
      exact htrying
    · rw [heq]
      refine ⟨s, hs, hbegun, fun hpre => ?_⟩
      have hold := hpending hpre
      obtain ⟨commits, hsince⟩ := hold.since
      have hp := (hpub.record.published p (hpub.record.token hcur).2).1
      exact ⟨hold.epoch, hold.previous, commits ++ [c], hsince.commit hp c⟩

theorem trying_run {disableHashCheck : Bool} (hreach : Reachable disableHashCheck w)
    (h : Trying w₀ t w) (hrun : Transition.Steps step (fun a e => reservesStop a e = false) w w') :
    Trying w₀ t w' := by
  refine hrun.invariant_of (fun a => a.ownership.Inv ∧ a.PubOk) (Trying w₀ t) ?_ h ?_
  · intro a ha
    have hra : Reachable disableHashCheck a := hreach.trans ha
    exact ⟨(reachable_inv hra).1, reachable_pubOk hra⟩
  · intro a e b hbase ha hguard hstep
    exact trying_step hbase.1 hbase.2 ha hguard hstep

theorem trying_begin {ch : Pick} (hs : w.threads t = .start s)
    (hpc : s.pc = .beginStart) (haccepted : (w.beginStart t).isSome = true)
    (hstep : step w (.thread t ch) = some w') : Trying w t w' := by
  obtain ⟨w₁, hw₁⟩ := Option.isSome_iff_exists.mp haccepted
  have hw₂ := hw₁
  simp only [World.beginStart] at hw₂
  split_ifs at hw₂
  cases hw₂
  simp only [step, hs, startStep, hpc, hw₁, Option.map_some, Option.some.injEq] at hstep
  subst hstep
  refine ⟨_, World.setThread_self .., rfl, fun _ => ⟨rfl, rfl, [], rfl, rfl, rfl, ?_⟩⟩
  intro p _
  exact (List.append_nil _).symm

end

/- The manager is back where it was in `w₀`, with the commits made since. -/
def World.PutBack (w₀ w : World) : Prop :=
  w.state = w₀.state ∧ ∃ commits, w₀.CommittedSince w commits

/- The process of `w₀` is gone and so is everything recorded about it. -/
def World.GoneSince (w₀ w : World) : Prop :=
  ∃ p, w₀.process = some p ∧ (w.procs p).done = true ∧ (w.procs p).finalized = true ∧
    w.state = .stopped ∧ w.process = none ∧ w.runtime = .cleared

/- The leader of the process of `w₀` has ended, or could not be observed, and the
process is kept for the rest of its cleanup. -/
def World.ExitedSince (w₀ w : World) : Prop :=
  ∃ p, w₀.process = some p ∧ (w.procs p).leaderDone = true ∧ (w.procs p).done = false ∧
    ((w.procs p).leaderObserved = true ∨ (w.procs p).observationErr ≠ none) ∧
    w.state = .stopping ∧ w.process = some p ∧ w.runtime = .cleared

/-- A Start begins in `w₀` and gives up before it terminates the previous process,
while no Stop takes the lifecycle away. Then the manager is put back, or the
previous process is gone and forgotten, or its leader has ended and it awaits
cleanup; and a process that is left running has an open `leaderDone`. -/
theorem failed_start_puts_back (disableHashCheck : Bool) (w₀ w₁ w w' : World) (t : Tid)
    (s₀ s : StartCall) (ch₀ ch : Pick) (r : StartResult) (hreach : Reachable disableHashCheck w₀)
    (hs₀ : w₀.threads t = .start s₀) (hpc₀ : s₀.pc = .beginStart)
    (haccepted : (w₀.beginStart t).isSome = true) (hbegin : step w₀ (.thread t ch₀) = some w₁)
    (hrun : Transition.Steps step (fun a e => reservesStop a e = false) w₁ w)
    (hs : w.threads t = .start s) (hpc : s.pc = .restorePrevious r)
    (hrestore : step w (.thread t ch) = some w') :
    (w₀.PutBack w' ∨ w₀.GoneSince w' ∨ w₀.ExitedSince w') ∧
      (w'.state = .running → ∀ p, w'.process = some p → (w'.procs p).leaderDone = false ∧
        ((w'.procs p).monitor = .waitLeader ∨ (w'.procs p).monitor = .closeLeaderDone)) := by
  have hreach₁ : Reachable disableHashCheck w₁ := hreach.tail _ trivial hbegin
  have hreachw : Reachable disableHashCheck w := hreach₁.trans hrun.reach
  have hinv := (reachable_inv hreachw).1
  have hfinal := (reachable_inv hreachw).2
  have hpub := reachable_pubOk hreachw
  have hreport := reachable_reportOk hreachw
  obtain ⟨s', hs', -, hpending⟩ :=
    trying_run hreach₁ (trying_begin hs₀ hpc₀ haccepted hbegin) hrun
  rw [hs] at hs'
  cases hs'
  have hpre : s.pc.pre = true := by simp [hpc]
  have hp := hpending hpre
  obtain ⟨commits, hsince⟩ := hp.since
  have hcons := (hpub.starts t s hs).pre hpre
  -- what the restoring step does, by its view
  cases step_view hrestore with
  | start _ _ s₁ s₂ w₂ ht hstart =>
    rw [hs] at ht
    cases ht
    have hview := startStep_view hinv hs hstart
    have hs₂ : s₂.pc.pre = false := by
      simp only [startStep, hpc, Option.some.injEq, Prod.mk.injEq] at hstart
      rw [← hstart.2]
      rfl
    cases hview with
    | quiet _ hframe | signal _ _ hframe =>
      rw [hframe.pre, hpre] at hs₂
      cases hs₂
    | concludes _ r' hcon =>
      cases hcon with
      | restore r' _ _ hopen =>
        refine ⟨.inl ⟨hp.previous, commits, hsince.process, hsince.publishedFor, hsince.runtime,
          hsince.history⟩, ?_⟩
        intro hst p hcur
        obtain ⟨x, hx, -, hleader⟩ := hopen hst
        have hxp : w.process = some p := hcur
        rw [hx] at hxp
        cases hxp
        exact ⟨hleader, (hreport p).waiting hleader⟩
      | restoreGone r' _ _ hprev hdone =>
        rw [hprev] at hcons
        obtain ⟨p, hcur, -⟩ := hcons
        have hd := hdone p hcur
        refine ⟨.inr (.inl ⟨p, hsince.process ▸ hcur, hd, (hfinal.procs p).done hd, rfl, rfl, rfl⟩),
          ?_⟩
        intro hst
        cases hst
      | restoreExited r' p _ _ _ hcur hd hleader =>
        have hobs := (hreport p).observed ((hreport p).closed.mp hleader).1
        refine ⟨.inr (.inr ⟨p, hsince.process ▸ hcur, hleader, hd, hobs, rfl, hcur, rfl⟩), ?_⟩
        intro hst
        cases hst
      | handOver r' _ hne => exact absurd hp.epoch hne
      | _ => simp_all
    | records _ next hrec => cases hrec <;> simp_all
    | _ => simp_all
  | stop _ _ s₁ s₂ w₂ ht | lease _ _ l₁ l₂ w₂ ht =>
    rw [hs] at ht
    cases ht

def secondStart : List Event :=
  startToRunning 0 ++ [.callStart 1 ⟨true, ⟨"", []⟩⟩, .thread 1 succeed]

/- The context of the second Start ends, and the core exits and is finalized. -/
def canceledDuringExit : List Event :=
  .endContext 1 .canceled :: List.replicate 7 (.monitor 0 succeed) ++
    List.replicate 2 (.thread 1 succeed)

theorem secondStart_runs :
    (Transition.run step (World.initial false) secondStart).isSome = true := by
  decide

/-- The theorem at a Start that is canceled while the core it would replace exits. -/
theorem failed_start_puts_back_exit :
    ∃ w₀ w' : World, w₀.state = .running ∧ w'.state = .stopped ∧
      (w₀.PutBack w' ∨ w₀.GoneSince w' ∨ w₀.ExitedSince w') := by
  let w₀ := (Transition.run step (World.initial false) secondStart).get secondStart_runs
  have hw₀ : Reachable false w₀ := Transition.run_reach _ (Option.some_get _).symm
  let w₁ := (step w₀ (.thread 1 succeed)).get (by decide)
  let guarded : World → Event → Option World := fun a e =>
    if reservesStop a e = false then step a e else none
  let w := (Transition.run guarded w₁ canceledDuringExit).get (by decide)
  let w' := (step w (.thread 1 succeed)).get (by decide)
  let call : StartCall := .new ⟨true, ⟨"", []⟩⟩
  have hs₀ : w₀.threads 1 = .start (call.goto .beginStart) := by rfl
  have hs : w.threads 1 = .start
      { call with
        pc := .restorePrevious (.canceledBy .canceled)
        ctxErr := some .canceled
        operationEpoch := 2
        previous := .running
        previousProcess := some 0 } := by rfl
  exact ⟨w₀, w', by decide, by decide,
    (failed_start_puts_back false w₀ w₁ w w' 1 _ _ succeed succeed _ hw₀ hs₀ rfl (by decide)
      (Option.some_get _).symm (Transition.run_steps _ (Option.some_get _).symm) hs rfl
      (Option.some_get _).symm).1⟩

end RemnanodeLite.Xray
