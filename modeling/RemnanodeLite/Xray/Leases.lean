import RemnanodeLite.Xray.Publication
import RemnanodeLite.Xray.SingleCore

/-! # Mutation leases

A lease reads the gate of one process, Start and Stop write it. The gate is taken
without the manager's lock and checked again afterwards, and Start skips it when
the previous process is already forgotten; what makes this safe is that a lease
exists only on a process whose hashes were published. -/

namespace RemnanodeLite.Xray

/- What one goroutine knows about the gates. -/
structure StartCall.GateOk (s : StartCall) (w : World) (t : Tid) : Prop where
  known : ∀ p, s.previousProcess = some p → p < w.spawned
  held : ∀ p, s.gateHeld = true → s.previousProcess = some p → (w.procs p).gateWriter = some t
  early : s.pc.early = true → s.gateHeld = false
  locked : ∀ p, s.pc.locked = true → s.previousProcess = some p → s.gateHeld = true

structure StopCall.GateOk (s : StopCall) (w : World) (t : Tid) : Prop where
  known : ∀ p, s.process = some p → p < w.spawned
  held : ∀ p, s.pc.gated = true → s.process = some p → (w.procs p).gateWriter = some t

structure LeaseCall.GateOk (l : LeaseCall) (w : World) (t : Tid) : Prop where
  known : ∀ p, l.pc.pid = some p → p < w.spawned ∧ (w.procs p).published ≠ none
  reads : ∀ p, l.pc.reads = some p → t ∈ (w.procs p).gateReaders

def Thread.GateOk (w : World) (t : Tid) : Thread → Prop
  | .idle => True
  | .start s => s.GateOk w t
  | .stop s => s.GateOk w t
  | .lease l => l.GateOk w t

structure World.GateOk (w : World) : Prop where
  threads : ∀ t, (w.threads t).GateOk w t
  exclusive : ∀ p, (w.procs p).gateWriter ≠ none → (w.procs p).gateReaders = ∅

/-! ### Frames -/

/- What every goroutine but `t` keeps. -/
structure World.GateKept (w w' : World) (t : Option Tid) : Prop where
  spawned : w.spawned ≤ w'.spawned
  writer : ∀ p u, p < w.spawned → some u ≠ t → (w.procs p).gateWriter = some u →
    (w'.procs p).gateWriter = some u
  reader : ∀ p u, p < w.spawned → some u ≠ t → u ∈ (w.procs p).gateReaders →
    u ∈ (w'.procs p).gateReaders
  published : ∀ p, p < w.spawned → (w.procs p).published ≠ none → (w'.procs p).published ≠ none

section
variable {w w' : World} {t : Option Tid} {u : Tid}

theorem gateKept_of_eq (hs : w'.spawned = w.spawned) (hp : w'.procs = w.procs) :
    w.GateKept w' t := by
  refine ⟨hs.ge, ?_, ?_, ?_⟩ <;> rw [hp] <;> intros <;> assumption

variable {p : Pid}

theorem gateKept_setProc {ps : ProcessState}
    (hwriter : ∀ v, some v ≠ t → (w.procs p).gateWriter = some v → ps.gateWriter = some v)
    (hreader : ∀ v, some v ≠ t → v ∈ (w.procs p).gateReaders → v ∈ ps.gateReaders)
    (hpub : (w.procs p).published ≠ none → ps.published ≠ none) :
    w.GateKept (w.setProc p ps) t := by
  refine ⟨le_rfl, ?_, ?_, ?_⟩
  · intro x v _ hv hw
    rcases eq_or_ne x p with rfl | hx
    · rw [World.setProc_self]
      exact hwriter v hv hw
    · rw [World.setProc_of_ne _ _ hx]
      exact hw
  · intro x v _ hv hr
    rcases eq_or_ne x p with rfl | hx
    · rw [World.setProc_self]
      exact hreader v hv hr
    · rw [World.setProc_of_ne _ _ hx]
      exact hr
  · intro x _ hpx
    rcases eq_or_ne x p with rfl | hx
    · rw [World.setProc_self]
      exact hpub hpx
    · rw [World.setProc_of_ne _ _ hx]
      exact hpx

theorem gateKept_setProc_of_eq {ps : ProcessState}
    (hwriter : ps.gateWriter = (w.procs p).gateWriter)
    (hreader : ps.gateReaders = (w.procs p).gateReaders)
    (hpub : (w.procs p).published ≠ none → ps.published ≠ none) :
    w.GateKept (w.setProc p ps) t := by
  refine gateKept_setProc ?_ ?_ hpub
  · intro v _ hv
    rw [hwriter]
    exact hv
  · intro v _ hv
    rw [hreader]
    exact hv

theorem gateKept_spawn (epoch : ℕ) : w.GateKept (w.spawn epoch) t := by
  have hother : ∀ p, p < w.spawned → (w.spawn epoch).procs p = w.procs p := by
    intro p hp
    simp only [World.spawn, World.setProc_of_ne _ _ hp.ne]
  refine ⟨Nat.le_succ _, ?_, ?_, ?_⟩
  · intro p v hp _ hw
    rw [hother p hp]
    exact hw
  · intro p v hp _ hr
    rw [hother p hp]
    exact hr
  · intro p hp hpub
    rw [hother p hp]
    exact hpub

theorem StartCall.GateOk.kept {s : StartCall} (h : s.GateOk w u) (hk : w.GateKept w' t)
    (hu : some u ≠ t) : s.GateOk w' u := by
  refine ⟨?_, ?_, h.early, h.locked⟩
  · intro p hp
    exact lt_of_lt_of_le (h.known p hp) hk.spawned
  · intro p hheld hp
    exact hk.writer p u (h.known p hp) hu (h.held p hheld hp)

theorem StopCall.GateOk.kept {s : StopCall} (h : s.GateOk w u) (hk : w.GateKept w' t)
    (hu : some u ≠ t) : s.GateOk w' u := by
  refine ⟨?_, ?_⟩
  · intro p hp
    exact lt_of_lt_of_le (h.known p hp) hk.spawned
  · intro p hgated hp
    exact hk.writer p u (h.known p hp) hu (h.held p hgated hp)

theorem pid_of_reads {pc : LeasePC} (h : pc.reads = some p) : pc.pid = some p := by
  cases pc <;> simp_all [LeasePC.reads, LeasePC.pid]

theorem LeaseCall.GateOk.kept {l : LeaseCall} (h : l.GateOk w u) (hk : w.GateKept w' t)
    (hu : some u ≠ t) : l.GateOk w' u := by
  refine ⟨?_, ?_⟩
  · intro p hp
    obtain ⟨hlt, hpub⟩ := h.known p hp
    exact ⟨lt_of_lt_of_le hlt hk.spawned, hk.published p hlt hpub⟩
  · intro p hp
    exact hk.reader p u (h.known p (pid_of_reads hp)).1 hu (h.reads p hp)

theorem Thread.GateOk.kept {th : Thread} (h : th.GateOk w u) (hk : w.GateKept w' t)
    (hu : some u ≠ t) : th.GateOk w' u := by
  cases th with
  | idle => exact trivial
  | start s => exact StartCall.GateOk.kept h hk hu
  | stop s => exact StopCall.GateOk.kept h hk hu
  | lease l => exact LeaseCall.GateOk.kept h hk hu

end

/-! ### One goroutine moves -/

section
variable {w w' : World} {t : Tid} {th : Thread}

theorem World.GateOk.of_kept (h : w.GateOk) (hth : w'.threads = w.threads)
    (hk : w.GateKept w' none)
    (hex : ∀ p, (w'.procs p).gateWriter ≠ none → (w'.procs p).gateReaders = ∅) : w'.GateOk := by
  refine ⟨?_, hex⟩
  intro u
  rw [hth]
  exact (h.threads u).kept hk (by simp)

theorem World.GateOk.congr (h : w.GateOk) (hth : w'.threads = w.threads)
    (hs : w'.spawned = w.spawned) (hp : w'.procs = w.procs) : w'.GateOk := by
  refine h.of_kept hth (gateKept_of_eq hs hp) ?_
  rw [hp]
  exact h.exclusive

theorem World.GateOk.setProc_of_eq (h : w.GateOk) {p : Pid} {ps : ProcessState}
    (hwriter : ps.gateWriter = (w.procs p).gateWriter)
    (hreader : ps.gateReaders = (w.procs p).gateReaders)
    (hpub : (w.procs p).published ≠ none → ps.published ≠ none) : (w.setProc p ps).GateOk := by
  refine h.of_kept rfl (gateKept_setProc_of_eq hwriter hreader hpub) ?_
  intro x
  rcases eq_or_ne x p with rfl | hx
  · rw [World.setProc_self, hwriter, hreader]
    exact h.exclusive x
  · rw [World.setProc_of_ne _ _ hx]
    exact h.exclusive x

theorem World.GateOk.update (h : w.GateOk) (hthreads : w.ThreadsKept w')
    (hk : w.GateKept w' (some t)) (hth : th.GateOk w' t)
    (hex : ∀ p, (w'.procs p).gateWriter ≠ none → (w'.procs p).gateReaders = ∅) :
    (w'.setThread t th).GateOk := by
  refine ⟨?_, hex⟩
  have hsame : w'.GateKept (w'.setThread t th) none := gateKept_of_eq rfl rfl
  intro u
  rcases eq_or_ne u t with rfl | hne
  · rw [World.setThread_self]
    exact hth.kept hsame (by simp)
  · rw [World.setThread_of_ne _ _ hne]
    refine Thread.GateOk.kept ?_ hsame (by simp)
    have hu := (h.threads u).kept hk (by simpa using hne)
    rcases hthreads u with heq | ⟨s₀, c, h₀, heq⟩
    · rw [heq]
      exact hu
    · rw [h₀] at hu
      rw [heq]
      exact ⟨hu.known, hu.held, hu.early, hu.locked⟩

theorem World.GateOk.update_same (h : w.GateOk) (hthreads : w.ThreadsKept w')
    (hs : w'.spawned = w.spawned) (hp : w'.procs = w.procs) (hth : th.GateOk w' t) :
    (w'.setThread t th).GateOk := by
  refine h.update hthreads (gateKept_of_eq hs hp) hth ?_
  rw [hp]
  exact h.exclusive

theorem World.GateOk.update_setProc (h : w.GateOk) {p : Pid} {ps : ProcessState}
    (hk : w.GateKept (w.setProc p ps) (some t)) (hth : th.GateOk (w.setProc p ps) t)
    (hex : ps.gateWriter ≠ none → ps.gateReaders = ∅) : ((w.setProc p ps).setThread t th).GateOk := by
  refine h.update (threadsKept_of_eq rfl) hk hth ?_
  intro x
  rcases eq_or_ne x p with rfl | hx
  · rw [World.setProc_self]
    exact hex
  · rw [World.setProc_of_ne _ _ hx]
    exact h.exclusive x

variable {p : Pid}

theorem World.GateOk.lock (h : w.GateOk) (hwriter : (w.procs p).gateWriter = none)
    (hreaders : (w.procs p).gateReaders = ∅)
    (hth : th.GateOk (w.setProc p { w.procs p with gateWriter := some t }) t) :
    ((w.setProc p { w.procs p with gateWriter := some t }).setThread t th).GateOk := by
  refine h.update_setProc (gateKept_setProc ?_ (fun _ _ => id) id) hth fun _ => hreaders
  intro v _ hv
  rw [hwriter] at hv
  cases hv

theorem World.GateOk.unlock (h : w.GateOk) (hwriter : (w.procs p).gateWriter = some t)
    (hth : th.GateOk (w.setProc p { w.procs p with gateWriter := none }) t) :
    ((w.setProc p { w.procs p with gateWriter := none }).setThread t th).GateOk := by
  refine h.update_setProc (gateKept_setProc ?_ (fun _ _ => id) id) hth fun hne => absurd rfl hne
  intro v hne hv
  rw [hwriter] at hv
  cases hv
  exact absurd rfl hne

end

/-! ### Start -/

section
variable {w w' : World} {t : Tid} {s s' : StartCall}

theorem StartCall.GateOk.of_frame (h : s.GateOk w t) (hframe : s.SameFrame s') :
    s'.GateOk w t := by
  refine ⟨?_, ?_, ?_, ?_⟩
  · rw [hframe.previousProcess]
    exact h.known
  · rw [hframe.previousProcess, hframe.gateHeld]
    exact h.held
  · intro hearly
    rw [hframe.gateHeld]
    exact h.early (hframe.early hearly)
  · intro p hlocked hp
    rw [hframe.previousProcess] at hp
    rw [hframe.gateHeld]
    rcases hframe.locked hlocked with hl | hl
    · exact h.locked p hl hp
    · rw [hp] at hl
      cases hl

theorem StartCall.GateOk.goto (h : s.GateOk w t) {pc : StartPC} (hearly : pc.early = false)
    (hlocked : pc.locked = false) : (s.goto pc).GateOk w t := by
  refine ⟨h.known, h.held, ?_, ?_⟩
  · intro he
    exact absurd (hearly.symm.trans he) Bool.false_ne_true
  · intro p hl
    exact absurd (hlocked.symm.trans hl) Bool.false_ne_true

theorem StartCall.GateOk.congr (h : s.GateOk w t) (hs : w'.spawned = w.spawned)
    (hp : w'.procs = w.procs) : s.GateOk w' t :=
  h.kept (gateKept_of_eq hs hp : w.GateKept w' none) (by simp)

theorem startView_gateOk (hpub : w.PubOk) (h : w.GateOk) (hs : w.threads t = .start s)
    (hv : StartView w t s w' s') : (w'.setThread t (.start s')).GateOk := by
  have hstart : s.GateOk w t := by
    have := h.threads t
    rwa [hs] at this
  have hgoto : ∀ {w₁ : World} {pc : StartPC}, w₁.threads = w.threads → w₁.spawned = w.spawned →
      w₁.procs = w.procs → pc.early = false → pc.locked = false →
      (w₁.setThread t (.start (s.goto pc))).GateOk := by
    intro w₁ pc hth hsp hpr he hl
    exact h.update_same (threadsKept_of_eq hth) hsp hpr ((hstart.goto he hl).congr hsp hpr)
  cases hv with
  | quiet s' hframe => exact h.update_same (threadsKept_of_eq rfl) rfl rfl (hstart.of_frame hframe)
  | signal p s' hframe =>
    exact h.update_same (threadsKept_of_eq (recordSignal_threads ..)) (recordSignal_spawned ..)
      (recordSignal_procs ..)
      ((hstart.of_frame hframe).congr (recordSignal_spawned ..) (recordSignal_procs ..))
  | begin hpc =>
    refine h.update_same (threadsKept_of_eq rfl) rfl rfl ⟨hstart.known, hstart.held, ?_, ?_⟩
    · exact fun _ => hstart.early (by simp [hpc])
    · simp
  | read hpc =>
    have hheld : s.gateHeld = false := hstart.early (by simp [hpc])
    refine h.update_same (threadsKept_of_eq rfl) rfl rfl ⟨hpub.record.current, ?_, ?_, ?_⟩
    · simp [hheld]
    · exact fun _ => hheld
    · simp
  | lock p hpc hp hwriter hreaders =>
    refine h.lock hwriter hreaders ⟨hstart.known, ?_, by simp, fun _ _ _ => rfl⟩
    intro x _ hx
    rw [show s.previousProcess = some x from hx] at hp
    cases hp
    rw [World.setProc_self]
  | unlock p next hheld hp hframe hpc =>
    refine h.unlock (hstart.held p hheld hp) ⟨hstart.known, by simp, fun _ => rfl, ?_⟩
    intro x hlocked
    rcases hpc with ⟨-, rfl⟩ | ⟨r, -, rfl⟩ <;> cases hlocked
  | reserve hpc =>
    refine h.update_same (threadsKept_of_eq rfl) rfl rfl ⟨hstart.known, hstart.held, ?_, ?_⟩
    · simp
    · exact fun p _ => hstart.locked p (by simp [hpc])
  | lose next _ hnext =>
    rcases hnext with ⟨-, rfl⟩ | ⟨p, -, rfl⟩ <;> exact hgoto rfl rfl rfl rfl rfl
  | records w' next hrec =>
    cases hrec with
    | spawn hpc =>
      have hspawn : w.GateKept (w.spawn s.processEpoch) none := gateKept_spawn _
      refine h.update (threadsKept_of_eq rfl) (gateKept_spawn _)
        (StartCall.GateOk.kept (hstart.goto rfl rfl) hspawn (by simp)) ?_
      intro x hx
      rcases eq_or_ne x w.spawned with rfl | hne
      · simp [World.spawn, ProcessState.spawn] at hx
      · simp only [World.spawn, World.setProc_of_ne _ _ hne] at hx ⊢
        exact h.exclusive x hx
    | _ => exact hgoto rfl rfl rfl rfl rfl
  | concludes w' r hcon =>
    cases hcon with
    | commit p =>
      have hset : ∀ u, w.GateKept (w.setProc p { w.procs p with
          published := some s.prepared.hashState }) u := fun u =>
        gateKept_setProc_of_eq rfl rfl (by simp)
      have hproc : ((w.setProc p { w.procs p with
          published := some s.prepared.hashState }).setThread t
          (.start (s.goto (.deferredUnlock .started)))).GateOk :=
        h.update_setProc (hset _)
          (StartCall.GateOk.kept (hstart.goto rfl rfl) (hset none) (by simp)) (h.exclusive p)
      exact hproc.congr rfl rfl rfl
    | _ => exact hgoto rfl rfl rfl rfl rfl
  | _ => exact hgoto rfl rfl rfl rfl rfl

end

/-! ### Stop -/

variable {w w' : World}

theorem stopView_gateOk {t : Tid} {s s' : StopCall} (hpub : w.PubOk) (h : w.GateOk)
    (hs : w.threads t = .stop s) (hv : StopView w t s w' s') :
    (w'.setThread t (.stop s')).GateOk := by
  have hstop : s.GateOk w t := by
    have := h.threads t
    rwa [hs] at this
  have hloose : w'.spawned = w.spawned → w'.procs = w.procs → s'.process = s.process →
      (s'.pc.gated = true → s.pc.gated = true) → (w'.setThread t (.stop s')).GateOk := by
    intro hsp hpr hproc hgated
    refine h.update_same (stopView_threadsKept hv) hsp hpr ⟨?_, ?_⟩
    · rw [hproc, hsp]
      exact hstop.known
    · intro p hg
      rw [hproc, hpr]
      exact hstop.held p (hgated hg)
  cases hv with
  | quiet s' hframe =>
    refine h.update_same (threadsKept_of_eq rfl) rfl rfl ⟨?_, ?_⟩
    · rw [hframe.process]
      exact hstop.known
    · intro p hgated hp
      rw [hframe.process] at hp
      exact hstop.held p ((hframe.gated (by simp [hp])).symm.trans hgated) hp
  | signal p s' hframe hp hgated =>
    exact hloose (recordSignal_spawned ..) (recordSignal_procs ..) hframe.process fun _ => hgated
  | reserveWait retry | reserveOwn retry | acquire =>
    exact hloose rfl rfl rfl (by simp)
  | cancel target =>
    obtain ⟨threads, heq, -⟩ := cancel_kept w target
    exact hloose (by rw [heq]) (by rw [heq]) rfl (by simp)
  | read =>
    refine h.update_same (threadsKept_of_eq rfl) rfl rfl ⟨hpub.record.current, ?_⟩
    simp
  | lock p next hpc hp _ hwriter hreaders =>
    refine h.lock hwriter hreaders ⟨hstop.known, ?_⟩
    intro x _ hx
    rw [show s.process = some x from hx] at hp
    cases hp
    rw [World.setProc_self]
  | unlock p b hpc hp =>
    exact h.unlock (hstop.held p (by simp [hpc]) hp) ⟨hstop.known, by simp⟩
  | finalize p pc ch ps sent r next hpc hp hfin hnext =>
    have hspec := finalizeStep_spec hfin
    have hset : ∀ u, w.GateKept (w.setProc p ps) u := fun u =>
      gateKept_setProc_of_eq hspec.gateWriter hspec.gateReaders (by rw [hspec.published]; exact id)
    have hproc : ((w.setProc p ps).setThread t (.stop { s with pc := next })).GateOk := by
      have hself : StopCall.GateOk { s with pc := next } w t :=
        ⟨hstop.known, fun x _ => hstop.held x (by simp [hpc])⟩
      refine h.update_setProc (hset _) (StopCall.GateOk.kept hself (hset none) (by simp)) ?_
      rw [hspec.gateWriter, hspec.gateReaders]
      exact h.exclusive p
    unfold World.recordSignal
    split_ifs
    · exact hproc.congr rfl rfl rfl
    · exact hproc
  | outcome err hpc | publishStopped hpc | publishStopping hpc =>
    exact hloose rfl rfl rfl (by simp [hpc])

/-! ### Monitors, leases, commits -/

theorem monitorView_gateOk {p : Pid} (h : w.GateOk) (hv : MonitorView w p w') :
    w'.GateOk := by
  cases hv with
  | observe ps hobs =>
    exact h.setProc_of_eq hobs.gateWriter hobs.gateReaders (by rw [hobs.published]; exact id)
  | finalize pc ch ps sent r next _ hfin =>
    have hspec := finalizeStep_spec hfin
    have hps : (w.setProc p { ps with monitor := next }).GateOk :=
      h.setProc_of_eq hspec.gateWriter hspec.gateReaders (by rw [hspec.published]; exact id)
    exact hps.congr (recordSignal_threads ..) (recordSignal_spawned ..) (recordSignal_procs ..)
  | readOutcome => exact h.setProc_of_eq rfl rfl id
  | callback o =>
    obtain ⟨hprocs, hth, hsp⟩ := monitorCallback_shared w p o
    refine (h.congr hth hsp hprocs).setProc_of_eq ?_ ?_ ?_ <;> rw [hprocs]
    exact id

theorem leasable_published (hrec : w.RecordOk) {p : Pid} (h : w.leasable p = true) :
    p < w.spawned ∧ (w.procs p).published ≠ none := by
  have htok : w.tokenCurrent true p = true := by
    simp only [World.leasable, Bool.and_eq_true] at h
    simp only [World.tokenCurrent, Bool.true_and, Bool.and_eq_true]
    exact ⟨h.1.2, h.2⟩
  obtain ⟨hcur, -, -, hpub⟩ := hrec.published p (hrec.token htok).2
  refine ⟨hrec.current p hcur, ?_⟩
  intro hnone
  simp [ProcessState.recorded, hnone] at hpub

theorem leaseView_gateOk {t : Tid} {l l' : LeaseCall} (hpub : w.PubOk) (h : w.GateOk)
    (hl : w.threads t = .lease l) (hv : LeaseView w t l w' l') :
    (w'.setThread t (.lease l')).GateOk := by
  have hlease : l.GateOk w t := by
    have := h.threads t
    rwa [hl] at this
  cases hv with
  | quiet l' h1 h2 =>
    exact h.update_same (threadsKept_of_eq rfl) rfl rfl
      ⟨fun p hp => hlease.known p (h1 p hp), fun p hp => hlease.reads p (h2 p hp)⟩
  | begin p hpc hlea =>
    refine h.update_same (threadsKept_of_eq rfl) rfl rfl ⟨?_, by simp [LeasePC.reads]⟩
    intro x hx
    simp only [LeasePC.pid, Option.some.injEq] at hx
    subst hx
    exact leasable_published hpub.record hlea
  | enter p hpc hwriter =>
    have hset : ∀ v, w.GateKept (w.setProc p { w.procs p with
        gateReaders := insert t (w.procs p).gateReaders }) v := fun v =>
      gateKept_setProc (fun _ _ => id) (fun _ _ hv => Finset.mem_insert_of_mem hv) id
    refine h.update_setProc (hset _) ⟨?_, ?_⟩ (fun hne => absurd hwriter hne)
    · intro x hx
      obtain ⟨hlt, hpub'⟩ := hlease.known x (by simpa only [LeasePC.pid, hpc] using hx)
      exact ⟨hlt, (hset none).published x hlt hpub'⟩
    · intro x hx
      simp only [LeasePC.reads, Option.some.injEq] at hx
      subst hx
      rw [World.setProc_self]
      exact Finset.mem_insert_self _ _
  | leave p l' _ h1 h2 =>
    refine h.update_setProc (gateKept_setProc (fun _ _ => id) ?_ id) ⟨?_, ?_⟩ ?_
    · intro v hne hv
      exact Finset.mem_erase.mpr ⟨fun heq => hne (congrArg some heq), hv⟩
    · simp [h1]
    · simp [h2]
    · intro hne
      simp [h.exclusive p hne]

theorem commitUser_gateOk (h : w.GateOk) (active : Bool) (p : Pid) (u : UserCommit) :
    (w.commitUser active p u).1.GateOk := by
  rcases commitUser_cases w active p u with heq | ⟨-, heq⟩ <;> rw [heq]
  · exact h
  have hset : (w.setProc p { w.procs p with commits := (w.procs p).commits ++ [u] }).GateOk :=
    h.setProc_of_eq rfl rfl id
  exact hset.congr rfl rfl rfl

theorem step_gateOk {e : Event} (hinv : w.ownership.Inv) (hpub : w.PubOk) (h : w.GateOk)
    (hstep : step w e = some w') : w'.GateOk := by
  cases step_view hstep with
  | callStart t req ht =>
    refine h.update_same (threadsKept_of_eq rfl) rfl rfl ⟨?_, ?_, fun _ => rfl, ?_⟩ <;>
      simp [StartCall.new]
  | callStop t ht =>
    refine h.update_same (threadsKept_of_eq rfl) rfl rfl ⟨?_, ?_⟩ <;> simp
  | callLease t ht =>
    refine h.update_same (threadsKept_of_eq rfl) rfl rfl ⟨?_, ?_⟩ <;>
      simp [LeasePC.pid, LeasePC.reads]
  | endStart t s err c ht =>
    have hstart := h.threads t
    rw [ht] at hstart
    exact h.update_same (threadsKept_of_eq rfl) rfl rfl
      ⟨hstart.known, hstart.held, hstart.early, hstart.locked⟩
  | endLease t l err c ht =>
    have hlease := h.threads t
    rw [ht] at hlease
    exact h.update_same (threadsKept_of_eq rfl) rfl rfl ⟨hlease.known, hlease.reads⟩
  | start t ch s s' w₁ ht hs => exact startView_gateOk hpub h ht (startStep_view hinv ht hs)
  | stop t ch s s' w₁ ht hs => exact stopView_gateOk hpub h ht (stopStep_view hinv ht hs)
  | lease t ch l l' w₁ ht hs => exact leaseView_gateOk hpub h ht (leaseStep_view hs)
  | monitor p ch _ hp hs => exact monitorView_gateOk h (monitorStep_view hs)
  | commit t u l p active ht htok => exact commitUser_gateOk h active p u

theorem gateOk_initial (disableHashCheck : Bool) : (World.initial disableHashCheck).GateOk :=
  ⟨fun _ => trivial, fun _ _ => rfl⟩

theorem reachable_gateOk {disableHashCheck : Bool} (h : Reachable disableHashCheck w) :
    w.GateOk := by
  refine h.invariant_of (fun w => w.ownership.Inv ∧ w.PubOk) World.GateOk
    (fun a ha => ⟨(reachable_inv ha).1, reachable_pubOk ha⟩) (gateOk_initial disableHashCheck) ?_
  intro a e b hbase hok _ hstep
  exact step_gateOk hbase.1 hbase.2 hok hstep

/-! ### Isolation -/

/- Goroutine `u` holds an active token for `p`. -/
def World.ActiveLease (w : World) (u : Tid) (p : Pid) : Prop :=
  ∃ l, w.threads u = .lease l ∧ l.pc = .active p

section
variable {w w' : World} {t u : Tid} {p : Pid}

theorem World.GateOk.not_active (h : w.GateOk) (hw : (w.procs p).gateWriter = some t) :
    ¬ w.ActiveLease u p := by
  intro hlease
  obtain ⟨l, hl, hpc⟩ := hlease
  have hok := h.threads u
  rw [hl] at hok
  have hmem := hok.reads p (by simp only [LeasePC.reads, hpc])
  rw [h.exclusive p (by simp [hw])] at hmem
  exact absurd hmem (Finset.notMem_empty u)

theorem World.GateOk.not_active_of_unpublished (h : w.GateOk) (hp : (w.procs p).published = none) :
    ¬ w.ActiveLease u p := by
  intro hlease
  obtain ⟨l, hl, hpc⟩ := hlease
  have hok := h.threads u
  rw [hl] at hok
  exact (hok.known p (by simp only [LeasePC.pid, hpc])).2 hp

/- What one step may add to the history of signals. -/
def SendsOutsideLeases (w w' : World) : Prop :=
  w'.signaled = w.signaled ∨ ∃ who p, w'.signaled = (who, p) :: w.signaled ∧
    (who ≠ .monitor → ∀ u, ¬ w.ActiveLease u p)

/- A Start signals the previous process under its gate, or its own process, which
nobody can lease yet. -/
theorem startView_signaled {s s' : StartCall} (hpub : w.PubOk) (h : w.GateOk)
    (hs : w.threads t = .start s) (hv : StartView w t s w' s') : SendsOutsideLeases w w' := by
  cases hv with
  | signal p s' _ htarget =>
    refine .inr ⟨.thread t, p, rfl, fun _ u => ?_⟩
    have hgate := h.threads t
    rw [hs] at hgate
    have hown : s.pc.newPid = some p → ¬ w.ActiveLease u p := fun hnew =>
      h.not_active_of_unpublished ((hpub.starts t s hs).fresh p hnew).2
    cases hpc : s.pc with
    | terminatePrevious pc =>
      have hp : s.previousProcess = some p := by
        simpa only [StartCall.target, hpc] using htarget
      have hheld := hgate.locked p (by simp [hpc]) hp
      exact h.not_active (hgate.held p hheld hp)
    | terminateUnassigned x pc | terminateNew x ready pc =>
      refine hown ?_
      simpa only [StartCall.target, StartPC.newPid, hpc] using htarget
    | _ => simp [StartCall.target, hpc] at htarget
  | records w' next hrec => cases hrec <;> exact .inl rfl
  | concludes w' r hcon => cases hcon <;> exact .inl rfl
  | _ => exact .inl rfl

theorem stopView_signaled {s s' : StopCall} (h : w.GateOk) (hs : w.threads t = .stop s)
    (hv : StopView w t s w' s') : SendsOutsideLeases w w' := by
  have hgate := h.threads t
  rw [hs] at hgate
  cases hv with
  | signal p s' _ hp hgated =>
    exact .inr ⟨.thread t, p, rfl, fun _ u => h.not_active (hgate.held p hgated hp)⟩
  | finalize p pc ch ps sent r next hpc hp =>
    have hgated : s.pc.gated = true := by simp [hpc]
    cases sent with
    | false => exact .inl rfl
    | true => exact .inr ⟨.thread t, p, rfl, fun _ u => h.not_active (hgate.held p hgated hp)⟩
  | cancel target =>
    obtain ⟨threads, heq, -⟩ := cancel_kept w target
    rw [heq]
    exact .inl rfl
  | _ => exact .inl rfl

theorem monitorView_signaled (hv : MonitorView w p w') : SendsOutsideLeases w w' := by
  cases hv with
  | observe ps => exact .inl rfl
  | finalize pc ch ps sent r next =>
    cases sent with
    | false => exact .inl rfl
    | true => exact .inr ⟨.monitor, p, rfl, fun hne => absurd rfl hne⟩
  | readOutcome => exact .inl rfl
  | callback o =>
    rcases monitorCallback_cases w p o with ⟨-, heq⟩ | ⟨-, -, ⟨-, heq⟩ | ⟨-, heq⟩⟩ <;>
      (rw [heq]; exact .inl rfl)

theorem leaseView_signaled {l l' : LeaseCall} (hv : LeaseView w t l w' l') :
    w'.signaled = w.signaled := by
  cases hv <;> rfl

theorem step_signaled {e : Event} (hinv : w.ownership.Inv) (hpub : w.PubOk) (h : w.GateOk)
    (hstep : step w e = some w') : SendsOutsideLeases w w' := by
  cases step_view hstep with
  | start t ch s s' w₁ ht hs =>
    have hview : SendsOutsideLeases w w₁ := startView_signaled hpub h ht (startStep_view hinv ht hs)
    exact hview
  | stop t ch s s' w₁ ht hs =>
    have hview : SendsOutsideLeases w w₁ := stopView_signaled h ht (stopStep_view hinv ht hs)
    exact hview
  | lease t ch l l' w₁ ht hs =>
    have hsame : w₁.signaled = w.signaled := leaseView_signaled (leaseStep_view hs)
    exact .inl hsame
  | monitor p ch _ hp hs => exact monitorView_signaled (monitorStep_view hs)
  | commit t u l p active ht htok =>
    rcases commitUser_cases w active p u with heq | ⟨-, heq⟩ <;> rw [heq] <;> exact .inl rfl
  | _ => exact .inl rfl

theorem commit_changes {u : UserCommit} (hrec : w.RecordOk) (hstep : step w (.commit t u) = some w')
    (hne : w'.runtime.hashState ≠ w.runtime.hashState) :
    ∃ p, w.ActiveLease t p ∧ w.publishedFor = some p := by
  cases step_view hstep with
  | commit _ _ l p active ht htok =>
    have hcur : w.tokenCurrent active p = true := by
      rcases commitUser_cases w active p u with heq | ⟨hcur, -⟩
      · exact absurd (by rw [heq]) hne
      · exact hcur
    obtain ⟨hact, hfor⟩ := hrec.token hcur
    refine ⟨p, ⟨l, ht, ?_⟩, hfor⟩
    rw [hact] at htok
    cases hpc : l.pc with
    | active x =>
      simp only [LeasePC.token, hpc, Option.some.injEq, Prod.mk.injEq, and_true] at htok
      rw [htok]
    | returned token => cases token <;> simp [LeasePC.token, hpc] at htok
    | _ => simp [LeasePC.token, hpc] at htok

theorem comparing_excludes {s : StartCall} (hinv : w.ownership.Inv) (hpub : w.PubOk) (h : w.GateOk)
    (hs : w.threads t = .start s) (hcomp : s.pc.comparing = true) :
    ∃ p, w.process = some p ∧ w.publishedFor = some p ∧ ∀ u, ¬ w.ActiveLease u p := by
  have hrole : w.ownership.role t = .owns (.start s.operationEpoch) (.holding s.previousProcess) ∧
      s.pc.pre = true ∧ s.pc.locked = true := by
    cases hpc : s.pc with
    | ctxAfterProbe | checkRestart | completeUnchanged =>
      simp [World.ownership, hs, Thread.role, StartCall.role, hpc, and_self]
    | _ => simp [hpc] at hcomp
  have hstart := hpub.starts t s hs
  have hcons := hstart.pre hrole.2.1
  rw [hstart.comparing hcomp] at hcons
  obtain ⟨p, hp, hfor⟩ := hcons
  have hprev : s.previousProcess = some p := (hinv.phase t _ _ hrole.1).1.symm.trans hp
  have hgate := h.threads t
  rw [hs] at hgate
  have hheld := hgate.locked p hrole.2.2 hprev
  exact ⟨p, hp, hfor, fun u => h.not_active (hgate.held p hheld hprev)⟩

end

/-- Mutation leases isolate core generations. In every reachable world: no step of
a Start or a Stop signals a process on which a lease is active; a commit changes the
record only with an active token for the process it was published for, under that
process's own epoch; and while a Start compares its request with the running core,
no lease on that core is active and the record contains every commit made on it. -/
theorem leases_isolate_generations (disableHashCheck : Bool) (w : World)
    (h : Reachable disableHashCheck w) :
    (∀ e w', step w e = some w' → w'.signaled = w.signaled ∨
        ∃ who p, w'.signaled = (who, p) :: w.signaled ∧
          (who ≠ .monitor → ∀ u, ¬ w.ActiveLease u p)) ∧
      (∀ t u w', step w (.commit t u) = some w' → w'.runtime.hashState ≠ w.runtime.hashState →
        ∃ p, w.ActiveLease t p ∧ w.publishedFor = some p ∧ w.process = some p ∧
          w.runtime.runtimeProcessEpoch = (w.procs p).epoch) ∧
      ∀ t s, w.threads t = .start s → s.pc = .checkRestart ∨ s.pc = .completeUnchanged →
        ∃ p, w.process = some p ∧ w.publishedFor = some p ∧ (∀ u, ¬ w.ActiveLease u p) ∧
          (w.procs p).recorded = some w.runtime.hashState := by
  have hinv := (reachable_inv h).1
  have hpub := reachable_pubOk h
  have hgate := reachable_gateOk h
  refine ⟨?_, ?_, ?_⟩
  · intro e w' hstep
    exact step_signaled hinv hpub hgate hstep
  · intro t u w' hstep hne
    obtain ⟨p, hactive, hfor⟩ := commit_changes hpub.record hstep hne
    obtain ⟨hp, -, hepoch, -⟩ := hpub.record.published p hfor
    exact ⟨p, hactive, hfor, hp, hepoch⟩
  · intro t s hs hpc
    have hcomp : s.pc.comparing = true := by
      rcases hpc with hpc | hpc <;> simp [hpc]
    obtain ⟨p, hp, hfor, hnone⟩ := comparing_excludes hinv hpub hgate hs hcomp
    exact ⟨p, hp, hfor, hnone, (hpub.record.published p hfor).2.2.2⟩

def leaseOnRunning : List Event :=
  startUntilSpawn 0 ++ List.replicate 9 (.thread 0 succeed) ++
    .callLease 1 :: List.replicate 4 (.thread 1 succeed)

theorem leaseOnRunning_runs :
    (Transition.run step (World.initial false) leaseOnRunning).isSome = true := by
  decide

/-- The theorem at a world with an active lease, where nobody may signal its core. -/
theorem leases_isolate_generations_active :
    ∃ w : World, w.threads 1 = .lease ⟨.active 0, none⟩ ∧ w.publishedFor = some 0 ∧
      ∀ e w', step w e = some w' → ∀ t, w'.signaled ≠ (.thread t, 0) :: w.signaled := by
  let w := (Transition.run step (World.initial false) leaseOnRunning).get leaseOnRunning_runs
  have hw : Reachable false w := Transition.run_reach _ (Option.some_get _).symm
  have hlease : w.threads 1 = .lease ⟨.active 0, none⟩ := by rfl
  refine ⟨w, hlease, by decide, ?_⟩
  intro e w' hstep t hsig
  rcases (leases_isolate_generations false w hw).1 e w' hstep with hsame | ⟨who, p, heq, hno⟩
  · rw [hsame] at hsig
    exact absurd hsig (by simp)
  · rw [heq] at hsig
    cases hsig
    exact hno (by simp) 1 ⟨_, hlease, rfl⟩

end RemnanodeLite.Xray
