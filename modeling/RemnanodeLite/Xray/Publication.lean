import RemnanodeLite.Xray.Refinement

/-! # What is recorded about the current core

`Start` publishes the hashes of its core under the core's own epoch, leases add
to them, and whoever forgets the core clears them. In every reachable world the
record is that of `m.process` with every commit made on it, or it is empty. -/

namespace RemnanodeLite.Xray

/- The hash state published for a process with the commits made since. -/
def ProcessState.recorded (ps : ProcessState) : Option RuntimeHashState :=
  ps.published.map fun base => ps.commits.foldl UserCommit.apply base

structure World.RecordOk (w : World) : Prop where
  published : ∀ p, w.publishedFor = some p →
    w.process = some p ∧ w.runtime.pendingConfigJSON = none ∧
      w.runtime.runtimeProcessEpoch = (w.procs p).epoch ∧
      (w.procs p).recorded = some w.runtime.hashState
  unpublished : w.publishedFor = none →
    w.runtime.runtimeProcessEpoch = 0 ∧ w.runtime.hashState = .cleared
  epochs : ∀ p, p < w.spawned → 0 < (w.procs p).epoch
  commits : ∀ p, (w.procs p).published = none → (w.procs p).commits = []
  current : ∀ p, w.process = some p → p < w.spawned

def World.Consistent (w : World) : LifecycleState → Prop
  | .stopped => w.process = none ∧ w.publishedFor = none ∧ w.runtime = .cleared
  | .running => ∃ p, w.process = some p ∧ w.publishedFor = some p
  | _ => True

/- What a Start relies on: the state it found is still true of the record until it
terminates the previous process, and its own process is new. -/
structure StartCall.RecordOk (s : StartCall) (w : World) : Prop where
  pre : s.pc.pre = true → w.Consistent s.previous
  fresh : ∀ p, s.pc.newPid = some p → p < w.spawned ∧ (w.procs p).published = none
  reserved : s.pc.reserved = true → 0 < s.processEpoch
  comparing : s.pc.comparing = true → s.previous = .running

structure World.PubOk (w : World) : Prop where
  record : w.RecordOk
  state : w.Consistent w.state
  starts : ∀ t s, w.threads t = .start s → s.RecordOk w

/-! ### Worlds with the same record -/

structure World.SameRecord (w w' : World) : Prop where
  process : w'.process = w.process
  publishedFor : w'.publishedFor = w.publishedFor
  runtime : w'.runtime = w.runtime
  spawned : w'.spawned = w.spawned
  epoch : ∀ p, (w'.procs p).epoch = (w.procs p).epoch
  published : ∀ p, (w'.procs p).published = (w.procs p).published
  commits : ∀ p, (w'.procs p).commits = (w.procs p).commits

namespace World.SameRecord
variable {w w' : World}

theorem of_procs (hprocess : w'.process = w.process) (hfor : w'.publishedFor = w.publishedFor)
    (hruntime : w'.runtime = w.runtime) (hspawned : w'.spawned = w.spawned)
    (hprocs : w'.procs = w.procs) : w.SameRecord w' :=
  ⟨hprocess, hfor, hruntime, hspawned, fun p => by rw [hprocs], fun p => by rw [hprocs],
    fun p => by rw [hprocs]⟩

theorem setProc {p : Pid} {ps : ProcessState} (hepoch : ps.epoch = (w.procs p).epoch)
    (hpub : ps.published = (w.procs p).published) (hcom : ps.commits = (w.procs p).commits) :
    w.SameRecord (w.setProc p ps) := by
  refine ⟨rfl, rfl, rfl, rfl, ?_, ?_, ?_⟩ <;>
  · intro x
    rcases eq_or_ne x p with rfl | hx
    · rw [World.setProc_self]
      assumption
    · rw [World.setProc_of_ne _ _ hx]

theorem signal (h : w.SameRecord w') (sent : Bool) (who : Actor) (p : Pid) :
    w.SameRecord (w'.recordSignal sent who p) := by
  unfold World.recordSignal
  split_ifs
  · exact ⟨h.process, h.publishedFor, h.runtime, h.spawned, h.epoch, h.published, h.commits⟩
  · exact h

theorem record (h : w.SameRecord w') (hok : w.RecordOk) : w'.RecordOk := by
  refine ⟨?_, ?_, ?_, ?_, ?_⟩
  · intro p hp
    rw [h.publishedFor] at hp
    simp only [h.process, h.runtime, h.epoch, ProcessState.recorded, h.published, h.commits]
    exact hok.published p hp
  · rw [h.publishedFor, h.runtime]
    exact hok.unpublished
  · intro p hp
    rw [h.spawned] at hp
    rw [h.epoch]
    exact hok.epochs p hp
  · intro p hp
    rw [h.published] at hp
    rw [h.commits]
    exact hok.commits p hp
  · intro p hp
    rw [h.process] at hp
    rw [h.spawned]
    exact hok.current p hp

theorem consistent (h : w.SameRecord w') {st : LifecycleState} (hc : w.Consistent st) :
    w'.Consistent st := by
  cases st with
  | stopped =>
    simp only [World.Consistent, h.process, h.publishedFor, h.runtime]
    exact hc
  | running =>
    simp only [World.Consistent, h.process, h.publishedFor]
    exact hc
  | starting | stopping => exact trivial

theorem start (h : w.SameRecord w') {s : StartCall} (hs : s.RecordOk w) : s.RecordOk w' := by
  refine ⟨fun hpre => h.consistent (hs.pre hpre), ?_, hs.reserved, hs.comparing⟩
  intro p hp
  rw [h.spawned, h.published]
  exact hs.fresh p hp

end World.SameRecord

/-! ### One goroutine moves -/

variable {s : StartCall} {w w' : World} {t : Tid}

theorem recordOk_of_not_owner (h : ∀ k ph, s.role ≠ .owns k ph) :
    s.RecordOk w := by
  cases hpc : s.pc <;> simp only [StartCall.role, hpc, ne_eq] at h <;>
    first
    | exact absurd rfl (h _ _)
    | exact ⟨by simp [hpc], by simp [hpc],
        by simp [hpc], by simp [hpc]⟩

section
variable {w w' : World} {t : Tid} {th : Thread}

theorem pubOk_setThread (hthreads : w.ThreadsKept w') (hrec : w'.RecordOk)
    (hst : w'.Consistent w'.state)
    (hothers : ∀ u s, u ≠ t → w.threads u = .start s → s.RecordOk w')
    (hth : ∀ s, th = .start s → s.RecordOk w') : (w'.setThread t th).PubOk := by
  have hsame : w'.SameRecord (w'.setThread t th) := .of_procs rfl rfl rfl rfl rfl
  refine ⟨hsame.record hrec, hsame.consistent hst, ?_⟩
  intro u s hu
  refine hsame.start ?_
  rcases eq_or_ne u t with rfl | hne
  · rw [World.setThread_self] at hu
    exact hth s hu
  · rw [World.setThread_of_ne _ _ hne] at hu
    rcases hthreads u with heq | ⟨s₀, c, h₀, heq⟩
    · exact hothers u s hne (heq ▸ hu)
    · rw [heq] at hu
      cases hu
      have h := hothers u s₀ hne h₀
      exact ⟨h.pre, h.fresh, h.reserved, h.comparing⟩

theorem World.PubOk.update_same (hok : w.PubOk) (hthreads : w.ThreadsKept w')
    (hsame : w.SameRecord w') (hst : w'.Consistent w'.state)
    (hth : ∀ s, th = .start s → s.RecordOk w') : (w'.setThread t th).PubOk :=
  pubOk_setThread hthreads (hsame.record hok.record) hst
    (fun u s _ hu => hsame.start (hok.starts u s hu)) hth

/- The owner changes the record; nobody else relies on it. -/
theorem pubOk_owner (hinv : w.ownership.Inv) {k : Ownership.Kind}
    {ph : Ownership.Phase Pid} (hr : w.ownership.role t = .owns k ph)
    (hthreads : w.ThreadsKept w') (hrec : w'.RecordOk) (hst : w'.Consistent w'.state)
    (hth : ∀ s, th = .start s → s.RecordOk w') : (w'.setThread t th).PubOk := by
  refine pubOk_setThread hthreads hrec hst ?_ hth
  intro u s hne hu
  refine recordOk_of_not_owner ?_
  intro k' ph' hs
  have hru : w.ownership.role u = .owns k' ph' := by
    simp only [World.ownership, hu, Thread.role, hs]
  exact hne (hinv.unique hr hru)

end

/-! ### Ways to change the record -/

section
variable {w : World}

theorem World.RecordOk.clear (h : w.RecordOk) (q : Option Pid) (hq : q = w.process ∨ q = none)
    (pending : Option String) (w' : World) (hprocess : w'.process = q)
    (hfor : w'.publishedFor = none) (hruntime : w'.runtime = ⟨pending, 0, .cleared⟩)
    (hspawned : w'.spawned = w.spawned) (hprocs : w'.procs = w.procs) : w'.RecordOk := by
  refine ⟨?_, ?_, ?_, ?_, ?_⟩
  · intro p hp
    rw [hfor] at hp
    cases hp
  · intro _
    rw [hruntime]
    exact ⟨rfl, rfl⟩
  · rw [hspawned, hprocs]
    exact h.epochs
  · rw [hprocs]
    exact h.commits
  · intro p hp
    rw [hspawned]
    rcases hq with hq | hq
    · exact h.current p (by rw [← hq, ← hprocess, hp])
    · rw [hprocess, hq] at hp
      cases hp

variable {p : Pid}

theorem World.RecordOk.assign (h : w.RecordOk) (hp : p < w.spawned) (hfor : w.publishedFor = none) :
    ({ w with process := some p } : World).RecordOk := by
  refine ⟨?_, h.unpublished, h.epochs, h.commits, ?_⟩
  · intro x hx
    rw [show w.publishedFor = some x from hx] at hfor
    cases hfor
  · intro x hx
    cases hx
    exact hp

theorem World.RecordOk.spawn (h : w.RecordOk) {epoch : ℕ} (hepoch : 0 < epoch)
    (hnone : w.process = none) : (w.spawn epoch).RecordOk := by
  refine ⟨?_, h.unpublished, ?_, ?_, ?_⟩
  · intro p hp
    have hcur := (h.published p hp).1
    rw [hnone] at hcur
    cases hcur
  · intro p hp
    rcases eq_or_ne p w.spawned with rfl | hne
    · simpa [World.spawn, ProcessState.spawn] using hepoch
    · have hlt : p < w.spawned := by
        have hle : p < w.spawned + 1 := hp
        omega
      simp only [World.spawn, World.setProc_of_ne _ _ hne]
      exact h.epochs p hlt
  · intro p
    rcases eq_or_ne p w.spawned with rfl | hne
    · simp [World.spawn, ProcessState.spawn]
    · simp only [World.spawn, World.setProc_of_ne _ _ hne]
      exact h.commits p
  · intro p hp
    rw [show (w.spawn epoch).process = w.process from rfl, hnone] at hp
    cases hp

theorem World.RecordOk.publish (h : w.RecordOk) (hash : RuntimeHashState) (hp : w.process = some p)
    (hfresh : (w.procs p).published = none) (w' : World) (hprocess : w'.process = w.process)
    (hfor : w'.publishedFor = some p) (hruntime : w'.runtime = ⟨none, (w.procs p).epoch, hash⟩)
    (hspawned : w'.spawned = w.spawned)
    (hprocs : w'.procs = (w.setProc p { w.procs p with published := some hash }).procs) :
    w'.RecordOk := by
  have hself : w'.procs p = { w.procs p with published := some hash } := by
    rw [hprocs, World.setProc_self]
  have hother : ∀ x, x ≠ p → w'.procs x = w.procs x := by
    intro x hx
    rw [hprocs, World.setProc_of_ne _ _ hx]
  refine ⟨?_, ?_, ?_, ?_, ?_⟩
  · intro x hx
    rw [hfor] at hx
    cases hx
    simp only [hprocess, hruntime, hself, ProcessState.recorded, h.commits p hfresh]
    exact ⟨hp, trivial, trivial, rfl⟩
  · intro hnone
    rw [hfor] at hnone
    cases hnone
  · intro x hx
    rw [hspawned] at hx
    rcases eq_or_ne x p with rfl | hne
    · rw [hself]
      exact h.epochs x hx
    · rw [hother x hne]
      exact h.epochs x hx
  · intro x hx
    rcases eq_or_ne x p with rfl | hne
    · rw [hself] at hx
      cases hx
    · rw [hother x hne] at hx ⊢
      exact h.commits x hx
  · intro x hx
    rw [hprocess] at hx
    rw [hspawned]
    exact h.current x hx

theorem World.RecordOk.token (h : w.RecordOk) {active : Bool}
    (htok : w.tokenCurrent active p = true) : active = true ∧ w.publishedFor = some p := by
  simp only [World.tokenCurrent, Bool.and_eq_true, decide_eq_true_eq] at htok
  obtain ⟨⟨hact, hp⟩, hepoch⟩ := htok
  refine ⟨hact, ?_⟩
  cases hfor : w.publishedFor with
  | some q =>
    have hq := (h.published q hfor).1
    rw [hp] at hq
    cases hq
    rfl
  | none =>
    have hzero := (h.unpublished hfor).1
    have hpos := h.epochs p (h.current p hp)
    omega

theorem World.RecordOk.commit (h : w.RecordOk) (u : UserCommit) (hfor : w.publishedFor = some p) :
    (w.committed p u).RecordOk := by
  obtain ⟨hcur, hpend, hepoch, hrec⟩ := h.published p hfor
  obtain ⟨base, hbase, hfold⟩ := Option.map_eq_some_iff.mp hrec
  refine ⟨?_, ?_, ?_, ?_, h.current⟩
  · intro x hx
    rw [show w.publishedFor = some x from hx] at hfor
    cases hfor
    refine ⟨hcur, hpend, ?_, ?_⟩
    · simpa [World.committed] using hepoch
    · simp [World.committed, ProcessState.recorded, hbase, ← hfold]
  · intro hnone
    rw [show w.publishedFor = none from hnone] at hfor
    cases hfor
  · intro x hx
    rcases eq_or_ne x p with rfl | hne
    · simpa [World.committed] using h.epochs x hx
    · simpa [World.committed, World.setProc_of_ne _ _ hne] using h.epochs x hx
  · intro x hx
    rcases eq_or_ne x p with rfl | hne
    · simp [World.committed, hbase] at hx
    · simp only [World.committed, World.setProc_of_ne _ _ hne] at hx ⊢
      exact h.commits x hx

end

/-! ### Every step keeps the record -/

theorem StartCall.RecordOk.of_frame {s' : StartCall} (h : s.RecordOk w) (hframe : s.SameFrame s') :
    s'.RecordOk w := by
  refine ⟨?_, ?_, ?_, ?_⟩
  · rw [hframe.pre, hframe.previous]
    exact h.pre
  · rw [hframe.newPid]
    exact h.fresh
  · intro hres
    rw [hframe.processEpoch]
    exact h.reserved (hframe.reserved hres)
  · intro hcomp
    rw [hframe.previous]
    rcases hframe.comparing hcomp with hc | hc
    · exact h.comparing hc
    · exact hc

theorem StartCall.RecordOk.goto (h : s.RecordOk w) {pc : StartPC} (hpre : pc.pre = false)
    (hcomp : pc.comparing = false) (hnew : ∀ p, pc.newPid = some p → s.pc.newPid = some p)
    (hres : pc.reserved = true → s.pc.reserved = true) (hspawned : w'.spawned = w.spawned)
    (hprocs : w'.procs = w.procs) :
    (s.goto pc).RecordOk w' := by
  refine ⟨?_, ?_, fun hr => h.reserved (hres hr), ?_⟩
  · intro hp
    exact absurd (hpre.symm.trans hp) Bool.false_ne_true
  · intro p hp
    rw [hspawned, hprocs]
    exact h.fresh p (hnew p hp)
  · intro hc
    exact absurd (hcomp.symm.trans hc) Bool.false_ne_true

theorem recordOk_deferred (s : StartCall) (r : StartResult) (w : World) :
    (s.goto (.deferredUnlock r)).RecordOk w :=
  recordOk_of_not_owner (by simp [StartCall.role, StartCall.goto])

/- While a Start owns the lifecycle the state promises nothing. -/
theorem consistent_of_start {k : Ownership.Kind} {ph : Ownership.Phase Pid} {e : ℕ}
    (hinv : w.ownership.Inv) (hr : w.ownership.role t = .owns k ph)
    (hk : k = .start e ∨ k = .lost e) (hst : w'.state = w.state) : w'.Consistent w'.state := by
  have hstate : w.state = .starting ∨ w.state = .stopping := by
    rcases hk with rfl | rfl
    · rcases hinv.start t e ph hr with hh | hl
      · exact .inl hh.1
      · exact .inr hl.1
    · exact .inr (hinv.lost t e ph hr).1
  rw [hst]
  rcases hstate with h | h <;> rw [h] <;> exact trivial

theorem publishedFor_eq_none (h : w.RecordOk) (hp : w.process = none) :
    w.publishedFor = none := by
  cases hfor : w.publishedFor with
  | none => rfl
  | some p =>
    have hcur := (h.published p hfor).1
    rw [hp] at hcur
    cases hcur

section
variable {w w' : World} {t : Tid} {s s' : StartCall}

theorem World.PubOk.start_same (hok : w.PubOk) (hth : w'.threads = w.threads)
    (hrec : w.SameRecord w') (hst : w'.state = w.state) (hs' : s'.RecordOk w) :
    (w'.setThread t (.start s')).PubOk := by
  refine hok.update_same (threadsKept_of_eq hth) hrec ?_ fun s₁ heq => ?_
  · rw [hst]
    exact hrec.consistent hok.state
  · cases heq
    exact hrec.start hs'

theorem pubOk_start {k : Ownership.Kind} {ph : Ownership.Phase Pid} (hinv : w.ownership.Inv)
    (hr : w.ownership.role t = .owns k ph) (hth : w'.threads = w.threads) (hrec : w'.RecordOk)
    (hst : w'.Consistent w'.state) (hs' : s'.RecordOk w') :
    (w'.setThread t (.start s')).PubOk := by
  refine pubOk_owner hinv hr (threadsKept_of_eq hth) hrec hst fun s₁ heq => ?_
  cases heq
  exact hs'

theorem startRecords_pubOk {next : StartPC} (hinv : w.ownership.Inv) (hok : w.PubOk)
    (hs : w.threads t = .start s) (h : StartRecords w s w' next) :
    (w'.setThread t (.start (s.goto next))).PubOk := by
  have hstart : s.RecordOk w := hok.starts t s hs
  cases h with
  | stage hpc =>
    have hr := role_start hs hpc
    exact pubOk_start hinv hr rfl (hok.record.clear none (.inr rfl) _ _ rfl rfl rfl rfl rfl)
      (consistent_of_start hinv hr (.inl rfl) rfl)
      (hstart.goto rfl rfl (by simp) (by simp [hpc]) rfl rfl)
  | spawn hpc =>
    have hr := role_start hs hpc
    have hepoch : 0 < s.processEpoch := hstart.reserved (by simp [hpc])
    refine pubOk_start hinv hr rfl (hok.record.spawn hepoch (hinv.phase t _ _ hr).1)
      (consistent_of_start hinv hr (.inl rfl) rfl) ⟨?_, ?_, ?_, ?_⟩
    · simp [StartCall.goto]
    · intro p hp
      simp only [StartPC.newPid, StartCall.goto, Option.some.injEq] at hp
      subst hp
      simp [World.spawn, ProcessState.spawn]
    · simp [StartCall.goto]
    · simp [StartCall.goto]
  | assign p hpc =>
    have hr := role_start hs hpc
    have hfresh := hstart.fresh p (by simp [hpc])
    exact pubOk_start hinv hr rfl
      (hok.record.assign hfresh.1 (publishedFor_eq_none hok.record (hinv.phase t _ _ hr).1))
      (consistent_of_start hinv hr (.inl rfl) rfl)
      (hstart.goto rfl rfl (by simp [hpc]) (by simp) rfl rfl)
  | retain p err hpc hproc =>
    have hr := role_start hs hpc
    have hfresh := hstart.fresh p (by simp [hpc])
    exact pubOk_start hinv hr rfl
      (hok.record.assign hfresh.1 (publishedFor_eq_none hok.record hproc))
      (consistent_of_start hinv hr (.inr rfl) rfl)
      (hstart.goto rfl rfl (by simp [hpc]) (by simp) rfl rfl)

theorem startConcludes_pubOk {r : StartResult} (hinv : w.ownership.Inv) (hok : w.PubOk)
    (hs : w.threads t = .start s) (h : StartConcludes w s w' r) :
    (w'.setThread t (.start (s.goto (.deferredUnlock r)))).PubOk := by
  have hstart : s.RecordOk w := hok.starts t s hs
  have hdone : (s.goto (.deferredUnlock r)).RecordOk w' := recordOk_deferred s r w'
  -- the record is kept and the state that is published is true of it
  have hpublish : ∀ {st}, w.Consistent st →
      ((w.concluded st).setThread t (.start (s.goto (.deferredUnlock r)))).PubOk := by
    intro st hst
    have hrec : w.SameRecord (w.concluded st) := .of_procs rfl rfl rfl rfl rfl
    refine hok.update_same (threadsKept_of_eq rfl) hrec (hrec.consistent hst) fun s₁ heq => ?_
    cases heq
    exact recordOk_deferred s r _
  cases h with
  | handOver r =>
    exact hok.start_same rfl (.of_procs rfl rfl rfl rfl rfl) rfl (recordOk_deferred s r _)
  | unchanged p hpc =>
    have hcons : w.Consistent s.previous := hstart.pre (by simp [hpc])
    rw [hstart.comparing (by simp [hpc])] at hcons
    exact hpublish hcons
  | commit p hpc _ _ hp =>
    have hfresh := hstart.fresh p (by simp [hpc])
    exact pubOk_start hinv (role_start hs hpc) rfl
      (hok.record.publish s.prepared.hashState hp hfresh.2 _ rfl rfl rfl rfl rfl) ⟨p, hp, rfl⟩ hdone
  | publishUnclean r => exact hpublish trivial
  | publishGone r he hpc =>
    obtain ⟨q, hr⟩ := role_publishGone hs hpc
    exact pubOk_start hinv hr rfl (hok.record.clear none (.inr rfl) none _ rfl rfl rfl rfl rfl)
      ⟨rfl, rfl, rfl⟩ hdone
  | restore r hpc => exact hpublish (hstart.pre (by simp [hpc]))
  | restoreGone r hpc =>
    exact pubOk_start hinv (role_start hs hpc) rfl
      (hok.record.clear none (.inr rfl) none _ rfl rfl rfl rfl rfl) ⟨rfl, rfl, rfl⟩ hdone
  | restoreExited r p hpc =>
    exact pubOk_start hinv (role_start hs hpc) rfl
      (hok.record.clear w.process (.inl rfl) none _ rfl rfl rfl rfl rfl) trivial hdone

theorem startView_pubOk (hinv : w.ownership.Inv) (hok : w.PubOk) (hs : w.threads t = .start s)
    (h : StartView w t s w' s') : (w'.setThread t (.start s')).PubOk := by
  have hstart : s.RecordOk w := hok.starts t s hs
  have hself : w.SameRecord w := .of_procs rfl rfl rfl rfl rfl
  cases h with
  | quiet s' hframe => exact hok.start_same rfl hself rfl (hstart.of_frame hframe)
  | signal p s' hframe =>
    exact hok.start_same (recordSignal_threads ..) (hself.signal true (.thread t) p) rfl
      (hstart.of_frame hframe)
  | begin hpc h1 h2 hfree =>
    have hrec : w.SameRecord { w with
        state := .starting, operationEpoch := w.operationEpoch + 1
        startCancel := some t, lifecycleMu := some t } := .of_procs rfl rfl rfl rfl rfl
    refine hok.update_same (threadsKept_of_eq rfl) hrec trivial fun s₁ heq => ?_
    cases heq
    exact hrec.start ⟨fun _ => hok.state, by simp, by simp, by simp⟩
  | read hpc =>
    exact hok.start_same rfl hself rfl
      ⟨fun _ => hstart.pre (by simp [hpc]), by simp, by simp, by simp⟩
  | lock p hpc =>
    exact hok.start_same rfl (.setProc rfl rfl rfl) rfl
      ⟨fun _ => hstart.pre (by simp [hpc]), by simp, by simp, by simp⟩
  | unlock p next _ _ hframe =>
    have hnext : (s.goto next).RecordOk w := hstart.of_frame hframe
    exact hok.start_same rfl (.setProc rfl rfl rfl) rfl
      ⟨hnext.pre, hnext.fresh, hnext.reserved, hnext.comparing⟩
  | reserve hpc =>
    exact hok.start_same rfl (.of_procs rfl rfl rfl rfl rfl) rfl
      ⟨fun _ => hstart.pre (by simp [hpc]), by simp, fun _ => Nat.succ_pos _, by simp⟩
  | drainPrevious pc hpc =>
    exact hok.start_same rfl hself rfl (hstart.goto rfl rfl (by simp) (by simp [hpc]) rfl rfl)
  | drainUnassigned p pc hpc | drainNew p ready pc hpc =>
    exact hok.start_same rfl hself rfl (hstart.goto rfl rfl (by simp [hpc]) (by simp) rfl rfl)
  | lose next _ hnext =>
    refine hok.start_same rfl hself rfl ?_
    rcases hnext with ⟨hpc, rfl⟩ | ⟨p, hpc, rfl⟩
    · exact hstart.goto rfl rfl (by simp) (by simp) rfl rfl
    · exact hstart.goto rfl rfl (by simp [hpc]) (by simp) rfl rfl
  | records w' next hrec => exact startRecords_pubOk hinv hok hs hrec
  | concludes w' r hcon => exact startConcludes_pubOk hinv hok hs hcon

end

theorem stopView_pubOk {s s' : StopCall} (hinv : w.ownership.Inv) (hok : w.PubOk)
    (hs : w.threads t = .stop s) (h : StopView w t s w' s') :
    (w'.setThread t (.stop s')).PubOk := by
  have hself : w.SameRecord w := .of_procs rfl rfl rfl rfl rfl
  have hnot : ∀ {w₁ : World} {s₁ : StopCall} (s₂ : StartCall),
      Thread.stop s₁ = .start s₂ → s₂.RecordOk w₁ := by
    intro w₁ s₁ s₂ heq
    cases heq
  have hth := stopView_threadsKept h
  have hsame : w.SameRecord w' → w'.state = w.state → (w'.setThread t (.stop s')).PubOk := by
    intro hrec hst
    refine hok.update_same hth hrec ?_ hnot
    rw [hst]
    exact hrec.consistent hok.state
  cases h with
  | quiet s' | read | outcome err => exact hsame hself rfl
  | signal p s' => exact hsame (hself.signal true (.thread t) p) rfl
  | reserveWait retry | reserveOwn retry | publishStopping =>
    exact hok.update_same hth (.of_procs rfl rfl rfl rfl rfl) trivial hnot
  | cancel target =>
    obtain ⟨threads, heq, -⟩ := cancel_kept w target
    exact hsame (by rw [heq]; exact .of_procs rfl rfl rfl rfl rfl) (by rw [heq])
  | acquire => exact hsame (.of_procs rfl rfl rfl rfl rfl) rfl
  | lock p next | unlock p b => exact hsame (.setProc rfl rfl rfl) rfl
  | finalize p pc ch ps sent r next _ _ hfin =>
    have hspec := finalizeStep_spec hfin
    have hset : w.SameRecord (w.setProc p ps) :=
      .setProc hspec.epoch hspec.published hspec.commits
    exact hsame (hset.signal sent (.thread t) p)
      (congrArg Ownership.Model.state (ownership_recordSignal ..))
  | publishStopped hpc =>
    have hr : w.ownership.role t = .owns .stop (.drained s.process) := role_stop hs hpc
    exact pubOk_owner hinv hr hth
      (hok.record.clear none (.inr rfl) none _ rfl rfl rfl rfl rfl) ⟨rfl, rfl, rfl⟩ hnot

theorem World.PubOk.of_same (hok : w.PubOk) (hrec : w.SameRecord w') (hst : w'.state = w.state)
    (hth : w'.threads = w.threads) : w'.PubOk := by
  refine ⟨hrec.record hok.record, ?_, ?_⟩
  · rw [hst]
    exact hrec.consistent hok.state
  · intro t s hs
    rw [hth] at hs
    exact hrec.start (hok.starts t s hs)

theorem monitorCallback_pubOk (hinv : w.ownership.Inv) (hok : w.PubOk) (p : Pid)
    (o : ProcessOutcome) : (w.monitorCallback p o).PubOk := by
  rcases monitorCallback_cases w p o with ⟨-, heq⟩ | ⟨hp, hst, hres⟩
  · rw [heq]
    exact hok
  have hfree := (callback_free hinv hst).1
  have hstarts : ∀ w₁ : World, w₁.threads = w.threads →
      ∀ t s, w₁.threads t = .start s → s.RecordOk w₁ := by
    intro w₁ hth t s hs
    rw [hth] at hs
    exact recordOk_of_not_owner (no_owner hinv hfree hs)
  rcases hres with ⟨-, heq⟩ | ⟨-, heq⟩
  · rw [heq]
    exact ⟨hok.record.clear none (.inr rfl) none _ rfl rfl rfl rfl rfl, ⟨rfl, rfl, rfl⟩,
      hstarts _ rfl⟩
  · rw [heq]
    exact ⟨hok.record.clear w.process (.inl rfl) none _ rfl rfl rfl rfl rfl, trivial,
      hstarts _ rfl⟩

theorem monitorView_pubOk {p : Pid} (hinv : w.ownership.Inv) (hok : w.PubOk)
    (h : MonitorView w p w') : w'.PubOk := by
  cases h with
  | observe ps hobs =>
    exact hok.of_same (.setProc hobs.epoch hobs.published hobs.commits) rfl rfl
  | finalize pc ch ps sent r next _ hfin =>
    have hspec := finalizeStep_spec hfin
    have hset : w.SameRecord (w.setProc p { ps with monitor := next }) :=
      .setProc hspec.epoch hspec.published hspec.commits
    refine hok.of_same (hset.signal sent .monitor p) ?_ (recordSignal_threads ..)
    exact congrArg Ownership.Model.state (ownership_recordSignal ..)
  | readOutcome => exact hok.of_same (.setProc rfl rfl rfl) rfl rfl
  | callback o =>
    have hprocs := (monitorCallback_shared w p o).1
    refine (monitorCallback_pubOk hinv hok p o).of_same (.setProc ?_ ?_ ?_) rfl rfl <;> rw [hprocs]

theorem leaseView_same {l l' : LeaseCall} (h : LeaseView w t l w' l') :
    w.SameRecord w' ∧ w'.state = w.state := by
  cases h with
  | quiet l' | begin p => exact ⟨.of_procs rfl rfl rfl rfl rfl, rfl⟩
  | enter p => exact ⟨.setProc rfl rfl rfl, rfl⟩
  | leave p l' => exact ⟨.setProc rfl rfl rfl, rfl⟩

theorem commitUser_pubOk (hok : w.PubOk) (active : Bool) (p : Pid) (u : UserCommit) :
    (w.commitUser active p u).1.PubOk := by
  rcases commitUser_cases w active p u with heq | ⟨htok, heq⟩ <;> rw [heq]
  · exact hok
  have hfor := (hok.record.token htok).2
  -- a record exists, so no state that promises an empty one is affected
  have hcons : ∀ st, w.Consistent st → (w.committed p u).Consistent st := by
    intro st hst
    cases st with
    | stopped =>
      rw [hst.2.1] at hfor
      cases hfor
    | running => exact hst
    | starting | stopping => exact trivial
  refine ⟨hok.record.commit u hfor, hcons _ hok.state, ?_⟩
  intro t s hs
  have hstart := hok.starts t s hs
  refine ⟨fun hpre => hcons _ (hstart.pre hpre), ?_, hstart.reserved, hstart.comparing⟩
  intro x hx
  obtain ⟨hlt, hnone⟩ := hstart.fresh x hx
  refine ⟨hlt, ?_⟩
  rcases eq_or_ne x p with rfl | hne
  · simpa [World.committed] using hnone
  · simpa [World.committed, World.setProc_of_ne _ _ hne] using hnone

theorem pubOk_initial (disableHashCheck : Bool) : (World.initial disableHashCheck).PubOk := by
  refine ⟨⟨?_, fun _ => ⟨rfl, rfl⟩, ?_, fun _ _ => rfl, ?_⟩, ⟨rfl, rfl, rfl⟩, ?_⟩
  · intro p hp
    cases hp
  · intro p hp
    exact absurd hp (Nat.not_lt_zero p)
  · intro p hp
    cases hp
  · intro t s hs
    cases hs

theorem step_pubOk {e : Event} (hinv : w.ownership.Inv) (hok : w.PubOk) (h : step w e = some w') :
    w'.PubOk := by
  have hself : w.SameRecord w := .of_procs rfl rfl rfl rfl rfl
  cases step_view h with
  | callStart t req ht =>
    refine hok.update_same (threadsKept_of_eq rfl) hself hok.state ?_
    intro s hs
    cases hs
    exact recordOk_of_not_owner (by simp [StartCall.role, StartCall.new])
  | callStop t ht | callLease t ht | endLease t l err c ht =>
    exact hok.update_same (threadsKept_of_eq rfl) hself hok.state (by simp)
  | endStart t s err c ht =>
    refine hok.update_same (threadsKept_of_eq rfl) hself hok.state ?_
    intro s₁ hs₁
    cases hs₁
    have hstart := hok.starts t s ht
    exact ⟨hstart.pre, hstart.fresh, hstart.reserved, hstart.comparing⟩
  | start t ch s s' w₁ ht hstep => exact startView_pubOk hinv hok ht (startStep_view hinv ht hstep)
  | stop t ch s s' w₁ ht hstep => exact stopView_pubOk hinv hok ht (stopStep_view hinv ht hstep)
  | lease t ch l l' w₁ ht hstep =>
    have hview := leaseStep_view hstep
    obtain ⟨hrec, hst⟩ := leaseView_same hview
    refine hok.update_same (threadsKept_of_eq (leaseView_kept hview).1) hrec ?_ (by simp)
    rw [hst]
    exact hrec.consistent hok.state
  | monitor p ch _ hp hstep => exact monitorView_pubOk hinv hok (monitorStep_view hstep)
  | commit t u l p active ht htok => exact commitUser_pubOk hok active p u

/-- In every reachable world the record is that of the current process, or empty. -/
theorem reachable_pubOk {disableHashCheck : Bool} (h : Reachable disableHashCheck w) :
    w.PubOk := by
  refine h.invariant_of (fun w => w.ownership.Inv) World.PubOk (fun a ha => (reachable_inv ha).1)
    (pubOk_initial disableHashCheck) ?_
  intro a e b hinv hok _ hstep
  exact step_pubOk hinv hok hstep

end RemnanodeLite.Xray
