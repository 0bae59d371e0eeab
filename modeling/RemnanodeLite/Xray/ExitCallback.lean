import RemnanodeLite.Xray.Publication
import RemnanodeLite.Xray.SingleCore

/-! # Exit callbacks that get lost

A monitor reports the exit of its process once. The report is ignored while a
Start or a Stop owns the lifecycle, so whoever publishes a process that is gone
keeps it for ever. All publications look at the process in the critical section
that publishes, except three: a Start whose `terminateProcess` has failed, for
the previous process or for its own, and a Stop that has read a bad outcome. -/

namespace RemnanodeLite.Xray

/- A process that is completely gone is not left behind as the current one. -/
def World.CallbackNotLost (w : World) : Prop :=
  w.lifecycleMu = none → w.stopOp = none → ∀ p, w.process = some p →
    (w.procs p).monitor = .returned → (w.procs p).finalized = false

/- The next step of this goroutine publishes Stopping on the strength of an
earlier look at the process. -/
def Thread.publishesStopping (w : World) : Thread → Bool
  | .start s => w.operationEpoch = s.operationEpoch && match s.pc with
    | .publishPreviousUnclean _ | .publishNew _ _ (some _) => true
    | _ => false
  | .stop s => s.pc = .publish false
  | _ => false

/- Such a publication when the process it keeps is already gone. -/
def LatePublication (w : World) (e : Event) : Prop :=
  ∃ t ch p, e = .thread t ch ∧ (w.threads t).publishesStopping w = true ∧
    w.process = some p ∧ (w.procs p).finalized = true ∧ (w.procs p).monitor = .returned

/-! ### Who will still act on a finalized process -/

/- Finalized, and the monitor will not say so any more. -/
def ProcessState.Stale (ps : ProcessState) : Prop :=
  ps.finalized = true ∧
    (ps.monitor = .returned ∨ ∃ o, ps.monitor = .callback o ∧ o.finalized = false)

/- The process of some Start that has not concluded. -/
def World.Newborn (w : World) (p : Pid) : Prop :=
  ∃ t s, w.threads t = .start s ∧ s.pc.newPid = some p

/- A Stop has finalized the process and will forget it. -/
def World.Finishing (w : World) (p : Pid) : Prop :=
  ∃ t s, w.threads t = .stop s ∧ s.process = some p ∧ s.pc.finishing = true

def World.Closing (w : World) (p : Pid) : Prop :=
  ∃ t s, w.threads t = .stop s ∧ s.process = some p ∧ s.pc = .retryFinalize .closeDone

structure World.ExitOk (w : World) : Prop where
  free : w.lifecycleMu = none → w.stopOp = none → ∀ p, w.process = some p → ¬ (w.procs p).Stale
  pending : ∀ p o, (w.procs p).monitor = .callback o → o.finalized = false →
    (w.procs p).finalized = true → (w.process = some p → w.Finishing p) ∧ ¬ w.Newborn p
  closed : ∀ p, (w.procs p).finalized = true →
    (w.procs p).done = true ∨ (w.procs p).monitor = .finalize .closeDone ∨ w.Closing p

variable {w w' : World}

theorem World.ExitOk.callbackNotLost (h : w.ExitOk) : w.CallbackNotLost := by
  intro hfree hop p hp hret
  by_contra hfin
  exact h.free hfree hop p hp ⟨by simpa using hfin, .inl hret⟩

section
variable {w w' : World} {t : Tid} {p : Pid}

theorem World.ExitOk.keep (h : w.ExitOk)
    (hcore : ∀ p, (w.procs p).SameCore (w'.procs p) ∨ (w'.procs p).finalized = false)
    (hproc : ∀ p, w'.process = some p → w.process = some p ∨ w.Newborn p)
    (hnew : ∀ p, w'.Newborn p → w.Newborn p ∨ (w'.procs p).finalized = false)
    (hfinish : ∀ p, w'.process = some p → (w.procs p).finalized = true → w.Finishing p →
      w'.Finishing p)
    (hclose : ∀ p, w.Closing p → w'.Closing p)
    (hfree : w'.lifecycleMu = none → w'.stopOp = none → ∀ p, w'.process = some p →
      ¬ (w.procs p).Stale) : w'.ExitOk := by
  have hold : ∀ x, (w'.procs x).finalized = true → (w.procs x).SameCore (w'.procs x) := by
    intro x hx
    rcases hcore x with hc | hc
    · exact hc
    · rw [hc] at hx
      cases hx
  refine ⟨?_, ?_, ?_⟩
  · intro h1 h2 x hx hstale
    have hc := hold x hstale.1
    refine hfree h1 h2 x hx ⟨?_, ?_⟩
    · rw [← hc.finalized]
      exact hstale.1
    · rw [← hc.monitor]
      exact hstale.2
  · intro x o hmon ho hfin
    have hc := hold x hfin
    have hfin' : (w.procs x).finalized = true := by rw [← hc.finalized, hfin]
    obtain ⟨h1, h2⟩ := h.pending x o (by rw [← hc.monitor, hmon]) ho hfin'
    refine ⟨?_, ?_⟩
    · intro hx
      rcases hproc x hx with hx' | hx'
      · exact hfinish x hx hfin' (h1 hx')
      · exact absurd hx' h2
    · intro hx
      rcases hnew x hx with hx' | hx'
      · exact h2 hx'
      · rw [hx'] at hfin
        cases hfin
  · intro x hfin
    have hc := hold x hfin
    rw [hc.done, hc.monitor]
    rcases h.closed x (by rw [← hc.finalized, hfin]) with hd | hm | hcl
    · exact .inl hd
    · exact .inr (.inl hm)
    · exact .inr (.inr (hclose x hcl))

theorem newborn_owner (h : w.Newborn p) :
    ∃ t e ph, w.ownership.role t = .owns (.start e) ph ∨ w.ownership.role t = .owns (.lost e) ph := by
  obtain ⟨t, s, hs, hnew⟩ := h
  refine ⟨t, s.operationEpoch, ?_⟩
  rw [role_of_start hs]
  cases hpc : s.pc with
  | assignProcess x | waitCheck x | waitProbe x | waitReady x | waitReadyLeader x | waitSelect x
  | probeVersion x | ctxAfterVersion x | commitRunning x | terminateNew x r pc
  | publishNew x r err =>
    simp only [StartCall.role, hpc]
    exact ⟨_, .inl rfl⟩
  | terminateUnassigned x pc | retainUnclean x err | publishUnassigned x err =>
    simp only [StartCall.role, hpc]
    exact ⟨_, .inr rfl⟩
  | _ => simp [hpc] at hnew

theorem finishing_owner {s : StopCall} (hs : w.threads t = .stop s) (h : s.pc.finishing = true) :
    ∃ ph, w.ownership.role t = .owns .stop ph := by
  rw [role_of_stop hs]
  cases hpc : s.pc with
  | retryFinalize pc | readOutcome err | publish succeeded =>
    simp only [StopCall.role, hpc]
    exact ⟨_, rfl⟩
  | _ => simp [StopPC.finishing, hpc] at h

variable {ph : Ownership.Phase Pid}

/- A Stop that owns the lifecycle is the only one with anything to finish, and no
Start has a process of its own meanwhile. -/
theorem finishing_eq {s : StopCall} (hinv : w.ownership.Inv) (hs : w.threads t = .stop s)
    (hr : w.ownership.role t = .owns .stop ph) (h : w.Finishing p) :
    s.process = some p ∧ s.pc.finishing = true := by
  obtain ⟨u, s₁, hu, hp, hfin⟩ := h
  obtain ⟨ph', hr'⟩ := finishing_owner hu hfin
  obtain rfl := hinv.unique hr hr'
  rw [hs] at hu
  cases hu
  exact ⟨hp, hfin⟩

theorem not_newborn_of_stop (hinv : w.ownership.Inv) (hr : w.ownership.role t = .owns .stop ph) :
    ¬ w.Newborn p := by
  intro h
  obtain ⟨u, e, ph', hr' | hr'⟩ := newborn_owner h <;>
  · obtain rfl := hinv.unique hr hr'
    rw [hr] at hr'
    cases hr'

theorem not_finishing_of_start {k : Ownership.Kind} (hinv : w.ownership.Inv)
    (hr : w.ownership.role t = .owns k ph) (hk : k ≠ .stop) :
    ¬ w.Finishing p := by
  intro h
  obtain ⟨u, s, hu, -, hfin⟩ := h
  obtain ⟨ph', hr'⟩ := finishing_owner hu hfin
  obtain rfl := hinv.unique hr hr'
  rw [hr] at hr'
  cases hr'
  exact hk rfl

theorem Closing.finishing (h : w.Closing p) : w.Finishing p := by
  obtain ⟨u, s, hu, hp, hpc⟩ := h
  exact ⟨u, s, hu, hp, by simp only [StopPC.finishing, hpc]⟩

end

theorem exitOk_thread {t : Tid} {th : Thread} (h : w.ExitOk) (hold : ∀ s, w.threads t ≠ .stop s)
    (hth : w'.threads = w.threads)
    (hcore : ∀ p, (w.procs p).SameCore (w'.procs p) ∨ (w'.procs p).finalized = false)
    (hproc : ∀ p, w'.process = some p → w.process = some p ∨ w.Newborn p)
    (hnew : ∀ s p, th = .start s → s.pc.newPid = some p →
      w.Newborn p ∨ (w'.procs p).finalized = false)
    (hfree : w'.lifecycleMu = none → w'.stopOp = none → ∀ p, w'.process = some p →
      ¬ (w.procs p).Stale) :
    (w'.setThread t th).ExitOk := by
  have hother : ∀ u s₁, w.threads u = .stop s₁ → (w'.setThread t th).threads u = .stop s₁ := by
    intro u s₁ hu
    have hne : u ≠ t := by
      intro heq
      exact hold s₁ (heq ▸ hu)
    rw [World.setThread_of_ne _ _ hne, hth]
    exact hu
  refine h.keep hcore hproc ?_ ?_ ?_ hfree
  · intro p hp
    obtain ⟨u, s₁, hu, hn⟩ := hp
    rcases eq_or_ne u t with rfl | hne
    · rw [World.setThread_self] at hu
      exact hnew s₁ p hu hn
    · rw [World.setThread_of_ne _ _ hne, hth] at hu
      exact .inl ⟨u, s₁, hu, hn⟩
  · intro p _ _ hp
    obtain ⟨u, s₁, hu, h1, h2⟩ := hp
    exact ⟨u, s₁, hother u s₁ hu, h1, h2⟩
  · intro p hp
    obtain ⟨u, s₁, hu, h1, h2⟩ := hp
    exact ⟨u, s₁, hother u s₁ hu, h1, h2⟩

/-! ### Start -/

section
variable {w w' : World} {t : Tid} {s s' : StartCall}

theorem exitOk_start (h : w.ExitOk) (hs : w.threads t = .start s) (hth : w'.threads = w.threads)
    (hcore : ∀ p, (w.procs p).SameCore (w'.procs p) ∨ (w'.procs p).finalized = false)
    (hproc : ∀ p, w'.process = some p → w.process = some p ∨ s.pc.newPid = some p)
    (hnew : ∀ p, s'.pc.newPid = some p → s.pc.newPid = some p ∨ (w'.procs p).finalized = false)
    (hfree : w'.lifecycleMu = none → w'.stopOp = none → ∀ p, w'.process = some p →
      ¬ (w.procs p).Stale) : (w'.setThread t (.start s')).ExitOk := by
  refine exitOk_thread h (by simp [hs]) hth hcore ?_ ?_ hfree
  · intro p hp
    rcases hproc p hp with h1 | h1
    · exact .inl h1
    · exact .inr ⟨t, s, hs, h1⟩
  · intro s₁ p hs₁ hn
    cases hs₁
    rcases hnew p hn with h1 | h1
    · exact .inl ⟨t, s, hs, h1⟩
    · exact .inr h1

variable {p : Pid} {ch : Pick}

/- An open `done` means that the monitor is still inside its finalization. -/
theorem World.ExitOk.not_stale_of_not_done (h : w.ExitOk) (hno : ¬ w.Finishing p)
    (hd : (w.procs p).done = false) : ¬ (w.procs p).Stale := by
  intro hstale
  rcases h.closed p hstale.1 with hdone | hmon | hclosing
  · rw [hd] at hdone
    cases hdone
  · rcases hstale.2 with hret | ⟨o, hcb, -⟩
    · rw [hmon] at hret
      cases hret
    · rw [hmon] at hcb
      cases hcb
  · exact hno (Closing.finishing hclosing)

theorem not_stale_of_available {ps : ProcessState} (h : ps.leaderUnavailable = false) :
    ¬ ps.Stale := by
  intro hstale
  simp only [ProcessState.leaderUnavailable, hstale.1, Bool.or_true] at h
  cases h

/- What the missing guard would have to establish. -/
theorem World.ExitOk.not_stale_of_not_late (h : w.ExitOk)
    (hlate : ¬ LatePublication w (.thread t ch)) (hpub : (w.threads t).publishesStopping w = true)
    (hp : w.process = some p) (hno : ¬ w.Finishing p) : ¬ (w.procs p).Stale := by
  intro hstale
  rcases hstale.2 with hret | ⟨o, hcb, ho⟩
  · exact hlate ⟨t, ch, p, rfl, hpub, hp, hstale.1, hret⟩
  · exact hno ((h.pending p o hcb ho hstale.1).1 hp)

theorem startView_newPid (hv : StartView w t s w' s') (hp : s'.pc.newPid = some p) :
    s.pc.newPid = some p ∨ (w'.procs p).finalized = false := by
  cases hv with
  | quiet s' hframe | signal x s' hframe => exact .inl (hframe.newPid ▸ hp)
  | unlock x next _ _ hframe => exact .inl (Eq.trans hframe.newPid.symm hp)
  | drainUnassigned x pc hpc | drainNew x ready pc hpc =>
    rw [hpc]
    exact .inl hp
  | lose next _ hnext =>
    rcases hnext with ⟨hpc, rfl⟩ | ⟨x, hpc, rfl⟩
    · cases hp
    · rw [hpc]
      exact .inl hp
  | records w' next hrec =>
    cases hrec with
    | stage => cases hp
    | spawn =>
      cases hp
      simp [World.spawn, ProcessState.spawn]
    | assign x hpc | retain x err hpc =>
      rw [hpc]
      exact .inl hp
  | _ => cases hp

theorem startConcludes_notStale {r : StartResult} (hinv : w.ownership.Inv) (hok : w.FinalOk)
    (hpub : w.PubOk) (h : w.ExitOk) (hlate : ¬ LatePublication w (.thread t ch))
    (hs : w.threads t = .start s) (hcon : StartConcludes w s w' r) (hop : w'.stopOp = none)
    (hp : w'.process = some p) :
    ¬ (w.procs p).Stale := by
  cases hcon with
  | handOver r hrel hne =>
    obtain ⟨k, ph, hr, -, hk⟩ := role_of_releasing hrel
    rw [← role_of_start hs] at hr
    have hlost : w.stopOp ≠ none := by
      rcases hk with rfl | rfl
      · rcases hinv.start t _ ph hr with hh | hl
        · exact absurd hh.2.1 hne
        · exact hl.2.1
      · exact (hinv.lost t _ ph hr).2.1
    exact absurd hop hlost
  | unchanged x hpc _ hx hav | commit x hpc _ _ hx hav =>
    cases hx.symm.trans hp
    exact not_stale_of_available hav
  | publishUnclean r he hpc =>
    obtain ⟨q, hr⟩ := role_publishUnclean hs hpc
    have hpublish : (w.threads t).publishesStopping w = true := by
      rcases hpc with ⟨e, hpc⟩ | ⟨p, x, e, hpc⟩ <;> simp [hs, Thread.publishesStopping, he, hpc]
    exact h.not_stale_of_not_late hlate hpublish hp (not_finishing_of_start hinv hr (by simp))
  | publishGone r | restoreGone r => cases hp
  | restore r hpc he hrun =>
    have hcons := (hpub.starts t s hs).pre (by simp [hpc])
    rcases hok.previous t s hs with hprev | hprev
    · rw [hprev] at hcons
      cases hcons.1.symm.trans hp
    · obtain ⟨x, hx, hd, -⟩ := hrun hprev
      cases hx.symm.trans hp
      exact h.not_stale_of_not_done
        (not_finishing_of_start hinv (role_start hs hpc) (by simp)) hd
  | restoreExited r x hpc _ _ hx hd =>
    cases hx.symm.trans hp
    exact h.not_stale_of_not_done (not_finishing_of_start hinv (role_start hs hpc) (by simp)) hd

theorem startView_exitOk (hinv : w.ownership.Inv) (hok : w.FinalOk) (hpub : w.PubOk) (h : w.ExitOk)
    (hlate : ¬ LatePublication w (.thread t ch)) (hs : w.threads t = .start s)
    (hv : StartView w t s w' s') : (w'.setThread t (.start s')).ExitOk := by
  refine exitOk_start h hs (startView_kept hv).1 ?_ ?_ (fun p => startView_newPid hv) ?_
  · intro p
    rcases (startView_kept hv).2 with hcore | ⟨-, rfl⟩
    · exact .inl (hcore.2 p)
    · rcases eq_or_ne p w.spawned with rfl | hne
      · simp [World.spawn, ProcessState.spawn]
      · simp only [World.spawn, World.setProc_of_ne _ _ hne]
        exact .inl rfl
  · intro p hp
    rcases startView_process hv hp with hold | hpc | ⟨err, hpc⟩
    · exact .inl hold
    · simp [hpc]
    · simp [hpc]
  · intro hfree hop p hp
    -- an owner that has not concluded keeps the lifecycle
    have hbusy : ∀ {k : Ownership.Kind} {ph : Ownership.Phase Pid},
        w.ownership.role t = .owns k ph → w.lifecycleMu ≠ none := by
      intro k ph hr hnone
      cases hnone.symm.trans (hinv.owner_of_role t k ph hr)
    cases hv with
    | begin => cases hfree
    | records w' next hrec =>
      cases hrec with
      | stage => cases hp
      | spawn hpc | assign x hpc | retain x err hpc =>
        exact absurd hfree (hbusy (role_start hs hpc))
    | concludes w' r hcon => exact startConcludes_notStale hinv hok hpub h hlate hs hcon hop hp
    | _ => exact h.free hfree hop p hp

end

/-! ### Stop -/

section
variable {w w' : World} {t : Tid} {s s' : StopCall}

theorem newborn_setThread_stop (hth : w.ThreadsKept w') {p : Pid}
    (h : (w'.setThread t (.stop s')).Newborn p) : w.Newborn p := by
  obtain ⟨u, s₁, hu, hn⟩ := h
  rcases eq_or_ne u t with rfl | hne
  · rw [World.setThread_self] at hu
    cases hu
  · rw [World.setThread_of_ne _ _ hne] at hu
    rcases hth u with heq | ⟨s₀, c, h₀, heq⟩
    · exact ⟨u, s₁, heq ▸ hu, hn⟩
    · rw [heq] at hu
      cases hu
      exact ⟨u, s₀, h₀, hn⟩

theorem stop_setThread_of_ne (hth : w.ThreadsKept w') {u : Tid} {s₁ : StopCall} (hne : u ≠ t)
    (hu : w.threads u = .stop s₁) : (w'.setThread t (.stop s')).threads u = .stop s₁ := by
  rw [World.setThread_of_ne _ _ hne]
  rcases hth u with heq | ⟨s₀, c, h₀, -⟩
  · rw [heq]
    exact hu
  · rw [hu] at h₀
    cases h₀

theorem closing_setThread_stop {x : Pid} (hs : w.threads t = .stop s) (hth : w.ThreadsKept w')
    (hno : s.process = some x → s.pc ≠ .retryFinalize .closeDone) (h : w.Closing x) :
    (w'.setThread t (.stop s')).Closing x := by
  obtain ⟨u, s₁, hu, h1, h2⟩ := h
  have hne : u ≠ t := by
    rintro rfl
    rw [hs] at hu
    cases hu
    exact hno h1 h2
  exact ⟨u, s₁, stop_setThread_of_ne hth hne hu, h1, h2⟩

theorem exitOk_stop (h : w.ExitOk) (hs : w.threads t = .stop s) (hth : w.ThreadsKept w')
    (hcore : w.CoreKept w') (hproc : ∀ p, w'.process = some p → w.process = some p)
    (hfinish : ∀ p, w'.process = some p → (w.procs p).finalized = true → s.process = some p →
      s.pc.finishing = true → s'.process = some p ∧ s'.pc.finishing = true)
    (hclose : s.pc ≠ .retryFinalize .closeDone)
    (hfree : w'.lifecycleMu = none → w'.stopOp = none → ∀ p, w'.process = some p →
      ¬ (w.procs p).Stale) : (w'.setThread t (.stop s')).ExitOk := by
  refine h.keep (fun p => .inl (hcore.2 p)) (fun p hp => .inl (hproc p hp))
    (fun p hp => .inl (newborn_setThread_stop hth hp)) ?_ ?_ hfree
  · intro p hp hfin hfinishing
    obtain ⟨u, s₁, hu, h1, h2⟩ := hfinishing
    rcases eq_or_ne u t with rfl | hne
    · rw [hs] at hu
      cases hu
      obtain ⟨h3, h4⟩ := hfinish p hp hfin h1 h2
      exact ⟨u, s', World.setThread_self .., h3, h4⟩
    · exact ⟨u, s₁, stop_setThread_of_ne hth hne hu, h1, h2⟩
  · exact fun p => closing_setThread_stop hs hth fun _ => hclose

variable {next : StopPC} {pc : FinalizePC} {ps : ProcessState} {r : Progress FinalizePC}

/- Once its finalization has succeeded, a retrying Stop keeps saying so. -/
theorem finalize_next_of_mark {p : ProcessState} (hspec : FinalizeSpec p ps pc r)
    (hnext : (∃ pc', r = .next pc' ∧ next = .retryFinalize pc') ∨
      ∃ err, r = .done err ∧ next = .readOutcome err)
    (hm : ∃ e, pc = .mark e) : next = .retryFinalize .closeDone := by
  rcases hnext with ⟨pc', hr', hn⟩ | ⟨err, hr', hn⟩ <;> rw [hspec.marks hm] at hr' <;> cases hr'
  exact hn

theorem finalize_next_finishing {p : ProcessState} (hspec : FinalizeSpec p ps pc r)
    (hnext : (∃ pc', r = .next pc' ∧ next = .retryFinalize pc') ∨
      ∃ err, r = .done err ∧ next = .readOutcome err)
    (hf : (StopPC.retryFinalize pc).finishing = true) : next.finishing = true := by
  cases pc with
  | closeDone =>
    rcases hnext with ⟨pc', hr', rfl⟩ | ⟨err, hr', rfl⟩ <;>
    · rw [(hspec.closes rfl).2] at hr'
      cases hr'
      try rfl
  | unlock err =>
    cases err with
    | some e => cases hf
    | none =>
      rcases hnext with ⟨pc', hr', rfl⟩ | ⟨err, hr', rfl⟩ <;>
      · rw [hspec.returns rfl] at hr'
        cases hr'
        try rfl
  | _ => cases hf

variable {p : Pid} {ch : Pick} {sent : Bool}

/- A retrying Stop inside `finalizeExitedProcess` closes `done` after it has marked the process. -/
theorem finalize_closed {x : Pid} (hinv : w.ownership.Inv) (h : w.ExitOk)
    (hs : w.threads t = .stop s) (hpc : s.pc = .retryFinalize pc) (hp : s.process = some p)
    (hfin : finalizeStep (w.procs p) (.thread t) ch pc = some (ps, sent, r))
    (hnext : (∃ pc', r = .next pc' ∧ next = .retryFinalize pc') ∨
      ∃ err, r = .done err ∧ next = .readOutcome err)
    (hth : w.ThreadsKept w') (hself : w'.procs p = ps) (hother : ∀ x, x ≠ p → w'.procs x = w.procs x)
    (hf : (w'.procs x).finalized = true) :
    (w'.procs x).done = true ∨ (w'.procs x).monitor = .finalize .closeDone ∨
      (w'.setThread t (.stop { s with pc := next })).Closing x := by
  have hspec := finalizeStep_spec hfin
  rcases eq_or_ne x p with rfl | hne
  · rw [hself] at hf ⊢
    rcases finalizeStep_finalized hfin with ⟨hsame, -⟩ | ⟨hm, -, -⟩
    · rcases h.closed x (hsame.symm.trans hf) with hd | hmon | ⟨u, s₁, hu, h1, h2⟩
      · exact .inl (hspec.done_mono hd)
      · exact .inr (.inl (hspec.monitor.trans hmon))
      · obtain ⟨ph, hr'⟩ := finishing_owner hu (by simp only [StopPC.finishing, h2])
        obtain rfl := hinv.unique (role_stop hs hpc) hr'
        rw [hs] at hu
        cases hu
        rw [hpc] at h2
        cases h2
        exact .inl (hspec.closes rfl).1
    · exact .inr (.inr ⟨t, _, World.setThread_self .., hp, finalize_next_of_mark hspec hnext hm⟩)
  · rw [hother x hne] at hf ⊢
    refine (h.closed x hf).imp_right (.imp_right (closing_setThread_stop hs hth fun hx => ?_))
    exact absurd (Option.some.inj (hx.symm.trans hp)) hne

theorem exitOk_finalize (hinv : w.ownership.Inv) (h : w.ExitOk)
    (hs : w.threads t = .stop s) (hpc : s.pc = .retryFinalize pc) (hp : s.process = some p)
    (hfin : finalizeStep (w.procs p) (.thread t) ch pc = some (ps, sent, r))
    (hnext : (∃ pc', r = .next pc' ∧ next = .retryFinalize pc') ∨
      ∃ err, r = .done err ∧ next = .readOutcome err) :
    (((w.setProc p ps).recordSignal sent (.thread t) p).setThread t
      (.stop { s with pc := next })).ExitOk := by
  have hr : w.ownership.role t = .owns .stop (.holding s.process) := role_stop hs hpc
  have hspec := finalizeStep_spec hfin
  have hth : w.ThreadsKept ((w.setProc p ps).recordSignal sent (.thread t) p) :=
    threadsKept_of_eq (recordSignal_threads ..)
  have hprocess : ((w.setProc p ps).recordSignal sent (.thread t) p).process = w.process :=
    congrArg Ownership.Model.process (ownership_recordSignal ..)
  have hlock : ((w.setProc p ps).recordSignal sent (.thread t) p).lifecycleMu = w.lifecycleMu :=
    congrArg Ownership.Model.owner (ownership_recordSignal ..)
  generalize hw : (w.setProc p ps).recordSignal sent (.thread t) p = w₁ at hth hprocess hlock
  have hself : w₁.procs p = ps := by rw [← hw, recordSignal_procs, World.setProc_self]
  have hother : ∀ x, x ≠ p → w₁.procs x = w.procs x := by
    intro x hx
    rw [← hw, recordSignal_procs, World.setProc_of_ne _ _ hx]
  refine ⟨?_, ?_, fun x => finalize_closed hinv h hs hpc hp hfin hnext hth hself hother⟩
  · intro hfree
    have hnone : w.lifecycleMu = none := hlock.symm.trans hfree
    cases hnone.symm.trans (hinv.owner_of_role t _ _ hr)
  · intro x o hmon ho hf
    refine ⟨?_, fun hx => not_newborn_of_stop hinv hr (newborn_setThread_stop hth hx)⟩
    intro hx
    have hx' : w.process = some x := hprocess.symm.trans hx
    have hxp : w.process = s.process := (hinv.phase t _ _ hr).1
    rw [hx', hp] at hxp
    cases hxp
    refine ⟨t, _, World.setThread_self .., hp, ?_⟩
    have hmon' : (w.procs p).monitor = .callback o := by
      rw [← hspec.monitor, ← hself]
      exact hmon
    rcases finalizeStep_finalized hfin with ⟨hsame, -⟩ | ⟨hm, -, -⟩
    · have hf' : (w.procs p).finalized = true := by
        rw [← hsame, ← hself]
        exact hf
      have hfinishing := (h.pending p o hmon' ho hf').1 hx'
      exact finalize_next_finishing hspec hnext (hpc ▸ (finishing_eq hinv hs hr hfinishing).2)
    · rw [finalize_next_of_mark hspec hnext hm]
      rfl

theorem stopView_exitOk {ch : Pick} (hinv : w.ownership.Inv) (hok : w.FinalOk) (h : w.ExitOk)
    (hlate : ¬ LatePublication w (.thread t ch)) (hs : w.threads t = .stop s)
    (hv : StopView w t s w' s') : (w'.setThread t (.stop s')).ExitOk := by
  have hself : w.CoreKept w := coreKept_of_eq rfl rfl
  have hth := stopView_threadsKept hv
  cases hv with
  | quiet s' hframe =>
    refine exitOk_stop h hs hth hself (fun _ => id) ?_ ?_ h.free
    · simp [hframe.finishing]
    · intro hpc
      have := hframe.finishing
      simp [StopPC.finishing, hpc] at this
  | signal p s' hframe =>
    refine exitOk_stop h hs hth
      (coreKept_of_eq (recordSignal_spawned ..) (recordSignal_procs ..)) (fun _ => id) ?_ ?_ h.free
    · simp [hframe.finishing]
    · intro hpc
      have := hframe.finishing
      simp [StopPC.finishing, hpc] at this
  | reserveWait retry hpc | reserveOwn retry hpc | acquire hpc =>
    exact exitOk_stop h hs hth (coreKept_of_eq rfl rfl) (fun _ => id)
      (by simp [StopPC.finishing, hpc]) (by simp [hpc]) (by simp)
  | cancel target hpc =>
    obtain ⟨threads, heq, -⟩ := cancel_kept w target
    rw [heq] at hth ⊢
    exact exitOk_stop h hs hth (coreKept_of_eq rfl rfl) (fun _ => id)
      (by simp [StopPC.finishing, hpc]) (by simp [hpc]) h.free
  | read hpc =>
    exact exitOk_stop h hs hth hself (fun _ => id)
      (by simp [StopPC.finishing, hpc]) (by simp [hpc]) h.free
  | lock p next hpc | unlock p b hpc =>
    exact exitOk_stop h hs hth (coreKept_setProc rfl) (fun _ => id)
      (by simp [StopPC.finishing, hpc]) (by simp [hpc]) h.free
  | finalize p pc ch ps sent r next hpc hp hfin hnext =>
    exact exitOk_finalize hinv h hs hpc hp hfin hnext
  | outcome err hpc =>
    refine exitOk_stop h hs hth hself (fun _ => id) ?_ (by simp [hpc]) h.free
    intro p _ hfin hp _
    have hout : w.stopSucceeded s.process = true := by
      simp only [World.stopSucceeded, hp, (hok.procs p).verified, hfin, Bool.and_self]
    exact ⟨hp, by rw [hout]; rfl⟩
  | publishStopped hpc =>
    exact exitOk_stop h hs hth (coreKept_of_eq rfl rfl)
      (by simp [World.forgetProcess, World.clearRuntime])
      (by simp [World.forgetProcess, World.clearRuntime]) (by simp [hpc])
      (by simp [World.forgetProcess, World.clearRuntime])
  | publishStopping hpc =>
    have hr : w.ownership.role t = .owns .stop (.holding s.process) := role_stop hs hpc
    have hpublish : (w.threads t).publishesStopping w = true := by
      simp [hs, Thread.publishesStopping, hpc]
    refine exitOk_stop h hs hth (coreKept_of_eq rfl rfl) (fun _ => id)
      (by simp [StopPC.finishing, hpc]) (by simp [hpc]) fun _ _ p hp => ?_
    refine h.not_stale_of_not_late hlate hpublish hp fun hfinishing => ?_
    have hf := (finishing_eq hinv hs hr hfinishing).2
    simp [StopPC.finishing, hpc] at hf

end

/-! ### Monitors -/

section
variable {w w' : World} {p : Pid}

theorem newborn_congr (hth : w'.threads = w.threads) (x : Pid) : w'.Newborn x ↔ w.Newborn x := by
  simp only [World.Newborn, hth]

theorem finishing_congr (hth : w'.threads = w.threads) (x : Pid) :
    w'.Finishing x ↔ w.Finishing x := by
  simp only [World.Finishing, hth]

theorem closing_congr (hth : w'.threads = w.threads) (x : Pid) : w'.Closing x ↔ w.Closing x := by
  simp only [World.Closing, hth]

theorem exitOk_monitor (h : w.ExitOk) (hth : w'.threads = w.threads)
    (hprocess : w'.process = w.process) (hlock : w'.lifecycleMu = w.lifecycleMu)
    (hop : w'.stopOp = w.stopOp) (hother : ∀ x, x ≠ p → w'.procs x = w.procs x)
    (hquiet : ¬ (w'.procs p).Stale)
    (hclosed : (w'.procs p).finalized = true → (w'.procs p).done = true ∨
      (w'.procs p).monitor = .finalize .closeDone ∨ w.Closing p) : w'.ExitOk := by
  refine ⟨?_, ?_, ?_⟩
  · intro h1 h2 x hx
    rcases eq_or_ne x p with rfl | hne
    · exact hquiet
    · rw [hother x hne]
      exact h.free (hlock ▸ h1) (hop ▸ h2) x (hprocess ▸ hx)
  · intro x o hmon ho hf
    rcases eq_or_ne x p with rfl | hne
    · exact absurd ⟨hf, .inr ⟨o, hmon, ho⟩⟩ hquiet
    · rw [hother x hne] at hmon hf
      rw [hprocess, finishing_congr hth, newborn_congr hth]
      exact h.pending x o hmon ho hf
  · intro x hf
    rw [closing_congr hth]
    rcases eq_or_ne x p with rfl | hne
    · exact hclosed hf
    · rw [hother x hne] at hf ⊢
      exact h.closed x hf

theorem not_stale_of_monitor {ps : ProcessState} (h1 : ps.monitor ≠ .returned)
    (h2 : ∀ o, ps.monitor = .callback o → o.finalized = true ∨ ps.finalized = false) :
    ¬ ps.Stale := by
  intro hstale
  rcases hstale.2 with hret | ⟨o, hcb, ho⟩
  · exact h1 hret
  · rcases h2 o hcb with hf | hf
    · rw [ho] at hf
      cases hf
    · rw [hstale.1] at hf
      cases hf

theorem World.ExitOk.closed_unless_closing (h : w.ExitOk) (hf : (w.procs p).finalized = true)
    (hm : (w.procs p).monitor ≠ .finalize .closeDone) : (w.procs p).done = true ∨ w.Closing p :=
  (h.closed p hf).imp_right fun h => h.resolve_left hm

section
variable {o : ProcessOutcome} {x : Pid}

theorem monitorCallback_process (h : (w.monitorCallback p o).process = some x) :
    w.process = some x := by
  rcases monitorCallback_cases w p o with ⟨-, heq⟩ | ⟨-, -, ⟨-, heq⟩ | ⟨-, heq⟩⟩
  · rwa [heq] at h
  · rw [heq] at h
    cases h
  · rwa [heq] at h

theorem monitorCallback_notStale (hinv : w.ownership.Inv) (hpub : w.PubOk) (h : w.ExitOk)
    (hpc : (w.procs p).monitor = .callback o) (h1 : (w.monitorCallback p o).lifecycleMu = none)
    (h2 : (w.monitorCallback p o).stopOp = none)
    (hx : (w.monitorCallback p o).process = some x) (hsame : x ≠ p → w'.procs x = w.procs x)
    (hself : w'.procs p = { w.procs p with monitor := .returned }) : ¬ (w'.procs x).Stale := by
  rcases monitorCallback_cases w p o with ⟨hno, heq⟩ | ⟨hp, hst, ⟨-, heq⟩ | ⟨ho, heq⟩⟩
  · -- the report is ignored: then `p` is not current, or somebody owns the lifecycle
    rw [heq] at h1 h2 hx
    have hne : x ≠ p := by
      rintro rfl
      rcases hno with hno | hno | hno | ⟨-, hno⟩
      · exact hno hx
      · exact hinv.starting hno h1
      · have hcons := hpub.state
        rw [hno] at hcons
        cases hcons.1.symm.trans hx
      · exact hno h2
    rw [hsame hne]
    exact h.free h1 h2 x hx
  · rw [heq] at hx
    cases hx
  · cases (monitorCallback_process hx).symm.trans hp
    obtain ⟨hfree, hop⟩ := callback_free hinv hst
    rw [hself]
    exact fun hstale => h.free hfree hop p hp ⟨hstale.1, .inr ⟨o, hpc, ho⟩⟩

end

theorem monitorView_exitOk (hinv : w.ownership.Inv) (hpub : w.PubOk) (h : w.ExitOk)
    (hv : MonitorView w p w') : w'.ExitOk := by
  obtain ⟨hth, -, hother⟩ := monitorView_shared hv
  cases hv with
  | observe ps hobs =>
    refine exitOk_monitor h hth rfl rfl rfl hother ?_ ?_ <;> rw [World.setProc_self]
    · refine not_stale_of_monitor ?_ ?_ <;>
        rcases hobs.after with ha | ha | ha | ha <;> simp [ha]
    · intro hf
      rw [hobs.finalized] at hf
      rw [hobs.done]
      refine (h.closed_unless_closing hf ?_).imp_right .inr
      rcases hobs.before with hb | hb | hb <;> simp [hb]
  | finalize pc ch ps sent r next hpc hfin hnext =>
    have hspec := finalizeStep_spec hfin
    have hprocs : ((w.setProc p { ps with monitor := next }).recordSignal sent .monitor p).procs p =
        { ps with monitor := next } := by
      rw [recordSignal_procs, World.setProc_self]
    refine exitOk_monitor h hth (congrArg Ownership.Model.process (ownership_recordSignal ..))
      (congrArg Ownership.Model.owner (ownership_recordSignal ..))
      (congrArg Ownership.Model.stopOp (ownership_recordSignal ..)) hother ?_ ?_ <;> rw [hprocs]
    · refine not_stale_of_monitor ?_ ?_ <;>
        rcases hnext with ⟨pc', -, rfl⟩ | ⟨err, -, rfl⟩ <;> simp
    · intro hf
      rcases finalizeStep_finalized hfin with ⟨hsame, -⟩ | ⟨hm, -, -⟩
      · rcases h.closed p (hsame.symm.trans hf) with hd | hm | hcl
        · exact .inl (hspec.done_mono hd)
        · rw [hpc] at hm
          cases hm
          exact .inl (hspec.closes rfl).1
        · exact .inr (.inr hcl)
      · rcases hnext with ⟨pc', hr, rfl⟩ | ⟨err, hr, rfl⟩ <;> rw [hspec.marks hm] at hr <;> cases hr
        exact .inr (.inl rfl)
  | readOutcome hpc =>
    refine exitOk_monitor h hth rfl rfl rfl hother ?_ ?_ <;> rw [World.setProc_self]
    · refine not_stale_of_monitor (by simp) ?_
      intro o ho
      cases ho
      cases (w.procs p).finalized <;> simp
    · exact fun hf => (h.closed_unless_closing hf (by simp [hpc])).imp_right .inr
  | callback o hpc =>
    have hself := World.setProc_self (w.monitorCallback p o) p { w.procs p with monitor := .returned }
    refine ⟨?_, ?_, ?_⟩
    · intro h1 h2 x hx
      exact monitorCallback_notStale hinv hpub h hpc h1 h2 hx (hother x) hself
    · intro x o' hmon ho hf
      have hne : x ≠ p := by
        rintro rfl
        rw [hself] at hmon
        cases hmon
      rw [hother x hne] at hmon hf
      rw [finishing_congr hth, newborn_congr hth]
      obtain ⟨h1, h2⟩ := h.pending x o' hmon ho hf
      exact ⟨fun hx => h1 (monitorCallback_process hx), h2⟩
    · intro x hf
      rw [closing_congr hth]
      rcases eq_or_ne x p with rfl | hne
      · rw [hself] at hf ⊢
        exact (h.closed_unless_closing hf (by simp [hpc])).imp_right .inr
      · rw [hother x hne] at hf ⊢
        exact h.closed x hf

end

/-! ### The whole system -/

theorem exitOk_initial (disableHashCheck : Bool) : (World.initial disableHashCheck).ExitOk := by
  refine ⟨?_, ?_, ?_⟩
  · intro _ _ p hp
    cases hp
  · intro p o hmon
    cases hmon
  · intro p hf
    cases hf

theorem step_exitOk {e : Event} (hinv : w.ownership.Inv) (hok : w.FinalOk) (hpub : w.PubOk)
    (h : w.ExitOk) (hlate : ¬ LatePublication w e) (hstep : step w e = some w') :
    w'.ExitOk := by
  have hself : ∀ p, (w.procs p).SameCore (w.procs p) ∨ (w.procs p).finalized = false :=
    fun p => .inl rfl
  cases step_view hstep with
  | callStart t req ht =>
    refine exitOk_thread h (by simp [ht]) rfl hself (fun _ => .inl) ?_ h.free
    intro s p hs hn
    cases hs
    simp [StartCall.new] at hn
  | callStop t ht | callLease t ht | endLease t l err c ht =>
    exact exitOk_thread h (by simp [ht]) rfl hself (fun _ => .inl) (by simp) h.free
  | endStart t s err c ht =>
    exact exitOk_start h ht rfl hself (fun _ => .inl) (fun _ => .inl) h.free
  | start t ch s s' w₁ ht hs =>
    exact startView_exitOk hinv hok hpub h hlate ht (startStep_view hinv ht hs)
  | stop t ch s s' w₁ ht hs => exact stopView_exitOk hinv hok h hlate ht (stopStep_view hinv ht hs)
  | lease t ch l l' w₁ ht hs =>
    obtain ⟨hth, hcore⟩ := leaseView_kept (leaseStep_view hs)
    have hown : w₁.ownership = w.ownership := leaseView_ownership (leaseStep_view hs)
    have hprocess : w₁.process = w.process := congrArg Ownership.Model.process hown
    have hlock : w₁.lifecycleMu = w.lifecycleMu := congrArg Ownership.Model.owner hown
    have hop : w₁.stopOp = w.stopOp := congrArg Ownership.Model.stopOp hown
    refine exitOk_thread h (by simp [ht]) hth (fun p => .inl (hcore.2 p)) ?_ (by simp) ?_
    · intro p hp
      exact .inl (hprocess ▸ hp)
    · rw [hprocess, hlock, hop]
      exact h.free
  | monitor p ch _ hp hs => exact monitorView_exitOk hinv hpub h (monitorStep_view hs)
  | commit t u l p active ht htok =>
    obtain ⟨hth, hcore⟩ := commitUser_kept w active p u
    have hown := commitUser_ownership w active p u
    have hprocess : (w.commitUser active p u).1.process = w.process :=
      congrArg Ownership.Model.process hown
    refine h.keep (fun x => .inl (hcore.2 x)) ?_ ?_ ?_ ?_ ?_
    · intro x hx
      exact .inl (hprocess ▸ hx)
    · intro x hx
      exact .inl ((newborn_congr hth x).mp hx)
    · intro x _ _ hx
      exact (finishing_congr hth x).mpr hx
    · intro x hx
      exact (closing_congr hth x).mpr hx
    · intro h1 h2
      rw [hprocess]
      exact h.free ((congrArg Ownership.Model.owner hown).symm.trans h1)
        ((congrArg Ownership.Model.stopOp hown).symm.trans h2)

/- A late publication loses the callback. -/
theorem late_publication_loses {e : Event} (hinv : w.ownership.Inv) (hlate : LatePublication w e)
    (hstep : step w e = some w') : ¬ w'.CallbackNotLost := by
  obtain ⟨t, ch, p, rfl, hpub, hp, hfin, hret⟩ := hlate
  -- whichever it is, the manager ends up free and keeps the process
  suffices hkeep : w'.lifecycleMu = none ∧ w'.stopOp = none ∧ w'.process = w.process ∧
      w'.procs = w.procs by
    obtain ⟨h1, h2, h3, h4⟩ := hkeep
    intro hok
    have hgone := hok h1 h2 p (h3.trans hp) (by rw [h4, hret])
    rw [h4, hfin] at hgone
    cases hgone
  cases ht : w.threads t with
  | idle | lease l => simp [ht, Thread.publishesStopping] at hpub
  | start s =>
    simp only [ht, Thread.publishesStopping, Bool.and_eq_true, decide_eq_true_eq] at hpub
    obtain ⟨he, hpc'⟩ := hpub
    have hop : ∀ ph, s.role = .owns (.start s.operationEpoch) ph → w.stopOp = none := by
      intro ph hr
      rcases hinv.start t s.operationEpoch ph ((role_of_start ht).trans hr) with hh | hl
      · exact hh.2.2.1
      · exact absurd he hl.2.2.ne'
    cases hpc : s.pc with
    | publishPreviousUnclean err =>
      simp only [step, ht, startStep, hpc, World.completeStart, he, if_true, Option.map_some,
        Option.some.injEq] at hstep
      subst hstep
      exact ⟨rfl, hop _ (by simp only [StartCall.role, hpc]; rfl), rfl, rfl⟩
    | publishNew x ready err =>
      cases err with
      | none => simp [hpc] at hpc'
      | some err =>
        simp only [step, ht, startStep, hpc, World.completeStart, he, if_true, Option.map_some,
          Option.some.injEq, Option.isSome_some] at hstep
        subst hstep
        exact ⟨rfl, hop (.holding (some x)) (by simp [StartCall.role, hpc]), rfl, rfl⟩
    | _ => simp [hpc] at hpc'
  | stop s =>
    have hpc : s.pc = .publish false := by simpa [ht, Thread.publishesStopping] using hpub
    simp only [step, ht, stopStep, hpc, World.publishStop, Option.map_some, Option.some.injEq] at hstep
    subst hstep
    exact ⟨rfl, rfl, rfl, rfl⟩

/-- An exit callback is lost exactly by late publications: a run without one keeps
every callback, and every late publication loses one. -/
theorem exit_callback_lost_iff_late (disableHashCheck : Bool) :
    (∀ w, Transition.Steps step (fun w e => ¬ LatePublication w e) (World.initial disableHashCheck) w →
        w.CallbackNotLost) ∧
      ∀ w e w', Reachable disableHashCheck w → LatePublication w e → step w e = some w' →
        ¬ w'.CallbackNotLost := by
  refine ⟨?_, ?_⟩
  · intro w hrun
    refine World.ExitOk.callbackNotLost ?_
    refine hrun.invariant_of (fun w => (w.ownership.Inv ∧ w.FinalOk) ∧ w.PubOk) World.ExitOk
      (fun a ha => ⟨reachable_inv ha, reachable_pubOk ha⟩) (exitOk_initial disableHashCheck) ?_
    intro a e b hbase hexit hlate hstep
    exact step_exitOk hbase.1.1 hbase.1.2 hbase.2 hexit hlate hstep
  · intro w e w' hreach hlate hstep
    exact late_publication_loses (reachable_inv hreach).1 hlate hstep

/- Every timer fires before what it waits for. -/
def expire : Pick := { succeed with timeout := true }

/- A core starts and runs. A Stop signals it twice, waits twice and reads an outcome
that is not final; only then the core exits and its monitor finalizes it and
reports. The Stop publishes what it has read. -/
def lateStop : List Event :=
  startUntilSpawn 0 ++ List.replicate 9 (.thread 0 succeed) ++
    .callStop 1 :: List.replicate 10 (.thread 1 expire) ++
    List.replicate 11 (.monitor 0 succeed) ++ [.thread 1 expire]

theorem lateStop_runs :
    (Transition.run step (World.initial false) lateStop).isSome = true := by
  decide

/-- The manager is left Stopping with a process that is completely gone. -/
theorem exit_callback_lost_by_late_stop :
    ∃ w : World, Reachable false w ∧ w.state = .stopping ∧ w.process = some 0 ∧
      ¬ w.CallbackNotLost := by
  let w := (Transition.run step (World.initial false) lateStop).get lateStop_runs
  have hw : Reachable false w := Transition.run_reach _ (Option.some_get _).symm
  refine ⟨w, hw, by decide, by decide, ?_⟩
  intro h
  have hgone := h (by decide) (by decide) 0 (by decide) (by decide)
  revert hgone
  decide

end RemnanodeLite.Xray
