import RemnanodeLite.Plugin.FilterEntries
import RemnanodeLite.Plugin.Interference

/-! # Closing the plugin service is a fence -/

namespace RemnanodeLite.Plugin.Concurrent
open Transition

section
variable {c : Codec} {y z : System} {t u : Tid} {e : Event} {th : Thread}

theorem reachable_inv {nft : Option NftManager} {hasXray : Bool} {asn : ASNResolver}
    {kernel : Kernel}
    (h : Reach (step c) (System.initial (newService nft hasXray asn) kernel) y) : Inv y := by
  refine h.invariant Inv ⟨⟨nofun, nofun, nofun⟩, fun _ => trivial, trivial⟩ ?_
  exact fun _ _ _ hinv _ hstep => step_inv hinv hstep

/-! ### After a successful `Close` -/

/- The backend's `Close` of some call has returned without an error. -/
def CloseCompleted (y : System) : Prop :=
  y.service.closeDone = true ∨ ∃ t ended, y.threads t = .close ended (.backend (.ret none))

theorem Silent.refl (y : System) : Silent y y := ⟨rfl, rfl, rfl, rfl, rfl⟩

theorem Silent.trans {x : System} (h : Silent x y) (h' : Silent y z) : Silent x z :=
  ⟨h'.kernel.trans h.kernel, h'.trace.trans h.trace, h'.reports.trans h.reports,
    h'.processed.trans h.processed, h'.sent.trans h.sent⟩

variable {ended held : Bool} {choice : Choice} {p : PluginM Bool}

theorem Turn.completes (hth : y.threads t = .close ended (.backend (.ret none)))
    (hturn : Turn c y t z th) :
    Silent y z ∧ (z.service.closeDone = true ∨ ∃ ended, th = .close ended (.backend (.ret none))) := by
  cases hturn with
  | step choice branch h =>
    simp only [threadStep, hth] at h
    cases h
    exact ⟨⟨rfl, rfl, rfl, rfl, rfl⟩, .inl rfl⟩
  | ended => exact ⟨.refl y, .inr ⟨true, by rw [hth]; rfl⟩⟩
  | called call h => exact absurd (hth.symm.trans h) nofun

theorem CloseCompleted.other {o : Owner} (hinv : Inv y) (hcompleted : CloseCompleted y)
    (hg : Guarantee o y z)
    (ho : ∀ u ended, y.threads u = .close ended (.backend (.ret none)) → Owner.thread u ≠ o) :
    CloseCompleted z ∧ Silent y z := by
  rcases hcompleted with hdone | ⟨u, ended, hu⟩
  · have hclosed := (hinv.shared.closeDone hdone).1
    have hcanceled := (hinv.shared.stopped (hinv.shared.closed hclosed).2).1
    exact ⟨.inl (hg.done hdone), hg.silent hcanceled (.inr hdone)⟩
  · have hok := hinv.threads u
    rw [hu] at hok
    obtain ⟨hgate, hclosed, -⟩ := hok
    have hcanceled := (hinv.shared.stopped (hinv.shared.closed hclosed).2).1
    refine ⟨.inr ⟨u, ended, (congrFun hg.threads u).trans hu⟩, hg.silent hcanceled (.inl ?_)⟩
    exact fun hown => ho u ended hu (Option.some.inj (hgate.symm.trans hown))

theorem step_completed (hinv : Inv y) (hcompleted : CloseCompleted y)
    (hstep : step c y e = some z) : CloseCompleted z ∧ Silent y z := by
  rcases step_cases hstep with ⟨t, y', th, hturn, rfl⟩ | ⟨y', pc, choice, branch, h, rfl⟩ | ⟨i, h⟩
  · by_cases hself : ∃ ended, y.threads t = .close ended (.backend (.ret none))
    · obtain ⟨ended, hth⟩ := hself
      obtain ⟨hsilent, hafter⟩ := hturn.completes hth
      refine ⟨hafter.imp_right fun ⟨ended', hth'⟩ => ⟨t, ended', ?_⟩, { hsilent with }⟩
      exact (Function.update_self ..).trans hth'
    · obtain ⟨hg, -⟩ := hturn.guarantee hinv.shared (hinv.threads t)
      have hne : ∀ u ended, y.threads u = .close ended (.backend (.ret none)) → u ≠ t := by
        rintro u ended hu rfl
        exact hself ⟨ended, hu⟩
      obtain ⟨hafter, hsilent⟩ := hcompleted.other hinv hg fun u ended hu h =>
        hne u ended hu (Owner.thread.inj h)
      refine ⟨hafter.imp_right fun ⟨u, ended, hu⟩ => ⟨u, ended, ?_⟩, { hsilent with }⟩
      have hold : y.threads u = .close ended (.backend (.ret none)) :=
        (congrFun hg.threads u).symm.trans hu
      exact (Function.update_of_ne (hne u ended hold) ..).trans hu
  · obtain ⟨hg, -⟩ := workerStep_guarantee hinv.shared hinv.worker h
    obtain ⟨hafter, hsilent⟩ := hcompleted.other hinv hg nofun
    exact ⟨hafter, { hsilent with }⟩
  · have hg : Guarantee .worker y z := senderStep_guarantee hinv.shared h
    exact hcompleted.other hinv hg nofun

theorem step_done (hinv : Inv y) (hdone : y.service.closeDone = true)
    (hstep : step c y e = some z) : z.service.closeDone = true := by
  rcases step_cases hstep with ⟨t, y', th, hturn, rfl⟩ | ⟨y', pc, choice, branch, h, rfl⟩ | ⟨i, h⟩
  · exact (hturn.guarantee hinv.shared (hinv.threads t)).1.done hdone
  · exact (workerStep_guarantee hinv.shared hinv.worker h).1.done hdone
  · have hg : Guarantee .worker y z := senderStep_guarantee hinv.shared h
    exact hg.done hdone

/-! ### Mutations that come too late -/

/- Not past the second look at `closing`. -/
def Late : Thread → Prop
  | .mutation false _ p => Enters p ∨ Waits p
  | .mutation true _ p => p = .ret false ∨ Rechecks p
  | .answered accepted => accepted = false
  | .idle | .close .. | .xrayWebhook .. | .notify _ => True

theorem mutationStep_late (hclosing : y.service.closing = true)
    (hlate : Late (.mutation held ended p))
    (hstep : mutationStep y t held ended p choice = some (z, th)) :
    Late th ∧ z = { y with gate := z.gate } := by
  cases held with
  | false =>
    rcases hlate with (rfl | ⟨k, rfl, hk⟩) | ⟨k, rfl, hended, hrecheck⟩
    · cases hstep
      exact ⟨rfl, rfl⟩
    · cases hstep
      exact ⟨.inl (.inl ((hk _).1 hclosing)), rfl⟩
    · simp only [mutationStep] at hstep
      split at hstep
      · cases hstep
        exact ⟨.inl (.inl hended), rfl⟩
      · split at hstep
        · cases hstep
          exact ⟨.inr hrecheck, rfl⟩
        · cases hstep
  | true =>
    rcases hlate with rfl | ⟨k, rfl, hk⟩
    · cases hstep
      exact ⟨rfl, rfl⟩
    · cases hstep
      exact ⟨.inl ((hk _).1 hclosing), rfl⟩

theorem Turn.late (hturn : Turn c y t z th) (hclosing : y.service.closing = true)
    (hlate : Late (y.threads t)) : Late th := by
  cases hturn with
  | step choice branch h =>
    unfold threadStep at h
    split at h
    · next hth =>
      rw [hth] at hlate
      exact (mutationStep_late hclosing hlate h).1
    · obtain ⟨_, _, heq⟩ := Option.map_eq_some_iff.mp h
      cases heq
      trivial
    · obtain ⟨_, _, heq⟩ := Option.map_eq_some_iff.mp h
      cases heq
      trivial
    · obtain ⟨_, _, heq⟩ := Option.map_eq_some_iff.mp h
      cases heq
      trivial
    · cases h
    · cases h
  | ended =>
    cases hth : y.threads t with
    | mutation held ended p =>
      rw [hth] at hlate
      cases held <;> exact hlate
    | answered accepted =>
      rw [hth] at hlate
      exact hlate
    | close _ _ | idle | xrayWebhook _ _ _ | notify _ => trivial
  | called call h =>
    cases call with
    | mutation m => exact .inl (program_enters c m)
    | close | xrayWebhook _ | notify => trivial

theorem step_late (hinv : Inv y) (hclosing : y.service.closing = true)
    (hlate : Late (y.threads t)) (hstep : step c y e = some z) :
    z.service.closing = true ∧ Late (z.threads t) := by
  rcases step_cases hstep with ⟨u, y', th, hturn, rfl⟩ | ⟨y', pc, choice, branch, h, rfl⟩ | ⟨i, h⟩
  · obtain ⟨hg, -⟩ := hturn.guarantee hinv.shared (hinv.threads u)
    refine ⟨hg.closing hclosing, ?_⟩
    change Late (Function.update y'.threads u th t)
    by_cases htu : t = u
    · subst htu
      rw [Function.update_self]
      exact hturn.late hclosing hlate
    · rwa [Function.update_of_ne htu, hg.threads]
  · obtain ⟨hg, -⟩ := workerStep_guarantee hinv.shared hinv.worker h
    refine ⟨hg.closing hclosing, ?_⟩
    change Late (y'.threads t)
    rwa [hg.threads]
  · have hg : Guarantee .worker y z := senderStep_guarantee hinv.shared h
    exact ⟨hg.closing hclosing, by rwa [hg.threads]⟩

/-! ### They are answered -/

/- Left alone, the goroutine comes to the answer that the mutation is rejected. -/
def Answers (c : Codec) (t : Tid) (choice : Choice) (y : System) : Prop :=
  ∃ n z, Transition.run (step c) y (List.replicate n (.thread t choice 0)) = some z ∧
    z.threads t = .answered false

theorem Answers.step (hth : y.threads t = .mutation held ended p)
    (hstep : mutationStep y t held ended p choice = some (z, th))
    (h : Answers c t choice (z.setThread t th)) : Answers c t choice y := by
  obtain ⟨n, z', hrun, hz'⟩ := h
  refine ⟨n + 1, z', ?_, hz'⟩
  have hfirst : Concurrent.step c y (.thread t choice 0) = some (z.setThread t th) := by
    simp only [Concurrent.step, threadStep, hth, hstep, Option.map_some]
  rw [List.replicate_succ, Transition.run, hfirst]
  exact hrun

theorem setThread_self (y : System) (t : Tid) (th : Thread) : (y.setThread t th).threads t = th :=
  Function.update_self ..

theorem answers_rejected (hth : y.threads t = .mutation held ended (.ret false)) :
    Answers c t choice y := by
  have hlast : ∀ z : System, Answers c t choice (z.setThread t (.answered false)) :=
    fun z => ⟨0, _, rfl, setThread_self ..⟩
  cases held with
  | false => exact .step hth rfl (hlast y)
  | true => exact .step hth rfl (hlast y.release)

theorem answers_load {k : Service → PluginM Bool}
    (hth : y.threads t = .mutation held ended (.call .load k)) (hk : k y.service = .ret false) :
    Answers c t choice y := by
  cases held with
  | false =>
    exact .step hth rfl (answers_rejected
      ((setThread_self ..).trans (congrArg (Thread.mutation false ended) hk)))
  | true =>
    exact .step hth rfl (answers_rejected
      ((setThread_self ..).trans (congrArg (Thread.mutation true ended) hk)))

theorem answers_late (hclosing : y.service.closing = true)
    (hth : y.threads t = .mutation held ended p) (hlate : Late (.mutation held ended p))
    (hgate : y.gate = none ∨ held = true) :
    Answers c t choice y := by
  cases held with
  | false =>
    rcases hlate with (rfl | ⟨k, rfl, hk⟩) | ⟨k, rfl, hended, hrecheck⟩
    · exact answers_rejected hth
    · exact answers_load hth ((hk _).1 hclosing)
    · obtain ⟨k', hk', hclosed⟩ := hrecheck
      by_cases hend : (ended || choice.ended) = true
      · exact .step hth (if_pos hend) (answers_rejected
          ((setThread_self ..).trans (congrArg (Thread.mutation false true) hended)))
      · have hfree : y.gate = none := hgate.resolve_right nofun
        have hafter : ((y.acquire (.thread t)).setThread t (.mutation true false (k false))).threads t
            = .mutation true false (.call .load k') :=
          (setThread_self ..).trans (congrArg (Thread.mutation true false) hk')
        exact .step hth ((if_neg hend).trans (if_pos hfree))
          (answers_load hafter ((hclosed _).1 hclosing))
  | true =>
    rcases hlate with rfl | ⟨k, rfl, hk⟩
    · exact answers_rejected hth
    · exact answers_load hth ((hk _).1 hclosing)

end

/-! ### The fence -/

def outside : Thread → Bool
  | .idle | .mutation false _ _ => true
  | .mutation true _ _ | .answered _ | .close .. | .xrayWebhook .. | .notify _ => false

/- No answer but a rejection, no step that touches more than the gate, and an answer as
soon as the gate is free. -/
structure Rejected (c : Codec) (t : Tid) (y : System) : Prop where
  answer : ∀ accepted, y.threads t = .answered accepted → accepted = false
  effectless : ∀ held ended p, y.threads t = .mutation held ended p →
    ∀ choice branch z, step c y (.thread t choice branch) = some z →
      z = { y with gate := z.gate, threads := z.threads }
  answers : ∀ held ended p, y.threads t = .mutation held ended p → y.gate = none ∨ held = true →
    ∀ choice, Answers c t choice y

theorem late_of_outside {y : System} {t : Tid} (hinv : Inv y)
    (hout : outside (y.threads t) = true) : Late (y.threads t) := by
  have hok := hinv.threads t
  cases hth : y.threads t with
  | mutation held ended p =>
    rw [hth] at hok hout
    cases held with
    | false => exact hok
    | true => cases hout
  | idle => trivial
  | answered _ =>
    rw [hth] at hout
    cases hout
  | close _ _ | xrayWebhook _ _ _ | notify _ => trivial

theorem rejected_of_late {c : Codec} {y : System} {t : Tid} (hclosing : y.service.closing = true)
    (hlate : Late (y.threads t)) : Rejected c t y where
  answer accepted h := by
    rw [h] at hlate
    exact hlate
  effectless held ended p hth choice branch z hstep := by
    rw [hth] at hlate
    obtain ⟨⟨y', th⟩, h, rfl⟩ := Option.map_eq_some_iff.mp hstep
    simp only [threadStep, hth] at h
    obtain ⟨-, hsame⟩ := mutationStep_late hclosing hlate h
    change y'.setThread t th = _
    rw [hsame]
    rfl
  answers held ended p hth hgate choice := by
    rw [hth] at hlate
    exact answers_late hclosing hth hlate hgate

/-- Once the backend's `Close` has succeeded no script runs any more and no webhook is
processed, reported or sent, and once that is recorded nothing is active; a mutation that
does not hold the gate when `closing` is set is rejected, and does nothing. -/
theorem closing_is_fence (c : Codec) (nft : Option NftManager) (hasXray : Bool) (asn : ASNResolver)
    (kernel : Kernel) (y : System)
    (hy : Reach (step c) (System.initial (newService nft hasXray asn) kernel) y) :
    (CloseCompleted y → ∀ z, Reach (step c) y z →
      Silent y z ∧ (y.service.closeDone = true → z.service.active = none)) ∧
    (y.service.closing = true → ∀ t, outside (y.threads t) = true →
      ∀ z, Reach (step c) y z → Rejected c t z) := by
  have hinv : ∀ z, Reach (step c) y z → Inv z := fun z hz => reachable_inv (hy.trans hz)
  refine ⟨fun hcompleted z hz => ?_, fun hclosing t hout z hz => ?_⟩
  · have hrun : CloseCompleted z ∧ Silent y z ∧
        (y.service.closeDone = true → z.service.closeDone = true) := by
      refine hz.invariant_of Inv (fun w => CloseCompleted w ∧ Silent y w ∧
        (y.service.closeDone = true → w.service.closeDone = true)) hinv
        ⟨hcompleted, .refl y, id⟩ ?_
      rintro a e b hinva ⟨hdone, hsilent, hkeep⟩ - hstep
      obtain ⟨hdone', hsilent'⟩ := step_completed hinva hdone hstep
      exact ⟨hdone', hsilent.trans hsilent', fun h => step_done hinva (hkeep h) hstep⟩
    exact ⟨hrun.2.1, fun h => ((hinv z hz).shared.closeDone (hrun.2.2 h)).2⟩
  · have hlate : z.service.closing = true ∧ Late (z.threads t) := by
      refine hz.invariant_of Inv (fun w => w.service.closing = true ∧ Late (w.threads t)) hinv
        ⟨hclosing, late_of_outside (hinv y .refl) hout⟩ ?_
      rintro a e b hinva ⟨hclosing', hlate⟩ - hstep
      exact step_late hinva hclosing' hlate hstep
    exact rejected_of_late hlate.1 hlate.2

def sampleChoice : Choice := ⟨false, .done, true⟩

/- Goroutine 1 sets the tables up, 2 waits for the gate with a reset, 0 closes. -/
def sampleRun : List Event :=
  .call 1 (.mutation .initializeContext) :: List.replicate 13 (.thread 1 sampleChoice 0) ++
  .call 2 (.mutation .resetPlugins) :: .thread 2 sampleChoice 0 ::
  .call 0 .close :: List.replicate 13 (.thread 0 sampleChoice 0)

theorem sampleRun_closes :
    (Transition.run (step (plainCodec []))
      (.initial (newService (some (newNFTManager true ⟨false, false⟩)) true none) fun _ => ∅)
      sampleRun).any (fun y => y.service.closeDone && y.service.closing && outside (y.threads 2) &&
        y.trace.length = 2) = true := by
  decide +kernel

/-- The theorem after a `Close` that has deleted the tables, with a reset still waiting. -/
theorem closing_is_fence_sample : ∃ y,
    Reach (step (plainCodec []))
      (.initial (newService (some (newNFTManager true ⟨false, false⟩)) true none) fun _ => ∅) y ∧
    y.service.closeDone = true ∧ y.trace.length = 2 ∧
    ∀ z, Reach (step (plainCodec [])) y z →
      Silent y z ∧ z.service.active = none ∧ Rejected (plainCodec []) 2 z := by
  obtain ⟨y, hrun, hy⟩ := (Option.any_eq_true _ _).mp sampleRun_closes
  simp only [Bool.and_eq_true, decide_eq_true_eq] at hy
  obtain ⟨⟨⟨hdone, hclosing⟩, hout⟩, htrace⟩ := hy
  have hreach := run_reach sampleRun hrun
  obtain ⟨hfirst, hsecond⟩ := closing_is_fence _ _ _ _ _ y hreach
  refine ⟨y, hreach, hdone, htrace, fun z hz => ?_⟩
  obtain ⟨hsilent, hactive⟩ := hfirst (.inl hdone) z hz
  exact ⟨hsilent, hactive hdone, hsecond hclosing 2 hout z hz⟩

end RemnanodeLite.Plugin.Concurrent
