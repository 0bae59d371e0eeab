import RemnanodeLite.Plugin.Concurrent
import RemnanodeLite.Plugin.Publishing

/-! # What the goroutines of the plugin service leave to each other

A mutation looks at `closing` on both sides of the gate; who holds the gate keeps the
others from what it protects; `Close` sets its flags one after another and never takes
one back. -/

namespace RemnanodeLite.Plugin.Concurrent
open Transition

/-! ### The flags of `CloseContext` -/

def FlagsAre (closed closeDone : Bool) (s : Session) : Prop :=
  s.service.closed = closed ∧ s.service.closeDone = closeDone

def ServiceFlags (closed closeDone : Bool) (service : Service) : Prop :=
  service.closed = closed ∧ service.closeDone = closeDone

theorem sustained_flags (closed closeDone : Bool) :
    Sustained (ServiceFlags closed closeDone) fun _ => True where
  nft := fun _ _ h => h
  unread := fun _ _ _ h => h
  commit := fun _ _ h _ => h
  active := fun _ _ => trivial
  none := trivial
  degraded := fun _ _ => trivial

theorem flags_upkeep (c : Codec) :
    Upkeep c (fun _ => True) (sustaining (ServiceFlags false false)) :=
  (sustained_flags false false).upkeep (fun _ _ => trivial)
    fun _ _ => ⟨fun _ _ _ _ => trivial, fun _ _ _ _ => trivial⟩

theorem processXrayWebhookLocked_flags (c : Codec) (payload : WebhookPayload) :
    Program.Stable handle (FlagsAre false false) (processXrayWebhookLocked c payload) := by
  have hforget : Sustains (ServiceFlags false false)
      (processXrayWebhookLocked c payload >>= fun _ => pure ()) := by
    rw [processXrayWebhookLocked_forget]
    exact (flags_upkeep c).processXrayWebhook payload nothing_seen
  exact hforget.of_bind

/-! ### How a mutation enters -/

/- Behind the gate, before the second look at `closing`. -/
def Rechecks (p : PluginM Bool) : Prop :=
  ∃ k : Service → PluginM Bool, p = .call .load k ∧ ∀ service,
    (service.closing = true → k service = .ret false) ∧
    (service.closing = false → Program.Stable handle (FlagsAre false false) (k service))

def Waits (p : PluginM Bool) : Prop :=
  ∃ k : Bool → PluginM Bool, p = .call .contextError k ∧ k true = .ret false ∧ Rechecks (k false)

/- Rejected, or before the first look at `closing`. -/
def Enters (p : PluginM Bool) : Prop :=
  p = .ret false ∨ ∃ k : Service → PluginM Bool, p = .call .load k ∧ ∀ service,
    (service.closing = true → k service = .ret false) ∧ (service.closing = false → Waits (k service))

theorem stable_admitted {f : Option ServiceError → PluginM Bool}
    (h : Sustains (ServiceFlags false false) (acquireMutation >>= f)) :
    Program.Stable handle (FlagsAre false false) (f none) := by
  let s : Session := ⟨newService none false none, fun _ => ∅, false, []⟩
  let lasts : Choice := ⟨false, .done, true⟩
  have hlook := (h s lasts ⟨rfl, rfl⟩).2
  exact ((hlook s lasts ⟨rfl, rfl⟩).2 s lasts ⟨rfl, rfl⟩).2

theorem enters_acquireMutation {f : Option ServiceError → PluginM Bool}
    (hrejected : ∀ error, f (some error) = .ret false)
    (h : Sustains (ServiceFlags false false) (acquireMutation >>= f)) :
    Enters (acquireMutation >>= f) := by
  refine Or.inr ⟨_, rfl, fun service => ⟨fun hclosing => ?_, fun hclosing => ?_⟩⟩
  · change Program.bind (ite (service.closing = true) _ _) f = _
    rw [if_pos hclosing]
    exact hrejected _
  · change Waits (Program.bind (ite (service.closing = true) _ _) f)
    rw [if_neg (Bool.eq_false_iff.mp hclosing)]
    refine ⟨_, rfl, hrejected _, _, rfl, fun service => ⟨fun hclosing => ?_, fun hclosing => ?_⟩⟩
    · change Program.bind (ite (service.closing = true) _ _) f = _
      rw [if_pos hclosing]
      exact hrejected _
    · change Program.Stable _ _ (Program.bind (ite (service.closing = true) _ _) f)
      rw [if_neg (Bool.eq_false_iff.mp hclosing)]
      exact stable_admitted h

/- Every mutation passes `acquireMutation` before it does anything. -/
theorem program_enters (c : Codec) (m : Mutation) : Enters (m.program c) := by
  have hflags := flags_upkeep c
  have hwipe : (sustaining (ServiceFlags false false)).Holds false none
      (applySnapshotWithOrder c none none false false) :=
    fun _ => (sustained_flags false false).applySnapshot trivial nofun
  cases m with
  | initializeContext =>
    change Enters ((acquireMutation >>= _) >>= _)
    rw [bind_assoc]
    refine enters_acquireMutation (fun _ => rfl) ?_
    rw [← bind_assoc]
    exact (hflags.initializeContext nothing_seen).bind fun _ => .pure _
  | sync request =>
    exact enters_acquireMutation (fun _ => rfl) (hflags.syncContext (fun _ _ => trivial) nothing_seen)
  | resetPlugins =>
    change Enters ((acquireMutation >>= _) >>= _)
    rw [bind_assoc]
    refine enters_acquireMutation (fun _ => rfl) ?_
    rw [← bind_assoc]
    exact .bind (Upkeep.resetPluginsContext hwipe nothing_seen) fun _ => .pure _
  | recreateTables => exact enters_acquireMutation (fun _ => rfl) (hflags.recreateTablesContext nothing_seen)
  | blockIPs items =>
    have hkeeps : Sustains (ServiceFlags false false) (blockIPsContext c items) :=
      hflags.blockIPsContext items nothing_seen
    unfold blockIPsContext at hkeeps
    change Enters (ite _ _ _)
    split
    · exact .inl rfl
    next hvalid =>
      rw [if_neg hvalid] at hkeeps
      exact enters_acquireMutation (fun _ => rfl) hkeeps
  | unblockIPs ips =>
    have hkeeps : Sustains (ServiceFlags false false) (unblockIPsContext ips) :=
      (sustained_flags false false).unblockIPsContext ips
    unfold unblockIPsContext at hkeeps
    change Enters (ite _ _ _)
    split
    · exact .inl rfl
    next hvalid =>
      rw [if_neg hvalid] at hkeeps
      exact enters_acquireMutation (fun _ => rfl) hkeeps

/-! ### What holds between steps -/

/- Nothing was done to the firewall or asked of Xray, and no webhook was processed,
reported or sent. -/
structure Silent (y z : System) : Prop where
  kernel : z.kernel = y.kernel
  trace : z.trace = y.trace
  reports : z.service.reports = y.service.reports
  processed : z.processed = y.processed
  sent : z.sent = y.sent

/- `closed` and `closeDone` come after everything that `signalWebhookStop` does. -/
structure Shared (y : System) : Prop where
  stopped : y.once = .done → y.webhookCanceled = true ∧ y.stopClosed = true
  closed : y.service.closed = true → y.service.closing = true ∧ y.once = .done
  closeDone : y.service.closeDone = true → y.service.closed = true ∧ y.service.active = none

def CloseOk (y : System) (t : Tid) : ClosePC → Prop
  | .setClosing | .waitWorker _ | .drain _ | .returned _ => True
  | .once | .storeStopped | .cancel => y.service.closing = true
  | .closeStop => y.service.closing = true ∧ y.webhookCanceled = true
  | .lockAdmission =>
    y.service.closing = true ∧ y.webhookCanceled = true ∧ y.stopClosed = true
  | .acquire => y.service.closing = true ∧ y.once = .done
  | .checkDone => y.gate = some (.thread t) ∧ y.service.closing = true ∧ y.once = .done
  | .backend p => y.gate = some (.thread t) ∧ y.service.closed = true ∧
      y.service.closeDone = false ∧ Program.Stable handle (FlagsAre true false) p

/- A mutation holds the gate: it is rejected, about to look again, or was let in before
`Close` got the gate. -/
def Admitted (y : System) (p : PluginM Bool) : Prop :=
  p = .ret false ∨ Rechecks p ∨
    y.service.closed = false ∧ Program.Stable handle (FlagsAre false false) p

def ThreadOk (y : System) (t : Tid) : Thread → Prop
  | .mutation false _ p => Enters p ∨ Waits p
  | .mutation true _ p => y.gate = some (.thread t) ∧ Admitted y p
  | .close _ pc => CloseOk y t pc
  | .idle | .answered _ | .xrayWebhook .. | .notify _ => True

def WorkerOk (y : System) : WorkerPC → Prop
  | .recheck _ => y.gate = some .worker
  | .processing _ p => y.gate = some .worker ∧ y.service.closed = false ∧
      Program.Stable handle (FlagsAre false false) p
  | .poll | .select | .gateWait _ | .dispatch _ | .slot _ | .join | .done => True

structure Inv (y : System) : Prop where
  shared : Shared y
  threads : ∀ t, ThreadOk y t (y.threads t)
  worker : WorkerOk y y.worker

/-! ### What a step of one party leaves to the others -/

/-- A step of `o` gives nobody else's gate away, takes no signal of `Close` back, and
does nothing without the gate or after `Close` but turn to its own affairs. -/
structure Guarantee (o : Owner) (y z : System) : Prop where
  threads : z.threads = y.threads
  worker : z.worker = y.worker
  gate : ∀ o', y.gate = some o' → o' ≠ o → z.gate = some o'
  closing : y.service.closing = true → z.service.closing = true
  canceled : y.webhookCanceled = true → z.webhookCanceled = true
  stop : y.stopClosed = true → z.stopClosed = true
  once : y.once = .done → z.once = .done
  flags : y.gate ≠ some o →
    z.service.closed = y.service.closed ∧ z.service.closeDone = y.service.closeDone
  done : y.service.closeDone = true → z.service.closeDone = true
  silent : y.webhookCanceled = true → y.gate ≠ some o ∨ y.service.closeDone = true → Silent y z
  shared : Shared z

section
variable {y z : System} {t u : Tid} {o : Owner} {th : Thread} {pc : WorkerPC}

theorem CloseOk.other {pc : ClosePC} (h : CloseOk y u pc) (hg : Guarantee o y z)
    (ho : Owner.thread u ≠ o) : CloseOk z u pc := by
  cases pc with
  | setClosing => trivial
  | waitWorker _ => trivial
  | drain _ => trivial
  | returned _ => trivial
  | once => exact hg.closing h
  | storeStopped => exact hg.closing h
  | cancel => exact hg.closing h
  | closeStop => exact ⟨hg.closing h.1, hg.canceled h.2⟩
  | lockAdmission => exact ⟨hg.closing h.1, hg.canceled h.2.1, hg.stop h.2.2⟩
  | acquire => exact ⟨hg.closing h.1, hg.once h.2⟩
  | checkDone => exact ⟨hg.gate _ h.1 ho, hg.closing h.2.1, hg.once h.2.2⟩
  | backend p =>
    obtain ⟨hgate, hclosed, hdone, hp⟩ := h
    obtain ⟨hclosed', hdone'⟩ := hg.flags fun hown => ho (Option.some.inj (hgate.symm.trans hown))
    exact ⟨hg.gate _ hgate ho, hclosed'.trans hclosed, hdone'.trans hdone, hp⟩

theorem ThreadOk.other (h : ThreadOk y u th) (hg : Guarantee o y z)
    (ho : Owner.thread u ≠ o) : ThreadOk z u th := by
  cases th with
  | idle => trivial
  | answered _ => trivial
  | xrayWebhook _ _ _ => trivial
  | notify _ => trivial
  | close ended pc => exact CloseOk.other h hg ho
  | mutation held ended p =>
    cases held with
    | false => exact h
    | true =>
      obtain ⟨hgate, hp⟩ := h
      obtain ⟨hclosed, -⟩ := hg.flags fun hown => ho (Option.some.inj (hgate.symm.trans hown))
      exact ⟨hg.gate _ hgate ho, hp.imp_right (Or.imp_right (And.imp_left hclosed.trans))⟩

theorem WorkerOk.other (h : WorkerOk y pc) (hg : Guarantee o y z) (ho : Owner.worker ≠ o) :
    WorkerOk z pc := by
  cases pc with
  | poll => trivial
  | select => trivial
  | gateWait _ => trivial
  | dispatch _ => trivial
  | slot _ => trivial
  | join => trivial
  | done => trivial
  | recheck _ => exact hg.gate _ h ho
  | processing _ _ =>
    obtain ⟨hgate, hclosed, hp⟩ := h
    obtain ⟨hclosed', -⟩ := hg.flags fun hown => ho (Option.some.inj (hgate.symm.trans hown))
    exact ⟨hg.gate _ hgate ho, hclosed'.trans hclosed, hp⟩

/- Everything but the gate, the queue, the readers and the senders is as before. -/
structure Quiet (y z : System) : Prop where
  threads : z.threads = y.threads
  worker : z.worker = y.worker
  service : z.service = y.service
  once : z.once = y.once
  canceled : z.webhookCanceled = y.webhookCanceled
  stop : z.stopClosed = y.stopClosed
  kernel : z.kernel = y.kernel
  trace : z.trace = y.trace
  processed : z.processed = y.processed

theorem Quiet.guarantee (hq : Quiet y z) (hy : Shared y)
    (hgate : ∀ o', y.gate = some o' → o' ≠ o → z.gate = some o')
    (hsent : y.webhookCanceled = true → z.sent = y.sent) : Guarantee o y z where
  threads := hq.threads
  worker := hq.worker
  gate := hgate
  closing := by simp [hq.service]
  canceled := by simp [hq.canceled]
  stop := by simp [hq.stop]
  once := by simp [hq.once]
  flags := by simp [hq.service]
  done := by simp [hq.service]
  silent := fun hcanceled _ =>
    ⟨hq.kernel, hq.trace, by rw [hq.service], hq.processed, hsent hcanceled⟩
  shared := ⟨by simpa [hq.once, hq.canceled, hq.stop] using hy.stopped,
    by simpa [hq.service, hq.once] using hy.closed, by simpa [hq.service] using hy.closeDone⟩

theorem guarantee_refl (hy : Shared y) : Guarantee o y y :=
  Quiet.guarantee ⟨rfl, rfl, rfl, rfl, rfl, rfl, rfl, rfl, rfl⟩ hy (fun _ h _ => h) fun _ => rfl

theorem guarantee_acquire (hy : Shared y) (hfree : y.gate = none) : Guarantee o y (y.acquire o) :=
  Quiet.guarantee ⟨rfl, rfl, rfl, rfl, rfl, rfl, rfl, rfl, rfl⟩ hy
    (fun _ h _ => absurd (hfree.symm.trans h) nofun) fun _ => rfl

theorem guarantee_release (hy : Shared y) (hown : y.gate = some o) : Guarantee o y y.release :=
  Quiet.guarantee ⟨rfl, rfl, rfl, rfl, rfl, rfl, rfl, rfl, rfl⟩ hy
    (fun _ h ho => absurd (Option.some.inj (h.symm.trans hown)) ho) fun _ => rfl

/- Before `Close` is done the holder of the gate may do anything with what it protects. -/
theorem guarantee_owner (hown : y.gate = some o) (hdone : y.service.closeDone = false)
    (hsame : z = { y with
      service := { z.service with closing := y.service.closing }
      kernel := z.kernel, gate := z.gate, trace := z.trace, processed := z.processed })
    (hz : Shared z) : Guarantee o y z where
  threads := by rw [hsame]
  worker := by rw [hsame]
  gate := fun _ h ho => absurd (Option.some.inj (h.symm.trans hown)) ho
  closing := by rw [hsame]; exact id
  canceled := by rw [hsame]; exact id
  stop := by rw [hsame]; exact id
  once := by rw [hsame]; exact id
  flags := fun h => absurd hown h
  done := fun h => absurd (hdone.symm.trans h) nofun
  silent := fun _ h => h.elim (absurd hown) fun h => absurd (hdone.symm.trans h) nofun
  shared := hz

theorem guarantee_put {s : Session} (hy : Shared y) (hown : y.gate = some o)
    (hdone : y.service.closeDone = false) (hs : FlagsAre y.service.closed false s) :
    Guarantee o y (y.put s) :=
  guarantee_owner hown hdone rfl ⟨hy.stopped, fun h => hy.closed (hs.1.symm.trans h),
    fun h => absurd (hs.2.symm.trans h) nofun⟩

theorem guarantee_signal
    (hsame : z = { y with
      service := { y.service with closing := z.service.closing }
      once := z.once, webhookStopped := z.webhookStopped
      webhookCanceled := z.webhookCanceled, stopClosed := z.stopClosed })
    (hclosing : y.service.closing = true → z.service.closing = true)
    (hcanceled : y.webhookCanceled = true → z.webhookCanceled = true)
    (hstop : y.stopClosed = true → z.stopClosed = true) (honce : y.once = .done → z.once = .done)
    (hz : Shared z) : Guarantee o y z where
  threads := by rw [hsame]
  worker := by rw [hsame]
  gate := fun _ h _ => by rw [hsame]; exact h
  closing := hclosing
  canceled := hcanceled
  stop := hstop
  once := honce
  flags := fun _ => by rw [hsame]; exact ⟨rfl, rfl⟩
  done := fun h => by rw [hsame]; exact h
  silent := fun _ _ => by rw [hsame]; exact ⟨rfl, rfl, rfl, rfl, rfl⟩
  shared := hz

theorem Shared.not_done (hy : Shared y) (hopen : y.service.closed = false) :
    y.service.closeDone = false :=
  Bool.eq_false_iff.mpr fun hdone => absurd ((hy.closeDone hdone).1.symm.trans hopen) nofun

theorem Rechecks.admitted {k : Service → PluginM Bool} (hy : Shared y)
    (hk : ∀ service, (service.closing = true → k service = .ret false) ∧
      (service.closing = false → Program.Stable handle (FlagsAre false false) (k service))) :
    Admitted y (k y.service) := by
  cases hclosing : y.service.closing with
  | true => exact .inl ((hk _).1 hclosing)
  | false =>
    have hopen : y.service.closed = false := Bool.eq_false_iff.mpr fun hclosed =>
      absurd ((hy.closed hclosed).1.symm.trans hclosing) nofun
    exact .inr (.inr ⟨hopen, (hk _).2 hclosing⟩)

variable {choice : Choice} {ended : Bool} {branch : ℕ}

theorem mutationStep_waiting {p : PluginM Bool} (hy : Shared y) (hp : Enters p ∨ Waits p)
    (hstep : mutationStep y t false ended p choice = some (z, th)) :
    Guarantee (.thread t) y z ∧ ThreadOk z t th := by
  rcases hp with (rfl | ⟨k, rfl, hk⟩) | ⟨k, rfl, hended, hrecheck⟩
  · cases hstep
    exact ⟨guarantee_refl hy, trivial⟩
  · cases hstep
    refine ⟨guarantee_refl hy, ?_⟩
    cases hclosing : y.service.closing with
    | true => exact .inl (.inl ((hk _).1 hclosing))
    | false => exact .inr ((hk _).2 hclosing)
  · simp only [mutationStep] at hstep
    split at hstep
    · cases hstep
      exact ⟨guarantee_refl hy, .inl (.inl hended)⟩
    · split at hstep
      · next hfree =>
        cases hstep
        exact ⟨guarantee_acquire hy hfree, rfl, .inr (.inl hrecheck)⟩
      · cases hstep

theorem mutationStep_holding {p : PluginM Bool} (hy : Shared y) (hgate : y.gate = some (.thread t))
    (hp : Admitted y p) (hstep : mutationStep y t true ended p choice = some (z, th)) :
    Guarantee (.thread t) y z ∧ ThreadOk z t th := by
  rcases hp with rfl | ⟨k, rfl, hk⟩ | ⟨hopen, hp⟩
  · cases hstep
    exact ⟨guarantee_release hy hgate, trivial⟩
  · cases hstep
    exact ⟨guarantee_refl hy, hgate, Rechecks.admitted hy hk⟩
  · cases p with
    | ret accepted =>
      cases hstep
      exact ⟨guarantee_release hy hgate, trivial⟩
    | call op k =>
      cases hstep
      have hdone := hy.not_done hopen
      obtain ⟨hflags, hrest⟩ := hp (y.session ended) choice ⟨hopen, hdone⟩
      exact ⟨guarantee_put hy hgate hdone (by rwa [hopen]), hgate, .inr (.inr ⟨hflags.1, hrest⟩)⟩

/- Before it asks for the gate, a `Close` stops the webhooks. -/
@[simp] def ClosePC.signaling : ClosePC → Bool
  | .setClosing | .once | .storeStopped | .cancel | .closeStop | .lockAdmission => true
  | _ => false

theorem closeStep_signaling {pc pc' : ClosePC} (hpc : pc.signaling = true) (hy : Shared y)
    (hok : CloseOk y t pc) (hstep : closeStep y t ended pc choice branch = some (z, pc')) :
    Guarantee (.thread t) y z ∧ CloseOk z t pc' := by
  cases pc with
  | setClosing =>
    cases hstep
    exact ⟨guarantee_signal rfl (fun _ => rfl) id id id
      ⟨hy.stopped, fun h => ⟨rfl, (hy.closed h).2⟩, hy.closeDone⟩, rfl⟩
  | once =>
    simp only [closeStep] at hstep
    split at hstep
    · next hfresh =>
      cases hstep
      refine ⟨guarantee_signal rfl id id id (fun h => absurd (hfresh.symm.trans h) nofun)
        ⟨nofun, fun h => absurd (hfresh.symm.trans (hy.closed h).2) nofun, hy.closeDone⟩, hok⟩
    · cases hstep
    · next hdone =>
      cases hstep
      exact ⟨guarantee_refl hy, hok, hdone⟩
  | storeStopped =>
    cases hstep
    exact ⟨guarantee_signal rfl id id id id ⟨hy.stopped, hy.closed, hy.closeDone⟩, hok⟩
  | cancel =>
    cases hstep
    exact ⟨guarantee_signal rfl id (fun _ => rfl) id id
      ⟨fun h => ⟨rfl, (hy.stopped h).2⟩, hy.closed, hy.closeDone⟩, hok, rfl⟩
  | closeStop =>
    cases hstep
    exact ⟨guarantee_signal rfl id id (fun _ => rfl) id
      ⟨fun h => ⟨(hy.stopped h).1, rfl⟩, hy.closed, hy.closeDone⟩, hok.1, hok.2, rfl⟩
  | lockAdmission =>
    simp only [closeStep] at hstep
    split at hstep
    · cases hstep
      exact ⟨guarantee_signal rfl id id id (fun _ => rfl)
        ⟨fun _ => hok.2, fun h => ⟨(hy.closed h).1, rfl⟩, hy.closeDone⟩, hok.1, rfl⟩
    · cases hstep
  | _ => cases hpc

theorem closeStep_guarantee {pc pc' : ClosePC} (hy : Shared y) (hok : CloseOk y t pc)
    (hstep : closeStep y t ended pc choice branch = some (z, pc')) :
    Guarantee (.thread t) y z ∧ CloseOk z t pc' := by
  by_cases hpc : pc.signaling = true
  · exact closeStep_signaling hpc hy hok hstep
  cases pc with
  | acquire =>
    simp only [closeStep] at hstep
    split at hstep
    · cases hstep
      exact ⟨guarantee_refl hy, trivial⟩
    · split at hstep
      · next hfree =>
        cases hstep
        exact ⟨guarantee_acquire hy hfree, rfl, hok⟩
      · cases hstep
  | checkDone =>
    obtain ⟨hgate, hsignals⟩ := hok
    simp only [closeStep] at hstep
    split at hstep
    · cases hstep
      exact ⟨guarantee_release hy hgate, trivial⟩
    · next hnot =>
      cases hstep
      have hdone := Bool.eq_false_iff.mpr hnot
      exact ⟨guarantee_owner hgate hdone rfl
        ⟨hy.stopped, fun _ => hsignals, fun h => absurd (hdone.symm.trans h) nofun⟩,
        hgate, rfl, hdone, (sustained_flags true false).beside.close⟩
  | backend p =>
    obtain ⟨hgate, hclosed, hdone, hp⟩ := hok
    cases p with
    | call op k =>
      cases hstep
      obtain ⟨hflags, hrest⟩ := hp (y.session ended) choice ⟨hclosed, hdone⟩
      exact ⟨guarantee_put hy hgate hdone (by rwa [hclosed]), hgate, hflags.1, hflags.2, hrest⟩
    | ret error =>
      cases error with
      | some error =>
        cases hstep
        exact ⟨guarantee_release hy hgate, trivial⟩
      | none =>
        cases hstep
        exact ⟨guarantee_owner hgate hdone rfl
          ⟨hy.stopped, fun _ => hy.closed hclosed, fun _ => ⟨hclosed, rfl⟩⟩, trivial⟩
  | waitWorker errs =>
    simp only [closeStep] at hstep
    split at hstep
    · cases hstep
      exact ⟨guarantee_refl hy, trivial⟩
    · cases hstep
    · split at hstep
      · cases hstep
        exact ⟨guarantee_refl hy, trivial⟩
      · cases hstep
  | drain errs =>
    simp only [closeStep] at hstep
    split at hstep
    · cases hstep
      exact ⟨guarantee_refl hy, trivial⟩
    · cases hstep
      exact ⟨Quiet.guarantee ⟨rfl, rfl, rfl, rfl, rfl, rfl, rfl, rfl, rfl⟩ hy (fun _ h _ => h)
        fun _ => rfl, trivial⟩
  | returned errs => cases hstep
  | _ => exact absurd rfl hpc

theorem workerStep_guarantee {c : Codec} {pc' : WorkerPC} (hy : Shared y) (hok : WorkerOk y pc)
    (hstep : workerStep c y pc choice branch = some (z, pc')) :
    Guarantee .worker y z ∧ WorkerOk z pc' := by
  have hquiet : ∀ {z}, Quiet y z → z.gate = y.gate → z.sent = y.sent → Guarantee .worker y z :=
    fun hq hgate hsent => hq.guarantee hy (fun _ h _ => hgate.trans h) fun _ => hsent
  cases pc with
  | poll | dispatch delivery =>
    cases hstep
    refine ⟨guarantee_refl hy, ?_⟩
    split <;> trivial
  | select =>
    simp only [workerStep] at hstep
    split at hstep
    · split at hstep
      · cases hstep
        exact ⟨guarantee_refl hy, trivial⟩
      · cases hstep
    · cases hstep
      exact ⟨hquiet ⟨rfl, rfl, rfl, rfl, rfl, rfl, rfl, rfl, rfl⟩ rfl rfl, trivial⟩
    · cases hstep
      exact ⟨hquiet ⟨rfl, rfl, rfl, rfl, rfl, rfl, rfl, rfl, rfl⟩ rfl rfl, trivial⟩
    · cases hstep
  | gateWait payload =>
    simp only [workerStep] at hstep
    split at hstep
    · split at hstep
      · cases hstep
        exact ⟨guarantee_refl hy, trivial⟩
      · cases hstep
    · split at hstep
      · next hfree =>
        cases hstep
        exact ⟨guarantee_acquire hy hfree, rfl⟩
      · cases hstep
  | recheck payload =>
    simp only [workerStep] at hstep
    split at hstep
    · cases hstep
      exact ⟨guarantee_release hy hok, trivial⟩
    · next hrunning =>
      cases hstep
      -- the stop channel is open, so no `Close` has had the gate
      have hopen : y.service.closed = false := Bool.eq_false_iff.mpr fun hclosed =>
        hrunning (hy.stopped (hy.closed hclosed).2).2
      exact ⟨guarantee_owner hok (hy.not_done hopen) rfl ⟨hy.stopped, hy.closed, hy.closeDone⟩,
        hok, hopen, processXrayWebhookLocked_flags c payload⟩
  | processing ended p =>
    obtain ⟨hgate, hopen, hp⟩ := hok
    cases p with
    | call op k =>
      cases hstep
      have hdone := hy.not_done hopen
      obtain ⟨hflags, hrest⟩ := hp (y.session ended) choice ⟨hopen, hdone⟩
      exact ⟨guarantee_put hy hgate hdone (by rwa [hopen]), hgate, hflags.1, hrest⟩
    | ret delivery =>
      cases delivery with
      | none | some delivery =>
        cases hstep
        exact ⟨guarantee_release hy hgate, trivial⟩
  | slot delivery =>
    cases hstep
    refine ⟨?_, trivial⟩
    split
    · exact hquiet ⟨rfl, rfl, rfl, rfl, rfl, rfl, rfl, rfl, rfl⟩ rfl rfl
    · exact guarantee_refl hy
  | join =>
    simp only [workerStep] at hstep
    split at hstep
    · cases hstep
      exact ⟨guarantee_refl hy, trivial⟩
    · cases hstep
  | done => cases hstep

theorem admitStep_quiet {payload : WebhookPayload} {pc pc' : AdmitPC}
    (hstep : admitStep y payload ended pc branch = some (z, pc')) :
    Quiet y z ∧ z.gate = y.gate ∧ z.sent = y.sent := by
  cases pc with
  | select =>
    simp only [admitStep] at hstep
    split at hstep <;> split at hstep <;> cases hstep <;>
      exact ⟨⟨rfl, rfl, rfl, rfl, rfl, rfl, rfl, rfl, rfl⟩, rfl, rfl⟩
  | rlock | check | recheck | runlock _ =>
    cases hstep
    exact ⟨⟨rfl, rfl, rfl, rfl, rfl, rfl, rfl, rfl, rfl⟩, rfl, rfl⟩
  | returned _ => cases hstep

theorem notifyStep_quiet {pc pc' : NotifyPC} (hstep : notifyStep y pc branch = some (z, pc')) :
    Quiet y z ∧ z.gate = y.gate ∧ z.sent = y.sent := by
  have hrefl : Quiet y y ∧ y.gate = y.gate ∧ y.sent = y.sent :=
    ⟨⟨rfl, rfl, rfl, rfl, rfl, rfl, rfl, rfl, rfl⟩, rfl, rfl⟩
  cases pc with
  | snapshot =>
    simp only [notifyStep] at hstep
    split at hstep
    · cases hstep
      exact hrefl
    · split at hstep <;> cases hstep <;> exact hrefl
  | select _ =>
    cases hstep
    split
    · exact ⟨⟨rfl, rfl, rfl, rfl, rfl, rfl, rfl, rfl, rfl⟩, rfl, rfl⟩
    · exact hrefl
  | rlock _ | check _ | runlock =>
    cases hstep
    exact ⟨⟨rfl, rfl, rfl, rfl, rfl, rfl, rfl, rfl, rfl⟩, rfl, rfl⟩
  | returned => cases hstep

theorem senderStep_guarantee {i : ℕ} (hy : Shared y) (hstep : senderStep y i = some z) :
    Guarantee o y z := by
  simp only [senderStep] at hstep
  split at hstep
  · cases hstep
  · cases hstep
    exact Quiet.guarantee ⟨rfl, rfl, rfl, rfl, rfl, rfl, rfl, rfl, rfl⟩ hy (fun _ h _ => h) fun _ => rfl
  · split at hstep
    · cases hstep
      exact Quiet.guarantee ⟨rfl, rfl, rfl, rfl, rfl, rfl, rfl, rfl, rfl⟩ hy (fun _ h _ => h)
        fun _ => rfl
    · next hlive =>
      cases hstep
      exact Quiet.guarantee ⟨rfl, rfl, rfl, rfl, rfl, rfl, rfl, rfl, rfl⟩ hy (fun _ h _ => h)
        fun hcanceled => absurd hcanceled hlive

/-! ### Steps of the system -/

variable {c : Codec} {e : Event}

/- What can happen in goroutine `t`. -/
inductive Turn (c : Codec) (y : System) (t : Tid) : System → Thread → Prop
  | step {z : System} {th : Thread} (choice : Choice) (branch : ℕ)
      (h : threadStep y t choice branch = some (z, th)) : Turn c y t z th
  | ended : Turn c y t y (endContext (y.threads t))
  | called (call : Call) (h : y.threads t = .idle) : Turn c y t y (call.thread c)

theorem step_cases (hstep : step c y e = some z) :
    (∃ t y' th, Turn c y t y' th ∧ z = y'.setThread t th) ∨
    (∃ y' pc choice branch, workerStep c y y.worker choice branch = some (y', pc) ∧
      z = { y' with worker := pc }) ∨
    ∃ i, senderStep y i = some z := by
  cases e with
  | call t call =>
    simp only [step] at hstep
    split at hstep
    · next hidle =>
      cases hstep
      exact .inl ⟨t, y, _, .called call hidle, rfl⟩
    · cases hstep
  | endContext t =>
    cases hstep
    exact .inl ⟨t, y, _, .ended, rfl⟩
  | thread t choice branch =>
    obtain ⟨⟨y', th⟩, h, rfl⟩ := Option.map_eq_some_iff.mp hstep
    exact .inl ⟨t, y', th, .step choice branch h, rfl⟩
  | worker choice branch =>
    obtain ⟨⟨y', pc⟩, h, rfl⟩ := Option.map_eq_some_iff.mp hstep
    exact .inr (.inl ⟨y', pc, choice, branch, h, rfl⟩)
  | sender i => exact .inr (.inr ⟨i, hstep⟩)

theorem threadStep_guarantee (hy : Shared y) (hok : ThreadOk y t (y.threads t))
    (hstep : threadStep y t choice branch = some (z, th)) :
    Guarantee (.thread t) y z ∧ ThreadOk z t th := by
  unfold threadStep at hstep
  split at hstep
  · next held ended p hth =>
    rw [hth] at hok
    cases held with
    | false => exact mutationStep_waiting hy hok hstep
    | true => exact mutationStep_holding hy hok.1 hok.2 hstep
  · next hth =>
    rw [hth] at hok
    obtain ⟨⟨y', pc'⟩, h, heq⟩ := Option.map_eq_some_iff.mp hstep
    cases heq
    exact closeStep_guarantee hy hok h
  · obtain ⟨⟨y', pc'⟩, h, heq⟩ := Option.map_eq_some_iff.mp hstep
    cases heq
    obtain ⟨hq, hgate, hsent⟩ := admitStep_quiet h
    exact ⟨hq.guarantee hy (fun _ h _ => hgate.trans h) fun _ => hsent, trivial⟩
  · obtain ⟨⟨y', pc'⟩, h, heq⟩ := Option.map_eq_some_iff.mp hstep
    cases heq
    obtain ⟨hq, hgate, hsent⟩ := notifyStep_quiet h
    exact ⟨hq.guarantee hy (fun _ h _ => hgate.trans h) fun _ => hsent, trivial⟩
  · cases hstep
  · cases hstep

theorem Turn.guarantee (hturn : Turn c y t z th) (hy : Shared y)
    (hok : ThreadOk y t (y.threads t)) : Guarantee (.thread t) y z ∧ ThreadOk z t th := by
  cases hturn with
  | step choice branch h => exact threadStep_guarantee hy hok h
  | ended =>
    refine ⟨guarantee_refl hy, ?_⟩
    cases hth : y.threads t with
    | mutation held ended p =>
      rw [hth] at hok
      cases held <;> exact hok
    | close ended pc =>
      rw [hth] at hok
      exact hok
    | idle | answered _ | xrayWebhook _ _ _ | notify _ => trivial
  | called call h =>
    refine ⟨guarantee_refl hy, ?_⟩
    cases call with
    | mutation m => exact .inl (program_enters c m)
    | close | xrayWebhook _ | notify => trivial

theorem step_inv (hinv : Inv y) (hstep : step c y e = some z) : Inv z := by
  rcases step_cases hstep with ⟨t, y', th, hturn, rfl⟩ | ⟨y', pc, choice, branch, h, rfl⟩ | ⟨i, h⟩
  · obtain ⟨hg, hok⟩ := hturn.guarantee hinv.shared (hinv.threads t)
    refine ⟨⟨hg.shared.stopped, hg.shared.closed, hg.shared.closeDone⟩, fun u => ?_, ?_⟩
    · change ThreadOk y' u (Function.update y'.threads t th u)
      by_cases hu : u = t
      · subst hu
        rwa [Function.update_self]
      · rw [Function.update_of_ne hu, hg.threads]
        exact (hinv.threads u).other hg fun h => hu (Owner.thread.inj h)
    · change WorkerOk y' y'.worker
      rw [hg.worker]
      exact hinv.worker.other hg nofun
  · obtain ⟨hg, hok⟩ := workerStep_guarantee hinv.shared hinv.worker h
    refine ⟨⟨hg.shared.stopped, hg.shared.closed, hg.shared.closeDone⟩, fun u => ?_, hok⟩
    change ThreadOk y' u (y'.threads u)
    rw [hg.threads]
    exact (hinv.threads u).other hg nofun
  · have hg : ∀ o, Guarantee o y z := fun o => senderStep_guarantee hinv.shared h
    refine ⟨(hg .worker).shared, fun u => ?_, ?_⟩
    · rw [(hg .worker).threads]
      exact (hinv.threads u).other (hg .worker) nofun
    · rw [(hg .worker).worker]
      exact hinv.worker.other (hg (.thread 0)) nofun

end

end RemnanodeLite.Plugin.Concurrent
