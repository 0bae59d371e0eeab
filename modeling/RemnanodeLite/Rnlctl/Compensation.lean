import RemnanodeLite.Rnlctl.Records

/-! # A failed change leaves no trace

`Activate`, `UpdateConfiguration` and `SetSecret` change files before they can be sure of
success; every failure that they notice puts the old contents back. -/

namespace RemnanodeLite.Rnlctl.Lifecycle
open Filepath Program

/- The contents of `state.json`, `node.env` and the secret file. -/
structure Unchanged (m t : Machine) : Prop where
  state : t.state = m.state
  environment : t.environment = m.environment
  secret : t.secret = m.secret

theorem Unchanged.refl (m : Machine) : Unchanged m m := ⟨rfl, rfl, rfl⟩

/- What is asked of an end with an error: unless a recovery has failed or a journal is left,
nothing has changed. -/
def Traceless (m : Machine) (recovery : Option (Except Failure Unit)) (t : Machine) : Prop :=
  (∀ e, recovery ≠ some (.error e)) → t.journal = none → Unchanged m t

/- None of these steps reports a failure after it has taken effect. -/
def Honest (effects : Effect → Bool) (c : Call Op Machine Choice) : Prop :=
  ∀ e, c.op = .step e → effects e = true → c.choice.fails = true → c.choice.tookEffect = false

theorem errorsJoin_ok {results : List (Except Failure Unit)} {u : Unit}
    (h : errorsJoin results = .ok u) : ∀ r ∈ results, r = .ok () := by
  induction results with
  | nil =>
    intro r hr
    cases hr
  | cons first rest ih =>
    cases first with
    | error e =>
      simp only [errorsJoin] at h
      split at h
      · cases h
      · cases h
    | ok v =>
      intro r hr
      rcases List.mem_cons.mp hr with rfl | hr
      · rfl
      · exact ih h r hr

theorem unchanged_beside {α : Type} {m : Machine} {p : Ctl α} {F : List Part} (hp : Touches F p)
    (hF : .state ∉ F ∧ .configuration ∉ F) : Keeps (Unchanged m) p := by
  refine hp.keeps fun a t ht ha => ?_
  obtain ⟨henvironment, hsecret⟩ := ht .configuration hF.2
  have hstate : t.state = a.state := ht .state hF.1
  exact ⟨hstate.trans ha.state, henvironment.trans ha.environment, hsecret.trans ha.secret⟩

theorem Unchanged.traceless {m t : Machine} (h : Unchanged m t) (r : Option (Except Failure Unit)) :
    Traceless m r t := fun _ _ => h

/-! ### Activate -/

def activateEffects : Effect → Bool
  | .saveState _ | .clearJournal => true
  | _ => false

/- While the activation is under way the state and the environment stay. -/
structure Activating (m t : Machine) : Prop where
  state : t.state = m.state
  environment : t.environment = m.environment
  journal : t.journal ≠ none

section
variable {m : Machine}

theorem activating_beside {α : Type} {p : Ctl α} {F : List Part} (hp : Touches F p)
    (hF : .state ∉ F ∧ .configuration ∉ F ∧ .journal ∉ F) : Keeps (Activating m) p := by
  refine hp.keeps fun a t ht ha => ?_
  have hstate : t.state = a.state := ht .state hF.1
  have hjournal : t.journal = a.journal := ht .journal hF.2.2
  exact ⟨hstate.trans ha.state, (ht .configuration hF.2.1).1.trans ha.environment,
    hjournal ▸ ha.journal⟩

theorem activating_setSecret (data : Option Text) : Keeps (Activating m) (step (.setSecret data)) :=
  .step fun _ ha => ⟨⟨ha.state, ha.environment, ha.journal⟩, ha.state, ha.environment, ha.journal⟩

/- The last step commits: before it the old state is on disk. -/
theorem ensures_activateTransition {engine : Engine} {request : ActivateRequest}
    {state : PersistentState} {journal : TransactionJournal} {secretData : Text} {t : Machine}
    (ht : Activating m t) :
    Ensures (Honest activateEffects) (fun _ _ => True)
      (activateTransition engine request state journal secretData) (fun _ u => u.journal ≠ none)
      (fun _ u => Activating m u) t := by
  have hG : ∀ a b : Machine, Activating m b → True := fun _ _ _ => trivial
  have herr : ∀ (_ : Option (Except Failure Unit)) u, Activating m u → Activating m u := fun _ _ h => h
  refine Keeps.continuing (.whenever fun _ => activating_setSecret _) ht hG herr fun _ t ht => ?_
  have hvalidate := touches_validateManagedConfiguration (F := []) engine true
  refine (activating_beside hvalidate (by decide)).continuing ht hG herr fun _ t ht => ?_
  refine (activating_beside (touches_ensureDirectories _) (by decide)).continuing ht hG herr
    fun _ t ht => ?_
  refine (activating_beside (touches_prepareService _) (by decide)).continuing ht hG herr
    fun account t ht => ?_
  refine (activating_beside (touches_applyServiceState _) (by decide)).continuing ht hG herr
    fun _ t ht => ?_
  have hrestart : Touches [.service] (step .restart) := .step (List.Subset.refl _)
  refine (activating_beside hrestart.whenever (by decide)).continuing ht hG herr fun _ t ht => ?_
  refine (activating_beside (touches_verifyTransitionOutcome (F := []) _ _) (by decide)).continuing ht
    hG herr fun _ t ht => ?_
  refine (Keeps.check _).continuing ht hG herr fun _ t ht => ?_
  exact .stepHonest (fun c hc => hc _ rfl rfl) trivial trivial ht.journal ht

theorem ensures_restoreAfterActivate {rely : Call Op Machine Choice → Prop}
    {before : DesiredServiceState} {restartRequired : Bool} {t : Machine} (ht : Activating m t) :
    Ensures rely (fun _ _ => True) (restoreAfterActivate m.secret before restartRequired)
      (fun _ u => Unchanged m u) (fun _ _ => True) t := by
  have hsecret : Ensures rely (fun _ _ => True) (attempt (step (.setSecret m.secret)))
      (fun r u => (u.state = m.state ∧ u.environment = m.environment) ∧ (r = .ok () → u.secret = m.secret))
      (fun _ _ => True) t := by
    have hfiles : t.state = m.state ∧ t.environment = m.environment := ⟨ht.state, ht.environment⟩
    refine .attempt (.step trivial trivial trivial ⟨hfiles, fun _ => rfl⟩ ?_ ?_)
    · exact fun e => ⟨hfiles, fun h => by cases h⟩
    · exact fun e => ⟨hfiles, fun h => by cases h⟩
  refine hsecret.bind fun restored u hu => ?_
  have hservice : Touches [.service] (attempt (reassertServiceState before)) :=
    (touches_reassertServiceState before).attempt
  refine (hservice.keeps fun _ _ hstep hm => Beyond.trans hm hstep).continuing (Beyond.refl _ u)
    (fun _ _ _ => trivial) (fun _ _ _ => trivial) fun service v hv => ?_
  obtain ⟨hvenvironment, hvsecret⟩ := hv .configuration (by decide)
  have hvstate : v.state = u.state := hv .state (by decide)
  refine Reads.ensuring (P := fun _ => restored = .ok ()) ?_ trivial trivial fun _ hok => ?_
  · exact .check fun _ hjoined => errorsJoin_ok hjoined _ List.mem_cons_self
  have hunchanged : Unchanged m v := ⟨hvstate.trans hu.1.1, hvenvironment.trans hu.1.2,
    hvsecret.trans (hu.2 hok)⟩
  have hkept : Keeps (Unchanged m) (whenever restartRequired do
      step .restart
      ask .waitHealthy) := by
    refine .whenever fun _ => Keeps.bind (.step fun a ha => ?_) fun _ => .ask _
    exact ⟨⟨ha.state, ha.environment, ha.secret⟩, ha.state, ha.environment, ha.secret⟩
  refine hkept.continuing hunchanged (fun _ _ _ => trivial) (fun _ _ _ => trivial) fun _ x hx => ?_
  exact .step trivial trivial trivial ⟨hx.state, hx.environment, hx.secret⟩ trivial trivial

theorem ensures_activate (engine : Engine) (request : ActivateRequest) (m : Machine) :
    Ensures (Honest activateEffects) (fun _ _ => True) (activate engine request) (fun _ _ => True)
      (Traceless m) m := by
  have hG : ∀ a b : Machine, Unchanged m b → True := fun _ _ _ => trivial
  have herr : ∀ r t, Unchanged m t → Traceless m r t := fun r _ h => h.traceless r
  have hsecret := touches_effectiveActivationSecret (F := []) engine request
  refine (unchanged_beside hsecret (by decide)).continuing (.refl m) hG herr fun secretData t ht => ?_
  refine (Keeps.ask _).continuing ht hG herr fun _ t ht => ?_
  refine (Keeps.failIf _ _).continuing ht hG herr fun _ t ht => ?_
  refine (unchanged_beside touches_acquireOperationLock (by decide)).continuing ht hG herr fun _ t ht => ?_
  refine (unchanged_beside (touches_requireCleanState (F := [])) (by decide)).continuing ht hG herr
    fun state t ht => ?_
  refine (unchanged_beside (touches_record (F := []) state _) (by decide)).continuing ht hG herr
    fun current t ht => ?_
  refine (unchanged_beside (touches_verifyGeneration (F := []) engine current) (by decide)).continuing ht
    hG herr fun _ t ht => ?_
  refine .looking trivial (herr none t ht) ?_
  refine .looking trivial (herr none t ht) ?_
  dsimp only
  split
  · exact .pure trivial
  have hplan : ∀ j, Ensures (Honest activateEffects) (fun _ _ => True) (saveJournal j)
      (fun _ u => Activating m u) (Traceless m) t := by
    intro j
    refine (Keeps.check _).continuing ht hG herr fun _ t ht => ?_
    refine .step trivial trivial trivial ⟨ht.state, ht.environment, Option.some_ne_none j⟩
      (herr none t ht) fun _ h => ?_
    exact absurd h (Option.some_ne_none j)
  refine (hplan _).bind fun _ u hu => ?_
  have hrestore : ∀ before restart, ∀ (_ : Option (Except Failure Unit)) v, Activating m v →
      Ensures (Honest activateEffects) (fun _ _ => True) (restoreAfterActivate t.secret before restart)
        (fun _ x => Traceless m (some (.ok ())) x) (fun _ x => ∀ e, Traceless m (some (.error e)) x) v := by
    intro before restart _ v hv
    rw [ht.secret]
    refine (ensures_restoreAfterActivate hv).mono (fun _ x hx _ _ => hx) fun _ x _ e h _ => ?_
    exact absurd rfl (h e)
  refine Ensures.bind (.recovering (ensures_activateTransition hu) (hrestore _ _)) fun _ v hv => ?_
  have hclear : Ensures (Honest activateEffects) (fun _ _ => True) clearJournal (fun _ _ => True)
      (Traceless m) v :=
    .stepHonest (fun c hc => hc _ rfl rfl) trivial trivial trivial fun _ h => absurd h hv
  exact hclear.wrapf.bind fun _ _ _ => .pure trivial

end

/-! ### A managed file -/

section
variable {rely : Call Op Machine Choice → Prop} {m : Machine} {Q : Machine → Prop}
  {write restore : Effect} {validate : Ctl Unit}

theorem ensures_restoreManagedFile (restart : Bool) {t : Machine} (ht : Q t)
    (hrestore : ∀ u, Q u → Unchanged m (restore.apply u)) :
    Ensures rely (fun _ _ => True) (restoreManagedFile restore restart)
      (fun _ u => Traceless m (some (.ok ())) u) (fun _ u => ∀ e, Traceless m (some (.error e)) u) t := by
  have hfailed : ∀ (_ : Option (Except Failure Unit)) u, ∀ e, Traceless m (some (.error e)) u :=
    fun _ _ e h _ => absurd rfl (h e)
  have hstep : Ensures rely (fun _ _ => True) (step restore) (fun _ u => Unchanged m u)
      (fun _ u => ∀ e, Traceless m (some (.error e)) u) t :=
    .step trivial trivial trivial (hrestore t ht) (hfailed none _) (hfailed none _)
  refine hstep.wrapf.bind fun _ u hu => ?_
  have hrest : Keeps (Unchanged m) (do
      wrapf "restore managed ownership: %w" [] (step .applyOwnership)
      whenever restart
        (wrapf "restore service with previous configuration: %w" [] restartManagedConfiguration)) := by
    refine Keeps.bind ?_ fun _ => ?_
    · exact unchanged_beside (F := []) (Touches.step (List.Subset.refl _)).wrapf (by decide)
    · exact unchanged_beside touches_restartManagedConfiguration.wrapf.whenever (by decide)
  exact ((hrest.ensures hu).weaken fun _ _ _ => trivial).mono (fun _ _ h => h.traceless _)
    fun _ _ _ => hfailed none _

theorem ensures_replaceManagedFile {changed apply canceled : Bool} {t : Machine} (ht : Unchanged m t)
    (hwritten : Q (write.apply t)) (hrestore : ∀ u, Q u → Unchanged m (restore.apply u))
    (hbeside : ∀ {α : Type} {p : Ctl α} {F : List Part}, Touches F p →
      .state ∉ F ∧ .configuration ∉ F → Keeps Q p)
    (hhonest : ∀ c, rely ⟨.step write, t, c⟩ → c.fails = true → c.tookEffect = false)
    (hvalidate : Touches [] validate) :
    Ensures rely (fun _ _ => True) (replaceManagedFile write restore changed apply canceled validate)
      (fun _ _ => True) (Traceless m) t := by
  have hask : Touches [] (whenever apply (ask .managedPermissions)) := .whenever (.ask _)
  unfold replaceManagedFile
  split
  · have hwrite : Ensures rely (fun _ _ => True) (step write) (fun _ u => Q u) (Traceless m) t :=
      .stepHonest hhonest trivial trivial hwritten (ht.traceless none)
    refine hwrite.bind fun _ u hu => ?_
    have hrecovered : ∀ {p : Ctl Unit} {F : List Part} (restart : Bool) (v : Machine), Q v →
        Touches F p → .state ∉ F ∧ .configuration ∉ F →
        Ensures rely (fun _ _ => True) (recovering (restoreManagedFile restore restart) p)
          (fun _ x => Q x) (Traceless m) v := by
      intro p F restart v hv hp hF
      refine .recovering (((hbeside hp hF).ensures hv).weaken fun _ _ _ => trivial) fun _ x hx => ?_
      exact ensures_restoreManagedFile restart hx hrestore
    have hownership : Touches [] (step .applyOwnership) := .step (List.Subset.refl _)
    refine (hrecovered false u hu hownership (by decide)).bind fun _ v hv => ?_
    refine (hrecovered false v hv (hvalidate.bind fun _ => hask) (by decide)).bind fun _ x hx => ?_
    refine .whenever (fun _ => ?_) fun _ => trivial
    exact (hrecovered true x hx touches_restartManagedConfiguration (by decide)).mono
      (fun _ _ _ => trivial) fun _ _ h => h
  · have happlied : Touches [.service] (do
        validate
        ask .managedPermissions
        restartRecovered canceled) :=
      (hvalidate.mono (List.nil_subset _)).bind fun _ => (Touches.ask _).bind fun _ =>
        touches_restartRecovered canceled
    have hkept : Keeps (Unchanged m) _ := unchanged_beside happlied (by decide)
    refine .whenever (fun _ => ?_) fun _ => trivial
    exact ((hkept.ensures ht).weaken fun _ _ _ => trivial).mono (fun _ _ _ => trivial)
      fun r _ h => h.traceless r

end

def environmentEffects : Effect → Bool
  | .setEnvironment _ => true
  | _ => false

def secretEffects : Effect → Bool
  | .setSecret _ => true
  | _ => false

section
variable {rely : Call Op Machine Choice → Prop} {m t : Machine}

/- What both updates do before they look at the files. -/
theorem ensures_admitted {engine : Engine} {apply : Bool} {k : PersistentState → Ctl Result}
    (ht : Unchanged m t)
    (hk : ∀ state, validateState state = .ok () → ∀ u, Unchanged m u →
      Ensures rely (fun _ _ => True) (k state) (fun _ _ => True) (Traceless m) u) :
    Ensures rely (fun _ _ => True) (do
      requirePrivileges engine
      whenever apply (ask (.preflight true))
      acquireOperationLock
      let state ← requireCleanState
      whenever apply (requireActiveConfigurationTarget state)
      k state) (fun _ _ => True) (Traceless m) t := by
  have hG : ∀ a b : Machine, Unchanged m b → True := fun _ _ _ => trivial
  have herr : ∀ r t, Unchanged m t → Traceless m r t := fun r _ h => h.traceless r
  refine (Keeps.failIf _ _).continuing ht hG herr fun _ t ht => ?_
  refine Keeps.continuing (.whenever fun _ => .ask _) ht hG herr fun _ t ht => ?_
  refine (unchanged_beside touches_acquireOperationLock (by decide)).continuing ht hG herr fun _ t ht => ?_
  refine reads_requireCleanState.ensuring trivial (herr none t ht) fun state hstate => ?_
  have htarget := touches_requireActiveConfigurationTarget (F := []) state
  exact (unchanged_beside htarget.whenever (by decide)).continuing ht hG herr fun _ t ht =>
    hk state hstate.2.2 t ht

theorem ensures_recorded {state : PersistentState} {p : Ctl Unit} {f : GenerationRecord → Result}
    (hstate : validateState state = .ok ())
    (hp : Ensures rely (fun _ _ => True) p (fun _ _ => True) (Traceless m) t) :
    Ensures rely (fun _ _ => True) (do
      p
      let current ← state.record state.current
      return f current) (fun _ _ => True) (Traceless m) t := by
  obtain ⟨current, hcurrent⟩ := (validState hstate).record
  refine hp.bind fun _ u _ => ?_
  rw [hcurrent]
  exact .pure trivial

end

theorem ensures_updateConfiguration (engine : Engine) (request : ConfigurationUpdateRequest)
    (m : Machine) :
    Ensures (Honest environmentEffects) (fun _ _ => True) (updateConfiguration engine request)
      (fun _ _ => True) (Traceless m) m := by
  have herr : ∀ r t, Unchanged m t → Traceless m r t := fun r _ h => h.traceless r
  refine .checking (herr none m (.refl m)) fun _ _ => ?_
  refine ensures_admitted (.refl m) fun state hstate t ht => ?_
  refine .looking trivial (herr none t ht) (.checking (herr none t ht) fun candidate _ => ?_)
  refine .checking (herr none t ht) fun _ _ => ensures_recorded hstate ?_
  refine ensures_replaceManagedFile (Q := fun u => u.state = m.state ∧ u.secret = m.secret) ht
    ⟨ht.state, ht.secret⟩ (fun u hu => ⟨hu.1, ht.environment, hu.2⟩) ?_
    (fun c hc => hc _ rfl rfl) (.pure ())
  intro α p F hp hF
  refine hp.keeps fun a b hb ha => ?_
  have hkept : b.state = a.state := hb .state hF.1
  exact ⟨hkept.trans ha.1, (hb .configuration hF.2).2.trans ha.2⟩

theorem ensures_setSecret (engine : Engine) (request : SecretUpdateRequest) (m : Machine) :
    Ensures (Honest secretEffects) (fun _ _ => True) (setSecret engine request) (fun _ _ => True)
      (Traceless m) m := by
  have herr : ∀ r t, Unchanged m t → Traceless m r t := fun r _ h => h.traceless r
  obtain ⟨file, apply, canceled⟩ := request
  cases file with
  | none => exact .fail (herr none m (.refl m))
  | some source =>
    refine ensures_admitted (.refl m) fun state hstate t ht => ?_
    refine .checking (herr none t ht) fun data _ => .looking trivial (herr none t ht) ?_
    refine ensures_recorded hstate (ensures_replaceManagedFile (Q := fun u => u.state = m.state ∧
        u.environment = m.environment) ht ⟨ht.state, ht.environment⟩
      (fun u hu => ⟨hu.1, hu.2, ht.secret⟩) ?_ (fun c hc => hc _ rfl rfl)
      (touches_validateManagedConfiguration engine _))
    intro α p F hp hF
    refine hp.keeps fun a b hb ha => ?_
    have hkept : b.state = a.state := hb .state hF.1
    exact ⟨hkept.trans ha.1, (hb .configuration hF.2).1.trans ha.2⟩

/-! ### The three operations -/

inductive Change where
  | activate (request : ActivateRequest)
  | updateConfiguration (request : ConfigurationUpdateRequest)
  | setSecret (request : SecretUpdateRequest)

def Change.operation (engine : Engine) : Change → Ctl Result
  | .activate request => Lifecycle.activate engine request
  | .updateConfiguration request => Lifecycle.updateConfiguration engine request
  | .setSecret request => Lifecycle.setSecret engine request

/- The steps whose failure an operation takes for a step not taken. -/
def Change.effects : Change → Effect → Bool
  | .activate _ => activateEffects
  | .updateConfiguration _ => environmentEffects
  | .setSecret _ => secretEffects

/-- A run that ends with an error, with no failed recovery and no journal left, has changed none of
the three files, if none of the steps that are not compensated fails after it has taken effect. -/
theorem failed_change_traceless (engine : Engine) (change : Change) (m t : Machine) (w : ℕ → Choice)
    (stop : Stop) (hw : ∀ c ∈ calls handle (change.operation engine).run w m, Honest change.effects c)
    (hrun : (change.operation engine).run.run handle w m = (.error stop, t))
    (hrecovery : ∀ e, stop.recovery ≠ some (.error e)) (hjournal : t.journal = none) :
    Unchanged m t := by
  have hensures : Ensures (Honest change.effects) (fun _ _ => True) (change.operation engine)
      (fun _ _ => True) (Traceless m) m := by
    cases change with
    | activate request => exact ensures_activate engine request m
    | updateConfiguration request => exact ensures_updateConfiguration engine request m
    | setSecret request => exact ensures_setSecret engine request m
  exact hensures.run_error_of hw hrun hrecovery hjournal

/- The `n`th call fails after it has taken effect. -/
def failingLate (n : ℕ) : ℕ → Choice := fun k => ⟨k = n, true, sampleIdentity⟩

def preparedMachine : Machine :=
  { sampleMachine with
    state := some { sampleState with prepared := true, desired := ⟨false, false⟩ }
    service := ⟨false, false⟩ }

/- The operation fails, no recovery fails and no journal is left. -/
def failsClean (change : Change) (w : ℕ → Choice) (m : Machine) : Bool :=
  match (change.operation sampleEngine).run.run handle w m with
  | (.error stop, t) => stop.recovery.all Except.toBool && t.journal.isNone
  | (.ok _, _) => false

theorem exists_of_failsClean {change : Change} {w : ℕ → Choice} {m : Machine}
    (h : failsClean change w m = true) :
    ∃ stop, (change.operation sampleEngine).run.run handle w m =
        (.error stop, ((change.operation sampleEngine).run.run handle w m).2) ∧
      (∀ e, stop.recovery ≠ some (.error e)) ∧
      ((change.operation sampleEngine).run.run handle w m).2.journal = none := by
  unfold failsClean at h
  split at h
  next stop t hrun =>
    obtain ⟨hrecovery, hjournal⟩ := Bool.and_eq_true_iff.mp h
    refine ⟨stop, by rw [hrun], fun e he => ?_, ?_⟩
    · rw [he] at hrecovery
      cases hrecovery
    · rw [hrun]
      exact Option.isNone_iff_eq_none.mp hjournal
  · cases h

theorem failed_change_traceless_activate :
    Unchanged preparedMachine (((Change.activate ⟨some (.ok ['x'])⟩).operation sampleEngine).run.run
      handle (fun k => ⟨k = 24, false, sampleIdentity⟩) preparedMachine).2 := by
  have hfails : failsClean (.activate ⟨some (.ok ['x'])⟩) (fun k => ⟨k = 24, false, sampleIdentity⟩)
      preparedMachine = true := by decide +kernel
  obtain ⟨stop, hrun, hrecovery, hjournal⟩ := exists_of_failsClean hfails
  refine failed_change_traceless sampleEngine _ _ _ _ stop (fun c hc e _ _ _ => ?_) hrun hrecovery hjournal
  obtain ⟨n, hn⟩ := choice_of_calls hc
  rw [hn]

/-- An activation is committed before its journal is removed: if the removal reports a failure after
it has taken effect, the error says that the activation is committed, and the new state stays. -/
theorem committed_activation_reported :
    ¬ ∀ (change : Change) (m t : Machine) (w : ℕ → Choice) (stop : Stop),
      (change.operation sampleEngine).run.run handle w m = (.error stop, t) →
      (∀ e, stop.recovery ≠ some (.error e)) → t.journal = none → Unchanged m t := by
  intro h
  have hfails : failsClean (.activate ⟨none⟩) (failingLate 25) preparedMachine = true := by
    decide +kernel
  obtain ⟨stop, hrun, hrecovery, hjournal⟩ := exists_of_failsClean hfails
  have hsame := (h _ _ _ _ _ hrun hrecovery hjournal).state
  have hchanged : (((Change.activate ⟨none⟩).operation sampleEngine).run.run handle (failingLate 25)
      preparedMachine).2.state ≠ preparedMachine.state := by decide +kernel
  exact hchanged hsame

end RemnanodeLite.Rnlctl.Lifecycle
