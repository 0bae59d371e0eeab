import RemnanodeLite.Rnlctl.Footprint

/-! # An interrupted uninstall is resumed

`finishUninstall` removes its own inputs, but what it leaves in the end depends on nothing
it removes: every step leads to a machine with the same end. -/

namespace RemnanodeLite.Rnlctl.Lifecycle
open Filepath Program

/-! ### What is left in the end -/

def remainingDirectories (config installer : Bool) : Directory → Bool
  | .configDirectory => config
  | .installerState => installer
  | .libraryRoot | .generations | .applicationState | .logDirectory | .runtimeDirectory
  | .bundleCache => false

def uninstalled (account : ManagedAccount) (purge : Bool) (m : Machine) : Machine where
  state := none
  journal := none
  retained := if purge then none else some account
  generations := fun _ => none
  caches := ∅
  links := fun _ => none
  control := none
  environment := if purge then none else m.environment
  secret := if purge then none else m.secret
  directories := remainingDirectories (!purge && m.directories .configDirectory)
    (!purge && m.directories .installerState)
  service := ⟨false, false⟩
  registered := false
  user := if purge && account.userCreated then none else m.user
  group := !(purge && account.groupCreated) && m.group

/-! ### The uninterrupted end -/

section
variable {E : Prop} {account : ManagedAccount}

theorem yields_applyServiceState (desired : DesiredServiceState) (m : Machine) :
    Yields E (applyServiceState desired) (fun _ t => t = { m with service := desired }) m := by
  refine .looking ?_
  refine (yields_whenever_step _ _ _).bind fun _ t ht => ?_
  refine (yields_whenever_step _ _ _).bind fun _ u hu => ?_
  refine (yields_whenever_step _ _ _).mono fun _ v hv => ?_
  subst ht hu hv
  obtain ⟨_, _, _, _, _, _, _, _, _, _, ⟨enabled, active⟩, _, _, _⟩ := m
  obtain ⟨enabled', active'⟩ := desired
  cases enabled <;> cases active <;> cases enabled' <;> cases active' <;> rfl

theorem yields_removeTrees (directories : List Directory) (m : Machine) :
    Yields E (removeTrees directories) (fun _ t => t = directories.foldl removeTree m) m := by
  induction directories generalizing m with
  | nil => exact .pure rfl
  | cons directory rest ih => exact .stepping (ih _)

theorem yields_saveRetained (h : account.complete = false → E) (m : Machine) :
    Yields E (saveRetained account) (fun _ t => t = { m with retained := some account }) m := by
  refine (Yields.failIf (by simpa using h)).bind fun _ t ht => ?_
  rw [ht]
  exact .step rfl

/- The managed trees without the installer's own, and with `purge` the configuration. -/
def runtimeRemoved (purge : Bool) (m : Machine) : Machine :=
  let cleared := [Directory.libraryRoot, .applicationState, .logDirectory, .runtimeDirectory].foldl
    removeTree { m with links := fun _ => none }
  if purge then removeTree cleared .configDirectory else cleared

theorem links_removed (links : Link → Option Target) :
    Function.update (Function.update (Function.update links .node none) .current none) .previous none =
      fun _ => none := by
  funext link
  cases link <;> rfl

theorem yields_removeRuntimeFiles (purge : Bool) (m : Machine) :
    Yields E (removeRuntimeFiles purge) (fun _ t => t = runtimeRemoved purge m) m := by
  refine .stepping (.stepping (.stepping ?_))
  refine (yields_removeTrees _ _).bind fun _ t ht => ?_
  refine (yields_whenever_step _ _ _).mono fun _ u hu => ?_
  subst hu ht
  simp only [Effect.apply, links_removed]
  rfl

theorem yields_removeService (m : Machine) :
    Yields E (whenever true do
        applyServiceState ⟨false, false⟩
        step .removeService)
      (fun _ t => t = { m with service := ⟨false, false⟩, registered := false }) m := by
  refine (yields_applyServiceState _ m).bind fun _ t ht => ?_
  subst ht
  exact .step rfl

theorem yields_retain (h : account.complete = false → E) (purge : Bool) (m : Machine) :
    Yields E (whenever (!purge) (saveRetained account))
      (fun _ t => t = { m with retained := if purge then m.retained else some account }) m := by
  cases purge with
  | false => exact yields_saveRetained h m
  | true => exact .pure rfl

theorem yields_removeAccount (account : ManagedAccount) (purge : Bool) (m : Machine) :
    Yields E (whenever (purge && (account.userCreated || account.groupCreated))
        (step (.removeAccount account)))
      (fun _ t => t = { m with
        user := if purge && account.userCreated then none else m.user
        group := !(purge && account.groupCreated) && m.group }) m := by
  refine (yields_whenever_step _ _ m).mono fun _ t ht => ht.trans ?_
  obtain ⟨userCreated, groupCreated, _, _, _, _⟩ := account
  cases purge <;> cases userCreated <;> cases groupCreated <;> rfl

theorem yields_finishUninstall (h : account.complete = false → E) (purge : Bool) (m : Machine) :
    Yields E (finishUninstall account purge true) (fun _ t => t = uninstalled account purge m) m := by
  refine (yields_removeService m).bind fun _ t ht => ?_
  refine (yields_retain h purge t).bind fun _ u hu => ?_
  refine (yields_removeRuntimeFiles purge u).bind fun _ v hv => ?_
  refine (yields_removeAccount account purge v).bind fun _ x hx => ?_
  refine .stepping (.stepping ?_)
  refine (yields_whenever_step _ _ _).bind fun _ y hy => ?_
  refine .stepping ?_
  subst ht hu hv hx hy
  cases purge with
  | false | true =>
    refine .step (Machine.ext rfl rfl rfl rfl rfl ?_ rfl rfl rfl ?_ rfl rfl rfl rfl)
    · funext link
      cases link <;> rfl
    · funext directory
      cases directory <;> rfl

end

/-! ### Every step has the same end -/

/- The uninstall of the journal can go on from here and comes to the same end. -/
structure Resumable (j : TransactionJournal) (final m : Machine) : Prop where
  same : uninstalled j.account j.purge m = final
  pending : m.journal = some j ∨ m.journal = none
  installer : j.purge = false ∨ m.journal = some j → m.directories .installerState = true
  valid : ∀ s, m.state = some s → validateState s = .ok ()

section
variable {j : TransactionJournal} {final : Machine}

theorem Resumable.beyond {m t : Machine} (ht : Beyond [.retained, .generations, .caches, .links,
      .control, .service, .registration] m t) (hm : Resumable j final m) : Resumable j final t := by
  have hstate : t.state = m.state := ht .state (by decide)
  have hjournal : t.journal = m.journal := ht .journal (by decide)
  have hdirectories : t.directories = m.directories := ht .directories (by decide)
  obtain ⟨henvironment, hsecret⟩ := ht .configuration (by decide)
  obtain ⟨huser, hgroup⟩ := ht .account (by decide)
  refine ⟨?_, hjournal ▸ hm.pending, ?_, hstate ▸ hm.valid⟩
  · rw [← hm.same]
    simp only [uninstalled, henvironment, hsecret, hdirectories, huser, hgroup]
  · rw [hjournal, hdirectories]
    exact hm.installer

theorem resumable_beside {α : Type} {p : Ctl α} {F : List Part} (hp : Touches F p)
    (hF : F ⊆ [.retained, .generations, .caches, .links, .control, .service, .registration]) :
    Keeps (Resumable j final) p :=
  (hp.mono hF).keeps fun _ _ => Resumable.beyond

theorem resumable_step {e : Effect} (hhalf : ∀ m, e.halfway m = e.apply m)
    (hsame : ∀ m, uninstalled j.account j.purge (e.apply m) = uninstalled j.account j.purge m)
    (hjournal : ∀ m, (e.apply m).journal = m.journal)
    (hinstaller : ∀ m, (e.apply m).directories .installerState = m.directories .installerState)
    (hstate : ∀ m s, (e.apply m).state = some s → m.state = some s) :
    Keeps (Resumable j final) (step e) := by
  refine .step fun m hm => ?_
  rw [hhalf m, and_self]
  refine ⟨(hsame m).trans hm.same, ?_, ?_, fun s hs => hm.valid s (hstate m s hs)⟩
  · rw [hjournal m]
    exact hm.pending
  · rw [hjournal m, hinstaller m]
    exact hm.installer

theorem resumable_removeTrees (directories : List Directory)
    (h : ∀ d ∈ directories, d ≠ .configDirectory ∧ d ≠ .installerState) :
    Keeps (Resumable j final) (removeTrees directories) := by
  induction directories with
  | nil => exact .pure ()
  | cons d rest ih =>
    have hfirst := h d List.mem_cons_self
    refine Keeps.bind ?_ fun _ => ih fun d hd => h d (List.mem_cons_of_mem _ hd)
    cases d with
    | configDirectory => exact absurd rfl hfirst.1
    | installerState => exact absurd rfl hfirst.2
    | _ => exact resumable_step (fun _ => rfl) (fun _ => rfl) (fun _ => rfl) (fun _ => rfl) fun _ _ => id

theorem resumable_removeConfiguration (hpurge : j.purge = true) :
    Keeps (Resumable j final) (step (.removeAll .configDirectory)) := by
  refine resumable_step (fun _ => rfl) (fun m => ?_) (fun _ => rfl) (fun _ => rfl) fun _ _ => id
  simp only [uninstalled, hpurge]
  rfl

theorem resumable_removeAccount (hpurge : j.purge = true) :
    Keeps (Resumable j final) (step (.removeAccount j.account)) := by
  refine resumable_step (fun _ => rfl) (fun m => ?_) (fun _ => rfl) (fun _ => rfl) fun _ _ => id
  simp only [uninstalled, hpurge, Effect.apply, Bool.true_and]
  cases j.account.userCreated <;> cases j.account.groupCreated <;> rfl

theorem resumable_finishRemoval : Keeps (Resumable j final) (finishRemoval j.purge) := by
  cases hpurge : j.purge with
  | false =>
    refine .step fun m hm => ?_
    have hdone : Resumable j final (Effect.apply m .clearJournal) :=
      ⟨hm.same, .inr rfl, fun _ => hm.installer (.inl hpurge), hm.valid⟩
    exact ⟨hdone, hdone⟩
  | true =>
    refine .step fun m hm => ?_
    have hdone : Resumable j final (Effect.apply m (.removeAll .installerState)) := by
      refine ⟨?_, .inr rfl, fun h => ?_, fun _ hs => nomatch hs⟩
      · rw [← hm.same]
        simp only [uninstalled, hpurge]
        rfl
      · rcases h with h | h
        · exact absurd (hpurge.symm.trans h) (by decide)
        · cases h
    exact ⟨hdone, hdone⟩

theorem resumable_removeRuntimeFiles : Keeps (Resumable j final) (removeRuntimeFiles j.purge) := by
  have hlink : ∀ link, Keeps (Resumable j final) (step (.removeLink link)) := fun _ =>
    resumable_beside (.step (List.Subset.refl _)) (by simp [Effect.parts])
  refine (hlink _).bind fun _ => (hlink _).bind fun _ => (hlink _).bind fun _ => ?_
  exact (resumable_removeTrees _ (by decide)).bind fun _ => .whenever resumable_removeConfiguration

theorem resumable_finishUninstall :
    Keeps (Resumable j final) (finishUninstall j.account j.purge true) := by
  have hbeside : ∀ e : Effect, e.parts ⊆ [.retained, .generations, .caches, .links, .control,
      .service, .registration] → Keeps (Resumable j final) (step e) := fun _ he =>
    resumable_beside (.step (List.Subset.refl _)) he
  refine Keeps.bind (.whenever fun _ => ?_) fun _ => ?_
  · refine Keeps.bind ?_ fun _ => hbeside .removeService (by decide)
    exact resumable_beside (touches_applyServiceState _) (by decide)
  refine Keeps.bind (.whenever fun _ => (Keeps.failIf _ _).bind fun _ => ?_) fun _ => ?_
  · exact hbeside (.saveRetained _) (by simp [Effect.parts])
  refine resumable_removeRuntimeFiles.bind fun _ => ?_
  refine Keeps.bind (.whenever fun h => ?_) fun _ => ?_
  · exact resumable_removeAccount (Bool.and_eq_true_iff.mp h).1
  refine Keeps.bind ?_ fun _ => Keeps.bind ?_ fun _ => ?_
  · exact resumable_step (fun _ => rfl) (fun _ => rfl) (fun _ => rfl) (fun _ => rfl) fun _ s (h : none = some s) => nomatch h
  · exact resumable_step (fun _ => rfl) (fun _ => rfl) (fun _ => rfl) (fun _ => rfl) fun _ _ => id
  refine Keeps.bind (.whenever fun _ => hbeside .removeRetained (by decide)) fun _ => ?_
  exact (hbeside .removeControl (by decide)).bind fun _ => resumable_finishRemoval

theorem ensures_finishUninstall {m : Machine} (hm : Resumable j final m) :
    Ensures anyCall (fun _ z => Resumable j final z) (finishUninstall j.account j.purge true)
      (fun _ t => t = final) (fun _ _ => True) m := by
  have hkept : Ensures anyCall _ (finishUninstall j.account j.purge true) _ _ m :=
    resumable_finishUninstall.ensures hm
  have hend : Yields True (finishUninstall j.account j.purge true) _ m :=
    yields_finishUninstall (fun _ => trivial) j.purge m
  refine ((hkept.and hend.ensures).weaken fun _ _ h => h.1).mono (fun _ t ht => ?_) fun _ _ _ => trivial
  exact ht.2.trans hm.same

end

/-! ### The whole operations -/

def locked (m : Machine) : Machine := Effect.apply m (.ensureDirectory .installerState)

theorem ensures_acquireOperationLock {G : Machine → Machine → Prop} {m : Machine} (hG : G m m)
    (hlock : G m (locked m)) (hlocked : G (locked m) (locked m)) :
    Ensures anyCall G acquireOperationLock (fun _ t => t = locked m) (fun _ _ => True) m := by
  have hstep : Ensures anyCall G (step (.ensureDirectory .installerState)) (fun _ t => t = locked m)
      (fun _ _ => True) m := .step hG hlock hlock rfl trivial trivial
  refine hstep.bind fun _ t ht => ?_
  subst ht
  exact .ask hlocked rfl trivial

section
variable {engine : Engine} {m : Machine} {s : PersistentState}

/- What was checked before the journal was saved. -/
structure Admitted (engine : Engine) (j : TransactionJournal) : Prop where
  root : engine.root = true
  valid : validateJournal j = .ok ()
  complete : j.account.complete = true

theorem complete_of_validateState (h : validateState s = .ok ()) : s.account.complete = true := by
  obtain ⟨_, -, h⟩ := Fallible.bind_ok_iff.mp h
  obtain ⟨_, hcomplete, -⟩ := Fallible.bind_ok_iff.mp h
  simpa [Fallible.refuse_ok_iff] using hcomplete

/- There is no journal yet, or the uninstall of the state can be resumed. -/
def Uninstalling (engine : Engine) (s : PersistentState) (purge : Bool) (m z : Machine) : Prop :=
  z.journal = none ∨ ∃ current, Admitted engine (uninstallJournal s current purge) ∧
    Resumable (uninstallJournal s current purge) (uninstalled s.account purge (locked m)) z

theorem ensures_uninstallState (purge : Bool) (hjournal : m.journal = none)
    (hstate : m.state = some s) (hroot : engine.root = true) (hvalid : validateState s = .ok ()) :
    Ensures anyCall (fun _ z => Uninstalling engine s purge m z) (uninstallState purge s)
      (fun _ t => t = uninstalled s.account purge (locked m)) (fun _ _ => True) (locked m) := by
  have hnone : Uninstalling engine s purge m (locked m) := .inl hjournal
  refine (reads_record s s.current).ensuring hnone trivial fun current _ => ?_
  have hsaved : Resumable (uninstallJournal s current purge) (uninstalled s.account purge (locked m))
      (Effect.apply (locked m) (.saveJournal (uninstallJournal s current purge))) :=
    ⟨rfl, .inl rfl, fun _ => rfl, fun _ hs => Option.some.inj (hstate.symm.trans hs) ▸ hvalid⟩
  have hplan : Ensures anyCall (fun _ z => Uninstalling engine s purge m z)
      (saveJournal (uninstallJournal s current purge))
      (fun _ t => Admitted engine (uninstallJournal s current purge) ∧
        Resumable (uninstallJournal s current purge) (uninstalled s.account purge (locked m)) t)
      (fun _ _ => True) (locked m) := by
    refine Reads.ensuring (P := fun _ => validateJournal (uninstallJournal s current purge) = .ok ())
      (.check fun _ h => h) hnone trivial fun _ hchecked => ?_
    have hadmitted : Admitted engine (uninstallJournal s current purge) :=
      ⟨hroot, hchecked, complete_of_validateState hvalid⟩
    exact .step hnone (.inr ⟨current, hadmitted, hsaved⟩) (.inr ⟨current, hadmitted, hsaved⟩)
      ⟨hadmitted, hsaved⟩ trivial trivial
  refine hplan.bind fun _ t ht => ?_
  have hfinish := (ensures_finishUninstall ht.2).weaken
    (H := fun _ z => Uninstalling engine s purge m z) fun _ z hz => .inr ⟨current, ht.1, hz⟩
  exact hfinish.bind fun _ u hu => .pure hu

theorem ensures_uninstall (request : UninstallRequest) (hstate : m.state = some s)
    (hjournal : m.journal = none) :
    Ensures anyCall (fun _ z => Uninstalling engine s request.purge m z) (uninstall engine request)
      (fun _ t => t = uninstalled s.account request.purge (locked m)) (fun _ _ => True) m := by
  have hnone : Uninstalling engine s request.purge m m := .inl hjournal
  have hnone' : Uninstalling engine s request.purge m (locked m) := .inl hjournal
  have hlockedState : (locked m).state = some s := hstate
  refine Reads.ensuring (P := fun _ => True) (.failIf fun _ => trivial) hnone trivial fun _ _ => ?_
  refine reads_loadState.ensuring hnone trivial ?_
  rintro _ ⟨rfl, -⟩
  refine reads_loadRetained.ensuring hnone trivial ?_
  rintro _ rfl
  refine reads_refusePending.ensuring hnone trivial fun _ _ => ?_
  rw [hstate]
  refine Reads.ensuring (P := fun _ => True) (.ask trivial) hnone trivial fun _ _ => ?_
  refine Reads.ensuring (P := fun _ => True) (.whenever (fun _ => .ask trivial) fun _ => trivial) hnone
    trivial fun _ _ => ?_
  refine Reads.ensuring (P := fun _ => engine.root = true) (.failIf (by simp)) hnone trivial
    fun _ hroot => ?_
  refine (ensures_acquireOperationLock (G := fun _ z => Uninstalling engine s request.purge m z)
    hnone hnone' hnone').bind fun _ t ht => ?_
  subst ht
  refine reads_loadState.ensuring hnone' trivial ?_
  rintro _ ⟨rfl, hvalid⟩
  refine reads_loadRetained.ensuring hnone' trivial ?_
  rintro _ rfl
  refine reads_refusePending.ensuring hnone' trivial fun _ _ => ?_
  rw [hlockedState]
  exact ensures_uninstallState request.purge hjournal hstate hroot (hvalid s hlockedState)

def Unrecorded (z : Machine) : Prop := z.state = none ∧ z.journal = none

theorem unrecorded_beside {α : Type} {p : Ctl α} {F : List Part} (hp : Touches F p)
    (hF : .state ∉ F ∧ .journal ∉ F) : Keeps Unrecorded p :=
  hp.keeps fun _ _ ht hm => ⟨Eq.trans (ht .state hF.1) hm.1, Eq.trans (ht .journal hF.2) hm.2⟩

theorem unrecorded_removeTrees (directories : List Directory)
    (h : ∀ d ∈ directories, .state ∉ d.parts ∧ .journal ∉ d.parts) :
    Keeps Unrecorded (removeTrees directories) := by
  induction directories with
  | nil => exact .pure ()
  | cons d rest ih =>
    refine Keeps.bind ?_ fun _ => ih fun d hd => h d (List.mem_cons_of_mem _ hd)
    exact unrecorded_beside (F := d.parts) (.step (List.Subset.refl _)) (h d List.mem_cons_self)

theorem unrecorded_finishUninstall (account : ManagedAccount) (purge : Bool) :
    Keeps Unrecorded (finishUninstall account purge false) := by
  have hbeside : ∀ e : Effect, .state ∉ e.parts ∧ .journal ∉ e.parts → Keeps Unrecorded (step e) :=
    fun e he => unrecorded_beside (F := e.parts) (.step (List.Subset.refl _)) he
  have hlink : ∀ link, Keeps Unrecorded (step (.removeLink link)) :=
    fun link => hbeside _ (by simp [Effect.parts])
  refine Keeps.bind (.whenever (by simp)) fun _ => ?_
  refine Keeps.bind (.whenever fun _ => (Keeps.failIf _ _).bind fun _ => ?_) fun _ => ?_
  · exact hbeside _ (by simp [Effect.parts])
  refine Keeps.bind ?_ fun _ => ?_
  · refine (hlink _).bind fun _ => (hlink _).bind fun _ => (hlink _).bind fun _ => ?_
    refine (unrecorded_removeTrees _ (by decide)).bind fun _ => .whenever fun _ => ?_
    exact hbeside _ (by decide)
  refine Keeps.bind (.whenever fun _ => hbeside _ (by simp [Effect.parts])) fun _ => ?_
  refine Keeps.bind (.step fun m hm => ⟨⟨rfl, hm.2⟩, rfl, hm.2⟩) fun _ => ?_
  refine (hbeside _ (by decide)).bind fun _ => ?_
  refine Keeps.bind (.whenever fun _ => hbeside _ (by decide)) fun _ => ?_
  refine (hbeside _ (by decide)).bind fun _ => ?_
  cases purge with
  | false => exact .step fun m hm => ⟨⟨hm.1, rfl⟩, hm.1, rfl⟩
  | true => exact .step fun m hm => ⟨⟨rfl, rfl⟩, rfl, rfl⟩

theorem ensures_uninstall_unrecorded (request : UninstallRequest) (hm : Unrecorded m) :
    Ensures anyCall (fun _ z => Unrecorded z) (uninstall engine request) (fun _ _ => True)
      (fun _ _ => True) m := by
  have hm' : Unrecorded (locked m) := hm
  have hlocked : Ensures anyCall (fun _ z => Unrecorded z) (uninstallLocked engine request.purge)
      (fun _ _ => True) (fun _ _ => True) m := by
    refine Reads.ensuring (P := fun _ => True) (.failIf fun _ => trivial) hm trivial fun _ _ => ?_
    refine (ensures_acquireOperationLock (G := fun _ z => Unrecorded z) hm hm' hm').bind
      fun _ t ht => ?_
    subst ht
    refine reads_loadState.ensuring hm' trivial ?_
    rintro _ ⟨rfl, -⟩
    refine reads_loadRetained.ensuring hm' trivial fun retained _ => ?_
    refine reads_refusePending.ensuring hm' trivial fun _ _ => ?_
    rw [hm'.1]
    cases retained with
    | none => exact .pure trivial
    | some account =>
      have hfinish : Ensures anyCall _ (finishUninstall account request.purge false) _ _ (locked m) :=
        (unrecorded_finishUninstall account request.purge).ensures hm'
      refine (hfinish.mono (fun _ _ _ => trivial) fun _ _ _ => trivial).bind fun _ _ _ => ?_
      exact .pure trivial
  refine Reads.ensuring (P := fun _ => True) (.failIf fun _ => trivial) hm trivial fun _ _ => ?_
  refine reads_loadState.ensuring hm trivial ?_
  rintro _ ⟨rfl, -⟩
  refine reads_loadRetained.ensuring hm trivial fun retained _ => ?_
  refine reads_refusePending.ensuring hm trivial fun _ _ => ?_
  rw [hm.1]
  cases retained with
  | none => exact .pure trivial
  | some account =>
    dsimp only
    split
    · refine Reads.ensuring (P := fun _ => True) (.ask trivial) hm trivial fun _ _ => hlocked
    · exact .pure trivial

theorem ensures_repair {j : TransactionJournal} {final : Machine}
    (bundle : Option (Except Failure ValidatedBundle)) (hm : Resumable j final m)
    (hjournal : m.journal = some j) (hoperation : j.operation = .uninstall) :
    Ensures anyCall (fun _ z => Resumable j final z) (repair engine bundle) (fun _ t => t = final)
      (fun _ _ => True) m := by
  have hlocked : locked m = m := by
    refine Machine.ext rfl rfl rfl rfl rfl rfl rfl rfl rfl ?_ rfl rfl rfl rfl
    exact Function.update_eq_self_iff.mpr (hm.installer (.inr hjournal)).symm
  refine reads_loadState.ensuring hm trivial fun state _ => ?_
  refine reads_loadJournal.ensuring hm trivial ?_
  rintro _ ⟨rfl, -⟩
  rw [hjournal]
  have hresume : Ensures anyCall (fun _ z => Resumable j final z) (repairInterruptedUninstall engine j)
      (fun _ t => t = final) (fun _ _ => True) m := by
    refine Reads.ensuring (P := fun _ => True) (.failIf fun _ => trivial) hm trivial fun _ _ => ?_
    refine Reads.ensuring (P := fun _ => True) (.whenever (fun _ => .ask trivial) fun _ => trivial) hm
      trivial fun _ _ => ?_
    have hlock := ensures_acquireOperationLock (G := fun _ z => Resumable j final z) hm
      (hlocked.symm ▸ hm) (hlocked.symm ▸ hm)
    refine hlock.bind fun _ t ht => ?_
    rw [hlocked] at ht
    subst ht
    refine reads_loadJournal.ensuring hm trivial ?_
    rintro _ ⟨rfl, -⟩
    rw [hjournal]
    refine Reads.ensuring (P := fun _ => True) (.failIf fun _ => trivial) hm trivial fun _ _ => ?_
    refine Reads.ensuring (P := fun _ => True) (.failIf fun _ => trivial) hm trivial fun _ _ => ?_
    exact (ensures_finishUninstall hm).bind fun _ u hu => .pure hu
  cases state with
  | none | some s =>
    dsimp only
    rw [if_pos hoperation]
    exact hresume

end

/-! ### Repairs without failing calls -/

section
variable {E : Prop} {m : Machine}

theorem yields_loadState (h : ∀ s, m.state = some s → validateState s = .ok ()) :
    Yields E loadState (fun _ t => t = m) m := by
  refine .looking ?_
  split
  · exact .pure rfl
  next s hs =>
    rw [h s hs]
    exact .pure rfl

theorem yields_loadJournal {j : TransactionJournal} (hj : m.journal = some j)
    (hvalid : validateJournal j = .ok ()) :
    Yields E loadJournal (fun journal t => journal = some j ∧ t = m) m := by
  refine .looking ?_
  rw [hj]
  dsimp only
  rw [hvalid]
  exact .pure ⟨rfl, rfl⟩

theorem yields_acquireOperationLock (m : Machine) :
    Yields E acquireOperationLock (fun _ t => t = locked m) m := .stepping (.ask rfl)

theorem yields_repair {engine : Engine} {j : TransactionJournal} {final : Machine}
    (bundle : Option (Except Failure ValidatedBundle)) (hj : Admitted engine j)
    (hm : Resumable j final m) (hjournal : m.journal = some j) (hoperation : j.operation = .uninstall) :
    Yields E (repair engine bundle) (fun _ _ => True) m := by
  have hpreflight : Yields E (whenever j.purge (ask (.preflightRemoveAccount j.account)))
      (fun _ t => t = m) m := Ensures.whenever (fun _ => Yields.ask rfl) fun _ => rfl
  have hresume : Yields E (repairInterruptedUninstall engine j) (fun _ _ => True) m := by
    refine (Yields.failIf (by simp [hj.root])).bind fun _ t ht => ?_
    rw [ht]
    refine hpreflight.bind fun _ t ht => ?_
    rw [ht]
    refine (yields_acquireOperationLock m).bind fun _ t ht => ?_
    refine (yields_loadJournal (m := t) (ht ▸ hjournal) hj.valid).bind ?_
    rintro _ u ⟨rfl, -⟩
    refine (Yields.failIf (by simp [hoperation])).bind fun _ v _ => ?_
    refine (Yields.failIf (by simp)).bind fun _ x _ => ?_
    exact (yields_finishUninstall (by simp [hj.complete]) _ x).bind fun _ _ _ => .pure trivial
  refine (yields_loadState hm.valid).bind fun state t ht => ?_
  rw [ht]
  refine (yields_loadJournal hjournal hj.valid).bind ?_
  rintro _ _ ⟨rfl, rfl⟩
  cases state with
  | none | some s =>
    dsimp only
    rw [if_pos hoperation]
    exact hresume

end

/-! ### What else may be asked for -/

/- The lifecycle operations that change something, `Repair` apart. -/
inductive Mutation where
  | install (request : InstallRequest)
  | activate (request : ActivateRequest)
  | upgrade (candidate : Except Failure ValidatedBundle)
  | rollback (generationID : Text)
  | uninstall (request : UninstallRequest)
  | controlService (control : Control) (canceled : Bool)
  | updateConfiguration (request : ConfigurationUpdateRequest)
  | applyConfiguration (canceled : Bool)
  | setSecret (request : SecretUpdateRequest)

def Mutation.operation (engine : Engine) : Mutation → Ctl Result
  | .install request => Lifecycle.install engine request
  | .activate request => Lifecycle.activate engine request
  | .upgrade candidate => Lifecycle.upgrade engine candidate
  | .rollback generationID => Lifecycle.rollback engine generationID
  | .uninstall request => Lifecycle.uninstall engine request
  | .controlService control canceled => Lifecycle.controlService engine control canceled
  | .updateConfiguration request => Lifecycle.updateConfiguration engine request
  | .applyConfiguration canceled => Lifecycle.applyConfiguration engine canceled
  | .setSecret request => Lifecycle.setSecret engine request

section
variable {α β : Type} {m : Machine} {p : Ctl α} {f : α → Ctl β}

/- The operation fails and takes no step that changes the machine. -/
def Refuses (p : Ctl α) (m : Machine) : Prop :=
  Ensures anyCall (fun _ z => z = m) p (fun _ _ => False) (fun _ t => t = m) m

theorem Refuses.afterKept (hp : Keeps (· = m) p) (hf : ∀ a, Refuses (f a) m) : Refuses (p >>= f) m := by
  refine (hp.ensures rfl).bind ?_
  rintro a t rfl
  exact hf a

theorem refuses_refusePending {g : Unit → Ctl β} (hj : m.journal ≠ none) :
    Refuses (refusePending >>= g) m :=
  reads_refusePending.ensuring rfl rfl fun _ hnone => absurd hnone hj

theorem refuses_requireCleanState {g : PersistentState → Ctl β} (hj : m.journal ≠ none) :
    Refuses (requireCleanState >>= g) m :=
  reads_requireCleanState.ensuring rfl rfl fun _ hclean => absurd hclean.2.1 hj

theorem kept_acquireOperationLock (hm : m.directories .installerState = true) :
    Keeps (· = m) acquireOperationLock := by
  have hlocked : locked m = m := by
    refine Machine.ext rfl rfl rfl rfl rfl rfl rfl rfl rfl ?_ rfl rfl rfl rfl
    exact Function.update_eq_self_iff.mpr hm.symm
  refine Keeps.bind (.step ?_) fun _ => .ask _
  rintro _ rfl
  exact ⟨hlocked, hlocked⟩

theorem kept_reading (hp : Touches [] p) : Keeps (· = m) p :=
  hp.keeps fun _ _ ht hm => ht.eq.trans hm

end

/-- Whatever mutation is asked for, a journal on disk makes it fail without a change. -/
theorem refuses_operation (engine : Engine) (mutation : Mutation) {m : Machine}
    (hj : m.journal ≠ none) (hm : m.directories .installerState = true) :
    Refuses (mutation.operation engine) m := by
  have hlock := kept_acquireOperationLock hm
  have hask : ∀ question, Keeps (· = m) (ask question) := fun _ => .ask _
  have hroot : Keeps (· = m) (requirePrivileges engine) := .failIf _ _
  cases mutation with
  | install request =>
    refine .afterKept (.check _) fun _ => .afterKept hroot fun _ => .afterKept hlock fun _ => ?_
    exact .afterKept (kept_reading touches_loadState) fun _ => refuses_refusePending hj
  | activate request =>
    refine .afterKept (kept_reading (touches_effectiveActivationSecret engine request)) fun _ => ?_
    refine .afterKept (hask _) fun _ => .afterKept hroot fun _ => .afterKept hlock fun _ => ?_
    exact refuses_requireCleanState hj
  | upgrade candidate => exact .afterKept hroot fun _ => refuses_requireCleanState hj
  | rollback generationID =>
    refine .afterKept (kept_reading (touches_checkRollbackTarget generationID)) fun _ => ?_
    refine .afterKept .look fun _ => .afterKept (hask _) fun _ => .afterKept hroot fun _ => ?_
    exact .afterKept hlock fun _ => refuses_requireCleanState hj
  | uninstall request =>
    refine .afterKept (.failIf _ _) fun _ => .afterKept (kept_reading touches_loadState) fun _ => ?_
    exact .afterKept (kept_reading touches_loadRetained) fun _ => refuses_refusePending hj
  | controlService control canceled =>
    refine .afterKept (kept_reading (touches_controlPrecheck control)) fun _ => ?_
    refine .afterKept (.whenever fun _ => ?_) fun _ => ?_
    · exact kept_reading (touches_validateManagedConfiguration engine true)
    refine .afterKept (hask _) fun _ => .afterKept hroot fun _ => .afterKept hlock fun _ => ?_
    exact refuses_requireCleanState hj
  | updateConfiguration request =>
    refine .afterKept (.check _) fun _ => .afterKept hroot fun _ => ?_
    refine .afterKept (.whenever fun _ => hask _) fun _ => .afterKept hlock fun _ => ?_
    exact refuses_requireCleanState hj
  | applyConfiguration canceled =>
    refine .afterKept hroot fun _ => .afterKept (hask _) fun _ => .afterKept hlock fun _ => ?_
    exact refuses_requireCleanState hj
  | setSecret request =>
    obtain ⟨file, apply, canceled⟩ := request
    cases file with
    | none => exact .fail rfl
    | some source =>
      refine .afterKept hroot fun _ => .afterKept (.whenever fun _ => hask _) fun _ => ?_
      exact .afterKept hlock fun _ => refuses_requireCleanState hj

/-! ### Interrupted any number of times -/

/- Where crashes of an uninstall, and then of repairs, can leave the machine. -/
inductive Interrupted (engine : Engine) (request : UninstallRequest) (m : Machine) : Machine → Prop where
  | uninstall {w : ℕ → Choice} {z : Machine} (hz : Crash (uninstall engine request) w m z) :
    Interrupted engine request m z
  | repair {bundle : Option (Except Failure ValidatedBundle)} {w : ℕ → Choice} {y z : Machine}
    (hy : Interrupted engine request m y) (hpending : y.journal ≠ none)
    (hz : Crash (repair engine bundle) w y z) : Interrupted engine request m z

theorem Interrupted.uninstalling {engine : Engine} {request : UninstallRequest} {m z : Machine}
    {s : PersistentState} (hstate : m.state = some s) (hjournal : m.journal = none)
    (hz : Interrupted engine request m z) : Uninstalling engine s request.purge m z := by
  induction hz with
  | uninstall hz => exact (ensures_uninstall request hstate hjournal).crash_invariant (.inl hjournal) hz
  | repair hy hpending hz ih =>
    obtain hnone | ⟨current, hadmitted, hy⟩ := ih
    · exact absurd hnone hpending
    · have hj := hy.pending.resolve_right hpending
      exact .inr ⟨current, hadmitted, (ensures_repair _ hy hj rfl).crash_invariant hy hz⟩

theorem Interrupted.unrecorded {engine : Engine} {request : UninstallRequest} {m z : Machine}
    (hm : Unrecorded m) (hz : Interrupted engine request m z) : Unrecorded z := by
  induction hz with
  | uninstall hz => exact (ensures_uninstall_unrecorded request hm).crash_invariant hm hz
  | repair hy hpending hz ih => exact absurd ih.2 hpending

/-- After any number of interruptions, a `Repair` that succeeds while the journal exists ends where
the uninterrupted uninstall ends, and it succeeds if no call fails; until then every other mutation
fails and changes nothing. -/
theorem uninstall_resumed (engine : Engine) (request : UninstallRequest) (m z : Machine)
    (hjournal : m.journal = none) (hz : Interrupted engine request m z) (hpending : z.journal ≠ none) :
    (∀ w r t bundle w' r' t', (uninstall engine request).run.run handle w m = (.ok r, t) →
      (repair engine bundle).run.run handle w' z = (.ok r', t') → t' = t) ∧
    (∀ bundle w, (∀ n, (w n).fails = false) →
      ∃ r t, (repair engine bundle).run.run handle w z = (.ok r, t)) ∧
    ∀ (mutation : Mutation) (w : ℕ → Choice),
      (∃ stop, (mutation.operation engine).run.run handle w z = (.error stop, z)) ∧
        ∀ y, Crash (mutation.operation engine) w z y → y = z := by
  cases hstate : m.state with
  | none => exact absurd (hz.unrecorded ⟨hstate, hjournal⟩).2 hpending
  | some s =>
    obtain hnone | ⟨current, hadmitted, hresumable⟩ := hz.uninstalling hstate hjournal
    · exact absurd hnone hpending
    have hj := hresumable.pending.resolve_right hpending
    refine ⟨?_, fun bundle w hw => ?_, fun mutation w => ?_⟩
    · intro w r t bundle w' r' t' hrun hrepair
      have ht := (ensures_uninstall request hstate hjournal).run_ok hrun
      have ht' := (ensures_repair bundle hresumable hj rfl).run_ok hrepair
      exact ht'.trans ht.symm
    · exact (yields_repair bundle hadmitted hresumable hj rfl).run hw
    · have hrefuses := refuses_operation engine mutation hpending (hresumable.installer (.inr hj))
      refine ⟨?_, fun y hy => hrefuses.crash_invariant rfl hy⟩
      cases hrun : (mutation.operation engine).run.run handle w z with
      | mk result t =>
        cases result with
        | ok a => exact absurd (hrefuses.run_ok hrun) id
        | error stop => exact ⟨stop, by rw [hrefuses.run_error hrun]⟩

theorem uninstall_resumed_purge :
    ∃ z, Interrupted sampleEngine ⟨true, true⟩ sampleMachine z ∧ z.journal ≠ none ∧
      ∀ w r t bundle w' r' t',
        (uninstall sampleEngine ⟨true, true⟩).run.run handle w sampleMachine = (.ok r, t) →
          (repair sampleEngine bundle).run.run handle w' z = (.ok r', t') → t' = t := by
  have hany : ((uninstall sampleEngine ⟨true, true⟩).run.trail handle succeeding sampleMachine).any
      (·.journal.isSome) = true := by decide +kernel
  obtain ⟨z, hz, hpending⟩ := List.any_eq_true.mp hany
  have hreached : Interrupted sampleEngine ⟨true, true⟩ sampleMachine z :=
    .uninstall (List.mem_cons_of_mem _ hz)
  have hjournal : z.journal ≠ none := Option.isSome_iff_ne_none.mp hpending
  exact ⟨z, hreached, hjournal, (uninstall_resumed _ _ _ _ rfl hreached hjournal).1⟩

end RemnanodeLite.Rnlctl.Lifecycle
