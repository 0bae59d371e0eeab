import RemnanodeLite.Rnlctl.Calls

/-! # What an operation can touch

A machine has twelve parts. Every function of the lifecycle has a footprint: the parts its
steps can change, whatever fails and whatever it reads. The others stay as they are. -/

namespace RemnanodeLite.Rnlctl.Lifecycle
open Filepath Program

inductive Part where
  | state
  | journal
  | retained
  | generations
  | caches
  | links
  | control
  | configuration
  | directories
  | service
  | registration
  | account
  deriving DecidableEq

def Same (m t : Machine) : Part → Prop
  | .state => t.state = m.state
  | .journal => t.journal = m.journal
  | .retained => t.retained = m.retained
  | .generations => t.generations = m.generations
  | .caches => t.caches = m.caches
  | .links => t.links = m.links
  | .control => t.control = m.control
  | .configuration => t.environment = m.environment ∧ t.secret = m.secret
  | .directories => t.directories = m.directories
  | .service => t.service = m.service
  | .registration => t.registered = m.registered
  | .account => t.user = m.user ∧ t.group = m.group

def Directory.parts : Directory → List Part
  | .libraryRoot => [.generations, .links, .directories]
  | .generations => [.generations, .directories]
  | .configDirectory => [.configuration, .directories]
  | .bundleCache => [.caches, .directories]
  | .installerState => [.state, .journal, .retained, .caches, .directories]
  | .applicationState | .logDirectory | .runtimeDirectory => [.directories]

def Effect.parts : Effect → List Part
  | .saveState _ | .removeState => [.state]
  | .saveJournal _ | .clearJournal => [.journal]
  | .saveRetained _ | .removeRetained => [.retained]
  | .symlink _ _ | .removeLink _ => [.links]
  | .writeControl _ | .removeControl => [.control]
  | .setEnvironment _ | .setSecret _ => [.configuration]
  | .ensureDirectory _ => [.directories]
  | .removeAll directory => directory.parts
  | .createGeneration _ _ | .removeGeneration _ => [.generations]
  | .writeCache _ _ | .removeCache _ => [.caches]
  | .setEnabled _ | .setActive _ | .restart => [.service]
  | .removeService => [.registration]
  | .removeAccount _ => [.account]
  | .applyOwnership => []

def Op.parts : Op → List Part
  | .step e => e.parts
  | .prepare _ => [.directories, .registration, .account]
  | .look | .ask _ | .mapOrder => []

/- Outside of `F` nothing has changed. -/
def Beyond (F : List Part) (m t : Machine) : Prop := ∀ part, part ∉ F → Same m t part

section
variable {F F' : List Part} {m t u : Machine} {part : Part}

theorem Same.refl (m : Machine) (part : Part) : Same m m part := by
  cases part <;> first | rfl | exact ⟨rfl, rfl⟩

theorem Same.trans (h : Same m t part) (h' : Same t u part) : Same m u part := by
  cases part with
  | configuration => exact ⟨h'.1.trans h.1, h'.2.trans h.2⟩
  | account => exact ⟨h'.1.trans h.1, h'.2.trans h.2⟩
  | _ => exact Eq.trans h' h

theorem Beyond.refl (F : List Part) (m : Machine) : Beyond F m m := fun part _ => .refl m part

theorem Beyond.trans (h : Beyond F m t) (h' : Beyond F t u) : Beyond F m u :=
  fun part hpart => (h part hpart).trans (h' part hpart)

theorem Beyond.mono (h : Beyond F m t) (hF : F ⊆ F') : Beyond F' m t :=
  fun part hpart => h part fun hmem => hpart (hF hmem)

theorem removeTree_same (m : Machine) (directory : Directory) (h : part ∉ directory.parts) :
    Same m (removeTree m directory) part := by
  cases directory <;> cases part <;>
    first | rfl | exact ⟨rfl, rfl⟩ | exact absurd (by decide) h

theorem Effect.apply_same (m : Machine) (e : Effect) (h : part ∉ e.parts) :
    Same m (e.apply m) part := by
  cases e with
  | removeAll directory => exact removeTree_same m directory h
  | _ => cases part <;> first | rfl | exact ⟨rfl, rfl⟩ | exact absurd (List.mem_singleton_self _) h

theorem Effect.halfway_same (m : Machine) (e : Effect) (h : part ∉ e.parts) :
    Same m (e.halfway m) part := by
  cases e with
  | removeGeneration id =>
    cases part <;> first | rfl | exact ⟨rfl, rfl⟩ | exact absurd (List.mem_singleton_self _) h
  | _ => exact Effect.apply_same m _ h

theorem prepared_same (m : Machine) (i : AccountIdentity) (id : Text)
    (h : part ∉ (Op.prepare id).parts) : Same m (prepared m i) part := by
  cases part <;> first | rfl | exact ⟨rfl, rfl⟩ | exact absurd (by simp [Op.parts]) h

theorem handle_same (op : Op) (m : Machine) (c : Choice) (h : part ∉ op.parts) :
    Same m (handle op m c).2 part := by
  obtain ⟨fails, tookEffect, identity⟩ := c
  cases op with
  | look => exact .refl m part
  | ask question => exact .refl m part
  | mapOrder => exact .refl m part
  | step e =>
    cases fails with
    | false => exact e.apply_same m h
    | true =>
      cases tookEffect with
      | false => exact .refl m part
      | true => exact e.halfway_same m h
  | prepare id =>
    cases fails with
    | false => exact prepared_same m identity id h
    | true =>
      cases tookEffect with
      | false => exact .refl m part
      | true => exact prepared_same m identity id h

end

/-! ### Footprints -/

section
variable {α β : Type} {F F' : List Part} {p : Ctl α} {f : α → Ctl β}

/-- No step that the operation can take changes anything outside of `F`. -/
def Touches (F : List Part) (p : Ctl α) : Prop := Makes (fun op => op.parts ⊆ F) p.run

theorem Touches.mono (hp : Touches F p) (hF : F ⊆ F') : Touches F' p :=
  Makes.mono hp fun _ hop => List.Subset.trans hop hF

theorem Touches.pure (a : α) : Touches F (Pure.pure a : Ctl α) := trivial

theorem Touches.fail (e : Failure) : Touches F (fail e : Ctl α) := trivial

theorem Touches.bind (hp : Touches F p) (hf : ∀ a, Touches F (f a)) : Touches F (p >>= f) := by
  refine Makes.bind hp fun r => ?_
  cases r with
  | ok a => exact hf a
  | error e => trivial

theorem Touches.check (r : Except Failure α) : Touches F (check r) := by
  cases r with
  | ok a => exact .pure a
  | error e => exact .fail e

theorem Touches.failIf (c : Bool) (e : Failure) : Touches F (failIf c e) := by
  cases c with
  | false => exact .pure ()
  | true => exact .fail e

theorem Touches.whenever {c : Bool} {p : Ctl Unit} (hp : Touches F p) : Touches F (whenever c p) := by
  cases c with
  | false => exact .pure ()
  | true => exact hp

theorem Touches.look : Touches F look := by
  refine Touches.bind ⟨List.nil_subset _, fun _ => trivial⟩ fun found => ?_
  cases found with
  | none => exact .fail _
  | some m => exact .pure m

theorem Touches.step {e : Effect} (h : e.parts ⊆ F) : Touches F (step e) :=
  Touches.bind ⟨h, fun _ => trivial⟩ fun _ => .failIf _ _

theorem Touches.ask (question : Question) : Touches F (ask question) :=
  Touches.bind ⟨List.nil_subset _, fun _ => trivial⟩ fun _ => .failIf _ _

theorem Touches.prepare {id : Text} (h : (Op.prepare id).parts ⊆ F) : Touches F (prepare id) :=
  ⟨h, fun _ => trivial⟩

theorem Touches.attempt (hp : Touches F p) : Touches F (attempt p) := Makes.bind hp fun _ => trivial

theorem Touches.wrapf {format : String} {args : List Text} (hp : Touches F p) :
    Touches F (wrapf format args p) := Makes.bind hp fun _ => trivial

theorem Touches.recovering {recover : Ctl Unit} (hp : Touches F p) (hrecover : Touches F recover) :
    Touches F (recovering recover p) := by
  refine Makes.bind hp fun r => ?_
  cases r with
  | ok a => trivial
  | error cause => exact Makes.bind hrecover fun _ => trivial

theorem Touches.keeps {inv : Machine → Prop} (hp : Touches F p)
    (hinv : ∀ m t, Beyond F m t → inv m → inv t) : Keeps inv p :=
  Makes.stable hp fun op hop m c hm =>
    hinv m _ (fun _ hpart => handle_same op m c fun hmem => hpart (hop hmem)) hm

variable {rely : Call Op Machine Choice → Prop} {m : Machine}

theorem Beyond.eq {t : Machine} (h : Beyond [] m t) : t = m := by
  obtain ⟨henvironment, hsecret⟩ := h .configuration List.not_mem_nil
  obtain ⟨huser, hgroup⟩ := h .account List.not_mem_nil
  have hstate := h .state List.not_mem_nil
  have hjournal := h .journal List.not_mem_nil
  have hretained := h .retained List.not_mem_nil
  have hgenerations := h .generations List.not_mem_nil
  have hcaches := h .caches List.not_mem_nil
  have hlinks := h .links List.not_mem_nil
  have hcontrol := h .control List.not_mem_nil
  have hdirectories := h .directories List.not_mem_nil
  have hservice := h .service List.not_mem_nil
  have hregistered := h .registration List.not_mem_nil
  cases m
  cases t
  simp only [Same] at *
  subst_vars
  rfl

end

/-! ### The functions that only read -/

section
variable {α : Type} {F : List Part}

theorem touches_loadState : Touches F loadState := by
  refine Touches.look.bind fun m => ?_
  split
  · exact .pure _
  · exact (Touches.check _).bind fun _ => .pure _

theorem touches_loadJournal : Touches F loadJournal := by
  refine Touches.look.bind fun m => ?_
  split
  · exact .pure _
  · exact (Touches.check _).bind fun _ => .pure _

theorem touches_loadRetained : Touches F loadRetained := by
  refine Touches.look.bind fun m => ?_
  split
  · exact .pure _
  · exact (Touches.failIf _ _).bind fun _ => .pure _

theorem touches_requireCleanState : Touches F requireCleanState := by
  refine touches_loadState.bind fun state => ?_
  split
  · exact .fail _
  · refine touches_loadJournal.bind fun journal => ?_
    split
    · exact .fail _
    · exact .pure _

theorem touches_record (s : PersistentState) (id : Text) : Touches F (s.record id) := by
  unfold PersistentState.record
  split
  · exact .pure _
  · exact .fail _

theorem touches_verifyGeneration (engine : Engine) (record : GenerationRecord) :
    Touches F (verifyGeneration engine record) := by
  refine Touches.look.bind fun m => ?_
  split
  · exact .fail _
  · exact .failIf _ _

theorem touches_verifyTransitionOutcome (record : GenerationRecord) (desired : DesiredServiceState) :
    Touches F (verifyTransitionOutcome record desired) :=
  (Touches.ask _).bind fun _ => .whenever (.ask _)

theorem touches_validateManagedConfiguration (engine : Engine) (requireSecret : Bool) :
    Touches F (validateManagedConfiguration engine requireSecret) :=
  Touches.look.bind fun _ => .check _

theorem touches_requireActiveConfigurationTarget (s : PersistentState) :
    Touches F (requireActiveConfigurationTarget s) :=
  (Touches.failIf _ _).bind fun _ => Touches.look.bind fun _ => .failIf _ _

theorem touches_readExistingSecret (engine : Engine) : Touches F (readExistingSecret engine) := by
  refine Touches.look.bind fun m => ?_
  split
  · exact .fail _
  · exact (Touches.check _).bind fun _ => .pure _

theorem touches_effectiveActivationSecret (engine : Engine) (request : ActivateRequest) :
    Touches F (effectiveActivationSecret engine request) := by
  unfold effectiveActivationSecret
  split
  · exact .check _
  · refine (touches_readExistingSecret engine).attempt.bind fun found => ?_
    split
    · exact .pure _
    · exact .fail _
    · exact .fail _

theorem touches_checkRollbackTarget (generationID : Text) :
    Touches F (checkRollbackTarget generationID) := by
  refine touches_loadState.bind fun state => ?_
  split
  · exact .fail _
  · exact (Touches.failIf _ _).bind fun _ => .failIf _ _

theorem touches_controlPrecheck (control : Control) : Touches F (controlPrecheck control) := by
  refine touches_loadState.bind fun state => ?_
  split
  · exact .fail _
  · exact .failIf _ _

end

/-! ### What is read -/

section
variable {α : Type} {m : Machine}

theorem mapError_eq_ok {r : Except Failure α} {wrap : Failure → Failure} {a : α}
    (h : r.mapError wrap = .ok a) : r = .ok a := by
  cases r with
  | ok b => exact h
  | error e => cases h

theorem reads_loadState :
    Reads loadState (fun s => s = m.state ∧ ∀ x, s = some x → validateState x = .ok ()) m := by
  refine .looking ?_
  split
  next hnone => exact .pure ⟨hnone.symm, fun x hx => absurd hx.symm (Option.some_ne_none x)⟩
  next s hs =>
    refine .bind (P := fun _ => validateState s = .ok ()) (.check fun _ => mapError_eq_ok) ?_
    exact fun _ hvalid => .pure ⟨hs.symm, fun x hx => by cases hx; exact hvalid⟩

theorem reads_loadJournal :
    Reads loadJournal (fun j => j = m.journal ∧ ∀ x, j = some x → validateJournal x = .ok ()) m := by
  refine .looking ?_
  split
  next hnone => exact .pure ⟨hnone.symm, fun x hx => absurd hx.symm (Option.some_ne_none x)⟩
  next j hj =>
    refine .bind (P := fun _ => validateJournal j = .ok ()) (.check fun _ => mapError_eq_ok) ?_
    exact fun _ hvalid => .pure ⟨hj.symm, fun x hx => by cases hx; exact hvalid⟩

theorem reads_loadRetained : Reads loadRetained (· = m.retained) m := by
  refine .looking ?_
  split
  next hnone => exact .pure hnone.symm
  next a ha => exact .bind (P := fun _ => True) (.failIf fun _ => trivial) fun _ _ => .pure ha.symm

theorem reads_refusePending : Reads refusePending (fun _ => m.journal = none) m := by
  refine reads_loadJournal.bind ?_
  rintro _ ⟨rfl, -⟩
  cases hj : m.journal with
  | none => exact .pure rfl
  | some j => exact .fail

theorem reads_requireCleanState :
    Reads requireCleanState (fun s => m.state = some s ∧ m.journal = none ∧ validateState s = .ok ())
      m := by
  refine reads_loadState.bind ?_
  rintro _ ⟨rfl, hvalid⟩
  split
  · exact .fail
  next s hs =>
    refine reads_loadJournal.bind ?_
    rintro _ ⟨rfl, -⟩
    split
    · exact .fail
    next hj => exact .pure ⟨hs, hj, hvalid s hs⟩

theorem reads_record (s : PersistentState) (id : Text) :
    Reads (s.record id) (fun g => s.generations.lookup id = some g) m := by
  unfold PersistentState.record
  split
  next g hg => exact .pure hg
  · exact .fail

end

/-! ### The functions that change something -/

theorem touches_acquireOperationLock : Touches [.directories] acquireOperationLock :=
  (Touches.step (List.Subset.refl _)).bind fun _ => .ask _

theorem touches_ensureDirectories (directories : List Directory) :
    Touches [.directories] (ensureDirectories directories) := by
  induction directories with
  | nil => exact .pure _
  | cons directory rest ih => exact (Touches.step (List.Subset.refl _)).bind fun _ => ih

theorem touches_applyServiceState (desired : DesiredServiceState) :
    Touches [.service] (applyServiceState desired) := by
  have hactive : ∀ b, Touches [.service] (step (.setActive b)) := fun _ => .step (List.Subset.refl _)
  have henabled : ∀ b, Touches [.service] (step (.setEnabled b)) := fun _ => .step (List.Subset.refl _)
  exact Touches.look.bind fun _ => (hactive _).whenever.bind fun _ =>
    (henabled _).whenever.bind fun _ => (hactive _).whenever

theorem touches_reassertServiceState (desired : DesiredServiceState) :
    Touches [.service] (reassertServiceState desired) := by
  have hactive : ∀ b, Touches [.service] (step (.setActive b)) := fun _ => .step (List.Subset.refl _)
  have henabled : ∀ b, Touches [.service] (step (.setEnabled b)) := fun _ => .step (List.Subset.refl _)
  refine (henabled _).whenever.attempt.bind fun _ => (hactive _).attempt.bind fun _ => ?_
  refine (henabled _).whenever.attempt.bind fun _ => Touches.bind ?_ fun _ => .check _
  exact (Touches.look.bind fun _ => .failIf _ _).attempt

theorem touches_restartManagedConfiguration : Touches [.service] restartManagedConfiguration := by
  have hrestart : Touches [.service] (step .restart) := .step (List.Subset.refl _)
  exact hrestart.wrapf.bind fun _ => (Touches.ask _).wrapf

theorem touches_restartRecovered (canceled : Bool) : Touches [.service] (restartRecovered canceled) := by
  unfold restartRecovered
  split
  · exact touches_restartManagedConfiguration.recovering touches_restartManagedConfiguration
  · exact touches_restartManagedConfiguration

theorem touches_prepareService (id : Text) :
    Touches [.directories, .registration, .account] (prepareService id) :=
  (Touches.prepare (List.Subset.refl _)).bind fun _ => (Touches.failIf _ _).bind fun _ => .pure _

/-! ### A small installation -/

def sampleEngine : Engine where
  root := true
  manifest := fun identity =>
    ⟨"1.0.0".toList, "1.0.0".toList, "amd64".toList, List.replicate 40 '0', identity⟩
  validConfiguration := fun _ _ _ => .ok ()
  validSecret := fun _ => .ok ()
  prepareEnvironment := fun _ _ _ => .ok []
  snapshotSHA256 := fun identity => List.replicate 63 '0' ++ identity.take 1
  reopens := fun _ => true

def sampleBundle (c : Char) : ValidatedBundle := ⟨List.replicate 64 c, none⟩

def sampleRecord (c : Char) : GenerationRecord :=
  generationFromBundle sampleEngine (sampleBundle c)
    ⟨(sampleBundle c).cacheName, (cacheContent sampleEngine (sampleBundle c)).sha256, .rootSnapshot⟩

def sampleIdentity : AccountIdentity := ⟨['1'], ['1'], ['/'], ['/']⟩

def sampleState : PersistentState where
  current := (sampleRecord 'a').id
  previous := []
  prepared := false
  desired := ⟨true, true⟩
  account := sampleIdentity.managed true true
  generations := AList.singleton (sampleRecord 'a').id (sampleRecord 'a')

def sampleMachine : Machine where
  state := some sampleState
  journal := none
  retained := none
  generations := Function.update (fun _ => none) (sampleRecord 'a').id
    (some (.intact (sampleBundle 'a').identity))
  caches := AList.singleton (sampleRecord 'a').cacheFile (cacheContent sampleEngine (sampleBundle 'a'))
  links := fun
    | .current => some (.generation (sampleRecord 'a').id)
    | .previous => none
    | .node => some .nodeBinary
  control := some (sampleBundle 'a').identity
  environment := some []
  secret := some []
  directories := fun _ => true
  service := ⟨true, true⟩
  registered := true
  user := some sampleIdentity
  group := true

def succeeding : ℕ → Choice := fun _ => ⟨false, false, sampleIdentity⟩

end RemnanodeLite.Rnlctl.Lifecycle
