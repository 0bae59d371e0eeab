import RemnanodeLite.Lib.Assured
import RemnanodeLite.Lib.Transition
import RemnanodeLite.Plugin.FilterEntries
import RemnanodeLite.Plugin.Publishing

/-! # The fast path of `Sync`

A request with the source bytes of the active snapshot is not planned again. The
snapshot is still what a plan of these bytes would be, however often it has been
renamed, degraded or recovered since it was made. -/

namespace RemnanodeLite.Plugin
open Transition

/-! ### The slow path -/

/- `syncPlugin` without its fast path. -/
def planSync (c : Codec) (request : SyncPlugin) : PluginM Bool := do
  let service ← load
  let plan := buildPluginPlan c request service.asn (firewallAvailable service)
  if ← contextError then
    return false
  match plan with
  | .error _ =>
    let _ ← applySnapshotWithOrder c none (some stopXray) true false
    return false
  | .ok snapshot => publishPlan c snapshot

/- `SyncContext` without its fast path. -/
def planContext (c : Codec) (request : SyncPlugin) : PluginM Bool := do
  if (← acquireMutation).isSome then
    return false
  if (ready (← load)).isSome then
    return false
  planSync c request

/-! ### Plans and readiness -/

section
variable {c : Codec} {request : SyncPlugin} {asn : ASNResolver} {ready : Bool} {snapshot : PluginSnapshot}

/- The snapshot with what a plan of the same bytes can differ in. -/
def PluginSnapshot.adjust (snapshot : PluginSnapshot) (uuid name : String) (ready : Bool) : PluginSnapshot :=
  { snapshot with pluginUUID := uuid, pluginName := name, firewallReady := ready }

/- Nothing in a plan but the flag depends on the readiness of the firewall, and
the name of the plugin is copied. -/
theorem plan_spec (h : buildPluginPlan c request asn ready = .ok snapshot) :
    snapshot.sourceHash = c.sha256 request.config ∧ snapshot.firewallReady = ready ∧
      ∀ uuid name ready', buildPluginPlan c ⟨uuid, name, request.config⟩ asn ready' =
        .ok (snapshot.adjust uuid name ready') := by
  obtain ⟨⟨config, configHash⟩, hdecode, hplan⟩ := Fallible.bind_ok_iff.mp h
  obtain ⟨shared, hshared, hplan⟩ := Fallible.bind_ok_iff.mp hplan
  obtain ⟨⟨whitelist, budget⟩, hwhitelist, hplan⟩ := Fallible.bind_ok_iff.mp hplan
  obtain ⟨⟨ignored, budget'⟩, hignored, hplan⟩ := Fallible.bind_ok_iff.mp hplan
  obtain ⟨⟨ingress, budget''⟩, hingress, hplan⟩ := Fallible.bind_ok_iff.mp hplan
  obtain ⟨⟨egress, rest⟩, hegress, hplan⟩ := Fallible.bind_ok_iff.mp hplan
  cases hplan
  refine ⟨rfl, rfl, fun uuid name ready' => ?_⟩
  refine Fallible.bind_ok_iff.mpr ⟨_, hdecode, ?_⟩
  refine Fallible.bind_ok_iff.mpr ⟨_, hshared, ?_⟩
  refine Fallible.bind_ok_iff.mpr ⟨_, hwhitelist, ?_⟩
  refine Fallible.bind_ok_iff.mpr ⟨_, hignored, ?_⟩
  refine Fallible.bind_ok_iff.mpr ⟨_, hingress, ?_⟩
  exact Fallible.bind_ok_iff.mpr ⟨_, hegress, rfl⟩

end

/-! ### Every snapshot is the plan of its bytes -/

def PlannedFrom (c : Codec) (configs : Set String) (asn : ASNResolver) (snapshot : PluginSnapshot) : Prop :=
  ∃ request : SyncPlugin, request.config ∈ configs ∧
    buildPluginPlan c request asn snapshot.firewallReady = .ok snapshot

def AllPlanned (c : Codec) (configs : Set String) (asn : ASNResolver) (active : Option PluginSnapshot) :
    Prop :=
  ∀ snapshot, active = some snapshot → PlannedFrom c configs asn snapshot

def Planned (c : Codec) (configs : Set String) (asn : ASNResolver) (service : Service) : Prop :=
  service.asn = asn ∧ AllPlanned c configs asn service.active

section
variable {c : Codec} {configs : Set String} {asn : ASNResolver} {snapshot : PluginSnapshot}
  {active previous next : Option PluginSnapshot}

theorem PlannedFrom.adjust (h : PlannedFrom c configs asn snapshot) (uuid name : String) (ready : Bool) :
    PlannedFrom c configs asn (snapshot.adjust uuid name ready) := by
  obtain ⟨request, hconfig, hplan⟩ := h
  exact ⟨⟨uuid, name, request.config⟩, hconfig, (plan_spec hplan).2.2 uuid name ready⟩

theorem AllPlanned.withReady (h : AllPlanned c configs asn active) (ready : Bool) :
    AllPlanned c configs asn (active.map fun snapshot => { snapshot with firewallReady := ready }) := by
  intro snapshot hsnapshot
  obtain ⟨snapshot', hactive, rfl⟩ := Option.map_eq_some_iff.mp hsnapshot
  exact (h snapshot' hactive).adjust snapshot'.pluginUUID snapshot'.pluginName ready

theorem AllPlanned.none : AllPlanned c configs asn none := nofun

theorem AllPlanned.some (h : PlannedFrom c configs asn snapshot) :
    AllPlanned c configs asn (some snapshot) := by
  intro snapshot' heq
  exact Option.some.inj heq ▸ h

/-- Whatever the environment does, the service keeps to snapshots that are plans. -/
theorem sustained_planned : Sustained (Planned c configs asn) (AllPlanned c configs asn) where
  nft := fun _ _ h => h
  unread := fun _ _ _ h => h
  commit := fun _ _ h hnext => ⟨h.1, hnext⟩
  active := fun _ h => h.2
  none := .none
  degraded := fun _ h => h.withReady false

theorem plannable {request : SyncPlugin} (hconfig : request.config ∈ configs) :
    Plannable c (Planned c configs asn) (AllPlanned c configs asn) request := by
  refine ⟨fun service previous h hactive => ?_, fun service snapshot h hplan => ?_⟩
  · exact .some ((h.2 previous hactive).adjust request.uuid request.name previous.firewallReady)
  · have hready := (plan_spec hplan).2.1
    rw [h.1, ← hready] at hplan
    exact .some ⟨request, hconfig, hplan⟩

end

def Requests (configs : Set String) (_ : World) (e : Event) : Prop :=
  ∀ request, e.operation = .sync (some request) → request.config ∈ configs

theorem planned_of_run {c : Codec} {configs : Set String} {nft : Option NftManager} {hasXray : Bool}
    {asn : ASNResolver} {kernel : Kernel} {w : World}
    (h : Steps (step c) (Requests configs) ⟨newService nft hasXray asn, kernel⟩ w) :
    Planned c configs asn w.service := by
  refine h.invariant (fun w => Planned c configs asn w.service) ⟨rfl, .none⟩ ?_
  intro a e b ha hrequests hstep
  obtain rfl := Option.some.inj hstep
  have hkeeps : Sustains (Planned c configs asn) (e.operation.program c) :=
    sustained_planned.program (fun _ h => h.withReady true) (fun _ => plannable) (fun _ _ _ _ h => h) hrequests
  exact Program.wp_run (Program.Stable.wp hkeeps ha) e.choices

/-! ### With a context that lasts -/

/- As long as the context lasts, the program ends so. -/
abbrev Live {α : Type} (p : PluginM α) (post : α → Session → Prop) (s : Session) : Prop :=
  Assures (fun choice => choice.ended = false) (fun _ => True) p post s

section
variable {c : Codec} {request : SyncPlugin} {previous : PluginSnapshot} {s : Session}

theorem live_contextError {β : Type} {f : Bool → PluginM β} {post : β → Session → Prop}
    (hs : s.ended = false) (h : Live (f false) post s) : Live (contextError >>= f) post s := by
  refine Assures.contextError fun choice hchoice ended hended => ?_
  rw [hs, hchoice, Bool.or_self] at hended
  have hsame : ({ s with ended := ended } : Session) = s := by rw [hended, ← hs]
  rw [hsame, hended]
  exact h

def Session.publish (s : Session) (snapshot : PluginSnapshot) : Session :=
  { s with service := { s.service with active := some snapshot } }

theorem live_commitSnapshot (snapshot : PluginSnapshot) :
    Live (do commitSnapshot (some snapshot); return true) (fun a t => a = true ∧ t = s.publish snapshot) s :=
  Assures.load (.bind (.store rfl) fun _ _ ht => .ret ⟨rfl, ht⟩)

theorem live_admitted {p : PluginM Bool} {post : Bool → Session → Prop} (hs : s.ended = false)
    (hclosing : s.service.closing = false) (hready : ready s.service = none) (h : Live p post s) :
    Live (do
      if (← acquireMutation).isSome then
        return false
      if (ready (← load)).isSome then
        return false
      p) post s := by
  have hacquire : Live acquireMutation (fun answer t => answer = none ∧ t = s) s := by
    refine Assures.load ?_
    rw [hclosing]
    refine live_contextError hs (Assures.load ?_)
    simp only [Bool.false_eq_true, if_false, hclosing]
    exact ⟨rfl, rfl⟩
  refine hacquire.bind fun answer t ht => ?_
  obtain ⟨rfl, rfl⟩ := ht
  refine Assures.load ?_
  rw [hready]
  exact h

theorem live_fastPath (hs : s.ended = false) (h : sameSource c s.service request = some previous) :
    Live (syncPlugin c request) (fun a t => a = true ∧
      t = s.publish { previous with pluginUUID := request.uuid, pluginName := request.name }) s := by
  refine Assures.load ?_
  rw [h]
  exact live_contextError hs (live_commitSnapshot _)

theorem behaviorEqual_renamed (snapshot : PluginSnapshot) (uuid name : String) :
    pluginSnapshotsBehaviorEqual c (some snapshot)
      { snapshot with pluginUUID := uuid, pluginName := name } = true := by
  simp [pluginSnapshotsBehaviorEqual, torrentSettingsEqual, firewallConfigsEqual, IpMatcher.equal]

theorem live_planSync (hs : s.ended = false) (hactive : s.service.active = some previous)
    (hplan : buildPluginPlan c request s.service.asn (firewallAvailable s.service) =
      .ok { previous with pluginUUID := request.uuid, pluginName := request.name }) :
    Live (planSync c request) (fun a t => a = true ∧
      t = s.publish { previous with pluginUUID := request.uuid, pluginName := request.name }) s := by
  refine Assures.load (live_contextError hs ?_)
  rw [hplan]
  refine Assures.load ?_
  rw [hactive]
  dsimp only
  rw [if_pos (behaviorEqual_renamed previous request.uuid request.name)]
  exact live_commitSnapshot _

theorem PlannedFrom.plan_eq {configs : Set String} {asn : ASNResolver}
    (h : PlannedFrom c configs asn previous)
    (hdistinct : ∀ config ∈ configs, c.sha256 config = c.sha256 request.config → config = request.config)
    (hhash : previous.sourceHash = c.sha256 request.config) :
    buildPluginPlan c request asn previous.firewallReady =
      .ok { previous with pluginUUID := request.uuid, pluginName := request.name } := by
  obtain ⟨original, hconfig, hplan⟩ := h
  obtain ⟨hsource, -, hadjust⟩ := plan_spec hplan
  have hsame := hdistinct original.config hconfig (hsource.symm.trans hhash)
  have hrequest := hadjust request.uuid request.name previous.firewallReady
  rw [hsame] at hrequest
  exact hrequest

end

/-- In every run, a `Sync` that takes the fast path while its context lasts does what
planning the request would do, provided that no other config of the run has the
hash of this one: both are accepted, neither runs a script or calls Xray, and the
services they leave, snapshots included, are equal. -/
theorem fastPath_eq_plan (c : Codec) (configs : Set String) (nft : Option NftManager) (hasXray : Bool)
    (asn : ASNResolver) (kernel : Kernel) (w : World)
    (hrun : Steps (step c) (Requests configs) ⟨newService nft hasXray asn, kernel⟩ w)
    (request : SyncPlugin)
    (hdistinct : ∀ config ∈ configs, c.sha256 config = c.sha256 request.config → config = request.config)
    (previous : PluginSnapshot) (hclosing : w.service.closing = false) (hready : ready w.service = none)
    (hsource : sameSource c w.service request = some previous) (choices choices' : ℕ → Choice)
    (hlive : ∀ n, (choices n).ended = false) (hlive' : ∀ n, (choices' n).ended = false) :
    let fast := (syncContext c (some request)).run handle choices w.session
    let slow := (planContext c request).run handle choices' w.session
    fast.1 = true ∧ slow.1 = true ∧ fast.2.trace = [] ∧ slow.2.trace = [] ∧
      slow.2.kernel = w.kernel ∧ slow.2.service = fast.2.service := by
  obtain ⟨hactive, hhash, havailable⟩ :=
    sameSource_eq_some (show sameSource c w.session.service request = some previous from hsource)
  obtain ⟨hasn, hplanned⟩ : Planned c configs asn w.session.service := planned_of_run hrun
  have hplan : buildPluginPlan c request w.session.service.asn (firewallAvailable w.session.service) =
      .ok { previous with pluginUUID := request.uuid, pluginName := request.name } := by
    rw [hasn, ← havailable]
    exact (hplanned previous hactive).plan_eq hdistinct hhash
  have hrely : ∀ {p : PluginM Bool} (stream : ℕ → Choice), (∀ n, (stream n).ended = false) →
      ∀ call ∈ p.calls handle stream w.session, call.choice.ended = false := by
    intro p stream hstream call hcall
    obtain ⟨n, hn⟩ := Program.choice_of_calls hcall
    rw [hn]
    exact hstream n
  have hfast := Program.assured_run (live_admitted rfl hclosing hready
    (live_fastPath (s := w.session) rfl hsource)) choices (hrely choices hlive)
  have hslow := Program.assured_run (live_admitted rfl hclosing hready
    (live_planSync (s := w.session) rfl hactive hplan)) choices' (hrely choices' hlive')
  obtain ⟨hfast1, hfast2⟩ := hfast
  obtain ⟨hslow1, hslow2⟩ := hslow
  refine ⟨hfast1, hslow1, ?_, ?_, ?_, ?_⟩
  · exact (congrArg Session.trace hfast2).trans rfl
  · exact (congrArg Session.trace hslow2).trans rfl
  · exact (congrArg Session.kernel hslow2).trans rfl
  · exact (congrArg Session.service hslow2).trans (congrArg Session.service hfast2).symm

/- The tables are set up and a config is synced. -/
def filteringRun : List Event :=
  let lasts : ℕ → Choice := fun _ => ⟨false, .done, true⟩
  [⟨.initializeContext, lasts⟩, ⟨.sync (some ⟨"uuid", "name", "config"⟩), lasts⟩]

theorem filteringRun_active :
    (Transition.run (step (plainCodec (blockedConfig ["10.0.0.0/8"])))
      ⟨newService (some (newNFTManager true ⟨false, false⟩)) true none, fun _ => ∅⟩ filteringRun).any
      (fun w => w.service.closing = false && ready w.service = none &&
        sameSource (plainCodec (blockedConfig ["10.0.0.0/8"])) w.service ⟨"uuid", "other", "config"⟩ =
          some (blockedSnapshot ["10.0.0.0/8"])) = true := by
  decide +kernel

/-- The theorem for a config that is synced again under another name. -/
theorem fastPath_eq_plan_renamed : ∃ w,
    Steps (step (plainCodec (blockedConfig ["10.0.0.0/8"]))) (Requests {"config"})
      ⟨newService (some (newNFTManager true ⟨false, false⟩)) true none, fun _ => ∅⟩ w ∧
    let choices : ℕ → Choice := fun _ => ⟨false, .done, true⟩
    let request : SyncPlugin := ⟨"uuid", "other", "config"⟩
    let c := plainCodec (blockedConfig ["10.0.0.0/8"])
    ((planContext c request).run handle choices w.session).2.service =
      ((syncContext c (some request)).run handle choices w.session).2.service := by
  obtain ⟨w, hrun, hw⟩ := (Option.any_eq_true _ _).mp filteringRun_active
  simp only [Bool.and_eq_true, decide_eq_true_eq] at hw
  obtain ⟨⟨hclosing, hready⟩, hsource⟩ := hw
  have hrequests : ∀ e ∈ filteringRun, ∀ a, Requests {"config"} a e := by
    intro e he a request hrequest
    simp only [filteringRun, List.mem_cons, List.not_mem_nil, or_false] at he
    rcases he with rfl | rfl
    · cases hrequest
    · cases hrequest
      rfl
  have hsteps := run_guarded filteringRun hrequests hrun
  refine ⟨w, hsteps, ?_⟩
  exact (fastPath_eq_plan (plainCodec (blockedConfig ["10.0.0.0/8"])) {"config"}
    (some (newNFTManager true ⟨false, false⟩)) true none (fun _ => ∅) w hsteps ⟨"uuid", "other", "config"⟩
    (fun config hconfig _ => hconfig) _ hclosing hready hsource _ _ (fun _ => rfl) fun _ => rfl).2.2.2.2.2

end RemnanodeLite.Plugin
