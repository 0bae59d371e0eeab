import RemnanodeLite.Lib.Assured
import RemnanodeLite.Plugin.FilterEntries
import RemnanodeLite.Plugin.Service

/-! # Xray is reconciled before rules are removed

A core that relies on the rules is stopped, or the outbound of the torrent
blocker removed from it, before the tables are created anew without them. -/

namespace RemnanodeLite.Plugin

/-! ### Operations that remove rules -/

def stopCall (service : Service) : Option XrayCall :=
  if service.hasXray then some .stopIfOnline else none

/- The request of `reconcileTorrent` to Xray, if it makes one. -/
def reconcileCall (c : Codec) (service : Service) (previous next : Option PluginSnapshot) :
    Option XrayCall :=
  let wasEnabled := effectiveTorrentEnabled previous
  let nowEnabled := effectiveTorrentEnabled next
  if !service.hasXray then none
  else if wasEnabled && !nowEnabled && (torrentTags next).isEmpty then
    some .removeTorrentBlockerOutbound
  else if (wasEnabled && !nowEnabled) || (!wasEnabled && nowEnabled) ||
      (wasEnabled && nowEnabled &&
        hashIncludeRuleTags c (torrentTags previous) ≠ hashIncludeRuleTags c (torrentTags next)) ||
      (wasEnabled && nowEnabled && torrentPosition previous ≠ torrentPosition next) then
    some .stopIfOnline
  else none

def withFirewall (snapshot : PluginSnapshot) : PluginSnapshot := { snapshot with firewallReady := true }

/- A `Sync` that clears the plugin, cleans up after an invalid config or turns an
effective torrent blocker off, and `RecreateTables`: the request to Xray that its
reconcile step has to make. Other operations do not count. -/
def removal (c : Codec) (service : Service) : Operation → Option (Option XrayCall)
  | .sync none => some (stopCall service)
  | .sync (some request) =>
    match sameSource c service request with
    | some _ => none
    | none =>
      match buildPluginPlan c request service.asn (firewallAvailable service) with
      | .error _ => some (stopCall service)
      | .ok snapshot =>
        if effectiveTorrentEnabled service.active && !effectiveTorrentEnabled (some snapshot) then
          some (reconcileCall c service service.active (some snapshot))
        else none
  | .recreateTables => some (reconcileCall c service service.active (service.active.map withFirewall))
  | _ => none

def attempt : Option XrayCall → Bool → List Effect
  | none, _ => []
  | some call, done => [.xray call done]

def Session.Scripted (s : Session) : Prop := ∃ script done, Effect.script script done ∈ s.trace

/- Xray has refused, or the context was found to have ended. -/
def Session.Refused (s : Session) : Prop := s.ended = true ∨ ∃ call, Effect.xray call false ∈ s.trace

structure Session.Reconciled (s : Session) (required : Option XrayCall) : Prop where
  trace : s.trace = attempt required true
  ended : s.ended = false

variable {required : Option XrayCall}

theorem not_refused {s : Session} (hs : s.Reconciled required) :
    ¬ s.Refused := by
  rintro (h | ⟨call, h⟩)
  · rw [hs.ended] at h
    cases h
  · rw [hs.trace] at h
    cases required with
    | none => cases h
    | some call' => cases List.mem_singleton.mp h

/-! ### Rules -/

/- Scripts run after the reconcile step, and the program ends as `post` says. -/
abbrev Ordered {α : Type} (required : Option XrayCall) (p : PluginM α) (post : α → Session → Prop)
    (s : Session) : Prop :=
  Assures (fun _ => True) (fun s => s.Reconciled required) p post s

theorem Ordered.run {β : Type} {s : Session} {post : β → Session → Prop} {script : NftScript}
    {f : Option NftCommandError → PluginM β} (hs : s.Reconciled required)
    (h : ∀ answer t, t.Scripted → Ordered required (f answer) post t) :
    Ordered required (Plugin.run script >>= f) post s := by
  intro choice _
  refine ⟨fun _ _ => hs, ?_⟩
  change Ordered required (f (runScript script s choice.outcome).1) post
    (runScript script s choice.outcome).2
  cases choice.outcome with
  | done => exact h _ _ ⟨script, true, List.mem_cons_self⟩
  | failed tookEffect error =>
    cases tookEffect with
    | true | false => exact h _ _ ⟨script, false, List.mem_cons_self⟩

/-! ### The firewall -/

section
variable {c : Codec} {required : Option XrayCall} {s : Session}

def Session.Same (s t : Session) : Prop := t.trace = s.trace ∧ t.ended = s.ended

theorem Session.Same.scripted {t : Session} (h : s.Same t) (hs : s.Scripted) : t.Scripted := by
  obtain ⟨script, done, hmem⟩ := hs
  exact ⟨script, done, h.1 ▸ hmem⟩

theorem ordered_setNft {change : NftManager → NftManager} :
    Ordered required (setNft change) (fun _ t => s.Same t) s :=
  .load (.store ⟨rfl, rfl⟩)

theorem ordered_commitSnapshot {snapshot : Option PluginSnapshot} :
    Ordered required (commitSnapshot snapshot) (fun _ t => s.Same t) s :=
  .load (.store ⟨rfl, rfl⟩)

theorem ordered_degradeUnlessAvailable {desired : Option PluginSnapshot} :
    Ordered required (degradeUnlessAvailable desired) (fun _ t => s.Same t) s := by
  refine Assures.load ?_
  split_ifs
  · exact .ret ⟨rfl, rfl⟩
  · exact ordered_commitSnapshot

theorem Session.Same.reconciled {t : Session} (h : s.Same t) (hs : s.Reconciled required) :
    t.Reconciled required :=
  ⟨h.1.trans hs.trace, h.2.trans hs.ended⟩

theorem ordered_reset {config : FirewallConfig} (hs : s.Reconciled required) :
    Ordered required (Nft.reset c config)
      (fun answer t => t.Scripted ∨ s.Same t ∧ answer.isSome = true) s := by
  have hnothing : s.Same s := ⟨rfl, rfl⟩
  refine Assures.load ?_
  cases s.service.nft with
  | none => exact .ret (.inr ⟨hnothing, rfl⟩)
  | some m =>
    dsimp only
    split_ifs
    · exact .ret (.inr ⟨hnothing, rfl⟩)
    · unfold install
      cases validateNFTScript (renderNFTConfig c config m.options) with
      | error message => exact .ret (.inr ⟨hnothing, rfl⟩)
      | ok u =>
        refine Assures.bind ordered_setNft fun _ t ht => ?_
        refine Ordered.run (ht.reconciled hs) fun answer t hscripted => ?_
        cases answer with
        | none | some error =>
          exact ordered_setNft.bind fun _ t' ht' => .ret (.inl (ht'.scripted hscripted))

/-! ### The whole step -/

/- If the step was refused and no script has run, the snapshot is the one of the start. -/
def Session.Settled (active : Option PluginSnapshot) (t : Session) : Prop :=
  t.Refused → ¬ t.Scripted → t.service.active = active

variable {active previous next : Option PluginSnapshot}

theorem settled_of_scripted (h : s.Scripted) : s.Settled active :=
  fun _ hnot => absurd h hnot

theorem settled_of_reconciled (h : s.Reconciled required) : s.Settled active :=
  fun hrefused _ => absurd hrefused (not_refused h)

theorem settled_of_same (h : s.service.active = active) : s.Settled active := fun _ _ => h

theorem ordered_abandonFirewall {error : NftError} (h : s.Scripted ∨ s.Reconciled required) :
    Ordered required (abandonFirewall c previous next true error) (fun _ t => t.Settled active) s := by
  refine ordered_degradeUnlessAvailable.bind fun _ t ht => .ret ?_
  rcases h with h | h
  · exact settled_of_scripted (ht.scripted h)
  · exact settled_of_reconciled (ht.reconciled h)

variable {reconcile : Option Reconcile} {snapshot : PluginSnapshot}

theorem reconcileIf_not_now :
    reconcileIf (!true) reconcile previous next = pure true := by
  cases reconcile with
  | none => rfl
  | some reconcile => rfl

theorem ordered_finishSnapshot_scripted (h : s.Scripted) :
    Ordered required (finishSnapshot c previous next reconcile true true true)
      (fun _ t => t.Settled active) s := by
  refine Assures.contextError fun _ _ ended _ => ?_
  cases ended with
  | true => exact ordered_commitSnapshot.bind fun _ t ht => .ret (settled_of_scripted (ht.scripted h))
  | false =>
    rw [reconcileIf_not_now]
    exact ordered_commitSnapshot.bind fun _ t ht => .ret (settled_of_scripted (ht.scripted h))

theorem ordered_finishSnapshot_skipped (h : s.Reconciled required)
    (hactive : s.service.active = active) :
    Ordered required (finishSnapshot c previous next reconcile true true false)
      (fun _ t => t.Settled active) s := by
  refine Assures.contextError fun _ _ ended _ => ?_
  cases ended with
  | true => exact .ret (settled_of_same hactive)
  | false =>
    rw [reconcileIf_not_now]
    have hrec : ({ s with ended := false } : Session).Reconciled required := ⟨h.trace, rfl⟩
    exact ordered_commitSnapshot.bind fun _ t ht => .ret (settled_of_reconciled (ht.reconciled hrec))

def Asks (required : Option XrayCall) (service : Service) (step : PluginM Bool) : Prop :=
  ∀ s : Session, s.service = service → s.trace = [] → s.ended = false →
    Ordered required step (fun done t => t.service = service ∧ t.trace = attempt required done ∧
      t.ended = false ∧ (required = none → done = true)) s

theorem ordered_applySnapshot {reconcile : Reconcile} {forceReset : Bool}
    (hreset : resetsFirewall s.service.active next forceReset = true)
    (hreconcile : Asks required s.service (reconcile s.service.active next))
    (htrace : s.trace = []) :
    Ordered required (applySnapshotWithOrder c next (some reconcile) true forceReset)
      (fun _ t => t.Settled s.service.active) s := by
  refine Assures.load (Assures.contextError fun _ _ ended _ => ?_)
  cases ended with
  | true => exact .ret (settled_of_same rfl)
  | false =>
    refine Assures.bind (hreconcile { s with ended := false } rfl htrace rfl) fun done t ht => ?_
    obtain ⟨hservice, hdone, hlasts, -⟩ := ht
    have hactive : t.service.active = s.service.active := by rw [hservice]
    cases done with
    | false => exact .ret (settled_of_same hactive)
    | true =>
      refine Assures.contextError fun _ _ ended _ => ?_
      cases ended with
      | true => exact .ret (settled_of_same hactive)
      | false =>
        have hrec : ({ t with ended := false } : Session).Reconciled required := ⟨hdone, rfl⟩
        refine Assures.load ?_
        simp only [hreset, applyFirewall, if_true]
        split_ifs
        · refine (ordered_reset hrec).bind fun answer t' ht' => ?_
          cases answer with
          | some error =>
            refine ordered_abandonFirewall ?_
            exact ht'.imp id fun h => h.1.reconciled hrec
          | none =>
            refine ordered_finishSnapshot_scripted ?_
            exact ht'.resolve_right fun h => nomatch h.2
        · exact ordered_finishSnapshot_skipped hrec hactive

/-! ### The operations -/

theorem asks_stopXray {service : Service} :
    Asks (stopCall service) service (stopXray previous next) := by
  rintro s rfl htrace hended
  refine Assures.load ?_
  unfold stopCall
  split_ifs
  · refine Assures.xray fun done => ⟨rfl, ?_, hended, nofun⟩
    rw [htrace]
    rfl
  · exact .ret ⟨rfl, htrace, hended, fun _ => rfl⟩

theorem asks_reconcileTorrent {service : Service} :
    Asks (reconcileCall c service previous next) service (reconcileTorrent c previous next) := by
  rintro s rfl htrace hended
  refine Assures.load ?_
  unfold reconcileCall
  dsimp only
  split_ifs
  · exact .ret ⟨rfl, htrace, hended, fun _ => rfl⟩
  · refine Assures.xray fun done => ⟨rfl, ?_, hended, nofun⟩
    rw [htrace]
    rfl
  · refine Assures.xray fun done => ⟨rfl, ?_, hended, nofun⟩
    rw [htrace]
    rfl
  · exact .ret ⟨rfl, htrace, hended, fun _ => rfl⟩

theorem ordered_acquireMutation {β : Type} {f : Option ServiceError → PluginM β}
    {post : β → Session → Prop} (hended : s.ended = false)
    (hadmitted : Ordered required (f none) post s)
    (hrejected : ∀ error t, t.service = s.service → Ordered required (f (some error)) post t) :
    Ordered required (acquireMutation >>= f) post s := by
  refine Assures.bind ?_ fun answer t (ht : t.service = s.service ∧ (answer = none → t = s)) => ?_
  · refine Assures.load ?_
    split_ifs
    · exact .ret ⟨rfl, nofun⟩
    · refine Assures.contextError fun _ _ ended _ => ?_
      cases ended with
      | true => exact .ret ⟨rfl, nofun⟩
      | false =>
        refine Assures.load ?_
        split_ifs
        · exact .ret ⟨rfl, nofun⟩
        · refine .ret ⟨rfl, fun _ => ?_⟩
          rw [← hended]
  · cases answer with
    | none => exact ht.2 rfl ▸ hadmitted
    | some error => exact hrejected error t ht.1

variable {request : Option SyncPlugin}

theorem ordered_clearPlugin (htrace : s.trace = []) :
    Ordered (stopCall s.service) (clearPlugin c) (fun _ t => t.Settled s.service.active) s := by
  refine Assures.load ?_
  split_ifs
  · exact .ret (settled_of_same rfl)
  · have hreset : resetsFirewall s.service.active none false = true := rfl
    exact (ordered_applySnapshot hreset asks_stopXray htrace).bind fun _ _ ht => .ret ht

theorem effective_of_behaviorEqual (h : pluginSnapshotsBehaviorEqual c active snapshot = true) :
    effectiveTorrentEnabled active = effectiveTorrentEnabled (some snapshot) := by
  cases active with
  | none => cases h
  | some left =>
    simp only [pluginSnapshotsBehaviorEqual, torrentSettingsEqual, Bool.and_eq_true,
      decide_eq_true_eq] at h
    obtain ⟨⟨⟨⟨⟨hready, -⟩, ⟨⟨⟨⟨⟨⟨henabled, -⟩, -⟩, -⟩, -⟩, -⟩, -⟩⟩, -⟩, -⟩, -⟩ := h
    rw [effectiveTorrentEnabled, effectiveTorrentEnabled, hready, henabled]

theorem resetsFirewall_some : resetsFirewall active (some snapshot) false =
    (effectiveTorrentEnabled active && !effectiveTorrentEnabled (some snapshot)) := by
  simp [resetsFirewall]

theorem ordered_publishPlan (htrace : s.trace = [])
    (hoff : (effectiveTorrentEnabled s.service.active && !effectiveTorrentEnabled (some snapshot)) = true) :
    Ordered (reconcileCall c s.service s.service.active (some snapshot)) (publishPlan c snapshot)
      (fun _ t => t.Settled s.service.active) s := by
  have hreset := resetsFirewall_some.trans hoff
  have hdiffers : ¬ pluginSnapshotsBehaviorEqual c s.service.active snapshot = true := by
    intro hequal
    rw [effective_of_behaviorEqual hequal, Bool.and_not_self] at hoff
    cases hoff
  refine Assures.load ?_
  dsimp only
  rw [if_neg hdiffers, hoff]
  exact (ordered_applySnapshot hreset asks_reconcileTorrent htrace).bind fun _ _ ht => .ret ht

theorem ordered_syncPlugin {request : SyncPlugin} (htrace : s.trace = [])
    (hremoval : removal c s.service (.sync (some request)) = some required) :
    Ordered required (syncPlugin c request) (fun _ t => t.Settled s.service.active) s := by
  refine Assures.load ?_
  rw [removal] at hremoval
  cases hsource : sameSource c s.service request with
  | some snapshot =>
    rw [hsource] at hremoval
    cases hremoval
  | none =>
    rw [hsource] at hremoval
    refine Assures.contextError fun _ _ ended _ => ?_
    cases ended with
    | true => exact .ret (settled_of_same rfl)
    | false =>
      dsimp only at hremoval ⊢
      cases hplan : buildPluginPlan c request s.service.asn (firewallAvailable s.service) with
      | error message =>
        rw [hplan] at hremoval
        cases hremoval
        have hreset : resetsFirewall s.service.active none false = true := rfl
        refine Assures.bind (ordered_applySnapshot hreset ?_ htrace) fun _ _ ht => .ret ht
        exact asks_stopXray
      | ok snapshot =>
        rw [hplan] at hremoval
        dsimp only at hremoval
        split_ifs at hremoval with hoff
        cases hremoval
        exact ordered_publishPlan htrace hoff

theorem ordered_syncContext (htrace : s.trace = []) (hended : s.ended = false)
    (hremoval : removal c s.service (.sync request) = some required) :
    Ordered required (syncContext c request) (fun _ t => t.Settled s.service.active) s := by
  refine ordered_acquireMutation hended ?_ fun error t ht => .ret (settled_of_same (by rw [ht]))
  refine Assures.load ?_
  split_ifs
  · exact .ret (settled_of_same rfl)
  · cases request with
    | none =>
      cases hremoval
      exact ordered_clearPlugin htrace
    | some request => exact ordered_syncPlugin htrace hremoval

theorem ordered_recreateTablesContext (htrace : s.trace = []) (hended : s.ended = false) :
    Ordered (reconcileCall c s.service s.service.active (s.service.active.map withFirewall))
      (recreateTablesContext c) (fun _ t => t.Settled s.service.active) s := by
  refine ordered_acquireMutation hended ?_ fun error t ht => .ret (settled_of_same (by rw [ht]))
  refine Assures.load ?_
  dsimp only
  split_ifs
  · exact .ret (settled_of_same rfl)
  · have hreset : resetsFirewall s.service.active (s.service.active.map withFirewall) true = true := rfl
    exact (ordered_applySnapshot hreset asks_reconcileTorrent htrace).bind fun _ _ ht => .ret ht

theorem ordered_program {operation : Operation} (htrace : s.trace = []) (hended : s.ended = false)
    (hremoval : removal c s.service operation = some required) :
    Ordered required (operation.program c) (fun _ t => t.Settled s.service.active) s := by
  cases operation with
  | sync request => exact (ordered_syncContext htrace hended hremoval).bind fun _ _ ht => .ret ht
  | recreateTables =>
    cases hremoval
    exact (ordered_recreateTablesContext htrace hended).bind fun _ _ ht => .ret ht
  | initializeContext => cases hremoval
  | resetPlugins => cases hremoval
  | blockIPs items => cases hremoval
  | unblockIPs ips => cases hremoval
  | xrayWebhook payload => cases hremoval
  | close => cases hremoval

end

def Session.Halted (s : Session) : Prop := s.Refused ∧ ¬ s.Scripted

theorem halted_kept (call : Program.Call Op Session Choice)
    (hcall : ∀ script, call.op = .script script → call.before.Reconciled required)
    (h : call.before.Halted) : (call.after handle).Halted := by
  obtain ⟨op, s, choice⟩ := call
  cases op with
  | contextError =>
    refine ⟨h.1.imp (fun hended => ?_) id, h.2⟩
    have hended' : s.ended = true := hended
    show (s.ended || choice.ended) = true
    rw [hended', Bool.true_or]
  | load => exact h
  | store service => exact h
  | script script => exact absurd h.1 (not_refused (hcall script rfl))
  | xray call =>
    refine ⟨h.1.imp id fun ⟨call', hmem⟩ => ⟨call', List.mem_cons_of_mem _ hmem⟩, ?_⟩
    rintro ⟨script, done, hmem⟩
    rcases List.mem_cons.mp hmem with heq | hmem
    · cases heq
    · exact h.2 ⟨script, done, hmem⟩

/-- In an operation that removes rules, a script runs only after Xray has done what
the reconcile step asks for; once Xray refuses or the context is found to have
ended before that, no script runs and the snapshot stays. -/
theorem removal_reconciles_first (c : Codec) (w : World) (e : Event) (required : Option XrayCall)
    (h : removal c w.service e.operation = some required) :
    (∀ call ∈ (e.operation.program c).calls handle e.choices w.session, ∀ script,
      call.op = .script script → call.before.Reconciled required) ∧
    ∀ s ∈ (e.operation.program c).trail handle e.choices w.session, s.Refused → ¬ s.Scripted →
      let t := ((e.operation.program c).run handle e.choices w.session).2
      ¬ t.Scripted ∧ t.service.active = w.service.active := by
  have hordered := ordered_program (s := w.session) rfl rfl h
  refine ⟨Program.assured_guar hordered e.choices fun _ _ => trivial, fun s hs hrefused hscripted => ?_⟩
  have hend : Session.Halted _ := Program.assured_kept hordered halted_kept e.choices
    (fun _ _ => trivial) s hs ⟨hrefused, hscripted⟩
  have hsettled := Program.assured_run hordered e.choices fun _ _ => trivial
  exact ⟨hend.2, hsettled hend.1 hend.2⟩

/- A plugin is active, the backend is healthy and there is a core. -/
def filteringWorld : World :=
  ⟨{ newService (some ⟨true, true, true, ⟨false, false⟩⟩) true none with
    initialized := true, active := some (blockedSnapshot ["10.0.0.0/8"]) }, fun _ => ∅⟩

/-- The theorem for a `Sync` that clears the plugin, with a run in which the core is
stopped and the script follows. -/
theorem removal_reconciles_first_clear :
    (((Operation.sync none).program (plainCodec [])).run handle (fun _ => ⟨false, .done, true⟩)
      filteringWorld.session).2.trace.length = 2 ∧
    ∀ choices : ℕ → Choice, ∀ call ∈ ((Operation.sync none).program (plainCodec [])).calls handle
      choices filteringWorld.session, ∀ script, call.op = .script script →
        call.before.Reconciled (some .stopIfOnline) :=
  ⟨by decide +kernel, fun choices => (removal_reconciles_first (plainCodec []) filteringWorld
    ⟨.sync none, choices⟩ (some .stopIfOnline) rfl).1⟩

end RemnanodeLite.Plugin
