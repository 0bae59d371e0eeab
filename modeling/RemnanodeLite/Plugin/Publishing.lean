import RemnanodeLite.Plugin.Upkeep

/-! # What the operations make of the service

Whatever the environment does, an operation changes the service in few ways: it publishes a
snapshot, adds a report, marks the service as initialized or changes the state of the firewall
backend. What allows these changes holds throughout. -/

namespace RemnanodeLite.Plugin

/-- A property of the service that allows the changes the operations make, where every snapshot
that may be published is `good`. -/
structure Sustained (P : Service → Prop) (good : Option PluginSnapshot → Prop) : Prop where
  nft : ∀ service nft, P service → P { service with nft := nft }
  unread : ∀ service initialized reports, P service →
    P { service with initialized := initialized, reports := reports }
  commit : ∀ service snapshot, P service → good snapshot → P { service with active := snapshot }
  active : ∀ service, P service → good service.active
  none : good none
  degraded : ∀ snapshot, good snapshot → good (snapshot.map fun x => { x with firewallReady := false })

def Sustains (P : Service → Prop) {α : Type} (p : PluginM α) : Prop :=
  Program.Stable handle (fun s => P s.service) p

section
variable {P : Service → Prop} {good : Option PluginSnapshot → Prop} {c : Codec}
  {previous next : Option PluginSnapshot} {α β : Type}

theorem Sustains.pure (a : α) : Sustains P (Pure.pure a : PluginM α) := trivial

theorem Sustains.bind {p : PluginM α} {f : α → PluginM β} (hp : Sustains P p)
    (hf : ∀ a, Sustains P (f a)) : Sustains P (p >>= f) :=
  Program.Stable.bind hp hf

theorem Sustains.of_bind {p : PluginM α} {f : α → PluginM β} (h : Sustains P (p >>= f)) :
    Sustains P p := by
  induction p with
  | ret a => trivial
  | call op k ih => exact fun s e hs => ⟨(h s e hs).1, ih _ (h s e hs).2⟩

theorem Sustains.load {f : Service → PluginM β}
    (h : ∀ service, P service → Sustains P (f service)) : Sustains P (Plugin.load >>= f) :=
  stable_load fun s hs => h s.service hs

theorem Sustains.store {service : Service} (h : P service) : Sustains P (store service) :=
  fun _ _ _ => ⟨h, trivial⟩

theorem Sustains.xray (call : XrayCall) : Sustains P (xray call) := fun _ _ hs => ⟨hs, trivial⟩

theorem Sustains.contextError {f : Bool → PluginM β} (h : ∀ ended, Sustains P (f ended)) :
    Sustains P (contextError >>= f) :=
  fun _ _ hs => ⟨hs, h _⟩

theorem Sustained.beside (h : Sustained P good) : Beside fun s => P s.service := by
  refine ⟨fun _ _ hs => hs, ?_, fun _ s' nft _ hs' => h.nft s'.service nft hs'⟩
  intro script s outcome hs
  cases outcome with
  | done => exact hs
  | failed tookEffect error => cases tookEffect <;> exact hs

theorem Sustained.commitSnapshot (h : Sustained P good) (hnext : good next) :
    Sustains P (commitSnapshot next) :=
  .load fun service hs => .store (h.commit service next hs hnext)

theorem Sustained.degradeUnlessAvailable (h : Sustained P good) (hnext : good next) :
    Sustains P (degradeUnlessAvailable next) := by
  refine .load fun service _ => ?_
  split
  · exact .pure _
  · exact h.commitSnapshot (h.degraded next hnext)

theorem Sustained.degrading (h : Sustained P good) (hnext : good next) (a : α) :
    Sustains P (do Plugin.degradeUnlessAvailable next; return a) :=
  (h.degradeUnlessAvailable hnext).bind fun _ => .pure _

theorem sustains_stopXray : Sustains P (stopXray previous next) := by
  refine .load fun service _ => ?_
  split
  · exact .xray _
  · exact .pure _

theorem sustains_reconcileTorrent : Sustains P (reconcileTorrent c previous next) := by
  refine .load fun service _ => ?_
  dsimp only
  split_ifs
  · exact .pure _
  · exact .xray _
  · exact .xray _
  · exact .pure _

def Reconciling (P : Service → Prop) (reconcile : Option Reconcile) : Prop :=
  ∀ r ∈ reconcile, ∀ previous next, Sustains P (r previous next)

theorem reconciling_stopXray : Reconciling P (some stopXray) := by
  rintro _ ⟨⟩ previous next
  exact sustains_stopXray

theorem reconciling_torrent : Reconciling P (some (reconcileTorrent c)) := by
  rintro _ ⟨⟩ previous next
  exact sustains_reconcileTorrent

variable {reconcile : Option Reconcile} {reconcileFirst forceReset resetFirewall applied : Bool}

theorem Reconciling.reconcileIf {now : Bool} (h : Reconciling P reconcile) :
    Sustains P (reconcileIf now reconcile previous next) := by
  unfold Plugin.reconcileIf
  split
  · exact .pure _
  · split
    · exact h _ rfl previous next
    · exact .pure _

theorem Sustained.abandonFirewall {error : NftError} (h : Sustained P good) (hprevious : good previous)
    (hnext : good next) : Sustains P (abandonFirewall c previous next resetFirewall error) := by
  unfold Plugin.abandonFirewall
  cases resetFirewall with
  | true =>
    refine h.degrading ?_ _
    split
    · exact hnext
    · exact hprevious
  | false => exact .bind (h.beside.apply _) fun _ => h.degrading hprevious _

theorem Sustained.finishSnapshot (h : Sustained P good) (hprevious : good previous) (hnext : good next)
    (hreconcile : Reconciling P reconcile) :
    Sustains P (finishSnapshot c previous next reconcile reconcileFirst resetFirewall applied) := by
  have hcommit := h.commitSnapshot hnext
  refine .contextError fun ended => ?_
  cases ended with
  | true =>
    rw [if_pos rfl]
    split_ifs
    · exact hcommit.bind fun _ => .pure _
    · exact .bind (h.beside.apply _) fun _ => h.degrading hprevious _
    · exact .pure _
  | false =>
    refine hreconcile.reconcileIf.bind fun done => ?_
    split_ifs
    · exact hcommit.bind fun _ => .pure _
    · refine .bind (h.beside.apply _) fun answer => ?_
      cases answer with
      | none => exact .pure _
      | some error => exact h.degrading hprevious _
    · exact .pure _

theorem Sustained.applySnapshot (h : Sustained P good) (hnext : good next)
    (hreconcile : Reconciling P reconcile) :
    Sustains P (applySnapshotWithOrder c next reconcile reconcileFirst forceReset) := by
  refine .load fun service hs => .contextError fun ended => ?_
  have hprevious := h.active service hs
  split_ifs
  · exact .pure _
  · refine hreconcile.reconcileIf.bind fun done => ?_
    split_ifs
    · exact .pure _
    · refine .contextError fun ended => ?_
      split_ifs
      · exact .pure _
      · refine .load fun service' _ => ?_
        dsimp only
        split_ifs
        · refine Sustains.bind ?_ fun answer => ?_
          · unfold applyFirewall
            split
            · exact h.beside.reset _
            · exact h.beside.apply _
          · cases answer with
            | none => exact h.finishSnapshot hprevious hnext hreconcile
            | some error => exact h.abandonFirewall hprevious hnext
        · exact h.finishSnapshot hprevious hnext hreconcile

/-! ### The operations -/

def sustaining (P : Service → Prop) : Judgment where
  Holds _ seen _ p := (∀ service ∈ seen, P service) → Sustains P p
  Later before _ := P before
  pure a _ := .pure a
  bind hp hf hseen := (hp hseen).bind fun a => hf a nothing_seen
  forget hp _ := hp nothing_seen
  load hf hseen := .load fun service hs => hf service hseen fun _ h => Option.some.inj h ▸ hs
  contextError hf hseen := .contextError fun ended => hf ended hseen

/- What a request may publish. -/
structure Plannable (c : Codec) (P : Service → Prop) (good : Option PluginSnapshot → Prop)
    (request : SyncPlugin) : Prop where
  renamed : ∀ service previous, P service → service.active = some previous →
    good (some { previous with pluginUUID := request.uuid, pluginName := request.name })
  planned : ∀ service snapshot, P service →
    buildPluginPlan c request service.asn (firewallAvailable service) = .ok snapshot →
    good (some snapshot)

theorem Sustained.publishPlan {snapshot : PluginSnapshot} (h : Sustained P good)
    (hnext : good (some snapshot)) : Sustains P (publishPlan c snapshot) := by
  refine .load fun service _ => ?_
  dsimp only
  split
  · exact (h.commitSnapshot hnext).bind fun _ => .pure _
  · exact (h.applySnapshot hnext reconciling_torrent).bind fun _ => .pure _

theorem Sustained.orDegrade {p : PluginM (Option NftError)} {service : Service}
    {desired : PluginM (Option PluginSnapshot)} (h : Sustained P good) (hp : Sustains P p)
    (hdesired : Recalls (sustaining P) service desired) : Sustains P (orDegrade p desired) := by
  refine hp.bind fun answer => ?_
  cases answer with
  | none => exact .pure _
  | some error =>
    cases hdesired with
    | again => exact .load fun service hs => h.degrading (h.active service hs) _
    | before hbefore => exact h.degrading (h.active _ hbefore) _

theorem Sustained.upkeep {asked : SyncPlugin → Prop} (h : Sustained P good)
    (hready : ∀ snapshot, good snapshot → good (snapshot.map fun x => { x with firewallReady := true }))
    (hasked : ∀ request, asked request → Plannable c P good request) :
    Upkeep c asked (sustaining P) where
  unread _ service initialized reports hs :=
    .store (h.unread service initialized reports (hs service rfl))
  renamed service previous request hrequest hactive hs :=
    h.commitSnapshot ((hasked request hrequest).renamed service previous (hs service rfl) hactive)
  initializeTables _ := h.beside.initializeTables
  clear _ := h.applySnapshot h.none reconciling_stopXray
  publish service request snapshot hrequest hplan hs :=
    h.publishPlan ((hasked request hrequest).planned service snapshot (hs service rfl) hplan)
  recreate service _ hs :=
    h.applySnapshot (hready _ (h.active service (hs service rfl))) reconciling_torrent
  block _ items _ _ hdesired _ := h.orDegrade (h.beside.blockIPs items) hdesired

theorem Sustained.unblockIPsContext (h : Sustained P good) (ips : List String) :
    Sustains P (unblockIPsContext ips) :=
  Upkeep.blocking (J := sustaining P)
    (fun _ _ _ hdesired _ => h.orDegrade (h.beside.unblockIPs ips) hdesired) nothing_seen

theorem Sustained.resetPluginsContext (h : Sustained P good) : Sustains P (resetPluginsContext c) :=
  Upkeep.resetPluginsContext (J := sustaining P) (fun _ => h.applySnapshot h.none nofun) nothing_seen

theorem Sustained.closeContext (h : Sustained P good)
    (hflags : ∀ service closing closed closeDone, P service →
      P { service with closing := closing, closed := closed, closeDone := closeDone }) :
    Sustains P closeContext := by
  refine .load fun service hs => .bind (.store (hflags service true _ _ hs)) fun _ =>
    .contextError fun ended => ?_
  split
  · exact .pure _
  · refine .load fun service hs => ?_
    split
    · exact .pure _
    · refine .bind (.store (hflags service _ true _ hs)) fun _ => .bind h.beside.close fun answer => ?_
      cases answer with
      | some error => exact .pure _
      | none =>
        refine .load fun service hs => .bind (.store ?_) fun _ => .pure _
        exact hflags _ _ _ true (h.commit service .none hs h.none)

/-- Every operation keeps what allows its changes. -/
theorem Sustained.program {asked : SyncPlugin → Prop} {operation : Operation} (h : Sustained P good)
    (hready : ∀ snapshot, good snapshot → good (snapshot.map fun x => { x with firewallReady := true }))
    (hrequests : ∀ request, asked request → Plannable c P good request)
    (hflags : ∀ service closing closed closeDone, P service →
      P { service with closing := closing, closed := closed, closeDone := closeDone })
    (hasked : ∀ r, operation = .sync (some r) → asked r) : Sustains P (operation.program c) := by
  cases operation with
  | unblockIPs ips => exact (h.unblockIPsContext ips).bind fun _ => .pure _
  | close => exact (h.closeContext hflags).bind fun _ => .pure _
  | _ =>
    refine (h.upkeep hready hrequests).program trivial hasked (fun _ _ => ?_) nothing_seen
    exact h.applySnapshot h.none nofun

end

end RemnanodeLite.Plugin
