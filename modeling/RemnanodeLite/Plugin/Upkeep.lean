import RemnanodeLite.Plugin.Service

/-! # One walk through the operations

Behind the gate an operation makes one change: it sets up the tables, publishes a snapshot,
renames the active one or blocks addresses. What is asked of these parts can be asked of
every operation, whether it has the service to itself or shares it with others. -/

namespace RemnanodeLite.Plugin

theorem nothing_seen {P : Service → Prop} : ∀ service ∈ (none : Option Service), P service :=
  fun _ h => absurd h (Option.not_mem_none _)

/-- A way to judge programs. `Holds late seen p` says that `p` does what is asked of it when
`late` tells whether the operation has made its change and `seen` is the service read last;
`Later` is what is known of a service that is read after another one. -/
structure Judgment where
  Holds : Bool → Option Service → ∀ {α : Type}, PluginM α → Prop
  Later : Service → Service → Prop
  pure : ∀ {late seen} {α : Type} (a : α), Holds late seen (Pure.pure a : PluginM α)
  bind : ∀ {late seen} {α β : Type} {p : PluginM α} {f : α → PluginM β}, Holds late seen p →
    (∀ a, Holds true none (f a)) → Holds late seen (p >>= f)
  forget : ∀ {late seen} {α : Type} {p : PluginM α}, Holds late none p → Holds late seen p
  load : ∀ {late seen} {β : Type} {f : Service → PluginM β}, (∀ service,
    (∀ before ∈ seen, Later before service) → Holds late (some service) (f service)) →
    Holds late seen (Plugin.load >>= f)
  contextError : ∀ {late seen} {β : Type} {f : Bool → PluginM β},
    (∀ ended, Holds late seen (f ended)) → Holds late seen (Plugin.contextError >>= f)

/- The operation is alone: `inv false` holds until the change is made and `inv true` then. -/
def alone (inv : Bool → Session → Prop)
    (hended : ∀ late s ended, inv late s → inv late { s with ended := ended })
    (hlate : ∀ late s, inv late s → inv true s) : Judgment where
  Holds late seen _ p := ∀ s, inv late s → (∀ service ∈ seen, s.service = service) →
    p.wp handle (fun _ _ => True) (fun _ t => inv true t) s
  Later before service := service = before
  pure _ s hs _ := hlate _ s hs
  bind hp hf s hs hseen := Program.wp_bind.mpr
    (Program.wp_mono (hp s hs hseen) fun a t ht => hf a t ht nothing_seen)
  forget hp s hs _ := hp s hs nothing_seen
  load hf s hs hseen _ := ⟨trivial, hf s.service hseen s hs fun _ h => Option.some.inj h⟩
  contextError hf s hs hseen _ := ⟨trivial, hf _ _ (hended _ s _ hs) hseen⟩

/- How an operation that has failed to block finds the snapshot it degrades. -/
inductive Recalls (J : Judgment) (service : Service) : PluginM (Option PluginSnapshot) → Prop
  | again : Recalls J service (do return (← load).active)
  | before {earlier : Service} (h : J.Later earlier service) : Recalls J service (pure earlier.active)

/- A step of the backend, after whose failure the snapshot may have to be degraded. -/
def orDegrade (p : PluginM (Option NftError)) (desired : PluginM (Option PluginSnapshot)) : PluginM Bool := do
  match ← p with
  | none => return true
  | some _ =>
    degradeUnlessAvailable (← desired)
    return false

theorem wp_orDegrade {inv : Bool → Session → Prop}
    {hended : ∀ late s ended, inv late s → inv late { s with ended := ended }}
    {hlate : ∀ late s, inv late s → inv true s} {p : PluginM (Option NftError)}
    {desired : PluginM (Option PluginSnapshot)} {service : Service} {s : Session}
    (hdesired : Recalls (alone inv hended hlate) service desired)
    (hp : p.wp handle (fun _ _ => True) (fun error t => match error with
      | none => inv true t
      | some _ => ∀ snapshot, snapshot = t.service.active ∨ snapshot = service.active →
          (degradeUnlessAvailable snapshot).wp handle (fun _ _ => True) (fun _ t => inv true t) t) s) :
    (orDegrade p desired).wp handle (fun _ _ => True) (fun _ t => inv true t) s := by
  refine Program.wp_bind.mpr (Program.wp_mono hp fun error t ht => ?_)
  cases error with
  | none => exact ht
  | some error =>
    have hdegrade : ∀ snapshot, snapshot = t.service.active ∨ snapshot = service.active →
        (do degradeUnlessAvailable snapshot; return false : PluginM Bool).wp handle
          (fun _ _ => True) (fun _ t => inv true t) t :=
      fun snapshot hsnapshot => Program.wp_bind.mpr (ht snapshot hsnapshot)
    cases hdesired with
    | again => exact fun _ => ⟨trivial, hdegrade _ (.inl rfl)⟩
    | before hbefore => exact hdegrade _ (.inr (congrArg Service.active hbefore.symm))

/-- What the parts of the operations do. -/
structure Upkeep (c : Codec) (asked : SyncPlugin → Prop) (J : Judgment) : Prop where
  unread : ∀ late service initialized reports, J.Holds late (some service)
    (store { service with initialized := initialized, reports := reports })
  renamed : ∀ service previous request, asked request → service.active = some previous →
    J.Holds false (some service)
      (commitSnapshot (some { previous with pluginUUID := request.uuid, pluginName := request.name }))
  initializeTables : J.Holds false none (Nft.initializeTables c)
  clear : J.Holds false none (applySnapshotWithOrder c none (some stopXray) true false)
  publish : ∀ service request snapshot, asked request →
    buildPluginPlan c request service.asn (firewallAvailable service) = .ok snapshot →
    J.Holds false (some service) (publishPlan c snapshot)
  recreate : ∀ service, service.nft.isSome = true →
    J.Holds false (some service) (applySnapshotWithOrder c
      (service.active.map fun snapshot => { snapshot with firewallReady := true })
      (some (reconcileTorrent c)) true true)
  block : ∀ service items desired, firewallAvailable service = true → Recalls J service desired →
    J.Holds false (some service) (orDegrade (Nft.blockIPs c items) desired)

theorem plan_firewallReady {c : Codec} {request : SyncPlugin} {resolver : ASNResolver}
    {available : Bool} {snapshot : PluginSnapshot}
    (h : buildPluginPlan c request resolver available = .ok snapshot) :
    snapshot.firewallReady = available := by
  obtain ⟨_, -, h⟩ := Fallible.bind_ok_iff.mp h
  obtain ⟨_, -, h⟩ := Fallible.bind_ok_iff.mp h
  obtain ⟨_, -, h⟩ := Fallible.bind_ok_iff.mp h
  obtain ⟨_, -, h⟩ := Fallible.bind_ok_iff.mp h
  obtain ⟨_, -, h⟩ := Fallible.bind_ok_iff.mp h
  obtain ⟨_, -, h⟩ := Fallible.bind_ok_iff.mp h
  obtain rfl := Except.ok.inj h
  rfl

theorem sameSource_eq_some {c : Codec} {service : Service} {request : SyncPlugin}
    {previous : PluginSnapshot} (h : sameSource c service request = some previous) :
    service.active = some previous ∧ previous.sourceHash = c.sha256 request.config ∧
      previous.firewallReady = firewallAvailable service := by
  unfold sameSource at h
  split_ifs at h
  obtain ⟨hactive, hfilter⟩ := Option.filter_eq_some_iff.mp h
  simp only [Bool.and_eq_true, decide_eq_true_eq] at hfilter
  exact ⟨hactive, hfilter⟩

namespace Upkeep
variable {c : Codec} {asked : SyncPlugin → Prop} {J : Judgment} {α β : Type}

theorem acquireMutation {f : Option ServiceError → PluginM β}
    (h : ∀ answer, J.Holds false none (f answer)) : J.Holds false none (acquireMutation >>= f) := by
  unfold Plugin.acquireMutation
  rw [bind_assoc]
  refine J.load fun service _ => ?_
  split
  · exact J.forget (h _)
  · rw [bind_assoc]
    refine J.contextError fun ended => ?_
    split
    · exact J.forget (h _)
    · rw [bind_assoc]
      refine J.load fun service _ => ?_
      split
      · exact J.forget (h _)
      · exact J.forget (h _)

theorem returning {late : Bool} {seen : Option Service} {p : PluginM α} (h : J.Holds late seen p)
    (g : α → β) : J.Holds late seen (do let a ← p; return g a) :=
  J.bind h fun a => J.pure (g a)

theorem markInitialized (h : Upkeep c asked J) {seen : Option Service} (a : β) :
    J.Holds true seen (do store { (← load) with initialized := true }; return a) :=
  J.load fun service _ => returning (h.unread true service true service.reports) fun _ => a

theorem initializeContext (h : Upkeep c asked J) : J.Holds false none (initializeContext c) := by
  refine acquireMutation fun answer => ?_
  cases answer with
  | some error => exact J.pure _
  | none =>
    refine J.load fun service _ => ?_
    split_ifs
    · exact J.pure _
    · exact J.pure _
    · exact returning (h.unread false service true service.reports) _
    · refine J.bind (J.forget h.initializeTables) fun answer => ?_
      cases answer with
      | none => exact h.markInitialized _
      | some error =>
        refine J.contextError fun ended => ?_
        split
        · exact J.pure _
        · exact h.markInitialized _

theorem syncPlugin {request : SyncPlugin} (h : Upkeep c asked J) (hasked : asked request) :
    J.Holds false none (syncPlugin c request) := by
  refine J.load fun service _ => ?_
  cases hsource : sameSource c service request with
  | some previous =>
    refine J.contextError fun ended => ?_
    split
    · exact J.pure _
    · exact returning (h.renamed service previous request hasked (sameSource_eq_some hsource).1) _
  | none =>
    refine J.contextError fun ended => ?_
    split_ifs
    · exact J.pure _
    · cases hplan : buildPluginPlan c request service.asn (firewallAvailable service) with
      | error message => exact returning (J.forget h.clear) _
      | ok snapshot => exact h.publish service request snapshot hasked hplan

theorem syncContext {request : Option SyncPlugin} (h : Upkeep c asked J)
    (hasked : ∀ r, request = some r → asked r) : J.Holds false none (syncContext c request) := by
  refine acquireMutation fun answer => ?_
  split
  · exact J.pure _
  · refine J.load fun service _ => ?_
    split
    · exact J.pure _
    · cases request with
      | some request => exact J.forget (h.syncPlugin (hasked request rfl))
      | none =>
        refine J.load fun service _ => ?_
        split
        · exact J.pure _
        · exact returning (J.forget h.clear) _

theorem resetPluginsContext
    (hwipe : J.Holds false none (applySnapshotWithOrder c none none false false)) :
    J.Holds false none (resetPluginsContext c) := by
  refine acquireMutation fun answer => ?_
  cases answer with
  | some error => exact J.pure _
  | none =>
    refine J.load fun service _ => ?_
    cases ready service with
    | some error => exact J.pure _
    | none => exact J.forget hwipe

theorem recreateTablesContext (h : Upkeep c asked J) : J.Holds false none (recreateTablesContext c) := by
  refine acquireMutation fun answer => ?_
  split
  · exact J.pure _
  · refine J.load fun service _ => ?_
    dsimp only
    split_ifs with hopen
    · exact J.pure _
    · rw [Bool.or_eq_true, not_or] at hopen
      have hnft : service.nft.isSome = true := Option.isSome_iff_ne_none.mpr (by simpa using hopen.2)
      exact returning (h.recreate service hnft) _

theorem blocking {p : PluginM (Option NftError)} {invalid : Prop} [Decidable invalid]
    (hp : ∀ service desired, firewallAvailable service = true → Recalls J service desired →
      J.Holds false (some service) (orDegrade p desired)) : J.Holds false none (do
      if invalid then
        return false
      if (← Plugin.acquireMutation).isSome then
        return false
      let service ← load
      if (ready service).isSome || !firewallAvailable service then
        return false
      match ← p with
      | none => return true
      | some _ =>
        degradeUnlessAvailable (← load).active
        return false) := by
  split
  · exact J.pure _
  · refine acquireMutation fun answer => ?_
    split
    · exact J.pure _
    · refine J.load fun service _ => ?_
      split_ifs with hopen
      · exact J.pure _
      · rw [Bool.or_eq_true, not_or] at hopen
        exact hp service _ (by simpa using hopen.2) .again

theorem blockIPsContext (h : Upkeep c asked J) (items : List BlockIP) :
    J.Holds false none (blockIPsContext c items) :=
  blocking fun service => h.block service items

theorem processXrayWebhook (h : Upkeep c asked J) (payload : WebhookPayload) :
    J.Holds false none (processXrayWebhook c payload) := by
  refine J.load fun service _ => ?_
  split
  · exact J.pure _
  · split
    · rename_i snapshot email source hactive _ _
      dsimp only
      split
      · exact J.pure _
      · refine J.bind (J.load fun service' hlater => ?_) fun blocked => J.load fun service _ => ?_
        · split_ifs with hopen
          · exact J.pure _
          · have hblock := h.block service' [⟨extractWebhookIP source,
              some snapshot.torrent.blockDuration⟩] _
              (by simpa using hopen) (.before (hlater service rfl))
            rw [hactive] at hblock
            exact hblock
        · exact h.unread true service service.initialized _
    · exact J.pure _

end Upkeep

/- Neither an unblock request nor the end of the service. -/
def Operation.Ordinary : Operation → Prop
  | .unblockIPs _ => False
  | .close => False
  | _ => True

theorem Upkeep.program {c : Codec} {asked : SyncPlugin → Prop} {J : Judgment} (h : Upkeep c asked J)
    {operation : Operation} (hordinary : operation.Ordinary)
    (hasked : ∀ r, operation = .sync (some r) → asked r)
    (hwipe : operation = .resetPlugins →
      J.Holds false none (applySnapshotWithOrder c none none false false)) :
    J.Holds false none (operation.program c) := by
  cases operation with
  | initializeContext => exact returning h.initializeContext _
  | sync request => exact returning (h.syncContext fun r hr => hasked r (by rw [hr])) _
  | resetPlugins => exact returning (resetPluginsContext (hwipe rfl)) _
  | recreateTables => exact returning h.recreateTablesContext _
  | blockIPs items => exact returning (h.blockIPsContext items) _
  | xrayWebhook payload => exact h.processXrayWebhook payload
  | unblockIPs ips => exact hordinary.elim
  | close => exact hordinary.elim

end RemnanodeLite.Plugin
