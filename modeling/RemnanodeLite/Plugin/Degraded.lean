import RemnanodeLite.Plugin.Agreement

/-! # Clearing without nftables

On a host without the capability the backend refuses every reset, and clearing
the plugin is a reset. -/

namespace RemnanodeLite.Plugin

variable {c : Codec} {service : Service} {kernel : Kernel}

def Incapable (service : Service) : Prop :=
  ∃ m, service.nft = some m ∧ m.capable = false ∧ m.healthy = false

theorem Incapable.unavailable (h : Incapable service) : firewallAvailable service = false := by
  obtain ⟨m, hm, -, hhealthy⟩ := h
  simp [firewallAvailable, hm, hhealthy]

theorem Incapable.isSome (h : Incapable service) : service.nft.isSome = true := by
  obtain ⟨m, hm, -⟩ := h
  simp [hm]

section Apply
variable {next : Option PluginSnapshot} {reconcile : Option Reconcile}
  {reconcileFirst forceReset : Bool}

theorem leads_reset_refused (h : Incapable service) (previous : Option PluginSnapshot) :
    Leads (do
      match ← applyFirewall c (snapshotFirewall next) true with
      | some error => abandonFirewall c previous next true error
      | none => finishSnapshot c previous next reconcile reconcileFirst true true) service kernel
      fun result service' _ => Incapable service' ∧ result.isSome = true ∧
        (previous.isSome = true → service'.active.isSome = true) := by
  obtain ⟨m, hm, hcapable, hhealthy⟩ := h
  apply (leads_reset_incapable hm hcapable).bind
  rintro error service kernel ⟨rfl, rfl, rfl⟩
  apply Shows.bind (m := fun _ service' _ => Incapable service' ∧
    (previous.isSome = true → service'.active.isSome = true))
  · apply Shows.load
    rw [if_neg (by simp [firewallAvailable, hm, hhealthy])]
    rintro s rfl rfl _
    refine ⟨trivial, fun _ => ⟨trivial, ⟨m, hm, hcapable, hhealthy⟩, fun hsome => ?_⟩⟩
    cases next with
    | some snapshot => rfl
    | none => simpa [handle] using hsome
  · intro _ service' kernel' h
    exact .ret ⟨h.1, rfl, h.2⟩

theorem leads_applySnapshot_incapable (h : Incapable service)
    (hasks : ∀ r, reconcile = some r → ∀ previous next, LeavesAlone (r previous next)) :
    Leads (applySnapshotWithOrder c next reconcile reconcileFirst forceReset) service kernel
      fun result service' _ => Incapable service' ∧
        (resetsFirewall service.active next forceReset = true → result.isSome = true ∧
          (service.active.isSome = true → service'.active.isSome = true)) := by
  apply Shows.load
  apply Shows.contextError
  intro ended
  cases ended with
  | true => exact .ret ⟨h, fun _ => ⟨rfl, id⟩⟩
  | false =>
    apply (reconcileIf_leavesAlone hasks service.active next service kernel).bind
    rintro done service kernel ⟨rfl, rfl⟩
    cases done with
    | false => exact .ret ⟨h, fun _ => ⟨rfl, id⟩⟩
    | true =>
      apply Shows.contextError
      intro ended
      cases ended with
      | true => exact .ret ⟨h, fun _ => ⟨rfl, id⟩⟩
      | false =>
        apply Shows.load
        cases hreset : resetsFirewall service.active next forceReset with
        | true =>
          have hstep : (mutatesFirewall c service.active next forceReset &&
              (firewallAvailable service || (true && service.nft.isSome))) = true := by
            simp [mutatesFirewall, hreset, h.isSome]
          dsimp only
          rw [if_pos hstep]
          exact (leads_reset_refused h service.active).mono fun _ _ _ hend =>
            ⟨hend.1, fun _ => hend.2⟩
        | false =>
          have hstep : ¬ (mutatesFirewall c service.active next forceReset &&
              (firewallAvailable service || (false && service.nft.isSome))) = true := by
            simp [h.unavailable]
          dsimp only
          rw [if_neg hstep]
          have hnext : Incapable { service with active := next } := h
          exact (leads_finish_untouched (P := fun service _ => Incapable service) h hnext hasks
            service.active false).mono fun _ _ _ hend => ⟨hend, fun hr => by cases hr⟩

end Apply

/-! ### The two ways to clear -/

theorem resets_of_none (previous : Option PluginSnapshot) :
    resetsFirewall previous none false = true := by simp [resetsFirewall]

theorem leads_acquireMutation : Leads acquireMutation service kernel fun _ service' kernel' =>
    service' = service ∧ kernel' = kernel := by
  apply Shows.load
  split
  · exact .ret ⟨rfl, rfl⟩
  · apply Shows.contextError
    intro ended
    split
    · exact .ret ⟨rfl, rfl⟩
    · apply Shows.load
      split
      · exact .ret ⟨rfl, rfl⟩
      · exact .ret ⟨rfl, rfl⟩

theorem leads_clear_incapable (h : Incapable service) :
    Leads (syncContext c none) service kernel fun accepted service' _ =>
      Incapable service' ∧ accepted = false ∧
        (service.active.isSome = true → service'.active.isSome = true) := by
  apply leads_acquireMutation.bind
  rintro refusal service kernel ⟨rfl, rfl⟩
  split
  · exact .ret ⟨h, rfl, id⟩
  · apply Shows.load
    split
    · exact .ret ⟨h, rfl, id⟩
    · apply Shows.load
      split
      · exact .ret ⟨h, rfl, id⟩
      · apply (leads_applySnapshot_incapable h stopXray_asks).bind
        intro result service' kernel' hend
        obtain ⟨hresult, hactive⟩ := hend.2 (resets_of_none _)
        exact .ret ⟨hend.1, by simpa using hresult, hactive⟩

theorem leads_resetPlugins_incapable (h : Incapable service) :
    Leads (resetPluginsContext c) service kernel fun result service' _ =>
      Incapable service' ∧ result.isSome = true ∧
        (service.active.isSome = true → service'.active.isSome = true) := by
  apply leads_acquireMutation.bind
  rintro refusal service kernel ⟨rfl, rfl⟩
  cases refusal with
  | some error => exact .ret ⟨h, rfl, id⟩
  | none =>
    apply Shows.load
    split
    · exact .ret ⟨h, rfl, id⟩
    · have hnone : ∀ r : Reconcile, none = some r → ∀ previous next, LeavesAlone (r previous next) :=
        fun r hr => (Option.some_ne_none r hr.symm).elim
      refine (leads_applySnapshot_incapable h hnone).mono ?_
      intro result service' kernel' hend
      exact ⟨hend.1, hend.2 (resets_of_none _)⟩

/-! ### Runs on such a host -/

theorem leads_publishPlan_incapable {snapshot : PluginSnapshot} (h : Incapable service) :
    Leads (publishPlan c snapshot) service kernel fun _ service' _ => Incapable service' := by
  apply Shows.load
  dsimp only
  split
  · exact leads_commitSnapshot (.ret h)
  · exact (leads_applySnapshot_incapable h torrent_leavesAlone).bind fun _ _ _ hend => .ret hend.1

def incapable : Judgment :=
  alone (fun _ s => Incapable s.service) (fun _ _ _ h => h) fun _ _ h => h

theorem applySnapshot_incapable {seen : Option Service} {next : Option PluginSnapshot}
    {reconcile : Option Reconcile} {reconcileFirst forceReset : Bool}
    (hasks : ∀ r, reconcile = some r → ∀ previous next, LeavesAlone (r previous next)) :
    incapable.Holds false seen (applySnapshotWithOrder c next reconcile reconcileFirst forceReset) :=
  fun s h _ => ((leads_applySnapshot_incapable h hasks).mono fun _ _ _ hend => hend.1) s rfl rfl

theorem incapable_upkeep (c : Codec) : Upkeep c (fun _ => True) incapable where
  unread := by
    rintro _ service initialized reports s hs hseen _
    obtain rfl := hseen service rfl
    exact ⟨trivial, hs⟩
  renamed := fun _ _ _ _ _ s hs _ _ => ⟨trivial, fun _ => ⟨trivial, hs⟩⟩
  initializeTables := by
    rintro s ⟨m, hm, hcapable, hhealthy⟩ -
    have hleads : Leads (Nft.initializeTables c) s.service s.kernel
        fun _ service' _ => Incapable service' := by
      apply Shows.load
      simp only [hm, hcapable, hhealthy]
      exact .ret ⟨m, hm, hcapable, hhealthy⟩
    exact hleads s rfl rfl
  clear := applySnapshot_incapable stopXray_asks
  publish := fun _ _ _ _ _ s hs _ => leads_publishPlan_incapable hs s rfl rfl
  recreate := fun _ _ => applySnapshot_incapable torrent_leavesAlone
  block := by
    rintro service items desired havail - s hs hseen
    obtain rfl := hseen service rfl
    rw [hs.unavailable] at havail
    cases havail

/- `Initialize`, or a `Sync` of a plugin that is accepted. -/
def AcceptedSync (c : Codec) (w : World) (e : Event) : Prop :=
  e.operation = .initializeContext ∨
    ∃ request, e.operation = .sync (some request) ∧
      ((syncContext c (some request)).run handle e.choices w.session).1 = true

theorem step_incapable {w w' : World} {e : Event} (h : Incapable w.service)
    (hguard : AcceptedSync c w e) (hstep : step c w e = some w') : Incapable w'.service := by
  obtain rfl := Option.some.inj hstep
  have hordinary : e.operation.Ordinary := by
    rcases hguard with hop | ⟨request, hop, -⟩ <;> rw [hop] <;> trivial
  have hend := (incapable_upkeep c).program hordinary (fun _ _ => trivial) fun _ =>
    applySnapshot_incapable fun r hr => (Option.some_ne_none r hr.symm).elim
  exact Program.wp_run (hend w.session h nothing_seen) e.choices

/-- On a host without the capability neither a `Sync` without a plugin nor
`ResetPlugins` ever succeeds, whatever was accepted before and however Xray and
the context behave, and an active snapshot stays active. -/
theorem clearing_never_succeeds (c : Codec) (options : NftOptions) (hasXray : Bool)
    (asn : ASNResolver) (kernel₀ : Kernel) (w : World)
    (hrun : Transition.Steps (step c) (AcceptedSync c)
      ⟨newService (some (newNFTManager false options)) hasXray asn, kernel₀⟩ w)
    (choices : ℕ → Choice) :
    ((syncContext c none).run handle choices w.session).1 = false ∧
    ((resetPluginsContext c).run handle choices w.session).1.isSome = true ∧
    (w.service.active.isSome = true →
      ((syncContext c none).run handle choices w.session).2.service.active.isSome = true ∧
      ((resetPluginsContext c).run handle choices w.session).2.service.active.isSome = true) := by
  have hincapable : Incapable w.service :=
    hrun.invariant (fun w => Incapable w.service) ⟨_, rfl, rfl, rfl⟩
      fun _ _ _ h hguard hstep => step_incapable h hguard hstep
  obtain ⟨-, hsync, hsyncActive⟩ := Program.wp_run
    (leads_clear_incapable (c := c) hincapable w.session rfl rfl) choices
  obtain ⟨-, hreset, hresetActive⟩ := Program.wp_run
    (leads_resetPlugins_incapable (c := c) hincapable w.session rfl rfl) choices
  exact ⟨hsync, hreset, fun hactive => ⟨hsyncActive hactive, hresetActive hactive⟩⟩

/- A host without the capability after `Initialize` and one accepted plugin. -/
def incapableWorld : World :=
  ⟨newService (some (newNFTManager false ⟨false, false⟩)) true none, fun _ => ∅⟩

def degradedWorld : World :=
  after (plainCodec (blockedConfig ["10.0.0.0/8"]))
    (after (plainCodec (blockedConfig ["10.0.0.0/8"])) incapableWorld (smooth .initializeContext))
    (smooth (.sync (some ⟨"uuid", "name", "config"⟩)))

theorem degradedWorld_reached :
    Transition.Steps (step (plainCodec (blockedConfig ["10.0.0.0/8"])))
      (AcceptedSync (plainCodec (blockedConfig ["10.0.0.0/8"]))) incapableWorld degradedWorld :=
  .tail (smooth (.sync (some ⟨"uuid", "name", "config"⟩)))
    (.tail (smooth .initializeContext) .refl (Or.inl rfl) (step_after _ _ _))
    (Or.inr ⟨⟨"uuid", "name", "config"⟩, rfl, by decide +kernel⟩) (step_after _ _ _)

theorem clearing_never_succeeds_degraded :
    ((syncContext (plainCodec (blockedConfig ["10.0.0.0/8"])) none).run handle
      (smooth (.sync none)).choices degradedWorld.session).1 = false :=
  (clearing_never_succeeds _ _ _ _ _ degradedWorld degradedWorld_reached _).1

/-- `Initialize`, an accepted plugin, then a `Sync` without a plugin and a
`ResetPlugins`, with a live context and an Xray that stops: both fail and the
plugin stays active. -/
theorem clear_rejected_without_nftables :
    ((syncContext (plainCodec (blockedConfig ["10.0.0.0/8"])) none).run handle
      (smooth (.sync none)).choices degradedWorld.session).1 = false ∧
    ((syncContext (plainCodec (blockedConfig ["10.0.0.0/8"])) none).run handle
      (smooth (.sync none)).choices degradedWorld.session).2.service.active.isSome = true ∧
    ((resetPluginsContext (plainCodec (blockedConfig ["10.0.0.0/8"]))).run handle
      (smooth .resetPlugins).choices degradedWorld.session).1 = some (.firewall .unavailable none) ∧
    ((resetPluginsContext (plainCodec (blockedConfig ["10.0.0.0/8"]))).run handle
      (smooth .resetPlugins).choices degradedWorld.session).2.service.active.isSome = true := by
  decide +kernel

end RemnanodeLite.Plugin
