import RemnanodeLite.Lib.Transition
import RemnanodeLite.Plugin.FilterEntries
import RemnanodeLite.Plugin.Upkeep

/-! # The firewall and the published snapshot agree -/

namespace RemnanodeLite.Plugin

variable {c : Codec} {service : Service} {kernel : Kernel}

/-- If the backend is healthy, the static sets of the kernel are those of
`config`, and `config` can be installed again. -/
structure Installs (c : Codec) (config : FirewallConfig) (service : Service) (kernel : Kernel) :
    Prop where
  usable : ∀ m, service.nft = some m → m.healthy = true → m.owned = true ∧ m.capable = true
  statics : firewallAvailable service = true → StaticsAre c config kernel
  restorable : firewallAvailable service = true →
    validateNFTScript (renderNFTStaticUpdate c config) = .ok ()

structure Agrees (c : Codec) (service : Service) (kernel : Kernel) : Prop where
  installs : Installs c (snapshotFirewall service.active) service kernel
  degraded : firewallAvailable service = false → snapshotFirewallReady service.active = false

theorem available_iff : firewallAvailable service = true ↔
    ∃ m, service.nft = some m ∧ m.healthy = true := by
  unfold firewallAvailable
  cases service.nft with
  | none => simp
  | some m => simp

theorem Installs.of_unavailable {config : FirewallConfig}
    (h : firewallAvailable service = false) : Installs c config service kernel := by
  have hnot : ∀ m, service.nft = some m → m.healthy = true → False := by
    intro m hm hhealthy
    rw [available_iff.mpr ⟨m, hm, hhealthy⟩] at h
    cases h
  refine ⟨fun m hm hh => (hnot m hm hh).elim, fun ha => ?_, fun ha => ?_⟩
  · rw [h] at ha
    cases ha
  · rw [h] at ha
    cases ha

variable {next : Option PluginSnapshot} {service' : Service} {m : NftManager} {error : NftError}

theorem Installs.publish (h : Installs c (snapshotFirewall next) service kernel)
    (hready : firewallAvailable service = false → snapshotFirewallReady next = false) :
    Agrees c { service with active := next } kernel :=
  ⟨⟨h.usable, h.statics, h.restorable⟩, hready⟩

theorem Agrees.of_same (h : Agrees c service kernel) (hnft : service'.nft = service.nft)
    (hactive : service'.active = service.active) :
    Agrees c service' kernel := by
  have havail : firewallAvailable service' = firewallAvailable service := by
    rw [firewallAvailable, hnft, firewallAvailable]
  refine ⟨⟨?_, ?_, ?_⟩, ?_⟩
  · rw [hnft]
    exact h.installs.usable
  · rw [havail, hactive]
    exact h.installs.statics
  · rw [havail, hactive]
    exact h.installs.restorable
  · rw [havail, hactive]
    exact h.degraded

theorem Installs.congr {l r : FirewallConfig} (h : Installs c l service kernel)
    (heq : ∀ set, staticElements c r set = staticElements c l set) :
    Installs c r service kernel := by
  have hscript : renderNFTStaticUpdate c r = renderNFTStaticUpdate c l := by
    simp only [renderNFTStaticUpdate, elementCommands, heq]
  refine ⟨h.usable, fun ha set hset => ?_, fun ha => ?_⟩
  · rw [heq set]
    exact h.statics ha set hset
  · rw [hscript]
    exact h.restorable ha

theorem staticElements_eq_of_equal {left right : FirewallConfig}
    (h : firewallConfigsEqual c left right = true) (set : NftSet) :
    staticElements c right set = staticElements c left set := by
  simp only [firewallConfigsEqual, Bool.and_eq_true, decide_eq_true_eq] at h
  obtain ⟨⟨⟨⟨h1, h2⟩, h3⟩, h4⟩, h5⟩ := h
  cases set with
  | torrentBlockerSet => rfl
  | torrentBlockerSetV6 => rfl
  | ingressFilterIPSet => exact h1.symm
  | ingressFilterIPSetV6 => exact h2.symm
  | egressFilterIPSet => exact h3.symm
  | egressFilterIPSetV6 => exact h4.symm
  | egressFilterPortSet => simp only [staticElements, h5]
  | egressFilterPortSetV6 => simp only [staticElements, h5]

theorem ready_of_degraded (desired : Option PluginSnapshot) :
    snapshotFirewallReady (desired.map fun snapshot => { snapshot with firewallReady := false }) =
      false := by
  cases desired with
  | none => rfl
  | some snapshot => rfl

/-! ### Parts that change only the snapshot -/

section Parts
variable {β : Type} {f : Unit → PluginM β} {post : β → Service → Kernel → Prop}

theorem leads_commitSnapshot {snapshot : Option PluginSnapshot}
    (h : Leads (f ()) { service with active := snapshot } kernel post) :
    Leads (commitSnapshot snapshot >>= f) service kernel post := by
  apply Shows.bind (m := fun _ service' kernel' =>
    service' = { service with active := snapshot } ∧ kernel' = kernel)
  · apply Shows.load
    rintro s - rfl _
    exact ⟨trivial, rfl, rfl⟩
  · rintro _ _ _ ⟨rfl, rfl⟩
    exact h

theorem leads_degradeUnlessAvailable {desired : Option PluginSnapshot}
    (h : firewallAvailable service = true → Agrees c service kernel) :
    Leads (degradeUnlessAvailable desired) service kernel fun _ service' kernel' =>
      Agrees c service' kernel' := by
  apply Shows.load
  split
  case isTrue ha => exact .ret (h ha)
  case isFalse ha =>
    have hoff : firewallAvailable service = false := by simpa using ha
    rintro s rfl rfl _
    refine ⟨trivial, fun _ => ⟨trivial, ?_⟩⟩
    exact (Installs.of_unavailable hoff).publish fun _ => ready_of_degraded desired

end Parts

/- Xray is asked and nothing else happens. -/
def LeavesAlone (p : PluginM Bool) : Prop :=
  ∀ service kernel, Leads p service kernel fun _ service' kernel' =>
    service' = service ∧ kernel' = kernel

theorem stopXray_leavesAlone (previous next : Option PluginSnapshot) :
    LeavesAlone (stopXray previous next) := by
  intro service kernel
  apply Shows.load
  split
  · exact Leads.xray fun _ => ⟨rfl, rfl⟩
  · exact .ret ⟨rfl, rfl⟩

theorem reconcileTorrent_leavesAlone (previous next : Option PluginSnapshot) :
    LeavesAlone (reconcileTorrent c previous next) := by
  intro service kernel
  apply Shows.load
  split
  · exact .ret ⟨rfl, rfl⟩
  · dsimp only
    split
    · exact Leads.xray fun _ => ⟨rfl, rfl⟩
    · split
      · exact Leads.xray fun _ => ⟨rfl, rfl⟩
      · exact .ret ⟨rfl, rfl⟩

theorem torrent_leavesAlone : ∀ r, some (reconcileTorrent c) = some r →
    ∀ previous next, LeavesAlone (r previous next) := by
  intro r hr
  obtain rfl := Option.some.inj hr
  exact reconcileTorrent_leavesAlone

theorem stopXray_asks : ∀ r : Reconcile, some stopXray = some r →
    ∀ previous next, LeavesAlone (r previous next) := by
  intro r hr
  obtain rfl := Option.some.inj hr
  exact stopXray_leavesAlone

theorem reconcileIf_leavesAlone {now : Bool} {reconcile : Option Reconcile}
    (h : ∀ r, reconcile = some r → ∀ previous next, LeavesAlone (r previous next))
    (previous next : Option PluginSnapshot) :
    LeavesAlone (reconcileIf now reconcile previous next) := by
  intro service kernel
  cases reconcile with
  | none => exact .ret ⟨rfl, rfl⟩
  | some r =>
    cases now with
    | true => exact h r rfl previous next service kernel
    | false => exact .ret ⟨rfl, rfl⟩

/-! ### Applying a snapshot -/

theorem Installed.installs {script : NftScript} {config : FirewallConfig} {kernel' : Kernel}
    (hcapable : m.capable = true) (hexec : ∀ kernel, StaticsAre c config (script.exec kernel))
    (hvalid : validateNFTScript script = .ok () →
      validateNFTScript (renderNFTStaticUpdate c config) = .ok ())
    (h : Installed script m true service kernel none service' kernel') :
    Installs c config service' kernel' ∧ firewallAvailable service' = true ∧
      service'.active = service.active := by
  cases h with
  | done valid =>
    refine ⟨⟨?_, fun _ => hexec kernel, fun _ => hvalid valid⟩, rfl, rfl⟩
    intro m' hm' _
    obtain rfl := Option.some.inj hm'
    exact ⟨rfl, hcapable⟩

theorem Installed.failure {script : NftScript} {kernel' : Kernel}
    (h : Installed script m true service kernel (some error) service' kernel') :
    (validateNFTScript script ≠ .ok () ∧ service' = service ∧ kernel' = kernel) ∨
      (firewallAvailable service' = false ∧ service'.active = service.active ∧
        ∃ m', service'.nft = some m' ∧ m'.owned = true ∧ m'.capable = m.capable) := by
  cases h with
  | rejected _ invalid => exact Or.inl ⟨invalid, rfl, rfl⟩
  | failed _ _ _ => exact Or.inr ⟨rfl, rfl, _, rfl, rfl, rfl⟩

theorem leads_restoreFirewall (hm : service.nft = some m) (howned : m.owned = true)
    (hcapable : m.capable = true)
    (hvalid : validateNFTScript (renderNFTStaticUpdate c (snapshotFirewall service.active)) = .ok ()) :
    Leads (restoreFirewall c (snapshotFirewall service.active)) service kernel
      fun error service' kernel' =>
        (error = none → firewallAvailable service' = true) ∧
        (firewallAvailable service' = true → Agrees c service' kernel') := by
  refine (leads_apply hm howned hcapable).mono fun error service' kernel' h => ?_
  cases error with
  | none =>
    obtain ⟨hinst, havail, hactive⟩ := h.installs hcapable
      (exec_renderNFTStaticUpdate c _) fun _ => hvalid
    refine ⟨fun _ => havail, fun _ => ⟨by rw [hactive]; exact hinst, fun hoff => ?_⟩⟩
    rw [havail] at hoff
    cases hoff
  | some error =>
    rcases h.failure with ⟨hinvalid, -⟩ | ⟨hoff, -⟩
    · exact absurd hvalid hinvalid
    · refine ⟨fun hnone => (nomatch hnone), fun hon => ?_⟩
      rw [hoff] at hon
      cases hon

section Finish
variable {next : Option PluginSnapshot} {reconcile : Option Reconcile} {reconcileFirst : Bool}

/- After a reset the matching snapshot is published on every way out: Xray was
asked before or is not asked. -/
theorem leads_finish_reset (hinst : Installs c (snapshotFirewall next) service kernel)
    (havail : firewallAvailable service = true)
    (horder : reconcileFirst = true ∨ reconcile = none) (previous : Option PluginSnapshot) :
    Leads (finishSnapshot c previous next reconcile reconcileFirst true true) service kernel
      fun _ service' kernel' => Agrees c service' kernel' := by
  have hpublished : Agrees c { service with active := next } kernel := hinst.publish fun hoff => by
    rw [havail] at hoff
    cases hoff
  have hasked : reconcileIf (!reconcileFirst) reconcile previous next = pure true := by
    rcases horder with rfl | rfl
    · cases reconcile with
      | none => rfl
      | some r => rfl
    · rfl
  apply Shows.contextError
  intro ended
  rw [hasked]
  cases ended with
  | true | false => exact leads_commitSnapshot (.ret hpublished)

theorem leads_finish_applied {m : NftManager}
    (hinst : Installs c (snapshotFirewall next) service kernel)
    (havail : firewallAvailable service = true) (hm : service.nft = some m)
    (hvalid : validateNFTScript (renderNFTStaticUpdate c (snapshotFirewall service.active)) = .ok ())
    (hasks : ∀ r, reconcile = some r → ∀ previous next, LeavesAlone (r previous next)) :
    Leads (finishSnapshot c service.active next reconcile reconcileFirst false true) service kernel
      fun _ service' kernel' => Agrees c service' kernel' := by
  have hhealthy : m.healthy = true := by
    obtain ⟨m', hm', hh⟩ := available_iff.mp havail
    rw [hm] at hm'
    exact (Option.some.inj hm') ▸ hh
  obtain ⟨howned, hcapable⟩ := hinst.usable m hm hhealthy
  have hrestore := @leads_restoreFirewall c service kernel m hm howned hcapable hvalid
  apply Shows.contextError
  intro ended
  cases ended with
  | true =>
    apply hrestore.bind
    intro rollbackErr service' kernel' h
    exact (leads_degradeUnlessAvailable h.2).bind fun _ _ _ hagree => .ret hagree
  | false =>
    apply (reconcileIf_leavesAlone hasks _ next service kernel).bind
    rintro done _ _ ⟨rfl, rfl⟩
    cases done with
    | true =>
      apply leads_commitSnapshot
      apply Shows.ret
      apply hinst.publish
      intro hoff
      rw [havail] at hoff
      cases hoff
    | false =>
      apply hrestore.bind
      intro rollbackErr service' kernel' h
      cases rollbackErr with
      | none => exact .ret (h.2 (h.1 rfl))
      | some rollbackErr => exact (leads_degradeUnlessAvailable h.2).bind fun _ _ _ hagree => .ret hagree

theorem leads_finish_untouched {P : Service → Kernel → Prop} (hold : P service kernel)
    (hpublished : P { service with active := next } kernel)
    (hasks : ∀ r, reconcile = some r → ∀ previous next, LeavesAlone (r previous next))
    (previous : Option PluginSnapshot) (resetFirewall : Bool) :
    Leads (finishSnapshot c previous next reconcile reconcileFirst resetFirewall false) service kernel
      fun _ service' kernel' => P service' kernel' := by
  apply Shows.contextError
  intro ended
  cases ended with
  | true => exact .ret hold
  | false =>
    apply (reconcileIf_leavesAlone hasks previous next service kernel).bind
    rintro done _ _ ⟨rfl, rfl⟩
    cases done with
    | true => exact leads_commitSnapshot (.ret hpublished)
    | false => exact .ret hold

end Finish

/- A failed reset leaves a degraded snapshot unless the backend is still healthy. -/
theorem leads_abandon_reset {previous : Option PluginSnapshot}
    (h : firewallAvailable service = true → Agrees c service kernel) :
    Leads (abandonFirewall c previous next true error) service kernel
      fun _ service' kernel' => Agrees c service' kernel' :=
  (leads_degradeUnlessAvailable h).bind fun _ _ _ hagree => .ret hagree

theorem leads_abandon_update (hm : service.nft = some m) (howned : m.owned = true)
    (hcapable : m.capable = true)
    (hvalid : validateNFTScript (renderNFTStaticUpdate c (snapshotFirewall service.active)) = .ok ()) :
    Leads (abandonFirewall c service.active next false error) service kernel
      fun _ service' kernel' => Agrees c service' kernel' := by
  apply (leads_restoreFirewall hm howned hcapable hvalid).bind
  intro rollbackErr service' kernel' h
  exact (leads_degradeUnlessAvailable h.2).bind fun _ _ _ hagree => .ret hagree

section Apply
variable {next : Option PluginSnapshot} {reconcile : Option Reconcile}
  {reconcileFirst forceReset : Bool}

theorem leads_reset_step (hagree : Agrees c service kernel) (hnft : service.nft.isSome = true)
    (horder : reconcileFirst = true ∨ reconcile = none) (previous : Option PluginSnapshot) :
    Leads (do
      match ← applyFirewall c (snapshotFirewall next) true with
      | some error => abandonFirewall c previous next true error
      | none => finishSnapshot c previous next reconcile reconcileFirst true true) service kernel
      fun _ service' kernel' => Agrees c service' kernel' := by
  obtain ⟨m, hm⟩ := Option.isSome_iff_exists.mp hnft
  cases hcapable : m.capable with
  | false =>
    apply (leads_reset_incapable hm hcapable).bind
    rintro _ _ _ ⟨rfl, rfl, rfl⟩
    exact leads_abandon_reset fun _ => hagree
  | true =>
    apply (leads_reset hm hcapable).bind
    intro error service' kernel' h
    cases error with
    | none =>
      obtain ⟨hinst, havail, -⟩ := h.installs hcapable (exec_renderNFTConfig c _ _)
        validate_staticUpdate
      exact leads_finish_reset hinst havail horder previous
    | some error =>
      rcases h.failure with ⟨-, rfl, rfl⟩ | ⟨hoff, -⟩
      · exact leads_abandon_reset fun _ => hagree
      · apply leads_abandon_reset
        intro hon
        rw [hoff] at hon
        cases hon

theorem leads_update_step (hagree : Agrees c service kernel)
    (havail : firewallAvailable service = true)
    (hasks : ∀ r, reconcile = some r → ∀ previous next, LeavesAlone (r previous next)) :
    Leads (do
      match ← applyFirewall c (snapshotFirewall next) false with
      | some error => abandonFirewall c service.active next false error
      | none => finishSnapshot c service.active next reconcile reconcileFirst false true)
      service kernel fun _ service' kernel' => Agrees c service' kernel' := by
  obtain ⟨m, hm, hhealthy⟩ := available_iff.mp havail
  obtain ⟨howned, hcapable⟩ := hagree.installs.usable m hm hhealthy
  have hvalid := hagree.installs.restorable havail
  apply (leads_apply hm howned hcapable).bind
  intro error service' kernel' h
  cases error with
  | none =>
    obtain ⟨hinst, havail', hactive⟩ := h.installs hcapable (exec_renderNFTStaticUpdate c _) id
    obtain ⟨m', hm', -⟩ := available_iff.mp havail'
    rw [← hactive] at hvalid ⊢
    exact leads_finish_applied hinst havail' hm' hvalid hasks
  | some error =>
    rcases h.failure with ⟨-, rfl, rfl⟩ | ⟨-, hactive, m', hm', howned', hcapable'⟩
    · exact leads_abandon_update hm howned hcapable hvalid
    · rw [← hactive] at hvalid ⊢
      exact leads_abandon_update hm' howned' (hcapable'.trans hcapable) hvalid

/- Where no firewall step is made, the next snapshot fits the kernel as it is. -/
theorem publish_without_step (hagree : Agrees c service kernel)
    (hready : snapshotFirewallReady next = true → firewallAvailable service = true ∨
      (forceReset = true ∧ service.nft.isSome = true))
    (hstep : ¬ ((mutatesFirewall c service.active next forceReset && (firewallAvailable service ||
      (resetsFirewall service.active next forceReset && service.nft.isSome))) = true)) :
    Agrees c { service with active := next } kernel := by
  cases havail : firewallAvailable service with
  | true =>
    simp only [havail, Bool.true_or, Bool.and_true, mutatesFirewall, Bool.or_eq_true,
      not_or, Bool.not_eq_true] at hstep
    obtain ⟨⟨⟨-, -⟩, -⟩, hequal⟩ := hstep
    have hconfig := staticElements_eq_of_equal (c := c) (by simpa using hequal)
    refine (hagree.installs.congr hconfig).publish fun hoff => ?_
    rw [havail] at hoff
    cases hoff
  | false =>
    refine (Installs.of_unavailable havail).publish fun _ => ?_
    by_contra hnot
    rcases hready (by simpa using hnot) with hon | ⟨hforce, hnft⟩
    · rw [havail] at hon
      cases hon
    · apply hstep
      simp [mutatesFirewall, resetsFirewall, hforce, hnft]

/- A reset asks Xray before the firewall or not at all, and a snapshot that counts
on the firewall comes with a healthy backend or with a reset. -/
theorem leads_applySnapshot (hagree : Agrees c service kernel)
    (hasks : ∀ r, reconcile = some r → ∀ previous next, LeavesAlone (r previous next))
    (hready : snapshotFirewallReady next = true → firewallAvailable service = true ∨
      (forceReset = true ∧ service.nft.isSome = true))
    (horder : resetsFirewall service.active next forceReset = true →
      reconcileFirst = true ∨ reconcile = none) :
    Leads (applySnapshotWithOrder c next reconcile reconcileFirst forceReset) service kernel
      fun _ service' kernel' => Agrees c service' kernel' := by
  apply Shows.load
  apply Shows.contextError
  intro ended
  cases ended with
  | true => exact .ret hagree
  | false =>
    apply (reconcileIf_leavesAlone hasks service.active next service kernel).bind
    rintro done service kernel ⟨rfl, rfl⟩
    cases done with
    | false => exact .ret hagree
    | true =>
      apply Shows.contextError
      intro ended
      cases ended with
      | true => exact .ret hagree
      | false =>
        apply Shows.load
        dsimp only
        split
        case isFalse hstep =>
          exact leads_finish_untouched hagree (publish_without_step hagree hready hstep) hasks _ _
        case isTrue hstep =>
          simp only [Bool.and_eq_true, Bool.or_eq_true] at hstep
          cases hreset : resetsFirewall service.active next forceReset with
          | true =>
            refine leads_reset_step hagree ?_ (horder hreset) _
            rcases hstep.2 with havail | hnft
            · obtain ⟨m, hm, -⟩ := available_iff.mp havail
              simp [hm]
            · exact hnft.2
          | false =>
            have havail : firewallAvailable service = true := by
              rcases hstep.2 with havail | hnft
              · exact havail
              · rw [hreset] at hnft
                cases hnft.1
            exact leads_update_step hagree havail hasks

end Apply

/-! ### The operations -/

theorem snapshotFirewall_of_notReady {snapshot : Option PluginSnapshot}
    (h : snapshotFirewallReady snapshot = false) : snapshotFirewall snapshot = .empty := by
  cases snapshot with
  | none => rfl
  | some snapshot =>
    have hnot : snapshot.firewallReady = false := h
    simp [snapshotFirewall, hnot]

/- Tables are created empty only while the snapshot does not count on them. -/
theorem leads_initializeTables_agrees (hagree : Agrees c service kernel) :
    Leads (Nft.initializeTables c) service kernel fun _ service' kernel' =>
      Agrees c service' kernel' := by
  cases hnft : service.nft with
  | none =>
    apply Shows.load
    rw [hnft]
    exact .ret hagree
  | some m =>
    cases hhealthy : m.healthy with
    | true =>
      apply Shows.load
      simp only [hnft, hhealthy]
      exact .ret hagree
    | false =>
      cases hcapable : m.capable with
      | false =>
        apply Shows.load
        simp only [hnft, hhealthy, hcapable]
        exact .ret hagree
      | true =>
        have hoff : firewallAvailable service = false := by
          simp [firewallAvailable, hnft, hhealthy]
        have hnotReady := hagree.degraded hoff
        refine (leads_initializeTables hnft hhealthy hcapable).mono fun error service' kernel' h => ?_
        cases error with
        | none =>
          obtain ⟨hinst, havail, hactive⟩ := h.installs hcapable (exec_renderNFTConfig c _ _)
            validate_staticUpdate
          refine ⟨?_, fun hoff' => ?_⟩
          · rw [hactive, snapshotFirewall_of_notReady hnotReady]
            exact hinst
          · rw [havail] at hoff'
            cases hoff'
        | some error =>
          rcases h.failure with ⟨-, rfl, rfl⟩ | ⟨hoff', hactive, -⟩
          · exact hagree
          · exact ⟨.of_unavailable hoff', fun _ => by rw [hactive]; exact hnotReady⟩

theorem leads_clear (hagree : Agrees c service kernel) :
    Leads (applySnapshotWithOrder c none (some stopXray) true false) service kernel
      fun _ service' kernel' => Agrees c service' kernel' := by
  exact leads_applySnapshot hagree stopXray_asks (fun h => (nomatch h)) fun _ => Or.inl rfl

theorem leads_publishPlan {snapshot : PluginSnapshot} (hagree : Agrees c service kernel)
    (hready : snapshot.firewallReady = true → firewallAvailable service = true) :
    Leads (publishPlan c snapshot) service kernel fun _ service' kernel' =>
      Agrees c service' kernel' := by
  apply Shows.load
  dsimp only
  split
  case isTrue hequal =>
    apply leads_commitSnapshot
    apply Shows.ret
    cases hactive : service.active with
    | none => simp [pluginSnapshotsBehaviorEqual, hactive] at hequal
    | some previous =>
      simp only [pluginSnapshotsBehaviorEqual, hactive, Bool.and_eq_true, decide_eq_true_eq]
        at hequal
      obtain ⟨⟨⟨⟨⟨hsame, -⟩, -⟩, -⟩, -⟩, hconfig⟩ := hequal
      have hinst := hagree.installs
      rw [hactive] at hinst
      refine (hinst.congr (r := snapshotFirewall (some snapshot)) ?_).publish ?_
      · intro set
        simp only [snapshotFirewall, ← hsame]
        cases previous.firewallReady with
        | true => exact staticElements_eq_of_equal hconfig set
        | false => rfl
      · intro hoff
        have hold := hagree.degraded hoff
        rw [hactive] at hold
        exact hsame.symm.trans hold
  case isFalse =>
    refine Shows.bind (leads_applySnapshot hagree torrent_leavesAlone (fun h => Or.inl (hready h)) ?_)
      fun _ _ _ hagree' => .ret hagree'
    · intro hreset
      simp only [resetsFirewall, Option.isNone_some, Bool.false_or] at hreset
      exact Or.inl hreset

theorem leads_blockIPs_agrees {items : List BlockIP} (hagree : Agrees c service kernel)
    (havail : firewallAvailable service = true) :
    Leads (Nft.blockIPs c items) service kernel fun error service' kernel' =>
      service'.active = service.active ∧
      (firewallAvailable service' = true → Agrees c service' kernel') ∧
      (error = none → Agrees c service' kernel') := by
  obtain ⟨m, hm, hhealthy⟩ := available_iff.mp havail
  refine (leads_blockIPs hm hhealthy).mono fun error service' kernel' h => ?_
  obtain ⟨hstatics, rfl | ⟨hfailed, rfl⟩⟩ := h
  · have hagree' : Agrees c service' kernel' :=
      ⟨⟨hagree.installs.usable, fun ha => hstatics _ (hagree.installs.statics ha),
        hagree.installs.restorable⟩, hagree.degraded⟩
    exact ⟨rfl, fun _ => hagree', fun _ => hagree'⟩
  · refine ⟨rfl, fun hon => ?_, fun hnone => ?_⟩
    · cases hon
    · rw [hnone] at hfailed
      cases hfailed

theorem Agrees.renamed {previous : PluginSnapshot} (hagree : Agrees c service kernel)
    (hactive : service.active = some previous) (uuid name : String) :
    Agrees c { service with
      active := some { previous with pluginUUID := uuid, pluginName := name } } kernel := by
  have hinst : Installs c (snapshotFirewall (some { previous with
      pluginUUID := uuid, pluginName := name })) service kernel := by
    have hold := hagree.installs
    rw [hactive] at hold
    exact hold
  refine hinst.publish fun hoff => ?_
  have hold := hagree.degraded hoff
  rw [hactive] at hold
  exact hold

/- The sets agree with the snapshot after an operation if they do before it. -/
def agreeing (c : Codec) : Judgment :=
  alone (fun _ s => Agrees c s.service s.kernel) (fun _ _ _ h => h) fun _ _ h => h

theorem agrees_upkeep (c : Codec) : Upkeep c (fun _ => True) (agreeing c) where
  unread := by
    rintro _ service initialized reports s hs hseen _
    obtain rfl := hseen service rfl
    exact ⟨trivial, hs.of_same rfl rfl⟩
  renamed := by
    rintro service previous request - hactive s hs hseen
    obtain rfl := hseen service rfl
    exact fun _ => ⟨trivial, fun _ => ⟨trivial, hs.renamed hactive request.uuid request.name⟩⟩
  initializeTables := fun s h _ => leads_initializeTables_agrees h s rfl rfl
  clear := fun s h _ => leads_clear h s rfl rfl
  publish := by
    rintro service request snapshot - hplan s hs hseen
    obtain rfl := hseen service rfl
    exact leads_publishPlan hs (fun hr => (plan_firewallReady hplan).symm.trans hr) s rfl rfl
  recreate := by
    rintro service hnft s hs hseen
    obtain rfl := hseen service rfl
    exact leads_applySnapshot hs torrent_leavesAlone (fun _ => Or.inr ⟨rfl, hnft⟩)
      (fun _ => Or.inl rfl) s rfl rfl
  block := by
    rintro service items desired havail hdesired s hs hseen
    obtain rfl := hseen service rfl
    refine wp_orDegrade hdesired (Program.wp_mono (leads_blockIPs_agrees hs havail s rfl rfl) ?_)
    intro error t ht
    cases error with
    | none => exact ht.2.2 rfl
    | some error => exact fun _ _ => leads_degradeUnlessAvailable ht.2.1 t rfl rfl

theorem agrees_wipe (c : Codec) :
    (agreeing c).Holds false none (applySnapshotWithOrder c none none false false) :=
  fun s h _ => leads_applySnapshot h (fun _ hr => by cases hr) (fun hr => by cases hr)
    (fun _ => Or.inr rfl) s rfl rfl

/-! ### Runs -/

theorem step_agrees {w w' : World} {e : Event} (h : Agrees c w.service w.kernel)
    (hordinary : e.operation.Ordinary) (hstep : step c w e = some w') :
    Agrees c w'.service w'.kernel := by
  obtain rfl := Option.some.inj hstep
  have hend := (agrees_upkeep c).program hordinary (fun _ _ => trivial) fun _ => agrees_wipe c
  exact Program.wp_run (hend w.session h nothing_seen) e.choices

/- A service whose backend has not been set up. -/
def World.New (w : World) : Prop :=
  ∃ capable options hasXray asn, w.service =
      newService (some (newNFTManager capable options)) hasXray asn ∨
    w.service = newService none hasXray asn

theorem new_agrees {w : World} (h : w.New) : Agrees c w.service w.kernel := by
  obtain ⟨capable, options, hasXray, asn, h | h⟩ := h
  · rw [h]
    exact ⟨.of_unavailable rfl, fun _ => rfl⟩
  · rw [h]
    exact ⟨.of_unavailable rfl, fun _ => rfl⟩

/-- After every operation of a run a healthy backend goes with static sets that
are those of the published snapshot, and an unhealthy one with no snapshot or one
that does not count on the firewall. -/
theorem firewall_matches_snapshot (c : Codec) (w₀ w : World) (hnew : w₀.New)
    (hrun : Transition.Steps (step c) (fun _ e => e.operation.Ordinary) w₀ w) :
    (firewallAvailable w.service = true → ∀ set ∈ NftSet.statics,
      w.kernel set = (staticElements c (snapshotFirewall w.service.active) set).toFinset) ∧
    (firewallAvailable w.service = false →
      (w.service.active = none ∨
        ∃ snapshot, w.service.active = some snapshot ∧ snapshot.firewallReady = false) ∧
      effectiveTorrentEnabled w.service.active = false) := by
  have hagree : Agrees c w.service w.kernel :=
    hrun.invariant (fun w => Agrees c w.service w.kernel) (new_agrees hnew)
      fun _ _ _ h hordinary hstep => step_agrees h hordinary hstep
  refine ⟨hagree.installs.statics, fun hoff => ?_⟩
  have hnot := hagree.degraded hoff
  cases hactive : w.service.active with
  | none => exact ⟨Or.inl rfl, rfl⟩
  | some snapshot =>
    rw [hactive] at hnot
    have hready : snapshot.firewallReady = false := hnot
    exact ⟨Or.inr ⟨snapshot, rfl, hready⟩, by simp [effectiveTorrentEnabled, hready]⟩

/- A capable host on which every script and every request to Xray succeeds. -/
def freshWorld : World :=
  ⟨newService (some (newNFTManager true ⟨false, false⟩)) true none, fun _ => ∅⟩

def smooth (operation : Operation) : Event := ⟨operation, fun _ => ⟨false, .done, true⟩⟩

def after (c : Codec) (w : World) (e : Event) : World := (step c w e).getD w

theorem step_after (c : Codec) (w : World) (e : Event) : step c w e = some (after c w e) := rfl

def blockedWorld : World :=
  after (plainCodec (blockedConfig ["10.0.0.0/8"]))
    (after (plainCodec (blockedConfig ["10.0.0.0/8"])) freshWorld (smooth .initializeContext))
    (smooth (.sync (some ⟨"uuid", "name", "config"⟩)))

theorem firewall_matches_snapshot_blocked :
    firewallAvailable blockedWorld.service = true ∧
      blockedWorld.kernel .ingressFilterIPSet = {"10.0.0.0/8"} := by
  have hrun : Transition.Steps (step (plainCodec (blockedConfig ["10.0.0.0/8"])))
      (fun _ e => e.operation.Ordinary) freshWorld blockedWorld :=
    .tail (smooth (.sync (some ⟨"uuid", "name", "config"⟩)))
      (.tail (smooth .initializeContext) .refl trivial (step_after _ _ _)) trivial (step_after _ _ _)
  have havail : firewallAvailable blockedWorld.service = true := by decide +kernel
  have hmatch := firewall_matches_snapshot _ freshWorld blockedWorld
    ⟨true, ⟨false, false⟩, true, none, Or.inl rfl⟩ hrun
  refine ⟨havail, (hmatch.1 havail .ingressFilterIPSet (by decide)).trans ?_⟩
  decide +kernel

end RemnanodeLite.Plugin
