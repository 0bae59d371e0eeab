import Mathlib.Logic.Equiv.List
import RemnanodeLite.Plugin.Degraded
import RemnanodeLite.Plugin.Publishing
import RemnanodeLite.Xray.ApiConfig

/-! # The core beside the plugin

A core keeps the config it was started with, and the options of that config come
from the snapshot that was active then. An operation that makes a torrent blocker
effective, changes the rules of an effective one or turns it off by a config with tags
stops the core. -/

namespace RemnanodeLite.Plugin
open Xray (TorrentBlockerOptions SameApartFromTorrent)

/-! ### The options of a snapshot -/

/- `torrentBlockerOptions` of the manager with the three functions of `State` it calls. -/
def torrentBlockerOptions (active : Option PluginSnapshot) (socketPath restToken : String) :
    TorrentBlockerOptions where
  enabled := effectiveTorrentEnabled active
  includeRuleTags := if effectiveTorrentEnabled active then torrentTags active else []
  rulePosition := if effectiveTorrentEnabled active then torrentPosition active else 0
  socketPath := socketPath
  restToken := restToken

structure Codec.Collisionless (c : Codec) : Prop where
  hashed : ∀ text, c.sha256 text ≠ ""
  tags : ∀ left right, c.sha256 (c.marshalStrings left) = c.sha256 (c.marshalStrings right) →
    left = right

theorem Codec.Collisionless.perm {c : Codec} (hc : c.Collisionless) {left right : List String}
    (h : hashIncludeRuleTags c left = hashIncludeRuleTags c right) : left.Perm right := by
  have hsort : left.insertionSort (· ≤ ·) = right.insertionSort (· ≤ ·) := by
    unfold hashIncludeRuleTags at h
    dsimp only at h
    split_ifs at h with hl hr hr
    · rw [List.isEmpty_iff.mp hl, List.isEmpty_iff.mp hr]
    · exact absurd h.symm (hc.hashed _)
    · exact absurd h (hc.hashed _)
    · exact hc.tags _ _ h
  calc left.Perm (left.insertionSort (· ≤ ·)) := (List.perm_insertionSort _ _).symm
    _ = right.insertionSort (· ≤ ·) := hsort
    List.Perm _ right := List.perm_insertionSort _ _

/-! ### What an operation does to the snapshot and to the core -/

def Session.stopped (s : Session) : Bool := s.trace.contains (.xray .stopIfOnline true)

/- What a program makes of the service, and whether the core is stopped then. -/
abbrev Tells {α : Type} (p : PluginM α) (service : Service) (stopped : Bool)
    (post : α → Service → Bool → Prop) : Prop :=
  Shows ⟨Session.stopped, fun _ _ _ => rfl⟩ p service stopped post

section Rules
variable {service : Service} {stopped : Bool}

theorem stopped_cons (s : Session) (effect : Effect) (h : effect ≠ .xray .stopIfOnline true) :
    ({ s with trace := effect :: s.trace } : Session).stopped = s.stopped := by
  simp [Session.stopped, Ne.symm h]

theorem Tells.stop {post : Bool → Service → Bool → Prop} (hdone : post true service true)
    (hfailed : post false service stopped) :
    Tells (Plugin.xray .stopIfOnline) service stopped post := by
  rintro s rfl rfl choice
  refine ⟨trivial, ?_⟩
  change post choice.xrayDone s.service
    ({ s with trace := .xray .stopIfOnline choice.xrayDone :: s.trace } : Session).stopped
  cases choice.xrayDone with
  | true =>
    have hnow : ({ s with trace := .xray .stopIfOnline true :: s.trace } : Session).stopped = true := by
      simp [Session.stopped]
    rw [hnow]
    exact hdone
  | false =>
    rw [stopped_cons s _ (by simp)]
    exact hfailed

theorem Tells.removeOutbound {post : Bool → Service → Bool → Prop}
    (h : ∀ done, post done service stopped) :
    Tells (Plugin.xray .removeTorrentBlockerOutbound) service stopped post := by
  rintro s rfl rfl choice
  refine ⟨trivial, ?_⟩
  change post choice.xrayDone s.service ({ s with
    trace := .xray .removeTorrentBlockerOutbound choice.xrayDone :: s.trace } : Session).stopped
  rw [stopped_cons s _ (by simp)]
  exact h choice.xrayDone

end Rules

/-! ### Steps that leave the snapshot alone -/

def SameSnapshot (service service' : Service) : Prop :=
  service'.active = service.active ∧ service'.hasXray = service.hasXray

def KeepsSnapshot {α : Type} (p : PluginM α) : Prop :=
  ∀ service stopped, Tells p service stopped fun _ service' stopped' =>
    SameSnapshot service service' ∧ stopped' = stopped

section Keeps
variable {α β : Type} {p : PluginM α} {f : α → PluginM β}

theorem beside_snapshot (service : Service) (stopped : Bool) :
    Beside fun s => SameSnapshot service s.service ∧ s.stopped = stopped := by
  refine ⟨fun s _ h => h, ?_, fun s s' _ h h' => ⟨h'.1, h.2⟩⟩
  intro script s outcome h
  cases outcome with
  | done => exact ⟨h.1, (stopped_cons s _ (by simp)).trans h.2⟩
  | failed tookEffect error =>
    cases tookEffect <;> exact ⟨h.1, (stopped_cons s _ (by simp)).trans h.2⟩

theorem KeepsSnapshot.of_beside
    (h : ∀ inv : Session → Prop, Beside inv → Program.Stable handle inv p) : KeepsSnapshot p := by
  rintro service stopped s rfl rfl
  exact (h _ (beside_snapshot s.service s.stopped)).wp ⟨⟨rfl, rfl⟩, rfl⟩

variable {c : Codec}

theorem apply_keeps (config : FirewallConfig) : KeepsSnapshot (Nft.apply c config) :=
  .of_beside fun _ hinv => hinv.apply config

theorem reset_keeps (config : FirewallConfig) : KeepsSnapshot (Nft.reset c config) :=
  .of_beside fun _ hinv => hinv.reset config

theorem blockIPs_keeps (items : List BlockIP) : KeepsSnapshot (Nft.blockIPs c items) :=
  .of_beside fun _ hinv => hinv.blockIPs items

theorem applyFirewall_keeps (config : FirewallConfig) (reset : Bool) :
    KeepsSnapshot (applyFirewall c config reset) := by
  unfold applyFirewall
  split
  · exact reset_keeps _
  · exact apply_keeps _

end Keeps

/-! ### Snapshots that need no other core -/

/- The snapshot is degraded, or of a config that turns the blocker off and names no tags. -/
def excused : Option PluginSnapshot → Bool
  | none => false
  | some snapshot => !snapshot.firewallReady ||
      (!snapshot.torrent.enabled && snapshot.torrent.includeRuleTags.isEmpty)

/- If the blocker is effective afterwards, it was before, with the same tags. -/
def Follows (c : Codec) (before after : Option PluginSnapshot) : Prop :=
  effectiveTorrentEnabled after = true → effectiveTorrentEnabled before = true ∧
    hashIncludeRuleTags c (torrentTags before) = hashIncludeRuleTags c (torrentTags after)

/- A core that was started with `before` may go on with `after`. -/
structure Suits (c : Codec) (before after : Option PluginSnapshot) : Prop where
  follows : Follows c before after
  lasts : effectiveTorrentEnabled before = true →
    effectiveTorrentEnabled after = true ∨ excused after = true

/- The core is stopped, or the snapshot needs no other one. -/
structure Steady (c : Codec) (service : Service) (stopped : Bool) (service' : Service)
    (stopped' : Bool) : Prop where
  stays : stopped = true → stopped' = true
  suits : stopped' = true ∨ Suits c service.active service'.active

section Steady
variable {c : Codec} {service service' service'' : Service} {stopped stopped' stopped'' : Bool}
  {previous next : Option PluginSnapshot}

theorem Follows.refl (snapshot : Option PluginSnapshot) : Follows c snapshot snapshot :=
  fun h => ⟨h, rfl⟩

theorem Follows.trans {a b d : Option PluginSnapshot} (h : Follows c a b) (h' : Follows c b d) :
    Follows c a d := by
  intro hd
  obtain ⟨hb, hbd⟩ := h' hd
  obtain ⟨ha, hab⟩ := h hb
  exact ⟨ha, hab.trans hbd⟩

theorem Follows.of_off (h : effectiveTorrentEnabled next = false) : Follows c previous next := by
  intro hn
  rw [h] at hn
  cases hn

theorem Suits.refl (snapshot : Option PluginSnapshot) : Suits c snapshot snapshot :=
  ⟨.refl snapshot, .inl⟩

theorem Steady.refl (service : Service) (stopped : Bool) : Steady c service stopped service stopped :=
  ⟨id, .inr (.refl _)⟩

theorem SameSnapshot.steady (h : SameSnapshot service service')
    (hstays : stopped = true → stopped' = true) : Steady c service stopped service' stopped' :=
  ⟨hstays, .inr (h.1 ▸ .refl _)⟩

theorem Steady.after (h : Steady c service' stopped' service'' stopped'')
    (hsame : SameSnapshot service service') (hstays : stopped = true → stopped' = true) :
    Steady c service stopped service'' stopped'' :=
  ⟨h.stays ∘ hstays, hsame.1 ▸ h.suits⟩

theorem KeepsSnapshot.then {α β : Type} {p : PluginM α} {f : α → PluginM β} (hp : KeepsSnapshot p)
    (hf : ∀ a service', SameSnapshot service service' →
      Tells (f a) service' stopped fun _ service'' stopped'' =>
        Steady c service' stopped service'' stopped'') :
    Tells (p >>= f) service stopped fun _ service'' stopped'' =>
      Steady c service stopped service'' stopped'' := by
  refine (hp service stopped).bind ?_
  rintro a service' stopped' ⟨hsame, rfl⟩
  exact (hf a service' hsame).mono fun _ _ _ hsteady => hsteady.after hsame id

theorem commitSnapshot_steady (h : stopped = true ∨ Suits c service.active next) :
    Tells (commitSnapshot next) service stopped fun _ service' stopped' =>
      Steady c service stopped service' stopped' := by
  rintro s rfl rfl _
  exact ⟨trivial, fun _ => ⟨trivial, id, h⟩⟩

variable {snapshot : PluginSnapshot}

theorem suits_degraded :
    Suits c previous (some { snapshot with firewallReady := false }) :=
  ⟨.of_off rfl, fun _ => .inr rfl⟩

theorem degradeUnlessAvailable_steady {desired : Option PluginSnapshot}
    (hdesired : desired = none → service.active = none) :
    Tells (degradeUnlessAvailable desired) service stopped fun _ service' stopped' =>
      Steady c service stopped service' stopped' := by
  apply Shows.load
  split
  · exact .ret (.refl _ _)
  · refine commitSnapshot_steady (.inr ?_)
    cases desired with
    | some snapshot => exact suits_degraded
    | none =>
      rw [hdesired rfl]
      exact .refl _

/-! ### Asking Xray -/

/- The request to Xray succeeds only if it stops the core or there is no need to. -/
def Reconciles (c : Codec) (step : PluginM Bool) (previous next : Option PluginSnapshot) : Prop :=
  ∀ service stopped, service.hasXray = true →
    Tells step service stopped fun done service' stopped' =>
      service' = service ∧ (stopped = true → stopped' = true) ∧
        (done = true → stopped' = true ∨ Suits c previous next)

theorem stopXray_reconciles : Reconciles c (stopXray previous next) previous next := by
  intro service stopped hxray
  apply Shows.load
  rw [if_pos hxray]
  exact Tells.stop ⟨rfl, fun _ => rfl, fun _ => .inl rfl⟩ ⟨rfl, id, fun h => by cases h⟩

theorem excused_of_untagged (hoff : effectiveTorrentEnabled (some snapshot) = false)
    (htags : (torrentTags (some snapshot)).isEmpty = true) : excused (some snapshot) = true := by
  rw [excused, Bool.or_eq_true, Bool.and_eq_true]
  cases hready : snapshot.firewallReady with
  | false => exact .inl rfl
  | true =>
    have hdisabled : snapshot.torrent.enabled = false := by
      simpa [effectiveTorrentEnabled, hready] using hoff
    exact .inr ⟨by rw [hdisabled]; rfl, htags⟩

theorem reconcileTorrent_reconciles (hnext : next = none → previous = none) :
    Reconciles c (reconcileTorrent c previous next) previous next := by
  intro service stopped hxray
  apply Shows.load
  simp only [hxray, Bool.not_true, Bool.false_eq_true, if_false]
  split
  · next huntagged =>
    -- only the outbound goes, so the new snapshot has to be excused
    simp only [Bool.and_eq_true, Bool.not_eq_true'] at huntagged
    obtain ⟨⟨hwas, hoff⟩, htags⟩ := huntagged
    have hexcused : excused next = true := by
      cases next with
      | some snapshot => exact excused_of_untagged hoff htags
      | none =>
        rw [hnext rfl] at hwas
        cases hwas
    exact Tells.removeOutbound fun _ => ⟨rfl, id, fun _ => .inr ⟨.of_off hoff, fun _ => .inr hexcused⟩⟩
  · split
    · exact Tells.stop ⟨rfl, fun _ => rfl, fun _ => .inl rfl⟩ ⟨rfl, id, fun h => by cases h⟩
    · next hsame =>
      refine .ret ⟨rfl, id, fun _ => .inr ?_⟩
      simp only [Bool.or_eq_true, not_or] at hsame
      obtain ⟨⟨⟨hlost, hgained⟩, htags⟩, -⟩ := hsame
      refine ⟨fun hnow => ?_, fun hwas => .inl (by simpa [hwas] using hlost)⟩
      have hwas : effectiveTorrentEnabled previous = true := by simpa [hnow] using hgained
      exact ⟨hwas, by simpa [hwas, hnow] using htags⟩

theorem reconcileIf_tells {now : Bool} {reconcile : Reconcile} (hxray : service.hasXray = true)
    (hrec : Reconciles c (reconcile previous next) previous next) :
    Tells (reconcileIf now (some reconcile) previous next) service stopped
      fun done service' stopped' => service' = service ∧ (stopped = true → stopped' = true) ∧
        (done = true → now = true → stopped' = true ∨ Suits c previous next) := by
  unfold reconcileIf
  cases now with
  | true =>
    exact (hrec service stopped hxray).mono fun _ _ _ h => ⟨h.1, h.2.1, fun hdone _ => h.2.2 hdone⟩
  | false => exact .ret ⟨rfl, id, fun _ h => by cases h⟩

/-! ### Applying a snapshot -/

section Apply
variable {reconcile : Reconcile} {reconcileFirst resetFirewall forceReset : Bool}

theorem abandonFirewall_steady {error : NftError} :
    Tells (abandonFirewall c service.active next resetFirewall error) service stopped
      fun _ service' stopped' => Steady c service stopped service' stopped' := by
  unfold abandonFirewall
  split
  · refine (degradeUnlessAvailable_steady fun hnone => ?_).bind fun _ _ _ h => .ret h
    cases next with
    | none => exact hnone
    | some snapshot => cases hnone
  · refine (apply_keeps _).then fun rollbackErr service' hsame => ?_
    refine (degradeUnlessAvailable_steady fun hnone => ?_).bind fun _ _ _ h => .ret h
    exact hsame.1.trans hnone

theorem finishSnapshot_steady {firewallApplied : Bool} (hxray : service.hasXray = true)
    (hprev : service.active = previous) (hrec : Reconciles c (reconcile previous next) previous next)
    (hfirst : reconcileFirst = true → stopped = true ∨ Suits c previous next)
    (hreset : resetFirewall = true → reconcileFirst = true) :
    Tells (finishSnapshot c previous next (some reconcile) reconcileFirst resetFirewall firewallApplied)
      service stopped fun _ service' stopped' => Steady c service stopped service' stopped' := by
  subst hprev
  apply Shows.contextError
  intro ended
  cases ended with
  | true =>
    rw [if_pos rfl]
    split
    · next happlied =>
      -- the reset is published although the context has ended
      rw [Bool.and_eq_true] at happlied
      exact (commitSnapshot_steady (hfirst (hreset happlied.2))).bind fun _ _ _ h => .ret h
    · split
      · refine (apply_keeps _).then fun rollbackErr service' hsame => ?_
        exact (degradeUnlessAvailable_steady hsame.1.trans).bind fun _ _ _ h => .ret h
      · exact .ret (.refl _ _)
  | false =>
    rw [if_neg Bool.false_ne_true]
    refine (reconcileIf_tells hxray hrec).bind ?_
    rintro done service stopped' ⟨rfl, hstays, hdone⟩
    have hsame : SameSnapshot service service := ⟨rfl, rfl⟩
    cases done with
    | true =>
      rw [if_pos rfl]
      have hsuits : stopped' = true ∨ Suits c service.active next := by
        cases hf : reconcileFirst with
        | true => exact (hfirst hf).imp_left hstays
        | false => exact hdone rfl (by simp [hf])
      exact (commitSnapshot_steady hsuits).bind fun _ _ _ h => .ret (h.after hsame hstays)
    | false =>
      rw [if_neg Bool.false_ne_true]
      split
      · refine ((apply_keeps _).then fun rollbackErr service' hsame => ?_).mono
          fun _ _ _ h => h.after hsame hstays
        split
        · exact .ret (.refl _ _)
        · exact (degradeUnlessAvailable_steady hsame.1.trans).bind fun _ _ _ h => .ret h
      · exact .ret (hsame.steady hstays)

theorem applySnapshot_steady (hxray : service.hasXray = true)
    (hrec : Reconciles c (reconcile service.active next) service.active next)
    (hreset : resetsFirewall service.active next forceReset = true → reconcileFirst = true) :
    Tells (applySnapshotWithOrder c next (some reconcile) reconcileFirst forceReset) service stopped
      fun _ service' stopped' => Steady c service stopped service' stopped' := by
  apply Shows.load
  apply Shows.contextError
  intro ended
  split
  · exact .ret (.refl _ _)
  refine (reconcileIf_tells hxray hrec).bind ?_
  rintro done service stopped' ⟨rfl, hstays, hdone⟩
  have hsame : SameSnapshot service service := ⟨rfl, rfl⟩
  cases done with
  | false => exact .ret (hsame.steady hstays)
  | true =>
    simp only [Bool.not_true, Bool.false_eq_true, if_false]
    apply Shows.contextError
    intro ended
    split
    · exact .ret (hsame.steady hstays)
    apply Shows.load
    refine Shows.mono ?_ fun _ _ _ (h : Steady c service stopped' _ _) => h.after hsame hstays
    split
    · refine (applyFirewall_keeps _ _).then fun error service' hsame => ?_
      rw [← hsame.1] at hrec hdone hreset ⊢
      cases error with
      | some error => exact abandonFirewall_steady
      | none => exact finishSnapshot_steady (hsame.2.trans hxray) rfl hrec (hdone rfl) hreset
    · exact finishSnapshot_steady hxray rfl hrec (hdone rfl) hreset

end Apply

/-! ### Operations -/

theorem suits_of_behaviorEqual (h : pluginSnapshotsBehaviorEqual c previous snapshot = true) :
    Suits c previous (some snapshot) := by
  cases previous with
  | none => cases h
  | some left =>
    simp only [pluginSnapshotsBehaviorEqual, torrentSettingsEqual, Bool.and_eq_true,
      decide_eq_true_eq] at h
    obtain ⟨⟨⟨⟨⟨hready, -⟩, ⟨⟨⟨⟨⟨⟨henabled, -⟩, -⟩, -⟩, htags⟩, -⟩, -⟩⟩, -⟩, -⟩, -⟩ := h
    have hsame : effectiveTorrentEnabled (some left) = effectiveTorrentEnabled (some snapshot) := by
      simp only [effectiveTorrentEnabled, hready, henabled]
    exact ⟨fun h => ⟨hsame.trans h, htags⟩, fun h => .inl (hsame.symm.trans h)⟩

theorem publishPlan_steady (hxray : service.hasXray = true) :
    Tells (publishPlan c snapshot) service stopped fun _ service' stopped' =>
      Steady c service stopped service' stopped' := by
  apply Shows.load
  dsimp only
  split
  · next hequal =>
    exact (commitSnapshot_steady (.inr (suits_of_behaviorEqual hequal))).bind fun _ _ _ h => .ret h
  · have hrec : Reconciles c (reconcileTorrent c service.active (some snapshot)) service.active
        (some snapshot) := reconcileTorrent_reconciles fun h => by cases h
    exact (applySnapshot_steady hxray hrec (by simp [resetsFirewall])).bind fun _ _ _ h => .ret h

/- From `service` and `stopped`, with nothing done until the change is made. -/
def steadily (c : Codec) (service : Service) (stopped : Bool) : Judgment :=
  alone (fun late s => (late = false → s.service = service ∧ s.stopped = stopped) ∧
    Steady c service stopped s.service s.stopped) (fun _ _ _ h => h) fun _ _ h => ⟨nofun, h.2⟩

section Parts
variable {α : Type} {seen : Option Service}

theorem steadily_of_tells {p : PluginM α} (hp : Tells p service stopped fun _ service' stopped' =>
    Steady c service stopped service' stopped') : (steadily c service stopped).Holds false seen p := by
  intro s hs _
  obtain ⟨hservice, hstopped⟩ := hs.1 rfl
  exact Program.wp_mono (hp s hservice hstopped) fun _ _ ht => ⟨nofun, ht⟩

theorem steadily_keeps {p : PluginM α} (hp : KeepsSnapshot p) :
    (steadily c service stopped).Holds false seen p :=
  steadily_of_tells ((hp service stopped).mono fun _ _ _ h => h.1.steady fun hs => h.2.trans hs)

theorem steadily_orDegrade {p : PluginM (Option NftError)} {desired : PluginM (Option PluginSnapshot)}
    (hp : KeepsSnapshot p) (hdesired : Recalls (steadily c service stopped) service' desired) :
    (steadily c service stopped).Holds false (some service') (orDegrade p desired) := by
  intro s hs hseen
  obtain rfl := hseen service' rfl
  obtain ⟨rfl, rfl⟩ := hs.1 rfl
  refine wp_orDegrade hdesired (Program.wp_mono (hp s.service s.stopped s rfl rfl) ?_)
  rintro error t ⟨hsame, hstopped⟩
  have hstays : s.stopped = true → t.stopped = true := fun h => hstopped.trans h
  cases error with
  | none => exact ⟨nofun, hsame.steady hstays⟩
  | some error =>
    intro snapshot hsnapshot
    have hactive : snapshot = none → t.service.active = none := by
      rcases hsnapshot with rfl | rfl
      · exact id
      · exact hsame.1.trans
    exact Program.wp_mono (degradeUnlessAvailable_steady hactive t rfl rfl)
      fun _ _ h => ⟨nofun, h.after hsame hstays⟩

end Parts

theorem steady_upkeep (hxray : service.hasXray = true) :
    Upkeep c (fun _ => True) (steadily c service stopped) where
  unread := by
    rintro late service' initialized reports s hs hseen _
    obtain rfl := hseen service' rfl
    exact ⟨trivial, nofun, hs.2.stays, hs.2.suits⟩
  renamed := by
    rintro service' previous request - hactive s hs hseen
    obtain rfl := hseen service' rfl
    obtain ⟨rfl, -⟩ := hs.1 rfl
    refine fun _ => ⟨trivial, fun _ => ⟨trivial, nofun, hs.2.stays, .inr ?_⟩⟩
    rw [hactive]
    exact ⟨fun h => ⟨h, rfl⟩, .inl⟩
  initializeTables := steadily_keeps (.of_beside fun _ hinv => hinv.initializeTables)
  clear := steadily_of_tells (applySnapshot_steady hxray stopXray_reconciles fun _ => rfl)
  publish := fun _ _ _ _ _ => steadily_of_tells (publishPlan_steady hxray)
  recreate := by
    rintro service' - s hs hseen
    obtain rfl := hseen service' rfl
    obtain ⟨rfl, rfl⟩ := hs.1 rfl
    have hrec : Reconciles c (reconcileTorrent c s.service.active (s.service.active.map
        fun snapshot => { snapshot with firewallReady := true })) _ _ :=
      reconcileTorrent_reconciles (by simp)
    exact steadily_of_tells (applySnapshot_steady hxray hrec fun _ => rfl) s hs hseen
  block := fun _ items _ _ hdesired => steadily_orDegrade (blockIPs_keeps items) hdesired

/- `ResetPlugins` follows a successful stop of the core, and the service is closed last. -/
def Operation.afterCore : Operation → Bool
  | .resetPlugins => true
  | .close => true
  | _ => false

theorem program_steady (hxray : service.hasXray = true) {operation : Operation}
    (hoperation : operation.afterCore = false) :
    Tells (operation.program c) service stopped fun _ service' stopped' =>
      Steady c service stopped service' stopped' := by
  suffices hholds : (steadily c service stopped).Holds false none (operation.program c) by
    rintro s rfl rfl
    exact Program.wp_mono (hholds s ⟨fun _ => ⟨rfl, rfl⟩, .refl _ _⟩ nothing_seen)
      fun _ _ ht => ht.2
  cases operation with
  | unblockIPs ips =>
    refine Upkeep.returning (Upkeep.blocking fun _ _ _ hdesired => ?_) _
    exact steadily_orDegrade (.of_beside fun _ hinv => hinv.unblockIPs ips) hdesired
  | resetPlugins => cases hoperation
  | close => cases hoperation
  | _ => exact (steady_upkeep hxray).program trivial (fun _ _ => trivial) (by simp)

end Steady

/-! ### Runs with a core -/

/- `core` holds the options under which the config of the running core was made; `since` is
history: the operations since its start, with the snapshots they left, newest first. -/
structure Host where
  plugin : World
  core : Option TorrentBlockerOptions
  since : List (Operation × Option PluginSnapshot)

inductive HostEvent where
  | plugin (e : Event)
  | coreStarted
  | coreExited

def Host.step (c : Codec) (socketPath restToken : String) (n : Host) : HostEvent → Option Host
  | .plugin e =>
    let s := ((e.operation.program c).run handle e.choices n.plugin.session).2
    some ⟨⟨s.service, s.kernel⟩, if s.stopped then none else n.core,
      (e.operation, s.service.active) :: n.since⟩
  | .coreStarted => some { n with
      core := some (torrentBlockerOptions n.plugin.service.active socketPath restToken), since := [] }
  | .coreExited => some { n with core := none }

/- Since the core's start a snapshot was excused, or the plugins were reset or closed. -/
def Host.Strained (n : Host) : Prop :=
  ∃ x ∈ n.since, x.1.afterCore = true ∨ excused x.2 = true

/- What a core that was started with `snapshot` can count on. -/
structure Host.Backed (c : Codec) (n : Host) (snapshot : Option PluginSnapshot) : Prop where
  follows : Follows c snapshot n.plugin.service.active
  lasts : effectiveTorrentEnabled snapshot = true → ¬ n.Strained →
    effectiveTorrentEnabled n.plugin.service.active = true

/- The snapshot from which the config of the core was made needs no other core. -/
structure Host.Ok (c : Codec) (socketPath restToken : String) (n : Host) : Prop where
  hasXray : n.plugin.service.hasXray = true
  core : ∀ o, n.core = some o → ∃ snapshot,
    o = torrentBlockerOptions snapshot socketPath restToken ∧ n.Backed c snapshot

theorem sustained_hasXray : Sustained (fun service => service.hasXray = true) fun _ => True where
  nft := fun _ _ h => h
  unread := fun _ _ _ h => h
  commit := fun _ _ h _ => h
  active := fun _ _ => trivial
  none := trivial
  degraded := fun _ _ => trivial

theorem sustained_follows (c : Codec) (before : Option PluginSnapshot) :
    Sustained (fun service => Follows c before service.active) (Follows c before) where
  nft := fun _ _ h => h
  unread := fun _ _ _ h => h
  commit := fun _ _ _ hnext => hnext
  active := fun _ h => h
  none := .of_off rfl
  degraded := fun snapshot _ => .of_off (by cases snapshot <;> rfl)

section
variable {c : Codec} {socketPath restToken : String} {n n' : Host}

theorem run_hasXray (hxray : n.plugin.service.hasXray = true) (e : Event) :
    ((e.operation.program c).run handle e.choices n.plugin.session).2.service.hasXray = true := by
  have hkeeps : Sustains (fun service => service.hasXray = true) (e.operation.program c) :=
    sustained_hasXray.program (fun _ _ => trivial) (fun _ _ => ⟨fun _ _ _ _ => trivial, fun _ _ _ _ => trivial⟩)
      (fun _ _ _ _ h => h) fun _ _ => trivial
  exact Program.wp_run (Program.Stable.wp hkeeps hxray) e.choices

theorem follows_afterCore {operation : Operation} (h : operation.afterCore = true)
    (before : Option PluginSnapshot) :
    Sustains (fun service => Follows c before service.active) (operation.program c) := by
  have hsustained := sustained_follows c before
  cases operation with
  | resetPlugins => exact hsustained.resetPluginsContext.bind fun _ => .pure _
  | close => exact (hsustained.closeContext fun _ _ _ _ h => h).bind fun _ => .pure _
  | _ => cases h

theorem Host.Ok.plugin {e : Event} (h : n.Ok c socketPath restToken)
    (hstep : n.step c socketPath restToken (.plugin e) = some n') : n'.Ok c socketPath restToken := by
  obtain rfl := Option.some.inj hstep
  refine ⟨run_hasXray h.hasXray e, fun o ho => ?_⟩
  have hcore : ((e.operation.program c).run handle e.choices n.plugin.session).2.stopped = false ∧
      n.core = some o := by
    dsimp only at ho
    split_ifs at ho with hstopped
    exact ⟨Bool.eq_false_iff.mpr hstopped, ho⟩
  obtain ⟨snapshot, rfl, hbacked⟩ := h.core o hcore.2
  cases hoperation : e.operation.afterCore with
  | true =>
    have hend := Program.wp_run
      ((follows_afterCore hoperation snapshot).wp (s := n.plugin.session) hbacked.follows) e.choices
    exact ⟨snapshot, rfl, hend, fun _ hfree => (hfree ⟨_, List.mem_cons_self, .inl hoperation⟩).elim⟩
  | false =>
    have hend := Program.wp_run
      (program_steady (c := c) h.hasXray hoperation n.plugin.session rfl rfl) e.choices
    have hsuits := hend.suits.resolve_left fun hstop => Bool.false_ne_true (hcore.1.symm.trans hstop)
    refine ⟨snapshot, rfl, hbacked.follows.trans hsuits.follows, fun hwas hfree => ?_⟩
    -- an effective blocker stays effective, as the new snapshot is not excused
    have hbefore := hbacked.lasts hwas fun ⟨x, hx, hstrained⟩ =>
      hfree ⟨x, List.mem_cons_of_mem _ hx, hstrained⟩
    refine (hsuits.lasts hbefore).resolve_right fun hexcused => ?_
    exact hfree ⟨_, List.mem_cons_self, .inr hexcused⟩

theorem Host.Ok.step {e : HostEvent} (h : n.Ok c socketPath restToken)
    (hstep : n.step c socketPath restToken e = some n') : n'.Ok c socketPath restToken := by
  cases e with
  | plugin e => exact h.plugin hstep
  | coreStarted =>
    obtain rfl := Option.some.inj hstep
    refine ⟨h.hasXray, ?_⟩
    rintro o ho
    cases ho
    exact ⟨_, rfl, .refl _, fun hwas _ => hwas⟩
  | coreExited =>
    obtain rfl := Option.some.inj hstep
    exact ⟨h.hasXray, fun o ho => by cases ho⟩

theorem Follows.same_apart (hc : c.Collisionless) {before active : Option PluginSnapshot}
    (h : Follows c before active)
    (hon : effectiveTorrentEnabled active = true ∨
      (torrentBlockerOptions before socketPath restToken).includeRuleTags = []) :
    SameApartFromTorrent (torrentBlockerOptions before socketPath restToken)
      (torrentBlockerOptions active socketPath restToken) := by
  apply Xray.sameApartFromTorrent_of_tags
  · intro tag
    cases hactive : effectiveTorrentEnabled active with
    | true =>
      obtain ⟨hbefore, hhash⟩ := h hactive
      simp only [TorrentBlockerOptions.tags, torrentBlockerOptions, hbefore, hactive, if_true]
      exact (hc.perm hhash).mem_iff
    | false =>
      have hnone : (torrentBlockerOptions before socketPath restToken).includeRuleTags = [] := by
        simpa [hactive] using hon
      have hbefore : (torrentBlockerOptions before socketPath restToken).tags = [] := by
        simp only [TorrentBlockerOptions.tags, hnone, ite_self]
      have hafter : (torrentBlockerOptions active socketPath restToken).tags = [] := by
        simp only [TorrentBlockerOptions.tags, torrentBlockerOptions, hactive, Bool.false_eq_true,
          if_false]
      rw [hbefore, hafter]
  · rfl

theorem Host.Backed.same_apart (hc : c.Collisionless) {snapshot : Option PluginSnapshot}
    (h : n.Backed c snapshot)
    (hstrained : n.Strained →
      (torrentBlockerOptions snapshot socketPath restToken).includeRuleTags = [] ∨
        effectiveTorrentEnabled n.plugin.service.active = true) :
    SameApartFromTorrent (torrentBlockerOptions snapshot socketPath restToken)
      (torrentBlockerOptions n.plugin.service.active socketPath restToken) := by
  refine h.follows.same_apart hc ?_
  by_cases hfree : n.Strained
  · exact (hstrained hfree).symm
  · cases hwas : effectiveTorrentEnabled snapshot with
    | true => exact .inl (h.lasts hwas hfree)
    | false => exact .inr (by simp [torrentBlockerOptions, hwas])

end

/- The service of a manager, with nothing running yet. -/
def Host.initial (nft : Option NftManager) (asn : ASNResolver) (kernel : Kernel) : Host :=
  ⟨⟨newService nft true asn, kernel⟩, none, []⟩

/-- In every state of every run, and so after every accepted Sync: a core that runs a
config made under the options `o` agrees with the active snapshot, unless `o` names tags,
the blocker is off, and since the core's start an operation has left a degraded snapshot or
one that turns the blocker off without naming tags, or the plugins were reset or closed. -/
theorem running_core_matches (c : Codec) (hc : c.Collisionless) (nft : Option NftManager)
    (asn : ASNResolver) (kernel : Kernel) (socketPath restToken : String) (n : Host)
    (hrun : Transition.Reach (Host.step c socketPath restToken) (.initial nft asn kernel) n)
    (o : TorrentBlockerOptions) (ho : n.core = some o)
    (hstrained : n.Strained → o.includeRuleTags = [] ∨
      effectiveTorrentEnabled n.plugin.service.active = true) :
    SameApartFromTorrent o (torrentBlockerOptions n.plugin.service.active socketPath restToken) := by
  have hok : n.Ok c socketPath restToken := hrun.invariant (Host.Ok c socketPath restToken)
    ⟨rfl, fun o ho => by cases ho⟩ fun _ _ _ h _ hstep => h.step hstep
  obtain ⟨snapshot, rfl, hbacked⟩ := hok.core o ho
  exact hbacked.same_apart hc hstrained

/-! ### Cores that keep webhooks the snapshot no longer asks for -/

def numbered (tags : List String) : ℕ :=
  Encodable.encode (tags.map fun tag => tag.toList.map Char.toNat)

theorem numbered_injective : Function.Injective numbered := by
  refine Encodable.encode_injective.comp (List.map_injective_iff.mpr ?_)
  intro left right h
  have hchars : Function.Injective (List.map Char.toNat) :=
    List.map_injective_iff.mpr fun _ _ => Char.toNat_inj.mp
  exact String.toList_inj.mp (hchars h)

def untaggedPlugin : Object :=
  [("torrentBlocker", .obj [("enabled", .bool false), ("blockDuration", .num 300),
    ("ignoreLists", .obj [])])]

/- Two configs: one that enables the blocker with a tag, one that disables it. -/
def torrentCodec : Codec where
  sha256 text := "#" ++ text
  hashPluginConfig := .ok
  unmarshal text :=
    .ok (some (if text = "tagged" then Xray.taggedPlugin ["custom"] else untaggedPlugin))
  marshalStrings tags := String.ofList (List.replicate (numbered tags) '.')
  parseURL _ := none
  ipSet := id
  formatFloat q := toString q.num

theorem torrentCodec_collisionless : torrentCodec.Collisionless where
  hashed text := by simp [torrentCodec]
  tags left right h := by
    have hlen := congrArg String.length h
    simp [torrentCodec] at hlen
    exact numbered_injective hlen

def Host.after (n : Host) (e : HostEvent) : Host := (n.step torrentCodec "run" "" e).getD n

theorem Host.step_after (n : Host) (e : HostEvent) (h : (n.step torrentCodec "run" "" e).isSome = true) :
    n.step torrentCodec "run" "" e = some (n.after e) := by
  obtain ⟨m, hm⟩ := Option.isSome_iff_exists.mp h
  rw [Host.after, hm, Option.getD_some]

def taggedRequest : SyncPlugin := ⟨"uuid", "name", "tagged"⟩

def renamedRequest : SyncPlugin := ⟨"uuid", "other", "tagged"⟩

def emptyHost : Host := .initial (some (newNFTManager true ⟨false, false⟩)) none fun _ => ∅

def taggedHost : Host :=
  ((emptyHost.after (.plugin (smooth .initializeContext))).after
    (.plugin (smooth (.sync (some taggedRequest))))).after .coreStarted

/- The config has been synced again under another name. -/
def renamedHost : Host := taggedHost.after (.plugin (smooth (.sync (some renamedRequest))))

def customOptions : TorrentBlockerOptions := ⟨true, ["custom"], 0, "run", ""⟩

theorem renamedHost_reached :
    Transition.Reach (Host.step torrentCodec "run" "") emptyHost renamedHost := by
  have hfirst := Host.step_after emptyHost (.plugin (smooth .initializeContext)) rfl
  have hsynced := Host.step_after (emptyHost.after (.plugin (smooth .initializeContext)))
    (.plugin (smooth (.sync (some taggedRequest)))) rfl
  exact .tail _ (.tail _ (.tail _ (.tail _ .refl trivial hfirst) trivial hsynced) trivial
    (Host.step_after _ .coreStarted rfl)) trivial (Host.step_after _ _ rfl)

theorem renamedHost_not_strained : ¬ renamedHost.Strained := by
  unfold Host.Strained
  decide +kernel

/-- The theorem at a core with a tag after another Sync that leaves it running. -/
theorem running_core_matches_tagged :
    renamedHost.since.length = 1 ∧ SameApartFromTorrent customOptions
      (torrentBlockerOptions renamedHost.plugin.service.active "run" "") :=
  ⟨rfl, running_core_matches torrentCodec torrentCodec_collisionless _ _ _ "run" "" renamedHost
    renamedHost_reached customOptions (by decide +kernel)
    fun hstrained => (renamedHost_not_strained hstrained).elim⟩

theorem custom_differs_from_disabled :
    ¬ SameApartFromTorrent customOptions ⟨false, [], 0, "run", ""⟩ := by
  intro hsame
  let rule : Json.Value := .obj [("ruleTag", .str "custom")]
  have hrule := (hsame (some [("routing", .obj [("rules", .arr [rule])])]) "" true).1 rule
    (List.mem_cons_of_mem _ (List.mem_singleton_self rule))
  have htrue : Xray.attachesWebhook customOptions rule = true := by decide
  rw [htrue] at hrule
  cases hrule

/- The core goes on with a webhook that the snapshot does not ask for. -/
def Host.Outdated (n : Host) : Prop :=
  n.core = some customOptions ∧
    ¬ SameApartFromTorrent customOptions (torrentBlockerOptions n.plugin.service.active "run" "")

theorem Host.outdated {n : Host} (hcore : n.core = some customOptions)
    (hoff : torrentBlockerOptions n.plugin.service.active "run" "" = ⟨false, [], 0, "run", ""⟩) :
    n.Outdated := by
  refine ⟨hcore, ?_⟩
  rw [hoff]
  exact custom_differs_from_disabled

/- A block request finds the tables gone, and the snapshot is degraded. -/
def degradedHost : Host :=
  taggedHost.after (.plugin ⟨.blockIPs [⟨"192.0.2.1", some 0⟩],
    fun _ => ⟨false, .failed false ⟨"No such file or directory", false⟩, true⟩⟩)

/-- The tables are lost while a core with a tagged rule runs; the config is synced again
and accepted, and the core goes on with the webhook of that rule. -/
theorem degraded_core_keeps_webhooks :
    let synced := degradedHost.after (.plugin (smooth (.sync (some taggedRequest))))
    torrentCodec.Collisionless ∧ taggedHost.core = some customOptions ∧
      ((syncContext torrentCodec (some taggedRequest)).run handle
        (smooth (.sync (some taggedRequest))).choices degradedHost.plugin.session).1 = true ∧
      synced.Outdated :=
  ⟨torrentCodec_collisionless, by decide +kernel, by decide +kernel,
    Host.outdated (by decide +kernel) (by decide +kernel)⟩

def untaggedRequest : SyncPlugin := ⟨"uuid", "name", "untagged"⟩

/-- So does a core whose blocker is turned off by a config that names no tags. -/
theorem disabled_core_keeps_webhooks :
    ((syncContext torrentCodec (some untaggedRequest)).run handle
        (smooth (.sync (some untaggedRequest))).choices taggedHost.plugin.session).1 = true ∧
      (taggedHost.after (.plugin (smooth (.sync (some untaggedRequest))))).Outdated :=
  ⟨by decide +kernel, Host.outdated (by decide +kernel) (by decide +kernel)⟩

end RemnanodeLite.Plugin
