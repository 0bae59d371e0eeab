import RemnanodeLite.Plugin.Session

/-! # The nftables backend

`internal/plugin/nft_linux.go` and the error tests of `firewall.go`. The backend
of other systems is one that is not capable. -/

namespace RemnanodeLite.Plugin

inductive NftError where
  | unavailable
  | rejected (message : String)
  | failed (step : String) (error : NftCommandError)
  deriving DecidableEq

/- `errors.Is` with the two errors of an ended context. -/
def NftError.canceled : NftError → Bool
  | failed _ error => error.canceled
  | _ => false

def isMissingNFTElement (error : NftCommandError) : Bool :=
  let message := error.message.toLower
  Strings.contains message "no such file or directory" ||
    Strings.contains message "no such element" ||
    Strings.contains message "element does not exist"

def isAmbiguousNFTNotFound (error : NftCommandError) : Bool :=
  let message := error.message.toLower
  Strings.contains message "no such file or directory" &&
    !Strings.contains message "no such element" &&
    !Strings.contains message "element does not exist"

def setNft (change : NftManager → NftManager) : PluginM Unit := do
  let service ← load
  store { service with nft := service.nft.map change }

/- The common end of `Initialize`, `Apply` and `Reset`; the first and the last
take the tables over. -/
def install (step : String) (claim : Bool) (script : NftScript) : PluginM (Option NftError) :=
  match validateNFTScript script with
  | .error message => pure (some (.rejected (step ++ ": " ++ message)))
  | .ok () => do
    setNft fun m => { m with owned := m.owned || claim }
    match ← run script with
    | some error => do
      setNft fun m => { m with healthy := false }
      return some (.failed step error)
    | none => do
      setNft fun m => { m with healthy := true }
      return none

namespace Nft

variable (c : Codec)

def initializeTables : PluginM (Option NftError) := do
  match (← load).nft with
  | none => return some .unavailable
  | some m =>
    if m.healthy then
      return none
    if !m.capable then
      return some .unavailable
    install "initialize nftables" true (renderNFTConfig c .empty m.options)

def apply (config : FirewallConfig) : PluginM (Option NftError) := do
  match (← load).nft with
  | none => return some .unavailable
  | some m =>
    if !m.owned || !m.capable then
      return some .unavailable
    install "apply nftables config" false (renderNFTStaticUpdate c config)

def reset (config : FirewallConfig) : PluginM (Option NftError) := do
  match (← load).nft with
  | none => return some .unavailable
  | some m =>
    if !m.capable then
      return some .unavailable
    install "reset nftables config" true (renderNFTConfig c config m.options)

def blockIPs (items : List BlockIP) : PluginM (Option NftError) := do
  match (← load).nft with
  | none => return some .unavailable
  | some m =>
    if !m.healthy || !m.owned then
      return some .unavailable
    match renderNFTBlock c items with
    | .error message => return some (.rejected message)
    | .ok script =>
      if script.isEmpty then
        return none
      match ← run script with
      | none => return none
      | some error => do
        setNft fun m => { m with healthy := m.healthy && !isAmbiguousNFTNotFound error }
        return some (.failed "block nftables addresses" error)

/- The deletions one by one; the answer is the first error that says that
something else than the element may be missing. -/
def deleteElements : List NftScript → Option NftCommandError →
    PluginM (Except NftError (Option NftCommandError))
  | [], ambiguousNotFound => pure (.ok ambiguousNotFound)
  | command :: commands, ambiguousNotFound => do
    match ← run command with
    | none => deleteElements commands ambiguousNotFound
    | some error =>
      if error.canceled || !isMissingNFTElement error then
        return .error (.failed "unblock nftables addresses" error)
      deleteElements commands
        (if isAmbiguousNFTNotFound error && ambiguousNotFound.isNone then some error
          else ambiguousNotFound)

def probeStructure : List NftScript → PluginM (Option NftError)
  | [] => pure none
  | probe :: probes => do
    match ← run probe with
    | none => probeStructure probes
    | some error => do
      setNft fun m => { m with healthy := m.healthy && error.canceled }
      return some (.failed "verify nftables structure" error)

def unblockIPs (ips : List String) : PluginM (Option NftError) := do
  match (← load).nft with
  | none => return some .unavailable
  | some m =>
    if !m.healthy || !m.owned then
      return some .unavailable
    match renderNFTUnblock ips with
    | .error message => return some (.rejected message)
    | .ok commands =>
      match ← deleteElements commands none with
      | .error error => return some error
      | .ok none => return none
      | .ok (some _) => probeStructure renderNFTStructureProbes

def close : PluginM (Option NftError) := do
  match (← load).nft with
  | none => return none
  | some m =>
    if !m.owned then
      return none
    match ← run [.deleteTables] with
    | some error => do
      setNft fun m => { m with healthy := false }
      return some (.failed "delete nftables tables" error)
    | none => do
      setNft fun m => { m with owned := false, healthy := false }
      return none

end Nft

/-! ### What the backend can do -/

section Outcomes
variable {c : Codec} {service : Service} {kernel : Kernel} {m : NftManager}

/-- The ends of installing a script: it is too long, it is done, or it fails. -/
inductive Installed (script : NftScript) (m : NftManager) (owned : Bool) (service : Service)
    (kernel : Kernel) : Option NftError → Service → Kernel → Prop
  | rejected (error : NftError) (invalid : validateNFTScript script ≠ .ok ()) :
      Installed script m owned service kernel (some error) service kernel
  | done (valid : validateNFTScript script = .ok ()) :
      Installed script m owned service kernel none
        { service with nft := some { m with owned := owned, healthy := true } } (script.exec kernel)
  | failed (error : NftError) (kernel' : Kernel)
      (effect : kernel' = kernel ∨ kernel' = script.exec kernel) :
      Installed script m owned service kernel (some error)
        { service with nft := some { m with owned := owned, healthy := false } } kernel'

theorem leads_setNft {change : NftManager → NftManager} {β : Type} {f : Unit → PluginM β}
    {post : β → Service → Kernel → Prop} (hm : service.nft = some m)
    (h : Leads (f ()) { service with nft := some (change m) } kernel post) :
    Leads (setNft change >>= f) service kernel post := by
  apply Shows.bind (m := fun _ service' kernel' =>
    service' = { service with nft := some (change m) } ∧ kernel' = kernel)
  · apply Shows.load
    rw [hm]
    rintro s - rfl _
    exact ⟨trivial, rfl, rfl⟩
  · rintro _ _ _ ⟨rfl, rfl⟩
    exact h

theorem leads_install {step : String} {claim owned : Bool} {script : NftScript}
    (hm : service.nft = some m) (howned : (m.owned || claim) = owned) :
    Leads (install step claim script) service kernel
      (Installed script m owned service kernel) := by
  subst howned
  unfold install
  split
  case h_1 message hinvalid => exact .ret (.rejected _ (by rw [hinvalid]; simp))
  case h_2 hvalid =>
    apply leads_setNft hm
    apply Leads.run
    · apply leads_setNft rfl
      exact .ret (.done hvalid)
    · intro error kernel' heffect
      apply leads_setNft rfl
      exact .ret (.failed _ kernel' heffect)

theorem leads_initializeTables (hm : service.nft = some m) (hhealthy : m.healthy = false)
    (hcapable : m.capable = true) : Leads (Nft.initializeTables c) service kernel
      (Installed (renderNFTConfig c .empty m.options) m true service kernel) := by
  apply Shows.load
  simp only [hm, hhealthy, hcapable]
  exact leads_install hm (Bool.or_true _)

variable {config : FirewallConfig}

theorem leads_apply (hm : service.nft = some m) (howned : m.owned = true)
    (hcapable : m.capable = true) :
    Leads (Nft.apply c config) service kernel
      (Installed (renderNFTStaticUpdate c config) m true service kernel) := by
  apply Shows.load
  simp only [hm, howned, hcapable]
  exact leads_install hm (by rw [howned, Bool.true_or])

theorem leads_reset (hm : service.nft = some m) (hcapable : m.capable = true) :
    Leads (Nft.reset c config) service kernel
      (Installed (renderNFTConfig c config m.options) m true service kernel) := by
  apply Shows.load
  simp only [hm, hcapable]
  exact leads_install hm (Bool.or_true _)

theorem leads_reset_incapable (hm : service.nft = some m) (hcapable : m.capable = false) :
    Leads (Nft.reset c config) service kernel
      fun error service' kernel' =>
        error = some .unavailable ∧ service' = service ∧ kernel' = kernel := by
  apply Shows.load
  simp only [hm, hcapable]
  exact .ret ⟨rfl, rfl, rfl⟩

/- A block request touches no static set, and of the backend at most its health. -/
theorem leads_blockIPs {items : List BlockIP} (hm : service.nft = some m)
    (hhealthy : m.healthy = true) : Leads (Nft.blockIPs c items) service kernel
      fun error service' kernel' =>
        (∀ config, StaticsAre c config kernel → StaticsAre c config kernel') ∧
        ((service' = service) ∨
          (error.isSome ∧ service' = { service with nft := some { m with healthy := false } })) := by
  apply Shows.load
  simp only [hm, hhealthy, Bool.not_true, Bool.false_or]
  split
  · exact .ret ⟨fun _ h => h, Or.inl rfl⟩
  · split
    · exact .ret ⟨fun _ h => h, Or.inl rfl⟩
    case h_2 script hscript =>
      split
      · exact .ret ⟨fun _ h => h, Or.inl rfl⟩
      · apply Leads.run
        · exact .ret ⟨fun _ h => renderNFTBlock_statics hscript h, Or.inl rfl⟩
        · intro error kernel' heffect
          have hstatics : ∀ config, StaticsAre c config kernel → StaticsAre c config kernel' := by
            intro config h
            rcases heffect with rfl | rfl
            · exact h
            · exact renderNFTBlock_statics hscript h
          apply leads_setNft hm
          apply Shows.ret
          refine ⟨hstatics, ?_⟩
          cases isAmbiguousNFTNotFound error with
          | true => exact Or.inr ⟨rfl, by simp⟩
          | false =>
            have hsame : { m with healthy := m.healthy && !false } = m := by simp
            left
            rw [hsame, ← hm]

end Outcomes

/-! ### What the backend leaves alone -/

section Beside
variable {c : Codec} {inv : Session → Prop}

theorem Beside.setNft (hinv : Beside inv) (change : NftManager → NftManager) :
    Program.Stable handle inv (setNft change) :=
  stable_load fun s hs s' _ hs' => ⟨hinv.nft s' s _ hs' hs, trivial⟩

theorem Beside.install (hinv : Beside inv) (step : String) (claim : Bool) (script : NftScript) :
    Program.Stable handle inv (install step claim script) := by
  unfold Plugin.install
  split
  · exact .pure inv _
  · refine (hinv.setNft _).bind fun _ => (hinv.run _).bind fun error => ?_
    cases error with
    | none | some error => exact (hinv.setNft _).bind fun _ => .pure inv _

theorem Beside.initializeTables (hinv : Beside inv) :
    Program.Stable handle inv (Nft.initializeTables c) := by
  refine stable_load fun s _ => ?_
  split
  · exact .pure inv _
  · split
    · exact .pure inv _
    · split
      · exact .pure inv _
      · exact hinv.install _ _ _

theorem Beside.apply (hinv : Beside inv) (config : FirewallConfig) :
    Program.Stable handle inv (Nft.apply c config) := by
  refine stable_load fun s _ => ?_
  split
  · exact .pure inv _
  · split
    · exact .pure inv _
    · exact hinv.install _ _ _

theorem Beside.reset (hinv : Beside inv) (config : FirewallConfig) :
    Program.Stable handle inv (Nft.reset c config) := by
  refine stable_load fun s _ => ?_
  split
  · exact .pure inv _
  · split
    · exact .pure inv _
    · exact hinv.install _ _ _

theorem Beside.blockIPs (hinv : Beside inv) (items : List BlockIP) :
    Program.Stable handle inv (Nft.blockIPs c items) := by
  refine stable_load fun s _ => ?_
  split
  · exact .pure inv _
  · split
    · exact .pure inv _
    · split
      · exact .pure inv _
      · split
        · exact .pure inv _
        · refine (hinv.run _).bind fun error => ?_
          cases error with
          | none => exact .pure inv _
          | some error => exact (hinv.setNft _).bind fun _ => .pure inv _

theorem Beside.deleteElements (hinv : Beside inv) (commands : List NftScript)
    (ambiguous : Option NftCommandError) :
    Program.Stable handle inv (Nft.deleteElements commands ambiguous) := by
  induction commands generalizing ambiguous with
  | nil => exact .pure inv _
  | cons command commands ih =>
    refine (hinv.run _).bind fun error => ?_
    cases error with
    | none => exact ih _
    | some error =>
      dsimp only
      split
      · exact .pure inv _
      · exact ih _

theorem Beside.probeStructure (hinv : Beside inv) (probes : List NftScript) :
    Program.Stable handle inv (Nft.probeStructure probes) := by
  induction probes with
  | nil => exact .pure inv _
  | cons probe probes ih =>
    refine (hinv.run _).bind fun error => ?_
    cases error with
    | none => exact ih
    | some error => exact (hinv.setNft _).bind fun _ => .pure inv _

theorem Beside.unblockIPs (hinv : Beside inv) (ips : List String) :
    Program.Stable handle inv (Nft.unblockIPs ips) := by
  refine stable_load fun s _ => ?_
  split
  · exact .pure inv _
  · split
    · exact .pure inv _
    · split
      · exact .pure inv _
      · refine (hinv.deleteElements _ _).bind fun result => ?_
        split
        · exact .pure inv _
        · exact .pure inv _
        · exact hinv.probeStructure _

theorem Beside.close (hinv : Beside inv) : Program.Stable handle inv Nft.close := by
  refine stable_load fun s _ => ?_
  split
  · exact .pure inv _
  · split
    · exact .pure inv _
    · refine (hinv.run _).bind fun error => ?_
      cases error with
      | none | some error => exact (hinv.setNft _).bind fun _ => .pure inv _

end Beside

end RemnanodeLite.Plugin
