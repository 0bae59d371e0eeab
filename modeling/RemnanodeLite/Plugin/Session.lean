import RemnanodeLite.Lib.Assured
import RemnanodeLite.Plugin.NftScript

/-! # What a plugin operation works on

The fields of `Service`, `State` and `nftManager`, and the calls an operation
makes while it holds the operation gate: a check of its context, an nft script,
a request to Xray. -/

namespace RemnanodeLite.Plugin

structure NftManager where
  capable : Bool
  owned : Bool
  healthy : Bool
  options : NftOptions
  deriving DecidableEq

/- The parts of `xraywebhook.Payload` that are read. -/
structure WebhookPayload where
  email : Option String
  source : Option String
  deriving DecidableEq

structure TorrentReport where
  blocked : Bool
  ip : String
  blockDuration : ℚ
  userID : String
  xrayReport : WebhookPayload
  deriving DecidableEq

def maxTorrentReports : ℕ := 1024

/- The report queue of `State`. -/
structure Reports where
  reports : List TorrentReport
  reportHead : ℕ
  droppedReports : ℕ
  deriving DecidableEq

def Reports.addReport (r : Reports) (report : TorrentReport) : Reports :=
  if r.reports.length = maxTorrentReports then
    ⟨r.reports.set r.reportHead report, (r.reportHead + 1) % maxTorrentReports, r.droppedReports + 1⟩
  else { r with reports := r.reports ++ [report] }

def Reports.flushReports (r : Reports) : (List TorrentReport × ℕ) × Reports :=
  let out := if r.reportHead ≠ 0 then r.reports.drop r.reportHead ++ r.reports.take r.reportHead
    else r.reports
  ((out, r.droppedReports), ⟨[], 0, 0⟩)

structure Service where
  initialized : Bool
  closing : Bool
  closed : Bool
  closeDone : Bool
  nft : Option NftManager
  hasXray : Bool
  asn : ASNResolver
  active : Option PluginSnapshot
  reports : Reports

/- `nftCommandError`: its text and whether it wraps the end of a context. -/
structure NftCommandError where
  message : String
  canceled : Bool
  deriving DecidableEq

inductive XrayCall where
  | removeTorrentBlockerOutbound
  | stopIfOnline
  deriving DecidableEq

inductive Effect where
  | script (script : NftScript) (done : Bool)
  | xray (call : XrayCall) (done : Bool)
  deriving DecidableEq

/- `ended` is the state of the context of the operation, `trace` what it did,
newest first. -/
structure Session where
  service : Service
  kernel : Kernel
  ended : Bool
  trace : List Effect

inductive Op where
  | contextError
  | load
  | store (service : Service)
  | script (script : NftScript)
  | xray (call : XrayCall)

def Op.Answer : Op → Type
  | contextError => Bool
  | load => Service
  | store _ => Unit
  | script _ => Option NftCommandError
  | xray _ => Bool

/- A script takes effect or not, and succeeds only if it does. -/
inductive ScriptOutcome where
  | done
  | failed (tookEffect : Bool) (error : NftCommandError)
  deriving DecidableEq

/- What the environment decides at a call: whether the context has ended by now,
what becomes of a script and of a request to Xray. -/
structure Choice where
  ended : Bool
  outcome : ScriptOutcome
  xrayDone : Bool
  deriving DecidableEq

def runScript (script : NftScript) (s : Session) : ScriptOutcome → Option NftCommandError × Session
  | .done =>
    (none, { s with kernel := script.exec s.kernel, trace := .script script true :: s.trace })
  | .failed true error =>
    (some error, { s with kernel := script.exec s.kernel, trace := .script script false :: s.trace })
  | .failed false error => (some error, { s with trace := .script script false :: s.trace })

def handle : Program.Handler Op Op.Answer Session Choice
  | .contextError, s, choice => (s.ended || choice.ended, { s with ended := s.ended || choice.ended })
  | .load, s, _ => (s.service, s)
  | .store service, s, _ => ((), { s with service := service })
  | .script script, s, choice => runScript script s choice.outcome
  | .xray call, s, choice =>
    (choice.xrayDone, { s with trace := .xray call choice.xrayDone :: s.trace })

abbrev PluginM := Program Op Op.Answer

def contextError : PluginM Bool := Program.perform Op.contextError
def load : PluginM Service := Program.perform Op.load
def store (service : Service) : PluginM Unit := Program.perform (Op.store service)
def run (script : NftScript) : PluginM (Option NftCommandError) := Program.perform (Op.script script)
def xray (call : XrayCall) : PluginM Bool := Program.perform (Op.xray call)

/-! ### What an operation can do to the service -/

structure Look (γ : Type) where
  see : Session → γ
  apart : ∀ (s : Session) (ended : Bool) (service : Service),
    see { s with ended := ended, service := service } = see s

/-- From this service and with this to be seen of the session, whatever the context, the
scripts and Xray do, the program ends as `post` says. -/
def Shows {α γ : Type} (look : Look γ) (p : PluginM α) (service : Service) (seen : γ)
    (post : α → Service → γ → Prop) : Prop :=
  ∀ s : Session, s.service = service → look.see s = seen →
    p.wp handle (fun _ _ => True) (fun a t => post a t.service (look.see t)) s

/- What a program makes of the service and the kernel. -/
abbrev Leads {α : Type} (p : PluginM α) (service : Service) (kernel : Kernel)
    (post : α → Service → Kernel → Prop) : Prop :=
  Shows ⟨Session.kernel, fun _ _ _ => rfl⟩ p service kernel post

section Rules
variable {α β γ : Type} {look : Look γ} {p : PluginM α} {f : α → PluginM β} {service : Service}
  {seen : γ} {kernel : Kernel}

theorem Shows.ret {post : α → Service → γ → Prop} {a : α} (h : post a service seen) :
    Shows look (pure a) service seen post := by
  rintro s rfl rfl
  exact h

theorem Shows.bind {m : α → Service → γ → Prop} {post : β → Service → γ → Prop}
    (hp : Shows look p service seen m)
    (hf : ∀ a service' seen', m a service' seen' → Shows look (f a) service' seen' post) :
    Shows look (p >>= f) service seen post := by
  intro s hservice hseen
  rw [Program.wp_bind]
  exact Program.wp_mono (hp s hservice hseen) fun a t hmid => hf a _ _ hmid t rfl rfl

theorem Shows.mono {post post' : α → Service → γ → Prop} (hp : Shows look p service seen post)
    (himp : ∀ a service' seen', post a service' seen' → post' a service' seen') :
    Shows look p service seen post' :=
  fun s hservice hseen => Program.wp_mono (hp s hservice hseen) fun a _ => himp a _ _

theorem Shows.contextError {f : Bool → PluginM β} {post : β → Service → γ → Prop}
    (h : ∀ ended, Shows look (f ended) service seen post) :
    Shows look (Plugin.contextError >>= f) service seen post :=
  fun s hservice hseen choice =>
    ⟨trivial, h (s.ended || choice.ended) _ hservice ((look.apart s _ s.service).trans hseen)⟩

theorem Shows.load {f : Service → PluginM β} {post : β → Service → γ → Prop}
    (h : Shows look (f service) service seen post) :
    Shows look (Plugin.load >>= f) service seen post := by
  rintro s rfl hseen _
  exact ⟨trivial, h s rfl hseen⟩

theorem Shows.store {f : Unit → PluginM β} {service' : Service} {post : β → Service → γ → Prop}
    (h : Shows look (f ()) service' seen post) :
    Shows look (Plugin.store service' >>= f) service seen post :=
  fun s _ hseen _ => ⟨trivial, h _ rfl ((look.apart s s.ended service').trans hseen)⟩

theorem Leads.xray {call : XrayCall} {post : Bool → Service → Kernel → Prop}
    (h : ∀ done, post done service kernel) : Leads (Plugin.xray call) service kernel post := by
  rintro s rfl rfl choice
  exact ⟨trivial, h choice.xrayDone⟩

theorem Leads.run {script : NftScript} {f : Option NftCommandError → PluginM β}
    {post : β → Service → Kernel → Prop}
    (hdone : Leads (f none) service (script.exec kernel) post)
    (hfailed : ∀ error kernel', kernel' = kernel ∨ kernel' = script.exec kernel →
      Leads (f (some error)) service kernel' post) :
    Leads (Plugin.run script >>= f) service kernel post := by
  rintro s hservice rfl choice
  refine ⟨trivial, ?_⟩
  change Program.wp _ _ (f (runScript script s choice.outcome).1) _
    (runScript script s choice.outcome).2
  cases choice.outcome with
  | done => exact hdone _ hservice rfl
  | failed tookEffect error =>
    cases tookEffect with
    | true => exact hfailed error _ (Or.inr rfl) _ hservice rfl
    | false => exact hfailed error _ (Or.inl rfl) _ hservice rfl

end Rules

/-! ### What an operation is sure to do -/

/-- As long as the choices meet `rely`, scripts run only where `before` holds and the program
ends as `post` says. -/
def Assures {α : Type} (rely : Choice → Prop) (before : Session → Prop) (p : PluginM α)
    (post : α → Session → Prop) (s : Session) : Prop :=
  p.assured handle (fun call => rely call.choice)
    (fun call => ∀ script, call.op = .script script → before call.before) post s

section Assures
variable {α β : Type} {rely : Choice → Prop} {before : Session → Prop} {p : PluginM α} {s : Session}
  {post : β → Session → Prop}

theorem Assures.ret {a : β} (h : post a s) : Assures rely before (pure a) post s := h

theorem Assures.bind {mid : α → Session → Prop} {f : α → PluginM β} (hp : Assures rely before p mid s)
    (hf : ∀ a t, mid a t → Assures rely before (f a) post t) : Assures rely before (p >>= f) post s :=
  Program.assured_bind.mpr (Program.assured_mono hp hf)

theorem Assures.load {f : Service → PluginM β} (h : Assures rely before (f s.service) post s) :
    Assures rely before (Plugin.load >>= f) post s :=
  fun _ _ => ⟨nofun, h⟩

theorem Assures.store {service : Service} {post : Unit → Session → Prop}
    (h : post () { s with service := service }) : Assures rely before (Plugin.store service) post s :=
  fun _ _ => ⟨nofun, h⟩

theorem Assures.contextError {f : Bool → PluginM β} (h : ∀ choice, rely choice →
      ∀ ended, ended = (s.ended || choice.ended) →
        Assures rely before (f ended) post { s with ended := ended }) :
    Assures rely before (Plugin.contextError >>= f) post s :=
  fun choice hchoice => ⟨nofun, h choice hchoice _ rfl⟩

theorem Assures.xray {call : XrayCall} {post : Bool → Session → Prop}
    (h : ∀ done, post done { s with trace := .xray call done :: s.trace }) :
    Assures rely before (Plugin.xray call) post s :=
  fun choice _ => ⟨nofun, h choice.xrayDone⟩

end Assures

/-! ### What an operation leaves alone -/

/- A property of sessions that holds whatever the context, the scripts and the
firewall backend do. -/
structure Beside (inv : Session → Prop) : Prop where
  ended : ∀ s ended, inv s → inv { s with ended := ended }
  script : ∀ script s outcome, inv s → inv (runScript script s outcome).2
  nft : ∀ s s' nft, inv s → inv s' → inv { s with service := { s'.service with nft := nft } }

section Beside
variable {β : Type} {inv : Session → Prop}

theorem stable_load {f : Service → PluginM β}
    (h : ∀ s, inv s → Program.Stable handle inv (f s.service)) :
    Program.Stable handle inv (load >>= f) :=
  fun s _ hs => ⟨hs, h s hs⟩

theorem Beside.run (hinv : Beside inv) (script : NftScript) :
    Program.Stable handle inv (run script) :=
  fun s choice hs => ⟨hinv.script script s choice.outcome hs, trivial⟩

end Beside

end RemnanodeLite.Plugin
