import RemnanodeLite.Xray.SingleCore

/-! # Shutting the components of a node down

`cmd/remnanode-lite/shutdown.go` beside everything that may still happen to the
Xray manager meanwhile. The contexts of all Starts are derived from the lifetime of
the node: ending it ends them all, and a Start that is called later has a context
that has ended already. -/

namespace RemnanodeLite.Node
open Xray

/- Which functions of a `nodeComponentCleanup` are set. `runNode` sets them in the
order in which it makes the components, the one that closes the plugin last. -/
structure Components where
  shutdownManager : Bool
  stopCore : Bool
  closePlugin : Bool
  ordered : closePlugin = true → stopCore = true

structure CleanupResult where
  action : String
  err : Option String
  deriving DecidableEq

/- `errors.Join`. -/
def errorsJoin (errs : List String) : String := String.intercalate "\n" errs

inductive ManagerPC where
  | call (firstErr : Option String)
  | delay (firstErr : String)
  | sent
  deriving DecidableEq

inductive CorePC where
  | stopCore (firstErr : Option String)
  | stopping (t : Tid) (firstErr : Option String)
  | stopDelay (firstErr : String)
  | closePlugin (firstErr : Option String)
  | closing (firstErr : Option String)
  | closeDelay (firstErr : String)
  | sent
  deriving DecidableEq

/- A run of `nodeComponentCleanup`. `stops` and `closes` are history: the results of
the calls of `stopCore` and the number of calls of `closePlugin`. -/
structure Cleanup where
  manager : ManagerPC
  core : CorePC
  results : List CleanupResult
  received : ℕ
  err : List String
  returned : Option (List String)
  stops : List Bool
  closes : ℕ

def Cleanup.begin : Cleanup where
  manager := .call none
  core := .stopCore none
  results := []
  received := 0
  err := []
  returned := none
  stops := []
  closes := 0

structure System where
  xray : World
  lifetimeDone : Bool
  /-- Whether the context given to the cleanup has ended. -/
  expired : Bool
  /-- None before `Run`; `once` lets only one begin. -/
  cleanup : Option Cleanup

def System.initial (disableHashCheck : Bool) : System :=
  ⟨.initial disableHashCheck, false, false, none⟩

/- What the environment decides in a step of the cleanup: which goroutine a call of
`Stop` runs in, what a called function returns and which case a select takes. -/
structure Choice where
  tid : Tid
  err : Option String
  timer : Bool

/-! ### `retryComponentCleanup` -/

inductive Attempt where
  | succeeded
  | again (firstErr : String)
  | failed (err : String)

def attempted (firstErr : Option String) : Option String → Attempt
  | none => .succeeded
  | some err => match firstErr with
    | none => .again err
    | some first => .failed (errorsJoin [first, err])

/- The select between the two calls: `some none` is the timer. -/
def waitRetry (n : System) (timer : Bool) (firstErr : String) : Option (Option String) :=
  if timer then some none
  else if n.expired then some (some (errorsJoin [firstErr, CtxErr.deadlineExceeded.text]))
  else none

/-! ### The goroutines of `run` -/

def Cleanup.send (c : Cleanup) (action : String) (err : Option String) : Cleanup :=
  { c with results := c.results ++ [⟨action, err⟩] }

def Cleanup.sendManager (c : Cleanup) (err : Option String) : Cleanup :=
  { c.send "shutdown Xray manager" err with manager := .sent }

def managerStep (parts : Components) (n : System) (c : Cleanup) (ch : Choice) : Option Cleanup :=
  match c.manager with
  | .call firstErr =>
    if parts.shutdownManager then
      match attempted firstErr ch.err with
      | .succeeded => some (c.sendManager none)
      | .again err => some { c with manager := .delay err }
      | .failed err => some (c.sendManager (some err))
    else some (c.sendManager none)
  | .delay firstErr => (waitRetry n ch.timer firstErr).map fun
    | none => { c with manager := .call (some firstErr) }
    | some err => c.sendManager (some err)
  | .sent => none

def Cleanup.sendStop (c : Cleanup) (err : String) : Cleanup :=
  { c.send "stop rw-core" (some err) with core := .sent }

def Cleanup.sendClose (c : Cleanup) (err : Option String) : Cleanup :=
  { c.send "close plugin service after stopping rw-core" err with core := .sent }

/- A call of `stopCore` is a call of `Stop`, which takes its steps among all others. -/
def coreStep (parts : Components) (n : System) (c : Cleanup) (ch : Choice) :
    Option (World × Cleanup) :=
  match c.core with
  | .stopCore firstErr =>
    if parts.stopCore then
      (Xray.step n.xray (.callStop ch.tid)).map fun w =>
        (w, { c with core := .stopping ch.tid firstErr })
    else some (n.xray, { c with core := .closePlugin none })
  | .stopping t firstErr => match n.xray.threads t with
    | .stop { pc := .returned isStopped, .. } =>
      let called := { c with stops := c.stops ++ [isStopped] }
      some (n.xray, match attempted firstErr
          (if isStopped then none else some "process did not stop") with
        | .succeeded => { called with core := .closePlugin none }
        | .again err => { called with core := .stopDelay err }
        | .failed err => called.sendStop err)
    | _ => none
  | .stopDelay firstErr => (waitRetry n ch.timer firstErr).map fun
    | none => (n.xray, { c with core := .stopCore (some firstErr) })
    | some err => (n.xray, c.sendStop err)
  | .closePlugin firstErr =>
    if parts.closePlugin then
      some (n.xray, { c with core := .closing firstErr, closes := c.closes + 1 })
    else some (n.xray, c.sendClose none)
  | .closing firstErr => some (n.xray, match attempted firstErr ch.err with
    | .succeeded => c.sendClose none
    | .again err => { c with core := .closeDelay err }
    | .failed err => c.sendClose (some err))
  | .closeDelay firstErr => (waitRetry n ch.timer firstErr).map fun
    | none => (n.xray, { c with core := .closePlugin (some firstErr) })
    | some err => (n.xray, c.sendClose (some err))
  | .sent => none

/- The loop of `run`, which takes a result or gives up when its context has ended. -/
def collectStep (n : System) (c : Cleanup) (ctxDone : Bool) : Option Cleanup :=
  match c.returned with
  | some _ => none
  | none =>
    if ctxDone then
      let err := c.err ++ ["shutdown components: " ++ CtxErr.deadlineExceeded.text]
      if n.expired then some { c with returned := some err } else none
    else match c.results with
      | [] => none
      | result :: rest =>
        let err := c.err ++ (result.err.map fun e => result.action ++ ": " ++ e).toList
        some { c with
          results := rest
          received := c.received + 1
          err := err
          returned := if c.received + 1 = 2 then some err else none }

inductive Event where
  | xray (e : Xray.Event)
  | cancelLifetime
  | expire
  | run
  | manager (ch : Choice)
  | core (ch : Choice)
  | collect (ctxDone : Bool)

def endStart : Thread → Thread
  | .start s => .start { s with ctxErr := s.ctxErr <|> some .canceled }
  | th => th

def endStarts (w : World) : World := { w with threads := fun t => endStart (w.threads t) }

/- A call of `Start` after the lifetime has ended gets an ended context. -/
def derive (n : System) (e : Xray.Event) (w : World) : World :=
  match e with
  | .callStart t _ => if n.lifetimeDone then w.cancelStart t else w
  | _ => w

def step (parts : Components) (n : System) : Event → Option System
  | .xray e => (Xray.step n.xray e).map fun w => { n with xray := derive n e w }
  | .cancelLifetime => some { n with lifetimeDone := true, xray := endStarts n.xray }
  | .expire => some { n with expired := true }
  | .run => match n.cleanup with
    | some _ => none
    | none => some { n with cleanup := some .begin }
  | .manager ch => n.cleanup.bind fun c => (managerStep parts n c ch).map fun c' =>
      { n with cleanup := some c' }
  | .core ch => n.cleanup.bind fun c => (coreStep parts n c ch).map fun (w, c') =>
      { n with xray := w, cleanup := some c' }
  | .collect ctxDone => n.cleanup.bind fun c => (collectStep n c ctxDone).map fun c' =>
      { n with cleanup := some c' }

def AfterLifetime (n : System) (e : Event) : Prop := e = .run → n.lifetimeDone = true

instance (n : System) (e : Event) : Decidable (AfterLifetime n e) :=
  match e with
  | .run => decidable_of_iff (n.lifetimeDone = true) ⟨fun h _ => h, fun h => h rfl⟩
  | .xray _ | .cancelLifetime | .expire | .manager _ | .core _ | .collect _ => .isTrue nofun

end RemnanodeLite.Node
