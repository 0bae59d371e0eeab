import RemnanodeLite.Lib.Tally
import RemnanodeLite.Lib.Transition

/-! # The Xray lifecycle gate

`xrayLifecycleGate` with any number of calls on it. All fields are read and
written under `mu`, so a locked section is one step; between its sections a call
sleeps in a `select` or looks at its context. -/

namespace RemnanodeLite.Httpserver

inductive XrayLifecycleMode where
  | idle
  | starts
  | exclusive
  deriving DecidableEq

/- A channel is the number of the `make` that made it; `made` counts them and
`closed` holds the closed ones. -/
structure XrayLifecycleGate where
  changed : Option ℕ
  mode : XrayLifecycleMode
  activeStarts : ℤ
  waitingExclusive : ℤ
  made : ℕ
  closed : List ℕ
  deriving DecidableEq

namespace XrayLifecycleGate

def makeChanged (g : XrayLifecycleGate) : XrayLifecycleGate :=
  { g with changed := some g.made, made := g.made + 1 }

def closeChanged (g : XrayLifecycleGate) : XrayLifecycleGate :=
  { g with closed := g.changed.toList ++ g.closed }

def initializeLocked (g : XrayLifecycleGate) : XrayLifecycleGate :=
  if g.changed = none then g.makeChanged else g

def notifyLocked (g : XrayLifecycleGate) : XrayLifecycleGate :=
  g.initializeLocked.closeChanged.makeChanged

/- A receive from `channel` returns. -/
def isClosed (g : XrayLifecycleGate) (channel : Option ℕ) : Bool :=
  channel.any (g.closed.contains ·)

/- The admission in the loop of `acquireStart`. -/
def admitStart (g : XrayLifecycleGate) : Option XrayLifecycleGate :=
  if g.waitingExclusive = 0 ∧ (g.mode = .starts ∨ g.mode = .idle) then
    some { g with mode := .starts, activeStarts := g.activeStarts + 1 }
  else none

/- `none` stands for the panic. -/
def releaseStart (g : XrayLifecycleGate) : Option XrayLifecycleGate :=
  if g.mode ≠ .starts ∨ g.activeStarts = 0 then none
  else if g.activeStarts - 1 = 0 then
    some { g with mode := .idle, activeStarts := g.activeStarts - 1 }.notifyLocked
  else some { g with activeStarts := g.activeStarts - 1 }

/- The entry of `acquireExclusive`. -/
def announceExclusive (g : XrayLifecycleGate) : XrayLifecycleGate :=
  { g.initializeLocked with waitingExclusive := g.initializeLocked.waitingExclusive + 1 }

/- The admission in the loop of `acquireExclusive`. -/
def admitExclusive (g : XrayLifecycleGate) : Option XrayLifecycleGate :=
  if g.mode = .idle then
    some { g with waitingExclusive := g.waitingExclusive - 1, mode := .exclusive }
  else none

/- The exit of `acquireExclusive` when its context is done. -/
def abandonExclusive (g : XrayLifecycleGate) : XrayLifecycleGate :=
  if g.mode = .idle ∧ g.waitingExclusive - 1 = 0 then
    { g with waitingExclusive := g.waitingExclusive - 1 }.notifyLocked
  else { g with waitingExclusive := g.waitingExclusive - 1 }

def releaseExclusive (g : XrayLifecycleGate) : Option XrayLifecycleGate :=
  if g.mode ≠ .exclusive then none
  else some { g with mode := .idle }.notifyLocked

end XrayLifecycleGate

/- Where a call stands when `mu` is free. `Admitted` is after the unlock and
before the look at `ctx.Err()`, `Revoked` after that look and before the release,
`Held` after the return of `true` and before the matching release. -/
inductive Position where
  | startEnter
  | startAsleep (changed : Option ℕ)
  | startAdmitted
  | startRevoked
  | startHeld
  | exclusiveEnter
  | exclusiveAsleep (changed : Option ℕ)
  | exclusiveWoken
  | exclusiveCanceled
  | exclusiveAdmitted
  | exclusiveRevoked
  | exclusiveHeld
  | returned
  deriving DecidableEq

structure Call where
  position : Position
  canceled : Bool
  deriving DecidableEq

/- `changed` and `done` are the two cases of a `select`. -/
inductive Move where
  | advance
  | changed
  | done
  | release
  deriving DecidableEq

inductive Turn where
  | next (gate : XrayLifecycleGate) (position : Position)
  | panicked
  deriving DecidableEq

def Turn.released : Option XrayLifecycleGate → Turn
  | some gate => .next gate .returned
  | none => .panicked

/- One round of the loop of `acquireStart`. -/
def startRound (g : XrayLifecycleGate) : Turn :=
  match g.admitStart with
  | some admitted => .next admitted .startAdmitted
  | none => .next g (.startAsleep g.changed)

/- One round of the loop of `acquireExclusive`. -/
def exclusiveRound (g : XrayLifecycleGate) : Turn :=
  match g.admitExclusive with
  | some admitted => .next admitted .exclusiveAdmitted
  | none => .next g (.exclusiveAsleep g.changed)

def turn (g : XrayLifecycleGate) (canceled : Bool) : Position → Move → Option Turn
  | .startEnter, .advance => some (startRound g.initializeLocked)
  | .startAsleep changed, .changed => if g.isClosed changed then some (.next g .startEnter) else none
  | .startAsleep _, .done => if canceled then some (.next g .returned) else none
  | .startAdmitted, .advance => some (.next g (if canceled then .startRevoked else .startHeld))
  | .startRevoked, .advance => some (.released g.releaseStart)
  | .startHeld, .release => some (.released g.releaseStart)
  | .exclusiveEnter, .advance => some (exclusiveRound g.announceExclusive)
  | .exclusiveAsleep changed, .changed =>
    if g.isClosed changed then some (.next g .exclusiveWoken) else none
  | .exclusiveAsleep _, .done => if canceled then some (.next g .exclusiveCanceled) else none
  | .exclusiveWoken, .advance => some (exclusiveRound g)
  | .exclusiveCanceled, .advance => some (.next g.abandonExclusive .returned)
  | .exclusiveAdmitted, .advance => some (.next g (if canceled then .exclusiveRevoked else .exclusiveHeld))
  | .exclusiveRevoked, .advance => some (.released g.releaseExclusive)
  | .exclusiveHeld, .release => some (.released g.releaseExclusive)
  | _, _ => none

structure System where
  gate : XrayLifecycleGate
  calls : List Call
  panicked : Bool
  deriving DecidableEq

/- The zero value of the gate, before any call. -/
def System.new : System := ⟨⟨none, .idle, 0, 0, 0, []⟩, [], false⟩

inductive Event where
  | acquireStart
  | acquireExclusive
  | cancel (call : ℕ)
  | move (call : ℕ) (move : Move)
  deriving DecidableEq

def System.take (s : System) (i : ℕ) (canceled : Bool) : Turn → System
  | .next gate position => { s with gate := gate, calls := s.calls.set i ⟨position, canceled⟩ }
  | .panicked => { s with panicked := true }

def step (s : System) : Event → Option System
  | .acquireStart => some { s with calls := s.calls ++ [⟨.startEnter, false⟩] }
  | .acquireExclusive => some { s with calls := s.calls ++ [⟨.exclusiveEnter, false⟩] }
  | .cancel i => s.calls[i]?.map fun call =>
      { s with calls := s.calls.set i { call with canceled := true } }
  | .move i m => s.calls[i]?.bind fun call =>
      (turn s.gate call.canceled call.position m).map (s.take i call.canceled)

end RemnanodeLite.Httpserver
