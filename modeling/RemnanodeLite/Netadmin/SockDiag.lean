import RemnanodeLite.Netadmin.Netlink

/-! # Destroying the sockets of a target set

`killSocketsByTargets` over two socket-diagnostic transports. Every operation of
a transport is a call to the environment; `rounds` bounds the datagrams that are
read for one answer before the deadline of the context. -/

namespace RemnanodeLite.Netadmin
open Bytes Netip Program

inductive Transport where
  | dump
  | destroy
  deriving DecidableEq

inductive Op where
  | contextErr
  | factory
  | send (transport : Transport) (request : List UInt8)
  | receive (transport : Transport)
  deriving DecidableEq

/- An opened transport answers with its local port id. -/
def Op.Answer : Op → Type
  | contextErr => Option String
  | factory => Except String ℕ
  | send _ _ => Option String
  | receive _ => Except String NetlinkPacket

abbrev Sock := ExceptT String (Program Op Op.Answer)

def contextErr : Sock (Option String) := ExceptT.lift (perform Op.contextErr)
def factory : Sock (Except String ℕ) := ExceptT.lift (perform Op.factory)
def send (transport : Transport) (request : List UInt8) : Sock (Option String) :=
  ExceptT.lift (perform (Op.send transport request))
def receive (transport : Transport) : Sock (Except String NetlinkPacket) :=
  ExceptT.lift (perform (Op.receive transport))

def fail : Option String → Sock Unit
  | none => pure ()
  | some e => throw e

def deadlineExceeded : String := "context deadline exceeded"

variable (order : Order)

section Walk
variable {β : Type} (visit : β → NetlinkHeader → List UInt8 → Sock β)

/- The loop of `walkNetlinkMessages` from an offset on: `data` is what remains and
`acc` what the visitor keeps. -/
def walkFrom (data : List UInt8) (acc : β) : Sock β :=
  if data = [] then pure acc
  else match _hn : nextMessage order data with
    | .error e => throw e
    | .ok (header, payload) => do
      let acc ← visit acc header payload
      match _ha : afterMessage data header.length with
      | .error e => throw e
      | .ok rest => walkFrom rest acc
termination_by data.length
decreasing_by exact afterMessage_lt (nextMessage_length _hn) _ha

def walkNetlinkMessages (data : List UInt8) (acc : β) : Sock β := do
  refuseIf (data = []) "empty netlink datagram"
  walkFrom order visit data acc

end Walk

/-! ### Destroying one socket -/

structure Ack where
  acknowledged : Bool
  ackErr : Option String

def visitAck (port sequence : ℕ) (ack : Ack) (header : NetlinkHeader) (payload : List UInt8) :
    Sock Ack := do
  refuseIf (header.pid ≠ port)
    ("SOCK_DESTROY ACK port id=" ++ toString header.pid ++ ", want " ++ toString port)
  refuseIf (header.sequence ≠ sequence)
    ("SOCK_DESTROY ACK sequence=" ++ toString header.sequence ++ ", want " ++ toString sequence)
  if header.message = nlmsgError then do
    refuseIf (ack.acknowledged = true) "duplicate SOCK_DESTROY ACK"
    let errno ← returned (parseNetlinkError order payload sockDestroy sequence)
    if errno ≠ 0 ∧ errno ≠ enoent then pure ⟨true, some ("SOCK_DESTROY: " ++ toString errno)⟩
    else pure ⟨true, ack.ackErr⟩
  else if header.message = nlmsgNoop then pure ack
  else throw ("unexpected SOCK_DESTROY response type " ++ toString header.message)

def awaitAck (port sequence : ℕ) : ℕ → Sock Unit
  | 0 => throw ("receive SOCK_DESTROY ACK: " ++ deadlineExceeded)
  | rounds + 1 => do
    let packet ← wrap ("receive SOCK_DESTROY ACK: " ++ ·) (receive .destroy >>= returned)
    refuseIf (packet.senderPID ≠ 0 ∨ packet.senderGroups ≠ 0)
      ("SOCK_DESTROY ACK came from pid=" ++ toString packet.senderPID ++ " groups=" ++
        toString packet.senderGroups ++ ", want kernel unicast")
    let ack ← walkNetlinkMessages order (visitAck order port sequence) packet.data ⟨false, none⟩
    if ack.acknowledged then fail ack.ackErr else awaitAck port sequence rounds

/- Returns the counter, which is also the sequence number it used. -/
def destroyInetDiagSocket (rounds port : ℕ) (socket : InetDiagSocket) (sequenceCounter : ℕ) :
    Sock ℕ := do
  let sent ← send .destroy
    (buildInetDiagDestroyRequest order socket (nextNetlinkSequence sequenceCounter))
  wrap ("send SOCK_DESTROY request: " ++ ·) (fail sent)
  awaitAck order port (nextNetlinkSequence sequenceCounter) rounds
  pure (nextNetlinkSequence sequenceCounter)

/-! ### Reading one dump -/

structure Progress where
  complete : Bool
  destroySequence : ℕ

variable (targets : Addr → Bool) (rounds dumpPort destroyPort : ℕ) (family : UInt8) (sequence : ℕ)

def visitRecord (progress : Progress) (payload : List UInt8) : Sock Progress := do
  refuseIf (progress.complete = true) "socket-diagnostic record followed dump completion"
  match ← returned (parseInetDiagSocket payload family targets) with
  | none => pure progress
  | some socket => do
    let used ← destroyInetDiagSocket order rounds destroyPort socket progress.destroySequence
    pure ⟨progress.complete, used⟩

def visitDone (progress : Progress) (payload : List UInt8) : Sock Progress := do
  refuseIf (progress.complete = true) "duplicate socket-diagnostic dump completion"
  returned (parseNetlinkDone order payload)
  pure ⟨true, progress.destroySequence⟩

def visitError (payload : List UInt8) : Sock Progress := do
  let errno ← returned (parseNetlinkError order payload sockDiagByFamily sequence)
  if errno = 0 then throw "unexpected success ACK for socket-diagnostic dump"
  else throw ("socket-diagnostic dump: " ++ toString errno)

def visitDump (progress : Progress) (header : NetlinkHeader) (payload : List UInt8) :
    Sock Progress := do
  refuseIf (header.pid ≠ dumpPort)
    ("socket-diagnostic response port id=" ++ toString header.pid ++ ", want " ++ toString dumpPort)
  refuseIf (header.sequence ≠ sequence)
    ("socket-diagnostic response sequence=" ++ toString header.sequence ++ ", want " ++
      toString sequence)
  refuseIf (header.flags &&& nlmFDumpIntr ≠ 0) "socket-diagnostic dump was interrupted"
  if header.message = sockDiagByFamily then
    visitRecord order targets rounds destroyPort family progress payload
  else if header.message = nlmsgDone then visitDone order progress payload
  else if header.message = nlmsgError then visitError order sequence payload
  else if header.message = nlmsgNoop then pure progress
  else throw ("unexpected socket-diagnostic message type " ++ toString header.message)

/- `for !complete`; returns the counter of the destroy requests. -/
def consumeFrom : ℕ → Progress → Sock ℕ
  | 0, _ => throw deadlineExceeded
  | left + 1, progress => do
    let packet ← receive .dump >>= returned
    refuseIf (packet.senderPID ≠ 0 ∨ packet.senderGroups ≠ 0)
      ("socket-diagnostic response came from pid=" ++ toString packet.senderPID ++ " groups=" ++
        toString packet.senderGroups ++ ", want kernel unicast")
    let progress ← walkNetlinkMessages order
      (visitDump order targets rounds dumpPort destroyPort family sequence) packet.data progress
    if progress.complete then pure progress.destroySequence else consumeFrom left progress

def consumeInetDiagDump (destroySequence : ℕ) : Sock ℕ :=
  consumeFrom order targets rounds dumpPort destroyPort family sequence rounds
    ⟨false, destroySequence⟩

/- The body of the loop over the families; returns both counters. -/
def killFamily (counters : ℕ × ℕ) : Sock (ℕ × ℕ) := do
  let sent ← send .dump (buildInetDiagDumpRequest order family (nextNetlinkSequence counters.1))
  wrap ("request " ++ familyName family ++ " TCP socket dump: " ++ ·) (fail sent)
  let used ← wrap ("process " ++ familyName family ++ " TCP socket dump: " ++ ·)
    (consumeInetDiagDump order targets rounds dumpPort destroyPort family
      (nextNetlinkSequence counters.1) counters.2)
  pure (nextNetlinkSequence counters.1, used)

def killSocketsByTargets : Sock Unit := do
  contextErr >>= fail
  let dump ← wrap ("open socket-diagnostic dump transport: " ++ ·) (factory >>= returned)
  let destroy ← wrap ("open socket-diagnostic destroy transport: " ++ ·) (factory >>= returned)
  let counters ← killFamily order targets rounds dump destroy afInet6 (0, 0)
  let _ ← killFamily order targets rounds dump destroy afInet counters
  pure ()

end RemnanodeLite.Netadmin
