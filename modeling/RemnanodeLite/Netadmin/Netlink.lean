import RemnanodeLite.Lib.Assured
import RemnanodeLite.Lib.Bytes
import RemnanodeLite.Lib.Netip

/-! # Netlink messages

Reading and building the socket-diagnostic messages, and the walk over the
messages of a datagram. `order` is the byte order of the machine. -/

namespace RemnanodeLite.Netadmin
open Bytes Netip

def afInet : UInt8 := 2
def afInet6 : UInt8 := 10
def ipprotoTCP : UInt8 := 6
def sockDiagByFamily : ℕ := 20
def sockDestroy : ℕ := 21
def nlmsgNoop : ℕ := 1
def nlmsgError : ℕ := 2
def nlmsgDone : ℕ := 3
def nlmFRequest : ℕ := 0x1
def nlmFAck : ℕ := 0x4
def nlmFDumpIntr : ℕ := 0x10
def nlmFDump : ℕ := 0x300
def nlmsgHdrlen : ℕ := 16
def nlmsgAlignto : ℕ := 4
def enoent : ℕ := 2

def inetDiagRequestPayloadLen : ℕ := 56
def inetDiagMessageMinLen : ℕ := 72
def inetDiagConnectedStates : ℕ := (2 ^ 14 - 1) ^^^ (2 ^ 10 ||| 2 ^ 7 ||| 2 ^ 6 ||| 2 ^ 3)

structure NetlinkHeader where
  length : ℕ
  message : ℕ
  flags : ℕ
  sequence : ℕ
  pid : ℕ
  deriving DecidableEq

structure InetDiagSocket where
  family : UInt8
  id : List UInt8
  deriving DecidableEq

structure NetlinkPacket where
  data : List UInt8
  senderPID : ℕ
  senderGroups : ℕ
  deriving DecidableEq

variable (order : Order)

def decodeNetlinkHeader (data : List UInt8) : Except String NetlinkHeader :=
  if data.length < nlmsgHdrlen then .error "truncated netlink header"
  else if order.get (slice data 0 4) < nlmsgHdrlen then
    .error ("invalid netlink message length " ++ toString (order.get (slice data 0 4)))
  else .ok ⟨order.get (slice data 0 4), order.get (slice data 4 6), order.get (slice data 6 8),
    order.get (slice data 8 12), order.get (slice data 12 16)⟩

/- The value as an `int32`, negated. -/
def decodeNetlinkErrno (encoded : List UInt8) : Except String ℕ :=
  if encoded.length < 4 then .error "truncated netlink errno"
  else if order.get (encoded.take 4) = 0 then .ok 0
  else if order.get (encoded.take 4) < 2 ^ 31 then
    .error ("positive netlink error status " ++ toString (order.get (encoded.take 4)))
  else if 2 ^ 32 - order.get (encoded.take 4) > 4095 then
    .error ("invalid netlink errno " ++ toString (2 ^ 32 - order.get (encoded.take 4)))
  else .ok (2 ^ 32 - order.get (encoded.take 4))

def parseNetlinkDone (payload : List UInt8) : Except String Unit :=
  if payload = [] then .ok ()
  else if payload.length < 4 then .error "truncated NLMSG_DONE payload"
  else match decodeNetlinkErrno order (payload.take 4) with
    | .error e => .error ("invalid NLMSG_DONE status: " ++ e)
    | .ok errno =>
      if errno ≠ 0 then .error ("socket-diagnostic dump completion: " ++ toString errno) else .ok ()

def parseNetlinkError (payload : List UInt8) (expectedType expectedSequence : ℕ) : Except String ℕ :=
  if payload.length < 4 + nlmsgHdrlen then
    .error ("truncated netlink error payload: got " ++ toString payload.length ++
      " bytes, want at least " ++ toString (4 + nlmsgHdrlen))
  else match decodeNetlinkHeader order (payload.drop 4) with
    | .error e => .error ("decode embedded netlink request: " ++ e)
    | .ok embedded =>
      if embedded.message ≠ expectedType ∨ embedded.sequence ≠ expectedSequence then
        .error ("netlink ACK identifies type=" ++ toString embedded.message ++ " sequence=" ++
          toString embedded.sequence ++ ", want type=" ++ toString expectedType ++ " sequence=" ++
          toString expectedSequence)
      else if embedded.length ≠ nlmsgHdrlen + inetDiagRequestPayloadLen then
        .error ("netlink ACK embeds request length=" ++ toString embedded.length ++ ", want " ++
          toString (nlmsgHdrlen + inetDiagRequestPayloadLen))
      else decodeNetlinkErrno order (payload.take 4)

def inetDiagAddress (family : UInt8) (encoded : List UInt8) : Except String Addr :=
  if family = afInet then
    if encoded.length < 4 then .error "truncated IPv4 address"
    else .ok (.v4 (BitVec.ofNat 32 (ofBE (encoded.take 4))))
  else if family = afInet6 then
    if encoded.length < 16 then .error "truncated IPv6 address"
    else .ok (.v6 (BitVec.ofNat 128 (ofBE (encoded.take 16))))
  else .error ("unsupported address family " ++ toString family)

/- `none` is a socket that matches no target. -/
def parseInetDiagSocket (payload : List UInt8) (expectedFamily : UInt8) (targets : Addr → Bool) :
    Except String (Option InetDiagSocket) :=
  if payload.length < inetDiagMessageMinLen then
    .error ("truncated inet_diag_msg: got " ++ toString payload.length ++ " bytes, want at least " ++
      toString inetDiagMessageMinLen)
  else if payload.headD 0 ≠ expectedFamily then
    .error ("inet_diag_msg family=" ++ toString (payload.headD 0) ++ ", want " ++
      toString expectedFamily)
  else if payload.headD 0 ≠ afInet ∧ payload.headD 0 ≠ afInet6 then
    .error ("unsupported inet_diag_msg family " ++ toString (payload.headD 0))
  else match inetDiagAddress (payload.headD 0) (slice payload 8 24) with
    | .error e => .error ("decode inet_diag source: " ++ e)
    | .ok source => match inetDiagAddress (payload.headD 0) (slice payload 24 40) with
      | .error e => .error ("decode inet_diag destination: " ++ e)
      | .ok destination =>
        if !targets source.unmap && !targets destination.unmap then .ok none
        else .ok (some ⟨payload.headD 0, slice payload 4 52⟩)

def marshalNetlinkMessage (messageType flags sequence : ℕ) (payload : List UInt8) : List UInt8 :=
  order.put 4 (nlmsgHdrlen + payload.length) ++ (order.put 2 messageType ++
    (order.put 2 flags ++ (order.put 4 sequence ++ ([0, 0, 0, 0] ++ payload))))

def buildInetDiagDumpRequest (family : UInt8) (sequence : ℕ) : List UInt8 :=
  marshalNetlinkMessage order sockDiagByFamily (nlmFRequest ||| nlmFDump) sequence
    ([family, ipprotoTCP, 0, 0] ++ (order.put 4 inetDiagConnectedStates ++ List.replicate 48 0))

def buildInetDiagDestroyRequest (socket : InetDiagSocket) (sequence : ℕ) : List UInt8 :=
  marshalNetlinkMessage order sockDestroy (nlmFRequest ||| nlmFAck) sequence
    ([socket.family, ipprotoTCP, 0, 0, 0, 0, 0, 0] ++ socket.id)

/- The next `uint32` that is not zero. -/
def nextNetlinkSequence (sequence : ℕ) : ℕ :=
  if (sequence + 1) % 2 ^ 32 = 0 then 1 else (sequence + 1) % 2 ^ 32

def netlinkAlign (length : ℕ) : ℕ :=
  (length + nlmsgAlignto - 1) / nlmsgAlignto * nlmsgAlignto

def familyName (family : UInt8) : String :=
  if family = afInet then "IPv4" else if family = afInet6 then "IPv6"
  else "family-" ++ toString family

/-! ### The messages of a datagram -/

def afterMessage (data : List UInt8) (length : ℕ) : Except String (List UInt8) :=
  if netlinkAlign length > data.length then
    if length ≠ data.length then .error "truncated netlink message padding"
    else .ok (data.drop length)
  else .ok (data.drop (netlinkAlign length))

/- One pass of the loop of `walkNetlinkMessages` up to its visitor. -/
def nextMessage (data : List UInt8) : Except String (NetlinkHeader × List UInt8) :=
  if data.length < nlmsgHdrlen then
    .error ("truncated netlink header: " ++ toString data.length ++ " trailing bytes")
  else match decodeNetlinkHeader order data with
    | .error e => .error e
    | .ok header =>
      if header.length > data.length then
        .error ("truncated netlink message: header length=" ++ toString header.length ++
          ", available=" ++ toString data.length)
      else .ok (header, slice data nlmsgHdrlen header.length)

theorem decodeNetlinkHeader_length {order : Order} {data : List UInt8} {header : NetlinkHeader}
    (h : decodeNetlinkHeader order data = .ok header) : nlmsgHdrlen ≤ header.length := by
  unfold decodeNetlinkHeader at h
  split_ifs at h with hshort hsmall
  cases h
  exact Nat.le_of_not_lt hsmall

theorem nextMessage_length {order : Order} {data : List UInt8} {header : NetlinkHeader}
    {payload : List UInt8} (h : nextMessage order data = .ok (header, payload)) :
    nlmsgHdrlen ≤ header.length := by
  unfold nextMessage at h
  split_ifs at h with hshort
  split at h
  case h_1 => cases h
  case h_2 decoded hdecode =>
    split_ifs at h with hlong
    cases h
    exact decodeNetlinkHeader_length hdecode

theorem afterMessage_lt {data rest : List UInt8} {length : ℕ} (hlength : nlmsgHdrlen ≤ length)
    (h : afterMessage data length = .ok rest) : rest.length < data.length := by
  unfold afterMessage at h
  simp only [nlmsgHdrlen] at hlength
  split_ifs at h with hlong hpad
  · cases h
    rw [List.length_drop]
    omega
  · cases h
    rw [List.length_drop]
    simp only [netlinkAlign, nlmsgAlignto] at *
    omega

/- The messages that a datagram holds up to its end or its first defect, and that
defect. -/
def readMessages (data : List UInt8) : List (NetlinkHeader × List UInt8) × Option String :=
  if data = [] then ([], none)
  else match _hn : nextMessage order data with
    | .error e => ([], some e)
    | .ok (header, payload) => match _ha : afterMessage data header.length with
      | .error e => ([(header, payload)], some e)
      | .ok rest => ((header, payload) :: (readMessages rest).1, (readMessages rest).2)
termination_by data.length
decreasing_by all_goals exact afterMessage_lt (nextMessage_length _hn) _ha

def messages (data : List UInt8) : List (NetlinkHeader × List UInt8) := (readMessages order data).1

def defect (data : List UInt8) : Option String := (readMessages order data).2

end RemnanodeLite.Netadmin
