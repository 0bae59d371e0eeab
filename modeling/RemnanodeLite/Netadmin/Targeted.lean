import RemnanodeLite.Netadmin.Conversation

/-! # Only matching sockets are destroyed

A destroy request is warranted by a record of the dump in progress, and a run
that ends without an error has destroyed every matching socket of two complete
dumps. -/

namespace RemnanodeLite.Netadmin
open Bytes Netip Program

/-! ### Records -/

section Records
variable (targets : Addr → Bool) (family : UInt8)

def isTarget : Except String Addr → Bool
  | .ok address => targets address.unmap
  | .error _ => false

def touches (payload : List UInt8) : Bool :=
  isTarget targets (inetDiagAddress family (slice payload 8 24)) ||
    isTarget targets (inetDiagAddress family (slice payload 24 40))

def wanted (m : Message) : Bool := m.1.message = sockDiagByFamily && touches targets family m.2

variable {targets family} {payload : List UInt8}

theorem parseInetDiagSocket_ok {result : Option InetDiagSocket}
    (h : parseInetDiagSocket payload family targets = .ok result) :
    inetDiagMessageMinLen ≤ payload.length ∧ payload.headD 0 = family ∧
      result = if touches targets family payload then some ⟨family, slice payload 4 52⟩ else none := by
  unfold parseInetDiagSocket at h
  split_ifs at h with hshort hfamily hknown
  rw [not_not] at hfamily
  rw [hfamily] at h
  refine ⟨Nat.le_of_not_lt hshort, hfamily, ?_⟩
  cases hs : inetDiagAddress family (slice payload 8 24) with
  | error e => simp [hs] at h
  | ok source =>
    cases hd : inetDiagAddress family (slice payload 24 40) with
    | error e => simp [hs, hd] at h
    | ok destination =>
      have htouches : touches targets family payload =
          (targets source.unmap || targets destination.unmap) := by
        simp only [touches, hs, hd, isTarget]
      simp only [hs, hd] at h
      rw [htouches]
      cases hleft : targets source.unmap with
      | true =>
        rw [hleft] at h
        exact (Except.ok.inj h).symm
      | false =>
        rw [hleft] at h
        cases hright : targets destination.unmap with
        | true | false =>
          rw [hright] at h
          exact (Except.ok.inj h).symm

end Records

variable (order : Order)

/-! ### Warranted requests -/

/- `since` is said in the dump of `family` that `said` is in the middle of. -/
def InDump (said : List Said) (family : UInt8) (sequence : ℕ) (since : List Said) : Prop :=
  ∃ earlier, said = earlier ++
      ⟨.send .dump (buildInetDiagDumpRequest order family sequence), (none : Option String)⟩ ::
        since ∧
    ∀ x ∈ since, ∀ request, x.1 ≠ .send .dump request

/- `request` carries the family and the socket id of `record`. -/
structure Carries (family : UInt8) (record : Message) (request : List UInt8) : Prop where
  type : order.get (slice request 4 6) = sockDestroy
  family : slice request 16 17 = [family]
  id : slice request 24 72 = slice record.2 4 52

/-- A record of the dump in progress that came before its completion, with the right
port id and sequence and with a target for an address, is what `request` carries. -/
def Warranted (targets : Addr → Bool) (dumpPort : ℕ) (said : List Said) (request : List UInt8) :
    Prop :=
  ∃ family ∈ [afInet6, afInet], ∃ sequence since before record after,
    InDump order said family sequence since ∧
    heardOn order .dump since = before ++ record :: after ∧
    (∀ m ∈ before, m.1.message ≠ nlmsgDone) ∧
    record.1.pid = dumpPort ∧ record.1.sequence = sequence ∧
    record.1.message = sockDiagByFamily ∧ record.2.headD 0 = family ∧
    (slice record.2 4 52).length = 48 ∧ touches targets family record.2 = true ∧
    Carries order family record request

/- What is said before the first dump: the two transports with their port ids. -/
def opened (dumpPort destroyPort : ℕ) : List Said :=
  [⟨.contextErr, (none : Option String)⟩, ⟨.factory, (.ok dumpPort : Except String ℕ)⟩,
    ⟨.factory, (.ok destroyPort : Except String ℕ)⟩]

/- Nothing but a warranted request is sent for destruction. -/
def Allowed (targets : Addr → Bool) (op : Op) (said : List Said) : Prop :=
  ∀ request, op = .send .destroy request → ∃ dumpPort destroyPort rest,
    said = opened dumpPort destroyPort ++ rest ∧ Warranted order targets dumpPort rest request

variable {order} {targets : Addr → Bool}

theorem allowed_receive (transport : Transport) (said : List Said) :
    Allowed order targets (.receive transport) said :=
  fun _ h => Op.noConfusion h

theorem allowed_dump (request : List UInt8) (said : List Said) :
    Allowed order targets (.send .dump request) said := by
  intro other h
  cases h

/-! ### Bytes of a request -/

theorem slice_marshal_payload {messageType flags sequence i j : ℕ} {payload : List UInt8}
    (hi : nlmsgHdrlen ≤ i) (hij : i ≤ j) :
    slice (marshalNetlinkMessage order messageType flags sequence payload) i j =
      slice payload (i - nlmsgHdrlen) (j - nlmsgHdrlen) := by
  have hheader : marshalNetlinkMessage order messageType flags sequence payload =
      (order.put 4 (nlmsgHdrlen + payload.length) ++ order.put 2 messageType ++
        order.put 2 flags ++ order.put 4 sequence ++ [0, 0, 0, 0]) ++ payload := by
    simp only [marshalNetlinkMessage, List.append_assoc]
  rw [hheader, slice_append_right (by simpa [nlmsgHdrlen] using hi) hij]
  simp [nlmsgHdrlen]

theorem slice_marshal_type {messageType flags sequence : ℕ} {payload : List UInt8} :
    slice (marshalNetlinkMessage order messageType flags sequence payload) 4 6 =
      order.put 2 messageType := by
  rw [marshalNetlinkMessage, slice_append_right (by simp) (by omega), slice_append_left (by simp)]
  simpa using slice_self (order.put 2 messageType)

theorem carries_build {family : UInt8} {record : Message} (sequence : ℕ)
    (hlength : (slice record.2 4 52).length = 48) :
    Carries order family record
      (buildInetDiagDestroyRequest order ⟨family, slice record.2 4 52⟩ sequence) := by
  constructor
  · rw [buildInetDiagDestroyRequest, slice_marshal_type]
    exact order.get_put_of_lt (by decide)
  · rw [buildInetDiagDestroyRequest, slice_marshal_payload (by decide) (by omega),
      slice_append_left (by simp [nlmsgHdrlen])]
    rfl
  · rw [buildInetDiagDestroyRequest, slice_marshal_payload (by decide) (by omega),
      slice_append_right (by simp [nlmsgHdrlen]) (by simp [nlmsgHdrlen])]
    have hself := slice_self (slice record.2 4 52)
    rw [hlength] at hself
    exact hself

/-! ### One destroyed socket -/

variable (order) in
/- The kernel's answer to the request with `sequence`: done, or nothing to do. -/
def Accepts (port sequence : ℕ) (reply : Message) : Prop :=
  reply.1.message = nlmsgError ∧ reply.1.pid = port ∧ reply.1.sequence = sequence ∧
    ∃ errno ∈ [0, enoent], parseNetlinkError order reply.2 sockDestroy sequence = .ok errno

variable {allowed : Op → List Said → Prop}

theorem sure_visitAck (port sequence : ℕ) (visited : List Message) (m : Message) (ack : Ack)
    (s : List Said)
    (hack : ack.acknowledged = true → ack.ackErr = none →
      ∃ reply ∈ visited, Accepts order port sequence reply) :
    Sure allowed (visitAck order port sequence ack m.1 m.2)
      (fun ack t => t = s ∧ (ack.acknowledged = true → ack.ackErr = none →
        ∃ reply ∈ visited ++ [m], Accepts order port sequence reply)) s := by
  refine sure_refuseIf fun hpid => sure_refuseIf fun hsequence => ?_
  rw [not_not] at hpid hsequence
  by_cases herror : m.1.message = nlmsgError
  · rw [if_pos herror]
    refine sure_refuseIf fun _ => sure_returned fun errno herrno => ?_
    by_cases hbad : errno ≠ 0 ∧ errno ≠ enoent
    · rw [if_pos hbad]
      exact ⟨rfl, fun _ h => by cases h⟩
    · rw [if_neg hbad]
      have hgood : errno ∈ [0, enoent] := by
        simp only [List.mem_cons, List.not_mem_nil, or_false]
        omega
      exact ⟨rfl, fun _ _ => ⟨m, by simp, herror, hpid, hsequence, errno, hgood, herrno⟩⟩
  · rw [if_neg herror]
    by_cases hnoop : m.1.message = nlmsgNoop
    · rw [if_pos hnoop]
      refine ⟨rfl, fun h1 h2 => ?_⟩
      obtain ⟨reply, hmem, hreply⟩ := hack h1 h2
      exact ⟨reply, List.mem_append_left _ hmem, hreply⟩
    · rw [if_neg hnoop]
      trivial

theorem sure_awaitAck (hallowed : ∀ s, allowed (.receive .destroy) s) (port sequence : ℕ) :
    ∀ (rounds : ℕ) (s : List Said), Sure allowed (awaitAck order port sequence rounds)
      (fun _ t => ∃ replies, t = s ++ replies ∧ (∀ x ∈ replies, x.1 = .receive .destroy) ∧
        ∃ reply ∈ heardOn order .destroy replies, Accepts order port sequence reply) s := by
  intro rounds
  induction rounds with
  | zero =>
    intro s
    trivial
  | succ rounds ih =>
    intro s
    refine sure_bind (sure_wrap (sure_receive (hallowed s) fun packet => ?_))
    refine sure_refuseIf fun _ => sure_bind ?_
    let inv (visited _ : List Message) (ack : Ack) (t : List Said) : Prop :=
      t = s ++ [⟨.receive .destroy, .ok packet⟩] ∧ (ack.acknowledged = true → ack.ackErr = none →
        ∃ reply ∈ visited, Accepts order port sequence reply)
    have hvisit : ∀ visited m rest ack t, inv visited (m :: rest) ack t →
        Sure allowed (visitAck order port sequence ack m.1 m.2)
          (fun ack t => inv (visited ++ [m]) rest ack t) t := by
      intro visited m rest ack t ht
      obtain ⟨rfl, hack⟩ := ht
      exact sure_visitAck port sequence visited m ack _ hack
    have hstart : inv [] (messages order packet.data) ⟨false, none⟩
        (s ++ [⟨.receive .destroy, .ok packet⟩]) := ⟨rfl, fun h => by cases h⟩
    refine sure_mono (sure_walkNetlinkMessages inv hvisit [] hstart) fun ack t ht => ?_
    obtain ⟨-, rfl, hack⟩ := ht
    by_cases hdone : ack.acknowledged = true
    · rw [if_pos hdone]
      cases herr : ack.ackErr with
      | some e => trivial
      | none =>
        obtain ⟨reply, hmem, hreply⟩ := hack hdone herr
        refine ⟨[⟨.receive .destroy, .ok packet⟩], rfl, by simp, reply, ?_, hreply⟩
        simpa using hmem
    · rw [if_neg hdone]
      refine sure_mono (ih _) fun _ t ht => ?_
      obtain ⟨replies, rfl, hreplies, reply, hmem, hreply⟩ := ht
      refine ⟨⟨.receive .destroy, .ok packet⟩ :: replies, by simp, ?_, reply, ?_, hreply⟩
      · intro x hx
        rcases List.mem_cons.mp hx with rfl | hx
        · rfl
        · exact hreplies x hx
      · rw [heardOn_cons]
        exact List.mem_append_right _ hmem

variable (order) in
/- `d` asks for the destruction of the socket of `record`, and was accepted. -/
def Acknowledged (port : ℕ) (family : UInt8) (record : Message) (d : Destruction) : Prop :=
  ∃ sequence, d.request =
      buildInetDiagDestroyRequest order ⟨family, slice record.2 4 52⟩ sequence ∧
    ∃ reply ∈ d.replies, Accepts order port sequence reply

theorem sure_destroyInetDiagSocket (hallowed : ∀ s, allowed (.receive .destroy) s)
    (rounds port : ℕ) (socket : InetDiagSocket) (counter : ℕ) (s : List Said)
    (hsend : allowed (.send .destroy
      (buildInetDiagDestroyRequest order socket (nextNetlinkSequence counter))) s) :
    Sure allowed (destroyInetDiagSocket order rounds port socket counter)
      (fun _ t => ∃ sequence replies,
        t = s ++ ⟨.send .destroy (buildInetDiagDestroyRequest order socket sequence),
          (none : Option String)⟩ :: replies ∧
        (∀ x ∈ replies, x.1 = .receive .destroy) ∧
        ∃ reply ∈ heardOn order .destroy replies, Accepts order port sequence reply) s := by
  refine sure_send hsend fun result => sure_bind (sure_wrap ?_)
  cases result with
  | some e => trivial
  | none =>
    refine sure_bind (sure_mono (sure_awaitAck hallowed port _ rounds _) fun _ t ht => ?_)
    obtain ⟨replies, rfl, hreplies, hreply⟩ := ht
    exact ⟨_, replies, by simp, hreplies, hreply⟩

/-! ### One dump -/

section Dump
variable (order) (targets : Addr → Bool) (dumpPort destroyPort : ℕ) (family : UInt8) (sequence : ℕ)

/- A message of this dump that reports neither an interruption nor an error. -/
def Clean (m : Message) : Prop :=
  m.1.pid = dumpPort ∧ m.1.sequence = sequence ∧ m.1.flags &&& nlmFDumpIntr = 0 ∧
    m.1.message ≠ nlmsgError

/- A completion with a good status, and no record after it. -/
def Concluded (heard : List Message) : Prop :=
  ∃ before done after, heard = before ++ done :: after ∧ done.1.message = nlmsgDone ∧
    parseNetlinkDone order done.2 = .ok () ∧ ∀ m ∈ after, m.1.message ≠ sockDiagByFamily

def Sound (answer : Except String NetlinkPacket) : Prop :=
  ∃ packet, answer = .ok packet ∧ packet.senderPID = 0 ∧ packet.senderGroups = 0 ∧
    defect order packet.data = none

structure Visited (visited : List Message) (complete : Bool) (since : List Said) : Prop where
  within : ∀ x ∈ since, ∀ request, x.1 ≠ .send .dump request
  clean : ∀ m ∈ visited, Clean dumpPort sequence m
  incomplete : complete = false → ∀ m ∈ visited, m.1.message ≠ nlmsgDone
  concluded : complete = true → Concluded order visited
  acknowledged : List.Forall₂ (Acknowledged order destroyPort family)
    (visited.filter (wanted targets family)) (destructions order since)

/-- All that is said in a dump after its request: whole datagrams of the kernel with
clean messages up to a completion, and an accepted destroy request for each matching
record, in the order of the records. -/
structure Dumped (since : List Said) : Prop where
  sound : ∀ answer : Except String NetlinkPacket, ⟨.receive .dump, answer⟩ ∈ since →
    Sound order answer
  clean : ∀ m ∈ heardOn order .dump since, Clean dumpPort sequence m
  concluded : Concluded order (heardOn order .dump since)
  acknowledged : List.Forall₂ (Acknowledged order destroyPort family)
    ((heardOn order .dump since).filter (wanted targets family)) (destructions order since)

variable {order targets dumpPort destroyPort family sequence} {visited rest : List Message}
  {m : Message} {complete : Bool} {since : List Said}

theorem wanted_of_ne (h : m.1.message ≠ sockDiagByFamily) : wanted targets family m = false := by
  simp [wanted, h]

theorem filter_snoc_unwanted (h : wanted targets family m = false) :
    (visited ++ [m]).filter (wanted targets family) = visited.filter (wanted targets family) := by
  rw [List.filter_append, List.filter_cons_of_neg (by simp [h]), List.filter_nil, List.append_nil]

theorem Visited.skip
    (h : Visited order targets dumpPort destroyPort family sequence visited complete since)
    (hclean : Clean dumpPort sequence m) (hdone : m.1.message ≠ nlmsgDone)
    (hunwanted : wanted targets family m = false)
    (hrecord : complete = true → m.1.message ≠ sockDiagByFamily) :
    Visited order targets dumpPort destroyPort family sequence (visited ++ [m]) complete since where
  within := h.within
  clean := List.forall_mem_append.mpr ⟨h.clean, List.forall_mem_singleton.mpr hclean⟩
  incomplete := fun hc =>
    List.forall_mem_append.mpr ⟨h.incomplete hc, List.forall_mem_singleton.mpr hdone⟩
  concluded := by
    intro hc
    obtain ⟨before, done, after, rfl, hmessage, hstatus, hafter⟩ := h.concluded hc
    refine ⟨before, done, after ++ [m], by simp, hmessage, hstatus, ?_⟩
    exact List.forall_mem_append.mpr ⟨hafter, List.forall_mem_singleton.mpr (hrecord hc)⟩
  acknowledged := by
    rw [filter_snoc_unwanted hunwanted]
    exact h.acknowledged

theorem Visited.conclude
    (h : Visited order targets dumpPort destroyPort family sequence visited complete since)
    (hclean : Clean dumpPort sequence m) (hdone : m.1.message = nlmsgDone)
    (hstatus : parseNetlinkDone order m.2 = .ok ()) :
    Visited order targets dumpPort destroyPort family sequence (visited ++ [m]) true since where
  within := h.within
  clean := List.forall_mem_append.mpr ⟨h.clean, List.forall_mem_singleton.mpr hclean⟩
  incomplete := fun hc => by cases hc
  concluded := fun _ => ⟨visited, m, [], rfl, hdone, hstatus, fun x hx => by cases hx⟩
  acknowledged := by
    have hunwanted : wanted targets family m = false := wanted_of_ne (by rw [hdone]; decide)
    rw [filter_snoc_unwanted hunwanted]
    exact h.acknowledged

theorem Visited.destroy
    (h : Visited order targets dumpPort destroyPort family sequence visited false since)
    (hclean : Clean dumpPort sequence m) (hmessage : m.1.message = sockDiagByFamily)
    (htouches : touches targets family m.2 = true) {used : ℕ} {replies : List Said}
    (hreplies : ∀ x ∈ replies, x.1 = .receive .destroy)
    (hreply : ∃ reply ∈ heardOn order .destroy replies, Accepts order destroyPort used reply) :
    Visited order targets dumpPort destroyPort family sequence (visited ++ [m]) false
      (since ++ ⟨.send .destroy (buildInetDiagDestroyRequest order ⟨family, slice m.2 4 52⟩ used),
        (none : Option String)⟩ :: replies) where
  within := by
    refine List.forall_mem_append.mpr ⟨h.within, List.forall_mem_cons.mpr ⟨?_, ?_⟩⟩
    · intro request hx
      cases hx
    · intro x hx request
      rw [hreplies x hx]
      exact Op.noConfusion
  clean := List.forall_mem_append.mpr ⟨h.clean, List.forall_mem_singleton.mpr hclean⟩
  incomplete := fun hc => by
    refine List.forall_mem_append.mpr ⟨h.incomplete hc, List.forall_mem_singleton.mpr ?_⟩
    rw [hmessage]
    decide
  concluded := fun hc => by cases hc
  acknowledged := by
    have hwanted : wanted targets family m = true := by simp [wanted, hmessage, htouches]
    rw [List.filter_append, List.filter_cons_of_pos hwanted, List.filter_nil,
      destructions_append _ _ (by simp [isReply]), destructions_exchange _ _ hreplies]
    exact List.rel_append h.acknowledged (.cons ⟨used, rfl, hreply⟩ .nil)

/-! ### The walk over a datagram of a dump -/

variable (order targets dumpPort destroyPort family sequence) in
/- `start` ends with the request of the dump. -/
def Walking (start : List Said) (packet : NetlinkPacket) (visited remaining : List Message)
    (progress : Progress) (s : List Said) : Prop :=
  ∃ since, s = start ++ since ∧ heardOn order .dump since = visited ++ remaining ∧
    (∀ answer : Except String NetlinkPacket, ⟨.receive .dump, answer⟩ ∈ since →
      answer = .ok packet ∨ Sound order answer) ∧
    Visited order targets dumpPort destroyPort family sequence visited progress.complete since

variable (order family sequence) in
def dumpRequest : Said :=
  ⟨.send .dump (buildInetDiagDumpRequest order family sequence), (none : Option String)⟩

variable {earlier : List Said} {packet : NetlinkPacket} {progress : Progress} {s : List Said}

theorem warranted_record (hfamily : family ∈ [afInet6, afInet])
    (hwithin : ∀ x ∈ since, ∀ request, x.1 ≠ .send .dump request)
    (hheard : heardOn order .dump since = visited ++ m :: rest)
    (hincomplete : ∀ x ∈ visited, x.1.message ≠ nlmsgDone) (hclean : Clean dumpPort sequence m)
    (hmessage : m.1.message = sockDiagByFamily) (hlength : inetDiagMessageMinLen ≤ m.2.length)
    (hhead : m.2.headD 0 = family) (htouches : touches targets family m.2 = true) (used : ℕ) :
    Warranted order targets dumpPort (earlier ++ [dumpRequest order family sequence] ++ since)
      (buildInetDiagDestroyRequest order ⟨family, slice m.2 4 52⟩ used) := by
  have hid : (slice m.2 4 52).length = 48 := by
    simp only [inetDiagMessageMinLen] at hlength
    rw [length_slice (by omega)]
  have hdump : InDump order (earlier ++ [dumpRequest order family sequence] ++ since) family
      sequence since := ⟨earlier, by simp [dumpRequest], hwithin⟩
  exact ⟨family, hfamily, sequence, since, visited, m, rest, hdump, hheard, hincomplete, hclean.1,
    hclean.2.1, hmessage, hhead, hid, htouches, carries_build used hid⟩

theorem sure_visitRecord (rounds : ℕ) (hfamily : family ∈ [afInet6, afInet])
    (h : Walking order targets dumpPort destroyPort family sequence
      (opened dumpPort destroyPort ++ (earlier ++ [dumpRequest order family sequence])) packet
      visited (m :: rest) progress s)
    (hclean : Clean dumpPort sequence m) (hmessage : m.1.message = sockDiagByFamily) :
    Sure (Allowed order targets)
      (visitRecord order targets rounds destroyPort family progress m.2)
      (Walking order targets dumpPort destroyPort family sequence
        (opened dumpPort destroyPort ++ (earlier ++ [dumpRequest order family sequence])) packet
        (visited ++ [m]) rest) s := by
  obtain ⟨since, rfl, hheard, hsound, hvisited⟩ := h
  refine sure_refuseIf fun hcomplete => sure_returned fun result hresult => ?_
  rw [Bool.not_eq_true] at hcomplete
  obtain ⟨hlength, hhead, rfl⟩ := parseInetDiagSocket_ok hresult
  cases htouches : touches targets family m.2 with
  | false =>
    have hunwanted : wanted targets family m = false := by simp [wanted, htouches]
    refine ⟨since, rfl, by simpa using hheard, hsound, ?_⟩
    exact hvisited.skip hclean (by rw [hmessage]; decide) hunwanted fun hc => by
      rw [hcomplete] at hc
      cases hc
  | true =>
    have hsend : Allowed order targets (.send .destroy
        (buildInetDiagDestroyRequest order ⟨family, slice m.2 4 52⟩
          (nextNetlinkSequence progress.destroySequence)))
        (opened dumpPort destroyPort ++ (earlier ++ [dumpRequest order family sequence]) ++ since) := by
      intro request hrequest
      cases hrequest
      refine ⟨dumpPort, destroyPort, earlier ++ [dumpRequest order family sequence] ++ since,
        by simp, ?_⟩
      exact warranted_record hfamily hvisited.within hheard (hvisited.incomplete hcomplete) hclean
        hmessage hlength hhead htouches _
    refine sure_bind (sure_mono (sure_destroyInetDiagSocket (allowed_receive .destroy) rounds
      destroyPort _ progress.destroySequence _ hsend) fun _ t ht => ?_)
    obtain ⟨used, replies, rfl, hreplies, hreply⟩ := ht
    rw [hcomplete] at hvisited
    refine ⟨_, List.append_assoc _ _ _, ?_, ?_, ?_⟩
    · have hnone : heardOn order .dump (⟨.send .destroy (buildInetDiagDestroyRequest order
          ⟨family, slice m.2 4 52⟩ used), (none : Option String)⟩ :: replies) = [] := by
        refine heardOn_eq_nil (List.forall_mem_cons.mpr ⟨Op.noConfusion, fun x hx => ?_⟩)
        rw [hreplies x hx]
        decide
      rw [heardOn_append, hnone, List.append_nil, hheard, List.append_assoc, List.singleton_append]
    · intro answer hmem
      rcases List.mem_append.mp hmem with hmem | hmem
      · exact hsound answer hmem
      · rcases List.mem_cons.mp hmem with hmem | hmem
        · cases hmem
        · have hop := hreplies _ hmem
          cases hop
    · rw [hcomplete]
      exact hvisited.destroy hclean hmessage htouches hreplies hreply

theorem sure_visitDump (rounds : ℕ) (hfamily : family ∈ [afInet6, afInet])
    (h : Walking order targets dumpPort destroyPort family sequence
      (opened dumpPort destroyPort ++ (earlier ++ [dumpRequest order family sequence])) packet
      visited (m :: rest) progress s) :
    Sure (Allowed order targets)
      (visitDump order targets rounds dumpPort destroyPort family sequence progress m.1 m.2)
      (Walking order targets dumpPort destroyPort family sequence
        (opened dumpPort destroyPort ++ (earlier ++ [dumpRequest order family sequence])) packet
        (visited ++ [m]) rest) s := by
  refine sure_refuseIf fun hpid => sure_refuseIf fun hsequence => sure_refuseIf fun hflags => ?_
  rw [not_not] at hpid hsequence hflags
  by_cases hrecord : m.1.message = sockDiagByFamily
  · rw [if_pos hrecord]
    have hclean : Clean dumpPort sequence m :=
      ⟨hpid, hsequence, hflags, by rw [hrecord]; decide⟩
    exact sure_visitRecord rounds hfamily h hclean hrecord
  · rw [if_neg hrecord]
    by_cases hdone : m.1.message = nlmsgDone
    · rw [if_pos hdone]
      have hclean : Clean dumpPort sequence m := ⟨hpid, hsequence, hflags, by rw [hdone]; decide⟩
      obtain ⟨since, rfl, hheard, hsound, hvisited⟩ := h
      refine sure_refuseIf fun _ => sure_returned fun _ hstatus => ?_
      exact ⟨since, rfl, by simpa using hheard, hsound, hvisited.conclude hclean hdone hstatus⟩
    · rw [if_neg hdone]
      by_cases herror : m.1.message = nlmsgError
      · rw [if_pos herror]
        refine sure_returned fun errno _ => ?_
        by_cases hzero : errno = 0
        · rw [if_pos hzero]
          trivial
        · rw [if_neg hzero]
          trivial
      · rw [if_neg herror]
        by_cases hnoop : m.1.message = nlmsgNoop
        · rw [if_pos hnoop]
          have hclean : Clean dumpPort sequence m := ⟨hpid, hsequence, hflags, herror⟩
          obtain ⟨since, rfl, hheard, hsound, hvisited⟩ := h
          refine ⟨since, rfl, by simpa using hheard, hsound, ?_⟩
          exact hvisited.skip hclean hdone (wanted_of_ne hrecord) fun _ => hrecord
        · rw [if_neg hnoop]
          trivial

/-! ### Whole dumps -/

variable (order targets dumpPort destroyPort family sequence) in
def Between (start : List Said) (complete : Bool) (s : List Said) : Prop :=
  ∃ since, s = start ++ since ∧
    (∀ answer : Except String NetlinkPacket, ⟨.receive .dump, answer⟩ ∈ since →
      Sound order answer) ∧
    Visited order targets dumpPort destroyPort family sequence (heardOn order .dump since) complete
      since

theorem walking_of_between {start : List Said} {packet : NetlinkPacket}
    (h : Between order targets dumpPort destroyPort family sequence start progress.complete s) :
    ∃ visited, Walking order targets dumpPort destroyPort family sequence start packet visited
      (messages order packet.data) progress (s ++ [⟨.receive .dump, .ok packet⟩]) := by
  obtain ⟨since, rfl, hsound, hvisited⟩ := h
  refine ⟨heardOn order .dump since, since ++ [⟨.receive .dump, .ok packet⟩], by simp, by simp,
    ?_, ?_⟩
  · intro answer hmem
    rcases List.mem_append.mp hmem with hmem | hmem
    · exact Or.inr (hsound answer hmem)
    · cases List.mem_singleton.mp hmem
      exact Or.inl rfl
  · constructor
    · refine List.forall_mem_append.mpr ⟨hvisited.within, List.forall_mem_singleton.mpr ?_⟩
      intro request
      exact Op.noConfusion
    · exact hvisited.clean
    · exact hvisited.incomplete
    · exact hvisited.concluded
    · rw [destructions_append _ _ (by simp [isReply])]
      have hnone : destructions order [⟨.receive .dump, .ok packet⟩] = [] := rfl
      rw [hnone, List.append_nil]
      exact hvisited.acknowledged

theorem between_of_walking {start : List Said} {packet : NetlinkPacket}
    (h : Walking order targets dumpPort destroyPort family sequence start packet visited []
      progress s) (hpacket : Sound order (.ok packet)) :
    Between order targets dumpPort destroyPort family sequence start progress.complete s := by
  obtain ⟨since, rfl, hheard, hsound, hvisited⟩ := h
  rw [List.append_nil] at hheard
  refine ⟨since, rfl, fun answer hmem => ?_, by rw [hheard]; exact hvisited⟩
  rcases hsound answer hmem with rfl | hanswer
  · exact hpacket
  · exact hanswer

theorem sure_consumeFrom (rounds : ℕ) (hfamily : family ∈ [afInet6, afInet]) :
    ∀ (left : ℕ) (progress : Progress) (s : List Said),
      Between order targets dumpPort destroyPort family sequence
        (opened dumpPort destroyPort ++ (earlier ++ [dumpRequest order family sequence]))
        progress.complete s →
      Sure (Allowed order targets)
        (consumeFrom order targets rounds dumpPort destroyPort family sequence left progress)
        (fun _ t => Between order targets dumpPort destroyPort family sequence
          (opened dumpPort destroyPort ++ (earlier ++ [dumpRequest order family sequence])) true t)
        s := by
  intro left
  induction left with
  | zero =>
    intro progress s _
    trivial
  | succ left ih =>
    intro progress s hbetween
    refine sure_bind (sure_receive (allowed_receive .dump s) fun packet => ?_)
    refine sure_refuseIf fun hsender => sure_bind ?_
    obtain ⟨visited, hwalking⟩ := walking_of_between hbetween
    refine sure_mono (sure_walkNetlinkMessages _ (fun visited m rest progress s h =>
      sure_visitDump rounds hfamily h) visited hwalking) fun progress t ht => ?_
    obtain ⟨hdefect, hend⟩ := ht
    have hpacket : Sound order (.ok packet) := ⟨packet, rfl, by omega, by omega, hdefect⟩
    have hbetween' := between_of_walking hend hpacket
    by_cases hcomplete : progress.complete = true
    · rw [if_pos hcomplete]
      rw [hcomplete] at hbetween'
      exact hbetween'
    · rw [if_neg hcomplete]
      exact ih progress t hbetween'

theorem sure_killFamily (rounds : ℕ) (hfamily : family ∈ [afInet6, afInet]) (counters : ℕ × ℕ)
    (earlier : List Said) :
    Sure (Allowed order targets)
      (killFamily order targets rounds dumpPort destroyPort family counters)
      (fun _ t => ∃ sequence since,
        t = opened dumpPort destroyPort ++ (earlier ++ dumpRequest order family sequence :: since) ∧
        Dumped order targets dumpPort destroyPort family sequence since)
      (opened dumpPort destroyPort ++ earlier) := by
  refine sure_send (allowed_dump _ _) fun result => sure_bind (sure_wrap ?_)
  cases result with
  | some e => trivial
  | none =>
    have hstart : Between order targets dumpPort destroyPort family
        (nextNetlinkSequence counters.1) (opened dumpPort destroyPort ++
          (earlier ++ [dumpRequest order family (nextNetlinkSequence counters.1)])) false
        (opened dumpPort destroyPort ++ earlier ++
          [⟨.send .dump (buildInetDiagDumpRequest order family (nextNetlinkSequence counters.1)),
            (none : Option String)⟩]) := by
      refine ⟨[], by simp [dumpRequest], fun answer hmem => absurd hmem List.not_mem_nil, ?_⟩
      constructor
      · intro x hx
        cases hx
      · intro m hm
        cases hm
      · intro _ m hm
        cases hm
      · intro h
        cases h
      · exact .nil
    refine sure_bind (sure_wrap (sure_mono (sure_consumeFrom rounds hfamily rounds
      ⟨false, counters.2⟩ _ hstart) fun _ t ht => ?_))
    obtain ⟨since, rfl, hsound, hvisited⟩ := ht
    exact ⟨_, since, by simp, hsound, hvisited.clean, hvisited.concluded rfl,
      hvisited.acknowledged⟩

end Dump

/-! ### The whole run -/

variable (order targets) in
def BothDumped (said : List Said) : Prop :=
  ∃ dumpPort destroyPort sequence6 since6 sequence4 since4,
    said = opened dumpPort destroyPort ++ (dumpRequest order afInet6 sequence6 :: since6 ++
      dumpRequest order afInet sequence4 :: since4) ∧
    Dumped order targets dumpPort destroyPort afInet6 sequence6 since6 ∧
    Dumped order targets dumpPort destroyPort afInet sequence4 since4

theorem sure_killSocketsByTargets (rounds : ℕ) :
    Sure (Allowed order targets) (killSocketsByTargets order targets rounds)
      (fun _ t => BothDumped order targets t) [] := by
  have hquiet : ∀ op s, (∀ request, op ≠ .send .destroy request) → Allowed order targets op s :=
    fun op s hop request hrequest => absurd hrequest (hop request)
  have hfactory : ∀ (good : ℕ → List Said → Prop) (s : List Said),
      (∀ port : ℕ, good port (s ++ [⟨.factory, (.ok port : Except String ℕ)⟩])) →
      Sure (Allowed order targets) (factory >>= returned) good s := by
    intro good s hgood
    refine sure_bind (ensures_ask (hquiet .factory s fun _ => Op.noConfusion) fun answer =>
      ensures_returned.mpr ⟨fun port hport => ?_, fun _ _ => trivial⟩)
    rw [hport]
    exact hgood port
  refine sure_bind (sure_bind (ensures_ask (hquiet .contextErr [] fun _ => Op.noConfusion) ?_))
  intro result
  cases result with
  | some e => trivial
  | none =>
    refine sure_bind (sure_wrap (hfactory _ _ fun dumpPort => ?_))
    refine sure_bind (sure_wrap (hfactory _ _ fun destroyPort => ?_))
    refine sure_bind (sure_mono (sure_killFamily rounds (by decide) (0, 0) []) fun counters t ht => ?_)
    obtain ⟨sequence6, since6, rfl, hdumped6⟩ := ht
    refine sure_bind (sure_mono (sure_killFamily rounds (by decide) counters _) fun _ t ht => ?_)
    obtain ⟨sequence4, since4, rfl, hdumped4⟩ := ht
    exact ⟨dumpPort, destroyPort, sequence6, since6, sequence4, since4, rfl, hdumped6, hdumped4⟩

/-- For every target set and whatever the two transports answer: every destroy request
carries a matching record of the dump in progress, and without an error both dumps
were complete and every matching record was accepted. -/
theorem only_matching_sockets_destroyed (order : Order) (targets : Addr → Bool) (rounds : ℕ)
    (world : ℕ → (op : Op) → op.Answer) :
    (∀ c ∈ calls recorder (killSocketsByTargets order targets rounds).run world [],
      ∀ request, c.op = .send .destroy request → ∃ dumpPort destroyPort rest,
        c.before = opened dumpPort destroyPort ++ rest ∧
        Warranted order targets dumpPort rest request) ∧
    (((killSocketsByTargets order targets rounds).run.run recorder world []).1 = .ok () →
      BothDumped order targets
        ((killSocketsByTargets order targets rounds).run.run recorder world []).2) := by
  have hsure : Sure (Allowed order targets) (killSocketsByTargets order targets rounds)
      (fun _ t => BothDumped order targets t) [] := sure_killSocketsByTargets rounds
  constructor
  · intro c hc
    exact assured_guar hsure world (fun _ _ => trivial) c hc
  · intro hok
    have hend := assured_run hsure world fun _ _ => trivial
    rw [hok] at hend
    exact hend

/- A kernel with one connection of the targeted address, which the kill then destroys. -/
def oneConnection (n : ℕ) : (op : Op) → op.Answer
  | .contextErr => (none : Option String)
  | .factory => (.ok 0 : Except String ℕ)
  | .send _ _ => (none : Option String)
  | .receive .dump => (.ok ⟨if n = 4 then marshalNetlinkMessage .little nlmsgDone 0 1 []
      else marshalNetlinkMessage .little sockDiagByFamily 0 2
          ([afInet, 1, 0, 0, 0, 80, 31, 144, 10, 0, 0, 1] ++ List.replicate 60 0) ++
        marshalNetlinkMessage .little nlmsgDone 0 2 [], 0, 0⟩ : Except String NetlinkPacket)
  | .receive .destroy => (.ok ⟨marshalNetlinkMessage .little nlmsgError 0 1
      ([254, 255, 255, 255] ++ marshalNetlinkMessage .little sockDestroy 5 1
        (List.replicate 56 0)), 0, 0⟩ : Except String NetlinkPacket)

example : ((killSocketsByTargets .little (· = .v4 0x0a000001#32) 1).run.run recorder
    oneConnection []).1.toBool = true ∧ (destructions .little
      ((killSocketsByTargets .little (· = .v4 0x0a000001#32) 1).run.run recorder
        oneConnection []).2).length = 1 := by decide +kernel

end RemnanodeLite.Netadmin
