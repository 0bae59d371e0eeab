import RemnanodeLite.Netadmin.Conversation

/-! # What a walk over a datagram visits

Where the visited payloads lie in the datagram, when the walk reaches its end, and what
it makes of messages that were marshalled and put one behind the other. -/

namespace RemnanodeLite.Netadmin
open Bytes

variable {order : Order} {data rest : List UInt8}

/- Where the payloads lie of messages that follow one another from `offset` on. -/
def payloadSpans : ℕ → List Message → List (ℕ × ℕ)
  | _, [] => []
  | offset, m :: ms => (offset + nlmsgHdrlen, offset + m.1.length) ::
    payloadSpans (offset + netlinkAlign m.1.length) ms

def paddedLength (ms : List Message) : ℕ := (ms.map fun m => netlinkAlign m.1.length).sum

theorem le_netlinkAlign (length : ℕ) : length ≤ netlinkAlign length := by
  simp only [netlinkAlign, nlmsgAlignto]
  omega

/-! ### One message -/

theorem nextMessage_spec {m : Message} (h : nextMessage order data = .ok m) :
    nlmsgHdrlen ≤ m.1.length ∧ m.1.length ≤ data.length ∧
      m.2 = slice data nlmsgHdrlen m.1.length := by
  have hlow := nextMessage_length h
  unfold nextMessage at h
  split_ifs at h
  split at h
  · cases h
  · split_ifs at h with hlong
    cases h
    exact ⟨hlow, Nat.le_of_not_lt hlong, rfl⟩

theorem afterMessage_spec {length : ℕ} (h : afterMessage data length = .ok rest) :
    (rest = data.drop (netlinkAlign length) ∧ netlinkAlign length ≤ data.length) ∨
      (rest = [] ∧ data.length = length) := by
  unfold afterMessage at h
  split_ifs at h with hlong hpad
  · cases h
    rw [not_not.mp hpad, List.drop_length]
    exact .inr ⟨rfl, rfl⟩
  · cases h
    exact .inl ⟨rfl, Nat.le_of_not_lt hlong⟩

theorem afterMessage_drop {length : ℕ} (h : afterMessage data length = .ok rest) :
    rest = data.drop (netlinkAlign length) := by
  rcases afterMessage_spec h with ⟨heq, -⟩ | ⟨hnil, hlength⟩
  · exact heq
  · rw [hnil, List.drop_eq_nil_of_le (hlength.trans_le (le_netlinkAlign length))]

/-! ### The whole walk -/

theorem slice_drop (data : List UInt8) (k i j : ℕ) :
    slice (data.drop k) i j = slice data (k + i) (k + j) := by
  rw [slice, slice, List.take_drop, List.drop_drop]

structure Placed (data : List UInt8) (offset : ℕ) (ms : List Message) : Prop where
  payloads : ms.map Prod.snd = (payloadSpans offset ms).map fun s => slice data s.1 s.2
  inside : ∀ s ∈ payloadSpans offset ms, offset ≤ s.1 ∧ s.1 ≤ s.2 ∧ s.2 ≤ data.length
  ordered : (payloadSpans offset ms).Pairwise fun s s' => s.2 ≤ s'.1

theorem Placed.nil (offset : ℕ) : Placed data offset [] := ⟨rfl, nofun, .nil⟩

theorem Placed.cons {offset : ℕ} {m : Message} {ms : List Message} (hlow : nlmsgHdrlen ≤ m.1.length)
    (hin : offset + m.1.length ≤ data.length)
    (hpayload : m.2 = slice data (offset + nlmsgHdrlen) (offset + m.1.length))
    (h : Placed data (offset + netlinkAlign m.1.length) ms) : Placed data offset (m :: ms) := by
  have halign := le_netlinkAlign m.1.length
  refine ⟨?_, ?_, ?_⟩
  · rw [payloadSpans, List.map_cons, List.map_cons, h.payloads, hpayload]
  · intro s hs
    rcases List.mem_cons.mp hs with rfl | hs
    · exact ⟨Nat.le_add_right _ _, Nat.add_le_add_left hlow _, hin⟩
    · have hlater := h.inside s hs
      exact ⟨by omega, hlater.2⟩
  · refine List.pairwise_cons.mpr ⟨fun s hs => ?_, h.ordered⟩
    have hlater := h.inside s hs
    dsimp only
    omega

theorem placed_messages (n : ℕ) (offset : ℕ) (hn : (data.drop offset).length < n) :
    Placed data offset (messages order (data.drop offset)) := by
  induction n generalizing offset with
  | zero => omega
  | succ n ih =>
    have hfirst : ∀ {m : Message} {ms : List Message}, nextMessage order (data.drop offset) = .ok m →
        Placed data (offset + netlinkAlign m.1.length) ms → Placed data offset (m :: ms) := by
      intro m ms hnext hrest
      obtain ⟨hlow, hhigh, hpayload⟩ := nextMessage_spec hnext
      rw [List.length_drop] at hhigh
      rw [slice_drop] at hpayload
      refine .cons hlow ?_ hpayload hrest
      simp only [nlmsgHdrlen] at hlow
      omega
    rcases readMessages_cases order (data.drop offset) with ⟨hread, -⟩ | ⟨e, hread, -⟩ |
      ⟨m, e, hread, hnext, -⟩ | ⟨m, rest, hread, hnext, hafter⟩
    · rw [messages, hread]
      exact .nil _
    · rw [messages, hread]
      exact .nil _
    · rw [messages, hread]
      exact hfirst hnext (.nil _)
    · have hlt := afterMessage_lt (nextMessage_length hnext) hafter
      rw [messages, hread]
      refine hfirst hnext ?_
      have hdrop := afterMessage_drop hafter
      rw [List.drop_drop] at hdrop
      rw [hdrop] at hlt ⊢
      exact ih _ (by omega)

theorem covered_of_no_defect (n : ℕ) (data : List UInt8) (hn : data.length < n) (hdata : data ≠ [])
    (h : defect order data = none) : ∃ before last, messages order data = before ++ [last] ∧
      (data.length = paddedLength (before ++ [last]) ∨
        data.length = paddedLength before + last.1.length) := by
  induction n generalizing data with
  | zero => omega
  | succ n ih =>
    rcases readMessages_cases order data with ⟨hread, hnil⟩ | ⟨e, hread, -⟩ |
      ⟨m, e, hread, -⟩ | ⟨m, rest, hread, hnext, hafter⟩
    · exact absurd hnil hdata
    · rw [defect, hread] at h
      cases h
    · rw [defect, hread] at h
      cases h
    · rw [defect, hread] at h
      rw [messages, hread]
      have hlt := afterMessage_lt (nextMessage_length hnext) hafter
      by_cases hlast : rest = []
      · refine ⟨[], m, ?_, ?_⟩
        · rw [hlast, messages, readMessages_nil]
          rfl
        · rcases afterMessage_spec hafter with ⟨hrest, hfits⟩ | ⟨-, hlength⟩
          · have hend := congrArg List.length (hrest.symm.trans hlast)
            rw [List.length_drop, List.length_nil] at hend
            left
            simp only [paddedLength, List.nil_append, List.map_singleton, List.sum_singleton]
            omega
          · right
            simpa [paddedLength] using hlength
      · obtain ⟨before, last, hms, hlength⟩ := ih rest (by omega) hlast h
        refine ⟨m :: before, last, by rw [hms]; rfl, ?_⟩
        rcases afterMessage_spec hafter with ⟨hrest, hfits⟩ | ⟨hnil, -⟩
        · have hsize := congrArg List.length hrest
          rw [List.length_drop] at hsize
          simp only [paddedLength, List.cons_append, List.map_cons, List.sum_cons] at hlength ⊢
          omega
        · exact absurd hnil hlast

/-! ### Marshalled messages -/

/- The arguments of `marshalNetlinkMessage`. -/
structure Outgoing where
  messageType : UInt16
  flags : UInt16
  sequence : UInt32
  payload : List UInt8

variable (order) in
def Outgoing.bytes (r : Outgoing) : List UInt8 :=
  marshalNetlinkMessage order r.messageType.toNat r.flags.toNat r.sequence.toNat r.payload

def Outgoing.message (r : Outgoing) : Message :=
  (⟨nlmsgHdrlen + r.payload.length, r.messageType.toNat, r.flags.toNat, r.sequence.toNat, 0⟩, r.payload)

variable (order) in
/- The message with `padding` behind it. -/
def Outgoing.framed (r : Outgoing) (padding : List UInt8) : List UInt8 := r.bytes order ++ padding

def Outgoing.Pads (r : Outgoing) (padding : List UInt8) : Prop :=
  padding.length = netlinkAlign (nlmsgHdrlen + r.payload.length) - (nlmsgHdrlen + r.payload.length)

def Outgoing.Fits (r : Outgoing) : Prop := nlmsgHdrlen + r.payload.length < 2 ^ 32

instance (r : Outgoing) (padding : List UInt8) : Decidable (r.Pads padding) :=
  inferInstanceAs (Decidable (_ = _))

instance (r : Outgoing) : Decidable r.Fits := inferInstanceAs (Decidable (_ < _))

section
variable {r : Outgoing}

theorem slice_segment {xs ys zs : List UInt8} {i j : ℕ} (hi : xs.length = i) (hj : i + ys.length = j) :
    slice (xs ++ (ys ++ zs)) i j = ys := by
  rw [slice_append_right hi.le (by omega), slice_append_left (by omega), hi]
  have hlength : j - i = ys.length := by omega
  rw [Nat.sub_self, hlength, slice_self]

theorem Outgoing.length_bytes : (r.bytes order).length = nlmsgHdrlen + r.payload.length := by
  simp only [Outgoing.bytes, marshalNetlinkMessage, List.length_append, Order.length_put,
    List.length_cons, List.length_nil, nlmsgHdrlen]
  omega

theorem Outgoing.decode (hfits : r.Fits) (rest : List UInt8) :
    decodeNetlinkHeader order (r.bytes order ++ rest) = .ok r.message.1 := by
  have hlength : (r.bytes order ++ rest).length = nlmsgHdrlen + r.payload.length + rest.length := by
    rw [List.length_append, Outgoing.length_bytes]
  -- each field lies behind the fields before it
  have h1 : slice (r.bytes order ++ rest) 0 4 = order.put 4 (nlmsgHdrlen + r.payload.length) := by
    rw [Outgoing.bytes, marshalNetlinkMessage, List.append_assoc]
    exact @slice_segment [] _ _ _ _ rfl (by simp)
  have h2 : slice (r.bytes order ++ rest) 4 6 = order.put 2 r.messageType.toNat := by
    simp only [Outgoing.bytes, marshalNetlinkMessage, List.append_assoc]
    exact slice_segment (by simp) (by simp)
  have h3 : slice (r.bytes order ++ rest) 6 8 = order.put 2 r.flags.toNat := by
    simp only [Outgoing.bytes, marshalNetlinkMessage, List.append_assoc]
    rw [← List.append_assoc]
    exact slice_segment (by simp) (by simp)
  have h4 : slice (r.bytes order ++ rest) 8 12 = order.put 4 r.sequence.toNat := by
    simp only [Outgoing.bytes, marshalNetlinkMessage, List.append_assoc]
    rw [← List.append_assoc, ← List.append_assoc]
    exact slice_segment (by simp) (by simp)
  have h5 : slice (r.bytes order ++ rest) 12 16 = [0, 0, 0, 0] := by
    simp only [Outgoing.bytes, marshalNetlinkMessage, List.append_assoc]
    rw [← List.append_assoc, ← List.append_assoc, ← List.append_assoc]
    exact slice_segment (by simp) rfl
  have hzero : order.get [0, 0, 0, 0] = 0 := by cases order <;> rfl
  rw [decodeNetlinkHeader, h1, h2, h3, h4, h5, hzero, order.get_put_of_lt hfits,
    order.get_put_of_lt r.messageType.toNat_lt, order.get_put_of_lt r.flags.toNat_lt,
    order.get_put_of_lt r.sequence.toNat_lt, if_neg (by omega), if_neg (by omega)]
  rfl

theorem Outgoing.next (hfits : r.Fits) (rest : List UInt8) :
    nextMessage order (r.bytes order ++ rest) = .ok r.message := by
  have hlength : (r.bytes order ++ rest).length = nlmsgHdrlen + r.payload.length + rest.length := by
    rw [List.length_append, Outgoing.length_bytes]
  have hpayload : slice (r.bytes order ++ rest) nlmsgHdrlen (nlmsgHdrlen + r.payload.length) =
      r.payload := by
    simp only [Outgoing.bytes, marshalNetlinkMessage, List.append_assoc]
    rw [← List.append_assoc, ← List.append_assoc, ← List.append_assoc, ← List.append_assoc]
    exact slice_segment (by simp [nlmsgHdrlen]) rfl
  rw [nextMessage, if_neg (by omega), Outgoing.decode hfits]
  simp only [Outgoing.message, hpayload]
  rw [if_neg (by omega)]

theorem Outgoing.after {padding : List UInt8} (hpads : r.Pads padding) (rest : List UInt8) :
    afterMessage (r.framed order padding ++ rest) r.message.1.length = .ok rest := by
  have halign := le_netlinkAlign (nlmsgHdrlen + r.payload.length)
  have hframed : (r.framed order padding).length = netlinkAlign r.message.1.length := by
    rw [Outgoing.framed, List.length_append, Outgoing.length_bytes, hpads]
    exact Nat.add_sub_of_le halign
  rw [afterMessage, List.length_append, hframed, if_neg (by omega), List.drop_left' hframed]

theorem Outgoing.after_unpadded : afterMessage (r.framed order []) r.message.1.length = .ok [] := by
  have hframed : (r.framed order []).length = r.message.1.length := by
    rw [Outgoing.framed, List.append_nil, Outgoing.length_bytes, Outgoing.message]
  have halign := le_netlinkAlign r.message.1.length
  rw [afterMessage, hframed]
  split_ifs with hlong hpad
  · exact absurd rfl hpad
  · rw [← hframed, List.drop_length]
  · rw [List.drop_eq_nil_of_le (hframed.trans_le halign)]

end

variable {batch : List (Outgoing × List UInt8)} {last : Outgoing} {padding : List UInt8}

theorem readMessages_framed {r : Outgoing} {tail : List UInt8} (hfits : r.Fits)
    (h : afterMessage (r.framed order padding ++ tail) r.message.1.length = .ok rest) :
    readMessages order (r.framed order padding ++ tail) =
      (r.message :: messages order rest, defect order rest) := by
  have hnext : nextMessage order (r.framed order padding ++ tail) = .ok r.message := by
    rw [Outgoing.framed, List.append_assoc]
    exact Outgoing.next hfits _
  rcases readMessages_cases order (r.framed order padding ++ tail) with
    ⟨-, hnil⟩ | ⟨e, -, -, herror⟩ | ⟨m, e, -, hm, hafter⟩ | ⟨m, rest', hread, hm, hafter⟩
  · rw [hnil] at hnext
    cases hnext
  · cases hnext.symm.trans herror
  · cases hnext.symm.trans hm
    cases h.symm.trans hafter
  · cases hnext.symm.trans hm
    cases h.symm.trans hafter
    exact hread

theorem readMessages_marshalled (hbatch : ∀ x ∈ batch, x.1.Pads x.2 ∧ x.1.Fits) (hfits : last.Fits)
    (hpadding : padding = [] ∨ last.Pads padding) :
    readMessages order (batch.flatMap (fun x => x.1.framed order x.2) ++ last.framed order padding) =
      (batch.map (fun x => x.1.message) ++ [last.message], none) := by
  induction batch with
  | nil =>
    have hafter : afterMessage (last.framed order padding ++ []) last.message.1.length = .ok [] := by
      rcases hpadding with rfl | hpads
      · rw [List.append_nil]
        exact Outgoing.after_unpadded
      · exact Outgoing.after hpads []
    have hread := readMessages_framed hfits hafter
    rw [List.append_nil] at hread
    rw [List.flatMap_nil, List.nil_append, hread, messages, defect, readMessages_nil]
    rfl
  | cons x batch ih =>
    obtain ⟨hpads, hfits'⟩ := hbatch x List.mem_cons_self
    rw [List.flatMap_cons, List.append_assoc, readMessages_framed hfits' (Outgoing.after hpads _),
      messages, defect, ih fun y hy => hbatch y (List.mem_cons_of_mem _ hy)]
    rfl

/-- For every visitor a walk over `data` is a call for each of its messages, and the
payloads lie in `data` one behind the other; if the walk is not refused in the end, the
messages with their padding cover `data`. Marshalled messages whose lengths the length
field can hold, padded and put one behind the other, are what is visited. -/
theorem walk_visits_datagram (order : Order) :
    (∀ (data : List UInt8),
      (∀ (β : Type) (visit : β → NetlinkHeader → List UInt8 → Sock β) (acc : β),
        walkNetlinkMessages order visit data acc = (do
          Program.refuseIf (data = []) "empty netlink datagram"
          visitAll visit (defect order data) (messages order data) acc)) ∧
      (messages order data).map Prod.snd =
        (payloadSpans 0 (messages order data)).map (fun s => slice data s.1 s.2) ∧
      (∀ s ∈ payloadSpans 0 (messages order data), s.1 ≤ s.2 ∧ s.2 ≤ data.length) ∧
      (payloadSpans 0 (messages order data)).Pairwise (fun s s' => s.2 ≤ s'.1) ∧
      (data ≠ [] → defect order data = none →
        ∃ before last, messages order data = before ++ [last] ∧
          (data.length = paddedLength (before ++ [last]) ∨
            data.length = paddedLength before + last.1.length))) ∧
    ∀ (batch : List (Outgoing × List UInt8)) (last : Outgoing) (padding : List UInt8),
      (∀ x ∈ batch, x.1.Pads x.2 ∧ x.1.Fits) → last.Fits → padding = [] ∨ last.Pads padding →
      readMessages order (batch.flatMap (fun x => x.1.framed order x.2) ++
        last.framed order padding) = (batch.map (fun x => x.1.message) ++ [last.message], none) := by
  refine ⟨fun data => ?_, fun batch last padding => readMessages_marshalled⟩
  have hplaced : Placed data 0 (messages order data) := placed_messages (data.length + 1) 0 (by simp)
  refine ⟨fun β visit acc => ?_, hplaced.payloads, fun s hs => (hplaced.inside s hs).2,
    hplaced.ordered, covered_of_no_defect (data.length + 1) data (by omega)⟩
  simp only [walkNetlinkMessages, walkFrom_eq visit (data.length + 1) data (by omega)]

def sampleOutgoing : Outgoing := ⟨21, 5, 1, [2, 6, 0]⟩

theorem walk_visits_datagram_sample : readMessages .little
    (sampleOutgoing.framed .little [0] ++ sampleOutgoing.framed .little []) =
      ([sampleOutgoing.message, sampleOutgoing.message], none) :=
  (walk_visits_datagram .little).2 [(sampleOutgoing, [0])] sampleOutgoing []
    (by decide +kernel) (by decide +kernel) (.inl rfl)

/-- A message of 4 GiB: its length does not fit in the length field, and the walk refuses
what was marshalled. -/
theorem walk_refuses_oversized :
    readMessages .little (Outgoing.framed .little ⟨0, 0, 0, List.replicate (2 ^ 32 - 16) 0⟩ []) =
      ([], some "invalid netlink message length 0") := by
  generalize hr : (⟨0, 0, 0, List.replicate (2 ^ 32 - 16) 0⟩ : Outgoing) = r
  have hpayload : r.payload.length = 2 ^ 32 - 16 := by
    rw [← hr]
    exact List.length_replicate
  have hlength : (r.framed .little []).length = 2 ^ 32 := by
    rw [Outgoing.framed, List.append_nil, Outgoing.length_bytes, hpayload]
    rfl
  have hfield : Order.little.get (slice (r.framed .little []) 0 4) = 0 := by
    rw [Outgoing.framed, Outgoing.bytes, marshalNetlinkMessage, hpayload, List.append_assoc,
      slice_append_left (by simp)]
    decide
  have hnext : nextMessage .little (r.framed .little []) =
      .error "invalid netlink message length 0" := by
    rw [nextMessage, decodeNetlinkHeader, hlength, hfield]
    rfl
  rcases readMessages_cases .little (r.framed .little []) with
    ⟨-, hnil⟩ | ⟨e, hread, -, herror⟩ | ⟨m, e, -, hm, -⟩ | ⟨m, rest, -, hm, -⟩
  · rw [hnil] at hlength
    cases hlength
  · cases hnext.symm.trans herror
    exact hread
  · cases hnext.symm.trans hm
  · cases hnext.symm.trans hm

end RemnanodeLite.Netadmin
