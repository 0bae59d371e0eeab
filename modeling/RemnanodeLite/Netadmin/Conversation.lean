import Mathlib.Data.List.TakeWhile
import RemnanodeLite.Netadmin.SockDiag

/-! # What is said on the transports

Read off the recorded calls: the messages heard on each transport and the
destroy requests with their replies. And the rule for a walk over a datagram,
whose visitor may speak on the other transport. -/

namespace RemnanodeLite.Netadmin
open Bytes Netip Program

abbrev Message := NetlinkHeader × List UInt8
abbrev Said := Exchange Op.Answer

section Said
variable (order : Order)

def answerMessages : (op : Op) → op.Answer → List Message
  | .receive _, .ok packet => messages order packet.data
  | _, _ => []

def heardOn (transport : Transport) (said : List Said) : List Message :=
  said.flatMap fun x => if x.1 = .receive transport then answerMessages order x.1 x.2 else []

structure Destruction where
  request : List UInt8
  replies : List Message

def isReply (x : Said) : Bool := x.1 = .receive .destroy

/- Every destroy request with what is heard before the next call of another kind. -/
def destructions : List Said → List Destruction
  | [] => []
  | ⟨.send .destroy request, _⟩ :: rest =>
    ⟨request, heardOn order .destroy (rest.takeWhile isReply)⟩ :: destructions rest
  | _ :: rest => destructions rest

variable {order}

@[simp] theorem heardOn_append (transport : Transport) (xs ys : List Said) :
    heardOn order transport (xs ++ ys) =
      heardOn order transport xs ++ heardOn order transport ys := List.flatMap_append

@[simp] theorem heardOn_nil (transport : Transport) : heardOn order transport [] = [] := rfl

theorem heardOn_cons (transport : Transport) (x : Said) (xs : List Said) :
    heardOn order transport (x :: xs) =
      (if x.1 = .receive transport then answerMessages order x.1 x.2 else []) ++
        heardOn order transport xs := List.flatMap_cons

@[simp] theorem heardOn_receive (transport : Transport) (packet : NetlinkPacket) :
    heardOn order transport [⟨.receive transport, .ok packet⟩] = messages order packet.data := by
  rw [heardOn_cons, if_pos rfl, heardOn_nil, List.append_nil]
  rfl

theorem heardOn_eq_nil {transport : Transport} {xs : List Said}
    (h : ∀ x ∈ xs, x.1 ≠ .receive transport) : heardOn order transport xs = [] := by
  induction xs with
  | nil => rfl
  | cons x xs ih =>
    have hx : x.1 ≠ .receive transport := h x List.mem_cons_self
    rw [heardOn_cons, if_neg hx, ih fun y hy => h y (List.mem_cons_of_mem _ hy)]
    rfl

theorem destructions_cons_of_ne (x : Said) (xs : List Said)
    (h : ∀ request, x.1 ≠ .send .destroy request) :
    destructions order (x :: xs) = destructions order xs := by
  obtain ⟨op, answer⟩ := x
  cases op with
  | contextErr => rfl
  | factory => rfl
  | receive transport => rfl
  | send transport request =>
    cases transport with
    | dump => rfl
    | destroy => exact absurd rfl (h request)

theorem takeWhile_isReply_append (xs ys : List Said) (h : ∀ y ∈ ys.head?, isReply y = false) :
    (xs ++ ys).takeWhile isReply = xs.takeWhile isReply := by
  induction xs with
  | nil =>
    cases ys with
    | nil => rfl
    | cons y ys =>
      have hy : isReply y = false := h y rfl
      simp [hy]
  | cons x xs ih =>
    simp only [List.cons_append, List.takeWhile_cons, ih]

theorem destructions_append (xs ys : List Said) (h : ∀ y ∈ ys.head?, isReply y = false) :
    destructions order (xs ++ ys) = destructions order xs ++ destructions order ys := by
  induction xs with
  | nil => rfl
  | cons x xs ih =>
    by_cases hx : ∃ request, x.1 = .send .destroy request
    · obtain ⟨request, hx⟩ := hx
      obtain ⟨op, answer⟩ := x
      cases hx
      simp only [List.cons_append, destructions, takeWhile_isReply_append xs ys h, ih]
    · rw [not_exists] at hx
      rw [List.cons_append, destructions_cons_of_ne x _ hx, destructions_cons_of_ne x _ hx, ih]

theorem destructions_eq_nil {xs : List Said} (h : ∀ x ∈ xs, ∀ request, x.1 ≠ .send .destroy request) :
    destructions order xs = [] := by
  induction xs with
  | nil => rfl
  | cons x xs ih =>
    rw [destructions_cons_of_ne x xs (h x List.mem_cons_self)]
    exact ih fun y hy => h y (List.mem_cons_of_mem _ hy)

theorem destructions_exchange (request : List UInt8) (answer : Option String) {replies : List Said}
    (h : ∀ x ∈ replies, x.1 = .receive .destroy) :
    destructions order (⟨.send .destroy request, answer⟩ :: replies) =
      [⟨request, heardOn order .destroy replies⟩] := by
  have hall : replies.takeWhile isReply = replies := by
    rw [List.takeWhile_eq_self_iff]
    intro x hx
    simp [isReply, h x hx]
  have hnone : destructions order replies = [] := by
    apply destructions_eq_nil
    intro x hx request
    rw [h x hx]
    exact Op.noConfusion
  simp only [destructions, hall, hnone]

end Said

/-! ### Rules -/

/-- `p` keeps to what is `allowed` to be said, and ends with `ok` unless it fails. -/
def Sure (allowed : Op → List Said → Prop) {α : Type} (p : Sock α) (ok : α → List Said → Prop)
    (s : List Said) : Prop :=
  ensures recorder (fun _ => True) (fun c => allowed c.op c.before) p ok (fun _ _ => True) s

section Rules
variable {allowed : Op → List Said → Prop} {α γ : Type} {p : Sock α} {f : α → Sock γ}
  {ok : γ → List Said → Prop} {s : List Said}

theorem sure_bind (h : Sure allowed p (fun a t => Sure allowed (f a) ok t) s) :
    Sure allowed (p >>= f) ok s := ensures_bind.mpr h

theorem sure_mono {good good' : α → List Said → Prop} (h : Sure allowed p good s)
    (himp : ∀ a t, good a t → good' a t) : Sure allowed p good' s :=
  ensures_mono h himp fun _ _ h => h

theorem sure_wrap {good : α → List Said → Prop} {text : String → String}
    (h : Sure allowed p good s) : Sure allowed (wrap text p) good s := ensures_wrap.mpr h

theorem sure_refuseIf {c : Prop} [Decidable c] {e : String} {next : Unit → Sock γ}
    (h : ¬ c → Sure allowed (next ()) ok s) : Sure allowed (refuseIf c e >>= next) ok s :=
  sure_bind (ensures_refuseIf.mpr ⟨fun _ => trivial, h⟩)

theorem sure_returned {r : Except String α} (h : ∀ a, r = .ok a → Sure allowed (f a) ok s) :
    Sure allowed (returned r >>= f) ok s :=
  sure_bind (ensures_returned.mpr ⟨h, fun _ _ => trivial⟩)

theorem sure_send {transport : Transport} {request : List UInt8} {next : Option String → Sock γ}
    (hallowed : allowed (.send transport request) s)
    (h : ∀ result : Option String,
      Sure allowed (next result) ok (s ++ [⟨.send transport request, result⟩])) :
    Sure allowed (send transport request >>= next) ok s := sure_bind (ensures_ask hallowed h)

theorem sure_receive {transport : Transport} {good : NetlinkPacket → List Said → Prop}
    (hallowed : allowed (.receive transport) s)
    (h : ∀ packet : NetlinkPacket, good packet (s ++ [⟨.receive transport, .ok packet⟩])) :
    Sure allowed (receive transport >>= returned) good s := by
  refine sure_bind (ensures_ask hallowed fun answer => ensures_returned.mpr ⟨?_, ?_⟩)
  · intro packet hpacket
    have hsaid := h packet
    rw [← hpacket] at hsaid
    exact hsaid
  · intro e he
    trivial

end Rules

/-! ### Messages of a datagram and the walk over them -/

section Walk
variable {order : Order} {data : List UInt8} {header : NetlinkHeader} {payload : List UInt8}

@[simp] theorem readMessages_nil : readMessages order [] = ([], none) := by
  rw [readMessages, if_pos rfl]

theorem ne_nil_of_nextMessage (hn : nextMessage order data = .ok (header, payload)) :
    data ≠ [] := by
  intro hdata
  simp [hdata, nextMessage, nlmsgHdrlen] at hn

theorem readMessages_of_next (hn : nextMessage order data = .ok (header, payload)) :
    readMessages order data = match afterMessage data header.length with
      | .error e => ([(header, payload)], some e)
      | .ok rest => ((header, payload) :: messages order rest, defect order rest) := by
  rw [readMessages, if_neg (ne_nil_of_nextMessage hn)]
  split
  case h_1 e he => rw [hn] at he; cases he
  case h_2 header' payload' he =>
    rw [hn] at he
    cases he
    split
    case h_1 e he' => simp only [he']
    case h_2 rest he' => simp only [he', messages, defect]

variable {β : Type} {visit : β → NetlinkHeader → List UInt8 → Sock β}

theorem walkFrom_of_next (hn : nextMessage order data = .ok (header, payload)) (acc : β) :
    walkFrom order visit data acc = visit acc header payload >>= fun acc =>
      match afterMessage data header.length with
        | .error e => throw e
        | .ok rest => walkFrom order visit rest acc := by
  rw [walkFrom, if_neg (ne_nil_of_nextMessage hn)]
  split
  case h_1 e he => rw [hn] at he; cases he
  case h_2 header' payload' he =>
    rw [hn] at he
    cases he
    congr 1
    funext acc
    split
    case h_1 e he' => simp only [he']
    case h_2 rest he' => simp only [he']

theorem readMessages_cases (order : Order) (data : List UInt8) :
    (readMessages order data = ([], none) ∧ data = []) ∨
    (∃ e, readMessages order data = ([], some e) ∧ data ≠ [] ∧ nextMessage order data = .error e) ∨
    (∃ m e, readMessages order data = ([m], some e) ∧ nextMessage order data = .ok m ∧
      afterMessage data m.1.length = .error e) ∨
    ∃ m rest, readMessages order data = (m :: messages order rest, defect order rest) ∧
      nextMessage order data = .ok m ∧ afterMessage data m.1.length = .ok rest := by
  by_cases hdata : data = []
  · rw [hdata]
    exact .inl ⟨readMessages_nil, rfl⟩
  · refine .inr ?_
    cases hn : nextMessage order data with
    | error e =>
      refine .inl ⟨e, ?_, hdata, rfl⟩
      rw [readMessages, if_neg hdata]
      split
      · next e' he =>
        rw [hn] at he
        cases he
        rfl
      · next he =>
        rw [hn] at he
        cases he
    | ok m =>
      refine .inr ?_
      have hread := readMessages_of_next hn
      cases ha : afterMessage data m.1.length with
      | error e =>
        rw [ha] at hread
        exact .inl ⟨m, e, hread, rfl, ha⟩
      | ok rest =>
        rw [ha] at hread
        exact .inr ⟨m, rest, hread, rfl, ha⟩

/- The visitor gets one message after the other, then the walk ends or fails. -/
def visitAll {β : Type} (visit : β → NetlinkHeader → List UInt8 → Sock β) (failure : Option String) :
    List Message → β → Sock β
  | [], acc => match failure with
    | none => pure acc
    | some e => throw e
  | m :: ms, acc => do
    let acc ← visit acc m.1 m.2
    visitAll visit failure ms acc

theorem walkFrom_eq {β : Type} (visit : β → NetlinkHeader → List UInt8 → Sock β) (n : ℕ)
    (data : List UInt8) (hn : data.length < n) (acc : β) :
    walkFrom order visit data acc = visitAll visit (defect order data) (messages order data) acc := by
  induction n generalizing data acc with
  | zero => omega
  | succ n ih =>
    rcases readMessages_cases order data with ⟨hread, hdata⟩ | ⟨e, hread, hdata, herror⟩ |
      ⟨m, e, hread, hnext, hafter⟩ | ⟨m, rest, hread, hnext, hafter⟩
    · rw [walkFrom, if_pos hdata, messages, defect, hread]
      rfl
    · rw [walkFrom, if_neg hdata, messages, defect, hread]
      split
      · next e' he =>
        rw [herror] at he
        cases he
        rfl
      · next he =>
        rw [herror] at he
        cases he
    · rw [walkFrom_of_next hnext, messages, defect, hread, hafter]
      rfl
    · have hlt := afterMessage_lt (nextMessage_length hnext) hafter
      rw [walkFrom_of_next hnext, messages, defect, hread, hafter]
      have hrest : ∀ acc, walkFrom order visit rest acc =
          visitAll visit (defect order rest) (messages order rest) acc :=
        fun acc => ih rest (by omega) acc
      simp only [hrest]
      rfl

variable {allowed : Op → List Said → Prop}

theorem sure_visitAll {inv : List Message → List Message → β → List Said → Prop}
    (hvisit : ∀ visited m rest acc s, inv visited (m :: rest) acc s →
      Sure allowed (visit acc m.1 m.2) (fun acc t => inv (visited ++ [m]) rest acc t) s)
    {failure : Option String} (ms visited : List Message) (acc : β) (s : List Said)
    (hinv : inv visited ms acc s) :
    Sure allowed (visitAll visit failure ms acc)
      (fun acc t => failure = none ∧ inv (visited ++ ms) [] acc t) s := by
  induction ms generalizing visited acc s with
  | nil =>
    cases failure with
    | none =>
      rw [List.append_nil]
      exact ⟨rfl, hinv⟩
    | some e => trivial
  | cons m ms ih =>
    refine sure_bind (sure_mono (hvisit visited m ms acc s hinv) fun acc t ht => ?_)
    have hrest := ih (visited ++ [m]) acc t ht
    rwa [List.append_assoc, List.singleton_append] at hrest

theorem sure_walkNetlinkMessages (inv : List Message → List Message → β → List Said → Prop)
    (hvisit : ∀ visited m rest acc s, inv visited (m :: rest) acc s →
      Sure allowed (visit acc m.1 m.2) (fun acc t => inv (visited ++ [m]) rest acc t) s)
    (visited : List Message) {acc : β} {s : List Said}
    (hinv : inv visited (messages order data) acc s) :
    Sure allowed (walkNetlinkMessages order visit data acc)
      (fun acc t => defect order data = none ∧ inv (visited ++ messages order data) [] acc t) s := by
  refine sure_refuseIf fun _ => ?_
  rw [walkFrom_eq visit (data.length + 1) data (by omega)]
  exact sure_visitAll hvisit _ visited acc s hinv

end Walk

end RemnanodeLite.Netadmin
