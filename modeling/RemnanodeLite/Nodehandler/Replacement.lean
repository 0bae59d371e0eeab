import RemnanodeLite.Nodehandler.Mirror

/-! # No half-replaced user

What `AddUser` and `AddUsers` send, in order, and what they answer. The points of a
request are the places where it looks at its context, with the call that follows. Where
they lie and what they are depends on the answers to the entry's own calls only. -/

namespace RemnanodeLite.Nodehandler
open Xray
variable {env : Env} {s t : Session} {ps qs : List Point}

inductive Point where
  | enter (clock : ℕ)
  | remove (clock : ℕ) (tag username hashUUID : String)
  | add (clock : ℕ) (type tag username hashUUID : String)

def handlerOutcome (a : Answer) (u : UserCommit) : HandlerResult :=
  if !(a.dialed && a.ok) then ⟨false, a.message⟩
  else if u.wellFormed then ⟨true, ""⟩
  else commitRefused

namespace Point

def clock : Point → ℕ
  | enter k | remove k _ _ _ | add k _ _ _ _ => k

def width : Point → ℕ
  | enter _ => 0
  | remove _ _ _ _ => 1
  | add _ type _ _ _ => if type ∈ supportedTypes then 1 else 0

def outcome (env : Env) : Point → Option HandlerResult
  | enter _ => none
  | remove k tag _ hashUUID => some (handlerOutcome (env.answer k) (.removed tag hashUUID))
  | add k type tag _ hashUUID =>
    some (if type ∈ supportedTypes then handlerOutcome (env.answer k) (.added tag hashUUID)
      else ⟨false, "unsupported user type: " ++ type⟩)

def rpc (env : Env) : Point → Option Rpc
  | enter _ => none
  | remove k tag username _ =>
    if (env.answer k).dialed then some ⟨.remove, tag, username, (env.answer k).ok⟩ else none
  | add k type tag username _ =>
    if type ∈ supportedTypes ∧ (env.answer k).dialed then
      some ⟨.add, tag, username, (env.answer k).ok⟩
    else none

def succeeds (env : Env) (p : Point) : Bool := (p.outcome env).all HandlerResult.ok

end Point

/- The points of a loop that begins at `k`. -/
def along {α : Type} (point : α → ℕ → Point) : List α → ℕ → List Point
  | [], _ => []
  | x :: xs, k => point x k :: along point xs (k + (point x k).width)

def widths (ps : List Point) : ℕ := (ps.map Point.width).sum

def removals (username hashUUID : String) : List String → ℕ → List Point :=
  along fun tag k => .remove k tag username hashUUID

def itemPoints (hashUUID : String) : List AddUserItem → ℕ → List Point :=
  along fun item k => .add k item.type item.tag item.username hashUUID

def inboundPoints (user : BatchUserData) : List BatchInbound → ℕ → List Point :=
  along fun inbound k => .add k inbound.type inbound.tag user.userID user.vlessUUID

def entryPoints (env : Env) (tags : List String) (user : BatchUser) (k : ℕ) : List Point :=
  let removed := removals user.userData.userID user.userData.hashUUID tags k
  .enter k :: removed ++ if removed.all (Point.succeeds env) then
    inboundPoints user.userData user.inboundData (k + widths removed) else []

def usersPoints (env : Env) (tags : List String) : List BatchUser → ℕ → List Point
  | [], _ => []
  | user :: users, k =>
    let entry := entryPoints env tags user k
    entry ++ usersPoints env tags users (k + widths entry)

/- The addresses that a replacement looks up, and the clock after that. -/
def lookedUp (env : Env) (request : AddUserRequest) : List String × ℕ :=
  if request.hashData.prevVlessUUID.isSome && env.dropAvailable then
    (if (env.answer 0).ok then (env.answer 0).ips.filter (· ≠ "") else [], 1)
  else ([], 0)

def addUserPoints (env : Env) (first : AddUserItem) (request : AddUserRequest) : List Point :=
  let (plan, k) := lookedUp env request
  let removed := removals first.username
    (request.hashData.prevVlessUUID.getD request.hashData.vlessUUID)
    (userMutationTags env.tagOrder (addUserTags request.data)) k
  (if request.hashData.prevVlessUUID.isSome then [.enter k] else []) ++ removed ++
    if removed.all (Point.succeeds env) then
      itemPoints request.hashData.vlessUUID request.data
        (k + widths removed + if plan.isEmpty then 0 else 1)
    else []

/-! ### What is seen of the points -/

def seen (env : Env) (ps : List Point) : List Point :=
  ps.takeWhile fun p => (env.ctxErr p.clock).isNone

def cancellation (env : Env) (ps : List Point) : Option CtxErr :=
  ps.findSome? fun p => env.ctxErr p.clock

def sent (env : Env) (ps : List Point) : List Rpc := (seen env ps).filterMap (Point.rpc env)

def outcomes (env : Env) (ps : List Point) : List HandlerResult :=
  (seen env ps).filterMap (Point.outcome env) ++
    (cancellation env ps).toList.map fun err => ⟨false, err.text⟩

def firstFailure (results : List HandlerResult) : GenericResponse :=
  match results.find? fun r => !r.ok with
  | none => ⟨true, none⟩
  | some r => ⟨false, stringPtr r.message⟩

theorem response_foldl (results : List HandlerResult) :
    (results.foldl ResultAccumulator.add .new).response = firstFailure results := by
  have hfailed : ∀ (rs : List HandlerResult) (message : String),
      rs.foldl ResultAccumulator.add ⟨true, message⟩ = ⟨true, message⟩ := by
    intro rs message
    induction rs with
    | nil => rfl
    | cons r rs ih => exact ih
  induction results with
  | nil => rfl
  | cons r rs ih =>
    cases hr : r.ok with
    | true =>
      have hadd : ResultAccumulator.new.add r = .new := by simp [ResultAccumulator.add, hr]
      rw [List.foldl_cons, hadd, ih]
      simp [firstFailure, hr]
    | false =>
      have hadd : ResultAccumulator.new.add r = ⟨true, r.message⟩ := by
        simp [ResultAccumulator.add, ResultAccumulator.new, hr]
      rw [List.foldl_cons, hadd, hfailed]
      simp [firstFailure, hr, ResultAccumulator.response]

theorem seen_append_of_none (qs : List Point) (h : cancellation env ps = none) :
    seen env (ps ++ qs) = ps ++ seen env qs := by
  refine List.takeWhile_append_of_pos fun p hp => ?_
  rw [List.findSome?_eq_none_iff.mp h p hp]
  rfl

theorem seen_of_none (h : cancellation env ps = none) : seen env ps = ps := by
  simpa [seen] using seen_append_of_none [] h

theorem seen_append_of_some (qs : List Point) (h : (cancellation env ps).isSome = true) :
    seen env (ps ++ qs) = seen env ps := by
  induction ps with
  | nil => cases h
  | cons p ps ih =>
    cases hp : env.ctxErr p.clock with
    | some err => simp [seen, hp]
    | none =>
      have hrest := ih (by simpa [cancellation, hp] using h)
      simpa [seen, hp] using hrest

/-- The session goes through the points from `s` on: it sends what they send, its results
are their outcomes, and it is left exactly if the end of the context is seen. -/
structure Follows (env : Env) (ps : List Point) (s : Session) (f : Pass Session) : Prop where
  rpcs : f.state.node.rpcs = (sent env ps).reverse ++ s.node.rpcs
  results : f.state.results = (outcomes env ps).foldl ResultAccumulator.add s.results
  stops : ∀ t, f = .stop t → (cancellation env ps).isSome = true
  passes : ∀ t, f = .next t → cancellation env ps = none

theorem Follows.nil (env : Env) (s : Session) : Follows env [] s (.next s) :=
  ⟨rfl, rfl, nofun, fun _ _ => rfl⟩

/- Only the requests sent and the results matter of the session before. -/
theorem Follows.start {f : Pass Session} (h : Follows env ps t f)
    (hrpcs : t.node.rpcs = s.node.rpcs) (hresults : t.results = s.results) : Follows env ps s f :=
  ⟨hrpcs ▸ h.rpcs, hresults ▸ h.results, h.stops, h.passes⟩

theorem Follows.bind {f : Pass Session} {k : Session → Pass Session} (h : Follows env ps s f)
    (hk : ∀ t, f = .next t → Follows env qs t (k t)) :
    Follows env (ps ++ qs) s (f.bind k) := by
  cases f with
  | stop t =>
    have hsome := h.stops t rfl
    have hseen := seen_append_of_some qs hsome
    obtain ⟨err, herr⟩ := Option.isSome_iff_exists.mp hsome
    have hcancel : cancellation env (ps ++ qs) = cancellation env ps := by
      simp only [cancellation, List.findSome?_append] at herr ⊢
      simp only [herr, Option.some_or]
    refine ⟨?_, ?_, fun _ _ => hcancel ▸ hsome, nofun⟩
    · simpa only [sent, hseen, Pass.bind] using h.rpcs
    · simpa only [outcomes, hseen, hcancel, Pass.bind] using h.results
  | next t =>
    have hnone := h.passes t rfl
    have hrest := hk t rfl
    have hseen := seen_append_of_none qs hnone
    have hall := seen_of_none hnone
    have hcancel : cancellation env (ps ++ qs) = cancellation env qs := by
      simp only [cancellation, List.findSome?_append] at hnone ⊢
      simp only [hnone, Option.none_or]
    have hrpcs : t.node.rpcs = (ps.filterMap (Point.rpc env)).reverse ++ s.node.rpcs := by
      simpa only [sent, hall, Pass.state] using h.rpcs
    have hresults : t.results = (ps.filterMap (Point.outcome env)).foldl ResultAccumulator.add
        s.results := by
      simpa [outcomes, hall, hnone, Pass.state] using h.results
    constructor
    case rpcs =>
      rw [Pass.bind, hrest.rpcs, hrpcs]
      simp only [sent, hseen, List.filterMap_append, List.reverse_append, List.append_assoc]
    case results =>
      rw [Pass.bind, hrest.results, hresults]
      simp only [outcomes, hseen, hcancel, List.filterMap_append, List.foldl_append]
    case stops =>
      intro u hu
      rw [hcancel]
      exact hrest.stops u hu
    case passes =>
      intro u hu
      exact hcancel.trans (hrest.passes u hu)

/-! ### The calls -/

structure Performs (env : Env) (p : Point) (s t : Session) : Prop where
  rpcs : t.node.rpcs = (p.rpc env).toList ++ s.node.rpcs
  results : t.results = (p.outcome env).toList.foldl ResultAccumulator.add s.results
  removeOK : t.removeOK = (s.removeOK && p.succeeds env)
  clock : t.clock = s.clock + p.width

theorem handlerCall_outcome (env : Env) (s : Session) (kind : RpcKind) (tag username : String)
    (value : Option String) (u : UserCommit) :
    ∃ n' : Node, n'.rpcs = (if (env.answer s.clock).dialed then
        some ⟨kind, tag, username, (env.answer s.clock).ok⟩ else none : Option Rpc).toList ++
          s.node.rpcs ∧
      handlerCall env s kind tag username value u =
        { s with node := n', clock := s.clock + 1 }.addResult
          (handlerOutcome (env.answer s.clock) u) := by
  unfold handlerCall handlerOutcome
  cases hd : (env.answer s.clock).dialed with
  | false => exact ⟨s.node, by simp [hd]⟩
  | true =>
    cases hok : (env.answer s.clock).ok with
    | false =>
      refine ⟨_, ?_, by simp only [hd, hok, commitResult]; rfl⟩
      cases (env.answer s.clock).effect <;> rfl
    | true =>
      cases hu : u.wellFormed with
      | false | true => exact ⟨_, rfl, by simp only [hd, hok, hu, commitResult]; rfl⟩

theorem performs_remove (env : Env) (s : Session) (tag username hashUUID : String) :
    Performs env (.remove s.clock tag username hashUUID) s
      (handlerRemoveUser env tag username hashUUID s) := by
  obtain ⟨n', hrpcs, heq⟩ := handlerCall_outcome env s .remove tag username none
    (.removed tag hashUUID)
  rw [handlerRemoveUser, heq]
  exact ⟨hrpcs, rfl, rfl, rfl⟩

theorem performs_add (env : Env) (s : Session) (type tag username hashUUID : String) :
    Performs env (.add s.clock type tag username hashUUID) s
      (addTypedUser env type tag username hashUUID s) := by
  unfold addTypedUser
  by_cases htype : type ∈ supportedTypes
  · obtain ⟨n', hrpcs, heq⟩ := handlerCall_outcome env s .add tag username (some hashUUID)
      (.added tag hashUUID)
    rw [if_pos htype, handlerAddUser, heq]
    refine ⟨?_, ?_, ?_, ?_⟩
    · simpa [Point.rpc, htype] using hrpcs
    · simp [Point.outcome, htype, Session.addResult]
    · simp [Point.succeeds, Point.outcome, htype, Session.addResult]
    · simp [Point.width, htype, Session.addResult]
  · rw [if_neg htype]
    refine ⟨?_, ?_, ?_, ?_⟩
    · simp [Point.rpc, htype]
    · simp [Point.outcome, htype, Session.addResult]
    · simp [Point.succeeds, Point.outcome, htype, Session.addResult]
    · simp [Point.width, htype, Session.addResult]

theorem unlessStopped_next {k : Session → Session}
    (h : (unlessStopped env s fun s => .next (k s)) = .next t) : k s = t := by
  unfold unlessStopped at h
  cases herr : env.ctxErr s.clock with
  | some err =>
    rw [herr] at h
    cases h
  | none =>
    rw [herr] at h
    exact Pass.next.inj h

theorem follows_point {p : Point} (hclock : p.clock = s.clock) (k : Session → Session)
    (h : Performs env p s (k s)) : Follows env [p] s (unlessStopped env s fun s => .next (k s)) := by
  unfold unlessStopped
  cases herr : env.ctxErr s.clock with
  | some err =>
    refine ⟨?_, ?_, fun _ _ => ?_, fun _ h => by cases h⟩
    · simp [sent, seen, hclock, herr, Pass.state]
    · simp [outcomes, seen, cancellation, hclock, herr, Pass.state, Session.addResult]
    · simp [cancellation, hclock, herr]
  | none =>
    refine ⟨?_, ?_, fun _ h => (by cases h), fun t ht => ?_⟩
    · rw [Pass.state, h.rpcs]
      cases hrpc : p.rpc env <;> simp [sent, seen, hclock, herr, hrpc]
    · rw [Pass.state, h.results]
      cases hout : p.outcome env <;> simp [outcomes, seen, cancellation, hclock, herr, hout]
    · simp [cancellation, hclock, herr]

theorem follows_enter (env : Env) (s : Session) :
    Follows env [.enter s.clock] s (unlessStopped env s fun s => .next s) :=
  follows_point rfl id ⟨rfl, rfl, (Bool.and_true _).symm, rfl⟩

theorem follows_forEach {α : Type} (point : α → ℕ → Point) (call : α → Session → Session)
    (hclock : ∀ x k, (point x k).clock = k)
    (hcall : ∀ x s, Performs env (point x s.clock) s (call x s)) (xs : List α) (s : Session) :
    Follows env (along point xs s.clock) s
        (Pass.forEach (fun x s => unlessStopped env s fun s => .next (call x s)) xs s) ∧
      ∀ t, Pass.forEach (fun x s => unlessStopped env s fun s => .next (call x s)) xs s = .next t →
        t.clock = s.clock + widths (along point xs s.clock) ∧
        t.removeOK = (s.removeOK && (along point xs s.clock).all (Point.succeeds env)) := by
  induction xs generalizing s with
  | nil =>
    refine ⟨.nil env s, fun t h => ?_⟩
    cases h
    simp [along, widths]
  | cons x xs ih =>
    have hpoint := follows_point (hclock x s.clock) (call x) (hcall x s)
    have hnext : s.clock + (point x s.clock).width = (call x s).clock := (hcall x s).clock.symm
    rw [along, hnext]
    refine ⟨hpoint.bind fun t ht => ?_, fun t ht => ?_⟩
    · cases unlessStopped_next ht
      exact (ih (call x s)).1
    · obtain ⟨u, hu, hrest⟩ := Pass.bind_eq_next ht
      cases unlessStopped_next hu
      obtain ⟨hticks, hok⟩ := (ih (call x s)).2 t hrest
      refine ⟨?_, ?_⟩
      · rw [hticks, ← hnext, widths, widths, List.map_cons, List.sum_cons, Nat.add_assoc]
      · rw [hok, (hcall x s).removeOK, List.all_cons, Bool.and_assoc]

theorem follows_removeFromTags (env : Env) (username hashUUID : String) (tags : List String)
    (s : Session) :
    Follows env (removals username hashUUID tags s.clock) s
        (removeFromTags env username hashUUID tags s) ∧
      ∀ t, removeFromTags env username hashUUID tags s = .next t →
        t.clock = s.clock + widths (removals username hashUUID tags s.clock) ∧
        t.removeOK = (removals username hashUUID tags s.clock).all (Point.succeeds env) := by
  have hloop := follows_forEach (fun tag k => .remove k tag username hashUUID)
    (fun tag => handlerRemoveUser env tag username hashUUID) (fun _ _ => rfl)
    (fun tag s => performs_remove env s tag username hashUUID) tags { s with removeOK := true }
  exact ⟨hloop.1.start rfl rfl, fun t ht =>
    ⟨(hloop.2 t ht).1, (hloop.2 t ht).2.trans (Bool.true_and _)⟩⟩

/-! ### The requests -/

theorem follows_entry (env : Env) (tags : List String) (user : BatchUser) (s : Session) :
    Follows env (entryPoints env tags user s.clock) s (addUsersEntry env tags user s) ∧
      ∀ t, addUsersEntry env tags user s = .next t →
        t.clock = s.clock + widths (entryPoints env tags user s.clock) := by
  obtain ⟨hremoved, hok⟩ := follows_removeFromTags env user.userData.userID user.userData.hashUUID
    tags s
  have hadds := fun u => follows_forEach (fun (inbound : BatchInbound) k =>
      .add k inbound.type inbound.tag user.userData.userID user.userData.vlessUUID)
    (fun inbound => addBatchUser env inbound user.userData user.userData.vlessUUID)
    (fun _ _ => rfl) (fun inbound s => performs_add env s inbound.type inbound.tag _ _)
    user.inboundData u
  have hsplit : addUsersEntry env tags user s = (unlessStopped env s fun s => .next s).bind fun s =>
      (removeFromTags env user.userData.userID user.userData.hashUUID tags s).bind fun s =>
        if !s.removeOK then .next s else addInbounds env user.userData user.inboundData s := by
    unfold addUsersEntry unlessStopped
    cases env.ctxErr s.clock <;> rfl
  rw [hsplit]
  refine ⟨(follows_enter env s).bind fun t ht => ?_, fun t ht => ?_⟩
  · cases unlessStopped_next ht
    refine hremoved.bind fun u hu => ?_
    obtain ⟨hclock, hall⟩ := hok u hu
    rw [← hall]
    cases hu' : u.removeOK with
    | false => exact .nil env u
    | true =>
      rw [if_pos rfl, ← hclock]
      exact (hadds u).1
  · obtain ⟨v, hv, ht⟩ := Pass.bind_eq_next ht
    cases unlessStopped_next hv
    obtain ⟨u, hu, ht⟩ := Pass.bind_eq_next ht
    obtain ⟨hclock, hall⟩ := hok u hu
    unfold entryPoints
    dsimp only
    rw [← hall, ← hclock]
    cases hu' : u.removeOK with
    | false =>
      rw [hu'] at ht
      cases ht
      simp [hclock, widths, Point.width]
    | true =>
      rw [hu'] at ht
      rw [((hadds u).2 t ht).1, hclock]
      simp [widths, Point.width, Nat.add_assoc, inboundPoints]

theorem follows_users (env : Env) (tags : List String) (users : List BatchUser) (s : Session) :
    Follows env (usersPoints env tags users s.clock) s
      (Pass.forEach (addUsersEntry env tags) users s) := by
  induction users generalizing s with
  | nil => exact .nil env s
  | cons user users ih =>
    obtain ⟨hentry, hclock⟩ := follows_entry env tags user s
    refine hentry.bind fun t ht => ?_
    rw [← hclock t ht]
    exact ih t

theorem failed_foldl (results : List HandlerResult) (a : ResultAccumulator) :
    (results.foldl ResultAccumulator.add a).failed = (a.failed || !results.all HandlerResult.ok) := by
  induction results generalizing a with
  | nil => simp
  | cons r rs ih =>
    rw [List.foldl_cons, ih, ResultAccumulator.failed_add, List.all_cons, Bool.not_and, Bool.or_assoc]

theorem all_outcomes (env : Env) (ps : List Point) :
    (ps.filterMap (Point.outcome env)).all HandlerResult.ok = ps.all (Point.succeeds env) := by
  induction ps with
  | nil => rfl
  | cons p ps ih => cases hp : p.outcome env <;> simp [Point.succeeds, hp, ih]

theorem Follows.failed (h : Follows env ps s (.next t)) :
    t.results.failed = (s.results.failed || !ps.all (Point.succeeds env)) := by
  have hnone := h.passes t rfl
  have hresults : t.results = (outcomes env ps).foldl ResultAccumulator.add s.results := h.results
  rw [hresults, failed_foldl, ← all_outcomes]
  simp [outcomes, seen_of_none hnone, hnone]

/- `AddUser` after the lookup. -/
def addUserFrom (env : Env) (first : AddUserItem) (request : AddUserRequest) (plan : List String)
    (s : Session) : Pass Session :=
  (if request.hashData.prevVlessUUID.isSome then unlessStopped env s .next else .next s).bind fun s =>
    (removeFromTags env first.username
      (request.hashData.prevVlessUUID.getD request.hashData.vlessUUID)
      (userMutationTags env.tagOrder (addUserTags request.data)) s).bind fun s =>
        if s.results.failed then .next s
        else addItems env request.hashData.vlessUUID request.data (applyUserIPDrops env s [plan]).1

theorem addUser_eq (env : Env) (first : AddUserItem) (request : AddUserRequest) (n : Node) :
    addUser env first request (.begin n) = (addUserFrom env first request (lookedUp env request).1
      { Session.begin n with clock := (lookedUp env request).2 }).state := by
  have hlooked : (if request.hashData.prevVlessUUID.isSome then
        ((prepareUserIPDrop env (.begin n)).1, (prepareUserIPDrop env (.begin n)).2.1)
      else (.begin n, [])) =
      ({ Session.begin n with clock := (lookedUp env request).2 }, (lookedUp env request).1) := by
    unfold lookedUp prepareUserIPDrop
    cases request.hashData.prevVlessUUID.isSome with
    | false => rfl
    | true =>
      cases env.dropAvailable with
      | false => rfl
      | true => cases hok : (env.answer 0).ok <;> simp [Session.begin, hok]
  unfold addUser
  dsimp only
  rw [hlooked]
  generalize { Session.begin n with clock := (lookedUp env request).2 } = s
  generalize (lookedUp env request).1 = plan
  unfold addUserFrom unlessStopped
  dsimp only
  generalize removeFromTags env first.username _ _ = removed
  cases request.hashData.prevVlessUUID.isSome with
  | false =>
    cases hf : removed s <;> simp [hf, Pass.bind, apply_ite Pass.state]
  | true =>
    cases env.ctxErr s.clock with
    | some err => rfl
    | none => cases hf : removed s <;> simp [hf, Pass.bind, apply_ite Pass.state]

theorem follows_addUser (env : Env) (first : AddUserItem) (request : AddUserRequest) (n : Node) :
    Follows env (addUserPoints env first request) (.begin n)
      (addUserFrom env first request (lookedUp env request).1
        { Session.begin n with clock := (lookedUp env request).2 }) := by
  unfold addUserPoints
  generalize lookedUp env request = looked
  obtain ⟨plan, k⟩ := looked
  obtain ⟨hremoved, hok⟩ := follows_removeFromTags env first.username
    (request.hashData.prevVlessUUID.getD request.hashData.vlessUUID)
    (userMutationTags env.tagOrder (addUserTags request.data)) { Session.begin n with clock := k }
  have hchecked : Follows env (if request.hashData.prevVlessUUID.isSome then [.enter k] else [])
      (.begin n) (if request.hashData.prevVlessUUID.isSome then
        unlessStopped env { Session.begin n with clock := k } .next
        else .next { Session.begin n with clock := k }) := by
    cases request.hashData.prevVlessUUID.isSome with
    | false => exact (Follows.nil env { Session.begin n with clock := k }).start rfl rfl
    | true => exact (follows_enter env { Session.begin n with clock := k }).start rfl rfl
  dsimp only
  rw [List.append_assoc]
  refine hchecked.bind fun s hs => ?_
  have hsame : s = { Session.begin n with clock := k } := by
    split_ifs at hs
    · exact (unlessStopped_next hs).symm
    · exact (Pass.next.inj hs).symm
  cases hsame
  refine hremoved.bind fun t ht => ?_
  obtain ⟨hclock, -⟩ := hok t ht
  rw [ht] at hremoved
  rw [hremoved.failed, show (Session.begin n).results.failed = false from rfl, Bool.false_or]
  cases (removals first.username (request.hashData.prevVlessUUID.getD request.hashData.vlessUUID)
      (userMutationTags env.tagOrder (addUserTags request.data)) k).all (Point.succeeds env) with
  | false => exact .nil env t
  | true =>
    have hadds := follows_forEach (fun (item : AddUserItem) k =>
        .add k item.type item.tag item.username request.hashData.vlessUUID)
      (fun item => addSingleUser env item request.hashData.vlessUUID) (fun _ _ => rfl)
      (fun item s => performs_add env s item.type item.tag item.username _) request.data
      (applyUserIPDrops env t [plan]).1
    have hdropped : (applyUserIPDrops env t [plan]).1.clock =
        t.clock + if plan.isEmpty then 0 else 1 := by
      unfold applyUserIPDrops
      cases plan <;> rfl
    rw [hdropped, hclock] at hadds
    exact hadds.1.start (applyUserIPDrops_node env t [plan] |>.1 ▸ rfl)
      (applyUserIPDrops_node env t [plan]).2

/-! ### The order of the requests -/

/-- An add is sent for a user after the user has been removed from every one of the tags. -/
def Gated (tags : List String) (rpcs : List Rpc) : Prop :=
  ∀ before rpc after, rpcs = before ++ rpc :: after → rpc.kind = .add →
    ∀ tag ∈ tags, ⟨.remove, tag, rpc.username, true⟩ ∈ before

section
variable {tags : List String} {xs ys : List Rpc} {username hashUUID : String} {k : ℕ}

theorem Gated.of_begin (h : Gated tags ys) (hbegins : xs <+: ys) : Gated tags xs := by
  obtain ⟨zs, rfl⟩ := hbegins
  intro before rpc after heq
  refine h before rpc (after ++ zs) ?_
  rw [heq, List.append_assoc, List.cons_append]

theorem Gated.append (hx : Gated tags xs) (hy : Gated tags ys) : Gated tags (xs ++ ys) := by
  intro before rpc after heq hadd tag htag
  obtain ⟨zs, rfl, hzs⟩ | ⟨zs, rfl, hzs⟩ := List.append_eq_append_iff.mp heq
  · exact List.mem_append_right _ (hy zs rpc after hzs hadd tag htag)
  · cases zs with
    | nil => exact absurd (hy [] rpc after hzs.symm hadd tag htag) List.not_mem_nil
    | cons z zs =>
      cases hzs
      exact hx before rpc zs rfl hadd tag htag

/- One replacement: nothing is added among the removals, and behind them only if they
have covered the tags. -/
theorem gated_replacement (username : String) (hremoved : ∀ rpc ∈ xs, rpc.kind = .remove)
    (hadds : ∀ rpc ∈ ys, rpc.username = username ∧
      ∀ tag ∈ tags, ⟨.remove, tag, username, true⟩ ∈ xs) : Gated tags (xs ++ ys) := by
  intro before rpc after heq hadd tag htag
  have hkind : ∀ zs, xs = before ++ rpc :: zs → False := by
    intro zs hxs
    have hremove := hremoved rpc (by simp [hxs])
    rw [hadd] at hremove
    cases hremove
  obtain ⟨zs, rfl, hzs⟩ | ⟨zs, hxs, hzs⟩ := List.append_eq_append_iff.mp heq
  · obtain ⟨hname, hall⟩ := hadds rpc (by simp [hzs])
    exact List.mem_append_left _ (hname ▸ hall tag htag)
  · cases zs with
    | nil =>
      obtain ⟨hname, hall⟩ := hadds rpc
        ((show rpc :: after = ys from hzs) ▸ List.mem_cons_self)
      rw [List.append_nil] at hxs
      exact hxs ▸ hname ▸ hall tag htag
    | cons z zs =>
      cases hzs
      exact (hkind zs hxs).elim

theorem mem_along {α : Type} {point : α → ℕ → Point} {xs : List α} {k : ℕ} {p : Point}
    (h : p ∈ along point xs k) : ∃ x ∈ xs, ∃ j, p = point x j := by
  induction xs generalizing k with
  | nil => cases h
  | cons x xs ih =>
    rcases List.mem_cons.mp h with rfl | hp
    · exact ⟨x, List.mem_cons_self, k, rfl⟩
    · obtain ⟨y, hy, j, heq⟩ := ih hp
      exact ⟨y, List.mem_cons_of_mem _ hy, j, heq⟩

theorem removals_mem {tag : String} (h : tag ∈ tags) (k : ℕ) :
    ∃ j, Point.remove j tag username hashUUID ∈ removals username hashUUID tags k := by
  induction tags generalizing k with
  | nil => cases h
  | cons x tags ih =>
    rcases List.mem_cons.mp h with rfl | htag
    · exact ⟨k, List.mem_cons_self⟩
    · obtain ⟨j, hj⟩ := ih htag (k + 1)
      exact ⟨j, List.mem_cons_of_mem _ hj⟩

theorem rpc_of_succeeds {tag : String} (h : (Point.remove k tag username hashUUID).succeeds env) :
    (Point.remove k tag username hashUUID).rpc env = some ⟨.remove, tag, username, true⟩ := by
  simp only [Point.succeeds, Point.outcome, handlerOutcome, Option.all_some] at h
  cases hd : (env.answer k).dialed <;> cases hok : (env.answer k).ok <;>
    simp_all [Point.rpc]

theorem gated_points {α : Type} {point : α → ℕ → Point} (items : List α) (j : ℕ)
    (hpoint : ∀ x ∈ items, ∀ j, ∃ type tag hash, point x j = .add j type tag username hash) :
    Gated tags ((removals username hashUUID tags k ++
      if (removals username hashUUID tags k).all (Point.succeeds env) then along point items j
      else []).filterMap (Point.rpc env)) := by
  rw [List.filterMap_append]
  refine gated_replacement username ?_ ?_
  · intro rpc hrpc
    obtain ⟨p, hp, hsome⟩ := List.mem_filterMap.mp hrpc
    obtain ⟨tag, -, i, rfl⟩ := mem_along hp
    simp only [Point.rpc] at hsome
    split_ifs at hsome
    cases hsome
    rfl
  · intro rpc hrpc
    obtain ⟨p, hp, hsome⟩ := List.mem_filterMap.mp hrpc
    split_ifs at hp with hall
    · obtain ⟨x, hx, i, rfl⟩ := mem_along hp
      obtain ⟨type, tag, hash, heq⟩ := hpoint x hx i
      rw [heq] at hsome
      refine ⟨?_, fun tag htag => ?_⟩
      · simp only [Point.rpc] at hsome
        split_ifs at hsome
        cases hsome
        rfl
      · obtain ⟨i, hi⟩ := removals_mem htag k
        exact List.mem_filterMap.mpr
          ⟨_, hi, rpc_of_succeeds (List.all_eq_true.mp hall _ hi)⟩
    · cases hp

theorem gated_users (users : List BatchUser) (k : ℕ) :
    Gated tags ((usersPoints env tags users k).filterMap (Point.rpc env)) := by
  induction users generalizing k with
  | nil =>
    intro before rpc after heq
    simp [usersPoints] at heq
  | cons user users ih =>
    rw [usersPoints, List.filterMap_append]
    exact (gated_points user.inboundData _ fun inbound _ j => ⟨_, _, _, rfl⟩).append (ih _)

theorem gated_addUser {first : AddUserItem} {request : AddUserRequest}
    (hsame : ∀ item ∈ request.data, item.username = first.username) :
    Gated (userMutationTags env.tagOrder (addUserTags request.data))
      ((addUserPoints env first request).filterMap (Point.rpc env)) := by
  unfold addUserPoints
  dsimp only
  rw [List.append_assoc, List.filterMap_append]
  have hnone : (if request.hashData.prevVlessUUID.isSome then [Point.enter (lookedUp env request).2]
      else []).filterMap (Point.rpc env) = [] := by
    cases request.hashData.prevVlessUUID.isSome <;> rfl
  rw [hnone, List.nil_append]
  exact gated_points request.data _ fun item hitem j => ⟨_, _, _, by rw [hsame item hitem]⟩

end

/-! ### Whole users -/

/- A request to add that is not empty; the items of a single one name one user. -/
def Request.Adds : Request → Prop
  | .addUser r => ∃ first rest, r.data = first :: rest ∧
      ∀ item ∈ r.data, item.username = first.username
  | .addUsers r => r.users ≠ []
  | _ => False

def Request.points (env : Env) : Request → List Point
  | .addUser r => r.data.head?.elim [] fun first => addUserPoints env first r
  | .addUsers r => usersPoints env (r.tags env) r.users 0
  | _ => []

def Request.namedTags : Request → List String
  | .addUser r => addUserTags r.data
  | .addUsers r =>
    r.affectedInboundTags ++ r.users.flatMap fun user => user.inboundData.map BatchInbound.tag
  | _ => []

theorem usersPoints_parts (env : Env) (tags : List String) (users : List BatchUser) (k : ℕ) :
    ∃ parts, usersPoints env tags users k = parts.flatten ∧
      List.Forall₂ (fun user part => ∃ k, part = entryPoints env tags user k) users parts := by
  induction users generalizing k with
  | nil => exact ⟨[], rfl, .nil⟩
  | cons user users ih =>
    obtain ⟨parts, hflat, hall⟩ := ih (k + widths (entryPoints env tags user k))
    exact ⟨_ :: parts, by rw [usersPoints, hflat]; rfl, .cons ⟨k, rfl⟩ hall⟩

theorem handle_follows {n : Node} {request : Request} (hacquired : env.acquired = true)
    (hlease : env.leaseErr = none) (hadds : request.Adds) :
    (∃ f, Follows env (request.points env) (.begin n) f ∧
      handle env n request = (f.state.node, f.state.reply)) ∧
    Gated (distinctTags (env.tagOrder ++ request.namedTags))
      ((request.points env).filterMap (Point.rpc env)) := by
  cases request with
  | removeUser r => cases hadds
  | removeUsers r => cases hadds
  | addUser r =>
    obtain ⟨first, rest, hdata, hsame⟩ := hadds
    have hpoints : (Request.addUser r).points env = addUserPoints env first r := by
      simp only [Request.points, hdata, List.head?_cons, Option.elim_some]
    rw [hpoints]
    refine ⟨⟨_, follows_addUser env first r n, ?_⟩, gated_addUser hsame⟩
    rw [← addUser_eq]
    simp only [handle, hdata, withLease, hacquired, hlease, Bool.not_true, Bool.false_eq_true, if_false]
  | addUsers r =>
    refine ⟨⟨_, follows_users env (r.tags env) r.users (.begin n), ?_⟩, ?_⟩
    · have hempty : r.users.isEmpty = false := by simpa [Request.Adds] using hadds
      simp only [handle, hempty, withLease, hacquired, hlease, Bool.not_true, Bool.false_eq_true,
        if_false]
      rfl
    · rw [Request.namedTags, ← List.append_assoc]
      exact gated_users r.users 0

/-- An add is sent only after the user has been removed from every tracked, affected or
requested inbound, the entries of a batch do not influence each other's requests, and the
answer is the first failure among the outcomes. -/
theorem add_replaces_whole_users (n n' : Node) (env : Env) (request : Request) (reply : Reply)
    (hserve : serve n ⟨request, env⟩ = some (n', reply)) (hacquired : env.acquired = true)
    (hlease : env.leaseErr = none) (hadds : request.Adds) :
    n'.rpcs = (sent env (request.points env)).reverse ++ n.rpcs ∧
      (∀ before rpc after, sent env (request.points env) = before ++ rpc :: after →
        rpc.kind = .add → ∀ tag, tag ≠ "" →
          tag ∈ n.hashState.inboundTags ∨ tag ∈ request.namedTags →
            ⟨.remove, tag, rpc.username, true⟩ ∈ before) ∧
      reply = .response (firstFailure (outcomes env (request.points env))) ∧
      ∀ r, request = .addUsers r → ∃ parts, request.points env = parts.flatten ∧
        List.Forall₂ (fun user part => ∃ k, part = entryPoints env (r.tags env) user k)
          r.users parts := by
  obtain ⟨⟨f, hf, hhandle⟩, hgated⟩ := handle_follows (n := n) hacquired hlease hadds
  unfold serve at hserve
  split_ifs at hserve with horder
  rw [hhandle] at hserve
  cases hserve
  refine ⟨hf.rpcs, ?_, ?_, ?_⟩
  · intro before rpc after heq hadd tag hne htag
    have hcut := hgated.of_begin ((List.takeWhile_prefix fun p =>
      (env.ctxErr p.clock).isNone).filterMap (Point.rpc env))
    refine hcut before rpc after heq hadd tag ((mem_distinctTags _ _).mpr ⟨hne, ?_⟩)
    rw [List.mem_append, ← List.mem_toFinset, horder.2]
    exact htag
  · rw [Session.reply, hf.results, ← response_foldl]
    rfl
  · rintro r rfl
    exact usersPoints_parts env (r.tags env) r.users 0

theorem alice_replaced : ∃ n' reply, serve bobNode addAlice = some (n', reply) ∧
    reply = .response (firstFailure (outcomes addAlice.env (addAlice.request.points addAlice.env))) := by
  obtain ⟨⟨n', reply⟩, hserve⟩ := Option.isSome_iff_exists.mp
    (show (serve bobNode addAlice).isSome = true by decide)
  exact ⟨n', reply, hserve, (add_replaces_whole_users bobNode n' addAlice.env addAlice.request reply
    hserve rfl rfl ⟨_, _, rfl, by simp⟩).2.2.1⟩

end RemnanodeLite.Nodehandler
