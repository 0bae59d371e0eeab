import RemnanodeLite.Lib.Transition
import RemnanodeLite.Nodehandler.Calls

/-! # What a reported removal has removed -/

namespace RemnanodeLite.Nodehandler
open Json

/- An add for the user was sent to the inbound since the core started. -/
def Node.Sent (n : Node) (tag username : String) : Prop :=
  ∃ rpc ∈ n.rpcs, rpc.kind = .add ∧ rpc.tag = tag ∧ rpc.username = username

/- Nothing but users of `tags` leaves the core, no add is sent and a recorded
failure stays. -/
structure Removes (tags : List String) (s s' : Session) : Prop where
  core : ∀ t u, s'.node.core t u = s.node.core t u ∨ (t ∈ tags ∧ s'.node.core t u = none)
  sent : ∀ t u, s'.node.Sent t u ↔ s.node.Sent t u
  failed : s.results.failed = true → s'.results.failed = true

instance (tags : List String) : IsPreorder Session (Removes tags) where
  refl _ := ⟨fun _ _ => Or.inl rfl, fun _ _ => Iff.rfl, id⟩
  trans a b c hab hbc := by
    refine ⟨fun t u => ?_, fun t u => (hbc.sent t u).trans (hab.sent t u),
      fun h => hbc.failed (hab.failed h)⟩
    rcases hbc.core t u with h | h
    · rw [h]
      exact hab.core t u
    · exact Or.inr h

variable {s s' b : Session} {tags cleared : List String} {tag username : String} {env : Env}
  {n n' : Node} {r : GenericResponse}

theorem Removes.of_node (hn : s'.node = s.node)
    (hf : s.results.failed = true → s'.results.failed = true) : Removes tags s s' :=
  ⟨fun _ _ => Or.inl (by rw [hn]), fun _ _ => by rw [hn], hf⟩

theorem sent_log_remove (n : Node) (tag username t u : String) (ok : Bool) :
    (n.log ⟨.remove, tag, username, ok⟩).Sent t u ↔ n.Sent t u := by
  simp [Node.Sent, Node.log]

theorem removes_setUser {ok : Bool} (htag : tag ∈ tags)
    (hcore : s'.node.core =
      ((s.node.log ⟨.remove, tag, username, ok⟩).setUser tag username none).core)
    (hrpcs : s'.node.rpcs = (s.node.log ⟨.remove, tag, username, ok⟩).rpcs)
    (hf : s.results.failed = true → s'.results.failed = true) : Removes tags s s' := by
  refine ⟨fun t u => ?_, fun t u => ?_, hf⟩
  · rw [hcore]
    by_cases hh : t = tag ∧ u = username
    · obtain ⟨rfl, rfl⟩ := hh
      exact Or.inr ⟨htag, setUser_self ..⟩
    · exact Or.inl (setUser_other _ none (not_and_or.mp hh))
  · have hsent := sent_log_remove s.node tag username t u ok
    simpa only [Node.Sent, hrpcs] using hsent

theorem handlerRemoveUser_removes (env : Env) (htag : tag ∈ tags) (username hashUUID : String)
    (s : Session) :
    Removes tags s (handlerRemoveUser env tag username hashUUID s) ∧
      ∃ r : HandlerResult,
        (handlerRemoveUser env tag username hashUUID s).results = s.results.add r ∧
        (handlerRemoveUser env tag username hashUUID s).removeOK = (s.removeOK && r.ok) ∧
        (r.ok = true →
          (handlerRemoveUser env tag username hashUUID s).node.core tag username = none) := by
  obtain ⟨n', r, hview, heq⟩ :=
    handlerCall_view env s .remove tag username none (.removed tag hashUUID)
  unfold handlerRemoveUser
  rw [heq]
  have hmono : s.results.failed = true →
      ({ s with node := n', clock := s.clock + 1 }.addResult r).results.failed = true := by
    intro h
    simp [h]
  suffices hnode : Removes tags s ({ s with node := n', clock := s.clock + 1 }.addResult r) ∧
      (r.ok = true → n'.core tag username = none) from
    ⟨hnode.1, r, rfl, rfl, hnode.2⟩
  generalize r.ok = ok at hview
  cases hview with
  | undialed => exact ⟨.of_node rfl hmono, Bool.noConfusion⟩
  | failed _ _ =>
    refine ⟨⟨fun _ _ => Or.inl rfl, fun t u => ?_, hmono⟩, Bool.noConfusion⟩
    exact sent_log_remove s.node tag username t u false
  | ambiguous _ _ | refused _ => exact ⟨removes_setUser htag rfl rfl hmono, Bool.noConfusion⟩
  | done _ => exact ⟨removes_setUser htag rfl rfl hmono, fun _ => setUser_self ..⟩

/- What a finished removal of `username` from `tags` is worth. -/
def Cleared (tags : List String) (username : String) (s : Session) : Prop :=
  s.results.failed = true ∨ ∀ t ∈ tags, s.node.core t username = none

theorem Cleared.mono {tags' : List String} (h : Cleared tags username s) (hr : Removes tags' s s') :
    Cleared tags username s' := by
  rcases h with h | h
  · exact Or.inl (hr.failed h)
  · refine Or.inr fun t ht => ?_
    rcases hr.core t username with hc | hc
    · rw [hc, h t ht]
    · exact hc.2

theorem removes_addResult (s : Session) (r : HandlerResult) :
    Removes tags s (s.addResult r) := by
  refine .of_node rfl fun h => ?_
  simp [h]

/- A part of a request that removes `username` from `cleared`: if it leaves the
request something has failed. -/
structure Clears (tags cleared : List String) (username : String) (s : Session)
    (f : Pass Session) : Prop where
  removes : Removes tags s f.state
  stopped : ∀ b, f = .stop b → b.results.failed = true
  cleared : ∀ b, f = .next b → Cleared cleared username b

theorem Clears.state {f : Pass Session} (h : Clears tags cleared username s f) :
    Cleared cleared username f.state := by
  cases f with
  | stop b => exact Or.inl (h.stopped b rfl)
  | next b => exact h.cleared b rfl

theorem Clears.removes_next {f : Pass Session} (h : Clears tags cleared username s f)
    (hb : f = .next b) :
    Removes tags s b := by
  have hr := h.removes
  rwa [hb] at hr

theorem clears_next (hr : Removes tags s b) (hc : Cleared cleared username b) :
    Clears tags cleared username s (.next b) := by
  refine ⟨hr, fun b' hb => (nomatch hb), fun b' hb => ?_⟩
  cases hb
  exact hc

theorem clears_unlessStopped {k : Session → Pass Session}
    (h : Clears tags cleared username s (k s)) :
    Clears tags cleared username s (unlessStopped env s k) := by
  rcases unlessStopped_cases env s k with ⟨r, hr, heq⟩ | heq
  · rw [heq]
    refine ⟨removes_addResult s r, fun b hb => ?_, fun b hb => (nomatch hb)⟩
    cases hb
    simp [hr]
  · rw [heq]
    exact h

theorem removeTag_clears (env : Env) (htag : tag ∈ tags) (username hashUUID : String)
    (s : Session) :
    Clears tags [tag] username s (removeTag env username hashUUID tag s) := by
  obtain ⟨hremoves, r, hresults, -, hgone⟩ :=
    handlerRemoveUser_removes env htag username hashUUID s
  apply clears_unlessStopped
  apply clears_next hremoves
  rw [Cleared, hresults, ResultAccumulator.failed_add]
  cases hok : r.ok with
  | false => simp
  | true => exact Or.inr (by simpa using hgone hok)

theorem cleared_of_singletons (h : ∀ t ∈ tags, Cleared [t] username s) :
    Cleared tags username s := by
  by_cases hf : s.results.failed = true
  · exact Or.inl hf
  · exact Or.inr fun t ht => (h t ht).resolve_left hf t List.mem_cons_self

theorem removeFromTags_clears (env : Env) (username hashUUID : String) (tags : List String)
    (s : Session) : Clears tags tags username s (removeFromTags env username hashUUID tags s) := by
  have hpass := fun tag (htag : tag ∈ tags) => removeTag_clears env htag username hashUUID
  refine ⟨?_, fun b hb => ?_, fun b hb => ?_⟩
  · have hstart : Removes tags s { s with removeOK := true } := .of_node rfl id
    have hloop := Pass.forEach_rel (Removes tags) tags (fun t ht a => (hpass t ht a).removes)
      { s with removeOK := true }
    exact IsTrans.trans s _ _ hstart hloop
  · exact Pass.forEach_stop (fun s => s.results.failed = true) tags hb
      fun t ht a => (hpass t ht a).stopped
  · apply cleared_of_singletons
    exact Pass.forEach_next (fun tag => Cleared [tag] username) tags hb
      (fun t ht a => (hpass t ht a).cleared)
      fun t ht a b hab y hy => hy.mono ((hpass t ht a).removes_next hab)

/- `removeOK` speaks of this loop alone, whatever failed before it. -/
theorem removeFromTags_ok (env : Env) {hashUUID : String}
    (h : removeFromTags env username hashUUID tags s = .next b) (hok : b.removeOK = true) :
    ∀ t ∈ tags, b.node.core t username = none := by
  have hpass : ∀ tag ∈ tags, ∀ a b, removeTag env username hashUUID tag a = .next b →
      Removes tags a b ∧ (b.removeOK = true → a.removeOK = true) ∧
        (b.removeOK = true → b.node.core tag username = none) := by
    intro tag htag a b hab
    rcases unlessStopped_cases env a
      (fun s => .next (handlerRemoveUser env tag username hashUUID s)) with ⟨r, -, heq⟩ | heq
    · rw [removeTag, heq] at hab
      cases hab
    · rw [removeTag, heq] at hab
      cases hab
      obtain ⟨hremoves, r, -, hremoveOK, hgone⟩ :=
        handlerRemoveUser_removes env htag username hashUUID a
      rw [hremoveOK, Bool.and_eq_true]
      exact ⟨hremoves, fun hb => hb.1, fun hb => hgone hb.2⟩
  have hall := Pass.forEach_next
    (fun tag s => s.removeOK = true → s.node.core tag username = none) tags h
    (fun tag htag a b hab => (hpass tag htag a b hab).2.2) ?_
  · exact fun t ht => hall t ht hok
  · intro tag htag a b hab y hy hb
    obtain ⟨hremoves, hbefore, -⟩ := hpass tag htag a b hab
    rcases hremoves.core y username with hc | hc
    · rw [hc]
      exact hy (hbefore hb)
    · exact hc.2

theorem removes_prepare (env : Env) (tags : List String) (s : Session) :
    Removes tags s (prepareUserIPDrop env s).1 := by
  obtain ⟨hn, hr⟩ := prepareUserIPDrop_node env s
  exact .of_node hn (by rw [hr]; exact id)

theorem removes_apply (env : Env) (tags : List String) (s : Session) (plans : List (List String)) :
    Removes tags s (applyUserIPDrops env s plans).1 := by
  obtain ⟨hn, hr⟩ := applyUserIPDrops_node env s plans
  exact .of_node hn (by rw [hr]; exact id)

theorem removes_lookup (env : Env) (tags : List String) (s : Session) :
    Removes tags s ((prepareUserIPDrop env s).1.addResult (prepareUserIPDrop env s).2.2) :=
  IsTrans.trans s _ _ (removes_prepare env tags s) (removes_addResult _ _)

theorem removes_drop (env : Env) (tags : List String) (s : Session) (plans : List (List String)) :
    Removes tags s ((applyUserIPDrops env s plans).1.addResult (applyUserIPDrops env s plans).2) :=
  IsTrans.trans s _ _ (removes_apply env tags s plans) (removes_addResult _ _)

theorem cleared_of_failed (s : Session) {r : HandlerResult} (h : (!r.ok) = true) :
    Cleared tags username (s.addResult r) := by
  left
  rw [addResult_failed, h, Bool.or_true]

theorem removeUser_removes (env : Env) (request : RemoveUserRequest) (s : Session) :
    Removes env.tagOrder s (removeUser env request s) ∧
      Cleared env.tagOrder request.username (removeUser env request s) := by
  unfold removeUser
  split
  case isTrue hempty =>
    refine ⟨refl s, Or.inr fun t ht => ?_⟩
    rw [List.isEmpty_iff.mp hempty] at ht
    cases ht
  case isFalse =>
    have hlookup := removes_lookup env env.tagOrder s
    generalize prepareUserIPDrop env s = p at hlookup
    obtain ⟨s₁, plan, lookup⟩ := p
    dsimp only at hlookup ⊢
    split
    case isTrue hfailed => exact ⟨hlookup, cleared_of_failed s₁ hfailed⟩
    case isFalse =>
      have hloop := removeFromTags_clears env request.username request.vlessUUID env.tagOrder
        (s₁.addResult lookup)
      have hcleared := hloop.state
      have hremoves := IsTrans.trans s _ _ hlookup hloop.removes
      cases hres : removeFromTags env request.username request.vlessUUID env.tagOrder
          (s₁.addResult lookup) with
      | stop s₂ =>
        rw [hres] at hremoves hcleared
        exact ⟨hremoves, hcleared⟩
      | next s₂ =>
        rw [hres] at hremoves hcleared
        dsimp only
        split
        · exact ⟨hremoves, hcleared⟩
        · have hdrop := removes_drop env env.tagOrder s₂ [plan]
          exact ⟨IsTrans.trans s _ _ hremoves hdrop, hcleared.mono hdrop⟩

theorem removeUsersEntry_clears (env : Env) (user : RemoveUsersItem) (s : Session) :
    Clears env.tagOrder env.tagOrder user.userID s (removeUsersEntry env user s) := by
  apply clears_unlessStopped
  have hlookup := removes_lookup env env.tagOrder s
  generalize prepareUserIPDrop env s = p at hlookup
  obtain ⟨s₁, plan, lookup⟩ := p
  dsimp only at hlookup ⊢
  split
  case isTrue hfailed => exact clears_next hlookup (cleared_of_failed s₁ hfailed)
  case isFalse =>
    have hloop := removeFromTags_clears env user.userID user.hashUUID env.tagOrder
      (s₁.addResult lookup)
    have hremoves := IsTrans.trans s _ _ hlookup hloop.removes
    cases hres : removeFromTags env user.userID user.hashUUID env.tagOrder
        (s₁.addResult lookup) with
    | stop s₂ =>
      rw [hres] at hremoves
      exact ⟨hremoves, fun b hb => hloop.stopped b (hres.trans hb), fun b hb => (nomatch hb)⟩
    | next s₂ =>
      rw [hres] at hremoves
      have hcleared := hloop.cleared s₂ hres
      simp only [Pass.bind]
      split
      · exact clears_next hremoves hcleared
      · exact clears_next ⟨hremoves.core, hremoves.sent, hremoves.failed⟩ hcleared

theorem removeUsers_removes (env : Env) (request : RemoveUsersRequest) (s : Session) :
    Removes env.tagOrder s (removeUsers env request s) ∧
      ∀ user ∈ request.users,
        Cleared env.tagOrder user.userID (removeUsers env request s) := by
  unfold removeUsers
  split
  case isTrue hempty =>
    refine ⟨refl s, fun user _ => Or.inr fun t ht => ?_⟩
    rw [List.isEmpty_iff.mp hempty] at ht
    cases ht
  case isFalse =>
    have hentry := removeUsersEntry_clears env
    have hremoves := Pass.forEach_rel (Removes env.tagOrder) request.users
      (fun user _ a => (hentry user a).removes) s
    cases hres : Pass.forEach (removeUsersEntry env) request.users s with
    | stop s₁ =>
      rw [hres] at hremoves
      have hfailed := Pass.forEach_stop (fun s => s.results.failed = true) request.users hres
        fun user _ a => (hentry user a).stopped
      exact ⟨hremoves, fun user _ => Or.inl hfailed⟩
    | next s₁ =>
      rw [hres] at hremoves
      have hall := Pass.forEach_next
        (fun (user : RemoveUsersItem) s => Cleared env.tagOrder user.userID s) request.users hres
        (fun user _ a => (hentry user a).cleared)
        fun user _ a b hab y hy => hy.mono ((hentry user a).removes_next hab)
      have hdrop := removes_drop env env.tagOrder s₁ s₁.dropPlans
      exact ⟨IsTrans.trans s _ _ hremoves hdrop, fun user huser => (hall user huser).mono hdrop⟩

/-! ### Successful requests -/

theorem withLease_success {body : Session → Session} (h : withLease env n body = (n', .response r))
    (hs : r.success = true) :
    n' = (body (.begin n)).node ∧ (body (.begin n)).results.failed = false := by
  unfold withLease at h
  split at h
  · cases h
  · cases hl : env.leaseErr with
    | some err =>
      simp only [hl] at h
      cases h
      simp [mutationLeaseFailure] at hs
    | none =>
      simp only [hl] at h
      cases h
      rw [ResultAccumulator.response_success] at hs
      exact ⟨rfl, by simpa using hs⟩

def Request.removed : Request → List String
  | .removeUser request => [request.username]
  | .removeUsers request => request.users.map RemoveUsersItem.userID
  | _ => []

theorem handle_removed {request : Request} (h : handle env n request = (n', .response r))
    (hs : r.success = true) {u : String} (hu : u ∈ request.removed) :
    (∀ t v, n'.core t v = n.core t v ∨ (t ∈ env.tagOrder ∧ n'.core t v = none)) ∧
      (∀ t v, n'.Sent t v ↔ n.Sent t v) ∧ ∀ t ∈ env.tagOrder, n'.core t u = none := by
  cases request with
  | addUser request => simp [Request.removed] at hu
  | addUsers request => simp [Request.removed] at hu
  | removeUser request =>
    obtain ⟨rfl, hf⟩ := withLease_success h hs
    obtain ⟨hr, hc⟩ := removeUser_removes env request (.begin n)
    obtain rfl : u = request.username := by simpa [Request.removed] using hu
    exact ⟨hr.core, hr.sent, hc.resolve_left (by simp [hf])⟩
  | removeUsers request =>
    obtain ⟨user, huser, rfl⟩ := List.mem_map.mp hu
    simp only [handle] at h
    split at h
    case isTrue hempty =>
      rw [List.isEmpty_iff.mp hempty] at huser
      cases huser
    case isFalse =>
      obtain ⟨rfl, hf⟩ := withLease_success h hs
      obtain ⟨hr, hc⟩ := removeUsers_removes env request (.begin n)
      exact ⟨hr.core, hr.sent, (hc user huser).resolve_left (by simp [hf])⟩

theorem serve_removed {c : Call} (h : serve n c = some (n', .response r)) (hs : r.success = true)
    {u : String} (hu : u ∈ c.request.removed) :
    (∀ t, n'.core t u = n.core t u ∨ n'.core t u = none) ∧
      (∀ t ∉ n.hashState.inboundTags, n'.core t u = n.core t u) ∧
      (∀ t, n'.Sent t u ↔ n.Sent t u) ∧ ∀ t ∈ n.hashState.inboundTags, n'.core t u = none := by
  unfold serve at h
  split at h
  case isFalse => cases h
  case isTrue horder =>
    obtain ⟨hcore, hsent, hclear⟩ := handle_removed (Option.some.inj h) hs hu
    rw [← horder.2]
    simp only [List.mem_toFinset]
    refine ⟨fun t => (hcore t u).imp_right And.right, fun t ht => ?_, fun t => hsent t u, hclear⟩
    exact (hcore t u).resolve_right fun hc => ht hc.1

/- Wherever the core has the user by an add of this node, the tag is in
`inboundTags`. -/
def Node.Tracked (n : Node) (username : String) : Prop :=
  ∀ tag, n.Sent tag username → n.core tag username ≠ none → tag ∈ n.hashState.inboundTags

/-- A successful RemoveUser or RemoveUsers has removed a user from every inbound
an add was sent to exactly if those that held the user were tracked when the
request began. -/
theorem removal_complete_iff_tracked (n n' : Node) (c : Call) (r : GenericResponse)
    (h : serve n c = some (n', .response r)) (hs : r.success = true) (u : String)
    (hu : u ∈ c.request.removed) :
    (∀ tag, n'.Sent tag u → n'.core tag u = none) ↔ n.Tracked u := by
  obtain ⟨hcore, hother, hsent, hclear⟩ := serve_removed h hs hu
  constructor
  · intro hgone tag htag hheld
    by_contra hmissing
    exact hheld (hother tag hmissing ▸ hgone tag ((hsent tag).mpr htag))
  · intro htracked tag htag
    by_contra hheld
    have hsame := (hcore tag).resolve_right hheld
    exact hheld (hclear tag (htracked tag ((hsent tag).mp htag) (hsame ▸ hheld)))

/-! ### A removal that leaves the user behind -/

def answered : Answer := ⟨true, true, false, "", []⟩

def Env.calm (tags : List String) : Env := ⟨true, none, false, none, fun _ => answered, tags⟩

def clientJson (email id : String) : Value := .obj [("email", .str email), ("id", .str id)]

def inboundJson (tag : String) (clients : List Value) : Value :=
  .obj [("tag", .str tag), ("settings", .obj [("clients", .arr clients)])]

/- A core that starts with one inbound and one user. -/
def bobNode : Node :=
  .start ⟨"e", [⟨"x", "in-a"⟩]⟩ [("inbounds", .arr [inboundJson "in-a" [clientJson "bob" "h-b"]])]

/- The add itself, the third call, times out after the core has carried it out. -/
def addAliceLost : Call where
  request := .addUser ⟨[⟨"vless", "in-b", "alice"⟩], ⟨"h-a", none⟩⟩
  env := { Env.calm ["in-a"] with
    answer := fun k =>
      if k = 2 then ⟨true, false, true, "context deadline exceeded", []⟩ else answered }

def removeAlice (tags : List String) : Call := ⟨.removeUser ⟨"alice", "h-a"⟩, .calm tags⟩

theorem addAliceLost_runs : (step bobNode addAliceLost).isSome = true := by
  decide

theorem serve_of_reply {c : Call} {reply : Reply}
    (horder : c.env.tagOrder.Nodup ∧ c.env.tagOrder.toFinset = n.hashState.inboundTags)
    (h : (handle c.env n c.request).2 = reply) :
    serve n c = some ((handle c.env n c.request).1, reply) := by
  rw [serve, if_pos horder, ← h]

/-- RemoveUser reports success although the core still has the user in an
inbound this node sent the add to. -/
theorem removal_misses_untracked_inbound :
    ∃ n n' : Node, Transition.Reach step bobNode n ∧
      serve n (removeAlice ["in-a"]) = some (n', .response ⟨true, none⟩) ∧
        n'.Sent "in-b" "alice" ∧ n'.core "in-b" "alice" = some "h-a" := by
  let n := (step bobNode addAliceLost).get addAliceLost_runs
  have hn : Transition.Reach step bobNode n :=
    Transition.Steps.refl.tail addAliceLost trivial (Option.some_get _).symm
  have hsent : ⟨.add, "in-b", "alice", false⟩ ∈
      (handle (.calm ["in-a"]) n (.removeUser ⟨"alice", "h-a"⟩)).1.rpcs := by decide
  exact ⟨n, _, hn, serve_of_reply (by decide) (by decide), ⟨_, hsent, rfl, rfl, rfl⟩, by decide⟩

def addAlice : Call :=
  ⟨.addUser ⟨[⟨"vless", "in-b", "alice"⟩], ⟨"h-a", none⟩⟩, .calm ["in-a"]⟩

theorem addAlice_runs : (step bobNode addAlice).isSome = true := by
  decide

/-- The theorem where the add was answered, so its inbound is tracked. -/
theorem removal_complete_iff_tracked_answered :
    ∃ n n' : Node, n'.Sent "in-b" "alice" ∧
      ((∀ tag, n'.Sent tag "alice" → n'.core tag "alice" = none) ↔ n.Tracked "alice") := by
  let n := (step bobNode addAlice).get addAlice_runs
  have hsent : ⟨.add, "in-b", "alice", true⟩ ∈
      (handle (.calm ["in-b", "in-a"]) n (.removeUser ⟨"alice", "h-a"⟩)).1.rpcs := by decide
  have hserve := serve_of_reply (n := n) (c := removeAlice ["in-b", "in-a"]) (by decide)
    (by decide : _ = Reply.response ⟨true, none⟩)
  exact ⟨n, _, ⟨_, hsent, rfl, rfl, rfl⟩,
    removal_complete_iff_tracked n _ _ _ hserve rfl "alice" (by decide)⟩

end RemnanodeLite.Nodehandler
