import RemnanodeLite.Nodehandler.Settled

/-! # The recorded hash state mirrors the core -/

namespace RemnanodeLite.Nodehandler
open Xray Json

/-! ### Runs -/

section Runs
variable {owner : String → String} {env : Env} {n : Node}

theorem Removes.carries {tags : List String} {s b : Session} (hr : Removes tags s b)
    {user id : String} (h : s.node.Carries user id) : b.node.Carries user id := by
  intro tag held hheld
  rcases hr.core tag user with hc | hc
  · exact h tag held (hc ▸ hheld)
  · rw [hc.2] at hheld
    cases hheld

theorem removeUsers_good {known : Set String} {request : RemoveUsersRequest} {s : Session}
    (henv : env.Honest) (htags : "" ∉ env.tagOrder) (hg : Good owner known s.node)
    (husers : ∀ user ∈ request.users,
      Named owner user.userID user.hashUUID ∧ s.node.Carries user.userID user.hashUUID) :
    Good owner known (removeUsers env request s).node := by
  unfold removeUsers
  split
  case isTrue => exact hg
  case isFalse =>
    have hloop := Pass.forEach_keeps
      (fun s : Session => Good owner known s.node ∧
        ∀ user ∈ request.users, s.node.Carries user.userID user.hashUUID)
      request.users ⟨hg, fun user huser => (husers user huser).2⟩ fun user huser a ha => by
        have hn := (husers user huser).1
        have hr := (removeUsersEntry_clears env user a).removes
        exact ⟨removeUsersEntry_good henv htags hn ⟨ha.1, ha.2 user huser⟩,
          fun other hother => hr.carries (ha.2 other hother)⟩
    split
    case h_1 s₁ hres =>
      rw [hres] at hloop
      exact hloop.1
    case h_2 s₁ hres =>
      rw [hres] at hloop
      have hdrop : (applyUserIPDrops env s₁ s₁.dropPlans).1.node = s₁.node :=
        (applyUserIPDrops_node env s₁ s₁.dropPlans).1
      rw [addResult_node, hdrop]
      exact hloop.1

def AddUsersRequest.tags (request : AddUsersRequest) (env : Env) : List String :=
  batchMutationTags env.tagOrder request.affectedInboundTags request.users

theorem addUsers_good {request : AddUsersRequest} {s : Session} (henv : env.Honest)
    (horder : env.Lists s.node) (hg : Good owner nonEmptyTags s.node)
    (husers : ∀ user ∈ request.users, Named owner user.userData.userID user.userData.hashUUID ∧
      Named owner user.userData.userID user.userData.vlessUUID ∧
      ∀ inbound ∈ user.inboundData, inbound.tag ≠ "")
    (hcarries : ∀ p ∈ Pass.visits (addUsersEntry env (request.tags env)) request.users s,
      p.2.node.Carries p.1.userData.userID p.1.userData.hashUUID) :
    Good owner nonEmptyTags (addUsers env request s).node := by
  have hnonempty : "" ∉ request.tags env := fun h => ((mem_distinctTags _ _).mp h).1 rfl
  have hstart : Good owner {t | t ∈ request.tags env} s.node := by
    refine hg.mono fun t ht => (mem_distinctTags _ _).mpr ⟨hg.tagged t ht, ?_⟩
    exact List.mem_append_left _ (List.mem_append_left _ ((horder t).mpr ht))
  have hloop : Good owner {t | t ∈ request.tags env} (addUsers env request s).node := by
    refine Pass.forEach_invariant (fun s : Session => Good owner {t | t ∈ request.tags env} s.node)
      request.users hstart fun p hp hgood => ?_
    have huser : p.1 ∈ request.users := Pass.mem_of_visits hp
    obtain ⟨hold, hnew, hinbounds⟩ := husers p.1 huser
    refine addUsersEntry_good henv hnonempty hold hnew (fun inbound hinbound => ?_)
      ⟨hgood, hcarries p hp⟩
    refine (mem_distinctTags _ _).mpr ⟨hinbounds inbound hinbound, List.mem_append_right _ ?_⟩
    exact List.mem_flatMap.mpr ⟨p.1, huser, List.mem_map_of_mem hinbound⟩
  exact hloop.mono fun t ht h => hnonempty (h ▸ hloop.tagged t ht)

/- What is assumed of a request in the state it meets: no tag is empty, the hash
ids it names are those of its users, and each user comes with the hash id the
core has it under when its turn comes. -/
def Request.Proper (owner : String → String) (env : Env) (n : Node) : Request → Prop
  | .addUser request => ∀ first ∈ request.data.head?,
      (∀ item ∈ request.data,
        Named owner item.username request.hashData.vlessUUID ∧ item.tag ≠ "") ∧
      Named owner first.username
        (request.hashData.prevVlessUUID.getD request.hashData.vlessUUID) ∧
      n.Carries first.username (request.hashData.prevVlessUUID.getD request.hashData.vlessUUID)
  | .removeUser request =>
      Named owner request.username request.vlessUUID ∧ n.Carries request.username request.vlessUUID
  | .addUsers request =>
      (∀ user ∈ request.users, Named owner user.userData.userID user.userData.hashUUID ∧
        Named owner user.userData.userID user.userData.vlessUUID ∧
        ∀ inbound ∈ user.inboundData, inbound.tag ≠ "") ∧
      ∀ p ∈ Pass.visits (addUsersEntry env (request.tags env)) request.users (.begin n),
        p.2.node.Carries p.1.userData.userID p.1.userData.hashUUID
  | .removeUsers request => ∀ user ∈ request.users,
      Named owner user.userID user.hashUUID ∧ n.Carries user.userID user.hashUUID

def Call.Proper (owner : String → String) (n : Node) (c : Call) : Prop :=
  c.env.Honest ∧ c.request.Proper owner c.env n

theorem withLease_good {known : Set String} {body : Session → Session} (hg : Good owner known n)
    (hbody : Good owner known (body (.begin n)).node) :
    Good owner known (withLease env n body).1 := by
  unfold withLease
  split
  · exact hg
  · split
    · exact hg
    · exact hbody

theorem handle_good {request : Request} (henv : env.Honest) (horder : env.Lists n)
    (hg : Good owner nonEmptyTags n) (hproper : request.Proper owner env n) :
    Good owner nonEmptyTags (handle env n request).1 := by
  cases request with
  | addUser request =>
    cases hdata : request.data with
    | nil =>
      simp only [handle, hdata]
      exact hg
    | cons first rest =>
      obtain ⟨hitems, hold, hcarries⟩ := hproper first (by simp [hdata])
      have hfirst := (hitems first (by simp [hdata])).1
      simp only [handle, hdata]
      refine withLease_good hg (addUser_good henv horder hg (fun item hitem => ?_) hfirst hold
        hcarries)
      obtain ⟨hitem, htag⟩ := hitems item hitem
      exact ⟨hitem.owner.symm.trans hfirst.owner, htag⟩
  | removeUser request =>
    obtain ⟨hn, hcarries⟩ := hproper
    exact withLease_good hg (removeUser_good henv (horder.nonempty hg) hn ⟨hg, hcarries⟩)
  | addUsers request =>
    simp only [handle]
    split
    · exact hg
    · exact withLease_good hg (addUsers_good henv horder hg hproper.1 hproper.2)
  | removeUsers request =>
    simp only [handle]
    split
    · exact hg
    · exact withLease_good hg (removeUsers_good henv (horder.nonempty hg) hg hproper)

theorem step_good {n' : Node} {c : Call} (hg : Good owner nonEmptyTags n)
    (hproper : c.Proper owner n) (h : step n c = some n') : Good owner nonEmptyTags n' := by
  unfold step serve at h
  split at h
  case isFalse => simp at h
  case isTrue horder =>
    simp only [Option.map_some, Option.some.injEq] at h
    rw [← h]
    refine handle_good hproper.1 (fun t => ?_) hg hproper.2
    rw [← horder.2, List.mem_toFinset]

end Runs

/-! ### The start of a core -/

section Start
variable {owner : String → String}

/- Every inbound of the start config is named and listed in the request hashes,
and each of its users appears with one hash id, which is that user's own. -/
def ProperStart (owner : String → String) (hashes : ConfigHash) (config : List (String × Value)) :
    Prop :=
  ∀ rawInbounds, (Value.field config "inbounds").asArray = some rawInbounds →
    ∀ item ∈ rawInbounds, ∀ inbound, item.asObject = some inbound →
      (Value.field inbound "tag").asString.getD "" ≠ "" ∧
      (Value.field inbound "tag").asString.getD "" ∈ hashes.inbounds.map InboundHash.tag ∧
      ∀ client ∈ coreClients inbound, Named owner client.1 client.2 ∧
        ∀ other ∈ coreClients inbound, other.1 = client.1 → other = client

theorem extractClientIDs_eq (inbound : List (String × Value)) :
    extractClientIDs inbound = ((coreClients inbound).map Prod.snd).filter (· ≠ "") := by
  unfold extractClientIDs coreClients
  cases (Value.field inbound "settings").asObject with
  | none => rfl
  | some settings =>
    dsimp only
    cases (Value.field settings "clients").asArray with
    | none => rfl
    | some clients =>
      dsimp only
      induction clients with
      | nil => rfl
      | cons item clients ih =>
        cases hobj : item.asObject with
        | none => simpa [List.filterMap_cons, hobj] using ih
        | some client =>
          by_cases hid : (Value.field client "id").asString.getD "" = ""
          · simpa [List.filterMap_cons, hobj, hid] using ih
          · simpa [List.filterMap_cons, hobj, hid] using ih

theorem lookup_clients {clients : List (String × String)} {user id : String}
    (hone : ∀ client ∈ clients, ∀ other ∈ clients, other.1 = client.1 → other = client) :
    clients.lookup user = some id ↔ (user, id) ∈ clients := by
  induction clients with
  | nil => simp
  | cons client clients ih =>
    have hrest := ih fun c hc o ho => hone c (List.mem_cons_of_mem _ hc) o (List.mem_cons_of_mem _ ho)
    rw [List.lookup_cons, List.mem_cons]
    by_cases h : user = client.1
    · subst h
      simp only [beq_self_eq_true, Option.some.injEq]
      constructor
      · rintro rfl
        exact Or.inl rfl
      · rintro (heq | hmem)
        · exact (congrArg Prod.snd heq).symm
        · have heq := hone client List.mem_cons_self (client.1, id) (List.mem_cons_of_mem _ hmem) rfl
          exact (congrArg Prod.snd heq).symm
    · rw [beq_eq_false_iff_ne.mpr h]
      refine hrest.trans ⟨Or.inr, ?_⟩
      rintro (heq | hmem)
      · exact absurd (congrArg Prod.fst heq) h
      · exact hmem

theorem members_recordInbound {validTags : List String} {r : RuntimeHashState} {item : Value}
    {inbound : List (String × Value)} (hitem : item.asObject = some inbound) {tag : String}
    (htag : (Value.field inbound "tag").asString.getD "" = tag) (hne : tag ≠ "")
    (hvalid : tag ∈ validTags) (t : String) :
    (recordInbound validTags r item).members t =
      if t = tag then (extractClientIDs inbound).toFinset else r.members t := by
  have hrec : recordInbound validTags r item =
      { r with
        inboundHashes := r.inboundHashes.insert tag
          (HashedSet.ofItems utf8Bytes (extractClientIDs inbound))
        inboundTags := insert tag r.inboundTags } := by
    simp [recordInbound, hitem, htag, hne, hvalid]
  rw [hrec]
  by_cases ht : t = tag
  · subst ht
    simp [RuntimeHashState.members]
  · simp [RuntimeHashState.members, AList.lookup_insert_ne ht, ht]

theorem good_loadInbound {validTags : List String} {core : String → String → Option String}
    {r : RuntimeHashState} {item : Value} (hg : Good owner nonEmptyTags ⟨core, r, []⟩)
    (hitem : ∀ inbound, item.asObject = some inbound →
      (Value.field inbound "tag").asString.getD "" ≠ "" ∧
      (Value.field inbound "tag").asString.getD "" ∈ validTags ∧
      ∀ client ∈ coreClients inbound, Named owner client.1 client.2 ∧
        ∀ other ∈ coreClients inbound, other.1 = client.1 → other = client) :
    Good owner nonEmptyTags ⟨loadInbound core item, recordInbound validTags r item, []⟩ := by
  cases hobj : item.asObject with
  | none =>
    simp only [loadInbound, recordInbound, hobj]
    exact hg
  | some inbound =>
    obtain ⟨hne, hvalid, hclients⟩ := hitem inbound hobj
    generalize htag : (Value.field inbound "tag").asString.getD "" = tag at hne hvalid
    have hlook : ∀ user id, (coreClients inbound).lookup user = some id ↔
        (user, id) ∈ coreClients inbound := fun user id =>
      lookup_clients fun client hclient => (hclients client hclient).2
    have hload : loadInbound core item =
        Function.update core tag fun user => (coreClients inbound).lookup user := by
      simp [loadInbound, hobj, htag]
    have hrec : (recordInbound validTags r item).inboundTags = insert tag r.inboundTags := by
      simp [recordInbound, hobj, htag, hne, hvalid]
    refine ⟨⟨fun t id => ?_, fun t => ?_⟩, fun t user id h => ?_, fun t ht => ?_⟩
    · dsimp only
      rw [members_recordInbound hobj htag hne hvalid, hload]
      by_cases ht : t = tag
      · subst ht
        simp only [if_true, Function.update_self, List.mem_toFinset, extractClientIDs_eq,
          List.mem_filter, List.mem_map, hlook, decide_eq_true_eq]
        constructor
        · rintro ⟨⟨client, hclient, rfl⟩, -⟩
          exact ⟨client.1, hclient⟩
        · rintro ⟨user, hmem⟩
          exact ⟨⟨_, hmem, rfl⟩, (hclients _ hmem).1.nonempty⟩
      · simp only [if_neg ht, Function.update_of_ne ht]
        exact hg.mirrors.members t id
    · have hkeys : t ∈ (recordInbound validTags r item).inboundHashes ↔
          t = tag ∨ t ∈ r.inboundHashes := by
        simp [recordInbound, hobj, htag, hne, hvalid]
      dsimp only
      rw [hrec, hkeys, Finset.mem_insert]
      exact or_congr_right (hg.mirrors.tags t)
    · dsimp only at h
      rw [hload] at h
      by_cases ht : t = tag
      · subst ht
        rw [Function.update_self, hlook] at h
        exact (hclients _ h).1.owner
      · rw [Function.update_of_ne ht] at h
        exact hg.owned t user id h
    · dsimp only at ht
      rw [hrec] at ht
      rcases Finset.mem_insert.mp ht with rfl | ht
      · exact hne
      · exact hg.tagged t ht

theorem start_good {hashes : ConfigHash} {config : List (String × Value)}
    (hstart : ProperStart owner hashes config) :
    Good owner nonEmptyTags (.start hashes config) := by
  have hempty : Good owner nonEmptyTags ⟨fun _ _ => none, ⟨hashes.emptyConfig, ∅, ∅⟩, []⟩ := by
    refine ⟨⟨fun tag id => ?_, fun tag => ?_⟩, fun tag user id h => (nomatch h),
      fun tag h => ?_⟩
    · simp [RuntimeHashState.members]
    · simp
    · simp at h
  unfold Node.start startCore buildRuntimeHashState
  cases hraw : (Value.field config "inbounds").asArray with
  | none => exact hempty
  | some rawInbounds =>
    have hitems := hstart rawInbounds hraw
    dsimp only
    generalize (fun _ _ => none : String → String → Option String) = core at hempty
    generalize (⟨hashes.emptyConfig, ∅, ∅⟩ : RuntimeHashState) = r at hempty
    clear hraw
    induction rawInbounds generalizing core r with
    | nil => exact hempty
    | cons item rest ih =>
      refine ih (fun other hother => hitems other (List.mem_cons_of_mem _ hother)) _ _ ?_
      refine good_loadInbound hempty fun inbound hobj => ?_
      obtain ⟨hne, hlisted, hclients⟩ := hitems item List.mem_cons_self inbound hobj
      exact ⟨hne, List.mem_filter.mpr ⟨hlisted, by simpa using hne⟩, hclients⟩

end Start

theorem steps_good {owner : String → String} {hashes : ConfigHash} {config : List (String × Value)}
    {n : Node} (hstart : ProperStart owner hashes config)
    (h : Transition.Steps step (fun n c => c.Proper owner n) (.start hashes config) n) :
    Good owner nonEmptyTags n :=
  h.invariant (Good owner nonEmptyTags) (start_good hstart)
    fun _ _ _ ha hproper hstep => step_good ha hproper hstep

/-- From a proper start and by proper requests, whatever fails or is cancelled,
the recorded hash state mirrors the core. -/
theorem hash_state_mirrors_core (owner : String → String) (hashes : ConfigHash)
    (config : List (String × Value)) (hstart : ProperStart owner hashes config) (n : Node)
    (h : Transition.Steps step (fun n c => c.Proper owner n) (.start hashes config) n) :
    Mirrors n.core n.hashState := by
  have hgood := steps_good hstart h
  exact hgood.mirrors

theorem Mirrors.tracked {core : String → String → Option String} {r : RuntimeHashState}
    (hm : Mirrors core r) {tag user : String} (h : core tag user ≠ none) : tag ∈ r.inboundTags := by
  obtain ⟨id, hid⟩ := Option.ne_none_iff_exists'.mp h
  have hmem := (hm.members tag id).mpr ⟨user, hid⟩
  rw [hm.tags tag, ← AList.lookup_isSome]
  cases hlook : r.inboundHashes.lookup tag with
  | none => simp [RuntimeHashState.members, hlook] at hmem
  | some set => rfl

/-- After proper requests, in which no call that reports an error has had an effect, a successful
RemoveUser or RemoveUsers leaves its users in no inbound of the core. -/
theorem removed_from_core {owner : String → String} {hashes : ConfigHash}
    {config : List (String × Value)} (hstart : ProperStart owner hashes config) {n n' : Node}
    (h : Transition.Steps step (fun n c => c.Proper owner n) (.start hashes config) n) {c : Call}
    {r : GenericResponse} (hserve : serve n c = some (n', .response r)) (hs : r.success = true)
    {u : String} (hu : u ∈ c.request.removed) (tag : String) : n'.core tag u = none := by
  obtain ⟨hcore, -, -, hclear⟩ := serve_removed hserve hs hu
  by_contra hheld
  have hsame := (hcore tag).resolve_right hheld
  exact hheld (hclear tag ((steps_good hstart h).mirrors.tracked (hsame ▸ hheld)))

/-! ### Where it starts and what it needs -/

theorem calm_honest (tags : List String) : (Env.calm tags).Honest := by
  intro k h
  cases h

theorem bobNode_core : bobNode.core =
    Function.update (fun _ _ => none) "in-a" fun user => [("bob", "h-b")].lookup user := rfl

theorem bobNode_carries : bobNode.Carries "alice" "h-a" := by
  intro tag held h
  rw [bobNode_core] at h
  by_cases htag : tag = "in-a"
  · subst htag
    simp [List.lookup_cons] at h
  · simp [Function.update_of_ne htag] at h

def bobOrAlice (id : String) : String := if id = "h-b" then "bob" else "alice"

theorem bobNode_properStart :
    ProperStart bobOrAlice ⟨"e", [⟨"x", "in-a"⟩]⟩
      [("inbounds", .arr [inboundJson "in-a" [clientJson "bob" "h-b"]])] := by
  intro rawInbounds hraw item hitem inbound hobj
  obtain rfl : rawInbounds = [inboundJson "in-a" [clientJson "bob" "h-b"]] :=
    (Option.some.inj hraw).symm
  obtain rfl := List.mem_singleton.mp hitem
  have hinbound := (Option.some.inj hobj).symm
  have hclients : coreClients inbound = [("bob", "h-b")] := by rw [hinbound]; rfl
  have htag : (Value.field inbound "tag").asString.getD "" = "in-a" := by rw [hinbound]; rfl
  rw [hclients, htag]
  refine ⟨by decide, by decide, fun client hclient => ?_⟩
  obtain rfl := List.mem_singleton.mp hclient
  refine ⟨⟨by decide, by decide⟩, fun other hother _ => List.mem_singleton.mp hother⟩

/-- The theorem after one request: a user is added to an inbound of its own. -/
theorem hash_state_mirrors_core_added :
    ∃ n : Node, n.core "in-b" "alice" = some "h-a" ∧ Mirrors n.core n.hashState := by
  have hproper : addAlice.Proper bobOrAlice bobNode := by
    refine ⟨calm_honest _, fun first hfirst => ?_⟩
    obtain rfl := (Option.some.inj hfirst).symm
    have hnamed : Named bobOrAlice "alice" "h-a" := ⟨by decide, by decide⟩
    refine ⟨fun item hitem => ?_, hnamed, bobNode_carries⟩
    obtain rfl := List.mem_singleton.mp hitem
    exact ⟨hnamed, by decide⟩
  have hstep : step bobNode addAlice = some ((step bobNode addAlice).get addAlice_runs) :=
    (Option.some_get _).symm
  exact ⟨_, by decide, hash_state_mirrors_core bobOrAlice _ _ bobNode_properStart _
    (Transition.Steps.refl.tail addAlice hproper hstep)⟩

/- Two users of one inbound under one hash id. -/
def sharedNode : Node :=
  .start ⟨"e", [⟨"x", "in-a"⟩]⟩
    [("inbounds", .arr [inboundJson "in-a" [clientJson "bob" "h", clientJson "carol" "h"]])]

theorem sharedNode_core : sharedNode.core =
    Function.update (fun _ _ => none) "in-a"
      fun user => [("bob", "h"), ("carol", "h")].lookup user := rfl

theorem sharedNode_carries : sharedNode.Carries "bob" "h" := by
  intro tag held h
  rw [sharedNode_core] at h
  by_cases htag : tag = "in-a"
  · subst htag
    simpa [List.lookup_cons, eq_comm] using h
  · simp [Function.update_of_ne htag] at h

def removeBob : Call := ⟨.removeUser ⟨"bob", "h"⟩, .calm ["in-a"]⟩

def addUntagged : Call :=
  ⟨.addUser ⟨[⟨"vless", "", "alice"⟩], ⟨"h-a", none⟩⟩, .calm ["in-a"]⟩

theorem removeBob_runs : (step sharedNode removeBob).isSome = true := by
  decide

theorem addUntagged_runs : (step bobNode addUntagged).isSome = true := by
  decide

/-- The mirror breaks when two users share a hash id and one of them is
removed, and when a user is added to an inbound without a tag: every call
succeeds and the request carries the user's own hash id. -/
theorem mirror_needs_own_ids_and_tags :
    (sharedNode.Carries "bob" "h" ∧
      ∃ n, step sharedNode removeBob = some n ∧ ¬ Mirrors n.core n.hashState) ∧
    (bobNode.Carries "alice" "h-a" ∧
      ∃ n, step bobNode addUntagged = some n ∧ ¬ Mirrors n.core n.hashState) := by
  refine ⟨⟨sharedNode_carries, _, (Option.some_get removeBob_runs).symm, fun hm => ?_⟩,
    bobNode_carries, _, (Option.some_get addUntagged_runs).symm, fun hm => ?_⟩
  · have hmem := (hm.members "in-a" "h").mpr ⟨"carol", by decide⟩
    exact absurd hmem (by decide)
  · have hmem := (hm.members "" "h-a").mpr ⟨"alice", by decide⟩
    exact absurd hmem (by decide)

end RemnanodeLite.Nodehandler
