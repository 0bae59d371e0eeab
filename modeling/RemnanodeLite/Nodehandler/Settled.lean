import RemnanodeLite.Nodehandler.Removal

/-! # What a request keeps of the recorded hash state -/

namespace RemnanodeLite.Nodehandler
open Xray

/- For every tag the recorded members are the hash ids the core has there. -/
structure Mirrors (core : String → String → Option String) (r : RuntimeHashState) : Prop where
  members : ∀ tag id, id ∈ r.members tag ↔ ∃ user, core tag user = some id
  tags : r.TagsAreKeys

/- A hash id belongs to one user, its `owner`. -/
structure Named (owner : String → String) (user id : String) : Prop where
  owner : owner id = user
  nonempty : id ≠ ""

/- The tracked tags all lie in `known`. -/
structure Good (owner : String → String) (known : Set String) (n : Node) : Prop where
  mirrors : Mirrors n.core n.hashState
  owned : ∀ tag user id, n.core tag user = some id → owner id = user
  tagged : ∀ tag ∈ n.hashState.inboundTags, tag ∈ known

/- `id` is the hash id with which the core has the user, wherever it does. -/
def Node.Carries (n : Node) (user id : String) : Prop :=
  ∀ tag held, n.core tag user = some held → held = id

structure Settled (owner : String → String) (known : Set String) (user id : String) (n : Node) :
    Prop where
  good : Good owner known n
  carries : n.Carries user id

section Calls
variable {owner : String → String} {known : Set String} {n : Node} {user id tag : String}

theorem setUser_carries {n' : Node} {value : Option String} (h : n.Carries user id)
    (hcore : n'.core = (n.setUser tag user value).core) (hv : ∀ held ∈ value, held = id) :
    n'.Carries user id := by
  intro t held ht
  rw [hcore] at ht
  by_cases htag : t = tag
  · subst htag
    rw [setUser_self] at ht
    exact hv held ht
  · rw [setUser_other n value (Or.inl htag)] at ht
    exact h t held ht

theorem setUser_owned {value : Option String} (hg : Good owner known n)
    (hv : ∀ held ∈ value, owner held = user) (t u held : String)
    (h : (n.setUser tag user value).core t u = some held) : owner held = u := by
  by_cases hh : t = tag ∧ u = user
  · obtain ⟨rfl, rfl⟩ := hh
    rw [setUser_self] at h
    exact hv held h
  · rw [setUser_other n value (not_and_or.mp hh)] at h
    exact hg.owned t u held h

theorem setUser_ids (value : Option String) (held : String) :
    (∃ u, (n.setUser tag user value).core tag u = some held) ↔
      value = some held ∨ ∃ u, u ≠ user ∧ n.core tag u = some held := by
  constructor
  · rintro ⟨u, hu⟩
    by_cases h : u = user
    · subst h
      exact Or.inl (by rwa [setUser_self] at hu)
    · exact Or.inr ⟨u, h, by rwa [setUser_other n value (Or.inr h)] at hu⟩
  · rintro (h | ⟨u, hne, hu⟩)
    · exact ⟨user, by rw [setUser_self, h]⟩
    · exact ⟨u, by rw [setUser_other n value (Or.inr hne), hu]⟩

theorem others_iff (hs : Settled owner known user id n) (hn : Named owner user id) (held : String) :
    (∃ u, u ≠ user ∧ n.core tag u = some held) ↔
      held ≠ id ∧ held ∈ n.hashState.members tag := by
  rw [hs.good.mirrors.members]
  constructor
  · rintro ⟨u, hne, hu⟩
    refine ⟨fun heq => hne ?_, u, hu⟩
    rw [← hs.good.owned tag u held hu, heq, hn.owner]
  · rintro ⟨hne, u, hu⟩
    refine ⟨u, fun heq => hne ?_, hu⟩
    exact hs.carries tag held (heq ▸ hu)

theorem Settled.removed (hs : Settled owner known user id n) (hn : Named owner user id) :
    Settled owner known user id
      { n.setUser tag user none with hashState := recordUserRemoved n.hashState tag id } := by
  have hmembers := RuntimeHashState.members_recordUserRemoved n.hashState tag id
  refine ⟨⟨⟨fun t held => ?_, hs.good.mirrors.tags.removed tag id⟩, ?_, fun t h => ?_⟩, ?_⟩
  · rw [hmembers t]
    by_cases ht : t = tag
    · subst ht
      rw [if_pos rfl, Finset.mem_erase, ← others_iff hs hn]
      exact ((setUser_ids none held).trans (by simp)).symm
    · rw [if_neg ht, hs.good.mirrors.members]
      simp only [setUser_other n none (Or.inl ht)]
  · exact setUser_owned hs.good (by simp)
  · apply hs.good.tagged t
    unfold recordUserRemoved at h
    cases hlook : n.hashState.inboundHashes.lookup tag with
    | none => simpa [hlook] using h
    | some set =>
      simp only [hlook] at h
      split at h
      · exact Finset.mem_of_mem_erase h
      · exact h
  · exact setUser_carries hs.carries rfl (by simp)

theorem Settled.added (hs : Settled owner known user id n) (hn : Named owner user id) (htag : tag ∈ known) :
    Settled owner known user id
      { n.setUser tag user (some id) with hashState := recordUserAdded n.hashState tag id } := by
  have hmembers := RuntimeHashState.members_recordUserAdded n.hashState tag id
  refine ⟨⟨⟨fun t held => ?_, hs.good.mirrors.tags.added tag id⟩, ?_, fun t h => ?_⟩, ?_⟩
  · rw [hmembers t]
    by_cases ht : t = tag
    · subst ht
      rw [if_pos rfl, Finset.mem_insert]
      refine Iff.trans ?_ (setUser_ids (some id) held).symm
      rw [others_iff hs hn, Option.some.injEq]
      by_cases hid : held = id
      · simp [hid]
      · simp [hid, Ne.symm hid]
    · rw [if_neg ht, hs.good.mirrors.members]
      simp only [setUser_other n (some id) (Or.inl ht)]
  · refine setUser_owned hs.good fun held hheld => ?_
    rw [← Option.mem_some.mp hheld, hn.owner]
  · rcases Finset.mem_insert.mp h with rfl | h
    · exact htag
    · exact hs.good.tagged t h
  · exact setUser_carries hs.carries rfl fun held hheld => (Option.mem_some.mp hheld).symm

theorem Settled.log (hs : Settled owner known user id n) (rpc : Rpc) : Settled owner known user id (n.log rpc) :=
  ⟨⟨hs.good.mirrors, hs.good.owned, hs.good.tagged⟩, hs.carries⟩

end Calls

/- A call that reports an error had no effect. -/
def Env.Honest (env : Env) : Prop := ∀ k, (env.answer k).ok = false → (env.answer k).effect = false

section Loops
variable {owner : String → String} {known : Set String} {user id tag : String} {env : Env}
  {s : Session}

theorem handlerRemoveUser_settled (henv : env.Honest) (hn : Named owner user id) (htag : tag ≠ "")
    (hs : Settled owner known user id s.node) :
    Settled owner known user id (handlerRemoveUser env tag user id s).node := by
  obtain ⟨n', r, hview, heq⟩ := handlerCall_view env s .remove tag user none (.removed tag id)
  unfold handlerRemoveUser
  rw [heq, addResult_node]
  dsimp only
  generalize r.ok = ok at hview
  cases hview with
  | undialed => exact hs
  | failed _ _ => exact hs.log _
  | ambiguous hok heffect => simp [henv _ hok] at heffect
  | refused hu => simp [UserCommit.wellFormed, htag, hn.nonempty] at hu
  | done _ => exact (hs.log _).removed hn

theorem handlerAddUser_settled (henv : env.Honest) (hn : Named owner user id) (htag : tag ≠ "")
    (hknown : tag ∈ known) (hs : Settled owner known user id s.node) :
    Settled owner known user id (handlerAddUser env tag user id s).node := by
  obtain ⟨n', r, hview, heq⟩ := handlerCall_view env s .add tag user (some id) (.added tag id)
  unfold handlerAddUser
  rw [heq, addResult_node]
  dsimp only
  generalize r.ok = ok at hview
  cases hview with
  | undialed => exact hs
  | failed _ _ => exact hs.log _
  | ambiguous hok heffect => simp [henv _ hok] at heffect
  | refused hu => simp [UserCommit.wellFormed, htag, hn.nonempty] at hu
  | done _ => exact (hs.log _).added hn hknown

theorem addTypedUser_settled {type : String} (henv : env.Honest) (hn : Named owner user id)
    (htag : tag ≠ "") (hknown : tag ∈ known) (hs : Settled owner known user id s.node) :
    Settled owner known user id (addTypedUser env type tag user id s).node := by
  unfold addTypedUser
  split
  · exact handlerAddUser_settled henv hn htag hknown hs
  · exact hs

theorem unlessStopped_node (inv : Node → Prop) {k : Session → Pass Session} (h : inv s.node)
    (hk : inv (k s).state.node) : inv (unlessStopped env s k).state.node := by
  rcases unlessStopped_cases env s k with ⟨r, -, heq⟩ | heq
  · rw [heq]
    exact h
  · rw [heq]
    exact hk

theorem removeFromTags_settled {tags : List String} (henv : env.Honest) (hn : Named owner user id)
    (htags : "" ∉ tags) (hs : Settled owner known user id s.node) :
    Settled owner known user id (removeFromTags env user id tags s).state.node := by
  refine Pass.forEach_keeps (fun s : Session => Settled owner known user id s.node) tags hs fun tag htag a ha => ?_
  have hne : tag ≠ "" := fun h => htags (h ▸ htag)
  exact unlessStopped_node _ ha (handlerRemoveUser_settled henv hn hne ha)

theorem addItems_settled {items : List AddUserItem} (henv : env.Honest) (hn : Named owner user id)
    (hitems : ∀ item ∈ items, item.username = user ∧ item.tag ≠ "" ∧ item.tag ∈ known)
    (hs : Settled owner known user id s.node) :
    Settled owner known user id (addItems env id items s).state.node := by
  refine Pass.forEach_keeps (fun s : Session => Settled owner known user id s.node) items hs
    fun item hitem a ha => ?_
  obtain ⟨rfl, htag, hknown⟩ := hitems item hitem
  exact unlessStopped_node _ ha (addTypedUser_settled henv hn htag hknown ha)

theorem addInbounds_settled {data : BatchUserData} {inbounds : List BatchInbound}
    (henv : env.Honest) (hn : Named owner data.userID data.vlessUUID)
    (htags : ∀ inbound ∈ inbounds, inbound.tag ≠ "" ∧ inbound.tag ∈ known)
    (hs : Settled owner known data.userID data.vlessUUID s.node) :
    Settled owner known data.userID data.vlessUUID (addInbounds env data inbounds s).state.node := by
  refine Pass.forEach_keeps (fun s : Session => Settled owner known data.userID data.vlessUUID s.node) inbounds hs
    fun inbound hinbound a ha => ?_
  obtain ⟨htag, hknown⟩ := htags inbound hinbound
  exact unlessStopped_node _ ha (addTypedUser_settled henv hn htag hknown ha)

end Loops

theorem mem_distinctTags (t : String) (tags : List String) :
    t ∈ distinctTags tags ↔ t ≠ "" ∧ t ∈ tags := by
  induction tags with
  | nil => simp [distinctTags]
  | cons tag tags ih =>
    unfold distinctTags
    split
    case isTrue h =>
      rw [ih, List.mem_cons]
      constructor
      · exact fun ht => ⟨ht.1, Or.inr ht.2⟩
      · rintro ⟨hne, rfl | ht⟩
        · exact absurd h hne
        · exact ⟨hne, ht⟩
    case isFalse h =>
      simp only [List.mem_cons, List.mem_filter, ih, decide_eq_true_eq]
      constructor
      · rintro (rfl | ⟨⟨hne, ht⟩, -⟩)
        · exact ⟨h, Or.inl rfl⟩
        · exact ⟨hne, Or.inr ht⟩
      · rintro ⟨hne, ht⟩
        by_cases heq : t = tag
        · exact Or.inl heq
        · exact Or.inr ⟨⟨hne, ht.resolve_left heq⟩, heq⟩

/-! ### Requests -/

section Requests
variable {owner : String → String} {known : Set String} {env : Env} {s b : Session}
  {user id : String}

theorem Good.mono {known' : Set String} {n : Node} (hg : Good owner known n)
    (h : ∀ tag ∈ n.hashState.inboundTags, tag ∈ known') : Good owner known' n :=
  ⟨hg.mirrors, hg.owned, h⟩

theorem Good.tracked {n : Node} (hg : Good owner known n) {tag : String}
    (h : n.core tag user = some id) : tag ∈ n.hashState.inboundTags := by
  rw [hg.mirrors.tags tag]
  by_contra hmissing
  have hid : id ∈ n.hashState.members tag := (hg.mirrors.members tag id).mpr ⟨user, h⟩
  rw [RuntimeHashState.members_of_notMem _ _ hmissing] at hid
  exact absurd hid (Finset.notMem_empty id)

/- After a cleanup of all tracked tags the core has the user nowhere, so any
hash id will do from here on. -/
theorem settled_of_cleared {id' : String} {tags : List String}
    (hs : Settled owner known user id s.node) (hb : Settled owner known user id b.node)
    (hr : Removes tags s b) (htags : ∀ t ∈ s.node.hashState.inboundTags, t ∈ tags)
    (hclear : ∀ t ∈ tags, b.node.core t user = none) : Settled owner known user id' b.node := by
  refine ⟨hb.good, fun tag held hheld => ?_⟩
  by_cases htag : tag ∈ tags
  · rw [hclear tag htag] at hheld
    cases hheld
  · rcases hr.core tag user with hc | hc
    · rw [hc] at hheld
      exact absurd (htags tag (hs.good.tracked hheld)) htag
    · exact absurd hc.1 htag

theorem prepareUserIPDrop_settled (env : Env) (hs : Settled owner known user id s.node) :
    Settled owner known user id (prepareUserIPDrop env s).1.node := by
  rwa [(prepareUserIPDrop_node env s).1]

theorem applyUserIPDrops_settled {plans : List (List String)}
    (hs : Settled owner known user id s.node) :
    Settled owner known user id (applyUserIPDrops env s plans).1.node := by
  rwa [(applyUserIPDrops_node env s plans).1]

def nonEmptyTags : Set String := {tag | tag ≠ ""}

/- `InboundTags()` lists the tracked tags. -/
def Env.Lists (env : Env) (n : Node) : Prop := ∀ t, t ∈ env.tagOrder ↔ t ∈ n.hashState.inboundTags

theorem Env.Lists.nonempty {n : Node} (h : env.Lists n) (hg : Good owner nonEmptyTags n) :
    "" ∉ env.tagOrder := by
  intro hmem
  exact hg.tagged "" ((h "").mp hmem) rfl

theorem addUser_good {first : AddUserItem} {request : AddUserRequest} (henv : env.Honest)
    (horder : env.Lists s.node) (hg : Good owner nonEmptyTags s.node)
    (hitems : ∀ item ∈ request.data, item.username = first.username ∧ item.tag ≠ "")
    (hnew : Named owner first.username request.hashData.vlessUUID)
    (hold : Named owner first.username
      (request.hashData.prevVlessUUID.getD request.hashData.vlessUUID))
    (hcarries : s.node.Carries first.username
      (request.hashData.prevVlessUUID.getD request.hashData.vlessUUID)) :
    Good owner nonEmptyTags (addUser env first request s).node := by
  unfold addUser
  generalize hlook : (if request.hashData.prevVlessUUID.isSome = true then _ else _ :
    Session × List String) = p
  obtain ⟨s₁, plan⟩ := p
  have hnode : s₁.node = s.node := by
    split at hlook
    · rw [← (prepareUserIPDrop_node env s).1]
      exact (congrArg (fun p => p.1.node) hlook).symm
    · exact (congrArg (fun p => p.1.node) hlook).symm
  have hs : Settled owner nonEmptyTags first.username
      (request.hashData.prevVlessUUID.getD request.hashData.vlessUUID) s₁.node := by
    rw [hnode]
    exact ⟨hg, hcarries⟩
  dsimp only
  split
  case h_1 => exact hs.good
  case h_2 =>
    have htags : "" ∉ userMutationTags env.tagOrder (addUserTags request.data) :=
      fun h => ((mem_distinctTags _ _).mp h).1 rfl
    have hcleanup := removeFromTags_settled henv hold htags hs
    have hclears := removeFromTags_clears env first.username
      (request.hashData.prevVlessUUID.getD request.hashData.vlessUUID)
      (userMutationTags env.tagOrder (addUserTags request.data)) s₁
    split
    case h_1 s₂ hres =>
      rw [hres] at hcleanup
      exact hcleanup.good
    case h_2 s₂ hres =>
      rw [hres] at hcleanup
      split
      case isTrue => exact hcleanup.good
      case isFalse hfailed =>
        have hcover : ∀ t ∈ s₁.node.hashState.inboundTags,
            t ∈ userMutationTags env.tagOrder (addUserTags request.data) := by
          intro t ht
          rw [hnode] at ht
          refine (mem_distinctTags _ _).mpr ⟨hg.tagged t ht, ?_⟩
          exact List.mem_append_left _ ((horder t).mpr ht)
        have hclear := (hclears.cleared s₂ hres).resolve_left hfailed
        have hready : Settled owner nonEmptyTags first.username request.hashData.vlessUUID s₂.node :=
          settled_of_cleared hs hcleanup (hclears.removes_next hres) hcover hclear
        have hadds : ∀ item ∈ request.data,
            item.username = first.username ∧ item.tag ≠ "" ∧ item.tag ∈ nonEmptyTags := by
          intro item hitem
          obtain ⟨huser, htag⟩ := hitems item hitem
          exact ⟨huser, htag, htag⟩
        exact (addItems_settled henv hnew hadds (applyUserIPDrops_settled hready)).good

theorem removeUser_good {request : RemoveUserRequest} (henv : env.Honest)
    (htags : "" ∉ env.tagOrder) (hn : Named owner request.username request.vlessUUID)
    (hs : Settled owner known request.username request.vlessUUID s.node) :
    Good owner known (removeUser env request s).node := by
  have hprep := prepareUserIPDrop_settled env hs
  unfold removeUser
  split
  case isTrue => exact hs.good
  case isFalse =>
    dsimp only
    split
    case isTrue => exact hprep.good
    case isFalse =>
      have hloop := removeFromTags_settled (s := (prepareUserIPDrop env s).1.addResult
        (prepareUserIPDrop env s).2.2) henv hn htags hprep
      split
      case h_1 s₂ hres =>
        rw [hres] at hloop
        exact hloop.good
      case h_2 s₂ hres =>
        rw [hres] at hloop
        split
        case isTrue => exact hloop.good
        case isFalse => exact (applyUserIPDrops_settled hloop).good

theorem addUsersEntry_good {tags : List String} {entry : BatchUser} (henv : env.Honest)
    (htags : "" ∉ tags) (hold : Named owner entry.userData.userID entry.userData.hashUUID)
    (hnew : Named owner entry.userData.userID entry.userData.vlessUUID)
    (hinbounds : ∀ inbound ∈ entry.inboundData, inbound.tag ∈ tags)
    (hs : Settled owner {t | t ∈ tags} entry.userData.userID entry.userData.hashUUID s.node) :
    Good owner {t | t ∈ tags} (addUsersEntry env tags entry s).state.node := by
  refine unlessStopped_node (Good owner {t | t ∈ tags}) hs.good ?_
  have hcleanup := removeFromTags_settled henv hold htags hs
  have hclears := removeFromTags_clears env entry.userData.userID entry.userData.hashUUID tags s
  cases hres : removeFromTags env entry.userData.userID entry.userData.hashUUID tags s with
  | stop s₁ =>
    rw [hres] at hcleanup
    exact hcleanup.good
  | next s₁ =>
    rw [hres] at hcleanup
    simp only [Pass.bind]
    split
    case isTrue => exact hcleanup.good
    case isFalse hok =>
      have hclear := removeFromTags_ok env hres (by simpa using hok)
      have hready : Settled owner {t | t ∈ tags} entry.userData.userID entry.userData.vlessUUID
          s₁.node :=
        settled_of_cleared hs hcleanup (hclears.removes_next hres) hs.good.tagged hclear
      have hadds : ∀ inbound ∈ entry.inboundData,
          inbound.tag ≠ "" ∧ inbound.tag ∈ {t | t ∈ tags} := by
        intro inbound hinbound
        have hmem := hinbounds inbound hinbound
        exact ⟨fun h => htags (h ▸ hmem), hmem⟩
      exact (addInbounds_settled henv hnew hadds hready).good

theorem removeUsersEntry_good {entry : RemoveUsersItem} (henv : env.Honest)
    (htags : "" ∉ env.tagOrder) (hn : Named owner entry.userID entry.hashUUID)
    (hs : Settled owner known entry.userID entry.hashUUID s.node) :
    Good owner known (removeUsersEntry env entry s).state.node := by
  refine unlessStopped_node (Good owner known) hs.good ?_
  have hprep := prepareUserIPDrop_settled env hs
  dsimp only
  split
  case isTrue => exact hprep.good
  case isFalse =>
    have hloop := removeFromTags_settled (s := (prepareUserIPDrop env s).1.addResult
      (prepareUserIPDrop env s).2.2) henv hn htags hprep
    cases hres : removeFromTags env entry.userID entry.hashUUID env.tagOrder
        ((prepareUserIPDrop env s).1.addResult (prepareUserIPDrop env s).2.2) with
    | stop s₁ =>
      rw [hres] at hloop
      exact hloop.good
    | next s₁ =>
      rw [hres] at hloop
      simp only [Pass.bind]
      split
      case isTrue => exact hloop.good
      case isFalse => exact hloop.good

end Requests

end RemnanodeLite.Nodehandler
