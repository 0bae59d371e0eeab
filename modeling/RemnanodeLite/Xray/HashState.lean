import Mathlib.Data.List.AList
import RemnanodeLite.Lib.Json
import RemnanodeLite.Xray.HashedSet

/-! # Recorded inbound hashes

`internal/xray/hashstate.go` and the request types of `manager.go:128-142`. -/

namespace RemnanodeLite.Xray
open Json

/-- `InboundHash`; the users count is never read. -/
structure InboundHash where
  hash : String
  tag : String
  deriving DecidableEq

structure ConfigHash where
  emptyConfig : String
  inbounds : List InboundHash
  deriving DecidableEq

/-- The bytes that `value[i]` reads in `djb2Dual`. -/
def utf8Bytes (s : String) : List UInt8 := s.toUTF8.toList

/-- `runtimeHashState` (hashstate.go:8-12). A nil map and an empty one answer
every lookup, range and `len` alike and are one value here. -/
structure RuntimeHashState where
  emptyConfigHash : String
  inboundHashes : AList fun _ : String => HashedSet String
  inboundTags : Finset String

namespace RuntimeHashState

/-- The recorded members of a tag, none if the tag is missing. -/
def members (r : RuntimeHashState) (tag : String) : Finset String :=
  ((r.inboundHashes.lookup tag).map HashedSet.members).getD ∅

/-- `clearHashStateLocked` and `clearInboundTagsLocked`. -/
def cleared : RuntimeHashState := ⟨"", ∅, ∅⟩

end RuntimeHashState

/-- `extractClientIDs` (hashstate.go:159-182). The ids are sorted there before
they enter a set, which no reader of the set can see. -/
def extractClientIDs (inbound : List (String × Value)) : List String :=
  match (Value.field inbound "settings").asObject with
  | none => []
  | some settings =>
    match (Value.field settings "clients").asArray with
    | none => []
    | some clients =>
      clients.filterMap fun item => do
        let client ← item.asObject
        let id := (Value.field client "id").asString.getD ""
        if id = "" then none else some id

/-- The body of the loop over `rawInbounds` (hashstate.go:33-50). -/
def recordInbound (validTags : List String) (state : RuntimeHashState) (item : Value) :
    RuntimeHashState :=
  match item.asObject with
  | none => state
  | some inbound =>
    let tag := (Value.field inbound "tag").asString.getD ""
    if tag = "" then state
    else if tag ∉ validTags then state
    else
      { state with
        inboundHashes := state.inboundHashes.insert tag
          (HashedSet.ofItems utf8Bytes (extractClientIDs inbound))
        inboundTags := insert tag state.inboundTags }

/-- `buildRuntimeHashState` (hashstate.go:14-53). -/
def buildRuntimeHashState (hashes : ConfigHash) (config : List (String × Value)) :
    RuntimeHashState :=
  let state : RuntimeHashState := ⟨hashes.emptyConfig, ∅, ∅⟩
  let validTags := (hashes.inbounds.map InboundHash.tag).filter (· ≠ "")
  match (Value.field config "inbounds").asArray with
  | none => state
  | some rawInbounds => rawInbounds.foldl (recordInbound validTags) state

/-- `isNeedRestartCoreLocked` (hashstate.go:65-103). The map is ranged over in
no fixed order and every mismatch gives the same answer. -/
def isNeedRestartCore (r : RuntimeHashState) (incoming : ConfigHash) : Bool :=
  if r.emptyConfigHash = "" then true
  else if incoming.emptyConfig ≠ r.emptyConfigHash then true
  else if incoming.inbounds.length ≠ r.inboundHashes.entries.length then true
  else r.inboundHashes.entries.any fun entry =>
    match incoming.inbounds.find? (·.tag = entry.1) with
    | none => true
    | some incomingInbound => entry.2.hash64String ≠ incomingInbound.hash

section NeedRestart
variable {r : RuntimeHashState} {incoming : ConfigHash}

/- The inbound hashes that ask for no restart. -/
def recordedInbounds (r : RuntimeHashState) : List InboundHash :=
  r.inboundHashes.entries.map fun entry => ⟨entry.2.hash64String, entry.1⟩

theorem tag_recordedInbounds :
    (recordedInbounds r).map InboundHash.tag = r.inboundHashes.keys := by
  rw [recordedInbounds, List.map_map]
  rfl

theorem nodup_tag_recordedInbounds : ((recordedInbounds r).map InboundHash.tag).Nodup := by
  rw [tag_recordedInbounds]
  exact r.inboundHashes.keys_nodup

theorem find_eq_of_perm (hperm : incoming.inbounds.Perm (recordedInbounds r)) {inbound : InboundHash}
    (hmem : inbound ∈ recordedInbounds r) :
    incoming.inbounds.find? (·.tag = inbound.tag) = some inbound := by
  have hnodup : (incoming.inbounds.map InboundHash.tag).Nodup :=
    (hperm.map InboundHash.tag).nodup_iff.mpr nodup_tag_recordedInbounds
  cases hfind : incoming.inbounds.find? (·.tag = inbound.tag) with
  | none =>
    have hnone := List.find?_eq_none.mp hfind inbound (hperm.mem_iff.mpr hmem)
    exact absurd (decide_eq_true rfl) hnone
  | some found =>
    have htag : found.tag = inbound.tag := by simpa using List.find?_some hfind
    have hfound : found ∈ incoming.inbounds := List.mem_of_find?_eq_some hfind
    rw [List.inj_on_of_nodup_map hnodup hfound (hperm.mem_iff.mpr hmem) htag]

/- What the loop over the record demands of one entry. -/
def entryUnchanged (incoming : ConfigHash) (inbound : InboundHash) : Prop :=
  incoming.inbounds.find? (·.tag = inbound.tag) = some inbound

theorem any_changed_eq_false :
    (r.inboundHashes.entries.any fun entry =>
      match incoming.inbounds.find? (·.tag = entry.1) with
      | none => true
      | some incomingInbound => decide (entry.2.hash64String ≠ incomingInbound.hash)) = false ↔
      ∀ inbound ∈ recordedInbounds r, entryUnchanged incoming inbound := by
  rw [List.any_eq_false, recordedInbounds, List.forall_mem_map]
  refine forall₂_congr fun entry _ => ?_
  rw [entryUnchanged]
  cases hfind : incoming.inbounds.find? (·.tag = entry.1) with
  | none => simp
  | some found =>
    have htag : found.tag = entry.1 := by simpa using List.find?_some hfind
    obtain ⟨hash, tag⟩ := found
    dsimp only at htag
    subst htag
    rw [Option.some_inj, InboundHash.mk.injEq, decide_eq_true_iff, not_not]
    exact ⟨fun h => ⟨h.symm, rfl⟩, fun h => h.1.symm⟩

/-- No restart is asked for exactly when the base configuration is recorded and the
same, and the incoming inbounds list the recorded ones, each once, with the hash
their sets have now; then no tag is repeated, missing or new. -/
theorem isNeedRestartCore_eq_false_iff (r : RuntimeHashState) (incoming : ConfigHash) :
    (isNeedRestartCore r incoming = false ↔
      r.emptyConfigHash ≠ "" ∧ incoming.emptyConfig = r.emptyConfigHash ∧
        incoming.inbounds.Perm (recordedInbounds r)) ∧
    (isNeedRestartCore r incoming = false →
      (incoming.inbounds.map InboundHash.tag).Nodup ∧
        ∀ tag, tag ∈ incoming.inbounds.map InboundHash.tag ↔ tag ∈ r.inboundHashes) := by
  have hiff : isNeedRestartCore r incoming = false ↔
      r.emptyConfigHash ≠ "" ∧ incoming.emptyConfig = r.emptyConfigHash ∧
        incoming.inbounds.Perm (recordedInbounds r) := by
    unfold isNeedRestartCore
    by_cases hempty : r.emptyConfigHash = ""
    · simp [hempty]
    by_cases hbase : incoming.emptyConfig = r.emptyConfigHash
    · have hlength : r.inboundHashes.entries.length = (recordedInbounds r).length := by
        rw [recordedInbounds, List.length_map]
      rw [if_neg hempty, if_neg (not_not_intro hbase), hlength]
      by_cases hlen : incoming.inbounds.length = (recordedInbounds r).length
      · rw [if_neg (not_not_intro hlen), any_changed_eq_false]
        constructor
        · intro hall
          -- as many as recorded, and every recorded one among them: a pigeonhole
          have hsub : recordedInbounds r ⊆ incoming.inbounds := fun inbound hmem =>
            List.mem_of_find?_eq_some (hall inbound hmem)
          have hnodup : (recordedInbounds r).Nodup := nodup_tag_recordedInbounds.of_map
          exact ⟨hempty, hbase, ((hnodup.subperm hsub).perm_of_length_le hlen.le).symm⟩
        · intro hsame inbound hmem
          exact find_eq_of_perm hsame.2.2 hmem
      · have hne : ¬ incoming.inbounds.Perm (recordedInbounds r) := fun hperm =>
          hlen hperm.length_eq
        simp [hlen, hne]
    · simp [hempty, hbase]
  refine ⟨hiff, fun hfalse => ?_⟩
  have hperm := (hiff.mp hfalse).2.2.map InboundHash.tag
  refine ⟨hperm.nodup_iff.mpr nodup_tag_recordedInbounds, fun tag => ?_⟩
  rw [hperm.mem_iff, tag_recordedInbounds]
  exact AList.mem_keys.symm

end NeedRestart

/-- What `commitUserAdded` does to the maps once its token is current
(hashstate.go:115-127). -/
def recordUserAdded (r : RuntimeHashState) (inboundTag userUUID : String) : RuntimeHashState :=
  let set := (r.inboundHashes.lookup inboundTag).getD HashedSet.empty
  { r with
    inboundHashes := r.inboundHashes.insert inboundTag (set.add utf8Bytes userUUID)
    inboundTags := insert inboundTag r.inboundTags }

/-- What `commitUserRemoved` does to the maps once its token is current
(hashstate.go:141-151): a tag without members is forgotten. -/
def recordUserRemoved (r : RuntimeHashState) (inboundTag userUUID : String) : RuntimeHashState :=
  match r.inboundHashes.lookup inboundTag with
  | none => r
  | some set =>
    let set' := set.delete utf8Bytes userUUID
    if set'.size = 0 then
      { r with
        inboundHashes := r.inboundHashes.erase inboundTag
        inboundTags := r.inboundTags.erase inboundTag }
    else { r with inboundHashes := r.inboundHashes.insert inboundTag set' }

namespace RuntimeHashState
variable (r : RuntimeHashState) (tag user t : String)

theorem members_of_notMem (h : t ∉ r.inboundHashes) : r.members t = ∅ := by
  rw [members, AList.lookup_eq_none.mpr h]
  rfl

theorem members_recordUserAdded :
    (recordUserAdded r tag user).members t =
      if t = tag then insert user (r.members tag) else r.members t := by
  by_cases ht : t = tag
  · subst ht
    simp only [members, recordUserAdded, AList.lookup_insert, Option.map_some, Option.getD_some,
      HashedSet.members_add, if_true]
    cases r.inboundHashes.lookup t <;> rfl
  · simp only [members, recordUserAdded, AList.lookup_insert_ne ht, if_neg ht]

theorem members_recordUserRemoved :
    (recordUserRemoved r tag user).members t =
      if t = tag then (r.members tag).erase user else r.members t := by
  unfold recordUserRemoved
  cases hlook : r.inboundHashes.lookup tag with
  | none =>
    have hempty : r.members tag = ∅ := by simp [members, hlook]
    by_cases ht : t = tag
    · simp [ht, hempty]
    · simp [ht]
  | some set =>
    have hset : r.members tag = set.members := by simp [members, hlook]
    dsimp only
    split
    case isTrue hsize =>
      have herase : set.members.erase user = ∅ := by
        rw [HashedSet.size, Finset.card_eq_zero, HashedSet.members_delete] at hsize
        exact hsize
      by_cases ht : t = tag
      · subst ht
        simp [members, hlook, herase]
      · simp [members, AList.lookup_erase_ne ht, ht]
    case isFalse hsize =>
      by_cases ht : t = tag
      · subst ht
        simp [members, hlook]
      · simp [members, AList.lookup_insert_ne ht, ht]

/- `inboundTags` is the key set of `inboundHashes`. -/
def TagsAreKeys : Prop := ∀ t, t ∈ r.inboundTags ↔ t ∈ r.inboundHashes

variable {r}

theorem TagsAreKeys.added (h : r.TagsAreKeys) : (recordUserAdded r tag user).TagsAreKeys := by
  intro t
  simp only [recordUserAdded, Finset.mem_insert, AList.mem_insert, h t]

theorem TagsAreKeys.removed (h : r.TagsAreKeys) : (recordUserRemoved r tag user).TagsAreKeys := by
  intro t
  unfold recordUserRemoved
  cases hlook : r.inboundHashes.lookup tag with
  | none => exact h t
  | some set =>
    have htag : tag ∈ r.inboundHashes := AList.lookup_isSome.mp (by rw [hlook]; rfl)
    dsimp only
    split
    · simp only [Finset.mem_erase, AList.mem_erase, h t]
    · rw [h t, AList.mem_insert]
      constructor
      · exact Or.inr
      · rintro (rfl | hmem)
        · exact htag
        · exact hmem

end RuntimeHashState

end RemnanodeLite.Xray
