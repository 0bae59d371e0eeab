import RemnanodeLite.Lib.NetipText

/-! # Dropping the connections of addresses

`DropIPs` of `internal/connections/dropper.go`: which of the requested addresses are
handed to the socket killer, and what its result says about the request. -/

namespace RemnanodeLite.Connections
open Netip

/- `hasSource` and `hasKiller`: the function is not nil. -/
structure Dropper where
  available : Bool
  isWhitelisted : String → Bool
  localIPs : Addr → Bool
  localIPsReady : Bool
  hasSource : Bool
  hasKiller : Bool

/- What the environment decides: whether the context has ended at its `n`-th check, the
local addresses or an error, and whether the killer succeeds. -/
structure Environment where
  ended : ℕ → Bool
  discovered : Option (Addr → Bool)
  killed : List Addr → Bool

def broadcast : Addr := .v4 0xffffffff#32

def isProtectedAddress (addr : Addr) (localIPs : Addr → Bool) : Bool :=
  addr.isUnspecified || addr.isLoopback || addr.isMulticast || addr.isLinkLocalUnicast ||
    addr.isLinkLocalMulticast || addr = broadcast || localIPs addr

def Dropper.refreshLocalIPs (d : Dropper) (discovered : Option (Addr → Bool)) :
    Dropper × Option (Addr → Bool) :=
  if !d.hasSource then (d, if d.localIPsReady then some d.localIPs else none)
  else match discovered with
    | none => ({ d with localIPsReady := false }, none)
    | some localIPs => ({ d with localIPs := localIPs, localIPsReady := true }, some localIPs)

/- The success flag and the targets; the targets are also what `seen` holds. -/
structure Batch where
  ok : Bool
  targets : List Addr

/- `netip.ParseAddr(strings.TrimSpace(raw))`: the address and its zone. -/
def readAddr (raw : String) : Option (Addr × List Char) := parseAddr (Strings.trimSpace raw.toList)

/- One pass of the loop behind the check of the context. -/
def Dropper.consider (d : Dropper) (localIPs : Addr → Bool) (b : Batch) (raw : String) : Batch :=
  match readAddr raw with
  | none => { b with ok := false }
  | some (addr, zone) =>
    if zone ≠ [] then { b with ok := false }
    else if d.isWhitelisted raw || d.isWhitelisted addr.unmap.string then b
    else if isProtectedAddress addr.unmap localIPs then { b with ok := false }
    else if addr.unmap ∈ b.targets then b
    else { b with targets := b.targets ++ [addr.unmap] }

/- The loop; `none` is its early return. -/
def Dropper.collect (d : Dropper) (localIPs : Addr → Bool) (ended : ℕ → Bool) :
    ℕ → List String → Batch → Option Batch
  | _, [], b => some b
  | n, raw :: ips, b =>
    if ended n then none else collect d localIPs ended (n + 1) ips (d.consider localIPs b raw)

/- What was handed to the killer, if it was called, and what is returned. -/
structure Outcome where
  handed : Option (List Addr)
  result : Bool

def Dropper.dropIPs (d : Dropper) (env : Environment) (ips : List String) : Outcome :=
  if ips = [] then ⟨none, true⟩
  else if env.ended 0 then ⟨none, false⟩
  else match (d.refreshLocalIPs env.discovered).2 with
    | none => ⟨none, false⟩
    | some localIPs => match d.collect localIPs env.ended 1 ips ⟨true, []⟩ with
      | none => ⟨none, false⟩
      | some b =>
        if b.targets = [] then ⟨none, b.ok⟩
        else if !d.available || !d.hasKiller then ⟨none, false⟩
        else if !env.killed b.targets then ⟨some b.targets, false⟩
        else ⟨some b.targets, b.ok⟩

/-! ### The loop -/

section
variable {d : Dropper} {localIPs : Addr → Bool} {b : Batch} {raw : String} {done ips : List String}

/-- An address of the request that may be handed to the killer: written without a zone,
whitelisted neither as written nor in canonical form, and not protected. -/
structure Target (d : Dropper) (localIPs : Addr → Bool) (ips : List String) (t : Addr) : Prop where
  written : ∃ raw ∈ ips, ∃ addr, readAddr raw = some (addr, []) ∧ addr.unmap = t ∧
    d.isWhitelisted raw = false
  canonical : d.isWhitelisted t.string = false
  unmapped : t.is4In6 = false
  specified : t.isUnspecified = false
  notLoopback : t.isLoopback = false
  notMulticast : t.isMulticast = false
  notLinkLocal : t.isLinkLocalUnicast = false ∧ t.isLinkLocalMulticast = false
  notBroadcast : t ≠ broadcast
  notLocal : localIPs t = false

/- The input is an address without a zone that is whitelisted or a target. -/
def Answered (d : Dropper) (targets : List Addr) (raw : String) : Prop :=
  ∃ addr, readAddr raw = some (addr, []) ∧
    (d.isWhitelisted raw = true ∨ d.isWhitelisted addr.unmap.string = true ∨ addr.unmap ∈ targets)

structure Collected (d : Dropper) (localIPs : Addr → Bool) (done : List String) (b : Batch) : Prop where
  nodup : b.targets.Nodup
  targets : ∀ t ∈ b.targets, Target d localIPs done t
  answered : b.ok = true → ∀ raw ∈ done, Answered d b.targets raw

theorem is4In6_unmap (a : Addr) : a.unmap.is4In6 = false := by
  cases a with
  | v4 a => rfl
  | v6 a =>
    by_cases h : a >>> 32 = 0xffff#128
    · rw [Addr.unmap, if_pos h]
      rfl
    · rw [Addr.unmap, if_neg h]
      exact decide_eq_false h

theorem Target.mono {t : Addr} (h : Target d localIPs done t) (raw : String) :
    Target d localIPs (done ++ [raw]) t := by
  obtain ⟨raw', hmem, hread⟩ := h.written
  exact { h with written := ⟨raw', List.mem_append_left _ hmem, hread⟩ }

theorem Answered.mono {targets : List Addr} (h : Answered d targets raw) (t : Addr) :
    Answered d (targets ++ [t]) raw := by
  obtain ⟨addr, hread, hsettled⟩ := h
  exact ⟨addr, hread, hsettled.imp_right fun h => h.imp_right fun h => List.mem_append_left _ h⟩

theorem Collected.skip (h : Collected d localIPs done b) {ok : Bool} (hok : ok = true → b.ok = true)
    (hraw : ok = true → Answered d b.targets raw) :
    Collected d localIPs (done ++ [raw]) { b with ok := ok } := by
  refine ⟨h.nodup, fun t ht => (h.targets t ht).mono raw, fun hb raw' hmem => ?_⟩
  rcases List.mem_append.mp hmem with hmem | hmem
  · exact h.answered (hok hb) raw' hmem
  · exact List.mem_singleton.mp hmem ▸ hraw hb

theorem Collected.consider (h : Collected d localIPs done b) (raw : String) :
    Collected d localIPs (done ++ [raw]) (d.consider localIPs b raw) := by
  unfold Dropper.consider
  split
  · exact h.skip nofun nofun
  next addr zone hread =>
    split_ifs with hzone hwhite hprotected hseen
    · exact h.skip nofun nofun
    all_goals
      have hread' : readAddr raw = some (addr, []) := by rw [hread, not_not.mp hzone]
    · refine h.skip id fun _ => ⟨addr, hread', ?_⟩
      rw [Bool.or_eq_true] at hwhite
      exact hwhite.imp_right .inl
    · exact h.skip nofun nofun
    · exact h.skip id fun _ => ⟨addr, hread', .inr (.inr hseen)⟩
    · -- a new target
      rw [Bool.or_eq_true, not_or] at hwhite
      simp only [isProtectedAddress, Bool.or_eq_true, not_or, decide_eq_true_eq,
        Bool.not_eq_true] at hprotected
      obtain ⟨⟨⟨⟨⟨⟨h1, h2⟩, h3⟩, h4⟩, h5⟩, h6⟩, h7⟩ := hprotected
      have htarget : Target d localIPs (done ++ [raw]) addr.unmap :=
        ⟨⟨raw, by simp, addr, hread', rfl, by simpa using hwhite.1⟩, by simpa using hwhite.2,
          is4In6_unmap addr, h1, h2, h3, ⟨h4, h5⟩, h6, h7⟩
      refine ⟨?_, ?_, ?_⟩
      · exact List.nodup_append.mpr ⟨h.nodup, List.pairwise_singleton _ _, fun x hx y hy hxy =>
          hseen (List.mem_singleton.mp hy ▸ hxy ▸ hx)⟩
      · intro t ht
        rcases List.mem_append.mp ht with ht | ht
        · exact (h.targets t ht).mono raw
        · exact List.mem_singleton.mp ht ▸ htarget
      · intro hok raw' hmem
        rcases List.mem_append.mp hmem with hmem | hmem
        · exact (h.answered hok raw' hmem).mono addr.unmap
        · rw [List.mem_singleton.mp hmem]
          exact ⟨addr, hread', .inr (.inr (by simp))⟩

theorem Collected.collect {ended : ℕ → Bool} {n : ℕ} {b' : Batch} (h : Collected d localIPs done b)
    (hend : d.collect localIPs ended n ips b = some b') : Collected d localIPs (done ++ ips) b' := by
  induction ips generalizing n done b with
  | nil =>
    cases hend
    rwa [List.append_nil]
  | cons raw ips ih =>
    rw [Dropper.collect] at hend
    split_ifs at hend
    have hrest := ih (h.consider raw) hend
    rwa [List.append_assoc] at hrest

end

theorem dropIPs_cases (d : Dropper) (env : Environment) (ips : List String) :
    (ips = [] ∧ d.dropIPs env ips = ⟨none, true⟩) ∨ d.dropIPs env ips = ⟨none, false⟩ ∨
    ∃ localIPs b, (d.refreshLocalIPs env.discovered).2 = some localIPs ∧
      Collected d localIPs ips b ∧ ((b.targets = [] ∧ d.dropIPs env ips = ⟨none, b.ok⟩) ∨
        d.dropIPs env ips = ⟨some b.targets, false⟩ ∨
        (env.killed b.targets = true ∧ d.dropIPs env ips = ⟨some b.targets, b.ok⟩)) := by
  unfold Dropper.dropIPs
  by_cases hempty : ips = []
  · exact .inl ⟨hempty, if_pos hempty⟩
  rw [if_neg hempty]
  refine .inr ?_
  by_cases hended : env.ended 0 = true
  · exact .inl (if_pos hended)
  rw [if_neg hended]
  cases hlocal : (d.refreshLocalIPs env.discovered).2 with
  | none => exact .inl rfl
  | some localIPs =>
    dsimp only
    cases hb : d.collect localIPs env.ended 1 ips ⟨true, []⟩ with
    | none => exact .inl rfl
    | some b =>
      have hstart : Collected d localIPs [] ⟨true, []⟩ := ⟨List.nodup_nil, nofun, fun _ _ => nofun⟩
      have hcollected : Collected d localIPs ips b := hstart.collect hb
      dsimp only
      split_ifs with hnone havailable hkilled
      · exact .inr ⟨localIPs, b, rfl, hcollected, .inl ⟨hnone, rfl⟩⟩
      · exact .inl rfl
      · exact .inr ⟨localIPs, b, rfl, hcollected, .inr (.inl rfl)⟩
      · exact .inr ⟨localIPs, b, rfl, hcollected, .inr (.inr ⟨by simpa using hkilled, rfl⟩)⟩

/-- The addresses handed to the killer are distinct and each is a target; and a result of
true means that every input was an address without a zone that is whitelisted or was
handed to a killer that succeeded. -/
theorem dropIPs_targets (d : Dropper) (env : Environment) (ips : List String) :
    (∀ targets, (d.dropIPs env ips).handed = some targets → targets.Nodup ∧
      ∃ localIPs, (d.refreshLocalIPs env.discovered).2 = some localIPs ∧
        ∀ t ∈ targets, Target d localIPs ips t) ∧
    ((d.dropIPs env ips).result = true → ∀ raw ∈ ips, ∃ addr, readAddr raw = some (addr, []) ∧
      (d.isWhitelisted raw = true ∨ d.isWhitelisted addr.unmap.string = true ∨
        ∃ targets, (d.dropIPs env ips).handed = some targets ∧ addr.unmap ∈ targets ∧
          env.killed targets = true)) := by
  rcases dropIPs_cases d env ips with ⟨hempty, h⟩ | h | ⟨localIPs, b, hlocal, hcollected, hend⟩
  · rw [h, hempty]
    exact ⟨nofun, fun _ _ => nofun⟩
  · rw [h]
    exact ⟨nofun, nofun⟩
  · have hhanded : ∀ targets, some b.targets = some targets → targets.Nodup ∧
        ∃ localIPs, (d.refreshLocalIPs env.discovered).2 = some localIPs ∧
          ∀ t ∈ targets, Target d localIPs ips t := by
      intro targets heq
      cases heq
      exact ⟨hcollected.nodup, localIPs, hlocal, hcollected.targets⟩
    rcases hend with ⟨hnone, h⟩ | h | ⟨hkilled, h⟩
    · rw [h]
      refine ⟨nofun, fun hok raw hraw => ?_⟩
      obtain ⟨addr, hread, hanswer⟩ := hcollected.answered hok raw hraw
      rw [hnone] at hanswer
      exact ⟨addr, hread, hanswer.imp_right fun h => .inl (h.resolve_right List.not_mem_nil)⟩
    · rw [h]
      exact ⟨hhanded, nofun⟩
    · rw [h]
      refine ⟨hhanded, fun hok raw hraw => ?_⟩
      obtain ⟨addr, hread, hanswer⟩ := hcollected.answered hok raw hraw
      refine ⟨addr, hread, hanswer.imp_right fun h => h.imp_right fun h => ?_⟩
      exact ⟨b.targets, rfl, h, hkilled⟩

end RemnanodeLite.Connections
