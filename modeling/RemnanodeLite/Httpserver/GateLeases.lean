import RemnanodeLite.Httpserver.LifecycleGate

/-! # Who holds a lease of the lifecycle gate

The gate is a lock with shared start leases and one exclusive lease. Each call
plays a role, and the three fields of the gate count the roles. -/

namespace RemnanodeLite.Httpserver
open Transition Tally

inductive Role where
  | none
  | waiting
  | start
  | exclusive
  deriving DecidableEq

def Position.role : Position → Role
  | .startEnter | .startAsleep _ | .exclusiveEnter | .returned => .none
  | .exclusiveAsleep _ | .exclusiveWoken | .exclusiveCanceled => .waiting
  | .startAdmitted | .startRevoked | .startHeld => .start
  | .exclusiveAdmitted | .exclusiveRevoked | .exclusiveHeld => .exclusive

def Call.plays (role : Role) (call : Call) : Bool := call.position.role = role

def System.startLeases (s : System) : ℤ := tally (Call.plays .start) s.calls
def System.exclusiveLeases (s : System) : ℤ := tally (Call.plays .exclusive) s.calls
def System.waiters (s : System) : ℤ := tally (Call.plays .waiting) s.calls

/-! ### The fields that count -/

structure Counts where
  mode : XrayLifecycleMode
  activeStarts : ℤ
  waitingExclusive : ℤ

def XrayLifecycleGate.counts (g : XrayLifecycleGate) : Counts :=
  ⟨g.mode, g.activeStarts, g.waitingExclusive⟩

@[simp] theorem XrayLifecycleGate.counts_makeChanged (g : XrayLifecycleGate) :
    g.makeChanged.counts = g.counts := rfl

@[simp] theorem XrayLifecycleGate.counts_closeChanged (g : XrayLifecycleGate) :
    g.closeChanged.counts = g.counts := rfl

@[simp] theorem XrayLifecycleGate.counts_initializeLocked (g : XrayLifecycleGate) :
    g.initializeLocked.counts = g.counts := by
  unfold initializeLocked
  split
  · rfl
  · rfl

@[simp] theorem XrayLifecycleGate.counts_notifyLocked (g : XrayLifecycleGate) :
    g.notifyLocked.counts = g.counts := by
  simp [notifyLocked]

theorem XrayLifecycleGate.initializeLocked_mode (g : XrayLifecycleGate) :
    g.initializeLocked.mode = g.mode := congrArg Counts.mode g.counts_initializeLocked

theorem XrayLifecycleGate.initializeLocked_waitingExclusive (g : XrayLifecycleGate) :
    g.initializeLocked.waitingExclusive = g.waitingExclusive :=
  congrArg Counts.waitingExclusive g.counts_initializeLocked

/- What a turn of one call does to the counts and to the role of the call. -/
inductive Transfer : Counts → Role → Counts → Role → Prop where
  | stay (c : Counts) (role : Role) : Transfer c role c role
  | grantStart (c : Counts) (hwaiting : c.waitingExclusive = 0)
      (hmode : c.mode = .starts ∨ c.mode = .idle) :
      Transfer c .none { c with mode := .starts, activeStarts := c.activeStarts + 1 } .start
  | releaseLastStart (c : Counts) (hmode : c.mode = .starts) (hlast : c.activeStarts - 1 = 0) :
      Transfer c .start { c with mode := .idle, activeStarts := c.activeStarts - 1 } .none
  | releaseStart (c : Counts) (hmode : c.mode = .starts) (hmore : c.activeStarts - 1 ≠ 0) :
      Transfer c .start { c with activeStarts := c.activeStarts - 1 } .none
  | announce (c : Counts) (hmode : c.mode ≠ .idle) :
      Transfer c .none { c with waitingExclusive := c.waitingExclusive + 1 } .waiting
  | enter (c : Counts) (hmode : c.mode = .idle) :
      Transfer c .none { c with mode := .exclusive } .exclusive
  | grantExclusive (c : Counts) (hmode : c.mode = .idle) :
      Transfer c .waiting
        { c with mode := .exclusive, waitingExclusive := c.waitingExclusive - 1 } .exclusive
  | abandon (c : Counts) :
      Transfer c .waiting { c with waitingExclusive := c.waitingExclusive - 1 } .none
  | releaseExclusive (c : Counts) (hmode : c.mode = .exclusive) :
      Transfer c .exclusive { c with mode := .idle } .none

/-! ### One turn -/

variable {g g' : XrayLifecycleGate} {p : Position} {m : Move} {call : Call} {calls : List Call}
  {e : Event} {s s' : System}

theorem startRound_transfer (h : startRound g = .next g' p) :
    Transfer g.counts .none g'.counts p.role := by
  unfold startRound XrayLifecycleGate.admitStart at h
  by_cases hadmit : g.waitingExclusive = 0 ∧ (g.mode = .starts ∨ g.mode = .idle)
  · simp only [if_pos hadmit] at h
    cases h
    exact .grantStart g.counts hadmit.1 hadmit.2
  · simp only [if_neg hadmit] at h
    cases h
    exact .stay g.counts .none

theorem exclusiveRound_transfer (h : exclusiveRound g = .next g' p) :
    Transfer g.counts .waiting g'.counts p.role := by
  unfold exclusiveRound XrayLifecycleGate.admitExclusive at h
  by_cases hidle : g.mode = .idle
  · simp only [if_pos hidle] at h
    cases h
    exact .grantExclusive g.counts hidle
  · simp only [if_neg hidle] at h
    cases h
    exact .stay g.counts .waiting

theorem announceRound_transfer (h : exclusiveRound g.announceExclusive = .next g' p) :
    Transfer g.counts .none g'.counts p.role := by
  have hmode : g.announceExclusive.mode = g.mode := g.initializeLocked_mode
  have hcounts : g.announceExclusive.counts =
      { g.counts with waitingExclusive := g.counts.waitingExclusive + 1 } := by
    rw [← g.counts_initializeLocked]
    rfl
  unfold exclusiveRound XrayLifecycleGate.admitExclusive at h
  by_cases hidle : g.mode = .idle
  · simp only [hmode, if_pos hidle] at h
    cases h
    have hback : g.announceExclusive.waitingExclusive - 1 = g.waitingExclusive := by
      show g.initializeLocked.waitingExclusive + 1 - 1 = g.waitingExclusive
      rw [g.initializeLocked_waitingExclusive]
      omega
    have hstarts : g.announceExclusive.activeStarts = g.activeStarts :=
      congrArg Counts.activeStarts hcounts
    have hend : XrayLifecycleGate.counts { g.announceExclusive with
        mode := .exclusive, waitingExclusive := g.announceExclusive.waitingExclusive - 1 } =
        { g.counts with mode := .exclusive } := by
      simp only [XrayLifecycleGate.counts, hback, hstarts]
    rw [hend]
    exact .enter g.counts hidle
  · simp only [hmode, if_neg hidle] at h
    cases h
    rw [hcounts]
    exact .announce g.counts hidle

theorem releaseStart_transfer (h : Turn.released g.releaseStart = .next g' p) :
    Transfer g.counts .start g'.counts p.role := by
  unfold XrayLifecycleGate.releaseStart at h
  by_cases hheld : g.mode ≠ .starts ∨ g.activeStarts = 0
  · simp only [if_pos hheld, Turn.released] at h
    cases h
  · have hmode : g.mode = .starts := by
      by_contra hne
      exact hheld (.inl hne)
    by_cases hlast : g.activeStarts - 1 = 0
    · simp only [if_neg hheld, if_pos hlast, Turn.released] at h
      cases h
      rw [XrayLifecycleGate.counts_notifyLocked]
      exact .releaseLastStart g.counts hmode hlast
    · simp only [if_neg hheld, if_neg hlast, Turn.released] at h
      cases h
      exact .releaseStart g.counts hmode hlast

theorem releaseExclusive_transfer (h : Turn.released g.releaseExclusive = .next g' p) :
    Transfer g.counts .exclusive g'.counts p.role := by
  unfold XrayLifecycleGate.releaseExclusive at h
  by_cases hmode : g.mode = .exclusive
  · simp only [hmode, ne_eq, not_true_eq_false, if_false, Turn.released] at h
    cases h
    rw [XrayLifecycleGate.counts_notifyLocked]
    exact .releaseExclusive g.counts hmode
  · simp only [ne_eq, hmode, not_false_eq_true, if_true, Turn.released] at h
    cases h

theorem abandonExclusive_transfer (g : XrayLifecycleGate) :
    Transfer g.counts .waiting g.abandonExclusive.counts .none := by
  unfold XrayLifecycleGate.abandonExclusive
  split
  · rw [XrayLifecycleGate.counts_notifyLocked]
    exact .abandon g.counts
  · exact .abandon g.counts

theorem turn_transfer {canceled : Bool} {p' : Position}
    (h : turn g canceled p m = some (.next g' p')) :
    Transfer g.counts p.role g'.counts p'.role := by
  unfold turn at h
  split at h
  case h_1 =>
    have ht := startRound_transfer (Option.some.inj h)
    rwa [XrayLifecycleGate.counts_initializeLocked] at ht
  case h_2 =>
    split at h <;> cases h
    exact .stay _ _
  case h_3 =>
    split at h <;> cases h
    exact .stay _ _
  case h_4 =>
    cases h
    cases canceled <;> exact .stay _ _
  case h_5 => exact releaseStart_transfer (Option.some.inj h)
  case h_6 => exact releaseStart_transfer (Option.some.inj h)
  case h_7 => exact announceRound_transfer (Option.some.inj h)
  case h_8 =>
    split at h <;> cases h
    exact .stay _ _
  case h_9 =>
    split at h <;> cases h
    exact .stay _ _
  case h_10 => exact exclusiveRound_transfer (Option.some.inj h)
  case h_11 =>
    cases h
    exact abandonExclusive_transfer g
  case h_12 =>
    cases h
    cases canceled <;> exact .stay _ _
  case h_13 => exact releaseExclusive_transfer (Option.some.inj h)
  case h_14 => exact releaseExclusive_transfer (Option.some.inj h)
  case h_15 => cases h

theorem turn_panicked {canceled : Bool} (h : turn g canceled p m = some .panicked) :
    p.role = .start ∧ (g.mode ≠ .starts ∨ g.activeStarts = 0) ∨
      p.role = .exclusive ∧ g.mode ≠ .exclusive := by
  have hstart : Turn.released g.releaseStart = .panicked → g.mode ≠ .starts ∨ g.activeStarts = 0 := by
    intro hp
    by_contra hheld
    unfold XrayLifecycleGate.releaseStart at hp
    rw [if_neg hheld] at hp
    split at hp <;> cases hp
  have hexclusive : Turn.released g.releaseExclusive = .panicked → g.mode ≠ .exclusive := by
    intro hp hmode
    unfold XrayLifecycleGate.releaseExclusive at hp
    rw [if_neg (not_not_intro hmode)] at hp
    cases hp
  have hstartRound : ∀ g : XrayLifecycleGate, startRound g ≠ .panicked := by
    intro g hp
    unfold startRound at hp
    split at hp <;> cases hp
  have hexclusiveRound : ∀ g : XrayLifecycleGate, exclusiveRound g ≠ .panicked := by
    intro g hp
    unfold exclusiveRound at hp
    split at hp <;> cases hp
  unfold turn at h
  split at h
  case h_1 => exact absurd (Option.some.inj h) (hstartRound _)
  case h_5 => exact .inl ⟨rfl, hstart (Option.some.inj h)⟩
  case h_6 => exact .inl ⟨rfl, hstart (Option.some.inj h)⟩
  case h_7 => exact absurd (Option.some.inj h) (hexclusiveRound _)
  case h_10 => exact absurd (Option.some.inj h) (hexclusiveRound _)
  case h_13 => exact .inr ⟨rfl, hexclusive (Option.some.inj h)⟩
  case h_14 => exact .inr ⟨rfl, hexclusive (Option.some.inj h)⟩
  all_goals first | cases h | (split at h <;> cases h)

/-! ### The counts are right in every state -/

/- What the three fields say about the calls. -/
structure Tallied (c : Counts) (calls : List Call) : Prop where
  starts : c.activeStarts = tally (Call.plays .start) calls
  waiting : c.waitingExclusive = tally (Call.plays .waiting) calls
  mode_starts : c.mode = .starts ↔ 0 < c.activeStarts
  exclusive : tally (Call.plays .exclusive) calls = if c.mode = .exclusive then 1 else 0

structure Coherent (s : System) : Prop where
  tallied : Tallied s.gate.counts s.calls
  running : s.panicked = false

theorem one_plays (role : Role) (call : Call) :
    one (Call.plays role) call = if call.position.role = role then 1 else 0 := by
  simp [one, Call.plays]

theorem Tallied.transfer {c c' : Counts} {i : ℕ} {call' : Call} (h : Tallied c calls)
    (hget : calls[i]? = some call) (ht : Transfer c call.position.role c' call'.position.role) :
    Tallied c' (calls.set i call') := by
  have hset : ∀ role, tally (Call.plays role) (calls.set i call') =
      tally (Call.plays role) calls - (if call.position.role = role then 1 else 0) +
        if call'.position.role = role then 1 else 0 := by
    intro role
    rw [tally_set hget, one_plays, one_plays]
  have hstarts := h.starts
  have hwaiting := h.waiting
  have hmodes := h.mode_starts
  have hexclusive := h.exclusive
  have hpositive : 0 ≤ tally (Call.plays .start) calls := tally_nonneg
  generalize call.position.role = r at ht hset
  generalize call'.position.role = r' at ht hset
  cases ht with
  | stay =>
    refine ⟨?_, ?_, hmodes, ?_⟩
    · rw [hset, hstarts]
      omega
    · rw [hset, hwaiting]
      omega
    · rw [hset, hexclusive]
      omega
  | grantStart hw hmode =>
    have hidle : c.mode ≠ .exclusive := by
      rcases hmode with hmode | hmode <;> rw [hmode] <;> decide
    rw [if_neg hidle] at hexclusive
    refine ⟨by simp [hset .start, hstarts], by simp [hset .waiting, hwaiting], ?_, ?_⟩
    · have hmore : 0 < c.activeStarts + 1 := by omega
      simp [hmore]
    · simp [hset .exclusive, hexclusive]
  | releaseLastStart hmode hlast =>
    rw [hmode] at hexclusive
    refine ⟨by simp [hset .start, hstarts], by simp [hset .waiting, hwaiting], ?_, ?_⟩
    · simp [hlast]
    · rw [hset .exclusive]
      simpa using hexclusive
  | releaseStart hmode hmore =>
    rw [hmode] at hexclusive
    have hheld : 0 < c.activeStarts := hmodes.mp hmode
    refine ⟨by simp [hset .start, hstarts], by simp [hset .waiting, hwaiting], ?_, ?_⟩
    · have hleft : 0 < c.activeStarts - 1 := by omega
      exact iff_of_true hmode hleft
    · rw [hset .exclusive, hmode]
      simpa using hexclusive
  | announce hmode | abandon =>
    refine ⟨by simp [hset .start, hstarts], by simp [hset .waiting, hwaiting], hmodes, ?_⟩
    simp [hset .exclusive, hexclusive]
  | enter hmode | grantExclusive hmode | releaseExclusive hmode =>
    rw [hmode] at hexclusive hmodes
    refine ⟨by simp [hset .start, hstarts], by simp [hset .waiting, hwaiting], ?_, ?_⟩
    · simpa using hmodes
    · simp [hset .exclusive, hexclusive]

theorem Tallied.join {c : Counts} (h : Tallied c calls) (hrole : call.position.role = .none) :
    Tallied c (calls ++ [call]) := by
  have hnone : ∀ role, role ≠ .none →
      tally (Call.plays role) (calls ++ [call]) = tally (Call.plays role) calls := by
    intro role hne
    rw [tally_append_one, one_plays, hrole, if_neg hne.symm]
    omega
  refine ⟨?_, ?_, h.mode_starts, ?_⟩
  · rw [hnone .start (by decide)]
    exact h.starts
  · rw [hnone .waiting (by decide)]
    exact h.waiting
  · rw [hnone .exclusive (by decide)]
    exact h.exclusive

theorem Tallied.not_panicked (h : Tallied g.counts calls) (hmem : call ∈ calls) :
    turn g call.canceled call.position m ≠ some .panicked := by
  intro hp
  rcases turn_panicked hp with ⟨hrole, hbad⟩ | ⟨hrole, hbad⟩
  · have hone : 1 ≤ tally (Call.plays .start) calls :=
      one_le_tally hmem (by simp [Call.plays, hrole])
    have hcount : g.activeStarts = tally (Call.plays .start) calls := h.starts
    have hmode : g.mode = .starts ↔ 0 < g.activeStarts := h.mode_starts
    rcases hbad with hbad | hbad
    · exact hbad (hmode.mpr (by omega))
    · omega
  · have hone : 1 ≤ tally (Call.plays .exclusive) calls :=
      one_le_tally hmem (by simp [Call.plays, hrole])
    have hcount : tally (Call.plays .exclusive) calls = if g.mode = .exclusive then 1 else 0 :=
      h.exclusive
    rw [if_neg hbad] at hcount
    omega

theorem step_cases (h : step s e = some s') :
    (∃ position, (position = .startEnter ∨ position = .exclusiveEnter) ∧
      s' = { s with calls := s.calls ++ [⟨position, false⟩] }) ∨
    (∃ i call, s.calls[i]? = some call ∧
      s' = { s with calls := s.calls.set i { call with canceled := true } }) ∨
    ∃ i call m t, e = .move i m ∧ s.calls[i]? = some call ∧
      turn s.gate call.canceled call.position m = some t ∧ s' = s.take i call.canceled t := by
  cases e with
  | acquireStart => exact .inl ⟨.startEnter, .inl rfl, (Option.some.inj h).symm⟩
  | acquireExclusive => exact .inl ⟨.exclusiveEnter, .inr rfl, (Option.some.inj h).symm⟩
  | cancel i =>
    obtain ⟨call, hget, hs⟩ := Option.map_eq_some_iff.mp h
    exact .inr (.inl ⟨i, call, hget, hs.symm⟩)
  | move i m =>
    obtain ⟨call, hget, hmap⟩ := Option.bind_eq_some_iff.mp h
    obtain ⟨t, ht, hs⟩ := Option.map_eq_some_iff.mp hmap
    exact .inr (.inr ⟨i, call, m, t, rfl, hget, ht, hs.symm⟩)

theorem role_of_enter {position : Position}
    (h : position = .startEnter ∨ position = .exclusiveEnter) : position.role = .none := by
  rcases h with rfl | rfl <;> rfl

theorem step_coherent (h : Coherent s) (hstep : step s e = some s') :
    Coherent s' := by
  rcases step_cases hstep with ⟨position, henter, rfl⟩ | ⟨i, call, hget, rfl⟩ |
    ⟨i, call, m, t, -, hget, ht, rfl⟩
  · exact ⟨h.tallied.join (role_of_enter henter), h.running⟩
  · exact ⟨h.tallied.transfer hget (.stay _ _), h.running⟩
  · cases t with
    | next gate position => exact ⟨h.tallied.transfer hget (turn_transfer ht), h.running⟩
    | panicked => exact absurd ht (h.tallied.not_panicked (List.mem_of_getElem? hget))

theorem coherent_new : Coherent System.new := by
  refine ⟨⟨rfl, rfl, ?_, rfl⟩, rfl⟩
  decide

theorem reach_coherent (h : Reach step System.new s) : Coherent s :=
  h.invariant Coherent coherent_new fun _ _ _ hs _ hstep => step_coherent hs hstep

theorem granted_start_unopposed (hstep : step s e = some s')
    (hmore : s.startLeases < s'.startLeases) : s.gate.waitingExclusive = 0 := by
  unfold System.startLeases at hmore
  rcases step_cases hstep with ⟨position, henter, rfl⟩ | ⟨i, call, hget, rfl⟩ |
    ⟨i, call, m, t, -, hget, ht, rfl⟩
  · rw [tally_append_one, one_plays, role_of_enter henter, if_neg (by decide)] at hmore
    omega
  · rw [tally_set hget, one_plays, one_plays] at hmore
    dsimp only at hmore
    omega
  · cases t with
    | panicked => exact absurd hmore (Int.lt_irrefl _)
    | next gate position =>
      have hmove := turn_transfer ht
      dsimp only [System.take] at hmore
      rw [tally_set hget, one_plays, one_plays] at hmore
      dsimp only at hmore
      generalize call.position.role = r at hmove hmore
      generalize position.role = r' at hmove hmore
      generalize gate.counts = after at hmove
      cases hmove with
      | grantStart hwaiting => exact hwaiting
      | stay => omega
      | releaseLastStart | releaseStart =>
        simp only [reduceCtorEq, if_true, if_false] at hmore
        omega
      | announce | enter | grantExclusive | abandon | releaseExclusive => simp at hmore

/-- In every state that any calls, cancellations and releases lead to, the fields
of the gate count the leases and the waiters, an exclusive lease is alone, a start
lease is only granted when no exclusive call waits, and no release panics. -/
theorem leases_counted_and_exclusive {s : System} (h : Reach step System.new s) :
    (0 < s.exclusiveLeases → s.exclusiveLeases = 1 ∧ s.startLeases = 0) ∧
    (s.gate.mode = .starts ↔ 0 < s.gate.activeStarts) ∧
    s.gate.activeStarts = s.startLeases ∧
    s.gate.waitingExclusive = s.waiters ∧
    (∀ e s', step s e = some s' → s.startLeases < s'.startLeases → s.gate.waitingExclusive = 0) ∧
    s.panicked = false := by
  have hc := reach_coherent h
  have hstarts : s.gate.activeStarts = s.startLeases := hc.tallied.starts
  have hmode : s.gate.mode = .starts ↔ 0 < s.gate.activeStarts := hc.tallied.mode_starts
  have hexclusive : s.exclusiveLeases = if s.gate.mode = .exclusive then 1 else 0 :=
    hc.tallied.exclusive
  refine ⟨?_, hmode, hstarts, hc.tallied.waiting, ?_, hc.running⟩
  · intro hheld
    by_cases hm : s.gate.mode = .exclusive
    · rw [if_pos hm] at hexclusive
      have hnone : ¬ 0 < s.gate.activeStarts := by
        rw [← hmode, hm]
        decide
      have hpositive : 0 ≤ s.startLeases := tally_nonneg
      exact ⟨hexclusive, by omega⟩
    · rw [if_neg hm] at hexclusive
      omega
  · intro e s' hstep hmore
    exact granted_start_unopposed hstep hmore

/- Two starts are let in, an exclusive call waits behind them and a third start
behind it. -/
def crowded : List Event :=
  [.acquireStart, .move 0 .advance, .move 0 .advance, .acquireStart, .move 1 .advance,
    .acquireExclusive, .move 2 .advance, .acquireStart, .move 3 .advance]

theorem leases_counted_and_exclusive_crowded :
    ∃ s, run step System.new crowded = some s ∧ s.gate.activeStarts = 2 ∧
      s.gate.waitingExclusive = 1 ∧ s.gate.activeStarts = s.startLeases := by
  refine ⟨_, rfl, by decide, by decide, ?_⟩
  exact (leases_counted_and_exclusive (run_reach crowded rfl)).2.2.1

end RemnanodeLite.Httpserver
