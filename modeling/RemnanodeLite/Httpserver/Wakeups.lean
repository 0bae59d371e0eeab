import RemnanodeLite.Httpserver.GateLeases

/-! # Wakeups of the lifecycle gate

A call sleeps on the channel that was current when it was refused. Every change
that lets it in has to close that channel. -/

namespace RemnanodeLite.Httpserver
open Transition

/- An `acquireStart` with a live context that sleeps on a channel nobody has closed. -/
def Call.startAsleep (g : XrayLifecycleGate) (call : Call) : Bool :=
  match call.position with
  | .startAsleep changed => !call.canceled && !g.isClosed changed
  | _ => false

def Call.exclusiveAsleep (g : XrayLifecycleGate) (call : Call) : Bool :=
  match call.position with
  | .exclusiveAsleep changed => !call.canceled && !g.isClosed changed
  | _ => false

/- A start could be admitted and sleeps. -/
def MissedStart (s : System) : Prop :=
  (s.gate.mode = .idle ∨ s.gate.mode = .starts) ∧ s.gate.waitingExclusive = 0 ∧
    ∃ call ∈ s.calls, call.startAsleep s.gate = true

def MissedExclusive (s : System) : Prop :=
  s.gate.mode = .idle ∧ ∃ call ∈ s.calls, call.exclusiveAsleep s.gate = true

/- The last exclusive call that waits gives up while starts run, with a start
asleep behind it. -/
def AbandonsStarts (s : System) : Event → Prop
  | .move i .advance => (∃ call ∈ s.calls[i]?, call.position = .exclusiveCanceled) ∧
      s.gate.mode = .starts ∧ s.gate.waitingExclusive = 1 ∧
      ∃ call ∈ s.calls, call.startAsleep s.gate = true
  | _ => False

instance (s : System) : (e : Event) → Decidable (AbandonsStarts s e)
  | .move i .advance => inferInstanceAs (Decidable ((∃ call ∈ s.calls[i]?, _) ∧ _))
  | .move _ .changed | .move _ .done | .move _ .release => isFalse id
  | .acquireStart | .acquireExclusive | .cancel _ => isFalse id

instance (s : System) : Decidable (MissedStart s) := inferInstanceAs (Decidable (_ ∧ _))

/-! ### Channels -/

namespace XrayLifecycleGate
variable {g : XrayLifecycleGate}

structure Open (g : XrayLifecycleGate) : Prop where
  made : ∀ k ∈ g.closed, k < g.made
  current : ∀ k, g.changed = some k → k < g.made ∧ k ∉ g.closed

theorem isClosed_iff {changed : Option ℕ} :
    g.isClosed changed = true ↔ ∃ k, changed = some k ∧ k ∈ g.closed := by
  cases changed with
  | none => simp [isClosed]
  | some k => simp [isClosed]

theorem Open.makeChanged (hmade : ∀ k ∈ g.closed, k < g.made) : g.makeChanged.Open := by
  refine ⟨fun k hk => Nat.lt_succ_of_lt (hmade k hk), fun k hk => ?_⟩
  obtain rfl : g.made = k := Option.some.inj hk
  exact ⟨Nat.lt_succ_self _, fun hmem => Nat.lt_irrefl _ (hmade _ hmem)⟩

theorem Open.initializeLocked (h : g.Open) : g.initializeLocked.Open := by
  unfold XrayLifecycleGate.initializeLocked
  split
  · exact Open.makeChanged h.made
  · exact h

theorem initializeLocked_closed : g.initializeLocked.closed = g.closed := by
  unfold initializeLocked
  split <;> rfl

theorem initializeLocked_changed (h : g.changed ≠ none) : g.initializeLocked = g := if_neg h

theorem Open.notifyLocked (h : g.Open) : g.notifyLocked.Open := by
  apply Open.makeChanged
  intro k hk
  rcases List.mem_append.mp hk with hk | hk
  · exact (h.initializeLocked.current k (Option.mem_toList.mp hk)).1
  · exact h.initializeLocked.made k hk

theorem notifyLocked_closes {changed : Option ℕ} (hmade : changed ≠ none)
    (h : changed = g.changed ∨ g.isClosed changed = true) :
    g.notifyLocked.isClosed changed = true := by
  rw [isClosed_iff]
  show ∃ k, changed = some k ∧ k ∈ g.initializeLocked.changed.toList ++ g.initializeLocked.closed
  rcases h with rfl | h
  · obtain ⟨k, hk⟩ := Option.ne_none_iff_exists'.mp hmade
    rw [initializeLocked_changed hmade, hk]
    exact ⟨k, rfl, by simp⟩
  · obtain ⟨k, rfl, hk⟩ := isClosed_iff.mp h
    rw [initializeLocked_closed]
    exact ⟨k, rfl, List.mem_append_right _ hk⟩

end XrayLifecycleGate

/-! ### No call sleeps through its chance -/

/- The channel a call sleeps on is closed or still the current one, and as long
as it is open the call could not be admitted. -/
structure Guarded (g : XrayLifecycleGate) (call : Call) : Prop where
  made : call.position.role = .waiting → g.changed ≠ none
  start : ∀ changed, call.position = .startAsleep changed → changed ≠ none ∧
    (g.isClosed changed = true ∨ changed = g.changed ∧
      (call.canceled = false → g.mode = .exclusive ∨ 0 < g.waitingExclusive))
  exclusive : ∀ changed, call.position = .exclusiveAsleep changed → changed ≠ none ∧
    (g.isClosed changed = true ∨ changed = g.changed ∧ g.mode ≠ .idle)

variable {call : Call} {g g' : XrayLifecycleGate} {s : System} {canceled : Bool} {p' : Position}

theorem guarded_of_lease (h : call.position.role = .start ∨ call.position.role = .exclusive) :
    Guarded g call := by
  refine ⟨fun hp => ?_, fun changed hp => ?_, fun changed hp => ?_⟩
  · rw [hp] at h
    exact absurd h (by decide)
  · rw [hp] at h
    exact absurd h (by simp [Position.role])
  · rw [hp] at h
    exact absurd h (by simp [Position.role])

theorem guarded_of_outside
    (h : call.position = .startEnter ∨ call.position = .exclusiveEnter ∨
      call.position = .returned) :
    Guarded g call := by
  refine ⟨fun hp => ?_, fun changed hp => ?_, fun changed hp => ?_⟩
  · rcases h with h | h | h <;> rw [h] at hp <;> cases hp
  · rcases h with h | h | h <;> rw [h] at hp <;> cases hp
  · rcases h with h | h | h <;> rw [h] at hp <;> cases hp

theorem guarded_of_woken (hmade : g.changed ≠ none)
    (h : call.position = .exclusiveWoken ∨ call.position = .exclusiveCanceled) :
    Guarded g call := by
  refine ⟨fun _ => hmade, fun changed hp => ?_, fun changed hp => ?_⟩
  · rcases h with h | h <;> rw [h] at hp <;> cases hp
  · rcases h with h | h <;> rw [h] at hp <;> cases hp

theorem Guarded.notified (h : Guarded g call) (hchanged : g'.changed = g.changed)
    (hclosed : g'.closed = g.closed) :
    Guarded g'.notifyLocked call := by
  have hsame : ∀ changed, g'.isClosed changed = g.isClosed changed := by
    intro changed
    simp only [XrayLifecycleGate.isClosed, hclosed]
  refine ⟨fun _ => Option.some_ne_none _, fun changed hp => ?_, fun changed hp => ?_⟩
  · obtain ⟨hmade, hc⟩ := h.start changed hp
    refine ⟨hmade, .inl (XrayLifecycleGate.notifyLocked_closes hmade ?_)⟩
    rw [hsame, hchanged]
    exact hc.elim .inr fun hc => .inl hc.1
  · obtain ⟨hmade, hc⟩ := h.exclusive changed hp
    refine ⟨hmade, .inl (XrayLifecycleGate.notifyLocked_closes hmade ?_)⟩
    rw [hsame, hchanged]
    exact hc.elim .inr fun hc => .inl hc.1

theorem Guarded.kept (h : Guarded g call) (hchanged : g.changed ≠ none → g'.changed = g.changed)
    (hclosed : g'.closed = g.closed)
    (hstart : call.startAsleep g = true → g.mode = .exclusive ∨ 0 < g.waitingExclusive →
      g'.mode = .exclusive ∨ 0 < g'.waitingExclusive)
    (hexclusive : g.mode ≠ .idle → g'.mode ≠ .idle) : Guarded g' call := by
  have hsame : ∀ changed, g'.isClosed changed = g.isClosed changed := by
    intro changed
    simp only [XrayLifecycleGate.isClosed, hclosed]
  refine ⟨fun hp => ?_, fun changed hp => ?_, fun changed hp => ?_⟩
  · rw [hchanged (h.made hp)]
    exact h.made hp
  · obtain ⟨hmade, hc⟩ := h.start changed hp
    refine ⟨hmade, ?_⟩
    rw [hsame]
    cases hopen : g.isClosed changed with
    | true => exact .inl rfl
    | false =>
      obtain ⟨rfl, hrefused⟩ := hc.resolve_left (by simp [hopen])
      refine .inr ⟨(hchanged hmade).symm, fun hlive => hstart ?_ (hrefused hlive)⟩
      simp [Call.startAsleep, hp, hlive, hopen]
  · obtain ⟨hmade, hc⟩ := h.exclusive changed hp
    refine ⟨hmade, ?_⟩
    rw [hsame]
    rcases hc with hc | ⟨rfl, hbusy⟩
    · exact .inl hc
    · exact .inr ⟨(hchanged hmade).symm, hexclusive hbusy⟩

/- Every open channel that somebody sleeps on is the current one. -/
structure Vigilant (s : System) : Prop where
  channels : s.gate.Open
  guarded : ∀ call ∈ s.calls, Guarded s.gate call

structure Keeps (s : System) (g : XrayLifecycleGate) (call : Call) : Prop where
  channels : g.Open
  others : ∀ other ∈ s.calls, Guarded g other
  self : Guarded g call

theorem initializeLocked_made (g : XrayLifecycleGate) : g.initializeLocked.changed ≠ none := by
  unfold XrayLifecycleGate.initializeLocked
  split
  · exact Option.some_ne_none _
  · assumption

theorem Vigilant.initializeLocked (h : Vigilant s) {other : Call} (hmem : other ∈ s.calls) :
    Guarded s.gate.initializeLocked other := by
  apply (h.guarded other hmem).kept
  · exact fun hmade => by rw [XrayLifecycleGate.initializeLocked_changed hmade]
  · exact XrayLifecycleGate.initializeLocked_closed
  · intro _ hrefused
    rwa [s.gate.initializeLocked_mode, s.gate.initializeLocked_waitingExclusive]
  · rw [s.gate.initializeLocked_mode]
    exact id

theorem Guarded.refused (h : Guarded g call) (hchanged : g'.changed = g.changed)
    (hclosed : g'.closed = g.closed)
    (hstart : g.mode = .exclusive ∨ 0 < g.waitingExclusive →
      g'.mode = .exclusive ∨ 0 < g'.waitingExclusive)
    (hexclusive : g.mode ≠ .idle → g'.mode ≠ .idle) : Guarded g' call :=
  h.kept (fun _ => hchanged) hclosed (fun _ => hstart) hexclusive

theorem startRound_keeps (h : Vigilant s) (hc : Coherent s)
    (ht : startRound s.gate.initializeLocked = .next g' p') : Keeps s g' ⟨p', canceled⟩ := by
  have hwaiters : 0 ≤ s.gate.waitingExclusive := by
    rw [show s.gate.waitingExclusive = s.waiters from hc.tallied.waiting]
    exact Tally.tally_nonneg
  unfold startRound XrayLifecycleGate.admitStart at ht
  split at ht
  case h_1 admitted hadmit =>
    split at hadmit
    case isFalse => cases hadmit
    case isTrue hfree =>
      cases hadmit
      cases ht
      refine ⟨⟨h.channels.initializeLocked.made, h.channels.initializeLocked.current⟩, ?_,
        guarded_of_lease (.inl rfl)⟩
      intro other hmem
      refine Guarded.refused (h.initializeLocked hmem) rfl rfl ?_ ?_
      · intro hrefused
        rcases hrefused with hbusy | hbusy
        · rw [hbusy] at hfree
          exact absurd hfree.2 (by decide)
        · rw [hfree.1] at hbusy
          exact absurd hbusy (by decide)
      · intro _
        simp
  case h_2 hadmit =>
    split at hadmit
    case isTrue => cases hadmit
    case isFalse hrefused =>
      cases ht
      refine ⟨h.channels.initializeLocked, fun other hmem => h.initializeLocked hmem, ?_⟩
      refine ⟨fun hp => ?_, fun changed hp => ?_, fun changed hp => ?_⟩
      · cases hp
      · cases hp
        refine ⟨initializeLocked_made _, .inr ⟨rfl, fun _ => ?_⟩⟩
        rw [s.gate.initializeLocked_waitingExclusive, s.gate.initializeLocked_mode] at *
        by_cases hnone : s.gate.waitingExclusive = 0
        · left
          cases hmode : s.gate.mode with
          | exclusive => rfl
          | idle => exact absurd ⟨hnone, .inr hmode⟩ hrefused
          | starts => exact absurd ⟨hnone, .inl hmode⟩ hrefused
        · right
          omega
      · cases hp

theorem exclusiveRound_keeps (hopen : g.Open) (hothers : ∀ other ∈ s.calls, Guarded g other)
    (hmade : g.changed ≠ none) (ht : exclusiveRound g = .next g' p') :
    Keeps s g' ⟨p', canceled⟩ := by
  unfold exclusiveRound XrayLifecycleGate.admitExclusive at ht
  split at ht
  case h_1 admitted hadmit =>
    split at hadmit
    case isFalse => cases hadmit
    case isTrue hidle =>
      cases hadmit
      cases ht
      refine ⟨⟨hopen.made, hopen.current⟩, ?_, guarded_of_lease (.inr rfl)⟩
      intro other hmem
      refine Guarded.refused (hothers other hmem) rfl rfl ?_ ?_
      · exact fun _ => .inl rfl
      · intro _
        simp
  case h_2 hadmit =>
    split at hadmit
    case isTrue => cases hadmit
    case isFalse hbusy =>
      cases ht
      refine ⟨hopen, hothers, ⟨fun _ => hmade, fun changed hp => ?_, fun changed hp => ?_⟩⟩
      · cases hp
      · cases hp
        exact ⟨hmade, .inr ⟨rfl, hbusy⟩⟩

theorem announceExclusive_guarded (h : Vigilant s) :
    s.gate.announceExclusive.Open ∧ (∀ other ∈ s.calls, Guarded s.gate.announceExclusive other) ∧
      s.gate.announceExclusive.changed ≠ none := by
  refine ⟨⟨h.channels.initializeLocked.made, h.channels.initializeLocked.current⟩, ?_,
    initializeLocked_made s.gate⟩
  intro other hmem
  refine Guarded.refused (h.initializeLocked hmem) rfl rfl ?_ id
  · intro hrefused
    refine hrefused.imp id fun hbusy => ?_
    show 0 < s.gate.initializeLocked.waitingExclusive + 1
    omega

theorem released_keeps (h : Vigilant s) {base : XrayLifecycleGate}
    (ht : Turn.released (some base.notifyLocked) = .next g' p')
    (hchanged : base.changed = s.gate.changed) (hclosed : base.closed = s.gate.closed)
    (hmade : base.made = s.gate.made) : Keeps s g' ⟨p', canceled⟩ := by
  cases ht
  have hopen : base.Open := by
    refine ⟨?_, ?_⟩
    · rw [hclosed, hmade]
      exact h.channels.made
    · rw [hchanged, hclosed, hmade]
      exact h.channels.current
  exact ⟨hopen.notifyLocked, fun other hmem => (h.guarded other hmem).notified hchanged hclosed,
    guarded_of_outside (.inr (.inr rfl))⟩

theorem releaseStart_keeps (h : Vigilant s) (ht : Turn.released s.gate.releaseStart = .next g' p') :
    Keeps s g' ⟨p', canceled⟩ := by
  unfold XrayLifecycleGate.releaseStart at ht
  split at ht
  · cases ht
  · split at ht
    · exact released_keeps h ht rfl rfl rfl
    · cases ht
      refine ⟨⟨h.channels.made, h.channels.current⟩, ?_, guarded_of_outside (.inr (.inr rfl))⟩
      intro other hmem
      exact Guarded.refused (h.guarded other hmem) rfl rfl id id

theorem releaseExclusive_keeps (h : Vigilant s)
    (ht : Turn.released s.gate.releaseExclusive = .next g' p') :
    Keeps s g' ⟨p', canceled⟩ := by
  unfold XrayLifecycleGate.releaseExclusive at ht
  split at ht
  · cases ht
  · exact released_keeps h ht rfl rfl rfl

/- The exit that may forget to notify. -/
theorem abandonExclusive_keeps (h : Vigilant s) {i : ℕ} (hget : s.calls[i]? = some call)
    (hposition : call.position = .exclusiveCanceled)
    (hguard : ¬ AbandonsStarts s (.move i .advance)) (canceled : Bool) :
    Keeps s s.gate.abandonExclusive ⟨.returned, canceled⟩ := by
  unfold XrayLifecycleGate.abandonExclusive
  split
  · exact released_keeps h (rfl : Turn.released (some _) = _) rfl rfl rfl
  case isFalse hbusy =>
    refine ⟨⟨h.channels.made, h.channels.current⟩, ?_, guarded_of_outside (.inr (.inr rfl))⟩
    intro other hmem
    refine Guarded.kept (h.guarded other hmem) (fun _ => rfl) rfl ?_ id
    · intro hasleep hrefused
      by_cases hmode : s.gate.mode = .exclusive
      · exact .inl hmode
      · right
        show 0 < s.gate.waitingExclusive - 1
        have hwaiting := hrefused.resolve_left hmode
        by_contra hlast
        have hone : s.gate.waitingExclusive = 1 := by omega
        have hstarts : s.gate.mode = .starts := by
          cases hm : s.gate.mode with
          | idle => exact absurd ⟨hm, by omega⟩ hbusy
          | starts => rfl
          | exclusive => exact absurd hm hmode
        exact hguard ⟨⟨call, hget, hposition⟩, hstarts, hone, other, hmem, hasleep⟩

theorem turn_keeps (h : Vigilant s) (hc : Coherent s) {i : ℕ} {m : Move}
    (hget : s.calls[i]? = some call) (hguard : ¬ AbandonsStarts s (.move i m))
    (ht : turn s.gate call.canceled call.position m = some (.next g' p')) :
    Keeps s g' ⟨p', call.canceled⟩ := by
  have hself := h.guarded call (List.mem_of_getElem? hget)
  have hsame : ∀ p, Guarded s.gate ⟨p, call.canceled⟩ → Keeps s s.gate ⟨p, call.canceled⟩ :=
    fun p hp => ⟨h.channels, h.guarded, hp⟩
  generalize hp : call.position = p at ht
  unfold turn at ht
  split at ht
  case h_1 => exact startRound_keeps h hc (Option.some.inj ht)
  case h_2 =>
    split at ht <;> cases ht
    exact hsame _ (guarded_of_outside (.inl rfl))
  case h_3 =>
    split at ht <;> cases ht
    exact hsame _ (guarded_of_outside (.inr (.inr rfl)))
  case h_4 =>
    cases ht
    refine hsame _ (guarded_of_lease (.inl ?_))
    cases call.canceled <;> rfl
  case h_5 => exact releaseStart_keeps h (Option.some.inj ht)
  case h_6 => exact releaseStart_keeps h (Option.some.inj ht)
  case h_7 =>
    obtain ⟨hopen, hothers, hmade⟩ := announceExclusive_guarded h
    exact exclusiveRound_keeps hopen hothers hmade (Option.some.inj ht)
  case h_8 =>
    split at ht <;> cases ht
    exact hsame _ (guarded_of_woken (hself.made (by rw [hp]; rfl)) (.inl rfl))
  case h_9 =>
    split at ht <;> cases ht
    exact hsame _ (guarded_of_woken (hself.made (by rw [hp]; rfl)) (.inr rfl))
  case h_10 =>
    exact exclusiveRound_keeps h.channels h.guarded (hself.made (by rw [hp]; rfl))
      (Option.some.inj ht)
  case h_11 =>
    cases ht
    exact abandonExclusive_keeps h hget hp hguard call.canceled
  case h_12 =>
    cases ht
    refine hsame _ (guarded_of_lease (.inr ?_))
    cases call.canceled <;> rfl
  case h_13 => exact releaseExclusive_keeps h (Option.some.inj ht)
  case h_14 => exact releaseExclusive_keeps h (Option.some.inj ht)
  case h_15 => cases ht

theorem step_vigilant {s' : System} {e : Event} (h : Vigilant s) (hc : Coherent s)
    (hguard : ¬ AbandonsStarts s e) (hstep : step s e = some s') : Vigilant s' := by
  rcases step_cases hstep with ⟨position, henter, rfl⟩ | ⟨i, call, hget, rfl⟩ |
    ⟨i, call, m, t, rfl, hget, ht, rfl⟩
  · refine ⟨h.channels, fun other hmem => ?_⟩
    rcases List.mem_append.mp hmem with hmem | hmem
    · exact h.guarded other hmem
    · obtain rfl := List.mem_singleton.mp hmem
      exact guarded_of_outside (henter.imp id .inl)
  · refine ⟨h.channels, fun other hmem => ?_⟩
    rcases List.mem_or_eq_of_mem_set hmem with hmem | rfl
    · exact h.guarded other hmem
    · have hself := h.guarded call (List.mem_of_getElem? hget)
      refine ⟨hself.made, fun changed hp => ?_, hself.exclusive⟩
      obtain ⟨hmade, hchannel⟩ := hself.start changed hp
      exact ⟨hmade, hchannel.imp id fun hcurrent => ⟨hcurrent.1, nofun⟩⟩
  · cases t with
    | panicked => exact absurd ht (hc.tallied.not_panicked (List.mem_of_getElem? hget))
    | next gate position =>
      have hkeeps := turn_keeps h hc hget hguard ht
      refine ⟨hkeeps.channels, fun other hmem => ?_⟩
      rcases List.mem_or_eq_of_mem_set hmem with hmem | rfl
      · exact hkeeps.others other hmem
      · exact hkeeps.self

theorem vigilant_new : Vigilant System.new := by
  refine ⟨⟨?_, ?_⟩, ?_⟩
  · intro k hk
    cases hk
  · intro k hk
    cases hk
  · intro call hmem
    cases hmem

theorem Call.startAsleep_iff :
    call.startAsleep g = true ↔ ∃ changed, call.position = .startAsleep changed ∧
      call.canceled = false ∧ g.isClosed changed = false := by
  unfold Call.startAsleep
  cases call.position <;> simp

theorem Call.exclusiveAsleep_iff :
    call.exclusiveAsleep g = true ↔ ∃ changed, call.position = .exclusiveAsleep changed ∧
      call.canceled = false ∧ g.isClosed changed = false := by
  unfold Call.exclusiveAsleep
  cases call.position <;> simp

theorem Vigilant.not_missedStart (h : Vigilant s) : ¬ MissedStart s := by
  intro ⟨hmode, hwaiting, call, hmem, hasleep⟩
  obtain ⟨changed, hp, hlive, hopen⟩ := Call.startAsleep_iff.mp hasleep
  obtain ⟨-, hc⟩ := (h.guarded call hmem).start changed hp
  rcases hc with hc | ⟨-, hrefused⟩
  · rw [hopen] at hc
    cases hc
  · rcases hrefused hlive with hbusy | hbusy
    · rw [hbusy] at hmode
      exact absurd hmode (by decide)
    · omega

theorem Vigilant.not_missedExclusive (h : Vigilant s) : ¬ MissedExclusive s := by
  intro ⟨hmode, call, hmem, hasleep⟩
  obtain ⟨changed, hp, -, hopen⟩ := Call.exclusiveAsleep_iff.mp hasleep
  obtain ⟨-, hc⟩ := (h.guarded call hmem).exclusive changed hp
  rcases hc with hc | ⟨-, hbusy⟩
  · rw [hopen] at hc
    cases hc
  · exact hbusy hmode

/-- A run in which the last exclusive waiter never gives up while starts run and
another start sleeps behind it misses no wakeup. -/
theorem no_missed_wakeup {s : System}
    (h : Steps step (fun s e => ¬ AbandonsStarts s e) System.new s) :
    ¬ MissedStart s ∧ ¬ MissedExclusive s := by
  have hv : Vigilant s := h.invariant_of Coherent Vigilant (fun _ ha => reach_coherent ha)
    vigilant_new fun _ _ _ hc hv hguard hstep => step_vigilant hv hc hguard hstep
  exact ⟨hv.not_missedStart, hv.not_missedExclusive⟩

/- The exit gives the start behind it no notice: the wakeup is missed at once. -/
theorem missed_of_abandonsStarts {s' : System} {e : Event} (hstep : step s e = some s')
    (h : AbandonsStarts s e) : MissedStart s' := by
  unfold AbandonsStarts at h
  split at h
  case h_2 => exact h.elim
  case h_1 i =>
    obtain ⟨⟨call, hget, hposition⟩, hstarts, hone, sleeper, hmem, hasleep⟩ := h
    have hgate : s.gate.abandonExclusive =
        { s.gate with waitingExclusive := s.gate.waitingExclusive - 1 } := by
      unfold XrayLifecycleGate.abandonExclusive
      rw [if_neg]
      rw [hstarts]
      simp
    obtain rfl : { s with gate := s.gate.abandonExclusive,
                          calls := s.calls.set i ⟨.returned, call.canceled⟩ } = s' := by
      have hturn : step s (.move i .advance) = some _ :=
        Option.bind_eq_some_iff.mpr ⟨call, hget, by rw [hposition]; rfl⟩
      exact Option.some.inj (hturn.symm.trans hstep)
    rw [hgate]
    refine ⟨.inr hstarts, by show s.gate.waitingExclusive - 1 = 0; omega, sleeper, ?_, hasleep⟩
    obtain ⟨j, hj⟩ := List.mem_iff_getElem?.mp hmem
    have hne : i ≠ j := by
      intro heq
      have hsame : call = sleeper := Option.some.inj ((heq ▸ hget : s.calls[j]? = some call).symm.trans hj)
      rw [← hsame] at hasleep
      simp [Call.startAsleep, hposition] at hasleep
    refine List.mem_iff_getElem?.mpr ⟨j, ?_⟩
    show (s.calls.set i _)[j]? = some sleeper
    rw [List.getElem?_set_ne hne]
    exact hj

/- A start runs, an exclusive call waits for it and a second start for the
exclusive call, which is then canceled. -/
def canceledWaiter : List Event :=
  [.acquireStart, .move 0 .advance, .move 0 .advance, .acquireExclusive, .move 1 .advance,
    .acquireStart, .move 2 .advance, .cancel 1, .move 1 .done, .move 1 .advance]

theorem canceled_waiter_strands_start :
    ∃ s, Reach step System.new s ∧ MissedStart s ∧ s.gate.mode = .starts := by
  have hrun : ∃ s, run step System.new canceledWaiter = some s ∧ MissedStart s ∧
      s.gate.mode = .starts := ⟨_, rfl, by decide, rfl⟩
  obtain ⟨s, hs, hmissed⟩ := hrun
  exact ⟨s, run_reach canceledWaiter hs, hmissed⟩

/- The first start ends before the exclusive call is canceled. -/
def releasedFirst : List Event :=
  [.acquireStart, .move 0 .advance, .move 0 .advance, .acquireExclusive, .move 1 .advance,
    .acquireStart, .move 2 .advance, .move 0 .release, .cancel 1, .move 1 .done, .move 1 .advance]

theorem no_missed_wakeup_released :
    ∃ s, run (fun s e => if ¬ AbandonsStarts s e then step s e else none) System.new
      releasedFirst = some s ∧ s.calls.length = 3 ∧ ¬ MissedStart s ∧ ¬ MissedExclusive s := by
  refine ⟨_, rfl, rfl, ?_⟩
  exact no_missed_wakeup (run_steps releasedFirst rfl)

end RemnanodeLite.Httpserver
