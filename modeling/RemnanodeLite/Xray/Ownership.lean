import RemnanodeLite.Xray.Manager

/-! # Exclusive ownership of one live process

What the lifecycle lock is for, without program counters. Callers take turns as
owner; an owner first learns the current process, then makes sure that nothing
lives, and only then may bring a new process to life. A stopper may take the
operation away from a starter at any moment, after which the starter can only
hand over what it holds. Processes die at any moment. -/

namespace RemnanodeLite.Xray.Ownership

/- How far an owner of the lifecycle has got. -/
inductive Phase (P : Type) where
  | unread
  | holding (q : Option P)
  | drained (q : Option P)
  | detached (p : P)

/- A starter with its operation epoch, a starter that has seen that its epoch is
over, or a stopper. -/
inductive Kind where
  | start (e : ℕ)
  | lost (e : ℕ)
  | stop

inductive Role (P : Type) where
  | idle
  | waiting
  | owns (k : Kind) (ph : Phase P)

structure Model (T P : Type) where
  state : LifecycleState
  epoch : ℕ
  startCancel : Option T
  stopOp : Option T
  process : Option P
  owner : Option T
  live : Set P
  role : T → Role P

variable {T P : Type} [DecidableEq T]

/- Everything that lives is `q`. -/
def Covers (live : Set P) (q : Option P) : Prop := ∀ x ∈ live, q = some x

def Phase.Ok (process : Option P) (live : Set P) : Phase P → Prop
  | unread => Covers live process
  | holding q => process = q ∧ Covers live q
  | drained q => process = q ∧ live = ∅
  | detached p => process = none ∧ Covers live (some p)

/- A detached process has to be settled before ownership is given up. -/
def Phase.Settled : Phase P → Prop
  | detached _ => False
  | _ => True

namespace Model

def setRole (a : Model T P) (t : T) (r : Role P) : Model T P :=
  { a with role := Function.update a.role t r }

def released (a : Model T P) (t : T) (st : LifecycleState) (q : Option P) : Model T P :=
  { a.setRole t .idle with state := st, process := q, owner := none }

inductive Step (a : Model T P) : Model T P → Prop
  | begin (t : T) : a.role t = .idle → a.owner = none → a.state ≠ .starting →
      a.state ≠ .stopping → Step a { a.setRole t (.owns (.start (a.epoch + 1)) .unread) with
        state := .starting, epoch := a.epoch + 1, startCancel := some t, owner := some t }
  | read (t : T) (k : Kind) : a.role t = .owns k .unread →
      Step a (a.setRole t (.owns k (.holding a.process)))
  | drain (t : T) (k : Kind) (q : Option P) : a.role t = .owns k (.holding q) →
      (∀ p, q = some p → p ∉ a.live) → Step a (a.setRole t (.owns k (.drained q)))
  | drainDetached (t : T) (k : Kind) (p : P) : a.role t = .owns k (.detached p) → p ∉ a.live →
      Step a (a.setRole t (.owns k (.drained none)))
  | lose (t : T) (e : ℕ) (ph : Phase P) : a.role t = .owns (.start e) ph →
      (a.epoch ≠ e ∨ a.state ≠ .starting) → Step a (a.setRole t (.owns (.lost e) ph))
  | stage (t : T) (e : ℕ) (q : Option P) : a.role t = .owns (.start e) (.drained q) →
      Step a { a.setRole t (.owns (.start e) (.drained none)) with process := none }
  | spawn (t : T) (e : ℕ) (p : P) : a.role t = .owns (.start e) (.drained none) →
      Step a { a.setRole t (.owns (.start e) (.detached p)) with live := insert p a.live }
  | assign (t : T) (e : ℕ) (p : P) : a.role t = .owns (.start e) (.detached p) →
      Step a { a.setRole t (.owns (.start e) (.holding (some p))) with process := some p }
  | retain (t : T) (e : ℕ) (p : P) : a.role t = .owns (.lost e) (.detached p) →
      Step a { a.setRole t (.owns (.lost e) (.holding (some p))) with
        process := some p, state := .stopping }
  | handOver (t : T) (k : Kind) (e : ℕ) (ph : Phase P) : a.role t = .owns k ph → ph.Settled →
      (k = .start e ∨ k = .lost e) → a.epoch ≠ e → Step a { a.setRole t .idle with owner := none }
  | finish (t : T) (e : ℕ) (ph : Phase P) (st : LifecycleState) (q : Option P) :
      a.role t = .owns (.start e) ph → a.epoch = e → ph.Settled → st ≠ .starting →
      Covers a.live q → Step a { a.released t st q with startCancel := none }
  | finalize (p : P) : Step a { a with live := a.live \ {p} }
  | callback (st : LifecycleState) (q : Option P) : a.owner = none → a.stopOp = none →
      st ≠ .starting → Covers a.live q → Step a { a with state := st, process := q }
  | reserveWait (t : T) : a.role t = .idle → a.stopOp = none → a.owner ≠ none →
      Step a { a.setRole t .waiting with
        state := .stopping, epoch := a.epoch + 1, stopOp := some t, startCancel := none }
  | reserveOwn (t : T) : a.role t = .idle → a.stopOp = none → a.owner = none →
      Step a { a.setRole t (.owns .stop .unread) with
        state := .stopping, epoch := a.epoch + 1, stopOp := some t, owner := some t }
  | acquire (t : T) : a.role t = .waiting → a.owner = none →
      Step a { a.setRole t (.owns .stop .unread) with owner := some t }
  | publishStop (t : T) (ph : Phase P) (st : LifecycleState) (q : Option P) :
      a.role t = .owns .stop ph → ph.Settled → st ≠ .starting → Covers a.live q →
      Step a { a.released t st q with stopOp := none }

/- A starter either still has the operation or has lost it to a stopper. -/
def Holds (a : Model T P) (t : T) (e : ℕ) : Prop :=
  a.state = .starting ∧ a.epoch = e ∧ a.stopOp = none ∧ a.startCancel = some t

def Lost (a : Model T P) (e : ℕ) : Prop :=
  a.state = .stopping ∧ a.stopOp ≠ none ∧ e < a.epoch

structure Inv (a : Model T P) : Prop where
  owner_of_role : ∀ t k ph, a.role t = .owns k ph → a.owner = some t
  role_of_owner : ∀ t, a.owner = some t → ∃ k ph, a.role t = .owns k ph
  phase : ∀ t k ph, a.role t = .owns k ph → ph.Ok a.process a.live
  free : a.owner = none → Covers a.live a.process
  start : ∀ t e ph, a.role t = .owns (.start e) ph → a.Holds t e ∨ a.Lost e
  lost : ∀ t e ph, a.role t = .owns (.lost e) ph → a.Lost e
  stop_of_role : ∀ t, a.role t = .waiting ∨ (∃ ph, a.role t = .owns .stop ph) → a.stopOp = some t
  role_of_stop : ∀ t, a.stopOp = some t → a.role t = .waiting ∨ ∃ ph, a.role t = .owns .stop ph
  stopping : a.stopOp ≠ none → a.state = .stopping
  starting : a.state = .starting → a.owner ≠ none

/-! ### Every step keeps the invariant -/

variable {a b : Model T P} {t : T} {k : Kind} {ph ph' : Phase P}

@[simp] theorem setRole_role (a : Model T P) (t u : T) (r : Role P) :
    (a.setRole t r).role u = if u = t then r else a.role u := by
  simp only [setRole, Function.update_apply]

omit [DecidableEq T] in
theorem Inv.unique (h : a.Inv) {u : T} {k' : Kind} (ht : a.role t = .owns k ph)
    (hu : a.role u = .owns k' ph') : u = t := by
  have h1 := h.owner_of_role t k ph ht
  have h2 := h.owner_of_role u k' ph' hu
  exact Option.some.inj (h2.symm.trans h1)

/- The owner gets on with its work: no other role is touched, and the new phase
has to fit the new process and the new live set. -/
theorem Inv.move (h : a.Inv) (hr : a.role t = .owns k ph) (q : Option P) (l : Set P)
    (hok : ph'.Ok q l) :
    Inv { a.setRole t (.owns k ph') with process := q, live := l } := by
  have howner := h.owner_of_role t k ph hr
  have hother : ∀ u k' ph'', (a.setRole t (.owns k ph')).role u = .owns k' ph'' →
      ∃ ph₀, a.role u = .owns k' ph₀ := by
    intro u k' ph'' hu
    rcases eq_or_ne u t with rfl | hne
    · simp only [setRole_role, if_true, Role.owns.injEq] at hu
      exact ⟨ph, hu.1 ▸ hr⟩
    · exact ⟨ph'', by simpa only [setRole_role, if_neg hne] using hu⟩
  refine ⟨?_, ?_, ?_, ?_, ?_, ?_, ?_, ?_, h.stopping, h.starting⟩
  · intro u k' ph'' hu
    obtain ⟨ph₀, h₀⟩ := hother u k' ph'' hu
    exact h.owner_of_role u k' ph₀ h₀
  · intro u hu
    obtain ⟨k', ph₀, h₀⟩ := h.role_of_owner u hu
    obtain rfl := h.unique hr h₀
    exact ⟨k, ph', by simp⟩
  · intro u k' ph'' hu
    obtain ⟨ph₀, h₀⟩ := hother u k' ph'' hu
    obtain rfl := h.unique hr h₀
    simp only [setRole_role, if_true, Role.owns.injEq] at hu
    exact hu.2 ▸ hok
  · intro hnone
    rw [show a.owner = none from hnone] at howner
    cases howner
  · intro u e ph'' hu
    obtain ⟨ph₀, h₀⟩ := hother u _ ph'' hu
    exact h.start u e ph₀ h₀
  · intro u e ph'' hu
    obtain ⟨ph₀, h₀⟩ := hother u _ ph'' hu
    exact h.lost u e ph₀ h₀
  · rintro u (hu | ⟨ph'', hu⟩)
    · refine h.stop_of_role u (.inl ?_)
      rcases eq_or_ne u t with rfl | hne
      · simp at hu
      · simpa only [setRole_role, if_neg hne] using hu
    · obtain ⟨ph₀, h₀⟩ := hother u _ ph'' hu
      exact h.stop_of_role u (.inr ⟨ph₀, h₀⟩)
  · intro u hu
    rcases eq_or_ne u t with rfl | hne
    · rcases h.role_of_stop u hu with hw | ⟨ph₀, h₀⟩
      · rw [hr] at hw
        cases hw
      · rw [hr] at h₀
        cases h₀
        exact .inr ⟨ph', by simp⟩
    · simpa only [setRole_role, if_neg hne] using h.role_of_stop u hu

omit [DecidableEq T] in
theorem Inv.covers (h : a.Inv) (hr : a.role t = .owns k ph) (hset : ph.Settled) :
    Covers a.live a.process := by
  have hok := h.phase t k ph hr
  cases ph with
  | unread => exact hok
  | holding q => exact hok.1 ▸ hok.2
  | drained q => exact fun x hx => absurd hx (by simp [hok.2])
  | detached p => exact hset.elim

omit [DecidableEq T] in
theorem Inv.owner_eq_none (h : a.Inv) (hst : a.state ≠ .starting) (hop : a.stopOp = none) :
    a.owner = none := by
  by_contra ho
  obtain ⟨u, hu⟩ := Option.ne_none_iff_exists'.mp ho
  obtain ⟨k', ph₀, hr⟩ := h.role_of_owner u hu
  cases k' with
  | start e =>
    rcases h.start u e ph₀ hr with hh | hl
    · exact hst hh.1
    · exact hl.2.1 hop
  | lost e => exact (h.lost u e ph₀ hr).2.1 hop
  | stop =>
    have := h.stop_of_role u (.inr ⟨ph₀, hr⟩)
    rw [hop] at this
    cases this

theorem Inv.release (h : a.Inv) (hr : a.role t = .owns k ph) (q : Option P)
    (hc : Covers a.live q) (b : Model T P) (hrole : b.role = Function.update a.role t .idle)
    (howner : b.owner = none) (hproc : b.process = q) (hlive : b.live = a.live)
    (hstop : ∀ u, b.stopOp = some u ↔ a.stopOp = some u ∧ u ≠ t)
    (hstopping : b.stopOp ≠ none → b.state = .stopping) (hstarting : b.state ≠ .starting) :
    b.Inv := by
  have hidle : ∀ u k' ph'', b.role u ≠ .owns k' ph'' := by
    intro u k' ph'' hu
    rw [hrole, Function.update_apply] at hu
    split_ifs at hu with hut
    exact hut (h.unique hr hu)
  refine ⟨?_, ?_, ?_, ?_, ?_, ?_, ?_, ?_, hstopping, fun hs => absurd hs hstarting⟩
  · intro u k' ph'' hu
    exact absurd hu (hidle u k' ph'')
  · intro u hu
    rw [howner] at hu
    cases hu
  · intro u k' ph'' hu
    exact absurd hu (hidle u k' ph'')
  · intro _
    rw [hlive, hproc]
    exact hc
  · intro u e ph'' hu
    exact absurd hu (hidle u _ ph'')
  · intro u e ph'' hu
    exact absurd hu (hidle u _ ph'')
  · rintro u (hu | ⟨ph'', hu⟩)
    · rw [hrole, Function.update_apply] at hu
      split_ifs at hu with hut
      exact (hstop u).mpr ⟨h.stop_of_role u (.inl hu), hut⟩
    · exact absurd hu (hidle u _ ph'')
  · intro u hu
    obtain ⟨hu, hut⟩ := (hstop u).mp hu
    rcases h.role_of_stop u hu with hw | ⟨ph₀, h₀⟩
    · left
      rw [hrole, Function.update_of_ne hut, hw]
    · exact absurd (h.unique hr h₀) hut

theorem Inv.take (h : a.Inv) (hfree : a.owner = none) (hwait : ∀ u, a.stopOp = some u → u = t)
    (b : Model T P) (hrole : b.role = Function.update a.role t (.owns k .unread))
    (howner : b.owner = some t) (hproc : b.process = a.process) (hlive : b.live = a.live)
    (hstate : b.state = .stopping ∧ k = .stop ∧ b.stopOp = some t ∨
      ∃ e, k = .start e ∧ b.Holds t e) : b.Inv := by
  have hself : b.role t = .owns k .unread := by rw [hrole, Function.update_self]
  have honly : ∀ u k' ph', b.role u = .owns k' ph' → u = t ∧ k' = k ∧ ph' = .unread := by
    intro u k' ph' hu
    rcases eq_or_ne u t with rfl | hne
    · rw [hself] at hu
      cases hu
      exact ⟨rfl, rfl, rfl⟩
    · rw [hrole, Function.update_of_ne hne] at hu
      have := h.owner_of_role u k' ph' hu
      rw [hfree] at this
      cases this
  refine ⟨?_, ?_, ?_, ?_, ?_, ?_, ?_, ?_, ?_, ?_⟩
  · intro u k' ph' hu
    rw [howner, (honly u k' ph' hu).1]
  · intro u hu
    rw [howner] at hu
    cases hu
    exact ⟨k, .unread, hself⟩
  · intro u k' ph' hu
    obtain ⟨rfl, rfl, rfl⟩ := honly u k' ph' hu
    rw [hproc, hlive]
    exact h.free hfree
  · intro hnone
    rw [howner] at hnone
    cases hnone
  · intro u e ph' hu
    obtain ⟨rfl, hk, -⟩ := honly u _ ph' hu
    rcases hstate with ⟨-, hk', -⟩ | ⟨e', hk', hh⟩
    · rw [hk'] at hk
      cases hk
    · rw [hk'] at hk
      cases hk
      exact .inl hh
  · intro u e ph' hu
    obtain ⟨rfl, hk, -⟩ := honly u _ ph' hu
    rcases hstate with ⟨-, hk', -⟩ | ⟨e', hk', -⟩ <;> (rw [hk'] at hk; cases hk)
  · rintro u (hu | ⟨ph', hu⟩)
    · rcases eq_or_ne u t with rfl | hne
      · rw [hself] at hu
        cases hu
      · rw [hrole, Function.update_of_ne hne] at hu
        exact absurd (hwait u (h.stop_of_role u (.inl hu))) hne
    · obtain ⟨rfl, hk, -⟩ := honly u _ ph' hu
      rcases hstate with ⟨-, -, hop⟩ | ⟨e', hk', -⟩
      · exact hop
      · rw [hk'] at hk
        cases hk
  · intro u hu
    rcases hstate with ⟨-, hk, hop⟩ | ⟨e', -, hh⟩
    · rw [hop] at hu
      cases hu
      exact .inr ⟨.unread, hk ▸ hself⟩
    · rw [hh.2.2.1] at hu
      cases hu
  · intro hop
    rcases hstate with ⟨hs, -, -⟩ | ⟨e', -, hh⟩
    · exact hs
    · exact absurd hh.2.2.1 hop
  · intro _
    rw [howner]
    exact Option.some_ne_none t

/- A starter that finds its epoch gone can only have lost it to a stopper. -/
theorem Inv.lose (h : a.Inv) {e : ℕ} (hr : a.role t = .owns (.start e) ph)
    (hne : a.epoch ≠ e ∨ a.state ≠ .starting) : (a.setRole t (.owns (.lost e) ph)).Inv := by
  have hlost : a.Lost e := by
    rcases h.start t e ph hr with hh | hl
    · rcases hne with hne | hne
      · exact absurd hh.2.1 hne
      · exact absurd hh.1 hne
    · exact hl
  have hback : ∀ u k' ph', (a.setRole t (.owns (.lost e) ph)).role u = .owns k' ph' →
      u ≠ t ∧ a.role u = .owns k' ph' ∨ u = t ∧ k' = .lost e ∧ ph' = ph := by
    intro u k' ph' hu
    rcases eq_or_ne u t with rfl | hut
    · simp only [setRole_role, if_true, Role.owns.injEq] at hu
      exact .inr ⟨rfl, hu.1.symm, hu.2.symm⟩
    · exact .inl ⟨hut, by simpa only [setRole_role, if_neg hut] using hu⟩
  refine ⟨?_, ?_, ?_, h.free, ?_, ?_, ?_, ?_, h.stopping, h.starting⟩
  · intro u k' ph' hu
    rcases hback u k' ph' hu with ⟨-, h₀⟩ | ⟨rfl, -, -⟩
    · exact h.owner_of_role u k' ph' h₀
    · exact h.owner_of_role u _ _ hr
  · intro u hu
    obtain ⟨k', ph', h₀⟩ := h.role_of_owner u hu
    obtain rfl := h.unique hr h₀
    exact ⟨.lost e, ph, by simp⟩
  · intro u k' ph' hu
    rcases hback u k' ph' hu with ⟨-, h₀⟩ | ⟨-, -, rfl⟩
    · exact h.phase u k' ph' h₀
    · exact h.phase t _ _ hr
  · intro u e' ph' hu
    rcases hback u _ ph' hu with ⟨-, h₀⟩ | ⟨-, hk, -⟩
    · exact h.start u e' ph' h₀
    · cases hk
  · intro u e' ph' hu
    rcases hback u _ ph' hu with ⟨-, h₀⟩ | ⟨-, hk, -⟩
    · exact h.lost u e' ph' h₀
    · cases hk
      exact hlost
  · rintro u (hu | ⟨ph', hu⟩)
    · refine h.stop_of_role u (.inl ?_)
      rcases eq_or_ne u t with rfl | hut
      · simp at hu
      · simpa only [setRole_role, if_neg hut] using hu
    · rcases hback u _ ph' hu with ⟨-, h₀⟩ | ⟨-, hk, -⟩
      · exact h.stop_of_role u (.inr ⟨ph', h₀⟩)
      · cases hk
  · intro u hu
    rcases eq_or_ne u t with rfl | hut
    · rcases h.role_of_stop u hu with hw | ⟨ph₀, h₀⟩
      · rw [hr] at hw
        cases hw
      · rw [hr] at h₀
        cases h₀
    · simpa only [setRole_role, if_neg hut] using h.role_of_stop u hu

/- A stopper announces itself while a starter owns the lifecycle: the starter has
lost its epoch from here on. -/
theorem Inv.reserveWait (h : a.Inv) (hr : a.role t = .idle) (hop : a.stopOp = none)
    (ho : a.owner ≠ none) : Inv { a.setRole t .waiting with
      state := .stopping, epoch := a.epoch + 1, stopOp := some t, startCancel := none } := by
  have hkeep : ∀ u k' ph', (a.setRole t .waiting).role u = .owns k' ph' →
      u ≠ t ∧ a.role u = .owns k' ph' := by
    intro u k' ph' hu
    rcases eq_or_ne u t with rfl | hut
    · simp at hu
    · exact ⟨hut, by simpa only [setRole_role, if_neg hut] using hu⟩
  refine ⟨?_, ?_, ?_, ?_, ?_, ?_, ?_, ?_, fun _ => rfl, ?_⟩
  · intro u k' ph' hu
    exact h.owner_of_role u k' ph' (hkeep u k' ph' hu).2
  · intro u hu
    obtain ⟨k', ph', h₀⟩ := h.role_of_owner u hu
    have hut : u ≠ t := by
      rintro rfl
      rw [hr] at h₀
      cases h₀
    exact ⟨k', ph', by simpa only [setRole_role, if_neg hut] using h₀⟩
  · intro u k' ph' hu
    exact h.phase u k' ph' (hkeep u k' ph' hu).2
  · intro hnone
    exact absurd hnone ho
  · intro u e ph' hu
    right
    refine ⟨rfl, Option.some_ne_none t, ?_⟩
    rcases h.start u e ph' (hkeep u _ ph' hu).2 with hh | hl
    · exact Nat.lt_succ_of_le hh.2.1.ge
    · exact absurd hop hl.2.1
  · intro u e ph' hu
    exact absurd hop (h.lost u e ph' (hkeep u _ ph' hu).2).2.1
  · rintro u (hu | ⟨ph', hu⟩)
    · rcases eq_or_ne u t with rfl | hut
      · rfl
      · have hw : a.role u = .waiting := by simpa only [setRole_role, if_neg hut] using hu
        have := h.stop_of_role u (.inl hw)
        rw [hop] at this
        cases this
    · have := h.stop_of_role u (.inr ⟨ph', (hkeep u _ ph' hu).2⟩)
      rw [hop] at this
      cases this
  · intro u hu
    cases hu
    exact .inl (by simp)
  · intro hs
    cases hs

/- Without an owner and without a stopper only the state and the process matter. -/
omit [DecidableEq T] in
theorem Inv.republish (h : a.Inv) (ho : a.owner = none) (hop : a.stopOp = none)
    (st : LifecycleState) (q : Option P) (hst : st ≠ .starting) (hc : Covers a.live q) :
    Inv { a with state := st, process := q } := by
  have hnone : ∀ u k' ph', a.role u ≠ .owns k' ph' := by
    intro u k' ph' hu
    have := h.owner_of_role u k' ph' hu
    rw [ho] at this
    cases this
  exact ⟨fun u k' ph' hu => absurd hu (hnone u k' ph'), h.role_of_owner,
    fun u k' ph' hu => absurd hu (hnone u k' ph'), fun _ => hc,
    fun u e ph' hu => absurd hu (hnone u _ ph'), fun u e ph' hu => absurd hu (hnone u _ ph'),
    h.stop_of_role, h.role_of_stop, fun h' => absurd hop h', fun h' => absurd h' hst⟩

theorem covers_mono {live live' : Set P} {q : Option P} (hsub : live' ⊆ live)
    (h : Covers live q) : Covers live' q := fun x hx => h x (hsub hx)

omit [DecidableEq T] in
theorem Inv.finalize (h : a.Inv) (p : P) : Inv { a with live := a.live \ {p} } := by
  have hsub : a.live \ {p} ⊆ a.live := Set.sdiff_subset
  refine ⟨h.owner_of_role, h.role_of_owner, ?_, fun ho => covers_mono hsub (h.free ho), h.start, h.lost,
    h.stop_of_role, h.role_of_stop, h.stopping, h.starting⟩
  intro u k' ph' hu
  have hok := h.phase u k' ph' hu
  cases ph' with
  | unread => exact covers_mono hsub hok
  | holding q => exact ⟨hok.1, covers_mono hsub hok.2⟩
  | drained q => exact ⟨hok.1, Set.subset_eq_empty hsub hok.2⟩
  | detached p' => exact ⟨hok.1, covers_mono hsub hok.2⟩

theorem eq_empty_of_covers {live : Set P} {q : Option P} (hc : Covers live q)
    (hq : ∀ p, q = some p → p ∉ live) : live = ∅ :=
  Set.eq_empty_of_forall_notMem fun x hx => hq x (hc x hx) hx

theorem Step.inv (h : a.Inv) (hs : Step a b) : b.Inv := by
  cases hs with
  | begin t hr ho hns hnp =>
    have hop : a.stopOp = none := by
      by_contra hop
      exact hnp (h.stopping hop)
    exact h.take ho (by simp [hop]) _ rfl rfl rfl rfl (.inr ⟨_, rfl, rfl, rfl, hop, rfl⟩)
  | read t k hr => exact h.move hr a.process a.live ⟨rfl, h.phase t k _ hr⟩
  | drain t k q hr hq =>
    have hok := h.phase t k _ hr
    exact h.move hr a.process a.live ⟨hok.1, eq_empty_of_covers hok.2 hq⟩
  | drainDetached t k p hr hp =>
    have hok := h.phase t k _ hr
    refine h.move hr a.process a.live ⟨hok.1, eq_empty_of_covers hok.2 ?_⟩
    rintro x hx
    cases hx
    exact hp
  | lose t e ph hr hne => exact h.lose hr hne
  | stage t e q hr => exact h.move hr none a.live ⟨rfl, (h.phase t _ _ hr).2⟩
  | spawn t e p hr =>
    have hok := h.phase t _ _ hr
    refine h.move hr a.process (insert p a.live) ⟨hok.1, ?_⟩
    rintro x (rfl | hx)
    · rfl
    · rw [hok.2] at hx
      exact hx.elim
  | assign t e p hr => exact h.move hr (some p) a.live ⟨rfl, (h.phase t _ _ hr).2⟩
  | retain t e p hr =>
    have hst : a.state = .stopping := (h.lost t e _ hr).1
    have hok : (Phase.holding (some p)).Ok (some p) a.live := ⟨rfl, (h.phase t _ _ hr).2⟩
    have hb := h.move hr (some p) a.live hok
    rw [← hst]
    exact hb
  | handOver t k e ph hr hset hk hne =>
    have hlost : a.Lost e := by
      rcases hk with rfl | rfl
      · rcases h.start t e ph hr with hh | hl
        · exact absurd hh.2.1 hne
        · exact hl
      · exact h.lost t e ph hr
    have hstop : ∀ u, a.stopOp = some u → u ≠ t := by
      rintro u hu rfl
      rcases h.role_of_stop u hu with hw | ⟨ph₀, h₀⟩
      · rw [hr] at hw
        cases hw
      · rw [hr] at h₀
        rcases hk with rfl | rfl <;> cases h₀
    refine h.release hr a.process (h.covers hr hset) _ rfl rfl rfl rfl
      ?_ h.stopping ?_
    · exact fun u => ⟨fun hu => ⟨hu, hstop u hu⟩, And.left⟩
    · show a.state ≠ .starting
      rw [hlost.1]
      exact LifecycleState.noConfusion
  | finish t e ph st q hr he hset hst hc =>
    have hop : a.stopOp = none := by
      rcases h.start t e ph hr with hh | hl
      · exact hh.2.2.1
      · exact absurd he.symm hl.2.2.ne
    refine h.release hr q hc _ rfl rfl rfl rfl ?_ (absurd hop) hst
    intro u
    simp [released, setRole, hop]
  | finalize p => exact h.finalize p
  | callback st q ho hop hst hc => exact h.republish ho hop st q hst hc
  | reserveWait t hr hop ho => exact h.reserveWait hr hop ho
  | reserveOwn t hr hop ho =>
    exact h.take ho (by simp [hop]) _ rfl rfl rfl rfl (.inl ⟨rfl, rfl, rfl⟩)
  | acquire t hr ho =>
    have hop := h.stop_of_role t (.inl hr)
    refine h.take ho ?_ _ rfl rfl rfl rfl (.inl ⟨h.stopping (by simp [hop]), rfl, hop⟩)
    intro u hu
    rw [hop] at hu
    exact (Option.some.inj hu).symm
  | publishStop t ph st q hr hset hst hc =>
    have hop := h.stop_of_role t (.inr ⟨ph, hr⟩)
    refine h.release hr q hc _ rfl rfl rfl rfl ?_ (fun hn => absurd rfl hn) hst
    intro u
    simp [hop, eq_comm]

end Model
end RemnanodeLite.Xray.Ownership
