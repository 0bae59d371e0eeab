import Mathlib.Logic.Relation
import Mathlib.Tactic.Common

/-! # Event-driven transition systems

A system is an executable `step : σ → ε → Option σ`: an event either cannot
happen in a state or leads to exactly one state, and all nondeterminism sits in
the event. Runs may carry a guard on every step. -/

namespace Transition
variable {σ τ ε : Type*} {step : σ → ε → Option σ} {guard : σ → ε → Prop} {s t : σ}

/-- `Steps step guard s t`: some run leads from `s` to `t` in which every step
is taken in a state and by an event that meet `guard`. -/
inductive Steps (step : σ → ε → Option σ) (guard : σ → ε → Prop) (s : σ) : σ → Prop
  | refl : Steps step guard s s
  | tail {b c : σ} (e : ε) : Steps step guard s b → guard b e → step b e = some c →
      Steps step guard s c

/-- Reachability without a guard. -/
abbrev Reach (step : σ → ε → Option σ) : σ → σ → Prop := Steps step fun _ _ => True

theorem Steps.trans {u : σ} (h : Steps step guard s t) (h' : Steps step guard t u) :
    Steps step guard s u := by
  induction h' with
  | refl => exact h
  | tail e _ hg he ih => exact ih.tail e hg he

theorem Steps.mono {guard' : σ → ε → Prop} (hg : ∀ a e, guard a e → guard' a e)
    (h : Steps step guard s t) : Steps step guard' s t := by
  induction h with
  | refl => exact .refl
  | tail e _ hge he ih => exact ih.tail e (hg _ _ hge) he

theorem Steps.reach (h : Steps step guard s t) : Reach step s t :=
  h.mono fun _ _ _ => trivial

/- The induction behind every safety result: what holds at the start and is kept
by each guarded step holds in every state of the run. -/
theorem Steps.invariant (inv : σ → Prop) (h : Steps step guard s t) (h0 : inv s)
    (hstep : ∀ a e b, inv a → guard a e → step a e = some b → inv b) : inv t := by
  induction h with
  | refl => exact h0
  | tail e _ hg he ih => exact hstep _ e _ ih hg he

/- The same rule when another invariant `base` of all runs is already known. -/
theorem Steps.invariant_of (base inv : σ → Prop) (h : Steps step guard s t)
    (hbase : ∀ a, Reach step s a → base a) (h0 : inv s)
    (hstep : ∀ a e b, base a → inv a → guard a e → step a e = some b → inv b) : inv t := by
  induction h with
  | refl => exact h0
  | tail e hr hg he ih => exact hstep _ e _ (hbase _ hr.reach) ih hg he

/- A run is a path of the abstract relation when each step stays or moves along it. -/
theorem Steps.simulate (abs : σ → τ) (rel : τ → τ → Prop) (base : σ → Prop)
    (h : Steps step guard s t) (hbase : ∀ a, Reach step s a → base a)
    (hsim : ∀ a e b, base a → step a e = some b → abs b = abs a ∨ rel (abs a) (abs b)) :
    Relation.ReflTransGen rel (abs s) (abs t) := by
  induction h with
  | refl => exact .refl
  | @tail b c e hr _ he ih =>
    rcases hsim b e c (hbase b hr.reach) he with heq | hrel
    · rwa [heq]
    · exact ih.tail hrel

/-- Runs of a given list of events. -/
def run (step : σ → ε → Option σ) : σ → List ε → Option σ
  | s, [] => some s
  | s, e :: es => (step s e).bind fun s' => run step s' es

theorem run_guarded (es : List ε) (hguard : ∀ e ∈ es, ∀ a, guard a e) (h : run step s es = some t) :
    Steps step guard s t := by
  induction es generalizing s with
  | nil =>
    cases h
    exact .refl
  | cons e es ih =>
    obtain ⟨b, hb, hrest⟩ := Option.bind_eq_some_iff.mp h
    have hfirst := Steps.refl.tail e (hguard e List.mem_cons_self s) hb
    exact hfirst.trans (ih (fun e' he' => hguard e' (List.mem_cons_of_mem _ he')) hrest)

theorem run_reach (es : List ε) (h : run step s es = some t) : Reach step s t :=
  run_guarded es (fun _ _ _ => trivial) h

theorem run_steps [∀ a e, Decidable (guard a e)] (es : List ε)
    (h : run (fun a e => if guard a e then step a e else none) s es = some t) :
    Steps step guard s t := by
  induction es generalizing s with
  | nil =>
    cases h
    exact .refl
  | cons e es ih =>
    obtain ⟨b, hb, hrest⟩ := Option.bind_eq_some_iff.mp h
    dsimp only at hb
    by_cases hg : guard s e
    · rw [if_pos hg] at hb
      exact (Steps.refl.tail e hg hb).trans (ih hrest)
    · rw [if_neg hg] at hb
      cases hb

end Transition
