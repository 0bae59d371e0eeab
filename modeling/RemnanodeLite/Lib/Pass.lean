import Mathlib.Algebra.Order.Ring.Int

/-! # Loops that a body may leave

`for _, x := range xs { … return … }` over an explicit state. A body ends its
pass with `next` or leaves the function that contains the loop with `stop`. -/

inductive Pass (σ : Type*) where
  | next (s : σ)
  | stop (s : σ)

namespace Pass
variable {σ α : Type*} {body : α → σ → Pass σ} {s t : σ}

def state : Pass σ → σ
  | next s => s
  | stop s => s

@[simp] theorem state_next (s : σ) : (next s).state = s := rfl

@[simp] theorem state_stop (s : σ) : (stop s).state = s := rfl

def bind (f : Pass σ) (k : σ → Pass σ) : Pass σ :=
  match f with
  | next s => k s
  | stop s => stop s

theorem bind_eq_next {f : Pass σ} {k : σ → Pass σ} (h : f.bind k = next t) :
    ∃ s, f = next s ∧ k s = next t := by
  cases f with
  | next s => exact ⟨s, rfl, h⟩
  | stop s => cases h

def forEach (body : α → σ → Pass σ) : List α → σ → Pass σ
  | [], s => next s
  | x :: xs, s => (body x s).bind (forEach body xs)

/-- The elements whose pass is begun, each with the state it begins in. -/
def visits (body : α → σ → Pass σ) : List α → σ → List (α × σ)
  | [], _ => []
  | x :: xs, s =>
    (x, s) :: match body x s with
      | next s' => visits body xs s'
      | stop _ => []

/- What every begun pass keeps holds when the loop is over, however it ends. -/
theorem forEach_invariant (inv : σ → Prop) (xs : List α) (h0 : inv s)
    (hbody : ∀ p ∈ visits body xs s, inv p.2 → inv (body p.1 p.2).state) :
    inv (forEach body xs s).state := by
  induction xs generalizing s with
  | nil => exact h0
  | cons x xs ih =>
    have hx : inv (body x s).state := hbody (x, s) (by simp [visits]) h0
    simp only [forEach]
    cases hb : body x s with
    | stop s' => simpa only [bind, hb] using hx
    | next s' =>
      simp only [hb, state] at hx
      refine ih hx fun p hp => hbody p ?_
      simp only [visits, hb, List.mem_cons]
      exact Or.inr hp

theorem mem_of_visits {xs : List α} {p : α × σ} (h : p ∈ visits body xs s) : p.1 ∈ xs := by
  induction xs generalizing s with
  | nil => simp [visits] at h
  | cons x xs ih =>
    simp only [visits, List.mem_cons] at h
    rcases h with rfl | h
    · exact List.mem_cons_self
    · cases hb : body x s with
      | stop s' => simp [hb] at h
      | next s' => exact List.mem_cons_of_mem _ (ih (by simpa only [hb] using h))

theorem forEach_keeps (inv : σ → Prop) (xs : List α) (h0 : inv s)
    (hbody : ∀ x ∈ xs, ∀ a, inv a → inv (body x a).state) :
    inv (forEach body xs s).state :=
  forEach_invariant inv xs h0 fun p hp => hbody p.1 (mem_of_visits hp) p.2

/- A preorder that contains every pass contains the loop. -/
theorem forEach_rel (rel : σ → σ → Prop) [IsPreorder σ rel] (xs : List α)
    (hbody : ∀ x ∈ xs, ∀ a, rel a (body x a).state) (s : σ) :
    rel s (forEach body xs s).state :=
  forEach_keeps (rel s) xs (refl s) fun x hx a ha => IsTrans.trans s a _ ha (hbody x hx a)

theorem forEach_stop (left : σ → Prop) (xs : List α) (h : forEach body xs s = stop t)
    (hstop : ∀ x ∈ xs, ∀ a b, body x a = stop b → left b) : left t := by
  induction xs generalizing s with
  | nil => simp [forEach] at h
  | cons x xs ih =>
    simp only [forEach] at h
    cases hb : body x s with
    | stop s' =>
      simp only [hb, bind, stop.injEq] at h
      exact h ▸ hstop x List.mem_cons_self s s' hb
    | next s' =>
      simp only [hb, bind] at h
      exact ih h fun y hy => hstop y (List.mem_cons_of_mem _ hy)

/- A loop that is not left is a chain of passes that are not left. -/
theorem forEach_next_keeps (inv : σ → Prop) (xs : List α) (h : forEach body xs s = next t)
    (hkeep : ∀ x ∈ xs, ∀ a b, body x a = next b → inv a → inv b) (h0 : inv s) : inv t := by
  induction xs generalizing s with
  | nil =>
    cases h
    exact h0
  | cons x xs ih =>
    simp only [forEach] at h
    cases hb : body x s with
    | stop s' => simp [hb, bind] at h
    | next s' =>
      simp only [hb, bind] at h
      exact ih h (fun y hy => hkeep y (List.mem_cons_of_mem _ hy))
        (hkeep x List.mem_cons_self s s' hb h0)

/- So what a pass establishes for its element stays if later passes keep it. -/
theorem forEach_next (post : α → σ → Prop) (xs : List α) (h : forEach body xs s = next t)
    (hnext : ∀ x ∈ xs, ∀ a b, body x a = next b → post x b)
    (hkeep : ∀ x ∈ xs, ∀ a b, body x a = next b → ∀ y, post y a → post y b) :
    ∀ x ∈ xs, post x t := by
  induction xs generalizing s with
  | nil => simp
  | cons x xs ih =>
    simp only [forEach] at h
    cases hb : body x s with
    | stop s' => simp [hb, bind] at h
    | next s' =>
      simp only [hb, bind] at h
      have hx : post x t := forEach_next_keeps (post x) xs h
        (fun y hy a b hab => hkeep y (List.mem_cons_of_mem _ hy) a b hab x)
        (hnext x List.mem_cons_self s s' hb)
      have hrest := ih h (fun y hy => hnext y (List.mem_cons_of_mem _ hy))
        fun y hy => hkeep y (List.mem_cons_of_mem _ hy)
      exact List.forall_mem_cons.mpr ⟨hx, hrest⟩

end Pass
