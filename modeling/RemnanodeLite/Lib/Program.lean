import Mathlib.Algebra.Order.Ring.Int
import Mathlib.Data.List.Chain

/-! # Programs that call their environment

A program is a tree: it ends with a value, or it asks the environment for an
operation and goes on with the answer. A handler says what an operation answers
and does to the state for every choice that the environment may make. -/

inductive Program (Op : Type) (Ans : Op → Type) (α : Type) where
  | ret (a : α)
  | call (op : Op) (k : Ans op → Program Op Ans α)

namespace Program
variable {Op : Type} {Ans : Op → Type} {α β σ ε : Type}

protected def bind : Program Op Ans α → (α → Program Op Ans β) → Program Op Ans β
  | ret a, f => f a
  | call op k, f => call op fun answer => (k answer).bind f

instance : Monad (Program Op Ans) where
  pure := ret
  bind := Program.bind

instance : LawfulMonad (Program Op Ans) :=
  LawfulMonad.mk' _
    (fun p => by
      induction p with
      | ret a => rfl
      | call op k ih => exact congrArg (call op) (funext ih))
    (fun _ _ => rfl)
    (fun p f g => by
      induction p with
      | ret a => rfl
      | call op k ih => exact congrArg (call op) (funext ih))

def perform (op : Op) : Program Op Ans (Ans op) := call op ret

/-- In state `s` and with choice `e`, operation `op` gives an answer and a state. -/
abbrev Handler (Op : Type) (Ans : Op → Type) (σ ε : Type) := (op : Op) → σ → ε → Ans op × σ

variable (h : Handler Op Ans σ ε) (rel : σ → σ → Prop)

/- One choice is used up by each call. -/
def run : Program Op Ans α → (ℕ → ε) → σ → α × σ
  | ret a, _, s => (a, s)
  | call op k, w, s => run (k (h op s (w 0)).1) (fun n => w (n + 1)) (h op s (w 0)).2

/- The states after the calls of a run: where a crash can leave it. -/
def trail : Program Op Ans α → (ℕ → ε) → σ → List σ
  | ret _, _, _ => []
  | call op k, w, s =>
    (h op s (w 0)).2 :: trail (k (h op s (w 0)).1) (fun n => w (n + 1)) (h op s (w 0)).2

/-- Whatever the environment chooses, every call leads from a state to a related
one and the end of the program meets `post`. -/
def wp : Program Op Ans α → (α → σ → Prop) → σ → Prop
  | ret a, post, s => post a s
  | call op k, post, s =>
    ∀ e, rel s (h op s e).2 ∧ wp (k (h op s e).1) post (h op s e).2

/-- Whatever happens between its calls, as long as that keeps `inv`, every call of the
program keeps it. -/
def Stable (inv : σ → Prop) : Program Op Ans α → Prop
  | ret _ => True
  | call op k => ∀ s e, inv s → inv (h op s e).2 ∧ Stable inv (k (h op s e).1)

/-- Every operation that the program can ask for, whatever it is answered, meets `P`. -/
def Makes (P : Op → Prop) : Program Op Ans α → Prop
  | ret _ => True
  | call op k => P op ∧ ∀ answer, Makes P (k answer)

variable {h rel} {p : Program Op Ans α} {f : α → Program Op Ans β} {s t : σ}

@[simp] theorem wp_bind {post : β → σ → Prop} :
    wp h rel (p >>= f) post s ↔ wp h rel p (fun a t => wp h rel (f a) post t) s := by
  induction p generalizing s with
  | ret a => exact Iff.rfl
  | call op k ih => exact forall_congr' fun e => and_congr Iff.rfl (ih (h op s e).1)

theorem wp_mono {post post' : α → σ → Prop} (hp : wp h rel p post s)
    (himp : ∀ a t, post a t → post' a t) : wp h rel p post' s := by
  induction p generalizing s with
  | ret a => exact himp a s hp
  | call op k ih => exact fun e => ⟨(hp e).1, ih _ (hp e).2⟩

theorem wp_run {post : α → σ → Prop} (hp : wp h rel p post s) (w : ℕ → ε) :
    post (p.run h w s).1 (p.run h w s).2 := by
  induction p generalizing s w with
  | ret a => exact hp
  | call op k ih => exact ih _ (hp (w 0)).2 fun n => w (n + 1)

theorem Stable.pure (inv : σ → Prop) (a : α) : Stable h inv (pure a : Program Op Ans α) := trivial

variable {inv : σ → Prop} {P : Op → Prop}

theorem Stable.bind (hp : Stable h inv p) (hf : ∀ a, Stable h inv (f a)) :
    Stable h inv (p >>= f) := by
  induction p with
  | ret a => exact hf a
  | call op k ih => exact fun s e hs => ⟨(hp s e hs).1, ih _ (hp s e hs).2⟩

theorem Stable.wp (hp : Stable h inv p) (hs : inv s) :
    p.wp h (fun _ _ => True) (fun _ t => inv t) s := by
  induction p generalizing s with
  | ret a => exact hs
  | call op k ih => exact fun e => ⟨trivial, ih _ (hp s e hs).2 (hp s e hs).1⟩

theorem Makes.bind (hp : Makes P p) (hf : ∀ a, Makes P (f a)) :
    Makes P (p >>= f) := by
  induction p with
  | ret a => exact hf a
  | call op k ih => exact ⟨hp.1, fun answer => ih answer (hp.2 answer)⟩

theorem Makes.mono {Q : Op → Prop} (hp : Makes P p) (himp : ∀ op, P op → Q op) : Makes Q p := by
  induction p with
  | ret a => trivial
  | call op k ih => exact ⟨himp op hp.1, fun answer => ih answer (hp.2 answer)⟩

theorem Makes.stable (hp : Makes P p) (hkept : ∀ op, P op → ∀ s e, inv s → inv (h op s e).2) :
    Stable h inv p := by
  induction p with
  | ret a => trivial
  | call op k ih => exact fun s e hs => ⟨hkept op hp.1 s e hs, ih _ (hp.2 _)⟩

end Program
