import Mathlib.Algebra.Order.Ring.Int
import Mathlib.Data.List.Infix
import Mathlib.Order.Nat

/-! # Readers

Go's `io.Reader` over a stream: each call brings any number of elements up to the
size of the buffer, none included, and may end with an error beside them. -/

/- What one `Read` returns. -/
structure Chunk (α ε : Type) where
  data : List α
  err : Option ε
  deriving DecidableEq

namespace Reader
variable {σ α ε : Type}

def firstChunk (read : σ → ℕ → Chunk α ε × σ) : ℕ → σ → Option (Chunk α ε × σ)
  | 0, _ => none
  | fuel + 1, s =>
    if (read s 1).1.data.isEmpty ∧ (read s 1).1.err.isNone then firstChunk read fuel (read s 1).2
    else some (read s 1)

/-- What a sequence of calls delivers up to the first that returns an error, and this error. -/
def reads (read : σ → ℕ → Chunk α ε × σ) : List ℕ → σ → List α × Option ε
  | [], _ => ([], none)
  | size :: sizes, s => match (read s size).1.err with
    | some e => ((read s size).1.data, some e)
    | none =>
      ((read s size).1.data ++ (reads read sizes (read s size).2).1, (reads read sizes (read s size).2).2)

/- The induction over a sequence of calls: `inv x s` holds while `x` has been delivered
without an error. -/
theorem reads_induct {read : σ → ℕ → Chunk α ε × σ} (inv : List α → σ → Prop)
    (post : List α → Option ε → Prop)
    (hstep : ∀ x s size, inv x s → (read s size).1.err = none →
      inv (x ++ (read s size).1.data) (read s size).2)
    (hlast : ∀ x s size e, inv x s → (read s size).1.err = some e →
      post (x ++ (read s size).1.data) (some e))
    (hstop : ∀ x s, inv x s → post x none) (sizes : List ℕ) {x : List α} {s : σ} (hs : inv x s) :
    post (x ++ (reads read sizes s).1) (reads read sizes s).2 := by
  induction sizes generalizing x s with
  | nil =>
    rw [reads, List.append_nil]
    exact hstop x s hs
  | cons size sizes ih =>
    cases herr : (read s size).1.err with
    | some e =>
      have hend := hlast x s size e hs herr
      simpa only [reads, herr] using hend
    | none =>
      have hnext := ih (hstep x s size hs herr)
      simpa only [reads, herr, List.append_assoc] using hnext

end Reader

/-- A reader with what its states have still to deliver. It reports `eof` only at the end and
makes progress in the end. -/
structure Reader (α ε : Type) (eof : ε) where
  State : Type
  read : State → ℕ → Chunk α ε × State
  rest : State → List α
  fits : ∀ s size, (read s size).1.data.length ≤ size
  split : ∀ s size, rest s = (read s size).1.data ++ rest (read s size).2
  ends : ∀ s size, (read s size).1.err = some eof → rest (read s size).2 = []
  progress : ∀ s, ∃ fuel, (Reader.firstChunk read fuel s).isSome

namespace Reader
variable {α ε : Type} {eof : ε} (r : Reader α ε eof)

/- `for { n, err := r.Read(extra[:]); if n != 0 || err != nil { … } }`. -/
def nextChunk (s : r.State) : Chunk α ε × r.State :=
  (firstChunk r.read (Nat.find (r.progress s)) s).get (Nat.find_spec (r.progress s))

theorem firstChunk_spec {fuel : ℕ} {s : r.State} {c : Chunk α ε × r.State}
    (h : firstChunk r.read fuel s = some c) :
    (c.1.data ≠ [] ∨ c.1.err ≠ none) ∧ ∃ t, r.rest t = r.rest s ∧ c = r.read t 1 := by
  induction fuel generalizing s with
  | zero => cases h
  | succ fuel ih =>
    rw [firstChunk] at h
    split_ifs at h with hstall
    · obtain ⟨hstop, t, ht, hc⟩ := ih h
      have hsplit := r.split s 1
      rw [List.isEmpty_iff.mp hstall.1, List.nil_append] at hsplit
      exact ⟨hstop, t, ht.trans hsplit.symm, hc⟩
    · have hc : r.read s 1 = c := Option.some.inj h
      subst hc
      refine ⟨?_, s, rfl, rfl⟩
      by_contra hneither
      obtain ⟨hdata, herr⟩ := not_or.mp hneither
      exact hstall ⟨List.isEmpty_iff.mpr (of_not_not hdata), Option.isNone_iff_eq_none.mpr (of_not_not herr)⟩

theorem nextChunk_spec (s : r.State) :
    ((r.nextChunk s).1.data ≠ [] ∨ (r.nextChunk s).1.err ≠ none) ∧
      ∃ t, r.rest t = r.rest s ∧ r.nextChunk s = r.read t 1 :=
  r.firstChunk_spec (Option.some_get (Nat.find_spec (r.progress s))).symm

end Reader
