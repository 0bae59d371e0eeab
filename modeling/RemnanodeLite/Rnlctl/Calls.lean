import RemnanodeLite.Rnlctl.Repair

/-! # Reasoning about the lifecycle operations

What an operation is sure to do, step by step: every step leads from one machine to a
related one, whatever fails, and the end meets a condition. A crash may leave the machine
after any step. -/

namespace RemnanodeLite.Rnlctl.Lifecycle
open Filepath Program

variable {α β : Type}

/-- As long as the calls meet `rely`, every step leads from a machine to one in relation `G`;
success meets `ok`, and the end with an error meets `err`, which is told what a recovery phase
has returned, if there was one. -/
def Ensures (rely : Call Op Machine Choice → Prop) (G : Machine → Machine → Prop) (p : Ctl α)
    (ok : α → Machine → Prop) (err : Option (Except Failure Unit) → Machine → Prop) (m : Machine) :
    Prop :=
  ensures handle rely (fun c => G c.before (c.after handle)) p ok (fun stop => err stop.recovery) m

def anyCall : Call Op Machine Choice → Prop := fun _ => True

variable {rely : Call Op Machine Choice → Prop} {G : Machine → Machine → Prop} {m : Machine}
  {p : Ctl α} {f : α → Ctl β} {ok ok' : α → Machine → Prop} {okf : β → Machine → Prop}
  {err err' : Option (Except Failure Unit) → Machine → Prop}

theorem Ensures.pure {a : α} (h : ok a m) : Ensures rely G (Pure.pure a) ok err m :=
  ensures_pure.mpr h

theorem Ensures.fail {e : Failure} (h : err none m) : Ensures rely G (fail e : Ctl α) ok err m := h

theorem Ensures.bind (hp : Ensures rely G p ok err m)
    (hf : ∀ a t, ok a t → Ensures rely G (f a) okf err t) : Ensures rely G (p >>= f) okf err m :=
  ensures_bind.mpr (ensures_mono hp hf fun _ _ h => h)

theorem Ensures.mono (hp : Ensures rely G p ok err m) (hok : ∀ a t, ok a t → ok' a t)
    (herr : ∀ r t, err r t → err' r t) : Ensures rely G p ok' err' m :=
  ensures_mono hp hok fun _ => herr _

theorem Ensures.check {r : Except Failure α} (hok : ∀ a, r = .ok a → ok a m)
    (herr : (∃ e, r = .error e) → err none m) : Ensures rely G (check r) ok err m := by
  cases r with
  | ok a => exact hok a rfl
  | error e => exact herr ⟨e, rfl⟩

theorem Ensures.look {ok : Machine → Machine → Prop} (hG : G m m) (hok : ok m m)
    (herr : err none m) : Ensures rely G look ok err m := by
  refine ensures_bind.mpr (ensures_lift.mpr ?_)
  rintro ⟨fails, tookEffect, identity⟩ -
  cases fails with
  | false => exact ⟨hG, hok⟩
  | true => exact ⟨hG, herr⟩

theorem Ensures.looking {g : Machine → Ctl β} (hG : G m m) (herr : err none m)
    (h : Ensures rely G (g m) okf err m) :
    Ensures rely G (Lifecycle.look >>= g) okf err m := by
  have hread : Ensures rely G Lifecycle.look (fun found t => found = m ∧ t = m) err m :=
    .look hG ⟨rfl, rfl⟩ herr
  refine hread.bind fun found t hfound => ?_
  rw [hfound.1, hfound.2]
  exact h

theorem Ensures.checking {r : Except Failure α} (herr : err none m)
    (h : ∀ a, r = .ok a → Ensures rely G (f a) okf err m) :
    Ensures rely G (Lifecycle.check r >>= f) okf err m := by
  cases r with
  | ok a => exact h a rfl
  | error e => exact .fail herr

theorem Ensures.step {ok : Unit → Machine → Prop} {e : Effect} (hG : G m m)
    (happly : G m (e.apply m)) (hhalf : G m (e.halfway m)) (hok : ok () (e.apply m))
    (herr : err none m) (hbad : err none (e.halfway m)) : Ensures rely G (step e) ok err m := by
  refine ensures_bind.mpr (ensures_lift.mpr ?_)
  rintro ⟨fails, tookEffect, identity⟩ -
  cases fails with
  | false => exact ⟨happly, hok⟩
  | true =>
    cases tookEffect with
    | false => exact ⟨hG, herr⟩
    | true => exact ⟨hhalf, hbad⟩

theorem Ensures.stepHonest {ok : Unit → Machine → Prop} {e : Effect}
    (hrely : ∀ c, rely ⟨.step e, m, c⟩ → c.fails = true → c.tookEffect = false) (hG : G m m)
    (happly : G m (e.apply m)) (hok : ok () (e.apply m)) (herr : err none m) :
    Ensures rely G (Lifecycle.step e) ok err m := by
  refine ensures_bind.mpr (ensures_lift.mpr ?_)
  rintro ⟨fails, tookEffect, identity⟩ hc
  cases fails with
  | false => exact ⟨happly, hok⟩
  | true =>
    cases tookEffect with
    | false => exact ⟨hG, herr⟩
    | true => exact Bool.noConfusion (hrely _ hc rfl)

theorem Ensures.ask {ok : Unit → Machine → Prop} {question : Question} (hG : G m m) (hok : ok () m)
    (herr : err none m) : Ensures rely G (ask question) ok err m := by
  refine ensures_bind.mpr (ensures_lift.mpr ?_)
  rintro ⟨fails, tookEffect, identity⟩ -
  cases fails with
  | false => exact ⟨hG, hok⟩
  | true => exact ⟨hG, herr⟩

theorem Ensures.attempt {ok : Except Failure α → Machine → Prop}
    (h : Ensures rely G p (fun a => ok (.ok a)) (fun _ t => ∀ e, ok (.error e) t) m) :
    Ensures rely G (attempt p) ok err m := by
  refine assured_bind.mpr (assured_mono h fun r t ht => ?_)
  cases r with
  | ok a => exact ht
  | error stop => exact ht stop.error

theorem Ensures.wrapf {format : String} {args : List Text} (h : Ensures rely G p ok err m) :
    Ensures rely G (wrapf format args p) ok err m := by
  refine assured_bind.mpr (assured_mono h fun r t ht => ?_)
  cases r with
  | ok a => exact ht
  | error stop => exact ht

theorem Ensures.recovering {recover : Ctl Unit} {mid : Option (Except Failure Unit) → Machine → Prop}
    (hp : Ensures rely G p ok mid m)
    (hrecover : ∀ r t, mid r t → Ensures rely G recover (fun _ u => err (some (.ok ())) u)
      (fun _ u => ∀ e, err (some (.error e)) u) t) :
    Ensures rely G (recovering recover p) ok err m := by
  refine assured_bind.mpr (assured_mono hp fun r t ht => ?_)
  cases r with
  | ok a => exact ht
  | error cause =>
    refine assured_bind.mpr (assured_mono (hrecover _ t ht) fun r' u hu => ?_)
    cases r' with
    | ok a => exact hu
    | error stop => exact hu stop.error

theorem Ensures.whenever {c : Bool} {p : Ctl Unit} {ok : Unit → Machine → Prop}
    (hp : c = true → Ensures rely G p ok err m) (hskip : c = false → ok () m) :
    Ensures rely G (whenever c p) ok err m := by
  cases c with
  | false => exact .pure (hskip rfl)
  | true => exact hp rfl

theorem Ensures.failIf {c : Bool} {e : Failure} {ok : Unit → Machine → Prop}
    (hok : c = false → ok () m) (herr : c = true → err none m) :
    Ensures rely G (failIf c e) ok err m := by
  cases c with
  | false => exact .pure (hok rfl)
  | true => exact .fail (herr rfl)

theorem Ensures.weaken {H : Machine → Machine → Prop} (hp : Ensures rely G p ok err m)
    (hG : ∀ a b, G a b → H a b) : Ensures rely H p ok err m :=
  assured_weaken hp (fun _ h => h) fun c => hG c.before _

theorem Ensures.relying (hp : Ensures anyCall G p ok err m) : Ensures rely G p ok err m :=
  assured_weaken hp (fun _ _ => trivial) fun _ h => h

theorem Ensures.and {H : Machine → Machine → Prop} (hp : Ensures rely G p ok err m)
    (hp' : Ensures rely H p ok' err' m) :
    Ensures rely (fun a b => G a b ∧ H a b) p (fun a t => ok a t ∧ ok' a t)
      (fun r t => err r t ∧ err' r t) m := by
  refine assured_mono (assured_and hp hp') fun r t ht => ?_
  cases r with
  | ok a => exact ht
  | error stop => exact ht

/-! ### Runs and crashes -/

section Runs
variable {t : Machine} {w : ℕ → Choice}

theorem Ensures.run_ok (h : Ensures anyCall G p ok err m) {a : α}
    (hrun : p.run.run handle w m = (.ok a, t)) : ok a t := by
  have hpost := assured_run h w fun _ _ => trivial
  rw [hrun] at hpost
  exact hpost

theorem Ensures.run_error (h : Ensures anyCall G p ok err m) {stop : Stop}
    (hrun : p.run.run handle w m = (.error stop, t)) : err stop.recovery t := by
  have hpost := assured_run h w fun _ _ => trivial
  rw [hrun] at hpost
  exact hpost

/-- Where a crash can leave the machine: before the operation or after any of its steps. -/
def Crash (p : Ctl α) (w : ℕ → Choice) (m z : Machine) : Prop := z ∈ m :: p.run.trail handle w m

theorem Ensures.run_error_of (h : Ensures rely G p ok err m)
    (hw : ∀ c ∈ calls handle p.run w m, rely c) {stop : Stop}
    (hrun : p.run.run handle w m = (.error stop, t)) : err stop.recovery t := by
  have hpost := assured_run h w hw
  rw [hrun] at hpost
  exact hpost

theorem Ensures.crash_invariant {inv : Machine → Prop}
    (h : Ensures anyCall (fun _ z => inv z) p ok err m) (hm : inv m) {z : Machine}
    (hz : Crash p w m z) : inv z := by
  rcases List.mem_cons.mp hz with rfl | hz
  · exact hm
  · exact assured_trail (G := fun _ z => inv z) h (fun _ _ _ _ hc => hc) w (fun _ _ => trivial) z hz

end Runs

/-! ### What success means -/

/-- A call fails and the operation refuses only if `E`; if it succeeds, its result and the machine
it leaves meet `ok`. -/
def Yields (E : Prop) (p : Ctl α) (ok : α → Machine → Prop) (m : Machine) : Prop :=
  Ensures (fun c => c.choice.fails = true → E) (fun _ _ => True) p ok (fun _ _ => E) m

section Yields
variable {E : Prop}

theorem Yields.pure {a : α} (h : ok a m) : Yields E (Pure.pure a) ok m := Ensures.pure h

theorem Yields.bind (hp : Yields E p ok m)
    (hf : ∀ a t, ok a t → Yields E (f a) okf t) : Yields E (p >>= f) okf m := Ensures.bind hp hf

theorem Yields.mono (hp : Yields E p ok m) (hok : ∀ a t, ok a t → ok' a t) : Yields E p ok' m :=
  Ensures.mono hp hok fun _ _ h => h

theorem Yields.looking {g : Machine → Ctl β} (h : Yields E (g m) okf m) :
    Yields E (look >>= g) okf m := by
  refine ensures_bind.mpr (ensures_bind.mpr (ensures_lift.mpr ?_))
  rintro ⟨fails, tookEffect, identity⟩ hfails
  cases fails with
  | false => exact ⟨trivial, h⟩
  | true => exact ⟨trivial, hfails rfl⟩

theorem Yields.step {e : Effect} {ok : Unit → Machine → Prop} (hok : ok () (e.apply m)) :
    Yields E (step e) ok m := by
  refine ensures_bind.mpr (ensures_lift.mpr ?_)
  rintro ⟨fails, tookEffect, identity⟩ hfails
  cases fails with
  | false => exact ⟨trivial, hok⟩
  | true => exact ⟨trivial, hfails rfl⟩

theorem Yields.ask {question : Question} {ok : Unit → Machine → Prop} (hok : ok () m) :
    Yields E (ask question) ok m := by
  refine ensures_bind.mpr (ensures_lift.mpr ?_)
  rintro ⟨fails, tookEffect, identity⟩ hfails
  cases fails with
  | false => exact ⟨trivial, hok⟩
  | true => exact ⟨trivial, hfails rfl⟩

theorem Yields.failIf {c : Bool} {e : Failure} (hc : c = true → E) :
    Yields E (failIf c e) (fun _ t => t = m) m := Ensures.failIf (fun _ => rfl) hc

theorem Yields.stepping {e : Effect} {f : Unit → Ctl β}
    (h : Yields E (f ()) okf (e.apply m)) : Yields E (Lifecycle.step e >>= f) okf m := by
  have hstep : Yields E (Lifecycle.step e) (fun _ t => t = e.apply m) m := .step rfl
  refine hstep.bind fun _ t ht => ?_
  rw [ht]
  exact h

theorem yields_whenever_step (c : Bool) (e : Effect) (m : Machine) :
    Yields E (whenever c (step e)) (fun _ t => t = if c then e.apply m else m) m := by
  cases c with
  | false => exact .pure rfl
  | true => exact .step rfl

theorem Yields.ensures (h : Yields True p ok m) :
    Ensures anyCall (fun _ _ => True) p ok (fun _ _ => True) m :=
  assured_weaken h (fun _ _ _ => trivial) fun _ hc => hc

theorem Yields.run (h : Yields False p ok m) {w : ℕ → Choice} (hw : ∀ n, (w n).fails = false) :
    ∃ a t, p.run.run handle w m = (.ok a, t) := by
  have hpost := assured_run h w fun c hc => by
    obtain ⟨n, hn⟩ := choice_of_calls hc
    simp [hn, hw n]
  cases hrun : p.run.run handle w m with
  | mk result t =>
    cases result with
    | ok a => exact ⟨a, t, rfl⟩
    | error stop =>
      rw [hrun] at hpost
      exact absurd hpost id

end Yields

/-! ### Operations that only read -/

/-- The operation leaves the machine as it is, and its result meets `P`. -/
def Reads (p : Ctl α) (P : α → Prop) (m : Machine) : Prop :=
  Ensures anyCall (fun a b => a = m ∧ b = m) p (fun a t => P a ∧ t = m) (fun r t => r = none ∧ t = m) m

section Reads
variable {P P' : α → Prop} {Q : β → Prop}

theorem Reads.pure {a : α} (h : P a) : Reads (Pure.pure a) P m := Ensures.pure ⟨h, rfl⟩

theorem Reads.fail {e : Failure} : Reads (fail e : Ctl α) P m := Ensures.fail ⟨rfl, rfl⟩

theorem Reads.bind (hp : Reads p P m) (hf : ∀ a, P a → Reads (f a) Q m) : Reads (p >>= f) Q m := by
  refine Ensures.bind hp ?_
  rintro a t ⟨ha, rfl⟩
  exact hf a ha

theorem Reads.look {P : Machine → Prop} (h : P m) : Reads look P m :=
  Ensures.look ⟨rfl, rfl⟩ ⟨h, rfl⟩ ⟨rfl, rfl⟩

theorem Reads.looking {g : Machine → Ctl β} (h : Reads (g m) Q m) : Reads (Lifecycle.look >>= g) Q m :=
  Reads.bind (Reads.look (P := (· = m)) rfl) fun _ ha => ha ▸ h

theorem Reads.ask {question : Question} {P : Unit → Prop} (h : P ()) : Reads (ask question) P m :=
  Ensures.ask ⟨rfl, rfl⟩ ⟨h, rfl⟩ ⟨rfl, rfl⟩

theorem Reads.check {r : Except Failure α} (h : ∀ a, r = .ok a → P a) : Reads (check r) P m :=
  Ensures.check (fun a ha => ⟨h a ha, rfl⟩) fun _ => ⟨rfl, rfl⟩

theorem Reads.failIf {c : Bool} {e : Failure} {P : Unit → Prop} (h : c = false → P ()) :
    Reads (failIf c e) P m := Ensures.failIf (fun hc => ⟨h hc, rfl⟩) fun _ => ⟨rfl, rfl⟩

theorem Reads.whenever {c : Bool} {q : Ctl Unit} {P : Unit → Prop} (hq : c = true → Reads q P m)
    (hskip : c = false → P ()) : Reads (whenever c q) P m :=
  Ensures.whenever hq fun hc => ⟨hskip hc, rfl⟩

theorem Reads.ensures (hp : Reads p P m) (hG : G m m) (herr : err none m) :
    Ensures rely G p (fun a t => P a ∧ t = m) err m := by
  refine ((Ensures.weaken hp ?_).mono (fun _ _ h => h) ?_).relying
  · rintro _ _ ⟨rfl, rfl⟩
    exact hG
  · rintro _ _ ⟨rfl, rfl⟩
    exact herr

theorem Reads.ensuring (hp : Reads p P m) (hG : G m m) (herr : err none m)
    (h : ∀ a, P a → Ensures rely G (f a) okf err m) : Ensures rely G (p >>= f) okf err m := by
  refine (hp.ensures hG herr).bind ?_
  rintro a t ⟨ha, rfl⟩
  exact h a ha

end Reads

/-! ### What every step keeps -/

/-- Every step of the operation keeps `inv`, whatever the operation was told before. -/
def Keeps (inv : Machine → Prop) (p : Ctl α) : Prop := Program.Stable handle inv p.run

section Keeps
variable {inv : Machine → Prop}

theorem Keeps.pure (a : α) : Keeps inv (Pure.pure a : Ctl α) := trivial

theorem Keeps.fail (e : Failure) : Keeps inv (fail e : Ctl α) := trivial

theorem Keeps.check (r : Except Failure α) : Keeps inv (check r) := by
  cases r with
  | ok a => exact .pure a
  | error e => exact .fail e

theorem Keeps.bind (hp : Keeps inv p) (hf : ∀ a, Keeps inv (f a)) : Keeps inv (p >>= f) := by
  refine Stable.bind hp fun r => ?_
  cases r with
  | ok a => exact hf a
  | error e => trivial

theorem Keeps.look : Keeps inv look := by
  refine Keeps.bind ?_ fun found => ?_
  · exact fun _ _ hm => ⟨hm, trivial⟩
  · cases found with
    | none => exact .fail _
    | some m => exact .pure m

theorem Keeps.step {e : Effect} (h : ∀ m, inv m → inv (e.apply m) ∧ inv (e.halfway m)) :
    Keeps inv (step e) := by
  refine Keeps.bind ?_ fun done => ?_
  · rintro m ⟨fails, tookEffect, identity⟩ hm
    refine ⟨?_, trivial⟩
    cases fails with
    | false => exact (h m hm).1
    | true =>
      cases tookEffect with
      | false => exact hm
      | true => exact (h m hm).2
  · cases done with
    | false => exact .fail _
    | true => exact .pure ()

theorem Keeps.ask (question : Question) : Keeps inv (ask question) := by
  refine Keeps.bind ?_ fun answer => ?_
  · exact fun _ _ hm => ⟨hm, trivial⟩
  · cases answer with
    | false => exact .fail _
    | true => exact .pure ()

theorem Keeps.whenever {c : Bool} {p : Ctl Unit} (hp : c = true → Keeps inv p) :
    Keeps inv (whenever c p) := by
  cases c with
  | false => exact .pure ()
  | true => exact hp rfl

theorem Keeps.failIf (c : Bool) (e : Failure) : Keeps inv (failIf c e) := by
  cases c with
  | false => exact .pure ()
  | true => exact .fail e

theorem Keeps.ensures (hp : Keeps inv p) (hm : inv m) :
    Ensures rely (fun _ z => inv z) p (fun _ t => inv t) (fun _ t => inv t) m := by
  refine assured_mono (Stable.assured hp hm) fun r t ht => ?_
  cases r with
  | ok a => exact ht
  | error stop => exact ht

theorem Keeps.continuing (hp : Keeps inv p) (hm : inv m) (hG : ∀ a b, inv b → G a b)
    (herr : ∀ r t, inv t → err r t)
    (hf : ∀ a t, inv t → Ensures rely G (f a) okf err t) : Ensures rely G (p >>= f) okf err m :=
  (((hp.ensures hm).weaken hG).mono (fun _ _ h => h) herr).bind hf

end Keeps

end RemnanodeLite.Rnlctl.Lifecycle
