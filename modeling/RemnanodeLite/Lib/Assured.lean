import RemnanodeLite.Lib.Program

/-! # Rely and guarantee for programs

What a program is sure to do as long as its environment keeps to an assumption
about every call, for programs that end with a value and for programs that may
end with an error. -/

namespace Program
variable {Op : Type} {Ans : Op → Type} {α β σ ε δ : Type}

/- One call of a run: the operation, the state it is made in and what the
environment chooses. -/
structure Call (Op σ ε : Type) where
  op : Op
  before : σ
  choice : ε

variable (h : Handler Op Ans σ ε) (rely guar : Call Op σ ε → Prop)

def Call.after (c : Call Op σ ε) : σ := (h c.op c.before c.choice).2

def calls : Program Op Ans α → (ℕ → ε) → σ → List (Call Op σ ε)
  | ret _, _, _ => []
  | call op k, w, s =>
    ⟨op, s, w 0⟩ :: calls (k (h op s (w 0)).1) (fun n => w (n + 1)) (h op s (w 0)).2

/-- As long as the choices meet `rely`, every call meets `guar` and the end of the
program meets `post`. -/
def assured : Program Op Ans α → (α → σ → Prop) → σ → Prop
  | ret a, post, s => post a s
  | call op k, post, s =>
    ∀ e, rely ⟨op, s, e⟩ → guar ⟨op, s, e⟩ ∧ assured (k (h op s e).1) post (h op s e).2

variable {h rely guar} {p : Program Op Ans α} {f : α → Program Op Ans β} {s : σ}

@[simp] theorem assured_perform {op : Op} {post : Ans op → σ → Prop} :
    assured h rely guar (perform op) post s ↔
      ∀ e, rely ⟨op, s, e⟩ → guar ⟨op, s, e⟩ ∧ post (h op s e).1 (h op s e).2 := Iff.rfl

@[simp] theorem assured_bind {post : β → σ → Prop} :
    assured h rely guar (p >>= f) post s ↔
      assured h rely guar p (fun a t => assured h rely guar (f a) post t) s := by
  induction p generalizing s with
  | ret a => exact Iff.rfl
  | call op k ih =>
    exact forall_congr' fun e => imp_congr_right fun _ => and_congr Iff.rfl (ih (h op s e).1)

variable {post ok : α → σ → Prop} {inv : σ → Prop}

theorem assured_mono {post' : α → σ → Prop} (hp : assured h rely guar p post s)
    (himp : ∀ a t, post a t → post' a t) : assured h rely guar p post' s := by
  induction p generalizing s with
  | ret a => exact himp a s hp
  | call op k ih => exact fun e he => ⟨(hp e he).1, ih _ (hp e he).2⟩

theorem assured_weaken {rely' guar' : Call Op σ ε → Prop} (hp : assured h rely guar p post s)
    (hrely : ∀ c, rely' c → rely c) (hguar : ∀ c, guar c → guar' c) :
    assured h rely' guar' p post s := by
  induction p generalizing s with
  | ret a => exact hp
  | call op k ih =>
    exact fun e he => ⟨hguar _ (hp e (hrely _ he)).1, ih _ (hp e (hrely _ he)).2⟩

theorem assured_and {guar' : Call Op σ ε → Prop} {post' : α → σ → Prop}
    (hp : assured h rely guar p post s) (hp' : assured h rely guar' p post' s) :
    assured h rely (fun c => guar c ∧ guar' c) p (fun a t => post a t ∧ post' a t) s := by
  induction p generalizing s with
  | ret a => exact ⟨hp, hp'⟩
  | call op k ih =>
    exact fun e he => ⟨⟨(hp e he).1, (hp' e he).1⟩, ih _ (hp e he).2 (hp' e he).2⟩

theorem assured_run (hp : assured h rely guar p post s) (w : ℕ → ε)
    (hw : ∀ c ∈ calls h p w s, rely c) : post (p.run h w s).1 (p.run h w s).2 := by
  induction p generalizing s w with
  | ret a => exact hp
  | call op k ih =>
    have hfirst : rely ⟨op, s, w 0⟩ := hw _ List.mem_cons_self
    exact ih _ (hp (w 0) hfirst).2 (fun n => w (n + 1)) fun c hc =>
      hw c (List.mem_cons_of_mem _ hc)

theorem choice_of_calls {w : ℕ → ε} {c : Call Op σ ε} (hc : c ∈ calls h p w s) :
    ∃ n, c.choice = w n := by
  induction p generalizing s w with
  | ret a => simp [calls] at hc
  | call op k ih =>
    rcases List.mem_cons.mp hc with rfl | hc
    · exact ⟨0, rfl⟩
    · obtain ⟨n, hn⟩ := ih _ hc
      exact ⟨n + 1, hn⟩

/- The guarantee holds for every call up to the first that breaks the assumption. -/
theorem assured_calls (hp : assured h rely guar p post s) (w : ℕ → ε) (n : ℕ)
    (hw : ∀ c ∈ (calls h p w s).take n, rely c) :
    ∀ c ∈ (calls h p w s).take n, guar c := by
  induction p generalizing s w n with
  | ret a =>
    intro c hc
    simp [calls] at hc
  | call op k ih =>
    cases n with
    | zero =>
      intro c hc
      simp at hc
    | succ n =>
      have hfirst : rely ⟨op, s, w 0⟩ := hw _ List.mem_cons_self
      have hrest := ih _ (hp (w 0) hfirst).2 (fun n => w (n + 1)) n fun c hc =>
        hw c (List.mem_cons_of_mem _ hc)
      intro c hc
      rcases List.mem_cons.mp hc with rfl | hc
      · exact (hp (w 0) hfirst).1
      · exact hrest c hc

theorem assured_guar (hp : assured h rely guar p post s) (w : ℕ → ε)
    (hw : ∀ c ∈ calls h p w s, rely c) : ∀ c ∈ calls h p w s, guar c := by
  have hall := assured_calls hp w (calls h p w s).length
  rw [List.take_length] at hall
  exact hall hw

/- A transitive guarantee relates the start to every state that the calls lead to. -/
theorem assured_trail {G : σ → σ → Prop}
    (hp : assured h rely (fun c => G c.before (c.after h)) p post s)
    (htrans : ∀ a b c, G a b → G b c → G a c) (w : ℕ → ε) (hw : ∀ c ∈ calls h p w s, rely c) :
    ∀ t ∈ p.trail h w s, G s t := by
  induction p generalizing s w with
  | ret a =>
    intro t ht
    cases ht
  | call op k ih =>
    obtain ⟨hnext, hrest⟩ := hp (w 0) (hw _ List.mem_cons_self)
    intro t ht
    rcases List.mem_cons.mp ht with rfl | ht
    · exact hnext
    · have hlater := ih _ hrest (fun n => w (n + 1)) (fun c hc => hw c (List.mem_cons_of_mem _ hc))
      exact htrans _ _ _ hnext (hlater t ht)

theorem assured_invariant (hp : assured h rely guar p post s)
    (hkept : ∀ c, guar c → inv c.before → inv (c.after h)) (hs : inv s) (w : ℕ → ε)
    (hw : ∀ c ∈ calls h p w s, rely c) : inv (p.run h w s).2 := by
  induction p generalizing s w with
  | ret a => exact hs
  | call op k ih =>
    obtain ⟨hnext, hrest⟩ := hp (w 0) (hw _ List.mem_cons_self)
    exact ih _ hrest (hkept _ hnext hs) _ fun c hc => hw c (List.mem_cons_of_mem _ hc)

theorem assured_kept (hp : assured h rely guar p post s)
    (hkept : ∀ c, guar c → inv c.before → inv (c.after h)) (w : ℕ → ε)
    (hw : ∀ c ∈ calls h p w s, rely c) : ∀ t ∈ p.trail h w s, inv t → inv (p.run h w s).2 := by
  induction p generalizing s w with
  | ret a =>
    intro t ht
    cases ht
  | call op k ih =>
    obtain ⟨-, hrest⟩ := hp (w 0) (hw _ List.mem_cons_self)
    have hlater := fun c hc => hw c (List.mem_cons_of_mem _ hc)
    intro t ht hinv
    rcases List.mem_cons.mp ht with rfl | ht
    · exact assured_invariant hrest hkept hinv _ hlater
    · exact ih _ hrest _ hlater t ht hinv

theorem Stable.assured (hp : Stable h inv p) (hs : inv s) :
    assured h rely (fun c => inv (c.after h)) p (fun _ t => inv t) s := by
  induction p generalizing s with
  | ret a => exact hs
  | call op k ih => exact fun e _ => ⟨(hp s e hs).1, ih _ (hp s e hs).2 (hp s e hs).1⟩

/-! ### Programs that may fail -/

variable (h rely guar) in
/-- The end with a value meets `ok`, the end with an error `err`. -/
def ensures (p : ExceptT δ (Program Op Ans) α) (ok : α → σ → Prop) (err : δ → σ → Prop) (s : σ) :
    Prop :=
  assured h rely guar p.run (fun r t => match r with
    | .ok a => ok a t
    | .error e => err e t) s

variable {q : ExceptT δ (Program Op Ans) α} {g : α → ExceptT δ (Program Op Ans) β}
  {err err' : δ → σ → Prop}

@[simp] theorem ensures_pure {a : α} :
    ensures h rely guar (pure a : ExceptT δ (Program Op Ans) α) ok err s ↔ ok a s := Iff.rfl

@[simp] theorem ensures_throw {e : δ} :
    ensures h rely guar (throw e : ExceptT δ (Program Op Ans) α) ok err s ↔ err e s := Iff.rfl

@[simp] theorem ensures_lift :
    ensures h rely guar (ExceptT.lift p : ExceptT δ (Program Op Ans) α) ok err s ↔
      assured h rely guar p ok s := by
  have hrun : (ExceptT.lift p : ExceptT δ (Program Op Ans) α).run =
      p >>= fun a => pure (.ok a) := rfl
  unfold ensures
  rw [hrun, assured_bind]
  exact Iff.rfl

theorem assured_run_bind {f : Except δ α → Program Op Ans β} {post : β → σ → Prop} :
    assured h rely guar (q.run >>= f) post s ↔
      ensures h rely guar q (fun a t => assured h rely guar (f (.ok a)) post t)
        (fun e t => assured h rely guar (f (.error e)) post t) s := by
  rw [assured_bind]
  constructor
  · intro hq
    refine assured_mono hq fun r t ht => ?_
    cases r with
    | ok a => exact ht
    | error e => exact ht
  · intro hq
    refine assured_mono hq fun r t ht => ?_
    cases r with
    | ok a => exact ht
    | error e => exact ht

@[simp] theorem ensures_bind {ok : β → σ → Prop} :
    ensures h rely guar (q >>= g) ok err s ↔
      ensures h rely guar q (fun a t => ensures h rely guar (g a) ok err t) err s := by
  rw [ensures, ExceptT.run_bind, assured_run_bind]
  rfl

@[simp] theorem ensures_tryCatch {f : δ → ExceptT δ (Program Op Ans) α} :
    ensures h rely guar (tryCatch q f) ok err s ↔
      ensures h rely guar q ok (fun e t => ensures h rely guar (f e) ok err t) s := by
  rw [ensures, ExceptT.run_tryCatch, assured_run_bind]
  rfl

theorem ensures_mono {ok' : α → σ → Prop} (hq : ensures h rely guar q ok err s)
    (hok : ∀ a t, ok a t → ok' a t) (herr : ∀ e t, err e t → err' e t) :
    ensures h rely guar q ok' err' s := by
  refine assured_mono hq fun r t ht => ?_
  cases r with
  | ok a => exact hok a t ht
  | error e => exact herr e t ht

/- `if c { return e }`. -/
def refuseIf (c : Prop) [Decidable c] (e : δ) : ExceptT δ (Program Op Ans) Unit :=
  if c then throw e else pure ()

@[simp] theorem ensures_refuseIf {c : Prop} [Decidable c] {e : δ} {ok : Unit → σ → Prop} :
    ensures h rely guar (refuseIf c e : ExceptT δ (Program Op Ans) Unit) ok err s ↔
      (c → err e s) ∧ (¬ c → ok () s) := by
  unfold refuseIf
  by_cases hc : c
  · rw [if_pos hc, ensures_throw]
    exact ⟨fun he => ⟨fun _ => he, fun hn => absurd hc hn⟩, fun hb => hb.1 hc⟩
  · rw [if_neg hc, ensures_pure]
    exact ⟨fun ho => ⟨fun hp => absurd hp hc, fun _ => ho⟩, fun hb => hb.2 hc⟩

/- A result that was computed without a call. -/
def returned : Except δ α → ExceptT δ (Program Op Ans) α
  | .ok a => pure a
  | .error e => throw e

@[simp] theorem ensures_returned {r : Except δ α} :
    ensures h rely guar (returned r : ExceptT δ (Program Op Ans) α) ok err s ↔
      (∀ a, r = .ok a → ok a s) ∧ ∀ e, r = .error e → err e s := by
  cases r with
  | ok a => simp [returned]
  | error e => simp [returned]

/- `fmt.Errorf` around the error of a call. -/
def wrap (text : δ → δ) (q : ExceptT δ (Program Op Ans) α) : ExceptT δ (Program Op Ans) α :=
  ExceptT.mk (q.run >>= fun r => pure (r.mapError text))

@[simp] theorem ensures_wrap {text : δ → δ} :
    ensures h rely guar (wrap text q) ok err s ↔
      ensures h rely guar q ok (fun e => err (text e)) s := by
  rw [ensures, wrap, ExceptT.run_mk, assured_run_bind]
  rfl

/-! ### Recorded runs

The environment answers as it likes and the state is the list of the calls made
so far with their answers. -/

abbrev Exchange (Ans : Op → Type) := (op : Op) × Ans op

def recorder : Handler Op Ans (List (Exchange Ans)) ((op : Op) → Ans op) :=
  fun op s e => (e op, s ++ [⟨op, e op⟩])

theorem ensures_ask {allowed : Op → List (Exchange Ans) → Prop} {op : Op}
    {rely : Call Op (List (Exchange Ans)) ((op : Op) → Ans op) → Prop}
    {ok : Ans op → List (Exchange Ans) → Prop} {err : δ → List (Exchange Ans) → Prop}
    {s : List (Exchange Ans)} (hallowed : allowed op s) (hok : ∀ a, ok a (s ++ [⟨op, a⟩])) :
    ensures recorder rely (fun c => allowed c.op c.before)
      (ExceptT.lift (perform op) : ExceptT δ (Program Op Ans) (Ans op)) ok err s := by
  rw [ensures_lift, assured_perform]
  intro e _
  exact ⟨hallowed, hok (e op)⟩

end Program
