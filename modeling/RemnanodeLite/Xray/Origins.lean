import RemnanodeLite.Xray.SingleCore

/-! # Where the calls and the process of a world come from

What a step leaves behind traced back to what was there before it: a call of Start
or of Stop is new, is the same up to its context, or has just moved by itself; the
current process has changed only if a Start has put it there. -/

namespace RemnanodeLite.Xray

def Ends (s s' : StartCall) : Prop :=
  s' = s ∨ ∃ c : CtxErr, s' = { s with ctxErr := s.ctxErr <|> some c }

section
variable {w w' : World} {e : Event} {t u : Tid} {s s' : StartCall}

theorem ctxErr_orElse_ne_none (c : Option CtxErr) (d : CtxErr) : (c <|> some d) ≠ none := by
  cases c <;> simp

theorem Ends.pc (h : Ends s s') : s'.pc = s.pc := by
  rcases h with rfl | ⟨c, rfl⟩
  · rfl
  · rfl

theorem Ends.role (h : Ends s s') : s'.role = s.role := by
  rcases h with rfl | ⟨c, rfl⟩
  · rfl
  · rfl

theorem Ends.ctxErr (h : Ends s s') (hs : s.ctxErr ≠ none) : s'.ctxErr ≠ none := by
  rcases h with rfl | ⟨c, rfl⟩
  · exact hs
  · exact ctxErr_orElse_ne_none _ _

theorem setThread_origin {th th' : Thread} (hth : th ≠ th')
    (h : (w.setThread u th).threads t = th') : w.threads t = th' := by
  rcases eq_or_ne t u with rfl | hu
  · rw [World.setThread_self] at h
    exact absurd h hth
  · rwa [World.setThread_of_ne _ _ hu] at h

theorem cancelStart_ends (w : World) (target : Tid) (hs : (w.cancelStart target).threads u = .start s') :
    ∃ s, w.threads u = .start s ∧ Ends s s' := by
  unfold World.cancelStart at hs
  split at hs
  · next s ht =>
    rcases eq_or_ne u target with rfl | hu
    · rw [World.setThread_self] at hs
      cases hs
      exact ⟨s, ht, .inr ⟨.canceled, rfl⟩⟩
    · rw [World.setThread_of_ne _ _ hu] at hs
      exact ⟨s', hs, .inl rfl⟩
  · exact ⟨s', hs, .inl rfl⟩

theorem cancelStart_stop {s : StopCall} (w : World) (target : Tid) :
    (w.cancelStart target).threads u = .stop s ↔ w.threads u = .stop s := by
  unfold World.cancelStart
  split
  · next s₁ ht =>
    rcases eq_or_ne u target with rfl | hu
    · rw [World.setThread_self, ht]
      simp
    · rw [World.setThread_of_ne _ _ hu]
  · exact Iff.rfl

theorem stopStep_starts {s₁ s₂ : StopCall} {ch : Pick} (hinv : w.ownership.Inv)
    (hu : w.threads u = .stop s₁) (h : stopStep w u s₁ ch = some (w', s₂))
    (ht : w'.threads t = .start s') : ∃ s, w.threads t = .start s ∧ Ends s s' := by
  have hview := stopStep_view hinv hu h
  cases hview with
  | signal p | finalize p pc ch ps sent =>
    rw [recordSignal_threads] at ht
    exact ⟨s', ht, .inl rfl⟩
  | cancel target =>
    cases target with
    | none => exact ⟨s', ht, .inl rfl⟩
    | some target => exact cancelStart_ends w target ht
  | _ => exact ⟨s', ht, .inl rfl⟩

theorem stopStep_stops {s₁ s₂ s₃ : StopCall} {ch : Pick} (hinv : w.ownership.Inv)
    (hu : w.threads u = .stop s₁) (h : stopStep w u s₁ ch = some (w', s₂)) :
    w'.threads t = .stop s₃ ↔ w.threads t = .stop s₃ := by
  have hview := stopStep_view hinv hu h
  cases hview with
  | signal p => rw [recordSignal_threads]
  | finalize p pc ch ps sent =>
    rw [recordSignal_threads]
    exact Iff.rfl
  | cancel target =>
    cases target with
    | none => exact Iff.rfl
    | some target => exact cancelStart_stop w target
  | _ => exact Iff.rfl

theorem start_origin (hinv : w.ownership.Inv) (hstep : step w e = some w')
    (ht : w'.threads t = .start s') :
    (∃ req, e = .callStart t req ∧ s' = .new req) ∨
      ∃ s, w.threads t = .start s ∧
        (Ends s s' ∨ ∃ ch w₁, e = .thread t ch ∧ startStep w t s ch = some (w₁, s') ∧
          w' = w₁.setThread t (.start s')) := by
  have hsame : w.threads t = .start s' → ∃ s, w.threads t = .start s ∧
      (Ends s s' ∨ ∃ ch w₁, e = .thread t ch ∧ startStep w t s ch = some (w₁, s') ∧
        w' = w₁.setThread t (.start s')) :=
    fun h => ⟨s', h, .inl (.inl rfl)⟩
  cases e with
  | callStart v req =>
    simp only [step] at hstep
    split at hstep
    · cases hstep
      rcases eq_or_ne t v with rfl | hv
      · rw [World.setThread_self] at ht
        cases ht
        exact .inl ⟨req, rfl, rfl⟩
      · rw [World.setThread_of_ne _ _ hv] at ht
        exact .inr (hsame ht)
    · cases hstep
  | callStop v | callLease v =>
    simp only [step] at hstep
    split at hstep
    · cases hstep
      exact .inr (hsame (setThread_origin (by simp) ht))
    · cases hstep
  | endContext v err =>
    simp only [step] at hstep
    split at hstep
    · next s₁ hv =>
      cases hstep
      rcases eq_or_ne t v with rfl | hne
      · rw [World.setThread_self] at ht
        cases ht
        exact .inr ⟨s₁, hv, .inl (.inr ⟨err, rfl⟩)⟩
      · rw [World.setThread_of_ne _ _ hne] at ht
        exact .inr (hsame ht)
    · cases hstep
      exact .inr (hsame (setThread_origin (by simp) ht))
    · cases hstep
  | thread v ch =>
    right
    cases step_view hstep with
    | start _ _ s₁ s₂ w₁ hv hstart =>
      have hth := (startView_kept (startStep_view hinv hv hstart)).1
      rcases eq_or_ne t v with rfl | hne
      · have hself := ht
        rw [World.setThread_self] at hself
        cases hself
        exact ⟨s₁, hv, .inr ⟨ch, w₁, rfl, hstart, rfl⟩⟩
      · rw [World.setThread_of_ne _ _ hne, hth] at ht
        exact hsame ht
    | stop _ _ s₁ s₂ w₁ hv hstop =>
      obtain ⟨s, hs, hends⟩ := stopStep_starts hinv hv hstop (setThread_origin (by simp) ht)
      exact ⟨s, hs, .inl hends⟩
    | lease _ _ l l' w₁ hv hlease =>
      have ht' := setThread_origin (by simp) ht
      rw [(leaseView_kept (leaseStep_view hlease)).1] at ht'
      exact hsame ht'
  | monitor p ch =>
    cases step_view hstep with
    | monitor _ _ _ _ hmon =>
      rw [(monitorView_shared (monitorStep_view hmon)).1] at ht
      exact .inr (hsame ht)
  | commit v c =>
    cases step_view hstep with
    | commit _ _ l p active =>
      rw [(commitUser_kept w active p c).1] at ht
      exact .inr (hsame ht)

theorem stop_origin {s' : StopCall} (hinv : w.ownership.Inv) (hstep : step w e = some w')
    (ht : w'.threads t = .stop s') :
    s'.pc = .reserve ∨ ∃ s, w.threads t = .stop s ∧ (s' = s ∨ ∃ ch w₁,
      stopStep w t s ch = some (w₁, s') ∧ w' = w₁.setThread t (.stop s')) := by
  have hsame : w.threads t = .stop s' → s'.pc = .reserve ∨ ∃ s, w.threads t = .stop s ∧
      (s' = s ∨ ∃ ch w₁, stopStep w t s ch = some (w₁, s') ∧ w' = w₁.setThread t (.stop s')) :=
    fun h => .inr ⟨s', h, .inl rfl⟩
  cases step_view hstep with
  | callStart v req | callLease v | endStart v | endLease v => exact hsame (setThread_origin (by simp) ht)
  | callStop v =>
    rcases eq_or_ne t v with rfl | hv
    · rw [World.setThread_self] at ht
      cases ht
      exact .inl rfl
    · rw [World.setThread_of_ne _ _ hv] at ht
      exact hsame ht
  | start v ch s₁ s₂ w₁ hv hs =>
    have ht' := setThread_origin (by simp) ht
    rw [(startView_kept (startStep_view hinv hv hs)).1] at ht'
    exact hsame ht'
  | stop v ch s₁ s₂ w₁ hv hs =>
    rcases eq_or_ne t v with rfl | hne
    · have hself := ht
      rw [World.setThread_self] at hself
      cases hself
      exact .inr ⟨s₁, hv, .inr ⟨ch, w₁, hs, rfl⟩⟩
    · rw [World.setThread_of_ne _ _ hne, stopStep_stops hinv hv hs] at ht
      exact hsame ht
  | lease v ch l l' w₁ hv hs =>
    have ht' := setThread_origin (by simp) ht
    rw [(leaseView_kept (leaseStep_view hs)).1] at ht'
    exact hsame ht'
  | monitor p ch _ hp hs =>
    rw [(monitorView_shared (monitorStep_view hs)).1] at ht
    exact hsame ht
  | commit v c l p active =>
    rw [(commitUser_kept w active p c).1] at ht
    exact hsame ht

theorem process_origin {p : Pid} (hinv : w.ownership.Inv) (hstep : step w e = some w')
    (hp : w'.process = some p) :
    w.process = some p ∨ ∃ t ch s, e = .thread t ch ∧ w.threads t = .start s ∧
      (s.pc = .assignProcess p ∨ ∃ err, s.pc = .retainUnclean p err) := by
  cases step_view hstep with
  | callStart | callStop | callLease | endStart | endLease => exact .inl hp
  | start v ch s₁ s₂ w₁ hv hs =>
    rcases startView_process (startStep_view hinv hv hs) hp with hold | hpc
    · exact .inl hold
    · exact .inr ⟨v, ch, s₁, rfl, hv, hpc⟩
  | stop v ch s₁ s₂ w₁ hv hs =>
    cases stopStep_view hinv hv hs with
    | signal x => exact .inl ((recordSignal_process ..).symm.trans hp)
    | finalize x pc c ps sent =>
      exact .inl ((recordSignal_process (w.setProc x ps) ..).symm.trans hp)
    | cancel target =>
      obtain ⟨threads, heq, -⟩ := cancel_kept w target
      rw [heq] at hp
      exact .inl hp
    | publishStopped => cases hp
    | _ => exact .inl hp
  | lease v ch l l' w₁ hv hs =>
    cases leaseStep_view hs <;> exact .inl hp
  | monitor x ch _ hx hs =>
    cases monitorStep_view hs with
    | observe | readOutcome => exact .inl hp
    | finalize pc c ps sent =>
      exact .inl ((recordSignal_process (w.setProc x _) ..).symm.trans hp)
    | callback o =>
      rcases monitorCallback_cases w x o with ⟨-, heq⟩ | ⟨-, -, ⟨-, heq⟩ | ⟨-, heq⟩⟩ <;>
        rw [heq] at hp
      · exact .inl hp
      · cases hp
      · exact .inl hp
  | commit v c l x active =>
    rcases commitUser_cases w active x c with heq | ⟨-, heq⟩ <;> rw [heq] at hp <;> exact .inl hp

end

end RemnanodeLite.Xray
