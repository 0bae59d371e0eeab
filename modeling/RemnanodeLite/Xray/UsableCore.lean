import RemnanodeLite.Xray.CoreLoader

/-! # What a Start executes

Only the Start that owns the lifecycle touches the cache. While it does, the
current process is the one its fallback belongs to; so the files that matter are
the one the owner has selected and the one of the current process. -/

namespace RemnanodeLite.Xray.Cores
open Filepath Transition

/-! ### Steps of the manager -/

/- A Start that has a binary and has not executed it yet. -/
def selects : StartPC → Bool
  | .ctxAfterPanelRuntime | .terminatePrevious _ | .ctxAfterTerminate | .runPreStart
  | .ctxAfterPreStart | .stageConfig | .releaseGate | .startProcess => true
  | _ => false

def Detached (s : StartCall) (p : Pid) : Prop := ∃ k, s.role = .owns k (.detached p)

section
variable {w w' : World} {e : Xray.Event} {t u : Tid} {s s' : StartCall} {ch : Pick} {p : Pid}

theorem owns_of_selects (h : selects s.pc = true) : ∃ k ph, s.role = .owns k ph := by
  cases hpc : s.pc <;> simp_all [selects, StartCall.role]

theorem owns_of_panelRuntime (h : s.pc = .panelRuntime) :
    s.role = .owns (.start s.operationEpoch) (.holding s.previousProcess) := by
  simp only [StartCall.role, h]

theorem startStep_selects (hinv : w.ownership.Inv) (ht : w.threads t = .start s)
    (h : Xray.startStep w t s ch = some (w', s')) (hsel : selects s'.pc = true) :
    selects s.pc = true ∨ s.pc = .panelRuntime := by
  have hframe : s.SameFrame s' → selects s.pc = true ∨ s.pc = .panelRuntime := by
    intro hframe
    have hreserved : s.pc.reserved = true := by
      apply hframe.reserved
      cases hpc : s'.pc <;> simp_all [selects, StartPC.reserved]
    cases hpc : s.pc with
    | prepareConfig =>
      simp only [Xray.startStep, hpc, Option.some.injEq, Prod.mk.injEq] at h
      obtain ⟨-, rfl⟩ := h
      split_ifs at hsel <;> cases hsel
    | ctxAfterPrepare =>
      simp only [Xray.startStep, hpc, Option.some.injEq, Prod.mk.injEq] at h
      obtain ⟨-, rfl⟩ := h
      rcases checkCtx_eq s .panelRuntime with heq | ⟨r, heq⟩ <;> rw [heq] at hsel <;> cases hsel
    | panelRuntime => exact .inr rfl
    | _ => simp_all [selects, StartPC.reserved]
  cases startStep_view hinv ht h with
  | quiet s' hf => exact hframe hf
  | signal p s' hf => exact hframe hf
  | unlock p next _ _ _ hnext =>
    rcases hnext with ⟨hpc, -⟩ | ⟨r, -, rfl⟩
    · rw [hpc]
      exact .inl rfl
    · cases hsel
  | drainPrevious pc hpc =>
    rw [hpc]
    exact .inl rfl
  | records w' next hrec =>
    cases hrec with
    | stage hpc =>
      rw [hpc]
      exact .inl rfl
    | _ => cases hsel
  | lose next _ hnext => rcases hnext with ⟨-, rfl⟩ | ⟨p, -, rfl⟩ <;> cases hsel
  | _ => cases hsel

theorem startStep_detached (hinv : w.ownership.Inv) (ht : w.threads t = .start s)
    (h : Xray.startStep w t s ch = some (w', s')) (hdet : Detached s' p) :
    Detached s p ∨ s.pc = .startProcess ∧ ch.ok = true ∧ p = w.spawned := by
  obtain ⟨k, hrole⟩ := hdet
  cases startStep_view hinv ht h with
  | quiet s' hf => exact .inl ⟨k, hf.role ▸ hrole⟩
  | signal p s' hf => exact .inl ⟨k, hf.role ▸ hrole⟩
  | unlock p next _ _ hf =>
    exact .inl ⟨k, hf.role ▸ hrole⟩
  | lose next _ hnext =>
    rcases hnext with ⟨-, rfl⟩ | ⟨x, hpc, rfl⟩
    · cases hrole
    · cases hrole
      exact .inl ⟨.start s.operationEpoch, by simp only [StartCall.role, hpc]⟩
  | records w' next hrec =>
    cases hrec with
    | spawn hpc =>
      have hok : ch.ok = true := by
        by_contra hok
        simp [Xray.startStep, hpc, hok, StartCall.goto] at h
      cases hrole
      exact .inr ⟨hpc, hok, rfl⟩
    | _ => cases hrole
  | _ => cases hrole

theorem panelRuntime_ok (h : Xray.startStep w t s ch = some (w', s'))
    (hpc : s.pc = .panelRuntime) (hsel : selects s'.pc = true) : ch.ok = true := by
  simp only [Xray.startStep, hpc, Option.some.injEq, Prod.mk.injEq] at h
  obtain ⟨-, rfl⟩ := h
  by_contra hok
  rw [if_neg hok] at hsel
  cases hsel

/- The current process, or one that a Start has spawned and may yet make current. -/
def Bound (w : World) (p : Pid) : Prop :=
  w.process = some p ∨ ∃ t s, w.threads t = .start s ∧ Detached s p

theorem bound_of_holding {k : Ownership.Kind} {q : Option Pid} (hinv : w.ownership.Inv)
    (hrole : w.ownership.role t = .owns k (.holding q)) (hp : Bound w p) : q = some p := by
  rcases hp with hp | ⟨u, s, hu, k', hdet⟩
  · exact (hinv.phase t _ _ hrole).1.symm.trans hp
  · have hrole' : w.ownership.role u = .owns k' (.detached p) := by
      simp only [World.ownership, hu, Thread.role, hdet]
    rw [hinv.unique hrole hrole', hrole] at hrole'
    cases hrole'

theorem not_bound_of_drained {k : Ownership.Kind} (hinv : w.ownership.Inv)
    (hrole : w.ownership.role t = .owns k (.drained none)) : ¬ Bound w p := by
  rintro (hp | ⟨u, s, hu, k', hdet⟩)
  · have hnone : w.process = none := (hinv.phase t _ _ hrole).1
    rw [hnone] at hp
    cases hp
  · have hrole' : w.ownership.role u = .owns k' (.detached p) := by
      simp only [World.ownership, hu, Thread.role, hdet]
    rw [hinv.unique hrole hrole', hrole] at hrole'
    cases hrole'

def Executes (w : World) (e : Xray.Event) (t : Tid) : Prop :=
  ∃ ch s, e = .thread t ch ∧ ch.ok = true ∧ w.threads t = .start s ∧ s.pc = .startProcess

theorem bound_origin (hinv : w.ownership.Inv) (hstep : Xray.step w e = some w')
    (hp : Bound w' p) : Bound w p ∨ p = w.spawned ∧ ∃ t, Executes w e t := by
  rcases hp with hp | ⟨t, s', hs', hdet⟩
  · rcases process_origin hinv hstep hp with hp | ⟨t, ch, s, rfl, hs, hpc⟩
    · exact .inl (.inl hp)
    · refine .inl (.inr ⟨t, s, hs, ?_⟩)
      rcases hpc with hpc | ⟨err, hpc⟩
      · exact ⟨.start s.operationEpoch, by simp only [StartCall.role, hpc]⟩
      · exact ⟨.lost s.operationEpoch, by simp only [StartCall.role, hpc]⟩
  · rcases start_origin hinv hstep hs' with ⟨req, -, rfl⟩ | ⟨s, hs, hends | ⟨ch, w₁, rfl, hstart, -⟩⟩
    · obtain ⟨k, hrole⟩ := hdet
      cases hrole
    · obtain ⟨k, hrole⟩ := hdet
      exact .inl (.inr ⟨t, s, hs, k, Ends.role hends ▸ hrole⟩)
    · rcases startStep_detached hinv hs hstart hdet with hdet | ⟨hpc, hok, rfl⟩
      · exact .inl (.inr ⟨t, s, hs, hdet⟩)
      · exact .inr ⟨rfl, t, ch, s, rfl, hok, hs, hpc⟩

end

/-! ### What is usable -/

section
variable {m : Settings} {h h' : Host} {w : World} {e : Xray.Event} {t u : Tid} {s s' : StartCall}
  {b : Location} {k : Ownership.Kind} {ph : Ownership.Phase Pid}

theorem Usable.mono (hb : Usable m h b)
    (hcores : ∀ name content, b = name :: m.coreDir → h.cores name = some (.file content) →
      m.sha256 content = name →
      ∃ content', h'.cores name = some (.file content') ∧ m.sha256 content' = name)
    (hprobed : ∀ name ∈ h.probed, name ∈ h'.probed) : Usable m h' b := by
  rcases hb with hb | ⟨name, content, hb, hfile, hsha, hname⟩
  · exact .inl hb
  · obtain ⟨content', hfile', hsha'⟩ := hcores name content hb hfile hsha
    exact .inr ⟨name, content', hb, hfile', hsha', hprobed name hname⟩

variable {ch : PanelChoice} {stuck : List Text}

theorem validate_file {name : Text} {entry : Option Entry}
    (h : validateCoreCandidate m entry name ch = true) :
    ∃ content, entry = some (.file content) ∧ m.sha256 content = name := by
  simp only [validateCoreCandidate, Bool.and_eq_true, decide_eq_true_eq] at h
  obtain ⟨⟨hhash, -⟩, -⟩ := h
  unfold hashRegularFile at hhash
  split at hhash
  · next content =>
    split_ifs at hhash
    exact ⟨content, rfl, Option.some.inj hhash⟩
  · cases hhash

structure StartOk (m : Settings) (h : Host) (t : Tid) (s : StartCall) : Prop where
  selected : selects s.pc = true → Usable m h (h.selected t)
  prepared : s.pc = .panelRuntime → ∀ b, h.prep t = .prepareGeoData b → Usable m h b
  fresh : s.pc ≠ .panelRuntime → h.prep t = .prepareCore

structure Ok (m : Settings) (h : Host) : Prop where
  bound : ∀ p, Bound h.xray p → Usable m h (h.binary p)
  starts : ∀ t s, h.xray.threads t = .start s → StartOk m h t s

theorem StartOk.other (hok : StartOk m h u s') (hinv : h.xray.ownership.Inv)
    (ht : h.xray.threads t = .start s) (howns : s.role = .owns k ph)
    (hu : h.xray.threads u = .start s') (hne : u ≠ t) (hprep : h'.prep u = h.prep u) :
    StartOk m h' u s' := by
  have hnot : ∀ k' ph', s'.role ≠ .owns k' ph' := by
    intro k' ph' hrole
    exact hne (hinv.unique ((role_of_start ht).trans howns) ((role_of_start hu).trans hrole))
  refine ⟨?_, ?_, ?_⟩
  · intro hsel
    obtain ⟨k', ph', hrole⟩ := owns_of_selects hsel
    exact absurd hrole (hnot k' ph')
  · intro hpc
    exact absurd (owns_of_panelRuntime hpc) (hnot _ _)
  · intro hpc
    exact hprep.trans (hok.fresh hpc)

theorem Ok.owner (hok : Ok m h) (hinv : h.xray.ownership.Inv) (ht : h.xray.threads t = .start s)
    (howns : s.role = .owns k ph) (hxray : h'.xray = h.xray)
    (hprep : ∀ u, u ≠ t → h'.prep u = h.prep u)
    (hbound : ∀ p, Bound h.xray p → Usable m h' (h'.binary p)) (hown : StartOk m h' t s) :
    Ok m h' := by
  refine ⟨?_, ?_⟩
  · intro p hp
    rw [hxray] at hp
    exact hbound p hp
  · intro u s₁ hu
    rw [hxray] at hu
    rcases eq_or_ne u t with rfl | hne
    · rw [ht] at hu
      cases hu
      exact hown
    · exact (hok.starts u s₁ hu).other hinv ht howns hu hne (hprep u hne)

/- The manager moves. A Start that leaves `preparePanelRuntime` has a usable binary, and
so has the process that a Start executes. -/
theorem Ok.move (hok : Ok m h) (hinv : h.xray.ownership.Inv) (hstep : Xray.step h.xray e = some w)
    (hnew : ∀ t req, e = .callStart t req → h.prep t = .prepareCore)
    (hpanel : ∀ t ch s, e = .thread t ch → h.xray.threads t = .start s → s.pc = .panelRuntime →
      h.prep t = .prepareCore ∧ (ch.ok = true → Usable m h (h.selected t)))
    (hexec : ∀ t, Executes h.xray e t → Usable m h (h.binary h.xray.spawned)) :
    Ok m { h with xray := w } := by
  refine ⟨?_, ?_⟩
  · intro p hp
    rcases bound_origin hinv hstep hp with hp | ⟨rfl, t, ht⟩
    · exact hok.bound p hp
    · exact hexec t ht
  · intro t s' ht
    rcases start_origin hinv hstep ht with ⟨req, rfl, rfl⟩ | ⟨s, hs, hends | ⟨ch, w₁, rfl, hstart, -⟩⟩
    · exact ⟨nofun, nofun, fun _ => hnew t req rfl⟩
    · have hold := hok.starts t s hs
      have hpc := Ends.pc hends
      exact ⟨fun hsel => hold.selected (hpc ▸ hsel), fun h => hold.prepared (hpc ▸ h),
        fun h => hold.fresh (hpc ▸ h)⟩
    · have hold := hok.starts t s hs
      have hfresh : h.prep t = .prepareCore := by
        by_cases hpc : s.pc = .panelRuntime
        · exact (hpanel t ch s rfl hs hpc).1
        · exact hold.fresh hpc
      refine ⟨?_, ?_, fun _ => hfresh⟩
      · intro hsel
        rcases startStep_selects hinv hs hstart hsel with hsel | hpc
        · exact hold.selected hsel
        · exact (hpanel t ch s rfl hs hpc).2 (panelRuntime_ok hstart hpc hsel)
      · intro _ b hb
        rw [hfresh] at hb
        cases hb

/-! ### `preparePanelRuntime` -/

@[simp] theorem goto_prep_self (h : Host) (t : Tid) (pc : PreparePC) : (h.goto t pc).prep t = pc :=
  Function.update_self ..

theorem goto_prep_of_ne (pc : PreparePC) (hne : u ≠ t) : (h.goto t pc).prep u = h.prep u :=
  Function.update_of_ne hne ..

theorem holding_of_panelRuntime (hinv : h.xray.ownership.Inv) (ht : h.xray.threads t = .start s)
    (hpc : s.pc = .panelRuntime) {p : Pid} (hp : Bound h.xray p) : s.previousProcess = some p :=
  bound_of_holding hinv ((role_of_start ht).trans (owns_of_panelRuntime hpc)) hp

theorem Ok.panel (hok : Ok m h) (hinv : h.xray.ownership.Inv) (ht : h.xray.threads t = .start s)
    (hpc : s.pc = .panelRuntime) (hxray : h'.xray = h.xray) (hbinary : h'.binary = h.binary)
    (hprep : ∀ u, u ≠ t → h'.prep u = h.prep u)
    (hprevious : ∀ p, s.previousProcess = some p → Usable m h' (h.binary p))
    (hprepared : ∀ b, h'.prep t = .prepareGeoData b → Usable m h' b) : Ok m h' := by
  refine hok.owner hinv ht (owns_of_panelRuntime hpc) hxray hprep ?_ ?_
  · intro p hp
    rw [hbinary]
    exact hprevious p (holding_of_panelRuntime hinv ht hpc hp)
  · refine ⟨?_, fun _ => hprepared, fun hne => absurd hpc hne⟩
    rw [hpc]
    exact nofun

theorem Ok.previous (hok : Ok m h) (hinv : h.xray.ownership.Inv) (ht : h.xray.threads t = .start s)
    (hpc : s.pc = .panelRuntime) (p : Pid) (hp : s.previousProcess = some p) :
    Usable m h (h.binary p) := by
  have hrole := (role_of_start ht).trans (owns_of_panelRuntime hpc)
  exact hok.bound p (.inl ((hinv.phase t _ _ hrole).1.trans hp))

theorem fallback_usable (hprevious : ∀ p, s.previousProcess = some p → Usable m h' (h.binary p)) :
    Usable m h' (h.fallbackBinary m s) := by
  unfold Host.fallbackBinary
  split
  · next p hp =>
    split_ifs
    · exact hprevious p hp
    · exact .inl rfl
  · exact .inl rfl

theorem Ok.goto (hok : Ok m h) (hinv : h.xray.ownership.Inv) (ht : h.xray.threads t = .start s)
    (hpc : s.pc = .panelRuntime) {pc : PreparePC}
    (hprepared : ∀ b, pc = .prepareGeoData b → Usable m h b) : Ok m (h.goto t pc) := by
  refine hok.panel hinv ht hpc rfl rfl (fun u hne => goto_prep_of_ne pc hne)
    (hok.previous hinv ht hpc) ?_
  intro b hb
  rw [goto_prep_self] at hb
  exact hprepared b hb

theorem Ok.failPanel {err : String} (hok : Ok m h) (hinv : h.xray.ownership.Inv)
    (ht : h.xray.threads t = .start s) (hpc : s.pc = .panelRuntime)
    (hstep : h.failPanel t err = some h') : Ok m h' := by
  obtain ⟨w, hw, rfl⟩ := Option.map_eq_some_iff.mp hstep
  have hreset : Ok m (h.goto t .prepareCore) := hok.goto hinv ht hpc nofun
  refine hreset.move hinv hw nofun ?_ ?_
  · intro u ch s₁ he hu _
    cases he
    exact ⟨goto_prep_self .., nofun⟩
  · rintro u ⟨ch, s₁, he, hch, -⟩
    cases he
    cases hch

theorem Ok.finishPanel (hok : Ok m h) (hinv : h.xray.ownership.Inv)
    (ht : h.xray.threads t = .start s) (hpc : s.pc = .panelRuntime) (hb : Usable m h b)
    (hstep : h.finishPanel t b = some h') : Ok m h' := by
  obtain ⟨w, hw, rfl⟩ := Option.map_eq_some_iff.mp hstep
  have hchosen : Ok m { h.goto t .prepareCore with selected := Function.update h.selected t b } := by
    refine hok.panel hinv ht hpc rfl rfl (fun u hne => goto_prep_of_ne _ hne)
      (hok.previous hinv ht hpc) ?_
    intro b' hb'
    simp only [goto_prep_self] at hb'
    cases hb'
  refine hchosen.move hinv hw nofun ?_ ?_
  · intro u ch s₁ he hu _
    cases he
    refine ⟨goto_prep_self .., fun _ => ?_⟩
    simp only [Function.update_self]
    exact hb
  · rintro u ⟨ch, s₁, he, -, hu, hpc₁⟩
    cases he
    rw [show h.xray.threads t = .start s₁ from hu] at ht
    cases ht
    rw [hpc] at hpc₁
    cases hpc₁

theorem Ok.checkCtx {next : PreparePC} (hok : Ok m h) (hinv : h.xray.ownership.Inv)
    (ht : h.xray.threads t = .start s) (hpc : s.pc = .panelRuntime)
    (hprepared : ∀ b, next = .prepareGeoData b → Usable m h b)
    (hstep : h.checkCtx t s next = some h') : Ok m h' := by
  unfold Host.checkCtx at hstep
  split at hstep
  · exact hok.failPanel hinv ht hpc hstep
  · cases hstep
    exact hok.goto hinv ht hpc hprepared

theorem Ok.validate {core : CustomCore} {failed : PreparePC} (hok : Ok m h)
    (hinv : h.xray.ownership.Inv) (ht : h.xray.threads t = .start s) (hpc : s.pc = .panelRuntime)
    (hfailed : ∀ b, failed ≠ .prepareGeoData b) : Ok m (h.validate m t core ch failed) := by
  unfold Host.validate
  split_ifs with hvalid
  · have hkeep : ∀ b, Usable m h b → Usable m
        { h.goto t (.prepareGeoData (core.destination m)) with probed := core.sha256 :: h.probed } b :=
      fun b hb => hb.mono (fun name content _ hfile hsha => ⟨content, hfile, hsha⟩)
        fun name hname => List.mem_cons_of_mem _ hname
    refine hok.panel hinv ht hpc rfl rfl (fun u hne => goto_prep_of_ne _ hne)
      (fun p hp => hkeep _ (hok.previous hinv ht hpc p hp)) ?_
    intro b hb
    simp only [goto_prep_self] at hb
    cases hb
    obtain ⟨content, hfile, hsha⟩ := validate_file hvalid
    exact .inr ⟨core.sha256, content, core.destination_eq m, hfile, hsha, List.mem_cons_self⟩
  · exact hok.goto hinv ht hpc fun b hb => absurd hb (hfailed b)

def removal (h : Host) : Event → Option (StartCall × CustomCore)
  | .panel t ch => match h.xray.threads t, h.prep t with
    | .start s, .remove core => if ch.removed then some (s, core) else none
    | _, _ => none
  | _ => none

/- What is removed is not the file of the core that the Start falls back to. -/
def Spares (m : Settings) (h : Host) (e : Event) : Prop :=
  (removal h e).all (fun (s, core) => h.fallbackBinary m s ≠ core.destination m) = true

instance (m : Settings) (h : Host) (e : Event) : Decidable (Spares m h e) :=
  inferInstanceAs (Decidable (_ = true))

theorem panelStep_ok (hok : Ok m h) (hinv : h.xray.ownership.Inv) (ht : h.xray.threads t = .start s)
    (hpc : s.pc = .panelRuntime) (hspares : Spares m h (.panel t ch))
    (hstep : panelStep m h t s ch = some h') : Ok m h' := by
  have hfallback : ∀ b, PreparePC.prepareGeoData (h.fallbackBinary m s) = .prepareGeoData b →
      Usable m h b := by
    intro b hb
    cases hb
    exact fallback_usable (hok.previous hinv ht hpc)
  unfold panelStep at hstep
  dsimp only at hstep
  split at hstep
  · cases hstep
    apply hok.goto hinv ht hpc
    intro b hb
    split at hb
    · cases hb
      exact .inl rfl
    · exact hfallback b hb
    · split_ifs at hb
      exact hfallback b hb
  · cases hstep
    exact hok.validate hinv ht hpc nofun
  · refine hok.checkCtx hinv ht hpc ?_ hstep
    exact nofun
  · next core _ =>
    split at hstep
    · next content hcontent =>
      cases hstep
      have hsha : m.sha256 content = core.sha256 := by
        simpa using (Option.filter_eq_some_iff.mp hcontent).2
      refine hok.panel hinv ht hpc rfl rfl (fun u hne => goto_prep_of_ne _ hne) ?_ ?_
      · intro p hp
        refine (hok.previous hinv ht hpc p hp).mono ?_ fun name hname => hname
        intro name old _ hfile hold
        rcases eq_or_ne name core.sha256 with rfl | hname
        · exact ⟨content, Function.update_self .., hsha⟩
        · exact ⟨old, (Function.update_of_ne hname ..).trans hfile, hold⟩
      · intro b hb
        simp only [goto_prep_self] at hb
        cases hb
    · cases hstep
      exact hok.goto hinv ht hpc nofun
  · exact hok.checkCtx hinv ht hpc hfallback hstep
  · cases hstep
    exact hok.validate hinv ht hpc nofun
  · refine hok.checkCtx hinv ht hpc ?_ hstep
    exact nofun
  · next core hprep =>
    cases hstep
    have hprevious : ∀ p, s.previousProcess = some p → Usable m
        { h.goto t (.prepareGeoData (h.fallbackBinary m s)) with
          cores := if ch.removed then Function.update h.cores core.sha256 none else h.cores }
        (h.binary p) := by
      intro p hp
      refine (hok.previous hinv ht hpc p hp).mono ?_ fun name hname => hname
      intro name content hb hfile hsha
      refine ⟨content, ?_, hsha⟩
      dsimp only
      split_ifs with hremoved
      · have hne : name ≠ core.sha256 := by
          rintro rfl
          have hne : h.fallbackBinary m s ≠ core.destination m := by
            simpa [Spares, removal, ht, hprep, hremoved] using hspares
          apply hne
          simp [Host.fallbackBinary, hp, hb, core.destination_eq]
        exact (Function.update_of_ne hne ..).trans hfile
      · exact hfile
    refine hok.panel hinv ht hpc rfl rfl (fun u hne => goto_prep_of_ne _ hne) hprevious ?_
    intro b hb
    simp only [goto_prep_self] at hb
    cases hb
    exact fallback_usable hprevious
  · next binary hprep =>
    split_ifs at hstep
    · exact hok.finishPanel hinv ht hpc ((hok.starts t s ht).prepared hpc binary hprep) hstep
    · exact hok.failPanel hinv ht hpc hstep

/-! ### Whole runs -/

theorem Ok.sweep {p : Pid} (hok : Ok m h) (hinv : h.xray.ownership.Inv)
    (ht : h.xray.threads t = .start s) (hpc : s.pc = .ctxAfterVersion p) :
    Ok m { h with cores := cleanupCoreCache m h.cores (h.binary p) stuck } := by
  have howns : s.role = .owns (.start s.operationEpoch) (.holding (some p)) := by
    simp only [StartCall.role, hpc]
  have hold := hok.starts t s ht
  refine hok.owner hinv ht howns rfl (fun _ _ => rfl) ?_ ?_
  · intro q hq
    have hpq : p = q :=
      Option.some.inj (bound_of_holding hinv ((role_of_start ht).trans howns) hq)
    rw [← hpq] at hq ⊢
    refine (hok.bound p hq).mono ?_ fun name hname => hname
    intro name content hb hfile hsha
    refine ⟨content, ?_, hsha⟩
    simp [cleanupCoreCache, cached, hb, hfile]
  · refine ⟨?_, ?_, hold.fresh⟩ <;> rw [hpc] <;> intros <;> contradiction

theorem Ok.spawn (hok : Ok m h) (hinv : h.xray.ownership.Inv) (ht : h.xray.threads t = .start s)
    (hpc : s.pc = .startProcess) :
    Ok m { h with binary := Function.update h.binary h.xray.spawned (h.selected t) } := by
  have howns : s.role = .owns (.start s.operationEpoch) (.drained none) := by
    simp only [StartCall.role, hpc]
  have hold := hok.starts t s ht
  refine hok.owner hinv ht howns rfl (fun _ _ => rfl) ?_ ⟨hold.selected, hold.prepared, hold.fresh⟩
  intro p hp
  exact absurd hp (not_bound_of_drained hinv ((role_of_start ht).trans howns))

theorem Ok.plain {ch : Pick} (hok : Ok m h) (hinv : h.xray.ownership.Inv)
    (ht : h.xray.threads t = .start s) (hpanel : s.pc ≠ .panelRuntime)
    (hexec : s.pc = .startProcess → ch.ok = false)
    (hstep : Xray.step h.xray (.thread t ch) = some w) : Ok m { h with xray := w } := by
  refine hok.move hinv hstep nofun ?_ ?_
  · intro u ch₁ s₁ he hu hpc
    cases he
    rw [ht] at hu
    cases hu
    exact absurd hpc hpanel
  · rintro u ⟨ch₁, s₁, he, hch, hu, hpc⟩
    cases he
    rw [ht] at hu
    cases hu
    rw [hexec hpc] at hch
    cases hch

theorem startStep_ok {ch : Pick} (hok : Ok m h) (hinv : h.xray.ownership.Inv)
    (ht : h.xray.threads t = .start s) (hstep : startStep m h t s ch stuck = some h') :
    Ok m h' := by
  unfold startStep at hstep
  dsimp only at hstep
  split at hstep
  · cases hstep
  · next hpc =>
    split_ifs at hstep with hch hexe
    · obtain ⟨h₁, hmoved, rfl⟩ := Option.map_eq_some_iff.mp hstep
      obtain ⟨w, hw, rfl⟩ := Option.map_eq_some_iff.mp hmoved
      refine (hok.spawn hinv ht hpc).move hinv hw nofun ?_ ?_
      · intro u ch₁ s₁ he hu hpc₁
        cases he
        rw [show h.xray.threads t = .start s₁ from hu] at ht
        cases ht
        rw [hpc] at hpc₁
        cases hpc₁
      · intro u _
        simp only [Function.update_self]
        exact (hok.starts t s ht).selected (by rw [hpc]; rfl)
    · obtain ⟨w, hw, rfl⟩ := Option.map_eq_some_iff.mp hstep
      exact hok.plain hinv ht (by rw [hpc]; nofun) (fun _ => by simpa using hch) hw
  · next p hpc =>
    have hplain : ∀ {g : Host} {w : World}, Ok m g → g.xray = h.xray →
        Xray.step h.xray (.thread t ch) = some w → Ok m { g with xray := w } := by
      intro g w hg hgx hw
      refine hg.plain (hgx ▸ hinv) (hgx ▸ ht) ?_ ?_ (hgx ▸ hw) <;> rw [hpc] <;> exact nofun
    split_ifs at hstep
    · obtain ⟨h₁, hmoved, rfl⟩ := Option.map_eq_some_iff.mp hstep
      obtain ⟨w, hw, rfl⟩ := Option.map_eq_some_iff.mp hmoved
      exact hplain (hok.sweep hinv ht hpc) rfl hw
    · obtain ⟨w, hw, rfl⟩ := Option.map_eq_some_iff.mp hstep
      exact hplain hok rfl hw
  · next hpanel hstart _ =>
    obtain ⟨w, hw, rfl⟩ := Option.map_eq_some_iff.mp hstep
    exact hok.plain hinv ht hpanel (fun hpc => absurd hpc hstart) hw

theorem step_ok {e : Event} (hok : Ok m h) (hinv : h.xray.ownership.Inv) (hspares : Spares m h e)
    (hstep : step m h e = some h') : Ok m h' := by
  have hother : ∀ {g : Host} {f : Xray.Event} {w : World}, Ok m g → g.xray = h.xray →
      (∀ t ch s, f = .thread t ch → h.xray.threads t ≠ .start s) →
      (∀ t req, f = .callStart t req → g.prep t = .prepareCore) →
      Xray.step h.xray f = some w → Ok m { g with xray := w } := by
    intro g f w hg hgx hnot hnew hw
    refine hg.move (hgx ▸ hinv) (hgx ▸ hw) hnew ?_ ?_
    · intro t ch s hf ht
      rw [hgx] at ht
      exact absurd ht (hnot t ch s hf)
    · rintro t ⟨ch, s, hf, -, ht, -⟩
      rw [hgx] at ht
      exact absurd ht (hnot t ch s hf)
  cases e with
  | callStart t req geodata =>
    obtain ⟨w, hw, rfl⟩ := Option.map_eq_some_iff.mp hstep
    have hidle : h.xray.threads t = .idle := by
      cases step_view hw with
      | callStart _ _ ht => exact ht
    have hcalled : Ok m { h.goto t .prepareCore with
        geodata := Function.update h.geodata t geodata } := by
      refine ⟨hok.bound, ?_⟩
      intro u s hu
      have hne : u ≠ t := by
        rintro rfl
        rw [show h.xray.threads u = .start s from hu] at hidle
        cases hidle
      have hold := hok.starts u s hu
      have hprep : (h.goto t .prepareCore).prep u = h.prep u := goto_prep_of_ne _ hne
      exact ⟨hold.selected, fun hpc b hb => hold.prepared hpc b (hprep.symm.trans hb),
        fun hpc => hprep.trans (hold.fresh hpc)⟩
    refine hother hcalled rfl ?_ ?_ hw
    · intro u ch s he
      cases he
    · intro u req' he
      cases he
      exact goto_prep_self ..
  | panel t ch =>
    simp only [step] at hstep
    split at hstep
    · next s ht =>
      split_ifs at hstep with hpc
      exact panelStep_ok hok hinv ht hpc hspares hstep
    · cases hstep
  | xray f stuck =>
    cases f with
    | callStart => cases hstep
    | thread t ch =>
      simp only [step] at hstep
      split at hstep
      · next s ht => exact startStep_ok hok hinv ht hstep
      · next hnot =>
        obtain ⟨w, hw, rfl⟩ := Option.map_eq_some_iff.mp hstep
        refine hother hok rfl ?_ ?_ hw
        · intro u ch' s he hu
          cases he
          exact hnot s hu
        · intro u req he
          cases he
    | callStop | callLease | endContext | monitor | commit =>
      obtain ⟨w, hw, rfl⟩ := Option.map_eq_some_iff.mp hstep
      refine hother hok rfl ?_ ?_ hw
      · intro u ch s he
        cases he
      · intro u req he
        cases he

/- The manager stays as it is or takes a step of its own. -/
def Follows (h h' : Host) : Prop := h'.xray = h.xray ∨ ∃ f, Xray.step h.xray f = some h'.xray

theorem follows_of_map {f : Xray.Event} {g : World → Host} (hg : ∀ w, (g w).xray = w)
    (hstep : (Xray.step h.xray f).map g = some h') : Follows h h' := by
  obtain ⟨w, hw, rfl⟩ := Option.map_eq_some_iff.mp hstep
  exact .inr ⟨f, by rw [hg, hw]⟩

theorem checkCtx_follows {next : PreparePC} (hstep : h.checkCtx t s next = some h') :
    Follows h h' := by
  unfold Host.checkCtx at hstep
  split at hstep
  · exact follows_of_map (fun _ => rfl) hstep
  · cases hstep
    exact .inl rfl

theorem panelStep_follows (hstep : panelStep m h t s ch = some h') :
    Follows h h' := by
  unfold panelStep at hstep
  dsimp only at hstep
  split at hstep
  case h_2 | h_6 =>
    cases hstep
    left
    unfold Host.validate
    split_ifs <;> rfl
  case h_3 | h_5 | h_7 => exact checkCtx_follows hstep
  case h_4 =>
    split at hstep <;> cases hstep <;> exact .inl rfl
  case h_9 =>
    split_ifs at hstep <;> exact follows_of_map (fun _ => rfl) hstep
  all_goals
    cases hstep
    exact .inl rfl

theorem startStep_follows {ch : Pick} (hstep : startStep m h t s ch stuck = some h') :
    Follows h h' := by
  unfold startStep at hstep
  dsimp only at hstep
  split at hstep
  · cases hstep
  · split_ifs at hstep
    · rw [Option.map_map] at hstep
      exact follows_of_map (fun _ => rfl) hstep
    · exact follows_of_map (fun _ => rfl) hstep
  · split_ifs at hstep
    · rw [Option.map_map] at hstep
      exact follows_of_map (fun _ => rfl) hstep
    · exact follows_of_map (fun _ => rfl) hstep
  · exact follows_of_map (fun _ => rfl) hstep

theorem step_follows {e : Event} (hstep : step m h e = some h') : Follows h h' := by
  unfold step at hstep
  split at hstep
  · exact follows_of_map (fun _ => rfl) hstep
  · split at hstep
    · split_ifs at hstep
      exact panelStep_follows hstep
    · cases hstep
  · cases hstep
  · split at hstep
    · exact startStep_follows hstep
    · exact follows_of_map (fun _ => rfl) hstep
  · exact follows_of_map (fun _ => rfl) hstep

theorem reached_ok {disableHashCheck : Bool} {cores : Cache}
    (hrun : Steps (step m) (Spares m) (Host.initial disableHashCheck cores) h) :
    Reachable disableHashCheck h.xray ∧ Ok m h := by
  refine hrun.invariant (fun h => Reachable disableHashCheck h.xray ∧ Ok m h) ?_ ?_
  · refine ⟨.refl, ?_, ?_⟩
    · rintro p (hp | ⟨t, s, ht, -⟩)
      · cases hp
      · cases ht
    · intro t s ht
      cases ht
  · rintro a e b ⟨hreach, hok⟩ hspares hstep
    refine ⟨?_, step_ok hok (reachable_inv hreach).1 hspares hstep⟩
    rcases step_follows hstep with heq | ⟨f, hf⟩
    · rw [heq]
      exact hreach
    · exact hreach.tail f trivial hf

/-- In every run in which no Start removes the file of the core that it falls back to,
whatever a Start executes is the bundled core or a file of the cache that exists at
that moment, has the SHA-256 of its name and has passed a version probe. -/
theorem executed_core_usable {disableHashCheck : Bool} {cores : Cache}
    (hrun : Steps (step m) (Spares m) (Host.initial disableHashCheck cores) h)
    (ht : h.xray.threads t = .start s) (hpc : s.pc = .startProcess) :
    Usable m h (h.selected t) :=
  ((reached_ok hrun).2.starts t s ht).selected (by rw [hpc]; rfl)

end

/-! A core with the digest `aa…a` is downloaded and started; a second Start asks for the
same core. -/

def sampleName : Text := List.replicate 64 'a'

def sampleSettings : Settings where
  xrayBin := ["rw-core".toList, "bin".toList]
  coreDir := ["cores".toList]
  sha256 _ := sampleName
  validHTTPSURL _ := true

def sampleGeodata : Json.Value :=
  .obj [("core", .obj [("url", .str "https://example.com/core"),
    ("sha256", .str (String.ofList sampleName))])]

/- Every call succeeds, the version probe apart. -/
def samplePanel (probe : Bool) : PanelChoice := ⟨true, true, true, probe, some [1], true, true, ""⟩

def move (t : Tid) : Event := .xray (.thread t succeed) []

def firstStart : List Event :=
  .callStart 0 ⟨false, ⟨"", []⟩⟩ (some sampleGeodata) :: List.replicate 10 (move 0) ++
    List.replicate 6 (.panel 0 (samplePanel true)) ++ List.replicate 7 (move 0)

/- The probe of the core that runs fails twice, before and after its second download. -/
def secondStart : List Event :=
  List.replicate 10 (move 0) ++
    .callStart 1 ⟨true, ⟨"", []⟩⟩ (some sampleGeodata) :: List.replicate 10 (move 1) ++
    List.replicate 8 (.panel 1 (samplePanel false)) ++ List.replicate 3 (move 1) ++
    List.replicate 8 (.xray (.monitor 0 succeed) []) ++ List.replicate 7 (move 1)

def atSpawn (h : Host) (t : Tid) : Bool :=
  match h.xray.threads t with
  | .start s => s.pc = .startProcess
  | _ => false

theorem start_of_atSpawn {h : Host} {t : Tid} (hat : atSpawn h t = true) :
    ∃ s, h.xray.threads t = .start s ∧ s.pc = .startProcess := by
  unfold atSpawn at hat
  split at hat
  · next s hs => exact ⟨s, hs, by simpa using hat⟩
  · cases hat

theorem firstStart_runs :
    (run (fun h e => if Spares sampleSettings h e then step sampleSettings h e else none)
      (Host.initial false fun _ => none) firstStart).any (fun h =>
        atSpawn h 0 && h.selected 0 = sampleName :: sampleSettings.coreDir) = true := by
  decide +kernel

theorem executed_core_usable_downloaded :
    ∃ (h : Host) (s : StartCall), h.xray.threads 0 = .start s ∧ s.pc = .startProcess ∧
      h.selected 0 = sampleName :: sampleSettings.coreDir ∧
      Usable sampleSettings h (h.selected 0) := by
  obtain ⟨h, hrun, hh⟩ := (Option.any_eq_true _ _).mp firstStart_runs
  simp only [Bool.and_eq_true, decide_eq_true_eq] at hh
  obtain ⟨s, hs, hpc⟩ := start_of_atSpawn hh.1
  exact ⟨h, s, hs, hpc, hh.2, executed_core_usable (run_steps firstStart hrun) hs hpc⟩

theorem secondStart_runs :
    (run (step sampleSettings) (Host.initial false fun _ => none) (firstStart ++ secondStart)).any
      (fun h => atSpawn h 1 && h.selected 1 = sampleName :: sampleSettings.coreDir &&
        h.cores sampleName = none && !h.executable sampleSettings (h.selected 1)) = true := by
  decide +kernel

/-- A Start that asks for the core that runs, and whose probes of it fail, removes its file,
stops it and is left with nothing that it could execute. -/
theorem removed_core_executed :
    ∃ (h : Host) (s : StartCall),
      Reach (step sampleSettings) (Host.initial false fun _ => none) h ∧
      h.xray.threads 1 = .start s ∧ s.pc = .startProcess ∧
      h.executable sampleSettings (h.selected 1) = false ∧
      ¬ Usable sampleSettings h (h.selected 1) := by
  obtain ⟨h, hrun, hh⟩ := (Option.any_eq_true _ _).mp secondStart_runs
  simp only [Bool.and_eq_true, decide_eq_true_eq, Bool.not_eq_true'] at hh
  obtain ⟨⟨⟨hat, hselected⟩, hgone⟩, hexe⟩ := hh
  obtain ⟨s, hs, hpc⟩ := start_of_atSpawn hat
  refine ⟨h, s, run_reach _ hrun, hs, hpc, hexe, ?_⟩
  rw [hselected]
  rintro (hbundled | ⟨name, content, hname, hfile, -⟩)
  · revert hbundled
    decide
  · cases hname
    rw [hgone] at hfile
    cases hfile

end RemnanodeLite.Xray.Cores
