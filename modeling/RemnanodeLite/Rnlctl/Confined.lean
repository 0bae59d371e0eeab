import RemnanodeLite.Rnlctl.Extraction

/-! # Unpacking stays inside its directory

Whatever the archive holds and whichever calls fail, unpacking creates nothing
but directories and regular files below the top directory, writes no file twice
and keeps to its limits. -/

namespace RemnanodeLite.Rnlctl
open Filepath FileTree Program

structure Fresh (destination : Location) (s : World) : Prop extends Vacant s.tree destination where
  read : s.read = 0
  written : s.written = []

/-- What has become of the tree `before` when at most `limit` bytes may have been
written. -/
structure Extracted (root : Location) (before : Tree) (limit : ℤ) (s : World) : Prop where
  outside : ∀ p, ¬ root <:+ p → s.tree.node p = before.node p
  inside : ∀ p node, root <:+ p → s.tree.node p = some node →
    node.isDirectory = true ∨ node.isRegular = true
  once : (s.written.map Prod.fst).Nodup
  held : ∀ p ∈ s.written.map Prod.fst, root <:+ p ∧ s.tree.node p ≠ none
  bounded : ((s.written.map Prod.snd).sum : ℤ) ≤ limit

def Permitted (root : Location) (limit : ℤ) (s : World) : Op → Prop
  | .mkdir p _ => root <:+ p ∨ s.tree.node p ≠ none
  | .create p _ => root <:+ p
  | .chmod p _ => root <:+ p
  | .copyN p n => root <:+ p ∧ s.tree.node p ≠ none ∧ p ∉ s.written.map Prod.fst ∧
      ((s.written.map Prod.snd).sum : ℤ) + n ≤ limit
  | _ => True

section Step
variable {root : Location} {before : Tree} {limit : ℤ} {s : World}

theorem Extracted.mono {limit' : ℤ} (h : Extracted root before limit s) (hle : limit ≤ limit') :
    Extracted root before limit' s :=
  { h with bounded := h.bounded.trans hle }

theorem Extracted.of_tree {t : World} (h : Extracted root before limit s) (htree : t.tree = s.tree)
    (hwritten : t.written = s.written) : Extracted root before limit t where
  outside := htree ▸ h.outside
  inside := htree ▸ h.inside
  once := hwritten ▸ h.once
  held := by
    rw [htree, hwritten]
    exact h.held
  bounded := hwritten ▸ h.bounded

variable {p : Location} {node : Node}

theorem Extracted.replace {t : World} {changed : Option Node} (h : Extracted root before limit s)
    (hp : root <:+ p) (htree : ∀ q, t.tree.node q = if q = p then changed else s.tree.node q)
    (hkind : ∀ node, changed = some node → node.isDirectory = true ∨ node.isRegular = true)
    (hkeeps : s.tree.node p ≠ none → changed ≠ none) (hwritten : t.written = s.written) :
    Extracted root before limit t where
  outside := by
    intro q hq
    have hqp : q ≠ p := by
      rintro rfl
      exact hq hp
    rw [htree, if_neg hqp]
    exact h.outside q hq
  inside := by
    intro q node hq hnode
    rw [htree] at hnode
    split_ifs at hnode with hqp
    · exact hkind node hnode
    · exact h.inside q node hq hnode
  once := hwritten ▸ h.once
  held := by
    rw [hwritten]
    intro q hq
    obtain ⟨hroot, hsome⟩ := h.held q hq
    refine ⟨hroot, ?_⟩
    rw [htree]
    split_ifs with hqp
    · exact hkeeps (hqp ▸ hsome)
    · exact hsome
  bounded := hwritten ▸ h.bounded

theorem Extracted.place (h : Extracted root before limit s) (hp : root <:+ p ∨ s.tree.node p ≠ none)
    (hkind : node.isDirectory = true ∨ node.isRegular = true) :
    Extracted root before limit (place p node s).2 := by
  unfold Rnlctl.place
  cases hadd : s.tree.add p node with
  | none =>
    cases hnode : s.tree.node p with
    | none => exact h
    | some old => exact h
  | some tree =>
    obtain ⟨habsent, hat⟩ := Tree.add_eq_some hadd
    have hroot : root <:+ p := hp.resolve_right (fun hsome => hsome habsent)
    refine h.replace hroot hat ?_ (fun _ => Option.some_ne_none _) rfl
    intro changed hchanged
    cases hchanged
    exact hkind

theorem kind_chmod {perm : ℕ} (h : node.isDirectory = true ∨ node.isRegular = true) :
    (node.chmod perm).isDirectory = true ∨ (node.chmod perm).isRegular = true := by
  cases node with
  | directory old => exact .inl rfl
  | file old data => exact .inr rfl
  | symlink target | special => simp [Node.isDirectory, Node.isRegular] at h

theorem kind_write {data : List UInt8} (h : node.isDirectory = true ∨ node.isRegular = true) :
    (node.write data).isDirectory = true ∨ (node.write data).isRegular = true := by
  cases node with
  | directory old => exact .inl rfl
  | file old data => exact .inr rfl
  | symlink target | special => simp [Node.isDirectory, Node.isRegular] at h

theorem Extracted.modify {change : Node → Node}
    (hkind : ∀ node, node.isDirectory = true → (change node).isDirectory = true)
    (h : Extracted root before limit s) (hp : root <:+ p)
    (hchange : ∀ node, node.isDirectory = true ∨ node.isRegular = true →
      (change node).isDirectory = true ∨ (change node).isRegular = true) :
    Extracted root before limit { s with tree := s.tree.modify p change hkind } := by
  refine h.replace hp (fun _ => Tree.node_modify hkind) ?_ ?_ rfl
  · intro node hnode
    obtain ⟨old, hold, rfl⟩ := Option.map_eq_some_iff.mp hnode
    exact hchange old (h.inside p old hp hold)
  · intro hsome hnone
    exact hsome (Option.map_eq_none_iff.mp hnone)

theorem Extracted.copyN {n m : ℕ} (h : Extracted root before limit s)
    (hop : Permitted root limit s (.copyN p n)) (hm : m ≤ n) :
    Extracted root before limit (performed (.copyN p m) s).2 := by
  obtain ⟨hroot, hsome, hfresh, hlimit⟩ := hop
  have hlength : (s.content.take m).length ≤ n := by
    rw [List.length_take]
    omega
  have htree := h.modify (isDirectory_write (s.content.take m)) hroot fun _ => kind_write
  constructor
  · exact htree.outside
  · exact htree.inside
  · exact List.nodup_cons.mpr ⟨hfresh, h.once⟩
  · intro q hq
    rcases List.mem_cons.mp hq with rfl | hq
    · refine ⟨hroot, ?_⟩
      simp only [performed, Tree.node_modify, if_pos]
      exact fun hnone => hsome (Option.map_eq_none_iff.mp hnone)
    · exact htree.held q hq
  · simp only [performed, List.map_cons, List.sum_cons]
    omega

theorem Extracted.step {op : Op} (h : Extracted root before limit s)
    (hop : Permitted root limit s op) (e : Fault) :
    Extracted root before limit (operatingSystem op s e).2 := by
  unfold operatingSystem
  cases hfailure : e.failure with
  | some failure =>
    cases op with
    | copyN p n => exact h.copyN hop (Nat.min_le_left n e.copied)
    | _ => exact h
  | none =>
    cases op with
    | next =>
      simp only [performed]
      cases hunread : s.unread with
      | nil => exact h
      | cons entry rest => exact h.of_tree rfl rfl
    | mkdir p perm => exact h.place hop (.inl rfl)
    | create p perm => exact h.place (.inl hop) (.inr rfl)
    | chmod p perm =>
      simp only [performed]
      cases hnode : s.tree.node p with
      | none => exact h
      | some node => exact h.modify (isDirectory_chmod perm) hop fun _ => kind_chmod
    | copyN p n => exact h.copyN hop le_rfl
    | _ => exact h

theorem place_read (p : Location) (node : Node) (s : World) : (place p node s).2.read = s.read := by
  unfold place
  cases s.tree.add p node with
  | some tree => rfl
  | none =>
    cases s.tree.node p with
    | none => rfl
    | some old => rfl

theorem read_operatingSystem {op : Op} (hop : op ≠ .next) (s : World) (e : Fault) :
    (operatingSystem op s e).2.read = s.read := by
  unfold operatingSystem
  cases e.failure with
  | some failure =>
    cases op with
    | copyN p n => rfl
    | _ => rfl
  | none =>
    cases op with
    | next => exact absurd rfl hop
    | mkdir p perm => exact place_read p _ s
    | create p perm => exact place_read p _ s
    | chmod p perm =>
      simp only [performed]
      cases s.tree.node p with
      | none => rfl
      | some node => rfl
    | _ => rfl

end Step

/-! ### Functions that keep to the directory -/

/- Changes are made while at most this many entries have been handed out. -/
def Within (c : Call Op World Fault) : Prop :=
  c.op.changes = true → c.before.read ≤ maxBundleEntries

section Keeps
variable (root : Location) (before : Tree) (limit : ℤ) (n : ℕ)

structure Good (s : World) : Prop where
  extracted : Extracted root before limit s
  read : s.read = n

variable {root before limit n} in
theorem Good.step {s : World} (h : Good root before limit n s) (op : Op) (hop : op ≠ .next)
    (hpermitted : Permitted root limit s op) (e : Fault) :
    Good root before limit n (operatingSystem op s e).2 :=
  ⟨h.extracted.step hpermitted e, (read_operatingSystem hop s e).trans h.read⟩

def Keeps {α : Type} (q : Sys α) : Prop :=
  ∀ s, Good root before limit n s →
    ensures operatingSystem (fun _ => True) Within q (fun _ => Good root before limit n)
      (fun _ => Good root before limit n) s

variable {root before limit n} {α β : Type}

theorem keeps_pure (a : α) : Keeps root before limit n (pure a) := fun _ h => ensures_pure.mpr h

theorem keeps_throw (e : Failure) : Keeps root before limit n (throw e : Sys α) :=
  fun _ h => ensures_throw.mpr h

theorem keeps_bind {q : Sys α} {f : α → Sys β} (hq : Keeps root before limit n q)
    (hf : ∀ a, Keeps root before limit n (f a)) : Keeps root before limit n (q >>= f) :=
  fun s h => ensures_bind.mpr (ensures_mono (hq s h) (fun a t ht => hf a t ht) fun _ _ ht => ht)

theorem keeps_refuseIf {c : Prop} [Decidable c] {e : Failure} :
    Keeps root before limit n (refuseIf c e) :=
  fun _ h => ensures_refuseIf.mpr ⟨fun _ => h, fun _ => h⟩

theorem keeps_returned {r : Except Failure α} : Keeps root before limit n (returned r) :=
  fun _ h => ensures_returned.mpr ⟨fun _ _ => h, fun _ _ => h⟩

theorem keeps_wrap {text : Failure → Failure} {q : Sys α} (hq : Keeps root before limit n q) :
    Keeps root before limit n (wrap text q) := fun s h => ensures_wrap.mpr (hq s h)

theorem keeps_ask {op : Op} (hn : n ≤ maxBundleEntries) (hop : op ≠ .next)
    (hpermitted : ∀ s, Good root before limit n s → Permitted root limit s op) :
    Keeps root before limit n (ask op) := by
  intro s h
  refine ensures_lift.mpr fun e _ => ⟨fun _ => ?_, ?_⟩
  · exact h.read.trans_le hn
  · exact h.step op hop (hpermitted s h) e

end Keeps

section Functions
variable {destination : Location} {before : Tree} {limit : ℤ} {n : ℕ}

abbrev rootOf (destination : Location) : Location := bundleTopDirectory :: destination

variable {p : Location} {s : World} {perm : ℕ}

theorem not_root_suffix (hp : p <:+ destination) : ¬ rootOf destination <:+ p := by
  intro hroot
  have hle := hroot.length_le.trans hp.length_le
  rw [List.length_cons] at hle
  omega

theorem node_above (hp : p <:+ destination) (hdestination : before.isDirectory destination = true)
    (h : Extracted (rootOf destination) before limit s) : s.tree.node p ≠ none := by
  rw [h.outside p (not_root_suffix hp)]
  obtain ⟨below, hbelow⟩ := hp
  obtain ⟨node, hnode, _⟩ := Tree.isDirectory_iff.mp hdestination
  by_cases hempty : below = []
  · subst hempty
    rw [List.nil_append] at hbelow
    rw [hbelow, hnode]
    exact Option.some_ne_none node
  · rw [← hbelow] at hnode
    obtain ⟨dir, hdir, _⟩ := Tree.isDirectory_iff.mp (Tree.isDirectory_above hempty hnode)
    rw [hdir]
    exact Option.some_ne_none dir

variable (hn : n ≤ maxBundleEntries) (hdestination : before.isDirectory destination = true)
include hn

theorem keeps_lstat (p : Location) : Keeps (rootOf destination) before limit n (lstat p) :=
  keeps_ask hn Op.noConfusion fun _ _ => trivial

theorem keeps_chmod (hp : rootOf destination <:+ p) :
    Keeps (rootOf destination) before limit n (chmod p perm) :=
  keeps_ask hn Op.noConfusion fun _ _ => hp

include hdestination

theorem keeps_mkdirAll (perm : ℕ) (hp : rootOf destination <:+ p ∨ p <:+ destination) :
    Keeps (rootOf destination) before limit n (mkdirAll p perm) := by
  induction p with
  | nil => exact keeps_pure ()
  | cons name up ih =>
    have hup : rootOf destination <:+ up ∨ up <:+ destination := by
      rcases hp with hp | hp
      · rcases List.suffix_cons_iff.mp hp with heq | hp
        · rw [(List.cons.inj heq).2]
          exact .inr List.suffix_rfl
        · exact .inl hp
      · exact .inr ((List.suffix_cons name up).trans hp)
    have hmkdir : Keeps (rootOf destination) before limit n (mkdir (name :: up) perm) := by
      refine keeps_ask hn Op.noConfusion fun s hs => ?_
      rcases hp with hp | hp
      · exact .inl hp
      · exact .inr (node_above hp hdestination hs.extracted)
    unfold mkdirAll
    refine keeps_bind (keeps_ask hn Op.noConfusion fun _ _ => trivial) fun found => ?_
    cases found with
    | ok node => exact keeps_refuseIf
    | error e =>
      refine keeps_bind (ih hup) fun _ => keeps_bind hmkdir fun made => ?_
      cases made with
      | ok _ => exact keeps_pure ()
      | error e =>
        refine keeps_bind (keeps_lstat hn _) fun found => ?_
        cases found with
        | ok node => exact keeps_refuseIf
        | error _ => exact keeps_throw e

theorem keeps_ensureDirectory (perm : ℕ) (hp : rootOf destination <:+ p) :
    Keeps (rootOf destination) before limit n (ensureDirectory p perm) := by
  refine keeps_bind (keeps_lstat hn p) fun old => ?_
  refine keeps_bind (keeps_mkdirAll hn hdestination perm (.inl hp)) fun _ => ?_
  refine keeps_bind (keeps_bind (keeps_lstat hn p) fun _ => keeps_returned) fun node => ?_
  refine keeps_bind keeps_refuseIf fun _ => ?_
  unfold fixPermissions
  have hfix : Keeps (rootOf destination) before limit n
      (if node.perm ≠ perm then chmod p perm >>= returned else pure ()) := by
    split_ifs
    · exact keeps_bind (keeps_chmod hn hp) fun _ => keeps_returned
    · exact keeps_pure ()
  split
  · exact hfix
  · exact hfix
  · exact keeps_pure ()

omit hdestination

theorem keeps_chmodBundleDirectory (hp : rootOf destination <:+ p) :
    Keeps (rootOf destination) before limit n (chmodBundleDirectory p) := by
  refine keeps_bind (keeps_bind (keeps_lstat hn p) fun _ => keeps_returned) fun node => ?_
  refine keeps_bind keeps_refuseIf fun _ => ?_
  split_ifs
  · exact keeps_wrap (keeps_bind (keeps_chmod hn hp) fun _ => keeps_returned)
  · exact keeps_pure ()

theorem keeps_chmodEach (found : List (Location × Node))
    (hfound : ∀ x ∈ found, rootOf destination <:+ x.1) :
    Keeps (rootOf destination) before limit n (chmodEach found) := by
  induction found with
  | nil => exact keeps_pure ()
  | cons x found ih =>
    obtain ⟨p, node⟩ := x
    have hrest := ih fun y hy => hfound y (List.mem_cons_of_mem _ hy)
    unfold chmodEach
    refine keeps_bind ?_ fun _ => hrest
    unfold chmodFound
    split_ifs
    · exact keeps_chmodBundleDirectory hn (hfound _ List.mem_cons_self)
    · exact keeps_pure ()

theorem keeps_chmodBundleDirectories :
    Keeps (rootOf destination) before limit n (chmodBundleDirectories (rootOf destination)) := by
  intro s hs
  refine ensures_bind.mpr (ensures_bind.mpr (ensures_lift.mpr fun e _ =>
    ⟨fun _ => hs.read.trans_le hn, ?_⟩))
  have hgood := hs.step (.walk (rootOf destination)) Op.noConfusion trivial e
  refine ensures_returned.mpr ⟨fun found hfound => ?_, fun _ _ => hgood⟩
  refine keeps_chmodEach hn found (fun x hx => ?_) _ hgood
  have hwalk : found = s.tree.walk (rootOf destination) := by
    unfold operatingSystem at hfound
    cases hfailure : e.failure with
    | some failure => simp [hfailure, refused] at hfound
    | none =>
      simp only [hfailure, performed, Except.ok.injEq] at hfound
      exact hfound.symm
  rw [hwalk] at hx
  exact (Tree.mem_walk.mp hx).1

/-! ### The data of a file -/

/- The file is there and nothing was copied to it. -/
structure Ready (target : Location) (s : World) : Prop where
  present : s.tree.node target ≠ none
  unwritten : target ∉ s.written.map Prod.fst

omit hn in
theorem ready_of_create {root target : Location} {e : Fault} (h : Extracted root before limit s)
    (hok : (operatingSystem (.create target perm) s e).1 = .ok ()) :
    Ready target (operatingSystem (.create target perm) s e).2 := by
  unfold operatingSystem at hok ⊢
  cases hfailure : e.failure with
  | some failure => simp [hfailure, refused] at hok
  | none =>
    simp only [hfailure, performed, place] at hok ⊢
    cases hadd : s.tree.add target (.file (masked s perm) []) with
    | none =>
      cases hnode : s.tree.node target with
      | none => simp [hadd, hnode] at hok
      | some node => simp [hadd, hnode] at hok
    | some tree =>
      obtain ⟨habsent, hat⟩ := Tree.add_eq_some hadd
      refine ⟨?_, fun hmem => (h.held target hmem).2 habsent⟩
      simp [hat]

omit hn in
theorem Ready.chmod {target : Location} (h : Ready target s) (e : Fault) :
    Ready target (operatingSystem (.chmod target perm) s e).2 := by
  unfold operatingSystem
  cases e.failure with
  | some failure => exact h
  | none =>
    simp only [performed]
    cases hnode : s.tree.node target with
    | none => exact absurd hnode h.present
    | some node =>
      refine ⟨?_, h.unwritten⟩
      simp [Tree.node_modify, hnode]

omit hn in
theorem Good.mono {root : Location} {limit' : ℤ} (h : Good root before limit n s)
    (hle : limit ≤ limit') : Good root before limit' n s :=
  ⟨h.extracted.mono hle, h.read⟩

variable {target : Location} {mode size : ℕ} {s : World}

theorem ensures_setMode (htarget : rootOf destination <:+ target)
    (hs : Good (rootOf destination) before limit n s) (hready : Ready target s) :
    ensures operatingSystem (fun _ => True) Within (setMode target mode)
      (fun _ t => Good (rootOf destination) before limit n t ∧ Ready target t)
      (fun _ => Good (rootOf destination) before limit n) s := by
  refine ensures_bind.mpr (ensures_lift.mpr fun e _ => ⟨fun _ => hs.read.trans_le hn, ?_⟩)
  have hgood := hs.step (.chmod target mode) Op.noConfusion htarget e
  cases (operatingSystem (.chmod target mode) s e).1 with
  | ok _ => exact And.intro hgood (hready.chmod e)
  | error failure =>
    have hclose : Keeps (rootOf destination) before limit n
        (close target >>= fun _ => throw failure : Sys Unit) :=
      keeps_bind (keeps_ask hn Op.noConfusion fun _ _ => trivial) fun _ => keeps_throw failure
    exact hclose _ hgood

theorem ensures_writeFile (htarget : rootOf destination <:+ target)
    (hs : Good (rootOf destination) before limit n s) :
    ensures operatingSystem (fun _ => True) Within (writeFile target mode size)
      (fun _ => Good (rootOf destination) before (limit + size) n)
      (fun _ => Good (rootOf destination) before (limit + size) n) s := by
  have hle : limit ≤ limit + size := by omega
  have hrest : ∀ copied, Keeps (rootOf destination) before (limit + size) n (do
      let synced ← sync target
      let closed ← close target
      returned (errorsJoin [copied, synced, closed])) := by
    intro copied
    refine keeps_bind (keeps_ask hn Op.noConfusion fun _ _ => trivial) fun synced => ?_
    exact keeps_bind (keeps_ask hn Op.noConfusion fun _ _ => trivial) fun closed => keeps_returned
  refine ensures_bind.mpr (ensures_bind.mpr (ensures_lift.mpr fun e _ =>
    ⟨fun _ => hs.read.trans_le hn, ensures_returned.mpr ⟨?_, ?_⟩⟩))
  · -- the file was created: its mode and then its data
    intro _ hok
    have hcreated := hs.step (.create target mode) Op.noConfusion htarget e
    refine ensures_bind.mpr (ensures_mono
      (ensures_setMode hn htarget hcreated (ready_of_create hs.extracted hok)) ?_
      fun _ _ ht => ht.mono hle)
    rintro _ t ⟨ht, hready⟩
    refine ensures_bind.mpr (ensures_lift.mpr fun e _ => ⟨fun _ => ht.read.trans_le hn, ?_⟩)
    have hpermitted : Permitted (rootOf destination) (limit + size) t (.copyN target size) := by
      have hbound := ht.extracted.bounded
      exact ⟨htarget, hready.present, hready.unwritten, by omega⟩
    exact hrest _ _ ((ht.mono hle).step (.copyN target size) Op.noConfusion hpermitted e)
  · intro failure hfailure
    exact (hs.step (.create target mode) Op.noConfusion htarget e).mono hle

/-! ### Entries -/

abbrev Outcome (destination : Location) (before : Tree) (n : ℕ) (carried : Progress) (t : World) :
    Prop :=
  Good (rootOf destination) before carried.total n t ∧ carried.total ≤ maxBundleTotalBytes

omit hn in
theorem Outcome.failed {carried : Progress} {t : World} (h : Outcome destination before n carried t) :
    Extracted (rootOf destination) before maxBundleTotalBytes t := h.1.extracted.mono h.2

omit hn in
theorem Keeps.outcome {α : Type} {q : Sys α} {carried : Progress}
    (hq : Keeps (rootOf destination) before carried.total n q)
    (hs : Outcome destination before n carried s) :
    ensures operatingSystem (fun _ => True) Within q
      (fun _ => Outcome destination before n carried)
      (fun _ => Extracted (rootOf destination) before maxBundleTotalBytes) s :=
  ensures_mono (hq s hs.1) (fun _ _ ht => ⟨ht, hs.2⟩) fun _ _ ht => ht.extracted.mono hs.2

include hdestination
variable {header : Header} {carried : Progress}

theorem ensures_extractFile (htarget : rootOf destination <:+ target.tail)
    (hs : Outcome destination before n carried s) :
    ensures operatingSystem (fun _ => True) Within (extractFile target header carried)
      (Outcome destination before n)
      (fun _ => Extracted (rootOf destination) before maxBundleTotalBytes) s := by
  have hbelow : rootOf destination <:+ target := htarget.trans (List.tail_suffix target)
  refine ensures_bind.mpr (ensures_refuseIf.mpr ⟨fun _ => hs.failed, fun hlimits => ?_⟩)
  have hsize : 0 < header.size ∧ carried.total + header.size ≤ maxBundleTotalBytes := by
    unfold overLimits at hlimits
    omega
  have hcast : (header.size.toNat : ℤ) = header.size := by omega
  refine ensures_bind.mpr (ensures_refuseIf.mpr ⟨fun _ => hs.failed, fun _ => ?_⟩)
  refine ensures_bind.mpr (ensures_mono
    ((keeps_ensureDirectory hn hdestination 0o755 htarget).outcome hs) ?_ fun _ _ ht => ht)
  intro _ t ht
  have hwrite : ensures operatingSystem (fun _ => True) Within
      (writeFile target (permBits header.mode) header.size.toNat)
      (fun _ => Good (rootOf destination) before (carried.total + header.size.toNat) n)
      (fun _ => Good (rootOf destination) before (carried.total + header.size.toNat) n) t :=
    ensures_writeFile hn hbelow ht.1
  rw [hcast] at hwrite
  refine ensures_bind.mpr (ensures_mono hwrite ?_ fun _ _ hu => hu.extracted.mono hsize.2)
  intro _ u hu
  exact ensures_pure.mpr ⟨hu, hsize.2⟩

theorem ensures_extractTarget (htarget : rootOf destination <:+ target.tail)
    (hs : Outcome destination before n carried s) :
    ensures operatingSystem (fun _ => True) Within (extractTarget target header carried)
      (Outcome destination before n)
      (fun _ => Extracted (rootOf destination) before maxBundleTotalBytes) s := by
  have hbelow : rootOf destination <:+ target := htarget.trans (List.tail_suffix target)
  unfold extractTarget
  split
  · have hdirectory : Keeps (rootOf destination) before carried.total n
        (extractDirectory target header) :=
      keeps_bind keeps_refuseIf fun _ => keeps_ensureDirectory hn hdestination 0o755 hbelow
    exact ensures_bind.mpr (ensures_mono (hdirectory.outcome hs) (fun _ _ ht => ht) fun _ _ ht => ht)
  · exact ensures_extractFile hn hdestination htarget hs
  · exact ensures_extractFile hn hdestination htarget hs
  · exact hs.failed

theorem ensures_extractEntry (hs : Outcome destination before n carried s) :
    ensures operatingSystem (fun _ => True) Within
      (extractEntry (rootOf destination) header carried) (Outcome destination before n)
      (fun _ => Extracted (rootOf destination) before maxBundleTotalBytes) s := by
  unfold extractEntry
  dsimp only
  split_ifs
  · have htop : Keeps (rootOf destination) before carried.total n
        (ensureDirectory (rootOf destination) 0o755) :=
      keeps_ensureDirectory hn hdestination 0o755 (List.suffix_refl _)
    exact ensures_bind.mpr (ensures_mono (htop.outcome hs) (fun _ _ ht => ht) fun _ _ ht => ht)
  · refine ensures_bind.mpr (ensures_refuseIf.mpr ⟨fun _ => hs.failed, fun _ => ?_⟩)
    refine ensures_bind.mpr (ensures_wrap.mpr (ensures_returned.mpr ⟨?_, fun _ _ => hs.failed⟩))
    intro _ hvalid
    refine ensures_bind.mpr (ensures_refuseIf.mpr ⟨fun _ => hs.failed, fun _ => ?_⟩)
    refine ensures_bind.mpr (ensures_refuseIf.mpr ⟨fun _ => hs.failed, fun _ => ?_⟩)
    exact ensures_extractTarget hn hdestination (suffix_tail_join hvalid) hs

omit hn hdestination

theorem next_cases (s : World) (e : Fault) :
    (∃ failure, operatingSystem .next s e = (.error failure, s)) ∨
    operatingSystem .next s e = (.ok none, s) ∨
    ∃ header t, operatingSystem .next s e = (.ok (some header), t) ∧ t.tree = s.tree ∧
      t.written = s.written ∧ t.read = s.read + 1 := by
  unfold operatingSystem
  cases e.failure with
  | some failure => exact .inl ⟨failure, rfl⟩
  | none =>
    simp only [performed]
    cases s.unread with
    | nil => exact .inr (.inl rfl)
    | cons entry rest => exact .inr (.inr ⟨entry.header, _, rfl, rfl, rfl, rfl⟩)

include hdestination

theorem ensures_extractEntries (entries : ℕ) (hs : Outcome destination before entries carried s)
    (hentries : entries ≤ maxBundleEntries) :
    ensures operatingSystem (fun _ => True) Within
      (extractEntries (rootOf destination) entries carried)
      (fun _ t => ∃ n ≤ maxBundleEntries, Good (rootOf destination) before maxBundleTotalBytes n t)
      (fun _ => Extracted (rootOf destination) before maxBundleTotalBytes) s := by
  fun_induction extractEntries (rootOf destination) entries carried generalizing s with
  | case1 entries carried ih =>
    refine ensures_bind.mpr (ensures_lift.mpr fun e _ => ⟨fun h => Bool.noConfusion h, ?_⟩)
    rcases next_cases s e with ⟨failure, hnext⟩ | hnext | ⟨header, t, hnext, htree, hwritten, hread⟩
    · rw [hnext]
      exact hs.failed
    · rw [hnext]
      exact ⟨entries, hentries, hs.1.mono hs.2⟩
    · rw [hnext]
      have hextracted := hs.1.extracted.of_tree htree hwritten
      dsimp only
      split_ifs with hover
      · exact hextracted.mono hs.2
      · have hnext : Outcome destination before (entries + 1) carried t :=
          ⟨⟨hextracted, by rw [hread, hs.1.read]⟩, hs.2⟩
        have hle : entries + 1 ≤ maxBundleEntries := Nat.le_of_not_lt hover
        refine ensures_bind.mpr (ensures_mono (ensures_extractEntry hle hdestination hnext) ?_
          fun _ _ ht => ht)
        intro carried u hu
        exact ih hover carried hu hle

theorem ensures_extractBundleArchive (hs : Outcome destination before 0 ⟨[], 0, 0⟩ s) :
    ensures operatingSystem (fun _ => True) Within (extractBundleArchive destination)
      (fun _ => Extracted (rootOf destination) before maxBundleTotalBytes)
      (fun _ => Extracted (rootOf destination) before maxBundleTotalBytes) s := by
  have hroot : join destination bundleTopDirectory = rootOf destination :=
    join_plain destination (by decide)
  unfold extractBundleArchive
  dsimp only
  rw [hroot]
  refine ensures_bind.mpr (ensures_mono (ensures_extractEntries hdestination 0 hs (Nat.zero_le _)) ?_
    fun _ _ ht => ht)
  rintro _ t ⟨n, hn, ht⟩
  have hclose : Keeps (rootOf destination) before maxBundleTotalBytes n (do
      wrap (.wrapf "bundle archive is missing %s root: %w" [bundleTopDirectory])
        (requireRealDirectory (rootOf destination))
      chmodBundleDirectories (rootOf destination)
      return rootOf destination) := by
    refine keeps_bind (keeps_wrap (keeps_bind (keeps_bind (keeps_lstat hn _) fun _ =>
      keeps_returned) fun _ => keeps_refuseIf)) fun _ => ?_
    exact keeps_bind (keeps_chmodBundleDirectories hn) fun _ => keeps_pure _
  exact ensures_mono (hclose t ht) (fun _ _ hu => hu.extracted) fun _ _ hu => hu.extracted

end Functions

/-- From a fresh destination, for every archive, every failing call and however
unpacking ends: all that has changed lies in the top directory and is a directory
or a regular file that was not there before, no file has been written twice,
changes are made for the first 512 entries only and at most 512 MiB are written. -/
theorem unpacking_confined_and_bounded (destination : Location) (s : World) (w : ℕ → Fault)
    (hfresh : Fresh destination s) :
    let root := join destination bundleTopDirectory
    let t := (run operatingSystem (extractBundleArchive destination).run w s).2
    (∀ p, t.tree.node p ≠ s.tree.node p → root <:+ p ∧ s.tree.node p = none ∧
      ∃ node, t.tree.node p = some node ∧ (node.isDirectory = true ∨ node.isRegular = true)) ∧
    (t.written.map Prod.fst).Nodup ∧
    (∀ c ∈ calls operatingSystem (extractBundleArchive destination).run w s,
      c.op.changes = true → c.before.read ≤ 512) ∧
    (t.written.map Prod.snd).sum ≤ 512 * 2 ^ 20 := by
  have hroot : join destination bundleTopDirectory = rootOf destination :=
    join_plain destination (by decide)
  have hstart : Outcome destination s.tree 0 ⟨[], 0, 0⟩ s := by
    refine ⟨⟨⟨fun _ _ => rfl, ?_, ?_, ?_, ?_⟩, hfresh.read⟩, by simp⟩
    · intro p node hp hnode
      rw [hfresh.empty p hp] at hnode
      cases hnode
    · simp [hfresh.written]
    · simp [hfresh.written]
    · simp [hfresh.written]
  have hensures := ensures_extractBundleArchive hfresh.directory hstart
  have hend : Extracted (rootOf destination) s.tree maxBundleTotalBytes
      (run operatingSystem (extractBundleArchive destination).run w s).2 := by
    have hpost := assured_run hensures w fun _ _ => trivial
    cases hresult : (run operatingSystem (extractBundleArchive destination).run w s).1 with
    | ok root => simpa only [hresult] using hpost
    | error e => simpa only [hresult] using hpost
  refine ⟨?_, hend.once, assured_guar hensures w fun _ _ => trivial, ?_⟩
  · intro p hp
    rw [hroot]
    by_cases hbelow : rootOf destination <:+ p
    · have hempty := hfresh.empty p hbelow
      rw [hempty] at hp
      obtain ⟨node, hnode⟩ := Option.ne_none_iff_exists'.mp hp
      exact ⟨hbelow, hempty, node, hnode, hend.inside p node hbelow hnode⟩
    · exact absurd (hend.outside p hbelow) hp
  · have hbound := hend.bounded
    have hmax : maxBundleTotalBytes = 512 * 2 ^ 20 := rfl
    omega

/- An archive that is about to be unpacked to the root directory: a directory, two files and an
entry that repeats the second one. -/
def repeatedFile : World where
  tree := Tree.bare 0o755
  umask := 0o022
  unread := [⟨⟨"remnanode-lite/a/".toList, .directory, 0o755, 0⟩, []⟩,
    ⟨⟨"remnanode-lite/a/b".toList, .regular, 0o644, 2⟩, [1, 2]⟩,
    ⟨⟨"remnanode-lite/c".toList, .regular, 0o755, 1⟩, [3]⟩,
    ⟨⟨"remnanode-lite/c".toList, .regular, 0o644, 1⟩, [4]⟩]
  content := []
  read := 0
  written := []

theorem fresh_repeatedFile : Fresh [] repeatedFile where
  directory := rfl
  empty := by
    intro p hp
    have hne : p ≠ [] := by
      intro hnil
      rw [hnil] at hp
      simp at hp
    exact (Tree.node_bare 0o755 p).trans (if_neg hne)
  read := rfl
  written := rfl

theorem unpacking_confined_and_bounded_repeated :
    Fresh [] repeatedFile ∧
      let t := (run operatingSystem (extractBundleArchive []).run (fun _ => Fault.none)
        repeatedFile).2
      (t.written.map Prod.fst).Nodup ∧ (t.written.map Prod.snd).sum ≤ 512 * 2 ^ 20 :=
  have h := unpacking_confined_and_bounded [] repeatedFile (fun _ => Fault.none) fresh_repeatedFile
  ⟨fresh_repeatedFile, h.2.1, h.2.2.2⟩

example : (run operatingSystem (extractBundleArchive []).run (fun _ => Fault.none)
    repeatedFile).2.written.map Prod.snd = [1, 2] := by
  decide +kernel

end RemnanodeLite.Rnlctl
