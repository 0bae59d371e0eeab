import RemnanodeLite.Rnlctl.Bundle

/-! # Unpacking a well-formed archive

As long as no call fails, the entries of an archive whose files do not stand in
each other's way come to the tree that they describe. -/

namespace RemnanodeLite.Rnlctl
open Filepath FileTree Program

/-! ### Calls that do not fail -/

def Faultless (c : Call Op World Fault) : Prop := c.choice.failure = none

/-- Without a failing call `q` ends with a value and meets `ok`. -/
def Succeeds {α : Type} (q : Sys α) (ok : α → World → Prop) (s : World) : Prop :=
  ensures operatingSystem Faultless (fun _ => True) q ok (fun _ _ => False) s

section Rules
variable {α β : Type} {q : Sys α} {f : α → Sys β} {s : World}

variable {ok : α → World → Prop} {w : ℕ → Fault}

theorem succeeds_pure {a : α} (h : ok a s) : Succeeds (pure a) ok s :=
  ensures_pure.mpr h

theorem succeeds_bind {ok : β → World → Prop}
    (h : Succeeds q (fun a t => Succeeds (f a) ok t) s) : Succeeds (q >>= f) ok s :=
  ensures_bind.mpr h

theorem succeeds_mono {ok' : α → World → Prop} (h : Succeeds q ok s)
    (himp : ∀ a t, ok a t → ok' a t) : Succeeds q ok' s :=
  ensures_mono h himp fun _ _ h => h

theorem succeeds_ask {op : Op} {ok : op.Answer → World → Prop}
    (h : ok (performed op s).1 (performed op s).2) : Succeeds (ask op) ok s := by
  refine ensures_lift.mpr fun e he => ⟨trivial, ?_⟩
  have hnone : e.failure = none := he
  have hperformed : operatingSystem op s e = performed op s := by
    unfold operatingSystem
    rw [hnone]
  rw [hperformed]
  exact h

theorem succeeds_refuseIf {c : Prop} [Decidable c] {e : Failure} {ok : Unit → World → Prop}
    (hc : ¬ c) (h : ok () s) : Succeeds (refuseIf c e) ok s :=
  ensures_refuseIf.mpr ⟨fun h => absurd h hc, fun _ => h⟩

theorem succeeds_returned {r : Except Failure α} {a : α} (hr : r = .ok a) (h : ok a s) :
    Succeeds (returned r) ok s := by
  rw [hr]
  exact succeeds_pure h

theorem succeeds_wrap {text : Failure → Failure} (h : Succeeds q ok s) :
    Succeeds (wrap text q) ok s := ensures_wrap.mpr h

/-- Without a failing call `q` ends with an error all the same. -/
def Fails (q : Sys α) (s : World) : Prop :=
  ensures operatingSystem Faultless (fun _ => True) q (fun _ _ => False) (fun _ _ => True) s

theorem fails_bind_left (h : Fails q s) : Fails (q >>= f) s :=
  ensures_bind.mpr (ensures_mono h (fun _ _ h => h.elim) fun _ _ h => h)

theorem fails_bind_right (h : Succeeds q (fun a t => Fails (f a) t) s) : Fails (q >>= f) s :=
  ensures_bind.mpr (ensures_mono h (fun _ _ h => h) fun _ _ h => h.elim)

theorem fails_refuseIf {c : Prop} [Decidable c] {e : Failure} (hc : c) :
    Fails (refuseIf c e) s := ensures_refuseIf.mpr ⟨fun _ => trivial, fun h => h hc⟩

theorem faultless_of_calls (hw : ∀ n, (w n).failure = none) :
    ∀ c ∈ calls operatingSystem q.run w s, Faultless c := by
  intro c hc
  obtain ⟨n, hn⟩ := choice_of_calls hc
  rw [Faultless, hn]
  exact hw n

theorem succeeds_run (h : Succeeds q ok s) (hw : ∀ n, (w n).failure = none) :
    ∃ a, (run operatingSystem q.run w s).1 = .ok a ∧ ok a (run operatingSystem q.run w s).2 := by
  have hpost := assured_run h w (faultless_of_calls hw)
  cases hresult : (run operatingSystem q.run w s).1 with
  | ok a =>
    rw [hresult] at hpost
    exact ⟨a, rfl, hpost⟩
  | error e =>
    rw [hresult] at hpost
    exact hpost.elim

theorem fails_run (h : Fails q s) (hw : ∀ n, (w n).failure = none) :
    ∃ e, (run operatingSystem q.run w s).1 = .error e := by
  have hpost := assured_run h w (faultless_of_calls hw)
  cases hresult : (run operatingSystem q.run w s).1 with
  | ok a =>
    rw [hresult] at hpost
    exact hpost.elim
  | error e => exact ⟨e, rfl⟩

end Rules

/-! ### Trees up to the permissions of directories -/

def Node.shape : Node → Node
  | .directory _ => .directory 0
  | node => node

def shapeAt (t : Tree) (p : Location) : Option Node := (t.node p).map Node.shape

section Shape
variable {t t' : Tree} {p q : Location}

theorem shapeAt_eq_none : shapeAt t p = none ↔ t.node p = none := Option.map_eq_none_iff

theorem shapeAt_eq_directory : shapeAt t p = some (.directory 0) ↔ t.isDirectory p = true := by
  unfold shapeAt Tree.isDirectory
  cases t.node p with
  | none => simp
  | some node =>
    cases node with
    | directory perm => simp [Node.shape, Node.isDirectory]
    | file perm data => simp [Node.shape, Node.isDirectory]
    | symlink target => simp [Node.shape, Node.isDirectory]
    | special => simp [Node.shape, Node.isDirectory]

theorem shapeAt_eq_file {perm : ℕ} {data : List UInt8} :
    shapeAt t p = some (.file perm data) ↔ t.node p = some (.file perm data) := by
  unfold shapeAt
  cases t.node p with
  | none => simp
  | some node =>
    cases node with
    | directory perm => simp [Node.shape]
    | file perm data => simp [Node.shape]
    | symlink target => simp [Node.shape]
    | special => simp [Node.shape]

theorem shapeAt_chmod (perm : ℕ) (hp : t.isDirectory p = true) :
    shapeAt (t.modify p (Node.chmod perm) (isDirectory_chmod perm)) q = shapeAt t q := by
  unfold shapeAt
  rw [Tree.node_modify]
  split_ifs with hq
  · obtain ⟨node, hnode, hdirectory⟩ := Tree.isDirectory_iff.mp hp
    obtain ⟨old, rfl⟩ := Node.isDirectory_iff.mp hdirectory
    rw [hq, hnode]
    rfl
  · rfl

theorem node_ne_none_of_suffix {node : Node} (hnode : t.node p = some node) (hq : q <:+ p) :
    t.node q ≠ none := by
  obtain ⟨below, rfl⟩ := hq
  by_cases hbelow : below = []
  · subst hbelow
    rw [List.nil_append] at hnode
    rw [hnode]
    exact Option.some_ne_none node
  · obtain ⟨dir, hdir, _⟩ := Tree.isDirectory_iff.mp (Tree.isDirectory_above hbelow hnode)
    rw [hdir]
    exact Option.some_ne_none dir

end Shape

/-! ### Directories -/

/- Nothing but a directory is in the way of `p`. -/
structure Clear (t : Tree) (p : Location) : Prop where
  base : t.isDirectory [] = true
  named : ∀ name ∈ p, Named name
  free : ∀ q, q <:+ p → t.node q = none ∨ t.isDirectory q = true

variable {name : Text} {up p : Location} {s : World}

theorem Clear.tail {t : Tree} (h : Clear t (name :: up)) :
    Clear t up where
  base := h.base
  named := fun n hn => h.named n (List.mem_cons_of_mem _ hn)
  free := fun q hq => h.free q (hq.trans (List.suffix_cons name up))

/-- `t` is `s` with the directory `p` and the directories above it. -/
structure WithDirectory (p : Location) (s t : World) : Prop where
  unread : t.unread = s.unread
  content : t.content = s.content
  directory : t.tree.isDirectory p = true
  shape : ∀ q, shapeAt t.tree q =
    if q <:+ p ∧ s.tree.node q = none then some (.directory 0) else shapeAt s.tree q

theorem withDirectory_self (h : s.tree.isDirectory p = true) :
    WithDirectory p s s where
  unread := rfl
  content := rfl
  directory := h
  shape := by
    intro q
    rw [if_neg]
    rintro ⟨hq, hnone⟩
    obtain ⟨node, hnode, _⟩ := Tree.isDirectory_iff.mp h
    exact node_ne_none_of_suffix hnode hq hnone

theorem withDirectory_cons {t u : World} (hup : WithDirectory up s t)
    (habsent : s.tree.node (name :: up) = none) (perm : ℕ) (hunread : u.unread = t.unread)
    (hcontent : u.content = t.content)
    (hnode : ∀ q, u.tree.node q =
      if q = name :: up then some (.directory perm) else t.tree.node q) :
    WithDirectory (name :: up) s u where
  unread := hunread.trans hup.unread
  content := hcontent.trans hup.content
  directory := by
    unfold Tree.isDirectory
    rw [hnode, if_pos rfl]
    rfl
  shape := by
    intro q
    by_cases hq : q = name :: up
    · rw [hq, if_pos ⟨List.suffix_refl _, habsent⟩, shapeAt, hnode, if_pos rfl]
      rfl
    · have hshape : shapeAt u.tree q = shapeAt t.tree q := by
        unfold shapeAt
        rw [hnode, if_neg hq]
      rw [hshape, hup.shape]
      simp only [List.suffix_cons_iff, hq, false_or]

theorem succeeds_mkdirAll (perm : ℕ) (h : Clear s.tree p) :
    Succeeds (mkdirAll p perm) (fun _ t => WithDirectory p s t) s := by
  induction p with
  | nil => exact succeeds_pure (withDirectory_self h.base)
  | cons name up ih =>
    unfold mkdirAll
    refine succeeds_bind (succeeds_ask ?_)
    simp only [performed, nodeOr]
    cases hnode : s.tree.node (name :: up) with
    | some node =>
      -- the entry is there, so that it is a directory
      have hdirectory : s.tree.isDirectory (name :: up) = true := by
        refine (h.free _ (List.suffix_refl _)).resolve_left fun hnone => ?_
        rw [hnode] at hnone
        cases hnone
      have hkind : node.isDirectory = true := by
        simpa [Tree.isDirectory, hnode] using hdirectory
      exact succeeds_refuseIf (by simp [hkind]) (withDirectory_self hdirectory)
    | none =>
      refine succeeds_bind (succeeds_mono (ih h.tail) fun _ t ht => ?_)
      have hself : ¬ (name :: up) <:+ up := by
        intro hsuffix
        have hle := hsuffix.length_le
        rw [List.length_cons] at hle
        omega
      have habsent : t.tree.node (name :: up) = none := by
        rw [← shapeAt_eq_none, ht.shape, if_neg (fun hand => hself hand.1), shapeAt_eq_none]
        exact hnode
      obtain ⟨tree, htree⟩ := Tree.add_isSome (h.named name List.mem_cons_self) habsent
        ht.directory (.directory (masked t perm))
      refine succeeds_bind (succeeds_ask ?_)
      simp only [performed, place, htree]
      exact succeeds_pure (withDirectory_cons ht hnode (masked t perm) rfl rfl
        (Tree.add_eq_some htree).2)

theorem WithDirectory.chmod {t : World} (h : WithDirectory p s t) (perm : ℕ) :
    WithDirectory p s
      { t with tree := t.tree.modify p (Node.chmod perm) (isDirectory_chmod perm) } where
  unread := h.unread
  content := h.content
  directory := by
    rw [← shapeAt_eq_directory, shapeAt_chmod perm h.directory, shapeAt_eq_directory]
    exact h.directory
  shape := by
    intro q
    rw [shapeAt_chmod perm h.directory]
    exact h.shape q

theorem succeeds_chmod {perm : ℕ} {ok : Unit → World → Prop} (hp : s.tree.node p ≠ none)
    (h : ok () { s with tree := s.tree.modify p (Node.chmod perm) (isDirectory_chmod perm) }) :
    Succeeds (chmod p perm >>= returned) ok s := by
  obtain ⟨node, hnode⟩ := Option.ne_none_iff_exists'.mp hp
  refine succeeds_bind (succeeds_ask ?_)
  simp only [performed, hnode]
  exact succeeds_returned rfl h

theorem succeeds_ensureDirectory (perm : ℕ) (h : Clear s.tree p) :
    Succeeds (ensureDirectory p perm) (fun _ t => WithDirectory p s t) s := by
  refine succeeds_bind (succeeds_ask ?_)
  simp only [performed]
  refine succeeds_bind (succeeds_mono (succeeds_mkdirAll perm h) fun _ t ht => ?_)
  obtain ⟨node, hnode, hdirectory⟩ := Tree.isDirectory_iff.mp ht.directory
  have hsome : t.tree.node p ≠ none := by
    rw [hnode]
    exact Option.some_ne_none node
  refine succeeds_bind (succeeds_bind (succeeds_ask ?_))
  simp only [performed, nodeOr, hnode]
  refine succeeds_returned rfl (succeeds_bind (succeeds_refuseIf (by simp [hdirectory]) ?_))
  have hfix : Succeeds (if node.perm ≠ perm then chmod p perm >>= returned else pure ())
      (fun _ u => WithDirectory p s u) t := by
    split_ifs
    · exact succeeds_chmod hsome (ht.chmod perm)
    · exact succeeds_pure ht
  unfold fixPermissions
  cases s.tree.node p with
  | none => exact hfix
  | some old => exact hfix

/-! ### Files -/

structure Packed where
  path : Text
  mode : ℕ
  data : List UInt8

theorem succeeds_setMode {target : Location} {mode : ℕ} {ok : Unit → World → Prop}
    (hp : s.tree.node target ≠ none)
    (h : ok () { s with tree := s.tree.modify target (Node.chmod mode) (isDirectory_chmod mode) }) :
    Succeeds (setMode target mode) ok s := by
  obtain ⟨node, hnode⟩ := Option.ne_none_iff_exists'.mp hp
  refine succeeds_bind (succeeds_ask ?_)
  simp only [performed, hnode]
  exact succeeds_pure h

/- `t` is `s` with a new file. -/
structure WithFile (target : Location) (mode : ℕ) (data : List UInt8) (s t : World) : Prop where
  unread : t.unread = s.unread
  node : ∀ q, t.tree.node q = if q = target then some (.file mode data) else s.tree.node q

theorem succeeds_writeFile {mode size : ℕ} (hname : Named name)
    (habsent : s.tree.node (name :: up) = none) (hup : s.tree.isDirectory up = true)
    (hsize : s.content.length = size) :
    Succeeds (writeFile (name :: up) mode size)
      (fun _ t => WithFile (name :: up) mode s.content s t) s := by
  obtain ⟨tree, htree⟩ := Tree.add_isSome hname habsent hup (.file (masked s mode) [])
  have hcreated := (Tree.add_eq_some htree).2
  refine succeeds_bind (succeeds_bind (succeeds_ask ?_))
  simp only [performed, place, htree]
  refine succeeds_returned rfl (succeeds_bind (succeeds_setMode (by simp [hcreated]) ?_))
  refine succeeds_bind (succeeds_ask ?_)
  have hall : s.content.take size = s.content := by rw [← hsize, List.take_length]
  simp only [performed, hall, hsize, lt_irrefl]
  refine succeeds_bind (succeeds_ask (succeeds_bind (succeeds_ask ?_)))
  refine succeeds_returned rfl ⟨rfl, fun q => ?_⟩
  simp only [performed, Tree.node_modify, hcreated]
  by_cases hq : q = name :: up
  · simp [hq, Node.chmod, Node.write]
  · simp [hq]

/-! ### Names of entries -/

theorem split_append_slash (a b : Text) : split (a ++ '/' :: b) = split a ++ split b :=
  List.splitOnP_append_cons a b (by simp)

theorem trimSlash_of_plain (h : ∀ n ∈ split name, Plain n) :
    trimSlash name = name := by
  unfold trimSlash
  rw [if_neg]
  intro hlast
  obtain ⟨init, rfl⟩ := List.getLast?_eq_some_iff.mp hlast
  have hempty : [] ∈ split (init ++ ['/']) := by
    rw [split_append_slash]
    exact List.mem_append_right _ (by decide)
  exact (h [] hempty).1 rfl

section Name
variable {path : Text} (h : validateBundleRelativePath path = .ok ())
include h

theorem plain_below_top : ∀ n ∈ split (bundleTopDirectory ++ '/' :: path), Plain n := by
  rw [split_append_slash]
  intro n hn
  rcases List.mem_append.mp hn with hn | hn
  · have htop : split bundleTopDirectory = [bundleTopDirectory] := by decide
    rw [htop, List.mem_singleton] at hn
    rw [hn]
    decide
  · exact plain_of_validate h n hn

theorem clean_below_top : clean (bundleTopDirectory ++ ['/'] ++ path) =
    bundleTopDirectory ++ ['/'] ++ path := by
  rw [List.append_assoc, List.singleton_append]
  exact clean_plain (plain_below_top h)

theorem trimSlash_below_top : trimSlash (bundleTopDirectory ++ ['/'] ++ path) =
    bundleTopDirectory ++ ['/'] ++ path := by
  rw [List.append_assoc, List.singleton_append]
  exact trimSlash_of_plain (plain_below_top h)

theorem pathWithin_join {root : Location} : pathWithin root (join root path) = true := by
  unfold pathWithin
  rw [join_validated h, rel_append, List.reverse_reverse]
  cases hs : split path with
  | nil => rfl
  | cons first rest =>
    have hplain := plain_of_validate h first (by rw [hs]; exact List.mem_cons_self)
    simpa using hplain.2.2

end Name

/-! ### Layouts -/

section Layout
variable (root : Location)

/- Two files of which neither lies where the other needs a directory. -/
def Apart (a b : Packed) : Prop :=
  ¬ join root a.path <:+ join root b.path ∧ ¬ join root b.path <:+ join root a.path

/-- Below `root` there are these files and the directories that lead to them. -/
structure Laid (files : List Packed) (t : Tree) : Prop where
  base : t.isDirectory [] = true
  rootNamed : ∀ name ∈ root, Named name
  directory : t.isDirectory root = true
  held : ∀ file ∈ files, t.node (join root file.path) = some (.file file.mode file.data)
  only : ∀ q node, root <:+ q → t.node q = some node →
    node.isDirectory = true ∧ (q = root ∨ ∃ file ∈ files, q <:+ (join root file.path).tail) ∨
    ∃ file ∈ files, q = join root file.path

variable {root} {files : List Packed} {t t' : Tree}

theorem isDirectory_shape (h : ∀ q, shapeAt t' q = shapeAt t q) {q : Location}
    (hq : t.isDirectory q = true) : t'.isDirectory q = true := by
  rw [← shapeAt_eq_directory, h, shapeAt_eq_directory]
  exact hq

theorem Laid.of_shape (hl : Laid root files t) (h : ∀ q, shapeAt t' q = shapeAt t q) :
    Laid root files t' where
  base := isDirectory_shape h hl.base
  rootNamed := hl.rootNamed
  directory := isDirectory_shape h hl.directory
  held := by
    intro file hfile
    rw [← shapeAt_eq_file, h, shapeAt_eq_file]
    exact hl.held file hfile
  only := by
    intro q node hq hnode
    have hsome : t.node q ≠ none := by
      rw [Ne, ← shapeAt_eq_none, ← h, shapeAt_eq_none, hnode]
      exact Option.some_ne_none node
    obtain ⟨old, hold⟩ := Option.ne_none_iff_exists'.mp hsome
    rcases hl.only q old hq hold with ⟨hdirectory, hplace⟩ | hfile
    · have hdir := isDirectory_shape h (Tree.isDirectory_iff.mpr ⟨old, hold, hdirectory⟩)
      obtain ⟨node', hnode', hkind⟩ := Tree.isDirectory_iff.mp hdir
      rw [hnode] at hnode'
      cases hnode'
      exact .inl ⟨hkind, hplace⟩
    · exact .inr hfile

theorem Laid.above (hl : Laid root files t) {q : Location} (hq : q <:+ root) :
    t.isDirectory q = true := by
  obtain ⟨below, hbelow⟩ := hq
  obtain ⟨node, hnode, hkind⟩ := Tree.isDirectory_iff.mp hl.directory
  by_cases hempty : below = []
  · subst hempty
    rw [List.nil_append] at hbelow
    rw [hbelow]
    exact hl.directory
  · rw [← hbelow] at hnode
    exact Tree.isDirectory_above hempty hnode

variable {file : Packed} (hvalid : validateBundleRelativePath file.path = .ok ())
include hvalid

theorem named_join (hl : Laid root files t) : ∀ name ∈ join root file.path, Named name := by
  rw [join_validated hvalid]
  intro name hname
  rcases List.mem_append.mp hname with hname | hname
  · have hmem := List.mem_reverse.mp hname
    exact ⟨plain_of_validate hvalid name hmem, slash_notMem_of_mem_split hmem⟩
  · exact hl.rootNamed name hname

theorem Laid.clear (hl : Laid root files t) (happart : ∀ g ∈ files, Apart root g file) :
    Clear t (join root file.path).tail where
  base := hl.base
  named := fun name hname => named_join hvalid hl name (List.mem_of_mem_tail hname)
  free := by
    intro q hq
    rcases List.suffix_or_suffix_of_suffix hq (suffix_tail_join hvalid) with hroot | hroot
    · exact .inr (hl.above hroot)
    · cases hnode : t.node q with
      | none => exact .inl rfl
      | some node =>
        rcases hl.only q node hroot hnode with ⟨hdirectory, -⟩ | ⟨g, hg, rfl⟩
        · exact .inr (Tree.isDirectory_iff.mpr ⟨node, hnode, hdirectory⟩)
        · exact absurd (hq.trans (List.tail_suffix _)) (happart g hg).1

theorem Laid.absent (hl : Laid root files t) (happart : ∀ g ∈ files, Apart root g file) :
    t.node (join root file.path) = none := by
  cases hnode : t.node (join root file.path) with
  | none => rfl
  | some node =>
    rcases hl.only _ node (suffix_join hvalid) hnode with
      ⟨-, heq | ⟨g, hg, hsuffix⟩⟩ | ⟨g, hg, heq⟩
    · exact absurd heq (join_ne hvalid)
    · exact absurd (hsuffix.trans (List.tail_suffix _)) (happart g hg).2
    · exact absurd (heq ▸ List.suffix_refl _) (happart g hg).2

theorem Laid.cons (hl : Laid root files t) {u : Tree}
    (hshape : ∀ q, shapeAt u q = if q <:+ (join root file.path).tail ∧ t.node q = none
      then some (.directory 0) else shapeAt t q)
    (hnode : ∀ q, t'.node q =
      if q = join root file.path then some (.file file.mode file.data) else u.node q)
    (habsent : t.node (join root file.path) = none) : Laid root (file :: files) t' := by
  have hdirectory : ∀ q, t.isDirectory q = true → t'.isDirectory q = true := by
    intro q hq
    have hne : q ≠ join root file.path := by
      rintro rfl
      rw [Tree.isDirectory, habsent] at hq
      cases hq
    have hsome : ¬ (q <:+ (join root file.path).tail ∧ t.node q = none) := by
      rintro ⟨-, hnone⟩
      rw [Tree.isDirectory, hnone] at hq
      cases hq
    have hu : u.isDirectory q = true := by
      rw [← shapeAt_eq_directory, hshape, if_neg hsome, shapeAt_eq_directory]
      exact hq
    rw [Tree.isDirectory, hnode, if_neg hne]
    exact hu
  constructor
  · exact hdirectory [] hl.base
  · exact hl.rootNamed
  · exact hdirectory root hl.directory
  · intro g hg
    rw [hnode]
    split_ifs with heq
    · rcases List.mem_cons.mp hg with rfl | hg
      · rfl
      · have hheld := hl.held g hg
        rw [heq, habsent] at hheld
        cases hheld
    · have hmem : g ∈ files := by
        rcases List.mem_cons.mp hg with rfl | hg
        · exact absurd rfl heq
        · exact hg
      have hheld := hl.held g hmem
      rw [← shapeAt_eq_file, hshape, if_neg, shapeAt_eq_file]
      · exact hheld
      · rintro ⟨-, hnone⟩
        rw [hheld] at hnone
        cases hnone
  · intro q node hq hq'
    rw [hnode] at hq'
    split_ifs at hq' with heq
    · exact .inr ⟨file, List.mem_cons_self, heq⟩
    · have hu := hshape q
      rw [shapeAt, hq'] at hu
      split_ifs at hu with hnew
      · -- a directory that was made for the file
        refine .inl ⟨?_, .inr ⟨file, List.mem_cons_self, hnew.1⟩⟩
        cases node with
        | directory perm => rfl
        | _ => simp [Node.shape] at hu
      · obtain ⟨old, hold⟩ : ∃ old, t.node q = some old := by
          rw [← Option.ne_none_iff_exists']
          intro hnone
          rw [shapeAt_eq_none.mpr hnone] at hu
          cases hu
        rcases hl.only q old hq hold with ⟨hkind, hplace⟩ | ⟨g, hg, hgq⟩
        · refine .inl ⟨?_, hplace.imp id fun ⟨g, hg, hgq⟩ => ⟨g, List.mem_cons_of_mem _ hg, hgq⟩⟩
          obtain ⟨perm, rfl⟩ := Node.isDirectory_iff.mp hkind
          cases node with
          | directory perm => rfl
          | _ => simp [shapeAt, hold, Node.shape] at hu
        · exact .inr ⟨g, List.mem_cons_of_mem _ hg, hgq⟩

end Layout

/-! ### Entries -/

structure Acceptable (file : Packed) : Prop where
  valid : validateBundleRelativePath file.path = .ok ()
  mode : file.mode = 0o644 ∨ file.mode = 0o755
  positive : 0 < file.data.length
  bounded : file.data.length ≤ maxBundleFileBytes

def Packed.entry (file : Packed) : Entry :=
  ⟨⟨bundleTopDirectory ++ ['/'] ++ file.path, .regular, file.mode, file.data.length⟩, file.data⟩

def Progress.with (carried : Progress) (file : Packed) : Progress :=
  ⟨file.path :: carried.seen, carried.files + 1, carried.total + file.data.length⟩

section Entries
variable {root : Location} {files : List Packed} {file : Packed} {carried : Progress} {s : World}

theorem extractEntry_file (hok : Acceptable file) (hseen : file.path ∉ carried.seen) :
    extractEntry root file.entry.header carried =
      extractFile (join root file.path) file.entry.header
        { carried with seen := file.path :: carried.seen } := by
  have hname : trimSlash file.entry.header.name = bundleTopDirectory ++ ['/'] ++ file.path :=
    trimSlash_below_top hok.valid
  have hfile : ¬ (trimSlash file.entry.header.name = bundleTopDirectory ∧
      file.entry.header.typeflag = .directory) := by
    simp [Packed.entry]
  have hrelative : (bundleTopDirectory ++ ['/'] ++ file.path).drop
      (bundleTopDirectory ++ ['/']).length = file.path := List.drop_left
  have hbelow : ¬ ¬ bundleTopDirectory ++ ['/'] <+: bundleTopDirectory ++ ['/'] ++ file.path :=
    not_not.mpr (List.prefix_append _ _)
  have hwithin : ¬ pathWithin root (join root file.path) = false := by
    simp [pathWithin_join hok.valid]
  unfold extractEntry
  dsimp only
  rw [if_neg hfile, hname]
  unfold extractBelow
  dsimp only
  rw [hrelative]
  unfold refuseIf
  rw [if_neg hbelow, if_neg hseen, if_neg hwithin, hok.valid]
  rfl

theorem succeeds_extractFile (hok : Acceptable file) (hl : Laid root files s.tree)
    (happart : ∀ g ∈ files, Apart root g file) (hcontent : s.content = file.data)
    (hfiles : carried.files + 1 ≤ maxBundleFiles)
    (htotal : carried.total + file.data.length ≤ maxBundleTotalBytes) :
    Succeeds (extractFile (join root file.path) file.entry.header carried)
      (fun next t => next = { carried with
          files := carried.files + 1, total := carried.total + file.data.length } ∧
        t.unread = s.unread ∧ Laid root (file :: files) t.tree) s := by
  have hpositive := hok.positive
  have hbounded := hok.bounded
  have hlimits : ¬ overLimits file.entry.header carried := by
    simp only [overLimits, Packed.entry]
    omega
  have hmode : permBits file.entry.header.mode = file.mode := by
    rcases hok.mode with hmode | hmode
    · simp [Packed.entry, hmode, permBits]
    · simp [Packed.entry, hmode, permBits]
  refine succeeds_bind (succeeds_refuseIf hlimits (succeeds_bind (succeeds_refuseIf ?_ ?_)))
  · rw [hmode]
    rcases hok.mode with hmode | hmode
    · simp [hmode]
    · simp [hmode]
  refine succeeds_bind (succeeds_mono
    (succeeds_ensureDirectory 0o755 (hl.clear hok.valid happart)) fun _ t ht => ?_)
  have habsent := hl.absent hok.valid happart
  cases htarget : join root file.path with
  | nil =>
    have hsuffix : root <:+ join root file.path := suffix_join hok.valid
    rw [htarget, List.suffix_nil] at hsuffix
    exact absurd (htarget.trans hsuffix.symm) (join_ne hok.valid)
  | cons name up =>
    have hname : Named name := named_join hok.valid hl name (by rw [htarget]; exact List.mem_cons_self)
    rw [htarget, List.tail_cons] at ht
    have hself : ¬ (name :: up <:+ up ∧ s.tree.node (name :: up) = none) := by
      rintro ⟨hsuffix, -⟩
      have hle := hsuffix.length_le
      rw [List.length_cons] at hle
      omega
    have hnone : t.tree.node (name :: up) = none := by
      rw [← shapeAt_eq_none, ht.shape, if_neg hself, shapeAt_eq_none, ← htarget]
      exact habsent
    have hsize : t.content.length = file.entry.header.size.toNat := by
      rw [ht.content, hcontent]
      rfl
    refine succeeds_bind (succeeds_mono (succeeds_writeFile hname hnone ht.directory hsize) ?_)
    intro _ u hu
    refine succeeds_pure ⟨rfl, hu.unread.trans ht.unread, ?_⟩
    refine hl.cons hok.valid (u := t.tree) ?_ ?_ habsent
    · rw [htarget, List.tail_cons]
      exact ht.shape
    · intro q
      rw [hu.node, htarget, hmode, ht.content, hcontent]

theorem succeeds_extractEntry (hok : Acceptable file) (hl : Laid root files s.tree)
    (happart : ∀ g ∈ files, Apart root g file) (hcontent : s.content = file.data)
    (hseen : file.path ∉ carried.seen) (hfiles : carried.files + 1 ≤ maxBundleFiles)
    (htotal : carried.total + file.data.length ≤ maxBundleTotalBytes) :
    Succeeds (extractEntry root file.entry.header carried)
      (fun next t => next = carried.with file ∧ t.unread = s.unread ∧
        Laid root (file :: files) t.tree) s := by
  rw [extractEntry_file hok hseen]
  exact succeeds_extractFile hok hl happart hcontent hfiles htotal

theorem fails_extractEntry (hok : Acceptable file) (hseen : file.path ∉ carried.seen)
    (htotal : maxBundleTotalBytes < carried.total + file.data.length) :
    Fails (extractEntry root file.entry.header carried) s := by
  rw [extractEntry_file hok hseen]
  refine fails_bind_left (fails_refuseIf ?_)
  simp only [overLimits, Packed.entry]
  omega

theorem Apart.path_ne {a b : Packed} (h : Apart root a b) : a.path ≠ b.path := by
  intro heq
  exact h.1 (heq ▸ List.suffix_refl _)

def dataSum (files : List Packed) : ℕ := (files.map fun file => file.data.length).sum

/- What is left of an archive can be laid out beside the files that are there. -/
structure Ahead (root : Location) (files : List Packed) (carried : Progress) (rest : List Packed)
    (s : World) : Prop where
  unread : s.unread = rest.map Packed.entry
  laid : Laid root files s.tree
  acceptable : ∀ f ∈ rest, Acceptable f
  apart : ∀ f ∈ rest, ∀ g ∈ files, Apart root g f
  pairwise : rest.Pairwise (Apart root)
  unseen : ∀ f ∈ rest, f.path ∉ carried.seen

theorem Ahead.next {rest : List Packed} {t : World} (h : Ahead root files carried (file :: rest) s)
    (hread : t.unread = rest.map Packed.entry) (hlaid : Laid root (file :: files) t.tree) :
    Ahead root (file :: files) (carried.with file) rest t := by
  obtain ⟨hfirst, hpairwise⟩ := List.pairwise_cons.mp h.pairwise
  refine ⟨hread, hlaid, fun f hf => h.acceptable f (List.mem_cons_of_mem _ hf), ?_, hpairwise, ?_⟩
  · intro f hf g hg
    rcases List.mem_cons.mp hg with rfl | hg
    · exact hfirst f hf
    · exact h.apart f (List.mem_cons_of_mem _ hf) g hg
  · intro f hf hmem
    rcases List.mem_cons.mp hmem with heq | hmem
    · exact (hfirst f hf).path_ne heq.symm
    · exact h.unseen f (List.mem_cons_of_mem _ hf) hmem

theorem succeeds_extractEntries (rest : List Packed) (entries : ℕ)
    (h : Ahead root files carried rest s) (hentries : entries + rest.length ≤ maxBundleEntries)
    (hfiles : carried.files + rest.length ≤ maxBundleFiles)
    (htotal : carried.total + dataSum rest ≤ maxBundleTotalBytes) :
    Succeeds (extractEntries root entries carried)
      (fun _ t => Laid root (rest.reverse ++ files) t.tree) s := by
  induction rest generalizing s files carried entries with
  | nil =>
    rw [extractEntries]
    refine succeeds_bind (succeeds_ask ?_)
    simp only [performed, h.unread, List.map_nil]
    exact succeeds_pure h.laid
  | cons file rest ih =>
    simp only [List.length_cons, dataSum, List.map_cons, List.sum_cons] at hentries hfiles htotal
    rw [extractEntries]
    refine succeeds_bind (succeeds_ask ?_)
    simp only [performed, h.unread, List.map_cons]
    rw [dif_neg (by omega)]
    refine succeeds_bind (succeeds_mono (succeeds_extractEntry (h.acceptable file List.mem_cons_self)
      h.laid (h.apart file List.mem_cons_self) rfl (h.unseen file List.mem_cons_self) (by omega)
      (by omega)) ?_)
    rintro next t ⟨rfl, hread, hlaid⟩
    rw [List.reverse_cons, List.append_assoc, List.singleton_append]
    refine ih (entries + 1) (h.next hread hlaid) (by omega) ?_ ?_
    · simp only [Progress.with]
      omega
    · simp only [Progress.with, dataSum]
      omega

/- Beyond the limits the loop comes to an entry that it refuses. -/
theorem fails_extractEntries (rest : List Packed) (entries : ℕ)
    (h : Ahead root files carried rest s)
    (hentries : entries ≤ maxBundleEntries) (hfiles : carried.files < entries)
    (htotal : carried.total ≤ maxBundleTotalBytes)
    (hover : ¬ (entries + rest.length ≤ maxBundleEntries ∧
      carried.total + dataSum rest ≤ maxBundleTotalBytes)) :
    Fails (extractEntries root entries carried) s := by
  have hequal : maxBundleFiles = maxBundleEntries := rfl
  induction rest generalizing s files carried entries with
  | nil => exact absurd ⟨hentries, by simpa [dataSum] using htotal⟩ hover
  | cons file rest ih =>
    have hacceptable := h.acceptable file List.mem_cons_self
    have hnew := h.unseen file List.mem_cons_self
    simp only [List.length_cons, dataSum, List.map_cons, List.sum_cons] at hover
    rw [extractEntries]
    refine fails_bind_right (succeeds_ask ?_)
    simp only [performed, h.unread, List.map_cons]
    by_cases hcount : entries + 1 > maxBundleEntries
    · rw [dif_pos hcount]
      exact trivial
    · rw [dif_neg hcount]
      by_cases hfits : carried.total + file.data.length ≤ maxBundleTotalBytes
      · refine fails_bind_right (succeeds_mono (succeeds_extractEntry hacceptable
          h.laid (h.apart file List.mem_cons_self) rfl hnew (by omega) hfits) ?_)
        rintro next t ⟨rfl, hread, hlaid⟩
        refine ih (entries + 1) (h.next hread hlaid) (Nat.le_of_not_lt hcount)
          (Nat.succ_lt_succ hfiles) hfits ?_
        simp only [Progress.with, dataSum]
        omega
      · exact fails_bind_left (fails_extractEntry hacceptable hnew (by omega))

end Entries

/-! ### The whole archive -/

section Archive
variable {destination : Location} {s : World}

theorem Vacant.clear {t : Tree} (h : Vacant t destination) :
    Clear t (bundleTopDirectory :: destination) := by
  obtain ⟨node, hnode, hkind⟩ := Tree.isDirectory_iff.mp h.directory
  have habove : ∀ q, q <:+ destination → t.isDirectory q = true := by
    rintro q ⟨below, hbelow⟩
    by_cases hempty : below = []
    · subst hempty
      rw [List.nil_append] at hbelow
      rw [hbelow]
      exact h.directory
    · exact Tree.isDirectory_above hempty (hbelow ▸ hnode)
  constructor
  · exact habove [] List.nil_suffix
  · intro name hname
    rcases List.mem_cons.mp hname with rfl | hname
    · decide
    · exact t.named destination (Tree.mem_of_node hnode) name hname
  · intro q hq
    rcases List.suffix_cons_iff.mp hq with rfl | hq
    · exact .inl (h.empty _ (List.suffix_refl _))
    · exact .inr (habove q hq)

theorem Vacant.laid {t t' : Tree} (h : Vacant t destination)
    (hdirectory : t'.isDirectory (bundleTopDirectory :: destination) = true)
    (hshape : ∀ q, shapeAt t' q = if q <:+ bundleTopDirectory :: destination ∧ t.node q = none
      then some (.directory 0) else shapeAt t q) :
    Laid (bundleTopDirectory :: destination) [] t' := by
  have hbase : t'.isDirectory [] = true := by
    rw [← shapeAt_eq_directory, hshape]
    split_ifs
    · rfl
    · rw [shapeAt_eq_directory]
      exact h.clear.base
  refine ⟨hbase, h.clear.named, hdirectory, fun file hfile => absurd hfile List.not_mem_nil, ?_⟩
  intro q node hq hnode
  have hnew : q <:+ bundleTopDirectory :: destination := by
    by_contra hnew
    have hnone := hshape q
    rw [if_neg (fun hand => hnew hand.1), shapeAt_eq_none.mpr (h.empty q hq), shapeAt_eq_none,
      hnode] at hnone
    cases hnone
  have heq : q = bundleTopDirectory :: destination :=
    List.IsSuffix.eq_of_length hnew (le_antisymm hnew.length_le hq.length_le)
  refine .inl ⟨?_, .inl heq⟩
  rw [heq] at hnode
  obtain ⟨dir, hdir, hkind⟩ := Tree.isDirectory_iff.mp hdirectory
  rw [hnode] at hdir
  cases hdir
  exact hkind

theorem succeeds_chmodEach (found : List (Location × Node))
    (hfound : ∀ x ∈ found, x.2.isDirectory = true → s.tree.isDirectory x.1 = true) :
    Succeeds (chmodEach found) (fun _ t => ∀ q, shapeAt t.tree q = shapeAt s.tree q) s := by
  induction found generalizing s with
  | nil => exact succeeds_pure fun _ => rfl
  | cons x found ih =>
    obtain ⟨p, node⟩ := x
    have hrest : ∀ t : World, (∀ q, shapeAt t.tree q = shapeAt s.tree q) →
        Succeeds (chmodEach found) (fun _ u => ∀ q, shapeAt u.tree q = shapeAt s.tree q) t := by
      intro t ht
      refine succeeds_mono (ih fun y hy hkind => ?_) fun _ u hu q => (hu q).trans (ht q)
      exact isDirectory_shape ht (hfound y (List.mem_cons_of_mem _ hy) hkind)
    unfold chmodEach chmodFound
    refine succeeds_bind ?_
    split_ifs with hdirectory
    · have hp := hfound (p, node) List.mem_cons_self hdirectory
      obtain ⟨found', hnode, hkind⟩ := Tree.isDirectory_iff.mp hp
      refine succeeds_bind (succeeds_bind (succeeds_ask ?_))
      simp only [performed, nodeOr, hnode]
      refine succeeds_returned rfl (succeeds_bind (succeeds_refuseIf (by simp [hkind]) ?_))
      split_ifs
      · refine succeeds_wrap (succeeds_chmod (by simp [hnode]) (hrest _ fun q => ?_))
        exact shapeAt_chmod 0o755 hp
      · exact succeeds_pure (hrest s fun _ => rfl)
    · exact succeeds_pure (hrest s fun _ => rfl)

/- The first entry makes the top directory; `rest` is what happens then. -/
theorem extractEntries_top {files : List Packed}
    (hunread : s.unread = topEntry :: files.map Packed.entry) (hvacant : Vacant s.tree destination)
    (hok : ∀ f ∈ files, Acceptable f)
    (happart : files.Pairwise (Apart (bundleTopDirectory :: destination)))
    {motive : Sys Unit → World → Prop}
    (hbind : ∀ {α : Type} (q : Sys α) (f : α → Sys Unit) (s : World),
      Succeeds q (fun a t => motive (f a) t) s → motive (q >>= f) s)
    (hrest : ∀ t, Ahead (bundleTopDirectory :: destination) [] ⟨[], 0, 0⟩ files t →
      motive (extractEntries (bundleTopDirectory :: destination) 1 ⟨[], 0, 0⟩) t) :
    motive (extractEntries (bundleTopDirectory :: destination) 0 ⟨[], 0, 0⟩) s := by
  have htop : trimSlash topEntry.header.name = bundleTopDirectory ∧
      topEntry.header.typeflag = .directory := by decide
  rw [extractEntries]
  refine hbind _ _ _ (succeeds_ask ?_)
  simp only [performed, hunread]
  rw [dif_neg (by decide)]
  unfold extractEntry
  dsimp only
  rw [if_pos htop]
  refine hbind _ _ _ (succeeds_bind (succeeds_mono
    (succeeds_ensureDirectory 0o755 hvacant.clear) fun _ t ht => succeeds_pure ?_))
  exact hrest t ⟨ht.unread, hvacant.laid ht.directory ht.shape, hok,
    fun _ _ g hg => absurd hg List.not_mem_nil, happart, fun _ _ => List.not_mem_nil⟩

/-- An archive of acceptable files within the limits is unpacked to those files. -/
theorem succeeds_extractBundleArchive (files : List Packed)
    (hunread : s.unread = topEntry :: files.map Packed.entry)
    (hvacant : Vacant s.tree destination) (hok : ∀ f ∈ files, Acceptable f)
    (happart : files.Pairwise (Apart (bundleTopDirectory :: destination)))
    (hentries : 1 + files.length ≤ maxBundleEntries)
    (htotal : (dataSum files : ℤ) ≤ maxBundleTotalBytes) :
    Succeeds (extractBundleArchive destination) (fun root t =>
      root = bundleTopDirectory :: destination ∧ Laid root files.reverse t.tree) s := by
  have hroot : join destination bundleTopDirectory = bundleTopDirectory :: destination :=
    join_plain destination (by decide)
  have hequal : maxBundleFiles = maxBundleEntries := rfl
  have hloop : Succeeds (extractEntries (bundleTopDirectory :: destination) 0 ⟨[], 0, 0⟩)
      (fun _ t => Laid (bundleTopDirectory :: destination) files.reverse t.tree) s := by
    refine extractEntries_top hunread hvacant hok happart (motive := fun q s => Succeeds q
      (fun _ t => Laid (bundleTopDirectory :: destination) files.reverse t.tree) s)
      (fun q f s h => succeeds_bind h) fun t ht => ?_
    refine succeeds_mono (succeeds_extractEntries files 1 ht hentries (by dsimp only; omega)
      (by simpa using htotal)) fun _ u hu => ?_
    simpa using hu
  unfold extractBundleArchive
  dsimp only
  rw [hroot]
  refine succeeds_bind (succeeds_mono hloop fun _ t ht => ?_)
  obtain ⟨node, hnode, hkind⟩ := Tree.isDirectory_iff.mp ht.directory
  refine succeeds_bind (succeeds_wrap (succeeds_bind (succeeds_bind (succeeds_ask ?_))))
  simp only [performed, nodeOr, hnode]
  refine succeeds_returned rfl (succeeds_refuseIf (by simp [hkind]) ?_)
  refine succeeds_bind (succeeds_bind (succeeds_bind (succeeds_ask ?_)))
  refine succeeds_returned rfl ?_
  refine succeeds_mono (succeeds_chmodEach _ ?_) fun _ u hu => succeeds_pure ⟨rfl, ht.of_shape hu⟩
  rintro ⟨p, found⟩ hfound hfoundKind
  exact Tree.isDirectory_iff.mpr ⟨found, (Tree.mem_walk.mp hfound).2, hfoundKind⟩

/-- An archive beyond the limits, its top directory counted, is refused. -/
theorem fails_extractBundleArchive (files : List Packed)
    (hunread : s.unread = topEntry :: files.map Packed.entry)
    (hvacant : Vacant s.tree destination) (hok : ∀ f ∈ files, Acceptable f)
    (happart : files.Pairwise (Apart (bundleTopDirectory :: destination)))
    (hover : ¬ (1 + files.length ≤ maxBundleEntries ∧
      (dataSum files : ℤ) ≤ maxBundleTotalBytes)) :
    Fails (extractBundleArchive destination) s := by
  have hroot : join destination bundleTopDirectory = bundleTopDirectory :: destination :=
    join_plain destination (by decide)
  unfold extractBundleArchive
  dsimp only
  rw [hroot]
  refine fails_bind_left (extractEntries_top hunread hvacant hok happart
    (motive := fun q s => Fails q s) (fun q f s h => fails_bind_right h) fun t ht => ?_)
  exact fails_extractEntries files 1 ht (by decide) (by decide) (by decide) (by simpa using hover)

end Archive

end RemnanodeLite.Rnlctl
