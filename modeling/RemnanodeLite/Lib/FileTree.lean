import Mathlib.Data.Char
import Mathlib.Data.List.AList
import Mathlib.Data.List.Lex
import RemnanodeLite.Lib.Distinct
import RemnanodeLite.Lib.Filepath

/-! # Trees of files

The entries of a file system by their locations. Every entry has a proper name
and lies in a directory. -/

namespace FileTree
open Filepath

inductive Node where
  | directory (perm : ℕ)
  | file (perm : ℕ) (data : List UInt8)
  | symlink (target : Text)
  | special
  deriving DecidableEq

def Node.isDirectory : Node → Bool
  | directory _ => true
  | _ => false

def Node.isRegular : Node → Bool
  | file _ _ => true
  | _ => false

def Node.perm : Node → ℕ
  | directory perm => perm
  | file perm _ => perm
  | symlink _ => 0o777
  | special => 0

def Node.chmod (perm : ℕ) : Node → Node
  | directory _ => directory perm
  | file _ data => file perm data
  | node => node

def Node.write (more : List UInt8) : Node → Node
  | file perm data => file perm (data ++ more)
  | node => node

theorem Node.isDirectory_iff {node : Node} :
    node.isDirectory = true ↔ ∃ perm, node = .directory perm := by
  cases node with
  | directory perm => simp [isDirectory]
  | file perm data => simp [isDirectory]
  | symlink target => simp [isDirectory]
  | special => simp [isDirectory]

def Named (name : Text) : Prop := Plain name ∧ '/' ∉ name

instance (name : Text) : Decidable (Named name) := inferInstanceAs (Decidable (_ ∧ _))

structure Tree where
  nodes : AList fun _ : Location => Node
  named : ∀ p ∈ nodes, ∀ name ∈ p, Named name
  nested : ∀ name p, name :: p ∈ nodes → ∃ node, nodes.lookup p = some node ∧ node.isDirectory

namespace Tree

def node (t : Tree) (p : Location) : Option Node := t.nodes.lookup p

def isDirectory (t : Tree) (p : Location) : Bool := (t.node p).any Node.isDirectory

theorem isDirectory_iff {t : Tree} {p : Location} :
    t.isDirectory p = true ↔ ∃ node, t.node p = some node ∧ node.isDirectory := by
  rw [isDirectory, Option.any_eq_true]

theorem mem_of_node {t : Tree} {p : Location} {node : Node} (h : t.node p = some node) :
    p ∈ t.nodes := AList.lookup_isSome.mp (Option.isSome_iff_exists.mpr ⟨node, h⟩)

/- A directory does not change into something else. -/
def put (t : Tree) (p : Location) (node : Node) (hnamed : ∀ name ∈ p, Named name)
    (hparent : ∀ name up, p = name :: up → t.isDirectory up = true)
    (hkind : t.isDirectory p = true → node.isDirectory = true) : Tree where
  nodes := t.nodes.insert p node
  named := by
    intro q hq
    rcases (AList.mem_insert t.nodes).mp hq with rfl | hq
    · exact hnamed
    · exact t.named q hq
  nested := by
    intro name q hq
    have hdirectory : t.isDirectory q = true := by
      rcases (AList.mem_insert t.nodes).mp hq with heq | hq
      · exact hparent name q heq.symm
      · exact isDirectory_iff.mpr (t.nested name q hq)
    by_cases hqp : q = p
    · subst hqp
      exact ⟨node, AList.lookup_insert t.nodes, hkind hdirectory⟩
    · rw [AList.lookup_insert_ne hqp]
      exact isDirectory_iff.mp hdirectory

def bare (perm : ℕ) : Tree where
  nodes := AList.singleton [] (.directory perm)
  named := by
    intro p hp name hname
    rw [AList.mem_keys, AList.keys_singleton, List.mem_singleton] at hp
    simp [hp] at hname
  nested := by
    intro name p hp
    rw [AList.mem_keys, AList.keys_singleton, List.mem_singleton] at hp
    cases hp

theorem node_bare (perm : ℕ) (p : Location) :
    (bare perm).node p = if p = [] then some (.directory perm) else none := by
  cases p with
  | nil => rfl
  | cons name up => rfl

def WellFormed (l : List (Location × Node)) : Prop :=
  (l.map Prod.fst).Nodup ∧ ∀ x ∈ l, (∀ name ∈ x.1, Named name) ∧
    (x.1 = [] ∨ ∃ y ∈ l, y.1 = x.1.tail ∧ y.2.isDirectory = true)

instance (l : List (Location × Node)) : Decidable (WellFormed l) :=
  inferInstanceAs (Decidable (_ ∧ _))

section OfList
variable {l : List (Location × Node)} (h : WellFormed l)

def listed (l : List (Location × Node)) : List (Sigma fun _ : Location => Node) :=
  l.map fun x => ⟨x.1, x.2⟩

theorem keys_listed (l : List (Location × Node)) : (listed l).keys = l.map Prod.fst := by
  simp [listed, List.keys]

theorem mem_listed {p : Location} {node : Node} : Sigma.mk p node ∈ listed l ↔ (p, node) ∈ l := by
  simp [listed]

def ofList : Tree where
  nodes := ⟨listed l, by
    rw [List.NodupKeys, keys_listed]
    exact h.1⟩
  named := by
    intro p hp
    rw [AList.mem_keys, AList.keys_mk, keys_listed] at hp
    obtain ⟨x, hx, rfl⟩ := List.mem_map.mp hp
    exact (h.2 x hx).1
  nested := by
    intro name p hp
    rw [AList.mem_keys, AList.keys_mk, keys_listed] at hp
    obtain ⟨x, hx, hname⟩ := List.mem_map.mp hp
    rcases (h.2 x hx).2 with hnil | ⟨y, hy, hup, hkind⟩
    · rw [hnil] at hname
      cases hname
    · rw [hname, List.tail_cons] at hup
      refine ⟨y.2, AList.mem_lookup_iff.mpr (mem_listed.mpr ?_), hkind⟩
      rw [← hup]
      exact hy

theorem node_ofList {p : Location} {node : Node} :
    (ofList h).node p = some node ↔ (p, node) ∈ l :=
  AList.mem_lookup_iff.trans mem_listed

end OfList

variable {t : Tree} {p q : Location} {node : Node}

theorem node_put {hnamed hparent hkind} :
    (t.put p node hnamed hparent hkind).node q = if q = p then some node else t.node q := by
  by_cases hqp : q = p
  · subst hqp
    rw [if_pos rfl]
    exact AList.lookup_insert t.nodes
  · rw [if_neg hqp]
    exact AList.lookup_insert_ne hqp

def add (t : Tree) (p : Location) (node : Node) : Option Tree :=
  match p with
  | [] => none
  | name :: up =>
    if h : Named name ∧ t.node (name :: up) = none ∧ t.isDirectory up = true then
      some (t.put (name :: up) node
        (by
          intro n hn
          rcases List.mem_cons.mp hn with rfl | hn
          · exact h.1
          · obtain ⟨dir, hdir, _⟩ := isDirectory_iff.mp h.2.2
            exact t.named up (mem_of_node hdir) n hn)
        (by
          intro n u heq
          rw [← (List.cons.inj heq).2]
          exact h.2.2)
        (by
          intro hdir
          rw [isDirectory, h.2.1] at hdir
          exact absurd hdir (by simp)))
    else none

theorem add_eq_some {t' : Tree} (h : t.add p node = some t') :
    t.node p = none ∧ ∀ q, t'.node q = if q = p then some node else t.node q := by
  cases p with
  | nil => cases h
  | cons name up =>
    simp only [add] at h
    split_ifs at h with hadd
    cases h
    exact ⟨hadd.2.1, fun q => node_put⟩

theorem add_isSome {name : Text} {up : Location} (hname : Named name)
    (habsent : t.node (name :: up) = none) (hup : t.isDirectory up = true) (node : Node) :
    ∃ t', t.add (name :: up) node = some t' := by
  rw [add, dif_pos ⟨hname, habsent, hup⟩]
  exact ⟨_, rfl⟩

/- A change of an entry that leaves a directory a directory. -/
def modify (t : Tree) (p : Location) (change : Node → Node)
    (hkind : ∀ node, node.isDirectory = true → (change node).isDirectory = true) : Tree :=
  match h : t.node p with
  | none => t
  | some node => t.put p (change node) (t.named p (mem_of_node h))
      (by
        intro name up heq
        subst heq
        exact isDirectory_iff.mpr (t.nested name up (mem_of_node h)))
      (by
        intro hdir
        obtain ⟨node', hnode', hdir⟩ := isDirectory_iff.mp hdir
        rw [h] at hnode'
        cases hnode'
        exact hkind node hdir)

theorem node_modify {change : Node → Node} (hkind) :
    (t.modify p change hkind).node q = if q = p then (t.node p).map change else t.node q := by
  unfold modify
  split
  case h_1 h =>
    by_cases hqp : q = p
    · rw [if_pos hqp, hqp, h]
      rfl
    · rw [if_neg hqp]
  case h_2 node h =>
    rw [node_put, h]
    rfl

theorem isDirectory_above {below : Location} (hbelow : below ≠ [])
    (h : t.node (below ++ p) = some node) : t.isDirectory p = true := by
  induction below generalizing node with
  | nil => exact absurd rfl hbelow
  | cons name below ih =>
    obtain ⟨up, hup, hdir⟩ := t.nested name (below ++ p) (mem_of_node h)
    by_cases hempty : below = []
    · subst hempty
      exact isDirectory_iff.mpr ⟨up, hup, hdir⟩
    · exact ih hempty hup

/- `filepath.WalkDir`: what lies at or below `root`, in lexical order. -/
def walk (t : Tree) (root : Location) : List (Location × Node) :=
  Distinct.sortBy (fun entry => entry.1.reverse)
    ((t.nodes.entries.filter fun entry => root <:+ entry.1).map fun entry => (entry.1, entry.2))

theorem mem_walk {root : Location} :
    (p, node) ∈ t.walk root ↔ root <:+ p ∧ t.node p = some node := by
  have hlookup : t.node p = some node ↔ Sigma.mk p node ∈ t.nodes.entries := AList.mem_lookup_iff
  rw [walk, Distinct.mem_sortBy, hlookup, List.mem_map]
  constructor
  · rintro ⟨⟨q, m⟩, hentry, heq⟩
    cases heq
    obtain ⟨hmem, hroot⟩ := List.mem_filter.mp hentry
    exact ⟨of_decide_eq_true hroot, hmem⟩
  · rintro ⟨hroot, hmem⟩
    exact ⟨⟨p, node⟩, List.mem_filter.mpr ⟨hmem, decide_eq_true hroot⟩, rfl⟩

end Tree

end FileTree
