import RemnanodeLite.Lib.JsonText

/-! # JSON documents

The grammar of arrays and objects over the words of a text. A tree keeps the
shape of a document and the decoded keys of its objects. -/

namespace JsonText

inductive Tree where
  | scalar
  | arr (items : List Tree)
  | obj (members : List (String × Tree))

namespace Tree

mutual
/- The number of containers around the innermost value. -/
def depth : Tree → ℕ
  | scalar => 0
  | arr items => depthItems items + 1
  | obj members => depthMembers members + 1

def depthItems : List Tree → ℕ
  | [] => 0
  | t :: ts => max (depth t) (depthItems ts)

def depthMembers : List (String × Tree) → ℕ
  | [] => 0
  | (_, t) :: ms => max (depth t) (depthMembers ms)
end

mutual
def tokens : Tree → ℕ
  | scalar => 1
  | arr items => tokensItems items + 2
  | obj members => tokensMembers members + 2

def tokensItems : List Tree → ℕ
  | [] => 0
  | t :: ts => tokens t + tokensItems ts

def tokensMembers : List (String × Tree) → ℕ
  | [] => 0
  | (_, t) :: ms => 1 + tokens t + tokensMembers ms
end

theorem depthItems_le {items : List Tree} {n : ℕ} :
    depthItems items ≤ n ↔ ∀ t ∈ items, depth t ≤ n := by
  induction items with
  | nil => simp [depthItems]
  | cons t ts ih => rw [depthItems, Nat.max_le, List.forall_mem_cons, ih]

theorem depthMembers_le {members : List (String × Tree)} {n : ℕ} :
    depthMembers members ≤ n ↔ ∀ m ∈ members, depth m.2 ≤ n := by
  induction members with
  | nil => simp [depthMembers]
  | cons m ms ih => rw [depthMembers, Nat.max_le, List.forall_mem_cons, ih]

theorem depth_le_of_item {items : List Tree} {t : Tree} (h : t ∈ items) :
    depth t + 1 ≤ depth (arr items) := by
  rw [depth]
  exact Nat.succ_le_succ (depthItems_le.mp (Nat.le_refl _) t h)

theorem depth_le_of_member {members : List (String × Tree)} {m : String × Tree}
    (h : m ∈ members) : depth m.2 + 1 ≤ depth (obj members) := by
  rw [depth]
  exact Nat.succ_le_succ (depthMembers_le.mp (Nat.le_refl _) m h)

def parts : Tree → List Tree
  | scalar => []
  | arr items => items
  | obj members => members.map Prod.snd

/- Induction over the values below, by the depth. -/
@[elab_as_elim]
theorem parts_induction {P : Tree → Prop} (h : ∀ t, (∀ u ∈ t.parts, P u) → P t) (t : Tree) : P t := by
  induction hn : t.depth using Nat.strong_induction_on generalizing t with
  | _ n ih =>
    subst hn
    refine h t fun u hu => ih _ ?_ u rfl
    cases t with
    | scalar => cases hu
    | arr items => exact depth_le_of_item hu
    | obj members =>
      obtain ⟨m, hm, rfl⟩ := List.mem_map.mp hu
      exact depth_le_of_member hm

end Tree

/- White space before an entry, with a comma unless the entry is the first. -/
def Lead (started : Bool) (lead : List UInt8) : Prop :=
  if started then ∃ w w', lead = w ++ 0x2c :: w' ∧ Spaces w ∧ Spaces w' else Spaces lead

/-- Entries up to and with the closing character. -/
inductive Entries {α : Type} (entry : List UInt8 → α → Prop) (close : UInt8) :
    Bool → List UInt8 → List α → Prop
  | close {started : Bool} {w : List UInt8} (hw : Spaces w) :
      Entries entry close started (w ++ [close]) []
  | entry {started : Bool} {lead text rest : List UInt8} {a : α} {as : List α}
      (hlead : Lead started lead) (htext : entry text a)
      (hrest : Entries entry close true rest as) :
      Entries entry close started (lead ++ (text ++ rest)) (a :: as)

inductive IsMember (value : List UInt8 → Tree → Prop) : List UInt8 → String × Tree → Prop
  | mk {raw w w' text : List UInt8} {t : Tree} (hraw : StringBody raw) (hw : Spaces w)
      (hw' : Spaces w') (htext : value text t) :
      IsMember value (quoted raw ++ (w ++ 0x3a :: (w' ++ text))) (unquote raw, t)

/-- `text` is the value with the shape and the keys of a tree. -/
inductive IsValue : List UInt8 → Tree → Prop
  | scalar {text : List UInt8} (h : IsScalar text) : IsValue text .scalar
  | arr {text : List UInt8} {items : List Tree} (h : Entries IsValue 0x5d false text items) :
      IsValue (0x5b :: text) (.arr items)
  | obj {text : List UInt8} {members : List (String × Tree)}
      (h : Entries (IsMember IsValue) 0x7d false text members) :
      IsValue (0x7b :: text) (.obj members)

/-- One value with white space around it. -/
def Document (body : List UInt8) (t : Tree) : Prop :=
  ∃ before text after, body = before ++ (text ++ after) ∧ Spaces before ∧ Spaces after ∧
    IsValue text t

def startsValue (c : UInt8) : Bool := startsScalar c || c = 0x5b || c = 0x7b

theorem head_value {text : List UInt8} {t : Tree} (h : IsValue text t) :
    ∃ c cs, text = c :: cs ∧ startsValue c = true := by
  cases h with
  | scalar hscalar =>
    obtain ⟨c, cs, rfl, hc⟩ := head_scalar hscalar
    exact ⟨c, cs, rfl, by simp [startsValue, hc]⟩
  | arr h => exact ⟨_, _, rfl, rfl⟩
  | obj h => exact ⟨_, _, rfl, rfl⟩

theorem isNumberChar_of_isSpace {c : UInt8} (h : isSpace c = true) : isNumberChar c = false := by
  simp only [isSpace, Bool.or_eq_true, decide_eq_true_eq] at h
  rcases h with ((rfl | rfl) | rfl) | rfl
  · rfl
  · rfl
  · rfl
  · rfl

theorem stops_spaces {w : List UInt8} (h : Spaces w) : Stops w := by
  intro c hc
  exact isNumberChar_of_isSpace (h c (List.mem_of_mem_head? hc))

theorem stops_spaces_cons {w r : List UInt8} {c : UInt8} (hw : Spaces w)
    (hc : isNumberChar c = false) : Stops (w ++ c :: r) := by
  intro x hx
  cases w with
  | nil =>
    cases hx
    exact hc
  | cons a w =>
    cases hx
    exact isNumberChar_of_isSpace (hw _ List.mem_cons_self)

theorem Entries.stops {α : Type} {entry : List UInt8 → α → Prop} {close : UInt8}
    {text rest : List UInt8} {as : List α} (hclose : isNumberChar close = false)
    (h : Entries entry close true text as) : Stops (text ++ rest) := by
  cases h with
  | close hw =>
    rw [List.append_assoc]
    exact stops_spaces_cons hw hclose
  | entry hlead htext hrest =>
    obtain ⟨w, w', rfl, hw, -⟩ := hlead
    simp only [List.append_assoc, List.cons_append]
    exact stops_spaces_cons hw rfl

end JsonText
