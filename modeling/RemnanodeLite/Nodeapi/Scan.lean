import RemnanodeLite.Lib.Fallible
import RemnanodeLite.Lib.JsonReading
import RemnanodeLite.Nodeapi.Json

/-! # What a scan accepts

A tree conforms to a type when every container in it keeps the limits and the
spelling that hold at its position. The scan of a value succeeds exactly when a
conforming tree is read within the levels and the tokens that are left. -/

namespace RemnanodeLite.Nodeapi
open JsonText

section Conforms
variable {B : Type} (types : Types B) (fold : Char → Char → Bool)

def childSchema (schema : Option (Ty B)) (key : String) : Option (Ty B) :=
  (schemaFields types schema).bind fun fields => fields.exact key

/-- At a struct a key is a field name or differs from every one by more than case. -/
def Spelled (schema : Option (Ty B)) (key : String) : Prop :=
  ∀ fields, schemaFields types schema = some fields →
    key ∈ fields.names ∨ ∀ name ∈ fields.names, equalFold fold key name = false

inductive Conforms : Option (Ty B) → Tree → Prop
  | scalar {schema : Option (Ty B)} : Conforms schema .scalar
  | arr {schema : Option (Ty B)} {items : List Tree}
      (hlength : items.length ≤ (controlArraySchema types schema).2)
      (hitems : ∀ t ∈ items, Conforms (controlArraySchema types schema).1 t) :
      Conforms schema (.arr items)
  | obj {schema : Option (Ty B)} {members : List (String × Tree)}
      (hlength : members.length ≤ memberLimit types schema)
      (hkeys : (members.map Prod.fst).Nodup)
      (hsize : ∀ m ∈ members, m.1.utf8ByteSize ≤ maxJSONKeyBytes)
      (hspelled : ∀ m ∈ members, Spelled types fold schema m.1)
      (hmembers : ∀ m ∈ members, Conforms (childSchema types schema m.1) m.2) :
      Conforms schema (.obj members)

end Conforms

variable {B : Type} {types : Types B} {fold : Char → Char → Bool} {quote : String → String}
  {s s' : Scanner} {tok : Token}

/-! ### One token -/

theorem next_ok_iff : s.next = .ok (tok, s') ↔ s.tokens < maxJSONDocumentTokens ∧
    s.decoder.token = .ok (tok, s'.decoder) ∧ s'.tokens = s.tokens + 1 := by
  unfold Scanner.next
  by_cases hlimit : s.tokens ≥ maxJSONDocumentTokens
  · rw [if_pos hlimit]
    constructor
    · intro h
      split at h <;> cases h
    · intro h
      omega
  · rw [if_neg hlimit]
    cases htoken : s.decoder.token with
    | error e =>
      cases e with
      | eof => simp
      | invalid => simp
    | ok p =>
      obtain ⟨tok', decoder⟩ := p
      obtain ⟨decoder', tokens'⟩ := s'
      simp only [Except.ok.injEq, Prod.mk.injEq, Scanner.mk.injEq]
      constructor
      · rintro ⟨rfl, rfl, rfl⟩
        exact ⟨by omega, ⟨rfl, rfl⟩, rfl⟩
      · rintro ⟨-, ⟨rfl, rfl⟩, rfl⟩
        exact ⟨rfl, rfl, rfl⟩

theorem next_eof_iff : s.next = .error .eof ↔ s.decoder.token = .error .eof := by
  unfold Scanner.next
  cases htoken : s.decoder.token with
  | error e =>
    cases e with
    | eof => simp
    | invalid => by_cases h : s.tokens ≥ maxJSONDocumentTokens <;> simp [h]
  | ok p => by_cases h : s.tokens ≥ maxJSONDocumentTokens <;> simp [h]

theorem nextOrIssue_ok_iff {r : Token × Scanner} :
    s.nextOrIssue = .ok r ↔ s.next = .ok r := by
  unfold Scanner.nextOrIssue
  cases s.next with
  | error e => simp [Except.mapError]
  | ok p => simp [Except.mapError]

/-! ### Keys -/

theorem exact_isSome_iff {fields : ObjectFieldSchema B} {key : String} :
    (fields.exact key).isSome ↔ key ∈ fields.names := by
  rw [ObjectFieldSchema.exact, List.lookup_isSome_iff, ObjectFieldSchema.names, List.mem_map]
  constructor
  · rintro ⟨p, hp, hkey⟩
    exact ⟨p, List.mem_reverse.mp hp, (beq_iff_eq.mp hkey).symm⟩
  · rintro ⟨p, hp, rfl⟩
    exact ⟨p, List.mem_reverse.mpr hp, by simp⟩

theorem memberSchema_ok_iff {schema child : Option (Ty B)} {path : List PathElement}
    {key : String} : memberSchema types fold quote schema path key = .ok child ↔
      Spelled types fold schema key ∧ child = childSchema types schema key := by
  unfold memberSchema Spelled childSchema
  cases hfields : schemaFields types schema with
  | none =>
    constructor
    · intro h
      cases h
      exact ⟨fun fields h => (by cases h), rfl⟩
    · rintro ⟨-, rfl⟩
      rfl
  | some fields =>
    have hnames : (fields.exact key).isSome ↔ key ∈ fields.names := exact_isSome_iff
    simp only [Option.some.injEq, forall_eq', Option.bind_some]
    cases hexact : fields.exact key with
    | some ty =>
      rw [hexact] at hnames
      constructor
      · intro h
        cases h
        exact ⟨Or.inl (hnames.mp rfl), rfl⟩
      · rintro ⟨-, rfl⟩
        rfl
    | none =>
      rw [hexact] at hnames
      have hmem : key ∉ fields.names := fun h => by simpa using hnames.mpr h
      cases hfolded : fields.foldedName fold key with
      | none =>
        have hall : ∀ name ∈ fields.names, equalFold fold key name = false := by
          intro name hname
          have hnone := List.find?_eq_none.mp hfolded name hname
          simpa using hnone
        constructor
        · intro h
          cases h
          exact ⟨Or.inr hall, rfl⟩
        · rintro ⟨-, rfl⟩
          rfl
      | some canonical =>
        have hcanonical := List.find?_some hfolded
        have hmem' := List.mem_of_find?_eq_some hfolded
        constructor
        · intro h
          cases h
        · rintro ⟨hspelled, -⟩
          have hdiffers := hspelled.resolve_left hmem canonical hmem'
          rw [hdiffers] at hcanonical
          cases hcanonical

theorem checkKey_ok_iff {seen : List String} {path : List PathElement} {key : String} :
    checkKey seen path tok = .ok key ↔
      tok = .string key ∧ key.utf8ByteSize ≤ maxJSONKeyBytes ∧ key ∉ seen := by
  cases tok with
  | delim d => simp [checkKey]
  | other => simp [checkKey]
  | string name =>
    simp only [checkKey, Token.string.injEq]
    constructor
    · intro h
      split_ifs at h with hsize hseen
      cases h
      exact ⟨rfl, by omega, hseen⟩
    · rintro ⟨rfl, hsize, hseen⟩
      rw [if_neg (by omega), if_neg hseen]

/-! ### Values -/

variable (types fold) in
structure Accepted (levels : ℕ) (schema : Option (Ty B)) (t : Tree) (s s' : Scanner) : Prop where
  reads : Reads s.decoder t s'.decoder
  depth : t.depth ≤ levels
  conforms : Conforms types fold schema t
  tokens : s'.tokens = s.tokens + t.tokens
  limit : s'.tokens ≤ maxJSONDocumentTokens

/- `visit` accepts what is accepted at a level. -/
def Visits (types : Types B) (fold : Char → Char → Bool) (levels : ℕ) (visit : Visit B) : Prop :=
  ∀ schema path tok s s₁ s₂, s.next = .ok (tok, s₁) →
    (visit schema path tok s₁ = .ok s₂ ↔ ∃ t, Accepted types fold levels schema t s s₂)

theorem tokens_pos (t : Tree) : 1 ≤ t.tokens := by
  cases t with
  | scalar => rw [Tree.tokens]
  | arr items => rw [Tree.tokens]; omega
  | obj members => rw [Tree.tokens]; omega

theorem Accepted.next {levels : ℕ} {schema : Option (Ty B)} {t : Tree}
    (h : Accepted types fold levels schema t s s') : ∃ tok s₁, s.next = .ok (tok, s₁) := by
  obtain ⟨tok, d₁, htoken, -⟩ := reads_token h.reads
  have hpos := tokens_pos t
  have htokens := h.tokens
  have hlimit := h.limit
  exact ⟨tok, ⟨d₁, s.tokens + 1⟩, next_ok_iff.mpr ⟨by omega, htoken, rfl⟩⟩

theorem closes_ok_iff :
    (s.nextOrIssue >>= fun r => pure r.2 : Except Issue Scanner) = .ok s' ↔
      ∃ tok, s.next = .ok (tok, s') := by
  rw [Fallible.bind_ok_iff]
  constructor
  · rintro ⟨⟨tok, s₁⟩, hnext, hpure⟩
    cases hpure
    exact ⟨tok, nextOrIssue_ok_iff.mp hnext⟩
  · rintro ⟨tok, hnext⟩
    exact ⟨(tok, s'), nextOrIssue_ok_iff.mpr hnext, rfl⟩

/-! ### Arrays -/

variable (types fold) in
structure AcceptedItems (levels : ℕ) (schema : Option (Ty B)) (left : ℕ) (items : List Tree)
    (s s' : Scanner) : Prop where
  reads : ReadsItems Reads s.decoder items s'.decoder
  length : items.length ≤ left
  depth : Tree.depthItems items ≤ levels
  conforms : ∀ t ∈ items, Conforms types fold schema t
  tokens : s'.tokens = s.tokens + Tree.tokensItems items + 1
  limit : s'.tokens ≤ maxJSONDocumentTokens

section Items
variable {levels left : ℕ} {schema : Option (Ty B)}

theorem acceptedItems_item (hmore : s.decoder.more = true) :
    (∃ items, AcceptedItems types fold levels schema (left + 1) items s s') ↔
      ∃ t s₂, Accepted types fold levels schema t s s₂ ∧
        ∃ items, AcceptedItems types fold levels schema left items s₂ s' := by
  constructor
  · rintro ⟨items, h⟩
    have htokens := h.tokens
    have hlimit := h.limit
    have hdepth := h.depth
    have hlength := h.length
    have hconforms := h.conforms
    cases h.reads with
    | close hmore' htoken => rw [hmore] at hmore'; cases hmore'
    | @item _ d₁ _ t ts hmore' hitem hrest =>
      rw [Tree.depthItems, Nat.max_le] at hdepth
      rw [Tree.tokensItems] at htokens
      refine ⟨t, ⟨d₁, s.tokens + t.tokens⟩, ?_, ts, ?_⟩
      · exact ⟨hitem, hdepth.1, hconforms t List.mem_cons_self, rfl, by simp only; omega⟩
      · exact ⟨hrest, by simpa using hlength, hdepth.2,
          fun t ht => hconforms t (List.mem_cons_of_mem _ ht), by simp only; omega, hlimit⟩
  · rintro ⟨t, s₂, ht, items, h⟩
    refine ⟨t :: items, .item hmore ht.reads h.reads, by simpa using h.length, ?_, ?_, ?_, h.limit⟩
    · rw [Tree.depthItems, Nat.max_le]
      exact ⟨ht.depth, h.depth⟩
    · exact List.forall_mem_cons.mpr ⟨ht.conforms, h.conforms⟩
    · have hfirst := ht.tokens
      have hrest := h.tokens
      rw [Tree.tokensItems]
      omega

theorem scanItems_eq (visit : Visit B) (schema : Option (Ty B)) (path : List PathElement)
    (limit left count : ℕ) (s : Scanner) :
    scanItems visit schema path limit left count s =
      if s.decoder.more then
        match left with
        | 0 => .error (tooBigArrayIssue path limit)
        | left + 1 => s.nextOrIssue >>= fun r =>
          visit schema (if schema.isSome then path ++ [.index count] else path) r.1 r.2 >>=
            scanItems visit schema path limit left (count + 1)
      else s.nextOrIssue >>= fun r => pure r.2 := by
  cases left <;> rfl

theorem scanItems_closed {visit : Visit B} {path : List PathElement} {limit count : ℕ}
    (hmore : s.decoder.more = false) : scanItems visit schema path limit left count s = .ok s' ↔
      ∃ items, AcceptedItems types fold levels schema left items s s' := by
  rw [scanItems_eq, hmore, if_neg (by decide), closes_ok_iff]
  constructor
  · rintro ⟨tok, hnext⟩
    obtain ⟨hlimit, htoken, htokens⟩ := next_ok_iff.mp hnext
    refine ⟨[], .close hmore htoken, by simp, by simp [Tree.depthItems], by simp, ?_, by omega⟩
    rw [Tree.tokensItems]
    omega
  · rintro ⟨items, h⟩
    have htokens := h.tokens
    have hlimit := h.limit
    cases h.reads with
    | close hmore' htoken =>
      rw [Tree.tokensItems] at htokens
      exact ⟨_, next_ok_iff.mpr ⟨by omega, htoken, by omega⟩⟩
    | item hmore' hitem hrest => rw [hmore] at hmore'; cases hmore'

theorem scanItems_ok_iff {visit : Visit B} (hvisit : Visits types fold levels visit)
    (schema : Option (Ty B)) (path : List PathElement) (limit : ℕ) :
    ∀ (left count : ℕ) (s s' : Scanner), scanItems visit schema path limit left count s = .ok s' ↔
      ∃ items, AcceptedItems types fold levels schema left items s s' := by
  intro left
  induction left with
  | zero =>
    intro count s s'
    cases hmore : s.decoder.more with
    | false => exact scanItems_closed hmore
    | true =>
      rw [scanItems_eq, hmore, if_pos rfl]
      constructor
      · intro h
        cases h
      · rintro ⟨items, h⟩
        have hlength := h.length
        cases h.reads with
        | close hmore' htoken => rw [hmore] at hmore'; cases hmore'
        | item hmore' hitem hrest => simp at hlength
  | succ left ih =>
    intro count s s'
    cases hmore : s.decoder.more with
    | false => exact scanItems_closed hmore
    | true =>
      rw [scanItems_eq, hmore, if_pos rfl, acceptedItems_item hmore]
      simp only [Fallible.bind_ok_iff, nextOrIssue_ok_iff, ih]
      constructor
      · rintro ⟨⟨tok, s₁⟩, hnext, s₂, hscan, hrest⟩
        obtain ⟨t, ht⟩ := (hvisit _ _ _ _ _ _ hnext).mp hscan
        exact ⟨t, s₂, ht, hrest⟩
      · rintro ⟨t, s₂, ht, hrest⟩
        obtain ⟨tok, s₁, hnext⟩ := ht.next
        exact ⟨(tok, s₁), hnext, s₂, (hvisit _ _ _ _ _ _ hnext).mpr ⟨t, ht⟩, hrest⟩

end Items

/-! ### Objects -/

variable (types fold) in
structure AcceptedMembers (levels : ℕ) (schema : Option (Ty B)) (left : ℕ) (seen : List String)
    (members : List (String × Tree)) (s s' : Scanner) : Prop where
  reads : ReadsMembers Reads s.decoder members s'.decoder
  length : members.length ≤ left
  depth : Tree.depthMembers members ≤ levels
  keys : (members.map Prod.fst).Nodup
  fresh : ∀ m ∈ members, m.1 ∉ seen
  size : ∀ m ∈ members, m.1.utf8ByteSize ≤ maxJSONKeyBytes
  spelled : ∀ m ∈ members, Spelled types fold schema m.1
  conforms : ∀ m ∈ members, Conforms types fold (childSchema types schema m.1) m.2
  tokens : s'.tokens = s.tokens + Tree.tokensMembers members + 1
  limit : s'.tokens ≤ maxJSONDocumentTokens

section Members
variable {levels left : ℕ} {schema : Option (Ty B)} {seen : List String}

theorem acceptedMembers_member (hmore : s.decoder.more = true) :
    (∃ members, AcceptedMembers types fold levels schema (left + 1) seen members s s') ↔
      ∃ key s₁ t s₂, s.next = .ok (.string key, s₁) ∧ key.utf8ByteSize ≤ maxJSONKeyBytes ∧
        key ∉ seen ∧ Spelled types fold schema key ∧
        Accepted types fold levels (childSchema types schema key) t s₁ s₂ ∧
        ∃ members, AcceptedMembers types fold levels schema left (key :: seen) members s₂ s' := by
  constructor
  · rintro ⟨members, h⟩
    have htokens := h.tokens
    have hlimit := h.limit
    have hdepth := h.depth
    have hlength := h.length
    have hkeys := h.keys
    have hfresh := h.fresh
    have hsize := h.size
    have hspelled := h.spelled
    have hconforms := h.conforms
    cases h.reads with
    | close hmore' htoken => rw [hmore] at hmore'; cases hmore'
    | @member _ d₁ d₂ _ key t ms hmore' hkey hvalue hrest =>
      rw [Tree.depthMembers, Nat.max_le] at hdepth
      rw [Tree.tokensMembers] at htokens
      rw [List.map_cons, List.nodup_cons] at hkeys
      rw [List.forall_mem_cons] at hfresh hsize hspelled hconforms
      have hnext : s.next = .ok (.string key, ⟨d₁, s.tokens + 1⟩) :=
        next_ok_iff.mpr ⟨by omega, hkey, rfl⟩
      refine ⟨key, ⟨d₁, s.tokens + 1⟩, t, ⟨d₂, s.tokens + 1 + t.tokens⟩, hnext, hsize.1,
        hfresh.1, hspelled.1, ?_, ms, ?_⟩
      · exact ⟨hvalue, hdepth.1, hconforms.1, rfl, by simp only; omega⟩
      · have hapart : ∀ m ∈ ms, m.1 ∉ key :: seen := by
          intro m hm hmem
          rcases List.mem_cons.mp hmem with heq | hseen
          · exact hkeys.1 (List.mem_map.mpr ⟨m, hm, heq⟩)
          · exact hfresh.2 m hm hseen
        exact ⟨hrest, by simpa using hlength, hdepth.2, hkeys.2, hapart, hsize.2, hspelled.2,
          hconforms.2, by simp only; omega, hlimit⟩
  · rintro ⟨key, s₁, t, s₂, hnext, hsize, hfresh, hspelled, ht, members, h⟩
    obtain ⟨-, hkey, hone⟩ := next_ok_iff.mp hnext
    refine ⟨(key, t) :: members, .member hmore hkey ht.reads h.reads, by simpa using h.length, ?_,
      ?_, ?_, ?_, ?_, ?_, ?_, h.limit⟩
    · rw [Tree.depthMembers, Nat.max_le]
      exact ⟨ht.depth, h.depth⟩
    · rw [List.map_cons, List.nodup_cons]
      refine ⟨?_, h.keys⟩
      intro hmem
      obtain ⟨m, hm, heq⟩ := List.mem_map.mp hmem
      exact h.fresh m hm (heq ▸ List.mem_cons_self)
    · exact List.forall_mem_cons.mpr ⟨hfresh, fun m hm hseen =>
        h.fresh m hm (List.mem_cons_of_mem _ hseen)⟩
    · exact List.forall_mem_cons.mpr ⟨hsize, h.size⟩
    · exact List.forall_mem_cons.mpr ⟨hspelled, h.spelled⟩
    · exact List.forall_mem_cons.mpr ⟨ht.conforms, h.conforms⟩
    · have hfirst := ht.tokens
      have hrest := h.tokens
      rw [Tree.tokensMembers]
      omega

theorem scanMembers_eq (visit : Visit B) (schema : Option (Ty B)) (path : List PathElement)
    (left : ℕ) (seen : List String) (s : Scanner) :
    scanMembers types fold quote visit schema path left seen s =
      if s.decoder.more then
        match left with
        | 0 => .error (invalidJSONAt path ("JSON object must contain at most " ++
            toString (memberLimit types schema) ++ " members"))
        | left + 1 => s.nextOrIssue >>= fun r => checkKey seen path r.1 >>= fun key =>
          memberSchema types fold quote schema path key >>= fun child =>
          r.2.nextOrIssue >>= fun r => visit child (path ++ [.key key]) r.1 r.2 >>=
            scanMembers types fold quote visit schema path left (key :: seen)
      else s.nextOrIssue >>= fun r => pure r.2 := by
  cases left <;> rfl

theorem scanMembers_closed {visit : Visit B} {path : List PathElement}
    (hmore : s.decoder.more = false) :
    scanMembers types fold quote visit schema path left seen s = .ok s' ↔
      ∃ members, AcceptedMembers types fold levels schema left seen members s s' := by
  rw [scanMembers_eq, hmore, if_neg (by decide), closes_ok_iff]
  constructor
  · rintro ⟨tok, hnext⟩
    obtain ⟨hlimit, htoken, htokens⟩ := next_ok_iff.mp hnext
    refine ⟨[], .close hmore htoken, by simp, by simp [Tree.depthMembers], by simp, by simp,
      by simp, by simp, by simp, ?_, by omega⟩
    rw [Tree.tokensMembers]
    omega
  · rintro ⟨members, h⟩
    have htokens := h.tokens
    have hlimit := h.limit
    cases h.reads with
    | close hmore' htoken =>
      rw [Tree.tokensMembers] at htokens
      exact ⟨_, next_ok_iff.mpr ⟨by omega, htoken, by omega⟩⟩
    | member hmore' hkey hvalue hrest => rw [hmore] at hmore'; cases hmore'

theorem scanMembers_ok_iff {visit : Visit B} (hvisit : Visits types fold levels visit)
    (schema : Option (Ty B)) (path : List PathElement) :
    ∀ (left : ℕ) (seen : List String) (s s' : Scanner),
      scanMembers types fold quote visit schema path left seen s = .ok s' ↔
        ∃ members, AcceptedMembers types fold levels schema left seen members s s' := by
  intro left
  induction left with
  | zero =>
    intro seen s s'
    cases hmore : s.decoder.more with
    | false => exact scanMembers_closed hmore
    | true =>
      rw [scanMembers_eq, hmore, if_pos rfl]
      constructor
      · intro h
        cases h
      · rintro ⟨members, h⟩
        have hlength := h.length
        cases h.reads with
        | close hmore' htoken => rw [hmore] at hmore'; cases hmore'
        | member hmore' hkey hvalue hrest => simp at hlength
  | succ left ih =>
    intro seen s s'
    cases hmore : s.decoder.more with
    | false => exact scanMembers_closed hmore
    | true =>
      rw [scanMembers_eq, hmore, if_pos rfl, acceptedMembers_member hmore]
      simp only [Fallible.bind_ok_iff, nextOrIssue_ok_iff, checkKey_ok_iff, memberSchema_ok_iff, ih]
      constructor
      · rintro ⟨⟨tok, s₁⟩, hnext, key, ⟨rfl, hsize, hfresh⟩, child, ⟨hspelled, rfl⟩, ⟨tok', s₂⟩,
          hnext', s₃, hscan, hrest⟩
        obtain ⟨t, ht⟩ := (hvisit _ _ _ _ _ _ hnext').mp hscan
        exact ⟨key, s₁, t, s₃, hnext, hsize, hfresh, hspelled, ht, hrest⟩
      · rintro ⟨key, s₁, t, s₂, hnext, hsize, hfresh, hspelled, ht, hrest⟩
        obtain ⟨tok', s', hnext'⟩ := ht.next
        exact ⟨(.string key, s₁), hnext, key, ⟨rfl, hsize, hfresh⟩, _, ⟨hspelled, rfl⟩, (tok', s'),
          hnext', s₂, (hvisit _ _ _ _ _ _ hnext').mpr ⟨t, ht⟩, hrest⟩

end Members

/-! ### The whole scan -/

section Whole
variable {levels : ℕ} {schema : Option (Ty B)} {s₁ s₂ : Scanner}

theorem Accepted.continues {t : Tree} (h : Accepted types fold levels schema t s s₂)
    (hnext : s.next = .ok (tok, s₁)) : Continues s₁.decoder s₂.decoder t tok :=
  h.reads.continues (next_ok_iff.mp hnext).2.1

theorem accepted_scalar (hnext : s.next = .ok (tok, s₁)) (htok : ∀ d, tok ≠ .delim d) :
    s₁ = s₂ ↔ ∃ t, Accepted types fold levels schema t s s₂ := by
  obtain ⟨hlimit, htoken, hone⟩ := next_ok_iff.mp hnext
  constructor
  · rintro rfl
    exact ⟨.scalar, .scalar htoken htok, by simp [Tree.depth], .scalar, by rw [hone, Tree.tokens],
      by omega⟩
  · rintro ⟨t, h⟩
    obtain ⟨rfl, hsame⟩ : t = .scalar ∧ s₁.decoder = s₂.decoder := by
      cases tok with
      | delim delim => exact absurd rfl (htok delim)
      | string key => exact h.continues hnext
      | other => exact h.continues hnext
    have htokens := h.tokens
    rw [Tree.tokens] at htokens
    obtain ⟨d₁, n₁⟩ := s₁
    obtain ⟨d₂, n₂⟩ := s₂
    simp only [Scanner.mk.injEq] at hsame htokens hone ⊢
    exact ⟨hsame, by omega⟩

theorem accepted_array (hnext : s.next = .ok (.delim .openArray, s₁)) :
    (∃ items, AcceptedItems types fold levels (controlArraySchema types schema).1
      (controlArraySchema types schema).2 items s₁ s₂) ↔
      ∃ t, Accepted types fold (levels + 1) schema t s s₂ := by
  obtain ⟨-, htoken, hone⟩ := next_ok_iff.mp hnext
  constructor
  · rintro ⟨items, h⟩
    refine ⟨.arr items, .arr htoken h.reads, ?_, .arr h.length h.conforms, ?_, h.limit⟩
    · rw [Tree.depth]
      exact Nat.succ_le_succ h.depth
    · have htokens := h.tokens
      rw [Tree.tokens]
      omega
  · rintro ⟨t, h⟩
    obtain ⟨items, rfl, hitems⟩ := h.continues hnext
    have htokens := h.tokens
    have hdepth := h.depth
    rw [Tree.tokens] at htokens
    rw [Tree.depth] at hdepth
    cases h.conforms with
    | arr hlength hitems' =>
      exact ⟨items, hitems, hlength, by omega, hitems', by omega, h.limit⟩

theorem accepted_object (hnext : s.next = .ok (.delim .openObject, s₁)) :
    (∃ members, AcceptedMembers types fold levels schema (memberLimit types schema) [] members
      s₁ s₂) ↔ ∃ t, Accepted types fold (levels + 1) schema t s s₂ := by
  obtain ⟨-, htoken, hone⟩ := next_ok_iff.mp hnext
  constructor
  · rintro ⟨members, h⟩
    refine ⟨.obj members, .obj htoken h.reads, ?_, .obj h.length h.keys h.size h.spelled h.conforms,
      ?_, h.limit⟩
    · rw [Tree.depth]
      exact Nat.succ_le_succ h.depth
    · have htokens := h.tokens
      rw [Tree.tokens]
      omega
  · rintro ⟨t, h⟩
    obtain ⟨members, rfl, hmembers⟩ := h.continues hnext
    have htokens := h.tokens
    have hdepth := h.depth
    rw [Tree.tokens] at htokens
    rw [Tree.depth] at hdepth
    cases h.conforms with
    | obj hlength hkeys hsize hspelled hmembers' =>
      exact ⟨members, hmembers, hlength, by omega, hkeys, by simp, hsize, hspelled, hmembers',
        by omega, h.limit⟩

theorem not_accepted_close {delim : Delim} (hnext : s.next = .ok (.delim delim, s₁))
    (hdelim : levels = 0 ∨ delim = .closeArray ∨ delim = .closeObject) (t : Tree) :
    ¬ Accepted types fold levels schema t s s₂ := by
  intro h
  have hcontinues := h.continues hnext
  have hdepth := h.depth
  rcases hdelim with rfl | rfl | rfl
  · cases delim with
    | openArray =>
      obtain ⟨items, rfl, -⟩ := hcontinues
      simp [Tree.depth] at hdepth
    | openObject =>
      obtain ⟨members, rfl, -⟩ := hcontinues
      simp [Tree.depth] at hdepth
    | closeArray => exact hcontinues
    | closeObject => exact hcontinues
  · exact hcontinues
  · exact hcontinues

end Whole

/- The induction is on the levels that may still be entered. -/
theorem scanJSONToken_visits (levels : ℕ) :
    Visits types fold levels (scanJSONToken types fold quote levels) := by
  have hok : ∀ {s₁ s₂ : Scanner}, (.ok s₁ : Except Issue Scanner) = .ok s₂ ↔ s₁ = s₂ := by
    intro s₁ s₂
    rw [Except.ok.injEq]
  have herror : ∀ {issue : Issue} {s₂ : Scanner},
      ¬ (.error issue : Except Issue Scanner) = .ok s₂ := by
    intro issue s₂ h
    cases h
  induction levels with
  | zero =>
    intro schema path tok s s₁ s₂ hnext
    cases tok with
    | string key | other => exact hok.trans (accepted_scalar hnext fun d => Token.noConfusion)
    | delim delim =>
      exact ⟨fun h => absurd h herror, fun ⟨t, ht⟩ =>
        absurd ht (not_accepted_close hnext (Or.inl rfl) t)⟩
  | succ levels ih =>
    intro schema path tok s s₁ s₂ hnext
    cases tok with
    | string key | other => exact hok.trans (accepted_scalar hnext fun d => Token.noConfusion)
    | delim delim =>
      cases delim with
      | openArray => exact (scanItems_ok_iff ih _ path _ _ 0 s₁ s₂).trans (accepted_array hnext)
      | openObject => exact (scanMembers_ok_iff ih schema path _ [] s₁ s₂).trans (accepted_object hnext)
      | closeArray =>
        exact ⟨fun h => absurd h herror, fun ⟨t, ht⟩ =>
          absurd ht (not_accepted_close hnext (Or.inr (Or.inl rfl)) t)⟩
      | closeObject =>
        exact ⟨fun h => absurd h herror, fun ⟨t, ht⟩ =>
          absurd ht (not_accepted_close hnext (Or.inr (Or.inr rfl)) t)⟩

end RemnanodeLite.Nodeapi
