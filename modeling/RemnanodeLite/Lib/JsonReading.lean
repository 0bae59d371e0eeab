import RemnanodeLite.Lib.JsonDecoder

/-! # The decoder reads the grammar

A value is read by the calls of the decoder exactly where the grammar derives
it; as the calls are functions, a text has one tree. -/

namespace JsonText
open TokenState

/-! ### What the grammar derives is read -/

section Complete
variable {text rest lead : List UInt8} {s s' : TokenState} {stack : List TokenState} {c : UInt8}

theorem startsToken_of_startsValue (h : startsValue c = true) : StartsToken c := by
  refine ⟨?_, ?_, ?_⟩
  · cases hspace : isSpace c with
    | false => rfl
    | true =>
      simp only [isSpace, Bool.or_eq_true, decide_eq_true_eq] at hspace
      rcases hspace with ((rfl | rfl) | rfl) | rfl
      · cases h
      · cases h
      · cases h
      · cases h
  · rintro rfl
    cases h
  · rintro rfl
    cases h

theorem closes_of_startsValue (h : startsValue c = true) : (c ≠ 0x5d && c ≠ 0x7d) = true := by
  rw [Bool.and_eq_true, decide_eq_true_eq, decide_eq_true_eq]
  constructor
  · rintro rfl
    cases h
  · rintro rfl
    cases h

theorem tokenAt_scalar (hc : startsScalar c = true) (cs : List UInt8) (hs : s.valueAllowed = true) :
    tokenAt c cs s stack = decodeScalar (c :: cs) s.valueEnd stack := by
  have hne : ∀ x : UInt8, startsScalar x = false → c ≠ x := by
    intro x hx heq
    rw [heq, hx] at hc
    cases hc
  have hkey : ¬ (c = 0x22 ∧ (s = .objectStart ∨ s = .objectKey)) := by
    rintro ⟨-, rfl | rfl⟩
    · cases hs
    · cases hs
  rw [tokenAt, if_neg (hne 0x5b rfl), if_neg (hne 0x5d rfl), if_neg (hne 0x7b rfl),
    if_neg (hne 0x7d rfl), if_neg hkey, if_pos hs]

theorem reads_scalar (h : IsScalar text) (hlead : Leads s lead s') (hs : s'.valueAllowed = true)
    (hrest : Stops rest) :
    Reads ⟨lead ++ (text ++ rest), s, stack⟩ .scalar ⟨rest, s'.valueEnd, stack⟩ := by
  obtain ⟨word, hscan⟩ := scanScalar_complete h hrest
  obtain ⟨c, cs, rfl, hc⟩ := head_scalar h
  have hstarts : StartsToken c := startsToken_of_startsValue (by simp [startsValue, hc])
  have htoken : Decoder.token ⟨lead ++ (c :: cs ++ rest), s, stack⟩ =
      .ok (word.token, ⟨rest, s'.valueEnd, stack⟩) := by
    rw [List.cons_append, token_leads hlead hstarts, tokenAt_scalar hc _ hs, decodeScalar,
      ← List.cons_append, hscan]
  refine .scalar htoken ?_
  intro delim
  cases word with
  | string raw => exact Token.noConfusion
  | other => exact Token.noConfusion

theorem more_leads (hlead : Leads s lead s')
    (hc : startsValue c = true) (cs : List UInt8) :
    Decoder.more ⟨lead ++ c :: cs, s, stack⟩ = true := by
  have hspace : isSpace c = false := (startsToken_of_startsValue hc).1
  cases hlead with
  | spaces hw =>
    rw [more_spaces hw hspace]
    exact closes_of_startsValue hc
  | item hw hw' | member hw hw' | value hw hw' =>
    rw [List.append_assoc, List.cons_append, more_spaces hw rfl]
    rfl

/- Where an array is between two of its items, and an object between two members. -/
def arrayState (started : Bool) : TokenState := if started then .arrayComma else .arrayStart
def objectState (started : Bool) : TokenState := if started then .objectComma else .objectStart

variable {started : Bool}

theorem leads_item (h : Lead started lead) :
    ∃ s', Leads (arrayState started) lead s' ∧ s'.valueAllowed = true ∧ s'.valueEnd = .arrayComma := by
  cases started with
  | false => exact ⟨.arrayStart, .spaces h, rfl, rfl⟩
  | true =>
    obtain ⟨w, w', rfl, hw, hw'⟩ := h
    exact ⟨.arrayValue, .item hw hw', rfl, rfl⟩

theorem leads_member (h : Lead started lead) :
    ∃ s', Leads (objectState started) lead s' ∧ (s' = .objectStart ∨ s' = .objectKey) := by
  cases started with
  | false => exact ⟨.objectStart, .spaces h, Or.inl rfl⟩
  | true =>
    obtain ⟨w, w', rfl, hw, hw'⟩ := h
    exact ⟨.objectKey, .member hw hw', Or.inr rfl⟩

theorem closes_array {w : List UInt8} (hw : Spaces w) (started : Bool) (p : TokenState) :
    Decoder.token ⟨w ++ 0x5d :: rest, arrayState started, p :: stack⟩ =
      .ok (.delim .closeArray, ⟨rest, p.valueEnd, stack⟩) := by
  rw [token_spaces hw ⟨rfl, by decide, by decide⟩, tokenAt, if_neg (by decide), if_pos rfl]
  cases started with
  | false => exact if_pos (Or.inl rfl)
  | true => exact if_pos (Or.inr rfl)

theorem closes_object {w : List UInt8} (hw : Spaces w) (started : Bool) (p : TokenState) :
    Decoder.token ⟨w ++ 0x7d :: rest, objectState started, p :: stack⟩ =
      .ok (.delim .closeObject, ⟨rest, p.valueEnd, stack⟩) := by
  rw [token_spaces hw ⟨rfl, by decide, by decide⟩, tokenAt, if_neg (by decide), if_neg (by decide),
    if_neg (by decide), if_pos rfl]
  cases started with
  | false => exact if_pos (Or.inl rfl)
  | true => exact if_pos (Or.inr rfl)

theorem token_key {raw : List UInt8} (hraw : StringBody raw) (hlead : Leads s lead s')
    (hs : s' = .objectStart ∨ s' = .objectKey) :
    Decoder.token ⟨lead ++ (quoted raw ++ rest), s, stack⟩ =
      .ok (.string (unquote raw), ⟨rest, .objectColon, stack⟩) := by
  have hscan := scanScalar_string hraw rest
  have hquoted : quoted raw ++ rest = 0x22 :: (raw ++ [0x22] ++ rest) := rfl
  rw [hquoted] at hscan ⊢
  rw [token_leads hlead ⟨rfl, by decide, by decide⟩, tokenAt, if_neg (by decide),
    if_neg (by decide), if_neg (by decide), if_neg (by decide), if_pos ⟨rfl, hs⟩, decodeScalar, hscan]
  rfl

/- The decoder reads `t` wherever a value may stand. -/
def Readable (t : Tree) : Prop :=
  ∀ text lead rest s s' stack, IsValue text t → Leads s lead s' → s'.valueAllowed = true →
    Stops rest → Reads ⟨lead ++ (text ++ rest), s, stack⟩ t ⟨rest, s'.valueEnd, stack⟩

theorem readsItems_complete {items : List Tree} (h : Entries IsValue 0x5d started text items)
    (hread : ∀ t ∈ items, Readable t) (p : TokenState) (stack : List TokenState)
    (rest : List UInt8) :
    ReadsItems Reads ⟨text ++ rest, arrayState started, p :: stack⟩ items
      ⟨rest, p.valueEnd, stack⟩ := by
  induction h with
  | @close started w hw =>
    rw [List.append_assoc, List.singleton_append]
    exact .close (more_spaces hw rfl) (closes_array hw started p)
  | @entry started lead text tail t ts hlead htext hrest ih =>
    obtain ⟨s', hleads, hallowed, hend⟩ := leads_item hlead
    have hitem := hread t List.mem_cons_self text lead (tail ++ rest) _ s' (p :: stack) htext hleads
      hallowed (hrest.stops rfl)
    rw [hend] at hitem
    simp only [List.append_assoc]
    refine .item ?_ hitem (ih fun t ht => hread t (List.mem_cons_of_mem _ ht))
    obtain ⟨c, cs, rfl, hc⟩ := head_value htext
    exact more_leads hleads hc _

theorem readsMembers_complete {members : List (String × Tree)}
    (h : Entries (IsMember IsValue) 0x7d started text members) (hread : ∀ m ∈ members, Readable m.2)
    (p : TokenState) (stack : List TokenState) (rest : List UInt8) :
    ReadsMembers Reads ⟨text ++ rest, objectState started, p :: stack⟩ members
      ⟨rest, p.valueEnd, stack⟩ := by
  induction h with
  | @close started w hw =>
    rw [List.append_assoc, List.singleton_append]
    exact .close (more_spaces hw rfl) (closes_object hw started p)
  | @entry started lead text tail m ms hlead htext hrest ih =>
    obtain ⟨s', hleads, hstate⟩ := leads_member hlead
    obtain ⟨hraw, hw, hw', hvalue⟩ := htext
    rename_i raw w w' valueText t
    have hkey : Decoder.token ⟨lead ++ (quoted raw ++ (w ++ 0x3a :: (w' ++ valueText) ++
        (tail ++ rest))), objectState started, p :: stack⟩ = .ok (.string (unquote raw),
          ⟨w ++ 0x3a :: (w' ++ valueText) ++ (tail ++ rest), .objectColon, p :: stack⟩) :=
      token_key hraw hleads hstate
    have hmember := hread (unquote raw, t) List.mem_cons_self valueText (w ++ 0x3a :: w')
      (tail ++ rest) .objectColon .objectValue (p :: stack) hvalue (.value hw hw') rfl
      (hrest.stops rfl)
    simp only [List.append_assoc, List.cons_append] at hkey hmember ⊢
    refine .member ?_ hkey hmember (ih fun m hm => hread m (List.mem_cons_of_mem _ hm))
    have hquoted : quoted raw = 0x22 :: (raw ++ [0x22]) := rfl
    rw [hquoted]
    exact more_leads hleads rfl _

theorem readable (t : Tree) : Readable t := by
  refine Tree.parts_induction (fun t ih => ?_) t
  intro text lead rest s s' stack htext hleads hs hrest
  cases htext with
  | scalar h => exact reads_scalar h hleads hs hrest
  | arr h =>
    refine .arr ?_ (readsItems_complete h ih s' stack rest)
    rw [List.cons_append, token_leads hleads ⟨rfl, by decide, by decide⟩, tokenAt, if_pos rfl,
      if_pos hs]
    rfl
  | obj h =>
    refine .obj ?_ (readsMembers_complete h (fun m hm => ih m.2 (List.mem_map_of_mem hm)) s' stack
      rest)
    rw [List.cons_append, token_leads hleads ⟨rfl, by decide, by decide⟩, tokenAt,
      if_neg (by decide), if_neg (by decide), if_pos rfl, if_pos hs]
    rfl

end Complete

/-! ### What is read is derived by the grammar -/

section Sound
variable {cs rest lead : List UInt8} {s s' : TokenState} {stack : List TokenState} {c : UInt8}
  {d d' : Decoder} {tok : Token}

/- The tokens that can begin with `c` in a state. -/
inductive TokenStep (c : UInt8) (cs : List UInt8) (s : TokenState) (stack : List TokenState) :
    Token → Decoder → Prop
  | openArray (hc : c = 0x5b) (hs : s.valueAllowed = true) :
      TokenStep c cs s stack (.delim .openArray) ⟨cs, .arrayStart, s :: stack⟩
  | closeArray {p : TokenState} {below : List TokenState} (hc : c = 0x5d)
      (hs : s = .arrayStart ∨ s = .arrayComma) (hstack : stack = p :: below) :
      TokenStep c cs s stack (.delim .closeArray) ⟨cs, p.valueEnd, below⟩
  | openObject (hc : c = 0x7b) (hs : s.valueAllowed = true) :
      TokenStep c cs s stack (.delim .openObject) ⟨cs, .objectStart, s :: stack⟩
  | closeObject {p : TokenState} {below : List TokenState} (hc : c = 0x7d)
      (hs : s = .objectStart ∨ s = .objectComma) (hstack : stack = p :: below) :
      TokenStep c cs s stack (.delim .closeObject) ⟨cs, p.valueEnd, below⟩
  | key {raw rest : List UInt8} (hs : s = .objectStart ∨ s = .objectKey)
      (hraw : StringBody raw) (hcs : c :: cs = quoted raw ++ rest) :
      TokenStep c cs s stack (.string (unquote raw)) ⟨rest, .objectColon, stack⟩
  | scalar {word : Word} {text rest : List UInt8} (hs : s.valueAllowed = true)
      (htext : IsScalar text) (hcs : c :: cs = text ++ rest) :
      TokenStep c cs s stack word.token ⟨rest, s.valueEnd, stack⟩

theorem popContainer_ok {delim : Delim} (h : popContainer delim cs stack = .ok (tok, d')) :
    ∃ p below, stack = p :: below ∧ tok = .delim delim ∧ d' = ⟨cs, p.valueEnd, below⟩ := by
  cases stack with
  | nil => cases h
  | cons p below =>
    cases h
    exact ⟨p, below, rfl, rfl, rfl⟩

theorem decodeScalar_ok {bs : List UInt8} (h : decodeScalar bs s stack = .ok (tok, d')) :
    ∃ word rest, scanScalar bs = some (word, rest) ∧ tok = word.token ∧ d' = ⟨rest, s, stack⟩ := by
  unfold decodeScalar at h
  split at h
  case h_1 word rest hscan =>
    cases h
    exact ⟨word, rest, hscan, rfl, rfl⟩
  case h_2 => cases h

theorem tokenAt_ok (h : tokenAt c cs s stack = .ok (tok, d')) : TokenStep c cs s stack tok d' := by
  unfold tokenAt at h
  split_ifs at h with h1 hs h2 hs h3 hs h4 hs hkey hs
  · cases h
    exact .openArray h1 hs
  · obtain ⟨p, below, hstack, rfl, rfl⟩ := popContainer_ok h
    exact .closeArray h2 hs hstack
  · cases h
    exact .openObject h3 hs
  · obtain ⟨p, below, hstack, rfl, rfl⟩ := popContainer_ok h
    exact .closeObject h4 hs hstack
  · obtain ⟨word, rest, hscan, rfl, rfl⟩ := decodeScalar_ok h
    rw [hkey.1] at hscan
    rw [scanScalar, if_pos rfl] at hscan
    obtain ⟨⟨raw, rest'⟩, hstring, heq⟩ := Option.map_eq_some_iff.mp hscan
    cases heq
    obtain ⟨hraw, hcs⟩ := scanString_sound hstring
    refine .key hkey.2 hraw ?_
    rw [hkey.1, hcs]
    simp [quoted]
  · obtain ⟨word, rest, hscan, rfl, rfl⟩ := decodeScalar_ok h
    obtain ⟨text, hcs, htext, -⟩ := scanScalar_sound hscan
    exact .scalar hs htext hcs

theorem token_step (h : d.token = .ok (tok, d')) :
    ∃ lead s' c cs, Leads d.state lead s' ∧ d.rest = lead ++ c :: cs ∧ isSpace c = false ∧
      TokenStep c cs s' d.stack tok d' := by
  obtain ⟨lead, s', c, cs, hleads, hrest, hstarts, hat⟩ := token_ok h
  exact ⟨lead, s', c, cs, hleads, hrest, hstarts.1, tokenAt_ok hat⟩

/- What is left to read of a value behind its first token. -/
def Continues (d d' : Decoder) (t : Tree) : Token → Prop
  | .delim .openArray => ∃ items, t = .arr items ∧ ReadsItems Reads d items d'
  | .delim .openObject => ∃ members, t = .obj members ∧ ReadsMembers Reads d members d'
  | .delim _ => False
  | _ => t = .scalar ∧ d = d'

theorem reads_token {t : Tree} (h : Reads d t d') :
    ∃ tok d₁, d.token = .ok (tok, d₁) ∧ Continues d₁ d' t tok := by
  cases h with
  | @scalar _ _ tok htoken hscalar =>
    refine ⟨tok, d', htoken, ?_⟩
    cases tok with
    | delim delim => exact absurd rfl (hscalar delim)
    | string key => exact ⟨rfl, rfl⟩
    | other => exact ⟨rfl, rfl⟩
  | arr htoken hitems => exact ⟨_, _, htoken, _, rfl, hitems⟩
  | obj htoken hmembers => exact ⟨_, _, htoken, _, rfl, hmembers⟩

theorem Reads.continues {t : Tree} {d₁ : Decoder} (h : Reads d t d') (htoken : d.token = .ok (tok, d₁)) :
    Continues d₁ d' t tok := by
  obtain ⟨tok', d₂, htoken', hrest⟩ := reads_token h
  rw [htoken] at htoken'
  cases htoken'
  exact hrest

theorem leads_of_not_more (hleads : Leads s lead s') (hc : isSpace c = false)
    (h : Decoder.more ⟨lead ++ c :: cs, s, stack⟩ = false) :
    Spaces lead ∧ s' = s ∧ (c = 0x5d ∨ c = 0x7d) := by
  cases hleads with
  | spaces hw =>
    rw [more_spaces hw hc, Bool.and_eq_false_iff, decide_eq_false_iff_not,
      decide_eq_false_iff_not, not_not, not_not] at h
    exact ⟨hw, rfl, h⟩
  | item hw hw' | member hw hw' | value hw hw' =>
    rw [List.append_assoc, List.cons_append, more_spaces hw rfl] at h
    cases h

variable {started : Bool}

theorem lead_item (h : Leads (arrayState started) lead s') (hs : s'.valueAllowed = true) :
    Lead started lead ∧ s'.valueEnd = .arrayComma := by
  cases started with
  | false =>
    cases h with
    | spaces hw => exact ⟨hw, rfl⟩
  | true =>
    cases h with
    | spaces hw => cases hs
    | item hw hw' => exact ⟨⟨_, _, rfl, hw, hw'⟩, rfl⟩

theorem lead_member (h : Leads (objectState started) lead s')
    (hs : s' = .objectStart ∨ s' = .objectKey) : Lead started lead := by
  cases started with
  | false =>
    cases h with
    | spaces hw => exact hw
  | true =>
    cases h with
    | spaces hw =>
      rcases hs with hs | hs
      · cases hs
      · cases hs
    | member hw hw' => exact ⟨_, _, rfl, hw, hw'⟩

theorem not_allowed_member (h : Leads (objectState started) lead s') :
    s'.valueAllowed = false := by
  cases started with
  | false =>
    cases h with
    | spaces hw => rfl
  | true =>
    cases h with
    | spaces hw => rfl
    | member hw hw' => rfl

/- No key can stand here. -/
def ExpectsValue (s : TokenState) : Prop := s ≠ .objectStart ∧ s ≠ .objectKey ∧ s ≠ .objectComma

theorem expectsValue_leads (hs : ExpectsValue s) (h : Leads s lead s') :
    ¬ (s' = .objectStart ∨ s' = .objectKey) := by
  cases h with
  | spaces hw => exact fun hkey => hkey.elim hs.1 hs.2.1
  | item hw hw' => simp
  | member hw hw' => exact absurd rfl hs.2.2
  | value hw hw' => simp

def Derived (d : Decoder) (t : Tree) (d' : Decoder) : Prop :=
  ∃ lead s' text, Leads d.state lead s' ∧ s'.valueAllowed = true ∧ IsValue text t ∧
    d.rest = lead ++ (text ++ d'.rest) ∧ d'.state = s'.valueEnd ∧ d'.stack = d.stack

def Derivable (t : Tree) : Prop := ∀ d d', Reads d t d' → ExpectsValue d.state → Derived d t d'

theorem token_of_not_more (hmore : d.more = false) (htoken : d.token = .ok (tok, d')) :
    ∃ w c p, Spaces w ∧ d.rest = w ++ c :: d'.rest ∧ d.stack = p :: d'.stack ∧
      d'.state = p.valueEnd ∧ (c = 0x5d ∧ (d.state = .arrayStart ∨ d.state = .arrayComma) ∨
        c = 0x7d ∧ (d.state = .objectStart ∨ d.state = .objectComma)) := by
  obtain ⟨lead, s', c, cs, hleads, hrest, hspace, hstep⟩ := token_step htoken
  have hmore' : Decoder.more ⟨lead ++ c :: cs, d.state, d.stack⟩ = false := by
    rw [← hrest]
    exact hmore
  obtain ⟨hw, rfl, hc⟩ := leads_of_not_more hleads hspace hmore'
  cases hstep with
  | openArray hc' => subst hc'; simp at hc
  | closeArray hc' hs hstack => exact ⟨lead, c, _, hw, hrest, hstack, rfl, .inl ⟨hc', hs⟩⟩
  | openObject hc' => subst hc'; simp at hc
  | closeObject hc' hs hstack => exact ⟨lead, c, _, hw, hrest, hstack, rfl, .inr ⟨hc', hs⟩⟩
  | key hs hraw hcs =>
    have hquote : c = 0x22 := (List.cons.inj hcs).1
    subst hquote
    simp at hc
  | scalar hs htext hcs =>
    obtain ⟨x, xs, rfl, hx⟩ := head_scalar htext
    have hcx : c = x := (List.cons.inj hcs).1
    subst hcx
    rcases hc with rfl | rfl
    · cases hx
    · cases hx

theorem readsItems_sound {items : List Tree} (h : ReadsItems Reads d items d')
    (hsound : ∀ t ∈ items, Derivable t) : ∀ (started : Bool) (p : TokenState)
      (below : List TokenState), d.state = arrayState started → d.stack = p :: below →
      ∃ text, Entries IsValue 0x5d started text items ∧ d.rest = text ++ d'.rest ∧
        d'.state = p.valueEnd ∧ d'.stack = below := by
  induction h with
  | @close d d' tok hmore htoken =>
    intro started p below hstate hstack
    obtain ⟨w, c, q, hw, hrest, hstack', hend, ⟨rfl, -⟩ | ⟨-, hs⟩⟩ := token_of_not_more hmore htoken
    · rw [hstack] at hstack'
      cases hstack'
      exact ⟨w ++ [0x5d], .close hw, by simp [hrest], hend, rfl⟩
    · rw [hstate] at hs
      cases started <;> simp [arrayState] at hs
  | @item d d₁ d₂ t ts hmore hitem hrest ih =>
    intro started p below hstate hstack
    have hexpects : ExpectsValue d.state := by
      rw [hstate]
      cases started <;> simp [arrayState, ExpectsValue]
    obtain ⟨lead, s', text, hleads, hallowed, htext, hinput, hend, hsame⟩ :=
      hsound t List.mem_cons_self d d₁ hitem hexpects
    rw [hstate] at hleads
    obtain ⟨hlead, hcomma⟩ := lead_item hleads hallowed
    obtain ⟨tail, hentries, htail, hend', hbelow⟩ := ih
      (fun t ht => hsound t (List.mem_cons_of_mem _ ht)) true p below (hend.trans hcomma)
      (hsame.trans hstack)
    refine ⟨lead ++ (text ++ tail), .entry hlead htext hentries, ?_, hend', hbelow⟩
    rw [hinput, htail]
    simp only [List.append_assoc]

theorem readsMembers_sound {members : List (String × Tree)} (h : ReadsMembers Reads d members d')
    (hsound : ∀ m ∈ members, Derivable m.2) : ∀ (started : Bool) (p : TokenState)
      (below : List TokenState), d.state = objectState started → d.stack = p :: below →
      ∃ text, Entries (IsMember IsValue) 0x7d started text members ∧ d.rest = text ++ d'.rest ∧
        d'.state = p.valueEnd ∧ d'.stack = below := by
  induction h with
  | @close d d' tok hmore htoken =>
    intro started p below hstate hstack
    obtain ⟨w, c, q, hw, hrest, hstack', hend, ⟨-, hs⟩ | ⟨rfl, -⟩⟩ := token_of_not_more hmore htoken
    · rw [hstate] at hs
      cases started <;> simp [objectState] at hs
    · rw [hstack] at hstack'
      cases hstack'
      exact ⟨w ++ [0x7d], .close hw, by simp [hrest], hend, rfl⟩
  | @member d d₁ d₂ d₃ name t ms hmore hname hvalue hrest ih =>
    intro started p below hstate hstack
    obtain ⟨lead, s', c, cs, hleads, hinput, -, hstep⟩ := token_step hname
    rw [hstate] at hleads
    generalize htok : Token.string name = tok at hstep
    cases hstep with
    | openArray hc hs => cases htok
    | closeArray hc hs hbelow => cases htok
    | openObject hc hs => cases htok
    | closeObject hc hs hbelow => cases htok
    | @key raw rest hs hraw hcs =>
      cases htok
      have hexpects : ExpectsValue TokenState.objectColon := by simp [ExpectsValue]
      obtain ⟨lead', s'', text, hleads', hallowed', htext, hinput', hend, hsame⟩ :=
        hsound _ List.mem_cons_self _ d₂ hvalue hexpects
      simp only at hinput' hsame
      cases hleads' with
      | spaces hw => cases hallowed'
      | @value w w' hw hw' =>
        obtain ⟨tail, hentries, htail, hend', hbelow⟩ := ih
          (fun m hm => hsound m (List.mem_cons_of_mem _ hm)) true p below hend
          (hsame.trans hstack)
        have hmember : IsMember IsValue (quoted raw ++ (w ++ 0x3a :: (w' ++ text)))
            (unquote raw, t) := .mk hraw hw hw' htext
        refine ⟨_, .entry (lead_member hleads hs) hmember hentries, ?_, hend', hbelow⟩
        rw [hinput, hcs, hinput', htail]
        simp only [List.append_assoc, List.cons_append]
    | scalar hs htext hcs =>
      rw [not_allowed_member hleads] at hs
      cases hs

theorem derivable (t : Tree) : Derivable t := by
  refine Tree.parts_induction (fun t ih => ?_) t
  intro d d' hreads hexpects
  obtain ⟨tok, d₁, htoken, hcontinues⟩ := reads_token hreads
  obtain ⟨lead, s', c, cs, hleads, hrest, -, hstep⟩ := token_step htoken
  cases hstep with
  | openArray hc hs =>
    obtain ⟨items, rfl, hitems⟩ := hcontinues
    obtain ⟨text, hentries, hcs, hend, hsame⟩ := readsItems_sound hitems ih false s' d.stack rfl rfl
    simp only at hcs
    exact ⟨lead, s', 0x5b :: text, hleads, hs, .arr hentries, by rw [hrest, hc, hcs]; rfl, hend,
      hsame⟩
  | closeArray hc hs hbelow => exact hcontinues.elim
  | openObject hc hs =>
    obtain ⟨members, rfl, hmembers⟩ := hcontinues
    obtain ⟨text, hentries, hcs, hend, hsame⟩ := readsMembers_sound hmembers
      (fun m hm => ih m.2 (List.mem_map_of_mem hm)) false s' d.stack rfl rfl
    simp only at hcs
    exact ⟨lead, s', 0x7b :: text, hleads, hs, .obj hentries, by rw [hrest, hc, hcs]; rfl, hend,
      hsame⟩
  | closeObject hc hs hbelow => exact hcontinues.elim
  | key hs hraw hcs => exact absurd hs (expectsValue_leads hexpects hleads)
  | @scalar word text rest hs htext hcs =>
    obtain ⟨rfl, rfl⟩ : t = .scalar ∧ ⟨rest, s'.valueEnd, d.stack⟩ = d' := by
      cases word <;> exact hcontinues
    exact ⟨lead, s', text, hleads, hs, .scalar htext, by rw [hrest, hcs], rfl, rfl⟩

end Sound

/-! ### One tree for a text -/

section Unique
variable {d d₁ d₂ : Decoder}

def ReadsOnly (t : Tree) : Prop :=
  ∀ d d₁ t' d₂, Reads d t d₁ → Reads d t' d₂ → t = t' ∧ d₁ = d₂

theorem readsItems_unique {items : List Tree} (h : ReadsItems Reads d items d₁)
    (honly : ∀ t ∈ items, ReadsOnly t) : ∀ items' d₂, ReadsItems Reads d items' d₂ →
      items = items' ∧ d₁ = d₂ := by
  induction h with
  | close hmore htoken =>
    intro items' d₂ h'
    cases h' with
    | close hmore' htoken' =>
      rw [htoken] at htoken'
      cases htoken'
      exact ⟨rfl, rfl⟩
    | item hmore' hitem' hrest' =>
      rw [hmore] at hmore'
      cases hmore'
  | item hmore hitem hrest ih =>
    intro items' d₂ h'
    cases h' with
    | close hmore' htoken' =>
      rw [hmore] at hmore'
      cases hmore'
    | item hmore' hitem' hrest' =>
      obtain ⟨rfl, rfl⟩ := honly _ List.mem_cons_self _ _ _ _ hitem hitem'
      obtain ⟨rfl, rfl⟩ := ih (fun t ht => honly t (List.mem_cons_of_mem _ ht)) _ _ hrest'
      exact ⟨rfl, rfl⟩

theorem readsMembers_unique {members : List (String × Tree)} (h : ReadsMembers Reads d members d₁)
    (honly : ∀ m ∈ members, ReadsOnly m.2) : ∀ members' d₂, ReadsMembers Reads d members' d₂ →
      members = members' ∧ d₁ = d₂ := by
  induction h with
  | close hmore htoken =>
    intro members' d₂ h'
    cases h' with
    | close hmore' htoken' =>
      rw [htoken] at htoken'
      cases htoken'
      exact ⟨rfl, rfl⟩
    | member hmore' hkey' hvalue' hrest' =>
      rw [hmore] at hmore'
      cases hmore'
  | member hmore hkey hvalue hrest ih =>
    intro members' d₂ h'
    cases h' with
    | close hmore' htoken' =>
      rw [hmore] at hmore'
      cases hmore'
    | member hmore' hkey' hvalue' hrest' =>
      rw [hkey] at hkey'
      cases hkey'
      obtain ⟨rfl, rfl⟩ := honly _ List.mem_cons_self _ _ _ _ hvalue hvalue'
      obtain ⟨rfl, rfl⟩ := ih (fun m hm => honly m (List.mem_cons_of_mem _ hm)) _ _ hrest'
      exact ⟨rfl, rfl⟩

theorem readsOnly (t : Tree) : ReadsOnly t := by
  refine Tree.parts_induction (fun t ih => ?_) t
  intro d d₁ t' d₂ h h'
  obtain ⟨tok, e, htoken, hleft⟩ := reads_token h
  have hright := h'.continues htoken
  cases tok with
  | delim delim =>
    cases delim with
    | openArray =>
      obtain ⟨items, rfl, hitems⟩ := hleft
      obtain ⟨items', rfl, hitems'⟩ := hright
      obtain ⟨rfl, rfl⟩ := readsItems_unique hitems ih _ _ hitems'
      exact ⟨rfl, rfl⟩
    | openObject =>
      obtain ⟨members, rfl, hmembers⟩ := hleft
      obtain ⟨members', rfl, hmembers'⟩ := hright
      obtain ⟨rfl, rfl⟩ := readsMembers_unique hmembers
        (fun m hm => ih m.2 (List.mem_map_of_mem hm)) _ _ hmembers'
      exact ⟨rfl, rfl⟩
    | closeArray => exact hleft.elim
    | closeObject => exact hleft.elim
  | string key | other => exact ⟨hleft.1.trans hright.1.symm, hleft.2.symm.trans hright.2⟩

end Unique

/-! ### Documents -/

section Documents
variable {body : List UInt8} {t t' : Tree} {d : Decoder}

theorem tokenAt_ne_eof (c : UInt8) (cs : List UInt8) (s : TokenState) (stack : List TokenState) :
    tokenAt c cs s stack ≠ .error .eof := by
  have hpop : ∀ delim, popContainer delim cs stack ≠ .error .eof := by
    intro delim
    cases stack with
    | nil => simp [popContainer]
    | cons p below => simp [popContainer]
  have hscalar : ∀ s', decodeScalar (c :: cs) s' stack ≠ .error .eof := by
    intro s'
    unfold decodeScalar
    split
    · simp
    · simp
  unfold tokenAt
  split_ifs <;> simp [hpop, hscalar]

theorem token_eof_iff (hstate : d.state = .topValue) :
    d.token = .error .eof ↔ Spaces d.rest := by
  constructor
  · intro h
    cases hd : d.rest.dropWhile isSpace with
    | nil => exact List.dropWhile_eq_nil_iff.mp hd
    | cons c cs =>
      rw [token_of_dropWhile hd, hstate] at h
      simp only [reduceCtorEq, if_false] at h
      split_ifs at h with hcolon hcomma
      · cases h
      · cases h
      · exact absurd h (tokenAt_ne_eof c cs .topValue d.stack)
  · intro h
    exact token_eof (List.dropWhile_eq_nil_iff.mpr h)

theorem document_iff : Document body t ↔
    ∃ rest, Reads ⟨body, .topValue, []⟩ t ⟨rest, .topValue, []⟩ ∧ Spaces rest := by
  constructor
  · rintro ⟨before, text, after, rfl, hbefore, hafter, htext⟩
    have hreads := readable t text before after .topValue
      .topValue [] htext (.spaces hbefore) rfl (stops_spaces hafter)
    exact ⟨after, hreads, hafter⟩
  · rintro ⟨rest, hreads, hrest⟩
    have hexpects : ExpectsValue TokenState.topValue := by simp [ExpectsValue]
    obtain ⟨lead, s', text, hleads, hallowed, htext, hbody, hend, hstack⟩ :=
      derivable t _ _ hreads hexpects
    cases hleads with
    | spaces hw => exact ⟨lead, text, rest, hbody, hw, hrest, htext⟩

theorem reads_top {d' : Decoder} (h : Reads ⟨body, .topValue, []⟩ t d') :
    d' = ⟨d'.rest, .topValue, []⟩ := by
  have hexpects : ExpectsValue TokenState.topValue := by simp [ExpectsValue]
  obtain ⟨lead, s', text, hleads, hallowed, htext, hbody, hend, hstack⟩ :=
    derivable t _ _ h hexpects
  obtain ⟨rest, state, stack⟩ := d'
  cases hleads with
  | spaces hw =>
    cases hend
    cases hstack
    rfl

theorem document_unique (h : Document body t) (h' : Document body t') : t = t' := by
  obtain ⟨rest, hreads, -⟩ := document_iff.mp h
  obtain ⟨rest', hreads', -⟩ := document_iff.mp h'
  exact (readsOnly t _ _ _ _ hreads hreads').1

end Documents

end JsonText
