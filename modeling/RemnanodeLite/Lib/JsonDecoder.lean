import RemnanodeLite.Lib.JsonGrammar

/-! # Reading a document token by token

The `Token` and `More` calls of `encoding/json`'s decoder, which keeps a state
for what may come next and the states of the containers around it. A value that
is read with these calls is a value of the grammar, and conversely. -/

namespace JsonText

inductive TokenState where
  | topValue
  | arrayStart
  | arrayValue
  | arrayComma
  | objectStart
  | objectKey
  | objectColon
  | objectValue
  | objectComma
  deriving DecidableEq

namespace TokenState

def valueAllowed : TokenState → Bool
  | topValue | arrayStart | arrayValue | objectValue => true
  | _ => false

def valueEnd : TokenState → TokenState
  | arrayStart | arrayValue => arrayComma
  | objectValue => objectComma
  | s => s

end TokenState
open TokenState

structure Decoder where
  rest : List UInt8
  state : TokenState
  stack : List TokenState

inductive Delim where
  | openArray
  | closeArray
  | openObject
  | closeObject
  deriving DecidableEq

inductive Token where
  | delim (d : Delim)
  | string (s : String)
  | other

inductive TokenError where
  | eof
  | invalid
  deriving DecidableEq

def Word.token : Word → Token
  | string raw => .string (unquote raw)
  | other => .other

/- `Decode` of a value that is no array and no object. -/
def decodeScalar (bs : List UInt8) (state : TokenState) (stack : List TokenState) :
    Except TokenError (Token × Decoder) :=
  match scanScalar bs with
  | some (word, rest) => .ok (word.token, ⟨rest, state, stack⟩)
  | none => .error .invalid

/- The end of a container: its state is dropped from the stack. -/
def popContainer (delim : Delim) (rest : List UInt8) :
    List TokenState → Except TokenError (Token × Decoder)
  | [] => .error .invalid
  | state :: stack => .ok (.delim delim, ⟨rest, state.valueEnd, stack⟩)

/- The token that begins with `c`, which is no separator. -/
def tokenAt (c : UInt8) (cs : List UInt8) (state : TokenState) (stack : List TokenState) :
    Except TokenError (Token × Decoder) :=
  if c = 0x5b then
    if state.valueAllowed then .ok (.delim .openArray, ⟨cs, .arrayStart, state :: stack⟩)
    else .error .invalid
  else if c = 0x5d then
    if state = .arrayStart ∨ state = .arrayComma then popContainer .closeArray cs stack
    else .error .invalid
  else if c = 0x7b then
    if state.valueAllowed then .ok (.delim .openObject, ⟨cs, .objectStart, state :: stack⟩)
    else .error .invalid
  else if c = 0x7d then
    if state = .objectStart ∨ state = .objectComma then popContainer .closeObject cs stack
    else .error .invalid
  else if c = 0x22 ∧ (state = .objectStart ∨ state = .objectKey) then
    decodeScalar (c :: cs) .objectColon stack
  else if state.valueAllowed then decodeScalar (c :: cs) state.valueEnd stack
  else .error .invalid

theorem length_of_dropWhile {p : UInt8 → Bool} {r cs : List UInt8} {c : UInt8}
    (h : r.dropWhile p = c :: cs) : cs.length < r.length := by
  have hle := List.length_dropWhile_le p r
  rw [h, List.length_cons] at hle
  omega

namespace Decoder

/- A separator that may stand here is passed over. -/
def token (d : Decoder) : Except TokenError (Token × Decoder) :=
  match _h : d.rest.dropWhile isSpace with
  | [] => .error .eof
  | c :: cs =>
    if c = 0x3a then
      if d.state = .objectColon then token ⟨cs, .objectValue, d.stack⟩ else .error .invalid
    else if c = 0x2c then
      if d.state = .arrayComma then token ⟨cs, .arrayValue, d.stack⟩
      else if d.state = .objectComma then token ⟨cs, .objectKey, d.stack⟩
      else .error .invalid
    else tokenAt c cs d.state d.stack
termination_by d.rest.length
decreasing_by all_goals exact length_of_dropWhile _h

def more (d : Decoder) : Bool :=
  match d.rest.dropWhile isSpace with
  | [] => false
  | c :: _ => c ≠ 0x5d && c ≠ 0x7d

end Decoder

/-! ### What stands before a token -/

/-- White space and at most one separator lead from a state to the state in which the
next token is read. -/
inductive Leads : TokenState → List UInt8 → TokenState → Prop
  | spaces {s : TokenState} {w : List UInt8} (hw : Spaces w) : Leads s w s
  | item {w w' : List UInt8} (hw : Spaces w) (hw' : Spaces w') :
      Leads .arrayComma (w ++ 0x2c :: w') .arrayValue
  | member {w w' : List UInt8} (hw : Spaces w) (hw' : Spaces w') :
      Leads .objectComma (w ++ 0x2c :: w') .objectKey
  | value {w w' : List UInt8} (hw : Spaces w) (hw' : Spaces w') :
      Leads .objectColon (w ++ 0x3a :: w') .objectValue

def StartsToken (c : UInt8) : Prop := isSpace c = false ∧ c ≠ 0x3a ∧ c ≠ 0x2c

section Token
variable {w cs lead : List UInt8} {c : UInt8} {s s' : TokenState} {stack : List TokenState}
  {d d' : Decoder} {tok : Token}

theorem dropWhile_spaces (hw : Spaces w) (hc : isSpace c = false) :
    (w ++ c :: cs).dropWhile isSpace = c :: cs := by
  refine dropWhile_append_stop hw fun x hx => ?_
  cases hx
  exact hc

theorem token_of_dropWhile (h : d.rest.dropWhile isSpace = c :: cs) :
    d.token =
      if c = 0x3a then
        if d.state = .objectColon then Decoder.token ⟨cs, .objectValue, d.stack⟩
        else .error .invalid
      else if c = 0x2c then
        if d.state = .arrayComma then Decoder.token ⟨cs, .arrayValue, d.stack⟩
        else if d.state = .objectComma then Decoder.token ⟨cs, .objectKey, d.stack⟩
        else .error .invalid
      else tokenAt c cs d.state d.stack := by
  rw [Decoder.token]
  split
  case h_1 hd => rw [h] at hd; cases hd
  case h_2 c' cs' hd =>
    rw [h] at hd
    cases hd
    rfl

theorem token_eof (h : d.rest.dropWhile isSpace = []) : d.token = .error .eof := by
  rw [Decoder.token]
  split
  case h_1 hd => rfl
  case h_2 c' cs' hd => rw [h] at hd; cases hd

theorem token_spaces (hw : Spaces w) (hc : StartsToken c) :
    Decoder.token ⟨w ++ c :: cs, s, stack⟩ = tokenAt c cs s stack := by
  obtain ⟨hspace, hcolon, hcomma⟩ := hc
  rw [token_of_dropWhile (dropWhile_spaces hw hspace), if_neg hcolon, if_neg hcomma]

theorem token_leads (hlead : Leads s lead s') (hc : StartsToken c) :
    Decoder.token ⟨lead ++ c :: cs, s, stack⟩ = tokenAt c cs s' stack := by
  cases hlead with
  | spaces hw => exact token_spaces hw hc
  | item hw hw' =>
    rw [List.append_assoc, List.cons_append, token_of_dropWhile (dropWhile_spaces hw rfl),
      if_neg (by decide), if_pos rfl, if_pos rfl]
    exact token_spaces hw' hc
  | member hw hw' =>
    rw [List.append_assoc, List.cons_append, token_of_dropWhile (dropWhile_spaces hw rfl),
      if_neg (by decide), if_pos rfl, if_neg (by simp), if_pos rfl]
    exact token_spaces hw' hc
  | value hw hw' =>
    rw [List.append_assoc, List.cons_append, token_of_dropWhile (dropWhile_spaces hw rfl),
      if_pos rfl, if_pos rfl]
    exact token_spaces hw' hc

theorem spaces_takeWhile (r : List UInt8) : Spaces (r.takeWhile isSpace) :=
  fun _ hc => List.mem_takeWhile_imp hc

theorem split_spaces {r : List UInt8} (h : r.dropWhile isSpace = c :: cs) :
    ∃ w, Spaces w ∧ r = w ++ c :: cs ∧ isSpace c = false := by
  refine ⟨r.takeWhile isSpace, spaces_takeWhile r, ?_, ?_⟩
  · rw [← h, List.takeWhile_append_dropWhile]
  · exact head_dropWhile isSpace r c (by rw [h]; rfl)

theorem token_ok_spaces (h : d.token = .ok (tok, d')) (hcolon : d.state ≠ .objectColon)
    (harray : d.state ≠ .arrayComma) (hobject : d.state ≠ .objectComma) :
    ∃ w c cs, Spaces w ∧ d.rest = w ++ c :: cs ∧ StartsToken c ∧
      tokenAt c cs d.state d.stack = .ok (tok, d') := by
  cases hd : d.rest.dropWhile isSpace with
  | nil =>
    rw [token_eof hd] at h
    cases h
  | cons c cs =>
    obtain ⟨w, hw, hrest, hspace⟩ := split_spaces hd
    rw [token_of_dropWhile hd] at h
    by_cases h3 : c = 0x3a
    · rw [if_pos h3, if_neg hcolon] at h
      cases h
    · by_cases h4 : c = 0x2c
      · rw [if_neg h3, if_pos h4, if_neg harray, if_neg hobject] at h
        cases h
      · rw [if_neg h3, if_neg h4] at h
        exact ⟨w, c, cs, hw, hrest, ⟨hspace, h3, h4⟩, h⟩

theorem token_ok (h : d.token = .ok (tok, d')) :
    ∃ lead s' c cs, Leads d.state lead s' ∧ d.rest = lead ++ c :: cs ∧ StartsToken c ∧
      tokenAt c cs s' d.stack = .ok (tok, d') := by
  cases hd : d.rest.dropWhile isSpace with
  | nil =>
    rw [token_eof hd] at h
    cases h
  | cons c cs =>
    obtain ⟨w, hw, hrest, hspace⟩ := split_spaces hd
    rw [token_of_dropWhile hd] at h
    by_cases h3 : c = 0x3a
    · rw [if_pos h3] at h
      split_ifs at h with hstate
      obtain ⟨w', c', cs', hw', hcs, hstarts, hat⟩ :=
        token_ok_spaces h (by simp) (by simp) (by simp)
      refine ⟨w ++ 0x3a :: w', .objectValue, c', cs', ?_, ?_, hstarts, hat⟩
      · rw [hstate]
        exact .value hw hw'
      · simp only at hcs
        rw [hrest, h3, hcs, List.append_assoc, List.cons_append]
    · by_cases h4 : c = 0x2c
      · rw [if_neg h3, if_pos h4] at h
        split_ifs at h with harray hobject
        · obtain ⟨w', c', cs', hw', hcs, hstarts, hat⟩ :=
            token_ok_spaces h (by simp) (by simp) (by simp)
          refine ⟨w ++ 0x2c :: w', .arrayValue, c', cs', ?_, ?_, hstarts, hat⟩
          · rw [harray]
            exact .item hw hw'
          · simp only at hcs
            rw [hrest, h4, hcs, List.append_assoc, List.cons_append]
        · obtain ⟨w', c', cs', hw', hcs, hstarts, hat⟩ :=
            token_ok_spaces h (by simp) (by simp) (by simp)
          refine ⟨w ++ 0x2c :: w', .objectKey, c', cs', ?_, ?_, hstarts, hat⟩
          · rw [hobject]
            exact .member hw hw'
          · simp only at hcs
            rw [hrest, h4, hcs, List.append_assoc, List.cons_append]
      · rw [if_neg h3, if_neg h4] at h
        exact ⟨w, d.state, c, cs, .spaces hw, hrest, ⟨hspace, h3, h4⟩, h⟩

theorem more_spaces (hw : Spaces w) (hc : isSpace c = false) :
    Decoder.more ⟨w ++ c :: cs, s, stack⟩ = (c ≠ 0x5d && c ≠ 0x7d) := by
  simp only [Decoder.more, dropWhile_spaces hw hc]

end Token

/-! ### Reading values -/

inductive ReadsItems (reads : Decoder → Tree → Decoder → Prop) :
    Decoder → List Tree → Decoder → Prop
  | close {d d' : Decoder} {tok : Token} (hmore : d.more = false)
      (htoken : d.token = .ok (tok, d')) : ReadsItems reads d [] d'
  | item {d d₁ d₂ : Decoder} {t : Tree} {ts : List Tree} (hmore : d.more = true)
      (hitem : reads d t d₁) (hrest : ReadsItems reads d₁ ts d₂) : ReadsItems reads d (t :: ts) d₂

inductive ReadsMembers (reads : Decoder → Tree → Decoder → Prop) :
    Decoder → List (String × Tree) → Decoder → Prop
  | close {d d' : Decoder} {tok : Token} (hmore : d.more = false)
      (htoken : d.token = .ok (tok, d')) : ReadsMembers reads d [] d'
  | member {d d₁ d₂ d₃ : Decoder} {key : String} {t : Tree} {ms : List (String × Tree)}
      (hmore : d.more = true) (hkey : d.token = .ok (.string key, d₁)) (hvalue : reads d₁ t d₂)
      (hrest : ReadsMembers reads d₂ ms d₃) : ReadsMembers reads d ((key, t) :: ms) d₃

/-- The calls that read one value lead from a decoder to another. -/
inductive Reads : Decoder → Tree → Decoder → Prop
  | scalar {d d' : Decoder} {tok : Token} (htoken : d.token = .ok (tok, d'))
      (hscalar : ∀ delim, tok ≠ .delim delim) : Reads d .scalar d'
  | arr {d d₁ d₂ : Decoder} {items : List Tree} (htoken : d.token = .ok (.delim .openArray, d₁))
      (hitems : ReadsItems Reads d₁ items d₂) : Reads d (.arr items) d₂
  | obj {d d₁ d₂ : Decoder} {members : List (String × Tree)}
      (htoken : d.token = .ok (.delim .openObject, d₁))
      (hmembers : ReadsMembers Reads d₁ members d₂) : Reads d (.obj members) d₂

end JsonText
