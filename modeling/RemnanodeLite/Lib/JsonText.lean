import Mathlib.Data.List.TakeWhile
import Mathlib.Tactic.Common

/-! # Words of a JSON text

The lexical grammar of JSON over bytes and the greedy scanner for it: white
space, string bodies, numbers and the three literals. -/

namespace JsonText

def isSpace (c : UInt8) : Bool := c = 0x20 || c = 0x09 || c = 0x0d || c = 0x0a
def isDigit (c : UInt8) : Bool := 0x30 ≤ c && c ≤ 0x39
def isHex (c : UInt8) : Bool := isDigit c || (0x61 ≤ c && c ≤ 0x66) || (0x41 ≤ c && c ≤ 0x46)

def Spaces (w : List UInt8) : Prop := ∀ c ∈ w, isSpace c = true
def Digits (ds : List UInt8) : Prop := ∀ c ∈ ds, isDigit c = true

section TakeWhile
variable {p : UInt8 → Bool} {w r : List UInt8}

theorem takeWhile_append_stop (hw : ∀ c ∈ w, p c = true) (hr : ∀ c ∈ r.head?, p c = false) :
    (w ++ r).takeWhile p = w := by
  rw [List.takeWhile_append_of_pos hw]
  cases r with
  | nil => simp
  | cons c r =>
    have hc : p c = false := hr c rfl
    simp [hc]

theorem dropWhile_append_stop (hw : ∀ c ∈ w, p c = true) (hr : ∀ c ∈ r.head?, p c = false) :
    (w ++ r).dropWhile p = r := by
  rw [List.dropWhile_append_of_pos hw]
  cases r with
  | nil => simp
  | cons c r =>
    have hc : p c = false := hr c rfl
    simp [hc]

theorem head_dropWhile (p : UInt8 → Bool) (r : List UInt8) :
    ∀ c ∈ (r.dropWhile p).head?, p c = false := by
  intro c hc
  cases hd : r.dropWhile p with
  | nil => simp [hd] at hc
  | cons x xs =>
    rw [hd] at hc
    cases hc
    have hne : r.dropWhile p ≠ [] := by simp [hd]
    have hhead := List.head_dropWhile_not p hne
    simpa [hd] using hhead

end TakeWhile

/-! ### Strings -/

/- The characters that may follow a backslash, apart from `u`. -/
def isEscape (c : UInt8) : Bool :=
  c = 0x62 || c = 0x66 || c = 0x6e || c = 0x72 || c = 0x74 || c = 0x5c || c = 0x2f || c = 0x22

/-- What stands between the quotes of a string. -/
inductive StringBody : List UInt8 → Prop
  | nil : StringBody []
  | plain {c : UInt8} {r : List UInt8} (hc : 0x20 ≤ c) (hquote : c ≠ 0x22) (hslash : c ≠ 0x5c)
      (hr : StringBody r) : StringBody (c :: r)
  | escape {e : UInt8} {r : List UInt8} (he : isEscape e = true) (hr : StringBody r) :
      StringBody (0x5c :: e :: r)
  | unicode {a b c d : UInt8} {r : List UInt8} (ha : isHex a = true) (hb : isHex b = true)
      (hc : isHex c = true) (hd : isHex d = true) (hr : StringBody r) :
      StringBody (0x5c :: 0x75 :: a :: b :: c :: d :: r)

inductive StringState where
  | inString
  | inStringEsc
  | inStringEscU (left : ℕ)

def pushed (c : UInt8) (p : List UInt8 × List UInt8) : List UInt8 × List UInt8 := (c :: p.1, p.2)

/- The body from here on and what follows the closing quote. After `\u` there are
`left + 1` digits to come. -/
def scanString : StringState → List UInt8 → Option (List UInt8 × List UInt8)
  | _, [] => none
  | .inString, c :: cs =>
    if c = 0x22 then some ([], cs)
    else if c = 0x5c then (scanString .inStringEsc cs).map (pushed c)
    else if c < 0x20 then none
    else (scanString .inString cs).map (pushed c)
  | .inStringEsc, c :: cs =>
    if isEscape c then (scanString .inString cs).map (pushed c)
    else if c = 0x75 then (scanString (.inStringEscU 3) cs).map (pushed c)
    else none
  | .inStringEscU 0, c :: cs =>
    if isHex c then (scanString .inString cs).map (pushed c) else none
  | .inStringEscU (left + 1), c :: cs =>
    if isHex c then (scanString (.inStringEscU left) cs).map (pushed c) else none

variable {raw rest : List UInt8}

theorem scanString_complete (h : StringBody raw) (rest : List UInt8) :
    scanString .inString (raw ++ 0x22 :: rest) = some (raw, rest) := by
  induction h with
  | nil => simp [scanString]
  | @plain c r hc hquote hslash hr ih =>
    have hlow : ¬ c < 0x20 := UInt8.not_lt.mpr hc
    simp [scanString, hquote, hslash, hlow, ih, pushed]
  | escape he hr ih => simp [scanString, he, ih, pushed]
  | unicode ha hb hc hd hr ih =>
    have hu : isEscape 0x75 = false := rfl
    simp [scanString, hu, ha, hb, hc, hd, ih, pushed]

/- What `raw` completes when the scanner is in a state. -/
def Completes : StringState → List UInt8 → Prop
  | .inString, raw => StringBody raw
  | .inStringEsc, raw => StringBody (0x5c :: raw)
  | .inStringEscU left, raw => ∀ hs : List UInt8, hs.length + left = 3 →
      (∀ c ∈ hs, isHex c = true) → StringBody (0x5c :: 0x75 :: hs ++ raw)

theorem scanString_completes {state : StringState} {input : List UInt8}
    (h : scanString state input = some (raw, rest)) :
    Completes state raw ∧ input = raw ++ 0x22 :: rest := by
  induction input generalizing state raw with
  | nil => cases state <;> simp [scanString] at h
  | cons c cs ih =>
    have hpushed : ∀ {state' : StringState},
        (scanString state' cs).map (pushed c) = some (raw, rest) →
        ∃ raw', raw = c :: raw' ∧ Completes state' raw' ∧ c :: cs = raw ++ 0x22 :: rest := by
      intro state' hmap
      obtain ⟨⟨raw', rest'⟩, htail, hpush⟩ := Option.map_eq_some_iff.mp hmap
      cases hpush
      obtain ⟨hcompletes, hcs⟩ := ih htail
      exact ⟨raw', rfl, hcompletes, by rw [hcs]; rfl⟩
    match state with
    | .inString =>
      simp only [scanString] at h
      split_ifs at h with hquote hslash hlow
      · cases h
        exact ⟨.nil, by rw [hquote]; rfl⟩
      · obtain ⟨raw', rfl, hbody, hinput⟩ := hpushed h
        rw [hslash] at hinput ⊢
        exact ⟨hbody, hinput⟩
      · obtain ⟨raw', rfl, hbody, hinput⟩ := hpushed h
        exact ⟨.plain (UInt8.not_lt.mp hlow) hquote hslash hbody, hinput⟩
    | .inStringEsc =>
      simp only [scanString] at h
      split_ifs at h with hescape hu
      · obtain ⟨raw', rfl, hbody, hinput⟩ := hpushed h
        exact ⟨.escape hescape hbody, hinput⟩
      · obtain ⟨raw', rfl, hbody, hinput⟩ := hpushed h
        rw [hu] at hinput ⊢
        exact ⟨hbody [] rfl (fun x hx => by cases hx), hinput⟩
    | .inStringEscU 0 =>
      simp only [scanString] at h
      split_ifs at h with hhex
      obtain ⟨raw', rfl, hbody, hinput⟩ := hpushed h
      refine ⟨?_, hinput⟩
      intro hs hlength hall
      match hs, hlength with
      | [a, b, d], _ =>
        exact .unicode (hall a (by simp)) (hall b (by simp)) (hall d (by simp)) hhex hbody
    | .inStringEscU (left + 1) =>
      simp only [scanString] at h
      split_ifs at h with hhex
      obtain ⟨raw', rfl, hbody, hinput⟩ := hpushed h
      refine ⟨?_, hinput⟩
      intro hs hlength hall
      have hlonger := hbody (hs ++ [c]) (by simp; omega)
        (List.forall_mem_append.mpr ⟨hall, List.forall_mem_singleton.mpr hhex⟩)
      simpa using hlonger

theorem scanString_sound {input : List UInt8} (h : scanString .inString input = some (raw, rest)) :
    StringBody raw ∧ input = raw ++ 0x22 :: rest := scanString_completes h

/-! ### Numbers -/

def IsInt (int : List UInt8) : Prop :=
  int = [0x30] ∨ ∃ c ds, int = c :: ds ∧ isDigit c = true ∧ c ≠ 0x30 ∧ Digits ds

def IsFrac (frac : List UInt8) : Prop :=
  frac = [] ∨ ∃ ds, frac = 0x2e :: ds ∧ ds ≠ [] ∧ Digits ds

def isExpChar (c : UInt8) : Bool := c = 0x65 || c = 0x45

def isSign (c : UInt8) : Bool := c = 0x2b || c = 0x2d

def IsExp (exp : List UInt8) : Prop :=
  exp = [] ∨ ∃ e sign ds, exp = e :: (sign ++ ds) ∧ isExpChar e = true ∧
    (sign = [] ∨ ∃ c, sign = [c] ∧ isSign c = true) ∧ ds ≠ [] ∧ Digits ds

def IsNumber (bs : List UInt8) : Prop :=
  ∃ sign int frac exp, bs = sign ++ (int ++ (frac ++ exp)) ∧ (sign = [] ∨ sign = [0x2d]) ∧
    IsInt int ∧ IsFrac frac ∧ IsExp exp

def scanDigits (bs : List UInt8) : Option (List UInt8 × List UInt8) :=
  if bs.takeWhile isDigit = [] then none else some (bs.takeWhile isDigit, bs.dropWhile isDigit)

def scanInt : List UInt8 → Option (List UInt8 × List UInt8)
  | [] => none
  | c :: cs => if c = 0x30 then some ([c], cs) else scanDigits (c :: cs)

def scanFrac : List UInt8 → Option (List UInt8 × List UInt8)
  | [] => some ([], [])
  | c :: cs => if c = 0x2e then (scanDigits cs).map (pushed c) else some ([], c :: cs)

def scanSigned : List UInt8 → Option (List UInt8 × List UInt8)
  | [] => none
  | c :: cs => if isSign c then (scanDigits cs).map (pushed c) else scanDigits (c :: cs)

def scanExp : List UInt8 → Option (List UInt8 × List UInt8)
  | [] => some ([], [])
  | c :: cs => if isExpChar c then (scanSigned cs).map (pushed c) else some ([], c :: cs)

def scanUnsigned (bs : List UInt8) : Option (List UInt8 × List UInt8) := do
  let int ← scanInt bs
  let frac ← scanFrac int.2
  let exp ← scanExp frac.2
  some (int.1 ++ (frac.1 ++ exp.1), exp.2)

def scanNumber : List UInt8 → Option (List UInt8 × List UInt8)
  | [] => none
  | c :: cs => if c = 0x2d then (scanUnsigned cs).map (pushed c) else scanUnsigned (c :: cs)

/- Nothing follows that could belong to a number. -/
def isNumberChar (c : UInt8) : Bool := isDigit c || c = 0x2e || isExpChar c

def Stops (rest : List UInt8) : Prop := ∀ c ∈ rest.head?, isNumberChar c = false

theorem map_pushed {p : Option (List UInt8 × List UInt8)} {c : UInt8} {bs : List UInt8}
    (h : p.map (pushed c) = some (bs, rest)) : ∃ bs', p = some (bs', rest) ∧ bs = c :: bs' := by
  obtain ⟨⟨bs', rest'⟩, hp, hpush⟩ := Option.map_eq_some_iff.mp h
  cases hpush
  exact ⟨bs', hp, rfl⟩

section Numbers
variable {bs rest : List UInt8}

theorem scanDigits_sound {ds : List UInt8} (h : scanDigits bs = some (ds, rest)) :
    ds ≠ [] ∧ Digits ds ∧ bs = ds ++ rest := by
  unfold scanDigits at h
  split_ifs at h with hnone
  cases h
  refine ⟨hnone, fun c hc => ?_, (List.takeWhile_append_dropWhile ..).symm⟩
  exact List.mem_takeWhile_imp hc

theorem scanDigits_complete {ds : List UInt8} (hne : ds ≠ []) (hds : Digits ds)
    (hrest : ∀ c ∈ rest.head?, isDigit c = false) : scanDigits (ds ++ rest) = some (ds, rest) := by
  unfold scanDigits
  rw [takeWhile_append_stop hds hrest, dropWhile_append_stop hds hrest, if_neg hne]

variable {int frac exp number : List UInt8}

theorem scanInt_sound (h : scanInt bs = some (int, rest)) :
    IsInt int ∧ bs = int ++ rest := by
  cases bs with
  | nil => cases h
  | cons c cs =>
    simp only [scanInt] at h
    split_ifs at h with hzero
    · cases h
      exact ⟨Or.inl (by rw [hzero]), rfl⟩
    · obtain ⟨hne, hds, heq⟩ := scanDigits_sound h
      cases int with
      | nil => exact absurd rfl hne
      | cons d ds =>
        have hcd : c = d := (List.cons.inj heq).1
        refine ⟨Or.inr ⟨d, ds, rfl, hds d List.mem_cons_self, ?_, ?_⟩, heq⟩
        · rw [← hcd]
          exact hzero
        · exact fun x hx => hds x (List.mem_cons_of_mem _ hx)

theorem scanInt_complete (h : IsInt int) (hrest : ∀ c ∈ rest.head?, isDigit c = false) :
    scanInt (int ++ rest) = some (int, rest) := by
  rcases h with rfl | ⟨c, ds, rfl, hc, hzero, hds⟩
  · simp [scanInt]
  · have hall : Digits (c :: ds) := List.forall_mem_cons.mpr ⟨hc, hds⟩
    have hdigits := scanDigits_complete (List.cons_ne_nil c ds) hall hrest
    simp only [List.cons_append, scanInt, if_neg hzero]
    exact hdigits

theorem scanFrac_sound (h : scanFrac bs = some (frac, rest)) :
    IsFrac frac ∧ bs = frac ++ rest := by
  cases bs with
  | nil =>
    cases h
    exact ⟨Or.inl rfl, rfl⟩
  | cons c cs =>
    simp only [scanFrac] at h
    split_ifs at h with hdot
    · obtain ⟨ds, hscan, rfl⟩ := map_pushed h
      obtain ⟨hne, hds, rfl⟩ := scanDigits_sound hscan
      exact ⟨Or.inr ⟨ds, by rw [hdot], hne, hds⟩, rfl⟩
    · cases h
      exact ⟨Or.inl rfl, rfl⟩

theorem scanFrac_complete (h : IsFrac frac)
    (hrest : ∀ c ∈ rest.head?, isDigit c = false ∧ c ≠ 0x2e) :
    scanFrac (frac ++ rest) = some (frac, rest) := by
  rcases h with rfl | ⟨ds, rfl, hne, hds⟩
  · cases rest with
    | nil => rfl
    | cons c cs => simp [scanFrac, (hrest c rfl).2]
  · have hdigits := scanDigits_complete hne hds fun c hc => (hrest c hc).1
    simp [scanFrac, hdigits, pushed]

theorem isDigit_of_isSign {c : UInt8} (h : isSign c = true) : isDigit c = false := by
  simp only [isSign, Bool.or_eq_true, decide_eq_true_eq] at h
  rcases h with rfl | rfl
  · rfl
  · rfl

theorem scanExp_sound (h : scanExp bs = some (exp, rest)) :
    IsExp exp ∧ bs = exp ++ rest := by
  cases bs with
  | nil =>
    cases h
    exact ⟨Or.inl rfl, rfl⟩
  | cons c cs =>
    simp only [scanExp] at h
    split_ifs at h with hexp
    · obtain ⟨tail, hscan, rfl⟩ := map_pushed h
      cases cs with
      | nil => cases hscan
      | cons d ds =>
        simp only [scanSigned] at hscan
        split_ifs at hscan with hsign
        · obtain ⟨digits, hdigits, rfl⟩ := map_pushed hscan
          obtain ⟨hne, hall, rfl⟩ := scanDigits_sound hdigits
          exact ⟨Or.inr ⟨c, [d], digits, rfl, hexp, Or.inr ⟨d, rfl, hsign⟩, hne, hall⟩, rfl⟩
        · obtain ⟨hne, hall, heq⟩ := scanDigits_sound hscan
          refine ⟨Or.inr ⟨c, [], tail, rfl, hexp, Or.inl rfl, hne, hall⟩, ?_⟩
          rw [heq]
          rfl
    · cases h
      exact ⟨Or.inl rfl, rfl⟩

theorem scanExp_complete (h : IsExp exp) (hrest : Stops rest) :
    scanExp (exp ++ rest) = some (exp, rest) := by
  have hdigit : ∀ c ∈ rest.head?, isDigit c = false := by
    intro c hc
    have hstop := hrest c hc
    simp only [isNumberChar, Bool.or_eq_false_iff] at hstop
    exact hstop.1.1
  rcases h with rfl | ⟨e, sign, ds, rfl, he, hsign, hne, hds⟩
  · cases rest with
    | nil => rfl
    | cons c cs =>
      have hstop := hrest c rfl
      simp only [isNumberChar, Bool.or_eq_false_iff] at hstop
      simp [scanExp, hstop.2]
  · have hdigits := scanDigits_complete hne hds hdigit
    rcases hsign with rfl | ⟨c, rfl, hc⟩
    · cases ds with
      | nil => exact absurd rfl hne
      | cons d ds =>
        have hd : isDigit d = true := hds d List.mem_cons_self
        have hnotsign : isSign d = false := by
          cases hs : isSign d with
          | false => rfl
          | true =>
            rw [isDigit_of_isSign hs] at hd
            cases hd
        rw [List.cons_append] at hdigits
        simp [scanExp, he, scanSigned, hnotsign, hdigits, pushed]
    · simp [scanExp, he, scanSigned, hc, hdigits, pushed]

theorem scanUnsigned_complete (hint : IsInt int) (hfrac : IsFrac frac) (hexp : IsExp exp)
    (hrest : Stops rest) :
    scanUnsigned (int ++ (frac ++ exp) ++ rest) = some (int ++ (frac ++ exp), rest) := by
  have hafterFrac : ∀ c ∈ (exp ++ rest).head?, isDigit c = false ∧ c ≠ 0x2e := by
    intro c hc
    rcases hexp with rfl | ⟨e, sign, ds, rfl, he, -, -, -⟩
    · have hstop := hrest c hc
      simp only [isNumberChar, Bool.or_eq_false_iff, decide_eq_false_iff_not] at hstop
      exact ⟨hstop.1.1, hstop.1.2⟩
    · cases hc
      simp only [isExpChar, Bool.or_eq_true, decide_eq_true_eq] at he
      rcases he with rfl | rfl
      · exact ⟨rfl, by decide⟩
      · exact ⟨rfl, by decide⟩
  have hafterInt : ∀ c ∈ (frac ++ (exp ++ rest)).head?, isDigit c = false := by
    intro c hc
    rcases hfrac with rfl | ⟨ds, rfl, -, -⟩
    · exact (hafterFrac c hc).1
    · cases hc
      rfl
  have hinput : int ++ (frac ++ exp) ++ rest = int ++ (frac ++ (exp ++ rest)) := by
    simp only [List.append_assoc]
  unfold scanUnsigned
  rw [hinput, scanInt_complete hint hafterInt]
  simp [scanFrac_complete hfrac hafterFrac, scanExp_complete hexp hrest]

theorem scanUnsigned_sound (h : scanUnsigned bs = some (number, rest)) :
    ∃ int frac exp, number = int ++ (frac ++ exp) ∧ IsInt int ∧ IsFrac frac ∧ IsExp exp ∧
      bs = number ++ rest := by
  unfold scanUnsigned at h
  obtain ⟨⟨int, afterInt⟩, hint, h⟩ := Option.bind_eq_some_iff.mp h
  obtain ⟨⟨frac, afterFrac⟩, hfrac, h⟩ := Option.bind_eq_some_iff.mp h
  obtain ⟨⟨exp, afterExp⟩, hexp, h⟩ := Option.bind_eq_some_iff.mp h
  cases h
  obtain ⟨hisInt, rfl⟩ := scanInt_sound hint
  obtain ⟨hisFrac, heq⟩ := scanFrac_sound hfrac
  obtain ⟨hisExp, heq'⟩ := scanExp_sound hexp
  refine ⟨int, frac, exp, rfl, hisInt, hisFrac, hisExp, ?_⟩
  simp only at heq heq'
  rw [heq, heq']
  simp only [List.append_assoc]

theorem head_unsigned (hint : IsInt int) (tail : List UInt8) :
    ∃ c cs, int ++ tail = c :: cs ∧ isDigit c = true := by
  rcases hint with rfl | ⟨c, ds, rfl, hc, -, -⟩
  · exact ⟨0x30, tail, rfl, rfl⟩
  · exact ⟨c, ds ++ tail, rfl, hc⟩

theorem scanNumber_sound (h : scanNumber bs = some (number, rest)) :
    IsNumber number ∧ bs = number ++ rest := by
  cases bs with
  | nil => cases h
  | cons c cs =>
    simp only [scanNumber] at h
    split_ifs at h with hminus
    · obtain ⟨number', hscan, rfl⟩ := map_pushed h
      obtain ⟨int, frac, exp, rfl, hint, hfrac, hexp, rfl⟩ := scanUnsigned_sound hscan
      exact ⟨⟨[0x2d], int, frac, exp, by rw [hminus]; rfl, Or.inr rfl, hint, hfrac, hexp⟩, rfl⟩
    · obtain ⟨int, frac, exp, rfl, hint, hfrac, hexp, heq⟩ := scanUnsigned_sound h
      exact ⟨⟨[], int, frac, exp, rfl, Or.inl rfl, hint, hfrac, hexp⟩, heq⟩

theorem scanNumber_complete (h : IsNumber number) (hrest : Stops rest) :
    scanNumber (number ++ rest) = some (number, rest) := by
  obtain ⟨sign, int, frac, exp, rfl, hsign, hint, hfrac, hexp⟩ := h
  have hunsigned := scanUnsigned_complete hint hfrac hexp hrest
  rcases hsign with rfl | rfl
  · obtain ⟨c, cs, hcons, hdigit⟩ := head_unsigned hint (frac ++ exp ++ rest)
    have hminus : c ≠ 0x2d := by
      intro hc
      rw [hc] at hdigit
      cases hdigit
    simp only [List.append_assoc, List.nil_append] at hunsigned hcons ⊢
    rw [hcons] at hunsigned ⊢
    simp only [scanNumber, if_neg hminus]
    exact hunsigned
  · simp only [List.append_assoc] at hunsigned
    simp [scanNumber, hunsigned, pushed]

end Numbers

/-! ### Scalars -/

def literalTrue : List UInt8 := [0x74, 0x72, 0x75, 0x65]
def literalFalse : List UInt8 := [0x66, 0x61, 0x6c, 0x73, 0x65]
def literalNull : List UInt8 := [0x6e, 0x75, 0x6c, 0x6c]

def IsLiteral (bs : List UInt8) : Prop := bs = literalTrue ∨ bs = literalFalse ∨ bs = literalNull

def quoted (raw : List UInt8) : List UInt8 := 0x22 :: (raw ++ [0x22])

/-- The text of a value that is neither an array nor an object. -/
def IsScalar (bs : List UInt8) : Prop :=
  IsLiteral bs ∨ IsNumber bs ∨ ∃ raw, StringBody raw ∧ bs = quoted raw

inductive Word where
  | string (raw : List UInt8)
  | other
  deriving DecidableEq

def scanLiteral (literal bs : List UInt8) : Option (Word × List UInt8) :=
  if literal <+: bs then some (.other, bs.drop literal.length) else none

def scanScalar : List UInt8 → Option (Word × List UInt8)
  | [] => none
  | c :: cs =>
    if c = 0x22 then (scanString .inString cs).map fun p => (.string p.1, p.2)
    else if c = 0x2d || isDigit c then (scanNumber (c :: cs)).map fun p => (.other, p.2)
    else if c = 0x74 then scanLiteral literalTrue (c :: cs)
    else if c = 0x66 then scanLiteral literalFalse (c :: cs)
    else if c = 0x6e then scanLiteral literalNull (c :: cs)
    else none

def startsScalar (c : UInt8) : Bool :=
  c = 0x22 || c = 0x2d || isDigit c || c = 0x74 || c = 0x66 || c = 0x6e

section Scalars
variable {text rest raw : List UInt8}

theorem head_number (h : IsNumber text) : ∃ c cs, text = c :: cs ∧ (c = 0x2d ∨ isDigit c = true) := by
  obtain ⟨sign, int, frac, exp, rfl, hsign, hint, -, -⟩ := h
  rcases hsign with rfl | rfl
  · obtain ⟨c, cs, hcons, hc⟩ := head_unsigned hint (frac ++ exp)
    exact ⟨c, cs, hcons, Or.inr hc⟩
  · exact ⟨0x2d, _, rfl, Or.inl rfl⟩

theorem head_scalar (h : IsScalar text) : ∃ c cs, text = c :: cs ∧ startsScalar c = true := by
  rcases h with (rfl | rfl | rfl) | hnumber | ⟨raw, -, rfl⟩
  · exact ⟨_, _, rfl, rfl⟩
  · exact ⟨_, _, rfl, rfl⟩
  · exact ⟨_, _, rfl, rfl⟩
  · obtain ⟨c, cs, rfl, hc⟩ := head_number hnumber
    refine ⟨c, cs, rfl, ?_⟩
    rcases hc with rfl | hc
    · rfl
    · simp [startsScalar, hc]
  · exact ⟨_, _, rfl, rfl⟩

theorem scanScalar_string (h : StringBody raw) (rest : List UInt8) :
    scanScalar (quoted raw ++ rest) = some (.string raw, rest) := by
  have hinput : quoted raw ++ rest = 0x22 :: (raw ++ 0x22 :: rest) := by
    simp [quoted]
  rw [hinput, scanScalar, if_pos rfl, scanString_complete h]
  rfl

theorem scanScalar_complete (h : IsScalar text) (hrest : Stops rest) :
    ∃ word, scanScalar (text ++ rest) = some (word, rest) := by
  rcases h with (rfl | rfl | rfl) | hnumber | ⟨raw, hraw, rfl⟩
  · exact ⟨.other, by simp [scanScalar, scanLiteral, literalTrue, isDigit]⟩
  · exact ⟨.other, by simp [scanScalar, scanLiteral, literalFalse, isDigit]⟩
  · exact ⟨.other, by simp [scanScalar, scanLiteral, literalNull, isDigit]⟩
  · have hscan := scanNumber_complete hnumber hrest
    obtain ⟨c, cs, rfl, hc⟩ := head_number hnumber
    have hquote : c ≠ 0x22 := by
      intro heq
      rw [heq] at hc
      revert hc
      decide
    have hnumeric : (c = 0x2d || isDigit c) = true := by simpa using hc
    refine ⟨.other, ?_⟩
    rw [List.cons_append] at hscan ⊢
    rw [scanScalar, if_neg hquote, if_pos hnumeric, hscan]
    rfl
  · exact ⟨.string raw, scanScalar_string hraw rest⟩

theorem scanLiteral_sound {literal bs : List UInt8} {word : Word}
    (h : scanLiteral literal bs = some (word, rest)) : word = .other ∧ bs = literal ++ rest := by
  unfold scanLiteral at h
  split_ifs at h with hprefix
  cases h
  refine ⟨rfl, ?_⟩
  obtain ⟨tail, rfl⟩ := hprefix
  rw [List.drop_left]

theorem scanScalar_sound {bs : List UInt8} {word : Word}
    (h : scanScalar bs = some (word, rest)) :
    ∃ text, bs = text ++ rest ∧ IsScalar text ∧
      ∀ raw, word = .string raw → StringBody raw ∧ text = quoted raw := by
  cases bs with
  | nil => cases h
  | cons c cs =>
    simp only [scanScalar] at h
    split_ifs at h with hquote hnumeric htrue hfalse hnull
    · obtain ⟨⟨raw, rest'⟩, hscan, heq⟩ := Option.map_eq_some_iff.mp h
      cases heq
      obtain ⟨hraw, rfl⟩ := scanString_sound hscan
      refine ⟨quoted raw, by simp [quoted, hquote], Or.inr (Or.inr ⟨raw, hraw, rfl⟩), ?_⟩
      intro raw' heq
      cases heq
      exact ⟨hraw, rfl⟩
    · obtain ⟨⟨number, rest'⟩, hscan, heq⟩ := Option.map_eq_some_iff.mp h
      cases heq
      obtain ⟨hnumber, heq⟩ := scanNumber_sound hscan
      exact ⟨number, heq, Or.inr (Or.inl hnumber), fun raw hraw => by cases hraw⟩
    · obtain ⟨rfl, heq⟩ := scanLiteral_sound h
      exact ⟨literalTrue, heq, Or.inl (Or.inl rfl), fun raw hraw => by cases hraw⟩
    · obtain ⟨rfl, heq⟩ := scanLiteral_sound h
      exact ⟨literalFalse, heq, Or.inl (Or.inr (Or.inl rfl)), fun raw hraw => by cases hraw⟩
    · obtain ⟨rfl, heq⟩ := scanLiteral_sound h
      exact ⟨literalNull, heq, Or.inl (Or.inr (Or.inr rfl)), fun raw hraw => by cases hraw⟩

end Scalars

/-! ### Decoded strings

A string body as the characters it stands for: escapes are resolved, and bytes
that are no UTF-8 and surrogates without their partner become U+FFFD. -/

def runeError : Char := Char.ofNat 0xfffd

def isTail (c : UInt8) : Bool := 0x80 ≤ c && c ≤ 0xbf

def leadsThree (a b : UInt8) : Bool :=
  (a = 0xe0 && 0xa0 ≤ b && b ≤ 0xbf) || (0xe1 ≤ a && a ≤ 0xec && isTail b) ||
    (a = 0xed && 0x80 ≤ b && b ≤ 0x9f) || (0xee ≤ a && a ≤ 0xef && isTail b)

def leadsFour (a b : UInt8) : Bool :=
  (a = 0xf0 && 0x90 ≤ b && b ≤ 0xbf) || (0xf1 ≤ a && a ≤ 0xf3 && isTail b) ||
    (a = 0xf4 && 0x80 ≤ b && b ≤ 0x8f)

def joinBits (lead : ℕ) (tails : List UInt8) : Char :=
  Char.ofNat (tails.foldl (fun n c => n * 64 + c.toNat % 64) lead)

def decodeRune : List UInt8 → Char × ℕ
  | [] => (runeError, 0)
  | [a] => if a < 0x80 then (Char.ofNat a.toNat, 1) else (runeError, 1)
  | [a, b] =>
    if a < 0x80 then (Char.ofNat a.toNat, 1)
    else if 0xc2 ≤ a && a ≤ 0xdf && isTail b then (joinBits (a.toNat % 32) [b], 2)
    else (runeError, 1)
  | [a, b, c] =>
    if a < 0x80 then (Char.ofNat a.toNat, 1)
    else if 0xc2 ≤ a && a ≤ 0xdf && isTail b then (joinBits (a.toNat % 32) [b], 2)
    else if leadsThree a b && isTail c then (joinBits (a.toNat % 16) [b, c], 3)
    else (runeError, 1)
  | a :: b :: c :: d :: _ =>
    if a < 0x80 then (Char.ofNat a.toNat, 1)
    else if 0xc2 ≤ a && a ≤ 0xdf && isTail b then (joinBits (a.toNat % 32) [b], 2)
    else if leadsThree a b && isTail c then (joinBits (a.toNat % 16) [b, c], 3)
    else if leadsFour a b && isTail c && isTail d then (joinBits (a.toNat % 8) [b, c, d], 4)
    else (runeError, 1)

def hexValue (c : UInt8) : ℕ :=
  if isDigit c then c.toNat - 0x30 else if c < 0x61 then c.toNat - 0x41 + 10 else c.toNat - 0x61 + 10

/- `\uXXXX` at the front. -/
def getu4 : List UInt8 → Option ℕ
  | s :: u :: a :: b :: c :: d :: _ =>
    if s = 0x5c && u = 0x75 && isHex a && isHex b && isHex c && isHex d then
      some (((hexValue a * 16 + hexValue b) * 16 + hexValue c) * 16 + hexValue d)
    else none
  | _ => none

def decodePair (high low : ℕ) : Option Char :=
  if 0xd800 ≤ high && high < 0xdc00 && 0xdc00 ≤ low && low < 0xe000 then
    some (Char.ofNat ((high - 0xd800) * 1024 + (low - 0xdc00) + 0x10000))
  else none

def unquoteRune (bs : List UInt8) : Char × ℕ :=
  match getu4 bs with
  | some rune =>
    if 0xd800 ≤ rune && rune < 0xe000 then
      match (getu4 (bs.drop 6)).bind (decodePair rune) with
      | some c => (c, 12)
      | none => (runeError, 6)
    else (Char.ofNat rune, 6)
  | none => match bs with
    | 0x5c :: 0x62 :: _ => (Char.ofNat 0x08, 2)
    | 0x5c :: 0x66 :: _ => (Char.ofNat 0x0c, 2)
    | 0x5c :: 0x6e :: _ => (Char.ofNat 0x0a, 2)
    | 0x5c :: 0x72 :: _ => (Char.ofNat 0x0d, 2)
    | 0x5c :: 0x74 :: _ => (Char.ofNat 0x09, 2)
    | 0x5c :: c :: _ => (Char.ofNat c.toNat, 2)
    | _ => decodeRune bs

/- A character takes at least one byte, so that as many steps as bytes are enough. -/
def unquoteFrom : ℕ → List UInt8 → List Char
  | 0, _ => []
  | _, [] => []
  | n + 1, c :: cs => (unquoteRune (c :: cs)).1 ::
      unquoteFrom n ((c :: cs).drop (unquoteRune (c :: cs)).2)

def unquote (raw : List UInt8) : String := String.ofList (unquoteFrom raw.length raw)

end JsonText
