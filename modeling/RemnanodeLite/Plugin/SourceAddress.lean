import RemnanodeLite.Lib.NetipRoundTrip
import RemnanodeLite.Plugin.Service

/-! # The address in the source of a webhook

The pattern of `torrent.go` takes what looks like a port off the end of the
source, which the last group of an IPv6 address without brackets does too. -/

namespace RemnanodeLite.Plugin
open Netip

theorem sourceBody_bare {c : Char} {s : List Char} (hc : c ≠ '[') :
    sourceBody (c :: s) = lazyGroup portTail (c :: s) := by
  unfold sourceBody
  split
  · rename_i heq
    exact absurd (List.cons.inj heq).1 hc
  · rfl

/-! ### Sources -/

structure Port where
  digits : List Char
  positive : digits ≠ []
  decimal : ∀ c ∈ digits, isDigit c = true

inductive Scheme where
  | missing
  | tcp
  | udp

def Scheme.text : Scheme → List Char
  | .missing => []
  | .tcp => "tcp:".toList
  | .udp => "udp:".toList

def portText : Option Port → List Char
  | none => []
  | some port => ':' :: port.digits

/- An address in the forms in which a source can name it. -/
inductive Source where
  | ipv4 (a : BitVec 32) (port : Option Port)
  | bracketed (a : BitVec 128) (port : Option Port)
  | bare (a : BitVec 128)

def Source.address : Source → Addr
  | .ipv4 a _ => .v4 a
  | .bracketed a _ => .v6 a
  | .bare a => .v6 a

def Source.text : Source → List Char
  | .ipv4 a port => (Addr.v4 a).string.toList ++ portText port
  | .bracketed a port => '[' :: ((Addr.v6 a).string.toList ++ ']' :: portText port)
  | .bare a => (Addr.v6 a).string.toList

section
variable {accepts : List Char → Bool} {p q rest t : List Char}

theorem lazyGroup_append (hne : p ≠ []) (hline : '\n' ∉ p) (hrest : accepts rest = true)
    (hlater : ∀ x y, p = x ++ y → x ≠ [] → y ≠ [] → accepts (y ++ rest) = false) :
    lazyGroup accepts (p ++ rest) = some p := by
  induction p with
  | nil => exact absurd rfl hne
  | cons c p ih =>
    have hc : c ≠ '\n' := fun h => hline (h ▸ List.mem_cons_self)
    rw [List.cons_append, lazyGroup, if_neg hc]
    by_cases hp : p = []
    · subst hp
      rw [List.nil_append, if_pos hrest]
    · rw [hlater [c] p rfl (List.cons_ne_nil c []) hp, ih hp (fun h => hline (List.mem_cons_of_mem _ h))
        fun x y hxy hx hy => hlater (c :: x) y (congrArg (c :: ·) hxy) (List.cons_ne_nil c x) hy]
      rfl

theorem portTail_iff {s : List Char} : portTail s = true ↔
    s = [] ∨ ∃ digits, s = ':' :: digits ∧ digits ≠ [] ∧ ∀ c ∈ digits, isDigit c = true := by
  unfold portTail
  split
  · simp
  · rename_i digits
    simp
  · rename_i hnil hcolon
    simp only [Bool.false_eq_true, false_iff, not_or, not_exists, not_and]
    refine ⟨fun h => hnil h, fun digits h => absurd h (hcolon digits)⟩

theorem portTail_portText (port : Option Port) : portTail (portText port) = true := by
  rw [portTail_iff]
  cases port with
  | none => exact .inl rfl
  | some port => exact .inr ⟨port.digits, rfl, port.positive, port.decimal⟩

theorem lazyGroup_portText (hne : p ≠ []) (hline : '\n' ∉ p) (hcolon : ':' ∉ p) (port : Option Port) :
    lazyGroup portTail (p ++ portText port) = some p := by
  refine lazyGroup_append hne hline (portTail_portText port) fun x y hp hx hy => ?_
  rw [← Bool.not_eq_true, portTail_iff]
  obtain ⟨c, y, rfl⟩ := List.exists_cons_of_ne_nil hy
  rintro (h | ⟨digits, h, -⟩)
  · cases h
  · have hc : c = ':' := (List.cons.inj h).1
    exact hcolon (hp ▸ List.mem_append_right _ (hc ▸ List.mem_cons_self))

theorem lazyGroup_bracketTail (hne : p ≠ []) (hline : '\n' ∉ p) (hbracket : ']' ∉ p)
    (port : Option Port) : lazyGroup bracketTail (p ++ ']' :: portText port) = some p := by
  refine lazyGroup_append hne hline (portTail_portText port) fun x y hp hx hy => ?_
  obtain ⟨c, y, rfl⟩ := List.exists_cons_of_ne_nil hy
  have hc : c ≠ ']' := by
    rintro rfl
    exact hbracket (hp ▸ List.mem_append_right _ List.mem_cons_self)
  unfold bracketTail
  split
  · rename_i heq
    exact absurd (List.cons.inj heq).1 hc
  · rfl

theorem lazyGroup_stripped (hne : q ≠ []) (hline : '\n' ∉ q) (port : Port) :
    lazyGroup portTail (q ++ ':' :: port.digits) = some q := by
  refine lazyGroup_append hne hline (portTail_portText (some port)) fun x y hq hx hy => ?_
  rw [← Bool.not_eq_true, portTail_iff]
  obtain ⟨c, y, rfl⟩ := List.exists_cons_of_ne_nil hy
  rintro (h | ⟨digits, h, -, hdecimal⟩)
  · cases h
  · have hmem : ':' ∈ digits := (List.cons.inj h).2 ▸ List.mem_append_right _ List.mem_cons_self
    exact absurd (hdecimal ':' hmem) (by decide)

theorem lazyGroup_whole (hne : t ≠ []) (hline : '\n' ∉ t)
    (hnumber : ∀ q digits, t = q ++ ':' :: digits → digits ≠ [] → ¬ ∀ c ∈ digits, isDigit c = true) :
    lazyGroup portTail t = some t := by
  have hlater : ∀ x y, t = x ++ y → x ≠ [] → y ≠ [] → portTail (y ++ []) = false := by
    intro x y ht hx hy
    rw [List.append_nil, ← Bool.not_eq_true, portTail_iff]
    rintro (rfl | ⟨digits, rfl, hdigits, hdecimal⟩)
    · exact hy rfl
    · exact hnumber x digits ht hdigits hdecimal
  have hwhole := lazyGroup_append hne hline rfl hlater
  rwa [List.append_nil] at hwhole

theorem lazyGroup_last {d : List Char} (hne : q ≠ []) (hline : '\n' ∉ q ++ ':' :: d) (hcolon : ':' ∉ d) :
    lazyGroup portTail (q ++ ':' :: d) =
      some (if d ≠ [] ∧ d.all isDigit = true then q else q ++ ':' :: d) := by
  split_ifs with hport
  · exact lazyGroup_stripped hne (fun h => hline (List.mem_append_left _ h)) ⟨d, hport.1, List.all_eq_true.mp hport.2⟩
  · refine lazyGroup_whole (by simp) hline fun q' digits hsplit hdigits hdecimal => hport ?_
    have hcolon' : ':' ∉ digits := fun h => absurd (hdecimal ':' h) (by decide)
    have hlast := cutLast_append (a := q) hcolon
    rw [hsplit, cutLast_append hcolon'] at hlast
    obtain ⟨-, rfl⟩ := Prod.mk.inj (Option.some.inj hlast)
    exact ⟨hdigits, List.all_eq_true.mpr hdecimal⟩

end

/-! ### The candidate -/

def addressText (candidate : List Char) : String :=
  match netParseIP candidate with
  | none => ""
  | some address => address.unmap.string

theorem addressText_string (a : Addr) : addressText a.string.toList = a.unmap.string := by
  rw [addressText, netParseIP_string]

theorem extractWebhookIP_scheme {c : Char} {s candidate : List Char} (ht : c ≠ 't') (hu : c ≠ 'u')
    (hbody : sourceBody (c :: s) = some candidate) (scheme : Scheme) :
    extractWebhookIP (String.ofList (scheme.text ++ c :: s)) = addressText candidate := by
  have hpattern : sourceIPPattern (scheme.text ++ c :: s) = some candidate := by
    cases scheme with
    | missing =>
      have htcp : ("tcp:".toList.isPrefixOf (c :: s)) = false := by
        simp [List.isPrefixOf, Ne.symm ht]
      have hudp : ("udp:".toList.isPrefixOf (c :: s)) = false := by
        simp [List.isPrefixOf, Ne.symm hu]
      rw [Scheme.text, List.nil_append, sourceIPPattern, htcp, hudp]
      exact hbody
    | tcp | udp =>
      show (sourceBody (c :: s)).orElse _ = _
      rw [hbody]
      rfl
  have hne : String.ofList (scheme.text ++ c :: s) ≠ "" := by
    intro h
    have hlist := congrArg String.toList h
    simp at hlist
  rw [extractWebhookIP, if_neg hne, String.toList_ofList, hpattern]
  rfl

section
variable (a : Addr)

theorem notMem_string {c : Char} (hc : isAddrChar c = false) : c ∉ a.string.toList := by
  intro h
  rw [isAddrChar_string a c h] at hc
  cases hc

theorem toList_string_ne_nil : a.string.toList ≠ [] :=
  fun h => string_ne_empty a (String.toList_inj.mp h)

theorem extractWebhookIP_unbracketed {rest candidate : List Char}
    (hgroup : lazyGroup portTail (a.string.toList ++ rest) = some candidate) (scheme : Scheme) :
    extractWebhookIP (String.ofList (scheme.text ++ (a.string.toList ++ rest))) = addressText candidate := by
  obtain ⟨c, s, hs⟩ := List.exists_cons_of_ne_nil (toList_string_ne_nil a)
  have hother : ∀ d, isAddrChar d = false → c ≠ d := by
    rintro d hd rfl
    exact notMem_string a hd (hs ▸ List.mem_cons_self)
  rw [hs, List.cons_append] at hgroup ⊢
  refine extractWebhookIP_scheme (hother 't' rfl) (hother 'u' rfl) ?_ scheme
  rw [sourceBody_bare (hother '[' rfl), hgroup]

end

theorem extractWebhookIP_ipv4 (scheme : Scheme) (a : BitVec 32) (port : Option Port) :
    extractWebhookIP (String.ofList (scheme.text ++ (Source.ipv4 a port).text)) =
      (Addr.v4 a).unmap.string := by
  have hcolon : ':' ∉ (Addr.v4 a).string.toList := by
    intro h
    rw [Addr.string, toList_string4] at h
    rcases mem_dotted h with hdigit | hdot
    · exact absurd hdigit (by decide)
    · exact absurd hdot (by decide)
  rw [Source.text, extractWebhookIP_unbracketed _ (lazyGroup_portText (toList_string_ne_nil _)
    (notMem_string _ rfl) hcolon port), addressText_string]

theorem extractWebhookIP_bracketed (scheme : Scheme) (a : BitVec 128) (port : Option Port) :
    extractWebhookIP (String.ofList (scheme.text ++ (Source.bracketed a port).text)) =
      (Addr.v6 a).unmap.string := by
  have hgroup := lazyGroup_bracketTail (toList_string_ne_nil (Addr.v6 a)) (notMem_string _ rfl)
    (notMem_string _ rfl) port
  have hbody : sourceBody (Source.bracketed a port).text = some (Addr.v6 a).string.toList := by
    rw [Source.text, sourceBody, hgroup]
    rfl
  rw [← addressText_string]
  exact extractWebhookIP_scheme (by decide) (by decide) hbody scheme

/-! ### Addresses without brackets -/

def trailing (a : BitVec 128) : List ℕ :=
  match zeroRun (Addr.groups a) with
  | none => []
  | some (start, length) => (Addr.groups a).drop (start + length)

/- The last group is a number to whoever looks for a port, and what precedes it
is the text of an address. -/
def Source.ambiguous : Source → Bool
  | .bare a => a >>> 32 ≠ 0xffff#128 && 2 ≤ (trailing a).length &&
      (Nat.toDigits 16 ((trailing a).getLastD 0)).all isDigit
  | _ => false

section
variable {g : ℕ} {l r : List ℕ} {q : List Char}

theorem colon_notMem_toDigits : ':' ∉ Nat.toDigits 16 g :=
  fun h => absurd (isHexDigit_toDigits ':' h) (by decide)

theorem lazyGroup_group (hne : q ≠ []) (hline : '\n' ∉ q) :
    lazyGroup portTail (q ++ ':' :: Nat.toDigits 16 g) =
      some (if (Nat.toDigits 16 g).all isDigit then q else q ++ ':' :: Nat.toDigits 16 g) := by
  have hwhole : '\n' ∉ q ++ ':' :: Nat.toDigits 16 g := by
    intro h
    rcases List.mem_append.mp h with h | h
    · exact hline h
    · rcases List.mem_cons.mp h with h | h
      · cases h
      · exact absurd (isHexDigit_toDigits _ h) (by decide)
  have hiff : (Nat.toDigits 16 g ≠ [] ∧ (Nat.toDigits 16 g).all isDigit = true) ↔
      (Nat.toDigits 16 g).all isDigit = true := and_iff_right Nat.toDigits_ne_nil
  rw [lazyGroup_last hne hwhole colon_notMem_toDigits]
  simp only [hiff]

theorem newline_notMem_grouped : '\n' ∉ grouped l :=
  fun h => absurd (isAddrChar_grouped _ h) (by decide)

theorem addressText_grouped (hl : 2 ≤ l.length) (hsmall : ∀ g ∈ l, g < 65536) (hlength : l.length < 8) :
    addressText (grouped l) = "" := by
  have hne : l ≠ [] := List.ne_nil_of_length_pos (by omega)
  have hparse : parseAddr (grouped l) = none := by
    rw [parseAddr_grouped hl, parseIPv6Text_grouped hne hsmall (by omega), if_neg (by omega)]
    rfl
  rw [addressText, netParseIP, hparse]

theorem addressText_trailing (hsmall : ∀ g ∈ l, g < 65536) (hlength : l.length ≤ 8) :
    addressText (grouped l ++ [':']) = "" := by
  have hparse : parseAddr (grouped l ++ [':']) = none := by
    rw [parseAddr_grouped_colon (by simp), parseIPv6Text_trailing hsmall hlength]
    rfl
  rw [addressText, netParseIP, hparse]

theorem addressText_compressed (hl : ∀ g ∈ l, g < 65536) (hr : ∀ g ∈ r, g < 65536)
    (hlength : l.length + r.length < 8) : addressText (compressed l r) =
      (ofGroups (l ++ List.replicate (8 - (l.length + r.length)) 0 ++ r)).unmap.string := by
  rw [addressText, netParseIP, parseAddr_compressed hl hr hlength]

theorem newline_notMem_compressed : '\n' ∉ compressed l r := by
  simp [compressed, newline_notMem_grouped]

theorem eq_of_unmap_eq {a : BitVec 128} {b : Addr} (h : b.unmap = .v6 a) : b = .v6 a := by
  cases b with
  | v4 b => cases h
  | v6 b =>
    rw [Addr.unmap] at h
    split_ifs at h
    exact h

/- Without its last group a compressed address is another one: the zeros of the
ellipsis would have to go on. -/
theorem shortened_ne {n : ℕ} (hr : r ≠ []) (hmaximal : (r ++ [g]).head? ≠ some 0) :
    l ++ List.replicate (n + 1) 0 ++ r ≠ l ++ List.replicate n 0 ++ (r ++ [g]) := by
  intro h
  rw [List.replicate_succ', List.append_assoc, List.append_assoc, List.append_assoc,
    List.append_cancel_left_eq, List.append_cancel_left_eq] at h
  obtain ⟨d, r, rfl⟩ := List.exists_cons_of_ne_nil hr
  have hd : 0 = d := (List.cons.inj h).1
  exact hmaximal (hd ▸ rfl)

end

section
variable {a : BitVec 128} (scheme : Scheme)

theorem extractWebhookIP_bare {candidate : List Char}
    (hgroup : lazyGroup portTail (Addr.v6 a).string.toList = some candidate) :
    extractWebhookIP (String.ofList (scheme.text ++ (Source.bare a).text)) = addressText candidate := by
  rw [← List.append_nil (Addr.v6 a).string.toList] at hgroup
  have hunbracketed := extractWebhookIP_unbracketed (Addr.v6 a) hgroup scheme
  rwa [List.append_nil] at hunbracketed

theorem extractWebhookIP_mapped (hmapped : a >>> 32 = 0xffff#128) :
    extractWebhookIP (String.ofList (scheme.text ++ (Source.bare a).text)) = (Addr.v6 a).unmap.string := by
  have htext : (Addr.v6 a).string.toList =
      "::ffff".toList ++ ':' :: dotted (Addr.octets (a.setWidth 32)) := by
    rw [Addr.string, if_pos hmapped, String.toList_append, toList_string4]
    rfl
  have hcolon : ':' ∉ dotted (Addr.octets (a.setWidth 32)) := by
    intro h
    rcases mem_dotted h with hdigit | hdot
    · exact absurd hdigit (by decide)
    · exact absurd hdot (by decide)
  have hdot : '.' ∈ dotted (Addr.octets (a.setWidth 32)) := by
    rw [Addr.octets, dotted_four]
    simp
  have hgroup : lazyGroup portTail (Addr.v6 a).string.toList = some (Addr.v6 a).string.toList := by
    have hline := notMem_string (Addr.v6 a) (c := '\n') rfl
    rw [htext] at hline ⊢
    rw [lazyGroup_last (by decide) hline hcolon, if_neg]
    rintro ⟨-, hdecimal⟩
    exact absurd (List.all_eq_true.mp hdecimal '.' hdot) (by decide)
  rw [extractWebhookIP_bare scheme hgroup, addressText_string]

theorem extractWebhookIP_uncompressed (hmapped : ¬ a >>> 32 = 0xffff#128)
    (hrun : zeroRun (Addr.groups a) = none) :
    let result := extractWebhookIP (String.ofList (scheme.text ++ (Source.bare a).text))
    result = "" ∨ result = (Addr.v6 a).unmap.string := by
  have hsmall := groups_small a
  have hlength := groups_length a
  have htext : (Addr.v6 a).string.toList = grouped (Addr.groups a) := by
    rw [Addr.string, if_neg hmapped, toList_string6, hrun]
  have hne : Addr.groups a ≠ [] := List.ne_nil_of_length_pos (by omega)
  generalize hgroups : Addr.groups a = groups at hsmall hlength htext hne
  obtain ⟨first, g, rfl⟩ : ∃ first g, groups = first ++ [g] :=
    ⟨_, _, (List.dropLast_append_getLast hne).symm⟩
  rw [List.length_append, List.length_singleton] at hlength
  have hfirst : first ≠ [] := List.ne_nil_of_length_pos (by omega)
  have hsplit := htext.trans (grouped_concat g hfirst)
  have hgroup := lazyGroup_group (g := g) (grouped_ne_nil hfirst) newline_notMem_grouped
  rw [← hsplit] at hgroup
  rw [extractWebhookIP_bare scheme hgroup]
  split_ifs with hdecimal
  · exact .inl (addressText_grouped (by omega) (fun g hg => hsmall g (List.mem_append_left _ hg)) (by omega))
  · exact .inr (addressText_string _)

structure Halves (a : BitVec 128) (l r : List ℕ) (n : ℕ) : Prop where
  groups : l ++ List.replicate n 0 ++ r = Addr.groups a
  text : (Addr.v6 a).string.toList = compressed l r
  trailing : trailing a = r
  long : 2 ≤ n
  maximal : r.head? ≠ some 0

theorem halves_of_zeroRun {start length : ℕ} (hmapped : ¬ a >>> 32 = 0xffff#128)
    (hrun : zeroRun (Addr.groups a) = some (start, length)) :
    Halves a ((Addr.groups a).take start) ((Addr.groups a).drop (start + length)) length where
  groups := (zeroRun_spec hrun).split
  text := by rw [Addr.string, if_neg hmapped, toList_string6, hrun]
  trailing := by rw [trailing, hrun]
  long := (zeroRun_spec hrun).long
  maximal := (zeroRun_spec hrun).maximal

namespace Halves
variable {l r : List ℕ} {g n : ℕ}

theorem small (h : Halves a l r n) : ∀ g ∈ l ++ List.replicate n 0 ++ r, g < 65536 :=
  h.groups ▸ groups_small a

theorem length (h : Halves a l r n) : l.length + n + r.length = 8 := by
  have hlength := congrArg List.length h.groups
  rw [groups_length] at hlength
  simpa [Nat.add_assoc] using hlength

theorem extract_nil (h : Halves a l [] n) :
    extractWebhookIP (String.ofList (scheme.text ++ (Source.bare a).text)) = (Addr.v6 a).unmap.string := by
  have htext : (Addr.v6 a).string.toList = (grouped l ++ [':']) ++ ':' :: [] := by
    rw [h.text, compressed]
    simp
  have hgroup : lazyGroup portTail (Addr.v6 a).string.toList = some (Addr.v6 a).string.toList := by
    have hline := notMem_string (Addr.v6 a) (c := '\n') rfl
    rw [htext] at hline ⊢
    rw [lazyGroup_last (by simp) hline (by simp), if_neg fun hport => hport.1 rfl]
  rw [extractWebhookIP_bare scheme hgroup, addressText_string]

theorem extract_singleton (h : Halves a l [g] n) :
    let result := extractWebhookIP (String.ofList (scheme.text ++ (Source.bare a).text))
    result = "" ∨ result = (Addr.v6 a).unmap.string := by
  have htext : (Addr.v6 a).string.toList = (grouped l ++ [':']) ++ ':' :: Nat.toDigits 16 g := by
    rw [h.text, compressed]
    simp
  have hline : '\n' ∉ grouped l ++ [':'] := by simp [newline_notMem_grouped]
  have hgroup := lazyGroup_group (g := g) (show grouped l ++ [':'] ≠ [] by simp) hline
  have hlength := h.length
  rw [← htext] at hgroup
  rw [extractWebhookIP_bare scheme hgroup]
  split_ifs with hdecimal
  · refine .inl (addressText_trailing (fun g hg => h.small g ?_) (by omega))
    exact List.mem_append_left _ (List.mem_append_left _ hg)
  · exact .inr (addressText_string _)

/- Of several groups the last is taken for a port if it is a number. -/
theorem extract_concat (h : Halves a l (r ++ [g]) n) (hr : r ≠ []) :
    extractWebhookIP (String.ofList (scheme.text ++ (Source.bare a).text)) =
      if (Nat.toDigits 16 g).all isDigit then
        (ofGroups (l ++ List.replicate (n + 1) 0 ++ r)).unmap.string
      else (Addr.v6 a).unmap.string := by
  have htext : (Addr.v6 a).string.toList = compressed l r ++ ':' :: Nat.toDigits 16 g := by
    rw [h.text, compressed, compressed, grouped_concat g hr]
    simp
  have hne : compressed l r ≠ [] := by simp [compressed]
  have hgroup := lazyGroup_group (g := g) hne newline_notMem_compressed
  have hlength := h.length
  rw [List.length_append, List.length_singleton] at hlength
  rw [← htext] at hgroup
  rw [extractWebhookIP_bare scheme hgroup]
  split_ifs with hdecimal
  · have hzeros : 8 - (l.length + r.length) = n + 1 := by omega
    rw [addressText_compressed (fun g hg => h.small g (List.mem_append_left _ (List.mem_append_left _ hg)))
      (fun g hg => h.small g (List.mem_append_right _ (List.mem_append_left _ hg))) (by omega), hzeros]
  · exact addressText_string _

theorem shortened_unmap_ne (h : Halves a l (r ++ [g]) n) (hr : r ≠ []) (hmapped : ¬ a >>> 32 = 0xffff#128) :
    (ofGroups (l ++ List.replicate (n + 1) 0 ++ r)).unmap ≠ (Addr.v6 a).unmap := by
  intro heq
  have hself : (Addr.v6 a).unmap = .v6 a := if_neg hmapped
  rw [hself] at heq
  have haddress := eq_of_unmap_eq heq
  rw [← ofGroups_groups, ← h.groups] at haddress
  have hlength := h.length
  rw [List.length_append, List.length_singleton] at hlength
  refine shortened_ne hr h.maximal (ofGroups_injective ?_ ?_ ?_ h.small haddress)
  · simp only [List.length_append, List.length_replicate]
    omega
  · simp only [List.length_append, List.length_replicate, List.length_singleton]
    omega
  · intro d hd
    simp only [List.mem_append, List.mem_replicate] at hd
    rcases hd with (hd | ⟨-, rfl⟩) | hd
    · exact h.small d (List.mem_append_left _ (List.mem_append_left _ hd))
    · decide
    · exact h.small d (List.mem_append_right _ (List.mem_append_left _ hd))

end Halves

theorem ambiguous_bare (hmapped : ¬ a >>> 32 = 0xffff#128) : (Source.bare a).ambiguous =
    (decide (2 ≤ (trailing a).length) && (Nat.toDigits 16 ((trailing a).getLastD 0)).all isDigit) := by
  simp [Source.ambiguous, hmapped]

/- The result names the address or nothing, unless the source is ambiguous. -/
theorem extractWebhookIP_bare_iff {result : String}
    (hresult : result = extractWebhookIP (String.ofList (scheme.text ++ (Source.bare a).text))) :
    (result = "" ∨ result = (Addr.v6 a).unmap.string) ↔ (Source.bare a).ambiguous = false := by
  subst hresult
  by_cases hmapped : a >>> 32 = 0xffff#128
  · have hfalse : (Source.bare a).ambiguous = false := by simp [Source.ambiguous, hmapped]
    exact iff_of_true (.inr (extractWebhookIP_mapped scheme hmapped)) hfalse
  · cases hrun : zeroRun (Addr.groups a) with
    | none =>
      have hfalse : (Source.bare a).ambiguous = false := by
        rw [ambiguous_bare hmapped, trailing, hrun]
        rfl
      exact iff_of_true (extractWebhookIP_uncompressed scheme hmapped hrun) hfalse
    | some run =>
      have halves := halves_of_zeroRun hmapped hrun
      generalize (Addr.groups a).take run.1 = l at halves
      generalize (Addr.groups a).drop (run.1 + run.2) = r at halves
      rw [ambiguous_bare hmapped, halves.trailing]
      induction r using List.reverseRecOn with
      | nil => exact iff_of_true (.inr (halves.extract_nil scheme)) rfl
      | append_singleton r g =>
        by_cases hr : r = []
        · subst hr
          exact iff_of_true (halves.extract_singleton scheme) rfl
        · have hpositive := List.length_pos_iff.mpr hr
          have hlong : 2 ≤ (r ++ [g]).length := by
            rw [List.length_append, List.length_singleton]
            omega
          have hlast : (r ++ [g]).getLastD 0 = g := by simp
          rw [halves.extract_concat scheme hr, hlast, decide_eq_true hlong, Bool.true_and]
          by_cases hdecimal : (Nat.toDigits 16 g).all isDigit = true
          · rw [if_pos hdecimal, hdecimal]
            refine iff_of_false (not_or.mpr ⟨string_ne_empty _, fun heq => ?_⟩) (by decide)
            exact halves.shortened_unmap_ne hr hmapped (string_injective heq)
          · rw [if_neg hdecimal]
            exact iff_of_true (.inr rfl) (Bool.not_eq_true _ ▸ hdecimal)

end

/-! ### What the torrent blocker does -/

/- A script blocks this address and no other. -/
def BlocksOnly (c : Codec) (ip : String) : Op → Prop
  | .script script => ∃ duration, renderNFTBlock c [⟨ip, some duration⟩] = .ok script
  | _ => True

section
variable {c : Codec} {ip email : String} {snapshot : PluginSnapshot} {payload : WebhookPayload}

theorem makes_perform {P : Op → Prop} {op : Op} (h : P op) :
    (Program.perform op : PluginM _).Makes P :=
  ⟨h, fun _ => trivial⟩

theorem makes_setNft {P : Op → Prop} {f : NftManager → NftManager} (hload : P .load)
    (hstore : ∀ service, P (.store service)) : (setNft f).Makes P := by
  refine (makes_perform hload).bind fun service => ?_
  exact makes_perform (hstore _)

theorem makes_degradeUnlessAvailable {desired : Option PluginSnapshot} :
    (degradeUnlessAvailable desired).Makes (BlocksOnly c ip) := by
  refine (makes_perform trivial).bind fun service => ?_
  split_ifs
  · trivial
  · exact (makes_perform trivial).bind fun service => makes_perform trivial

theorem makes_blockIPs {duration : ℚ} :
    (Nft.blockIPs c [⟨ip, some duration⟩]).Makes (BlocksOnly c ip) := by
  refine (makes_perform trivial).bind fun service => ?_
  cases service.nft with
  | none => trivial
  | some m =>
    dsimp only
    split_ifs
    · trivial
    · cases hscript : renderNFTBlock c [⟨ip, some duration⟩] with
      | error message => trivial
      | ok script =>
        dsimp only
        split_ifs
        · trivial
        · refine (makes_perform ⟨duration, hscript⟩).bind fun answer => ?_
          cases answer with
          | none => trivial
          | some error => exact (makes_setNft trivial fun _ => trivial).bind fun _ => trivial

theorem makes_blockAndReport : (blockAndReport c snapshot payload ip email).Makes (BlocksOnly c ip) := by
  refine Program.Makes.bind ?_ fun blocked => ?_
  · refine (makes_perform trivial).bind fun service => ?_
    split_ifs
    · trivial
    · refine makes_blockIPs.bind fun answer => ?_
      cases answer with
      | none => trivial
      | some error => exact makes_degradeUnlessAvailable.bind fun _ => trivial
  · exact (makes_perform trivial).bind fun service => makes_perform trivial

theorem makes_processXrayWebhook {source : String} (hsource : payload.source = some source)
    (hip : extractWebhookIP source = "" ∨ extractWebhookIP source = ip) :
    (processXrayWebhook c payload).Makes (BlocksOnly c ip) := by
  refine (makes_perform trivial).bind fun service => ?_
  split_ifs
  · trivial
  · rw [hsource]
    split
    · rename_i snapshot email source' _ _ heq
      obtain rfl := Option.some.inj heq
      dsimp only
      split_ifs with hignored
      · trivial
      · rcases hip with hempty | rfl
        · simp [hempty] at hignored
        · exact makes_blockAndReport
    · trivial

end

def Source.isBare : Source → Bool
  | .bare _ => true
  | _ => false

def sourceText (scheme : Scheme) (source : Source) : String := String.ofList (scheme.text ++ source.text)

/- The address that is found in the source is the one that it names, and it is
found unless an IPv6 address stands without brackets. No other address is
blocked for it. -/
structure Attributed (scheme : Scheme) (source : Source) : Prop where
  named : extractWebhookIP (sourceText scheme source) = "" ∨
    extractWebhookIP (sourceText scheme source) = source.address.unmap.string
  found : source.isBare = false →
    extractWebhookIP (sourceText scheme source) = source.address.unmap.string
  blocked : ∀ (c : Codec) (payload : WebhookPayload), payload.source = some (sourceText scheme source) →
    (processXrayWebhook c payload).Makes (BlocksOnly c source.address.unmap.string)

theorem Attributed.of_eq {scheme : Scheme} {source : Source}
    (h : extractWebhookIP (sourceText scheme source) = source.address.unmap.string) :
    Attributed scheme source :=
  ⟨.inr h, fun _ => h, fun _ _ hsource => makes_processXrayWebhook hsource (.inr h)⟩

/-- An address is attributed to its source in every form but one: without
brackets, with an ellipsis and two or more groups after it, the last of which has
no letter. -/
theorem attributed_iff (scheme : Scheme) (source : Source) :
    Attributed scheme source ↔ source.ambiguous = false := by
  cases source with
  | ipv4 a port => exact iff_of_true (.of_eq (extractWebhookIP_ipv4 scheme a port)) rfl
  | bracketed a port => exact iff_of_true (.of_eq (extractWebhookIP_bracketed scheme a port)) rfl
  | bare a =>
    have hnamed := extractWebhookIP_bare_iff (a := a) scheme rfl
    constructor
    · intro h
      exact hnamed.mp h.named
    · intro h
      refine ⟨hnamed.mpr h, nofun, fun c payload hsource => ?_⟩
      exact makes_processXrayWebhook hsource (hnamed.mpr h)

theorem bare_address_shortened :
    sourceText .missing (.bare 0x20010db8000000000000000000010002#128) = "2001:db8::1:2" ∧
      extractWebhookIP "2001:db8::1:2" = "2001:db8::1" ∧
      ¬ Attributed .missing (.bare 0x20010db8000000000000000000010002#128) := by
  have htext : sourceText .missing (.bare 0x20010db8000000000000000000010002#128) = "2001:db8::1:2" := by
    decide +kernel
  have hresult : extractWebhookIP "2001:db8::1:2" = "2001:db8::1" := by decide +kernel
  refine ⟨htext, hresult, fun h => ?_⟩
  have hnamed := h.named
  rw [htext, hresult] at hnamed
  exact absurd hnamed (by decide +kernel)

end RemnanodeLite.Plugin
