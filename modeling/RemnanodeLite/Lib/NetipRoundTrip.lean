import RemnanodeLite.Lib.NetipText

/-! # What is written of an address is read as it

The text of every address is accepted by `ParseAddr`, which gives the address
back. The groups of an IPv6 address are read with and without an ellipsis, in
texts that need not be canonical. -/

namespace Netip

/-! ### Numbers -/

section
variable {base : ℕ} {val : Char → ℕ} {p : Char → Bool}

theorem fromDigits_append (base : ℕ) (digits : List ℕ) (d : ℕ) :
    fromDigits base (digits ++ [d]) = fromDigits base digits * base + d := by
  simp [fromDigits]

theorem fromDigits_toDigits (hbase : 1 < base) (hval : ∀ d < base, val (Nat.digitChar d) = d) (n : ℕ) :
    fromDigits base ((Nat.toDigits base n).map val) = n := by
  induction n using Nat.strong_induction_on with
  | _ n ih =>
    by_cases hn : n < base
    · rw [Nat.toDigits_of_lt_base hn]
      simp [fromDigits, hval n hn]
    · have hle : base ≤ n := Nat.le_of_not_lt hn
      have hsmaller : n / base < n := Nat.div_lt_self (by omega) hbase
      rw [Nat.toDigits_of_base_le hbase hle, List.map_append, List.map_singleton, fromDigits_append,
        ih _ hsmaller, hval _ (Nat.mod_lt n (by omega)), Nat.div_add_mod']

theorem toDigits_all (hbase : 1 < base) (hp : ∀ d < base, p (Nat.digitChar d) = true) (n : ℕ) :
    ∀ c ∈ Nat.toDigits base n, p c = true := by
  induction n using Nat.strong_induction_on with
  | _ n ih =>
    intro c hc
    by_cases hn : n < base
    · rw [Nat.toDigits_of_lt_base hn, List.mem_singleton] at hc
      exact hc ▸ hp n hn
    · have hle : base ≤ n := Nat.le_of_not_lt hn
      rw [Nat.toDigits_of_base_le hbase hle, List.mem_append, List.mem_singleton] at hc
      rcases hc with hc | hc
      · exact ih _ (Nat.div_lt_self (by omega) hbase) c hc
      · exact hc ▸ hp _ (Nat.mod_lt n (by omega))

theorem hexVal_digitChar : ∀ d < 16, hexVal (Nat.digitChar d) = d := by decide

theorem digitVal_digitChar : ∀ d < 10, digitVal (Nat.digitChar d) = d := by decide

theorem isHexDigit_digitChar : ∀ d < 16, isHexDigit (Nat.digitChar d) = true := by decide

theorem isDigit_digitChar : ∀ d < 10, isDigit (Nat.digitChar d) = true := by decide

theorem isHexDigit_toDigits {n : ℕ} : ∀ c ∈ Nat.toDigits 16 n, isHexDigit c = true :=
  toDigits_all (by decide) isHexDigit_digitChar n

theorem isDigit_toDigits {n : ℕ} : ∀ c ∈ Nat.toDigits 10 n, isDigit c = true :=
  toDigits_all (by decide) isDigit_digitChar n

end

/-! ### Four octets -/

/- `a.b.c.d`. -/
def dotted (octets : List ℕ) : List Char := ['.'].intercalate (octets.map (Nat.toDigits 10))

theorem toDigits_ten_cases {n : ℕ} (h : n < 256) :
    (n < 10 ∧ Nat.toDigits 10 n = [Nat.digitChar n]) ∨
      (10 ≤ n ∧ n < 100 ∧ Nat.toDigits 10 n = [Nat.digitChar (n / 10), Nat.digitChar (n % 10)]) ∨
      (100 ≤ n ∧ Nat.toDigits 10 n =
        [Nat.digitChar (n / 100), Nat.digitChar (n / 10 % 10), Nat.digitChar (n % 10)]) := by
  by_cases h10 : n < 10
  · exact .inl ⟨h10, Nat.toDigits_of_lt_base h10⟩
  · by_cases h100 : n < 100
    · refine .inr (.inl ⟨by omega, h100, ?_⟩)
      rw [Nat.toDigits_of_base_le (by decide) (by omega), Nat.toDigits_of_lt_base (by omega)]
      rfl
    · refine .inr (.inr ⟨by omega, ?_⟩)
      have hdiv : n / 10 / 10 = n / 100 := by omega
      rw [Nat.toDigits_of_base_le (by decide) (by omega),
        Nat.toDigits_of_base_le (by decide) (by omega), Nat.toDigits_of_lt_base (by omega), hdiv]
      rfl

theorem parseIPv4Fields_octet {n : ℕ} (h : n < 256) (rest : List Char) (fields : List ℕ) :
    parseIPv4Fields (Nat.toDigits 10 n ++ rest) fields 0 0 =
      parseIPv4Fields rest fields n (Nat.toDigits 10 n).length := by
  rcases toDigits_ten_cases h with ⟨hlt, heq⟩ | ⟨hge, hlt, heq⟩ | ⟨hge, heq⟩
  · rw [heq]
    simp only [List.cons_append, List.nil_append, parseIPv4Fields, isDigit_digitChar n hlt,
      digitVal_digitChar n hlt]
    simp [show ¬ 255 < n by omega]
  · have h1 : n / 10 < 10 := by omega
    have h0 : n % 10 < 10 := by omega
    have hvalue : n / 10 * 10 + n % 10 = n := by omega
    have hpositive : n / 10 ≠ 0 := by omega
    rw [heq]
    simp only [List.cons_append, List.nil_append, parseIPv4Fields, isDigit_digitChar _ h1,
      digitVal_digitChar _ h1, isDigit_digitChar _ h0, digitVal_digitChar _ h0]
    simp [hvalue, hpositive, show ¬ 255 < n / 10 by omega, show ¬ 255 < n by omega]
  · have h2 : n / 100 < 10 := by omega
    have h1 : n / 10 % 10 < 10 := by omega
    have h0 : n % 10 < 10 := by omega
    have hfirst : n / 100 * 10 + n / 10 % 10 = n / 10 := by omega
    have hvalue : n / 10 * 10 + n % 10 = n := by omega
    have hpositive : n / 100 ≠ 0 := by omega
    rw [heq]
    simp only [List.cons_append, List.nil_append, parseIPv4Fields, isDigit_digitChar _ h2,
      digitVal_digitChar _ h2, isDigit_digitChar _ h1, digitVal_digitChar _ h1,
      isDigit_digitChar _ h0, digitVal_digitChar _ h0]
    simp [hfirst, hvalue, hpositive, show ¬ 255 < n / 100 by omega, show ¬ 255 < n / 10 by omega,
      show ¬ 255 < n by omega]

theorem parseIPv4Fields_dot {rest : List Char} {fields : List ℕ} {val digLen : ℕ} (hlen : digLen ≠ 0)
    (hrest : rest ≠ []) (hfields : fields.length < 3) :
    parseIPv4Fields ('.' :: rest) fields val digLen = parseIPv4Fields rest (fields ++ [val]) 0 0 := by
  have hdot : isDigit '.' = false := by decide
  rw [parseIPv4Fields]
  simp [hdot, hlen, hrest, show ¬ fields.length = 3 by omega]

theorem dotted_four (a b c d : ℕ) : dotted [a, b, c, d] =
    Nat.toDigits 10 a ++ '.' :: (Nat.toDigits 10 b ++ '.' :: (Nat.toDigits 10 c ++
      '.' :: Nat.toDigits 10 d)) := by
  simp [dotted, List.intercalate]

theorem mem_dotted {octets : List ℕ} {c : Char} (h : c ∈ dotted octets) : isDigit c = true ∨ c = '.' := by
  induction octets with
  | nil => simp [dotted] at h
  | cons o octets ih =>
    cases octets with
    | nil =>
      have hdigit : c ∈ Nat.toDigits 10 o := by simpa [dotted, List.intercalate] using h
      exact .inl (isDigit_toDigits c hdigit)
    | cons o' octets =>
      have hsplit : c ∈ Nat.toDigits 10 o ∨ c = '.' ∨ c ∈ dotted (o' :: octets) := by
        simpa [dotted, List.intercalate] using h
      rcases hsplit with hdigit | hdot | hrest
      · exact .inl (isDigit_toDigits c hdigit)
      · exact .inr hdot
      · exact ih hrest

theorem parseIPv4Fields_dotted {a b c d : ℕ} (ha : a < 256) (hb : b < 256) (hc : c < 256)
    (hd : d < 256) : parseIPv4Fields (dotted [a, b, c, d]) [] 0 0 = some [a, b, c, d] := by
  have hlen : ∀ n, (Nat.toDigits 10 n).length ≠ 0 := fun n =>
    Nat.pos_iff_ne_zero.mp (Nat.length_toDigits_pos)
  have hend := parseIPv4Fields_octet hd [] [a, b, c]
  rw [List.append_nil] at hend
  rw [dotted_four, parseIPv4Fields_octet ha, parseIPv4Fields_dot (hlen a) (by simp) (by simp),
    parseIPv4Fields_octet hb, parseIPv4Fields_dot (hlen b) (by simp) (by simp),
    parseIPv4Fields_octet hc, parseIPv4Fields_dot (hlen c) (by simp) (by simp)]
  simpa [parseIPv4Fields] using hend

/-! ### Groups -/

/- `a:b:c`. -/
def grouped (groups : List ℕ) : List Char := [':'].intercalate (groups.map (Nat.toDigits 16))

section
variable {g fuel : ℕ} {gs groups : List ℕ} {ellipsis : Option ℕ} {rest : List Char}

@[simp] theorem grouped_nil : grouped [] = [] := rfl

@[simp] theorem grouped_singleton (g : ℕ) : grouped [g] = Nat.toDigits 16 g := by
  simp [grouped, List.intercalate]

theorem grouped_cons (g : ℕ) (hgs : gs ≠ []) :
    grouped (g :: gs) = Nat.toDigits 16 g ++ ':' :: grouped gs := by
  obtain ⟨h, t, rfl⟩ := List.exists_cons_of_ne_nil hgs
  simp [grouped, List.intercalate]

theorem grouped_concat (g : ℕ) (hgs : gs ≠ []) :
    grouped (gs ++ [g]) = grouped gs ++ ':' :: Nat.toDigits 16 g := by
  induction gs with
  | nil => exact absurd rfl hgs
  | cons h t ih =>
    by_cases ht : t = []
    · subst ht
      rw [List.cons_append, List.nil_append, grouped_cons h (List.cons_ne_nil g []),
        grouped_singleton, grouped_singleton]
    · rw [List.cons_append, grouped_cons h (by simp), ih ht, grouped_cons h ht]
      simp

theorem grouped_ne_nil (hgs : gs ≠ []) : grouped gs ≠ [] := by
  obtain ⟨h, t, rfl⟩ := List.exists_cons_of_ne_nil hgs
  by_cases ht : t = []
  · subst ht
    simp
  · rw [grouped_cons h ht]
    simp

theorem grouped_head (hgs : gs ≠ []) : ∃ c s, grouped gs = c :: s ∧ isHexDigit c = true := by
  obtain ⟨h, t, rfl⟩ := List.exists_cons_of_ne_nil hgs
  obtain ⟨c, s, hdigits⟩ := List.exists_cons_of_ne_nil (show Nat.toDigits 16 h ≠ [] from Nat.toDigits_ne_nil)
  have hhex : isHexDigit c = true := isHexDigit_toDigits (n := h) c (hdigits ▸ List.mem_cons_self)
  by_cases ht : t = []
  · subst ht
    exact ⟨c, s, by rw [grouped_singleton, hdigits], hhex⟩
  · exact ⟨c, s ++ ':' :: grouped t, by rw [grouped_cons h ht, hdigits, List.cons_append], hhex⟩

theorem length_toDigits_group (hg : g < 65536) : (Nat.toDigits 16 g).length ≤ 4 :=
  (Nat.length_toDigits_le_iff (by decide) (by decide)).mpr (by simpa using hg)

theorem takeWhile_group (g : ℕ) (rest : List Char) (hrest : rest.head?.all fun c => !isHexDigit c) :
    (Nat.toDigits 16 g ++ rest).takeWhile isHexDigit = Nat.toDigits 16 g := by
  rw [List.takeWhile_append_of_pos isHexDigit_toDigits]
  cases rest with
  | nil => simp
  | cons c rest => simp_all

theorem dropWhile_group (g : ℕ) (rest : List Char) (hrest : rest.head?.all fun c => !isHexDigit c) :
    (Nat.toDigits 16 g ++ rest).dropWhile isHexDigit = rest := by
  rw [List.dropWhile_append_of_pos isHexDigit_toDigits]
  cases rest with
  | nil => simp
  | cons c rest => simp_all

theorem parseIPv6Groups_last (hg : g < 65536) :
    parseIPv6Groups (fuel + 1) (Nat.toDigits 16 g) groups ellipsis =
      some (groups ++ [g], ellipsis, []) := by
  have htake := takeWhile_group g [] rfl
  have hdrop := dropWhile_group g [] rfl
  rw [List.append_nil] at htake hdrop
  have hlen := length_toDigits_group hg
  have hvalue := fromDigits_toDigits (by decide) hexVal_digitChar g
  rw [parseIPv6Groups]
  simp [htake, hdrop, hvalue, show ¬ 4 < (Nat.toDigits 16 g).length by omega]

theorem parseIPv6Groups_colon (hg : g < 65536) :
    parseIPv6Groups (fuel + 1) (Nat.toDigits 16 g ++ ':' :: rest) groups ellipsis =
      match rest with
      | [] => none
      | d :: rest' =>
        if d = ':' then
          if ellipsis.isSome then none
          else if rest'.isEmpty then some (groups ++ [g], some (groups.length + 1), [])
          else parseIPv6Groups fuel rest' (groups ++ [g]) (some (groups.length + 1))
        else parseIPv6Groups fuel (d :: rest') (groups ++ [g]) ellipsis := by
  have htake := takeWhile_group g (':' :: rest) rfl
  have hdrop := dropWhile_group g (':' :: rest) rfl
  have hlen := length_toDigits_group hg
  have hvalue := fromDigits_toDigits (by decide) hexVal_digitChar g
  have hshort : ¬ 4 < (Nat.toDigits 16 g).length := by omega
  rw [parseIPv6Groups]
  simp only [htake, hdrop, hvalue, if_neg hshort, List.isEmpty_iff, Nat.toDigits_ne_nil, if_false]
  rewrite [if_neg (show ¬ ':' = '.' by decide), if_neg (show ¬ (':' ≠ ':') from fun h => h rfl)]
  rfl

theorem parseIPv6Groups_next (hg : g < 65536) (hgs : gs ≠ []) (rest : List Char) :
    parseIPv6Groups (fuel + 1) (grouped (g :: gs) ++ rest) groups ellipsis =
      parseIPv6Groups fuel (grouped gs ++ rest) (groups ++ [g]) ellipsis := by
  obtain ⟨c, s, hs, hhex⟩ := grouped_head hgs
  have hc : c ≠ ':' := by
    rintro rfl
    exact absurd hhex (by decide)
  rw [grouped_cons g hgs, hs, List.append_assoc, List.cons_append, List.cons_append,
    parseIPv6Groups_colon hg]
  simp only [if_neg hc]

/- All groups but the last are read, whatever follows the last. -/
theorem parseIPv6Groups_init (hsmall : ∀ h ∈ gs, h < 65536) (hfuel : (gs ++ [g]).length ≤ fuel)
    (rest : List Char) : parseIPv6Groups fuel (grouped (gs ++ [g]) ++ rest) groups ellipsis =
      parseIPv6Groups (fuel - (gs ++ [g]).length + 1) (Nat.toDigits 16 g ++ rest) (groups ++ gs)
        ellipsis := by
  induction gs generalizing fuel groups with
  | nil =>
    rw [List.nil_append, grouped_singleton, List.append_nil, List.length_singleton,
      Nat.sub_add_cancel (show 1 ≤ fuel from hfuel)]
  | cons h gs ih =>
    obtain ⟨fuel, rfl⟩ := Nat.exists_eq_add_one_of_ne_zero (Nat.ne_zero_of_lt hfuel)
    rw [List.cons_append, parseIPv6Groups_next (hsmall h List.mem_cons_self) (by simp),
      ih (fun h' hh' => hsmall h' (List.mem_cons_of_mem _ hh')) (by simpa using hfuel)]
    simp

theorem exists_init (hgs : gs ≠ []) (hsmall : ∀ h ∈ gs, h < 65536) :
    ∃ l g, gs = l ++ [g] ∧ (∀ h ∈ l, h < 65536) ∧ g < 65536 := by
  obtain ⟨l, g, rfl⟩ := (List.eq_nil_or_concat' gs).resolve_left hgs
  exact ⟨l, g, rfl, fun h hh => hsmall h (List.mem_append_left _ hh), hsmall g (by simp)⟩

theorem parseIPv6Groups_grouped (hgs : gs ≠ []) (hsmall : ∀ g ∈ gs, g < 65536)
    (hfuel : gs.length ≤ fuel) :
    parseIPv6Groups fuel (grouped gs) groups ellipsis = some (groups ++ gs, ellipsis, []) := by
  obtain ⟨l, g, rfl, hl, hg⟩ := exists_init hgs hsmall
  rw [← List.append_nil (grouped _), parseIPv6Groups_init hl hfuel,
    List.append_nil, parseIPv6Groups_last hg, List.append_assoc]

theorem parseIPv6Groups_before (hgs : gs ≠ []) (hsmall : ∀ g ∈ gs, g < 65536)
    (hfuel : gs.length ≤ fuel) (rest : List Char) :
    parseIPv6Groups fuel (grouped gs ++ ':' :: ':' :: rest) groups none =
      if rest = [] then some (groups ++ gs, some (groups.length + gs.length), [])
      else parseIPv6Groups (fuel - gs.length) rest (groups ++ gs) (some (groups.length + gs.length)) := by
  obtain ⟨l, g, rfl, hl, hg⟩ := exists_init hgs hsmall
  rw [parseIPv6Groups_init hl hfuel, parseIPv6Groups_colon hg]
  simp [Nat.add_assoc]

theorem parseIPv6Groups_trailing (hgs : gs ≠ []) (hsmall : ∀ g ∈ gs, g < 65536)
    (hfuel : gs.length ≤ fuel) :
    parseIPv6Groups fuel (grouped gs ++ [':']) groups ellipsis = none := by
  obtain ⟨l, g, rfl, hl, hg⟩ := exists_init hgs hsmall
  rw [parseIPv6Groups_init hl hfuel, parseIPv6Groups_colon hg]

end

/-! ### Texts of IPv6 addresses -/

def ofGroups (groups : List ℕ) : Addr := .v6 (BitVec.ofNat 128 (fromDigits 65536 groups))

/- `l::r`. -/
def compressed (l r : List ℕ) : List Char := grouped l ++ ':' :: ':' :: grouped r

section
variable {gs l r : List ℕ} {c : Char} {s : List Char}

theorem parseIPv6Text_cons (hc : c ≠ ':') : parseIPv6Text (c :: s) =
    ((parseIPv6Groups 8 (c :: s) [] none).bind expandEllipsis).map ofGroups := by
  unfold parseIPv6Text
  split
  · rename_i heq
    exact absurd (List.cons.inj heq).1 hc
  · rename_i heq
    exact absurd (List.cons.inj heq).1 hc
  · rfl

theorem parseIPv6Text_ellipsis (hs : s ≠ []) : parseIPv6Text (':' :: ':' :: s) =
    ((parseIPv6Groups 8 s [] (some 0)).bind expandEllipsis).map ofGroups := by
  obtain ⟨c, s, rfl⟩ := List.exists_cons_of_ne_nil hs
  rfl

theorem parseIPv6Text_grouped_append (hgs : gs ≠ []) (s : List Char) :
    parseIPv6Text (grouped gs ++ s) =
      ((parseIPv6Groups 8 (grouped gs ++ s) [] none).bind expandEllipsis).map ofGroups := by
  obtain ⟨c, t, ht, hhex⟩ := grouped_head hgs
  have hc : c ≠ ':' := by
    rintro rfl
    exact absurd hhex (by decide)
  rw [ht, List.cons_append]
  exact parseIPv6Text_cons hc

theorem parseIPv6Text_grouped (hgs : gs ≠ []) (hsmall : ∀ g ∈ gs, g < 65536) (hlength : gs.length ≤ 8) :
    parseIPv6Text (grouped gs) = if gs.length = 8 then some (ofGroups gs) else none := by
  have hparse := parseIPv6Text_grouped_append hgs []
  rw [List.append_nil] at hparse
  rw [hparse, parseIPv6Groups_grouped hgs hsmall hlength]
  by_cases height : gs.length = 8
  · simp [expandEllipsis, height]
  · simp [expandEllipsis, height, show gs.length < 8 by omega]

theorem parseIPv6Text_compressed (hl : ∀ g ∈ l, g < 65536) (hr : ∀ g ∈ r, g < 65536)
    (hlength : l.length + r.length < 8) :
    parseIPv6Text (compressed l r) =
      some (ofGroups (l ++ List.replicate (8 - (l.length + r.length)) 0 ++ r)) := by
  unfold compressed
  by_cases hleft : l = []
  · subst hleft
    rw [grouped_nil, List.nil_append]
    by_cases hright : r = []
    · subst hright
      rfl
    · rw [parseIPv6Text_ellipsis (grouped_ne_nil hright), parseIPv6Groups_grouped hright hr (by simp at hlength; omega)]
      have hshort : r.length < 8 := by simpa using hlength
      simp [expandEllipsis, hshort]
  · rw [parseIPv6Text_grouped_append hleft, parseIPv6Groups_before hleft hl (by omega)]
    by_cases hright : r = []
    · subst hright
      have hshort : l.length < 8 := by simpa using hlength
      simp [expandEllipsis, hshort]
    · rw [if_neg (grouped_ne_nil hright), parseIPv6Groups_grouped hright hr (by omega)]
      simp [expandEllipsis, hlength]

theorem parseIPv6Text_trailing (hl : ∀ g ∈ l, g < 65536) (hlength : l.length ≤ 8) :
    parseIPv6Text (grouped l ++ [':']) = none := by
  by_cases hleft : l = []
  · subst hleft
    rfl
  · rw [parseIPv6Text_grouped_append hleft, parseIPv6Groups_trailing hleft hl hlength]
    rfl

/- The last four octets may be written with dots. -/
theorem parseIPv6Text_mapped {a b c d : ℕ} (ha : a < 256) (hb : b < 256) (hc : c < 256) (hd : d < 256) :
    parseIPv6Text ("::ffff:".toList ++ dotted [a, b, c, d]) =
      some (ofGroups [0, 0, 0, 0, 0, 65535, a * 256 + b, c * 256 + d]) := by
  have hspelled : "::ffff:".toList ++ dotted [a, b, c, d] =
      ':' :: ':' :: (Nat.toDigits 16 65535 ++ ':' :: dotted [a, b, c, d]) := rfl
  obtain ⟨first, rest, hfirst⟩ := List.exists_cons_of_ne_nil (show Nat.toDigits 10 a ≠ [] from
    Nat.toDigits_ne_nil)
  have hdigit : isDigit first = true := isDigit_toDigits first (hfirst ▸ List.mem_cons_self)
  have hcolon : first ≠ ':' := by
    rintro rfl
    exact absurd hdigit (by decide)
  have hhex : ∀ c ∈ Nat.toDigits 10 a, isHexDigit c = true := fun c hc => by
    simp [isHexDigit, isDigit_toDigits c hc]
  have hshort : (Nat.toDigits 10 a).length ≤ 4 :=
    (Nat.length_toDigits_le_iff (by decide) (by decide)).mpr (by omega)
  have htake : (dotted [a, b, c, d]).takeWhile isHexDigit = Nat.toDigits 10 a := by
    rw [dotted_four, List.takeWhile_append_of_pos hhex]
    simp [show isHexDigit '.' = false by decide]
  have hdrop : ∃ tail, (dotted [a, b, c, d]).dropWhile isHexDigit = '.' :: tail := by
    rw [dotted_four, List.dropWhile_append_of_pos hhex]
    exact ⟨_, List.dropWhile_cons_of_neg (by decide)⟩
  obtain ⟨tail, hdrop⟩ := hdrop
  have hfields := parseIPv4Fields_dotted ha hb hc hd
  have hstart : dotted [a, b, c, d] = first :: (rest ++ '.' :: (Nat.toDigits 10 b ++ '.' ::
      (Nat.toDigits 10 c ++ '.' :: Nat.toDigits 10 d))) := by
    rw [dotted_four, hfirst, List.cons_append]
  have hoctets : parseIPv6Groups 7 (dotted [a, b, c, d]) [65535] (some 0) =
      some ([65535, a * 256 + b, c * 256 + d], some 0, []) := by
    rw [parseIPv6Groups]
    simp [htake, hdrop, hfields, fromDigits, show ¬ 4 < (Nat.toDigits 10 a).length by omega]
  rw [hspelled, parseIPv6Text_ellipsis (by simp), parseIPv6Groups_colon (by decide), hstart]
  simp only [if_neg hcolon]
  rw [← hstart, List.nil_append, hoctets]
  rfl

end

/-! ### Addresses and their groups -/

theorem groups_small (a : BitVec 128) : ∀ g ∈ Addr.groups a, g < 65536 := by
  intro g hg
  obtain ⟨i, -, rfl⟩ := List.mem_map.mp hg
  exact Nat.mod_lt _ (by decide)

theorem groups_length (a : BitVec 128) : (Addr.groups a).length = 8 := by simp [Addr.groups]

theorem ofGroups_groups (a : BitVec 128) : ofGroups (Addr.groups a) = .v6 a := by
  have hlt := a.isLt
  have hsum : fromDigits 65536 (Addr.groups a) = a.toNat := by
    simp [Addr.groups, List.range, List.range.loop, fromDigits, BitVec.toNat_ushiftRight,
      Nat.shiftRight_eq_div_pow]
    omega
  rw [ofGroups, hsum, BitVec.ofNat_toNat, BitVec.setWidth_eq]

theorem fromDigits_octets (a : BitVec 32) : fromDigits 256 (Addr.octets a) = a.toNat := by
  have hlt := a.isLt
  simp [Addr.octets, fromDigits, BitVec.toNat_ushiftRight, Nat.shiftRight_eq_div_pow]
  omega

/-! ### The ellipsis -/

/- The run is made of zeros, no zero follows it, and it is worth an ellipsis. -/
structure ZeroRun (groups : List ℕ) (start length : ℕ) : Prop where
  long : 2 ≤ length
  within : start + length ≤ groups.length
  zeros : (groups.drop start).take length = List.replicate length 0
  maximal : (groups.drop (start + length)).head? ≠ some 0

theorem zeroRun_takeWhile {groups : List ℕ} {i : ℕ} (hi : i < groups.length)
    (h : 2 ≤ ((groups.drop i).takeWhile (· = 0)).length) :
    ZeroRun groups i ((groups.drop i).takeWhile (· = 0)).length := by
  have happend := List.takeWhile_append_dropWhile (p := (· = 0)) (l := groups.drop i)
  have hlength := congrArg List.length happend
  rw [List.length_append, List.length_drop] at hlength
  refine ⟨h, by omega, ?_, ?_⟩
  · have htake : (groups.drop i).take ((groups.drop i).takeWhile (· = 0)).length =
        (groups.drop i).takeWhile (· = 0) :=
      (List.prefix_iff_eq_take.mp (List.takeWhile_prefix _)).symm
    rw [htake]
    refine List.eq_replicate_iff.mpr ⟨rfl, fun g hg => ?_⟩
    simpa using List.all_eq_true.mp List.all_takeWhile g hg
  · have hdrop : groups.drop (i + ((groups.drop i).takeWhile (· = 0)).length) =
        (groups.drop i).dropWhile (· = 0) := by
      have hrest := congrArg (List.drop ((groups.drop i).takeWhile (· = 0)).length) happend
      rw [List.drop_left, List.drop_drop] at hrest
      exact hrest.symm
    rw [hdrop]
    intro hhead
    have hzero := List.head?_dropWhile_not (· = 0) (groups.drop i)
    rw [hhead] at hzero
    simp at hzero

theorem zeroRun_spec {groups : List ℕ} {start length : ℕ} (h : zeroRun groups = some (start, length)) :
    ZeroRun groups start length := by
  have hfold : ∀ (indices : List ℕ) (best : Option (ℕ × ℕ)), (∀ i ∈ indices, i < groups.length) →
      (∀ s l, best = some (s, l) → ZeroRun groups s l) →
      ∀ s l, indices.foldl (fun best i =>
        let length := ((groups.drop i).takeWhile (· = 0)).length
        if 2 ≤ length && (best.map Prod.snd).getD 0 < length then some (i, length) else best) best =
          some (s, l) → ZeroRun groups s l := by
    intro indices
    induction indices with
    | nil => exact fun best _ hbest => hbest
    | cons i indices ih =>
      intro best hindices hbest
      rw [List.foldl_cons]
      refine ih _ (fun j hj => hindices j (List.mem_cons_of_mem _ hj)) fun s l hnext => ?_
      dsimp only at hnext
      split_ifs at hnext with hlonger
      · obtain ⟨rfl, rfl⟩ := Prod.mk.inj (Option.some.inj hnext)
        simp only [Bool.and_eq_true, decide_eq_true_eq] at hlonger
        exact zeroRun_takeWhile (hindices _ List.mem_cons_self) hlonger.1
      · exact hbest s l hnext
  exact hfold _ none (fun i hi => List.mem_range.mp hi) (fun s l hnone => (by cases hnone)) start length h

theorem ZeroRun.split {groups : List ℕ} {start length : ℕ} (h : ZeroRun groups start length) :
    groups.take start ++ List.replicate length 0 ++ groups.drop (start + length) = groups := by
  rw [← h.zeros, List.append_assoc, ← List.drop_drop, List.take_append_drop, List.take_append_drop]

/-! ### Round trips -/

theorem toList_join (sep : String) (xs : List String) :
    (Strings.join sep xs).toList = sep.toList.intercalate (xs.map String.toList) := by
  induction xs with
  | nil => rfl
  | cons x xs ih =>
    cases xs with
    | nil => simp [Strings.join, List.intercalate]
    | cons y xs =>
      rw [Strings.join_cons (List.cons_ne_nil y xs)]
      simp [ih, List.intercalate]

theorem toList_groupsText (groups : List ℕ) : (groupsText groups).toList = grouped groups := by
  rw [groupsText, toList_join, grouped, List.map_map]
  simp [hexText, Function.comp_def]

theorem toList_string4 (a : BitVec 32) : (string4 a).toList = dotted (Addr.octets a) := by
  rw [string4, toList_join, dotted, List.map_map]
  simp [Function.comp_def]

theorem toList_string6 (a : BitVec 128) : (string6 a).toList =
    match zeroRun (Addr.groups a) with
    | none => grouped (Addr.groups a)
    | some (start, length) =>
      compressed ((Addr.groups a).take start) ((Addr.groups a).drop (start + length)) := by
  unfold string6
  cases hrun : zeroRun (Addr.groups a) with
  | none => simp [hrun, toList_groupsText]
  | some run =>
    simp only [hrun, String.toList_append, toList_groupsText, compressed]
    simp

theorem parseAddr_colon {s t : List Char} (hs : ∀ c ∈ s, isHexDigit c = true)
    (ht : ∀ c ∈ t, isAddrChar c = true) :
    parseAddr (s ++ ':' :: t) = (parseIPv6Text (s ++ ':' :: t)).map fun a => (a, []) := by
  have hfirst : (s ++ ':' :: t).find? (fun c => c = '.' || c = ':' || c = '%') = some ':' := by
    have hnone : s.find? (fun c => c = '.' || c = ':' || c = '%') = none := by
      refine List.find?_eq_none.mpr fun c hc hspecial => ?_
      simp only [Bool.or_eq_true, decide_eq_true_eq] at hspecial
      rcases hspecial with (rfl | rfl) | rfl
      · exact absurd (hs _ hc) (by decide)
      · exact absurd (hs _ hc) (by decide)
      · exact absurd (hs _ hc) (by decide)
    rw [List.find?_append, hnone]
    rfl
  have hzone : cut '%' (s ++ ':' :: t) = none := by
    refine cut_eq_none.mpr fun hmem => ?_
    rcases List.mem_append.mp hmem with hmem | hmem
    · exact absurd (hs _ hmem) (by decide)
    · rcases List.mem_cons.mp hmem with heq | hmem
      · exact absurd heq (by decide)
      · exact absurd (ht _ hmem) (by decide)
  unfold parseAddr
  rw [hfirst, hzone]
  rfl

theorem isAddrChar_grouped {gs : List ℕ} : ∀ c ∈ grouped gs, isAddrChar c = true := by
  induction gs with
  | nil => simp
  | cons g gs ih =>
    intro c hc
    by_cases hgs : gs = []
    · subst hgs
      rw [grouped_singleton] at hc
      exact isAddrChar_of_hex (isHexDigit_toDigits c hc)
    · rw [grouped_cons g hgs, List.mem_append, List.mem_cons] at hc
      rcases hc with hc | rfl | hc
      · exact isAddrChar_of_hex (isHexDigit_toDigits c hc)
      · rfl
      · exact ih c hc

theorem parseAddr_grouped {gs : List ℕ} (hgs : 2 ≤ gs.length) :
    parseAddr (grouped gs) = (parseIPv6Text (grouped gs)).map fun a => (a, []) := by
  obtain ⟨g, rest, rfl⟩ := List.exists_cons_of_length_pos (show 0 < gs.length by omega)
  have hrest : rest ≠ [] := by
    rintro rfl
    simp at hgs
  rw [grouped_cons g hrest]
  exact parseAddr_colon isHexDigit_toDigits isAddrChar_grouped

theorem parseAddr_grouped_colon {l : List ℕ} {t : List Char} (ht : ∀ c ∈ t, isAddrChar c = true) :
    parseAddr (grouped l ++ ':' :: t) = (parseIPv6Text (grouped l ++ ':' :: t)).map fun a => (a, []) := by
  cases l with
  | nil => exact parseAddr_colon (by simp) ht
  | cons g l =>
    by_cases hl : l = []
    · subst hl
      rw [grouped_singleton]
      exact parseAddr_colon isHexDigit_toDigits ht
    · rw [grouped_cons g hl, List.append_assoc, List.cons_append]
      refine parseAddr_colon isHexDigit_toDigits fun c hc => ?_
      rcases List.mem_append.mp hc with hc | hc
      · exact isAddrChar_grouped c hc
      · rcases List.mem_cons.mp hc with rfl | hc
        · rfl
        · exact ht c hc

theorem parseAddr_compressed {l r : List ℕ} (hl : ∀ g ∈ l, g < 65536) (hr : ∀ g ∈ r, g < 65536)
    (hlength : l.length + r.length < 8) : parseAddr (compressed l r) =
      some (ofGroups (l ++ List.replicate (8 - (l.length + r.length)) 0 ++ r), []) := by
  have hchars : ∀ c ∈ ':' :: grouped r, isAddrChar c = true := by
    intro c hc
    rcases List.mem_cons.mp hc with rfl | hc
    · rfl
    · exact isAddrChar_grouped c hc
  rw [compressed, parseAddr_grouped_colon hchars, ← compressed, parseIPv6Text_compressed hl hr hlength]
  rfl

theorem octets_small (a : BitVec 32) : ∀ o ∈ Addr.octets a, o < 256 := by
  intro o ho
  simp only [Addr.octets, List.mem_cons, List.not_mem_nil, or_false] at ho
  rcases ho with rfl | rfl | rfl | rfl
  all_goals exact Nat.mod_lt _ (by decide)

theorem parseAddr_string4 (a : BitVec 32) : parseAddr (string4 a).toList = some (.v4 a, []) := by
  have hsmall := octets_small a
  have hsum := fromDigits_octets a
  rw [toList_string4]
  simp only [Addr.octets, List.forall_mem_cons] at hsmall hsum ⊢
  obtain ⟨h0, h1, h2, h3, -⟩ := hsmall
  have hfirst : (dotted [(a >>> 24).toNat % 256, (a >>> 16).toNat % 256, (a >>> 8).toNat % 256,
      a.toNat % 256]).find? (fun c => c = '.' || c = ':' || c = '%') = some '.' := by
    have hnone : (Nat.toDigits 10 ((a >>> 24).toNat % 256)).find?
        (fun c => c = '.' || c = ':' || c = '%') = none := by
      refine List.find?_eq_none.mpr fun c hc hspecial => ?_
      simp only [Bool.or_eq_true, decide_eq_true_eq] at hspecial
      rcases hspecial with (rfl | rfl) | rfl
      all_goals exact absurd (isDigit_toDigits _ hc) (by decide)
    rw [dotted_four, List.find?_append, hnone]
    rfl
  unfold parseAddr
  rw [hfirst]
  dsimp only
  rw [if_pos rfl, parseIPv4, parseIPv4Fields_dotted h0 h1 h2 h3, Option.map_some, Option.map_some,
    hsum, BitVec.ofNat_toNat, BitVec.setWidth_eq]

theorem mapped_value {n a b c d : ℕ} (hhigh : n / 4294967296 = 65535)
    (hlow : fromDigits 256 [a, b, c, d] = n % 4294967296) :
    fromDigits 65536 [0, 0, 0, 0, 0, 65535, a * 256 + b, c * 256 + d] = n := by
  have hwhole : fromDigits 65536 [0, 0, 0, 0, 0, 65535, a * 256 + b, c * 256 + d] =
      65535 * 4294967296 + fromDigits 256 [a, b, c, d] := by
    simp only [fromDigits, List.foldl_cons, List.foldl_nil]
    omega
  rw [hwhole]
  generalize fromDigits 256 [a, b, c, d] = low at hlow
  clear hwhole
  omega

theorem parseAddr_mapped (a : BitVec 128) (h : a >>> 32 = 0xffff#128) :
    parseAddr ("::ffff:" ++ string4 (a.setWidth 32)).toList = some (.v6 a, []) := by
  have hsmall := octets_small (a.setWidth 32)
  have hsum := fromDigits_octets (a.setWidth 32)
  have hhigh : a.toNat / 4294967296 = 65535 := by
    have hnat := congrArg BitVec.toNat h
    simpa [BitVec.toNat_ushiftRight, Nat.shiftRight_eq_div_pow] using hnat
  have hlow : (a.setWidth 32).toNat = a.toNat % 4294967296 := by simp
  have htext : ("::ffff:" ++ string4 (a.setWidth 32)).toList =
      grouped [] ++ ':' :: (":ffff:".toList ++ dotted (Addr.octets (a.setWidth 32))) := by
    rw [String.toList_append, toList_string4]
    rfl
  have hchars : ∀ c ∈ ":ffff:".toList ++ dotted (Addr.octets (a.setWidth 32)), isAddrChar c = true := by
    intro c hc
    rcases List.mem_append.mp hc with hc | hc
    · have hletters : ":ffff:".toList.all isAddrChar = true := by decide
      exact List.all_eq_true.mp hletters c hc
    · rcases mem_dotted hc with hdigit | rfl
      · simp [isAddrChar, isHexDigit, hdigit]
      · rfl
  rw [htext, parseAddr_grouped_colon hchars, ← htext, String.toList_append, toList_string4]
  generalize hoctets : Addr.octets (a.setWidth 32) = octets at hsmall hsum
  obtain ⟨o0, o1, o2, o3, rfl⟩ : ∃ o0 o1 o2 o3, octets = [o0, o1, o2, o3] := ⟨_, _, _, _, hoctets.symm⟩
  simp only [List.forall_mem_cons] at hsmall
  obtain ⟨h0, h1, h2, h3, -⟩ := hsmall
  have hvalue := mapped_value hhigh (hsum.trans hlow)
  rw [parseIPv6Text_mapped h0 h1 h2 h3, ofGroups, hvalue, BitVec.ofNat_toNat, BitVec.setWidth_eq]
  rfl

theorem parseAddr_string6 (a : BitVec 128) : parseAddr (string6 a).toList = some (.v6 a, []) := by
  have hsmall := groups_small a
  have hlength := groups_length a
  rw [toList_string6]
  cases hrun : zeroRun (Addr.groups a) with
  | none =>
    have hne : Addr.groups a ≠ [] := List.ne_nil_of_length_pos (by omega)
    simp only
    rw [parseAddr_grouped (by omega), parseIPv6Text_grouped hne hsmall (by omega), if_pos hlength,
      ofGroups_groups]
    rfl
  | some run =>
    obtain ⟨start, length⟩ := run
    have hspec := zeroRun_spec hrun
    have hlong := hspec.long
    have hwithin := hspec.within
    have hzeros : 8 - (((Addr.groups a).take start).length +
        ((Addr.groups a).drop (start + length)).length) = length := by
      rw [List.length_take, List.length_drop]
      omega
    have hshort : ((Addr.groups a).take start).length +
        ((Addr.groups a).drop (start + length)).length < 8 := by
      rw [List.length_take, List.length_drop]
      omega
    simp only
    rw [parseAddr_compressed (fun g hg => hsmall g (List.mem_of_mem_take hg))
      (fun g hg => hsmall g (List.mem_of_mem_drop hg)) hshort, hzeros, hspec.split, ofGroups_groups]

/-- The text of an address is read as the address. -/
theorem parseAddr_string (a : Addr) : parseAddr a.string.toList = some (a, []) := by
  cases a with
  | v4 a => exact parseAddr_string4 a
  | v6 a =>
    rw [Addr.string]
    split_ifs with hmapped
    · exact parseAddr_mapped a hmapped
    · exact parseAddr_string6 a

theorem netParseIP_string (a : Addr) : netParseIP a.string.toList = some a := by
  rw [netParseIP, parseAddr_string]

theorem string_injective {a b : Addr} (h : a.string = b.string) : a = b := by
  have ha := parseAddr_string a
  rw [h, parseAddr_string b] at ha
  exact (Prod.mk.inj (Option.some.inj ha)).1.symm

theorem isAddrChar_string (a : Addr) : ∀ c ∈ a.string.toList, isAddrChar c = true :=
  parseAddr_chars (parseAddr_string a)

theorem fromDigits_lt {base : ℕ} {digits : List ℕ} (h : ∀ d ∈ digits, d < base) :
    fromDigits base digits < base ^ digits.length := by
  induction digits using List.reverseRecOn with
  | nil => simp [fromDigits]
  | append_singleton digits d ih =>
    have hdigits := ih fun d' hd' => h d' (List.mem_append_left _ hd')
    have hd := h d (List.mem_append_right _ (List.mem_singleton_self d))
    rw [fromDigits_append, List.length_append, List.length_singleton, Nat.pow_succ]
    have hstep : (fromDigits base digits + 1) * base ≤ base ^ digits.length * base :=
      Nat.mul_le_mul_right base hdigits
    rw [Nat.succ_mul] at hstep
    omega

theorem fromDigits_injective {base : ℕ} {ds es : List ℕ} (hlength : ds.length = es.length)
    (hds : ∀ d ∈ ds, d < base) (hes : ∀ d ∈ es, d < base)
    (h : fromDigits base ds = fromDigits base es) : ds = es := by
  induction ds using List.reverseRecOn generalizing es with
  | nil => exact (List.length_eq_zero_iff.mp hlength.symm).symm
  | append_singleton ds d ih =>
    have hne : es ≠ [] := by
      rintro rfl
      simp at hlength
    obtain ⟨es, e, rfl⟩ : ∃ es' e, es = es' ++ [e] := ⟨_, _, (List.dropLast_append_getLast hne).symm⟩
    have hd := hds d (List.mem_append_right _ (List.mem_singleton_self d))
    have he := hes e (List.mem_append_right _ (List.mem_singleton_self e))
    rw [fromDigits_append, fromDigits_append] at h
    have hlast : d = e := by
      have hmod := congrArg (· % base) h
      simpa [Nat.add_mod, Nat.mod_eq_of_lt hd, Nat.mod_eq_of_lt he] using hmod
    have hfirst : fromDigits base ds = fromDigits base es := by
      have hpositive : 0 < base := by omega
      have hdiv := congrArg (· / base) h
      simpa [Nat.mul_comm _ base, Nat.mul_add_div hpositive, Nat.div_eq_of_lt hd,
        Nat.div_eq_of_lt he] using hdiv
    rw [hlast, ih (by simpa using hlength) (fun d' hd' => hds d' (List.mem_append_left _ hd'))
      (fun d' hd' => hes d' (List.mem_append_left _ hd')) hfirst]

theorem ofGroups_injective {gs hs : List ℕ} (hgs : gs.length = 8) (hhs : hs.length = 8)
    (hg : ∀ g ∈ gs, g < 65536) (hh : ∀ g ∈ hs, g < 65536) (h : ofGroups gs = ofGroups hs) : gs = hs := by
  have hnat := congrArg BitVec.toNat (Addr.v6.inj h)
  have hgs' := fromDigits_lt hg
  have hhs' := fromDigits_lt hh
  rw [hgs] at hgs'
  rw [hhs] at hhs'
  rw [BitVec.toNat_ofNat, BitVec.toNat_ofNat, Nat.mod_eq_of_lt (by simpa using hgs'),
    Nat.mod_eq_of_lt (by simpa using hhs')] at hnat
  exact fromDigits_injective (hgs.trans hhs.symm) hg hh hnat

theorem string_ne_empty (a : Addr) : a.string ≠ "" := by
  intro h
  have ha := parseAddr_string a
  rw [h] at ha
  cases ha

end Netip
