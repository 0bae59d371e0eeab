import Mathlib.Data.List.Nodup
import RemnanodeLite.Nodeapi.Scan

/-! # Decoding is exact

A body is accepted exactly when it is one document within the limits in which
every container is spelled as the type at its position requires. A field is then
bound by one key at most, and by its own name. -/

namespace RemnanodeLite.Nodeapi
open JsonText

variable {B : Type}

section Positions
variable (types : Types B) (fold : Char → Char → Bool)

/-- The containers and scalars of a document, each with the schema that the scan has
there: the elements of a list, the fields of a struct, and none below anything else. -/
inductive Position : Option (Ty B) → Tree → Option (Ty B) → Tree → Prop
  | here {schema : Option (Ty B)} {t : Tree} : Position schema t schema t
  | item {schema schema' : Option (Ty B)} {items : List Tree} {t t' : Tree} (ht : t ∈ items)
      (h : Position (controlArraySchema types schema).1 t schema' t') :
      Position schema (.arr items) schema' t'
  | member {schema schema' : Option (Ty B)} {members : List (String × Tree)}
      {m : String × Tree} {t' : Tree} (hm : m ∈ members)
      (h : Position (childSchema types schema m.1) m.2 schema' t') :
      Position schema (.obj members) schema' t'

/-- The limits and the spelling at one position. -/
def Admissible (schema : Option (Ty B)) : Tree → Prop
  | .scalar => True
  | .arr items => items.length ≤ (controlArraySchema types schema).2
  | .obj members => members.length ≤ memberLimit types schema ∧ (members.map Prod.fst).Nodup ∧
      ∀ m ∈ members, m.1.utf8ByteSize ≤ maxJSONKeyBytes ∧ Spelled types fold schema m.1

variable {types fold} {schema schema' : Option (Ty B)} {t t' : Tree}

theorem Conforms.admissible (h : Conforms types fold schema t) : Admissible types fold schema t := by
  cases h with
  | scalar => trivial
  | arr hlength hitems => exact hlength
  | obj hlength hkeys hsize hspelled hmembers =>
    exact ⟨hlength, hkeys, fun m hm => ⟨hsize m hm, hspelled m hm⟩⟩

theorem Conforms.position (hposition : Position types schema t schema' t')
    (h : Conforms types fold schema t) : Conforms types fold schema' t' := by
  induction hposition with
  | here => exact h
  | item ht hrest ih =>
    cases h with
    | arr hlength hitems => exact ih (hitems _ ht)
  | member hm hrest ih =>
    cases h with
    | obj hlength hkeys hsize hspelled hmembers => exact ih (hmembers _ hm)

theorem conforms_of_admissible (t : Tree) : ∀ schema : Option (Ty B),
    (∀ schema' t', Position types schema t schema' t' → Admissible types fold schema' t') →
    Conforms types fold schema t := by
  induction t using Tree.parts_induction with
  | h t ih =>
    intro schema hall
    have hhere := hall schema t .here
    cases t with
    | scalar => exact .scalar
    | arr items =>
      exact .arr hhere fun t ht => ih t ht _ fun schema' t' h => hall schema' t' (.item ht h)
    | obj members =>
      obtain ⟨hlength, hkeys, hspelled⟩ := hhere
      exact .obj hlength hkeys (fun m hm => (hspelled m hm).1) (fun m hm => (hspelled m hm).2)
        fun m hm => ih m.2 (List.mem_map_of_mem hm) _ fun schema' t' h =>
          hall schema' t' (.member hm h)

theorem conforms_iff : Conforms types fold schema t ↔
    ∀ schema' t', Position types schema t schema' t' → Admissible types fold schema' t' := by
  constructor
  · intro h schema' t' hposition
    exact (h.position hposition).admissible
  · exact conforms_of_admissible t schema

end Positions

/-! ### Whole documents -/

section Document
variable {types : Types B} {fold : Char → Char → Bool} {quote : String → String}
  {schema : Option (Ty B)} {body : List UInt8} {t : Tree}

theorem expectEnd_ok_iff {s : Scanner} {raw : List UInt8} :
    expectEnd body s = .ok raw ↔ raw = body ∧ s.decoder.token = .error .eof := by
  rw [← next_eof_iff]
  unfold expectEnd
  cases hnext : s.next with
  | ok r => simp
  | error e =>
    cases e with
    | eof =>
      constructor
      · intro h
        cases h
        exact ⟨rfl, rfl⟩
      · rintro ⟨rfl, -⟩
        rfl
    | invalid => simp
    | tokenLimit => simp

theorem accepted_document {s : Scanner}
    (h : Accepted types fold maxJSONDepth schema t ⟨⟨body, .topValue, []⟩, 0⟩ s)
    (hend : s.decoder.token = .error .eof) : Document body t := by
  have htop := reads_top h.reads
  have hstate : s.decoder.state = .topValue := by rw [htop]
  have hreads := h.reads
  rw [htop] at hreads
  exact document_iff.mpr ⟨s.decoder.rest, hreads, (token_eof_iff hstate).mp hend⟩

theorem document_accepted (hdocument : Document body t) (hdepth : t.depth ≤ maxJSONDepth)
    (htokens : t.tokens ≤ maxJSONDocumentTokens) (hconforms : Conforms types fold schema t) :
    ∃ s, Accepted types fold maxJSONDepth schema t ⟨⟨body, .topValue, []⟩, 0⟩ s ∧
      s.decoder.token = .error .eof := by
  obtain ⟨rest, hreads, hrest⟩ := document_iff.mp hdocument
  refine ⟨⟨⟨rest, .topValue, []⟩, t.tokens⟩, ⟨hreads, hdepth, hconforms, by simp, htokens⟩, ?_⟩
  exact (token_eof_iff rfl).mpr hrest

theorem isContainer_iff {d d₁ d' : Decoder} {first : Token} (hreads : Reads d t d')
    (htoken : d.token = .ok (first, d₁)) : isContainer first = true ↔ t ≠ .scalar := by
  have hcontinues := hreads.continues htoken
  cases first with
  | delim delim =>
    cases delim with
    | openArray =>
      obtain ⟨items, rfl, -⟩ := hcontinues
      exact ⟨fun _ => Tree.noConfusion, fun _ => rfl⟩
    | openObject =>
      obtain ⟨members, rfl, -⟩ := hcontinues
      exact ⟨fun _ => Tree.noConfusion, fun _ => rfl⟩
    | closeArray => exact hcontinues.elim
    | closeObject => exact hcontinues.elim
  | string key => simp [isContainer, hcontinues.1]
  | other => simp [isContainer, hcontinues.1]

theorem document_token (hdocument : Document body t) :
    ∃ first d₁, Decoder.token ⟨body, .topValue, []⟩ = .ok (first, d₁) := by
  obtain ⟨rest, hreads, -⟩ := document_iff.mp hdocument
  obtain ⟨first, d₁, htoken, -⟩ := reads_token hreads
  exact ⟨first, d₁, htoken⟩

theorem token_nil : Decoder.token ⟨[], .topValue, []⟩ = .error .eof := token_eof rfl

variable (types fold schema body) in
def ExactDocument (t : Tree) : Prop :=
  Document body t ∧ t ≠ .scalar ∧ t.depth ≤ maxJSONDepth ∧ t.tokens ≤ maxJSONDocumentTokens ∧
    ∀ schema' t', Position types schema t schema' t' → Admissible types fold schema' t'

theorem scanJSONDocument_ok_iff (allowEmpty : Bool) :
    scanJSONDocument types fold quote (some body) schema allowEmpty = .ok body ↔
      (allowEmpty = true ∧ body = []) ∨ ∃ t, ExactDocument types fold schema body t := by
  simp only [ExactDocument, ← conforms_iff]
  unfold scanJSONDocument
  cases hnext : Scanner.next ⟨⟨body, .topValue, []⟩, 0⟩ with
  | error e =>
    have hnone : ¬ ∃ t, Document body t ∧ t ≠ .scalar ∧ t.depth ≤ maxJSONDepth ∧
        t.tokens ≤ maxJSONDocumentTokens ∧ Conforms types fold schema t := by
      rintro ⟨t, hdocument, -⟩
      obtain ⟨first, d₁, htoken⟩ := document_token hdocument
      have hok : Scanner.next ⟨⟨body, .topValue, []⟩, 0⟩ = .ok (first, ⟨d₁, 1⟩) :=
        next_ok_iff.mpr ⟨by simp [maxJSONDocumentTokens], htoken, rfl⟩
      rw [hok] at hnext
      cases hnext
    rw [or_iff_left hnone]
    cases e with
    | eof =>
      simp only [hnext]
      by_cases hbody : body = []
      · cases allowEmpty <;> simp [hbody]
      · simp [hbody]
    | invalid | tokenLimit =>
      have hbody : body ≠ [] := by
        rintro rfl
        rw [next_eof_iff.mpr token_nil] at hnext
        cases hnext
      simp [hnext, hbody]
  | ok r =>
    obtain ⟨first, s⟩ := r
    obtain ⟨-, htoken, -⟩ := next_ok_iff.mp hnext
    have hbody : ¬ (allowEmpty = true ∧ body = []) := by
      rintro ⟨-, rfl⟩
      rw [token_nil] at htoken
      cases htoken
    rw [or_iff_right hbody]
    simp only [hnext]
    cases hcontainer : isContainer first with
    | false =>
      rw [if_neg (by decide)]
      constructor
      · intro h
        cases h
      · rintro ⟨t, hdocument, hscalar, -⟩
        obtain ⟨rest, hreads, -⟩ := document_iff.mp hdocument
        rw [(isContainer_iff hreads htoken).mpr hscalar] at hcontainer
        cases hcontainer
    | true =>
      rw [if_pos rfl, Fallible.bind_ok_iff]
      constructor
      · rintro ⟨s', hscan, hend⟩
        obtain ⟨t, ht⟩ := (scanJSONToken_visits maxJSONDepth _ _ _ _ _ _ hnext).mp hscan
        have htokens := ht.tokens
        have hlimit := ht.limit
        refine ⟨t, accepted_document ht (expectEnd_ok_iff.mp hend).2,
          (isContainer_iff ht.reads htoken).mp hcontainer, ht.depth, by omega, ht.conforms⟩
      · rintro ⟨t, hdocument, -, hdepth, htokens, hconforms⟩
        obtain ⟨s', ht, hend⟩ := document_accepted hdocument hdepth htokens hconforms
        exact ⟨s', (scanJSONToken_visits maxJSONDepth _ _ _ _ _ _ hnext).mpr ⟨t, ht⟩,
          expectEnd_ok_iff.mpr ⟨rfl, hend⟩⟩

end Document

/-! ### Bound fields -/

/- `encoding/json` binds a key to the field of that name, and without one to a field
that is equal to it under folding. -/
def Binds (fold : Char → Char → Bool) (names : List String) (key name : String) : Prop :=
  name ∈ names ∧ (key = name ∨ key ∉ names ∧ equalFold fold key name = true)

instance (fold : Char → Char → Bool) (names : List String) (key name : String) :
    Decidable (Binds fold names key name) :=
  inferInstanceAs (Decidable (_ ∧ (_ ∨ _ ∧ _)))

theorem binds_of_spelled {types : Types B} {fold : Char → Char → Bool} {schema : Option (Ty B)}
    {fields : ObjectFieldSchema B} {key name : String}
    (hfields : schemaFields types schema = some fields) (hspelled : Spelled types fold schema key)
    (hbinds : Binds fold fields.names key name) : key = name := by
  obtain ⟨hname, heq | ⟨hkey, hfold⟩⟩ := hbinds
  · exact heq
  · have hdiffers := (hspelled fields hfields).resolve_left hkey name hname
    rw [hdiffers] at hfold
    cases hfold

theorem length_filter_of_nodup {members : List (String × Tree)} {p : String × Tree → Bool}
    (name : String) (hkeys : (members.map Prod.fst).Nodup)
    (hname : ∀ m ∈ members, p m = true → m.1 = name) : (members.filter p).length ≤ 1 := by
  have hsub : ((members.filter p).map Prod.fst).Nodup :=
    hkeys.sublist (List.filter_sublist.map Prod.fst)
  have hall : ∀ m ∈ members.filter p, m.1 = name := fun m hm =>
    hname m (List.mem_filter.mp hm).1 (List.mem_filter.mp hm).2
  match hfilter : members.filter p with
  | [] => simp
  | [m] => simp
  | m :: m' :: ms =>
    rw [hfilter] at hsub hall
    have heq : m.1 = m'.1 := (hall m (by simp)).trans (hall m' (by simp)).symm
    simp [heq] at hsub

/-- A body is accepted exactly when it is one document within the limits, with distinct
keys and with the spelling of the type everywhere; then every field of a struct is
bound by at most one member, which has the name of the field. -/
theorem json_decoding_exact (types : Types B) (fold : Char → Char → Bool)
    (quote : String → String) (schema : Option (Ty B)) (allowEmpty : Bool) (body : List UInt8) :
    (scanJSONDocument types fold quote (some body) schema allowEmpty = .ok body ↔
      (allowEmpty = true ∧ body = []) ∨ ∃ t, ExactDocument types fold schema body t) ∧
    (scanJSONDocument types fold quote (some body) schema allowEmpty = .ok body →
      ∀ t, Document body t → ∀ schema' members fields,
        Position types schema t schema' (.obj members) → schemaFields types schema' = some fields →
        ∀ name, (∀ m ∈ members, Binds fold fields.names m.1 name → m.1 = name) ∧
          (members.filter fun m => Binds fold fields.names m.1 name).length ≤ 1) := by
  refine ⟨scanJSONDocument_ok_iff allowEmpty, ?_⟩
  intro hok t hdocument schema' members fields hposition hfields name
  have hexact : ExactDocument types fold schema body t := by
    rcases (scanJSONDocument_ok_iff allowEmpty).mp hok with ⟨-, rfl⟩ | ⟨t', ht'⟩
    · obtain ⟨first, d₁, htoken⟩ := document_token hdocument
      rw [token_nil] at htoken
      cases htoken
    · rw [document_unique hdocument ht'.1]
      exact ht'
  obtain ⟨-, hkeys, hspelled⟩ := hexact.2.2.2.2 schema' (.obj members) hposition
  have hname : ∀ m ∈ members, Binds fold fields.names m.1 name → m.1 = name :=
    fun m hm hbinds => binds_of_spelled hfields (hspelled m hm).2 hbinds
  refine ⟨hname, length_filter_of_nodup name hkeys fun m hm hbinds => ?_⟩
  exact hname m hm (of_decide_eq_true hbinds)

/- A struct with one field `tag`: the exact key is accepted, another case is not. -/
def tagTypes : Types Unit := ⟨fun _ => .struct [⟨"Tag", true, some "tag", .named ()⟩], fun _ => false,
  fun _ => none⟩

example : (scanJSONDocument tagTypes (fun a b => a.toLower = b.toLower) id
      (some "\x7b\"tag\": [1, \x7b\x7d]\x7d".toUTF8.toList) (some (.named ())) false).toBool = true ∧
    (scanJSONDocument tagTypes (fun a b => a.toLower = b.toLower) id
      (some "\x7b\"Tag\": 1\x7d".toUTF8.toList) (some (.named ())) false).toBool = false := by
  decide +kernel

end RemnanodeLite.Nodeapi
