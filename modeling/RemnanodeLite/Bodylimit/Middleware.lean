import RemnanodeLite.Lib.Reader

/-! # The limit on decoded request bodies

`internal/bodylimit/middleware.go`: a budget, the limit of a request and the
reader that a compressed body is read through. -/

namespace RemnanodeLite.Bodylimit

/-! ### Limits -/

def defaultMaxBytes : ℤ := 256 * 2 ^ 20
def lowMemoryMaxBytes : ℤ := 16 * 2 ^ 20
def maxConfiguredMB : ℤ := 1024

structure Budget where
  maxBytes : ℤ
  positive : 0 < maxBytes

def new (lowMemory : Bool) (configuredMB : ℤ) : Except String Budget :=
  if configuredMB < 0 ∨ configuredMB > maxConfiguredMB then
    .error "BODY_LIMIT_MB must be between 1 and 1024 MiB, or 0 for the default"
  else if lowMemory ∧ configuredMB > lowMemoryMaxBytes / 2 ^ 20 then
    .error "BODY_LIMIT_MB must not exceed 16 MiB when LOW_MEMORY=1"
  else if hpos : configuredMB > 0 then .ok ⟨configuredMB * 2 ^ 20, by omega⟩
  else if lowMemory then .ok ⟨lowMemoryMaxBytes, by decide⟩
  else .ok ⟨defaultMaxBytes, by decide⟩

/- The value that `WithRequestLimit` puts into the context of a request. -/
def Budget.withRequestLimit (b : Budget) (limit : ℤ) : ℤ :=
  let limit := if limit ≤ 0 then 1 else limit
  if limit > b.maxBytes then b.maxBytes else limit

/- `value` is the one in the context, if there is one. -/
def Budget.requestLimit (b : Budget) (value : Option ℤ) : ℤ :=
  match value with
  | some limit => if 0 < limit then limit else b.maxBytes
  | none => b.maxBytes

theorem Budget.requestLimit_pos (b : Budget) (value : Option ℤ) : 0 < b.requestLimit value := by
  unfold requestLimit
  cases value with
  | none => exact b.positive
  | some limit =>
    dsimp only
    split_ifs with hlimit
    · exact hlimit
    · exact b.positive

theorem Budget.requestLimit_le (b : Budget) (limit : Option ℤ) :
    b.requestLimit (limit.map b.withRequestLimit) ≤ b.maxBytes := by
  cases limit with
  | none => exact Int.le_refl b.maxBytes
  | some limit =>
    simp only [Option.map_some, requestLimit, withRequestLimit]
    split_ifs <;> omega

theorem maxBytes_le_of_new {lowMemory : Bool} {configuredMB : ℤ} {b : Budget}
    (h : new lowMemory configuredMB = .ok b) :
    b.maxBytes ≤ if lowMemory then lowMemoryMaxBytes else maxConfiguredMB * 2 ^ 20 := by
  unfold new at h
  cases lowMemory <;> split_ifs at h <;> cases h <;>
    simp_all [lowMemoryMaxBytes, maxConfiguredMB, defaultMaxBytes] <;> omega

/-! ### Errors -/

inductive ReadError where
  | eof
  | maxBytes (limit : ℤ)
  | errWindowSizeExceeded
  | errDecoderSizeExceeded
  | other (text : String)
  | wrapped (text : String) (cause : ReadError)
  deriving DecidableEq

/- `errors.Is`. -/
def ReadError.is : ReadError → ReadError → Bool
  | .wrapped text cause, target => .wrapped text cause = target || cause.is target
  | e, target => e = target

/- `errors.As` with an `*http.MaxBytesError`. -/
def ReadError.asMaxBytes : ReadError → Bool
  | .maxBytes _ => true
  | .wrapped _ cause => cause.asMaxBytes
  | _ => false

def ReadError.sizeExceeded (e : ReadError) : Bool :=
  e.is .errWindowSizeExceeded || e.is .errDecoderSizeExceeded

/-! ### The decoded body -/

abbrev Decoder := Reader UInt8 ReadError .eof

structure DecodedReadCloser (r : Decoder) where
  reader : r.State
  limit : ℤ
  read : ℕ

inductive Encoding where
  | gzip
  | deflate
  | br
  | zstd
  deriving DecidableEq

/- `opened` is what the constructor of the decoder returns. -/
def decodeBody {r : Decoder} (opened : Except ReadError r.State) (encoding : Encoding) (limit : ℤ) :
    Except ReadError (DecodedReadCloser r) :=
  match opened with
  | .ok reader => .ok ⟨reader, limit, 0⟩
  | .error e => .error (if encoding = .zstd && e.sizeExceeded then .maxBytes limit else e)

namespace DecodedReadCloser
variable {r : Decoder}

def remaining (d : DecodedReadCloser r) : ℤ := d.limit - d.read

/- The quota is used up: one more byte is looked for and never delivered. -/
def probe (d : DecodedReadCloser r) : Chunk UInt8 ReadError × DecodedReadCloser r :=
  let next := r.nextChunk d.reader
  (⟨[], if next.1.data ≠ [] then some (.maxBytes d.limit) else next.1.err⟩,
    { d with reader := next.2 })

/- A read into the rest of the quota. -/
def fill (d : DecodedReadCloser r) (size : ℕ) : Chunk UInt8 ReadError × DecodedReadCloser r :=
  let next := r.read d.reader size
  (⟨next.1.data, next.1.err.map fun e => if e.sizeExceeded then .maxBytes d.limit else e⟩,
    { d with reader := next.2, read := d.read + next.1.data.length })

/- `Read` with a buffer of `size` bytes. -/
def Read (d : DecodedReadCloser r) (size : ℕ) : Chunk UInt8 ReadError × DecodedReadCloser r :=
  if size = 0 then (⟨[], none⟩, d)
  else if 0 ≤ d.limit then
    if d.remaining = 0 then d.probe
    else d.fill (if (size : ℤ) > d.remaining then d.remaining.toNat else size)
  else d.fill size

/-! ### What is delivered -/

/- Where the reader stands when `x` has been delivered. -/
structure Within (limit : ℤ) (stream x : List UInt8) (d : DecodedReadCloser r) : Prop where
  same : d.limit = limit
  split : stream = x ++ r.rest d.reader
  counted : d.read = x.length
  bounded : (x.length : ℤ) ≤ limit

/-- How a sequence of reads may end. -/
structure Delivers (r : Decoder) (limit : ℤ) (stream x : List UInt8) (err : Option ReadError) : Prop where
  initial : x <+: stream
  bounded : (x.length : ℤ) ≤ limit
  complete : err = some .eof → x = stream
  excess : (∀ s size e, (r.read s size).1.err = some e → e.asMaxBytes = false ∧ e.sizeExceeded = false) →
    ∀ e, err = some e → e.asMaxBytes = true → limit < stream.length

variable {limit : ℤ} {stream x : List UInt8} {d : DecodedReadCloser r} {size : ℕ} {e : ReadError}

theorem Within.delivers (h : Within limit stream x d) : Delivers r limit stream x none where
  initial := ⟨_, h.split.symm⟩
  bounded := h.bounded
  complete hnone := absurd hnone.symm (Option.some_ne_none _)
  excess _ _ hnone := absurd hnone.symm (Option.some_ne_none _)

/- The probe always ends with an error: of the decoder, or because of a byte too many. -/
theorem probe_err_ne_none (d : DecodedReadCloser r) : d.probe.1.err ≠ none := by
  obtain ⟨hstop, -⟩ := r.nextChunk_spec d.reader
  simp only [probe]
  split_ifs with hdata
  · exact Option.some_ne_none _
  · exact hstop.resolve_left hdata

theorem Within.probe (h : Within limit stream x d) (hfull : d.remaining = 0)
    (herr : d.probe.1.err = some e) : Delivers r limit stream (x ++ d.probe.1.data) (some e) := by
  obtain ⟨-, t, hrest, hread⟩ := r.nextChunk_spec d.reader
  have hsplit : r.rest d.reader = (r.nextChunk d.reader).1.data ++ r.rest (r.nextChunk d.reader).2 := by
    rw [← hrest, hread]
    exact r.split t 1
  have hlength : (x.length : ℤ) = limit := by
    have hread := h.counted
    have hsame := h.same
    unfold remaining at hfull
    omega
  have hx : x ++ d.probe.1.data = x := List.append_nil x
  rw [hx]
  simp only [DecodedReadCloser.probe] at herr
  split_ifs at herr with hdata
  · refine ⟨⟨_, h.split.symm⟩, h.bounded, fun heof => ?_, fun _ _ _ _ => ?_⟩
    · rw [← herr] at heof
      exact absurd (Option.some.inj heof) (by simp)
    · have hpos : 0 < (r.nextChunk d.reader).1.data.length := List.length_pos_of_ne_nil hdata
      rw [h.split, List.length_append, hsplit, List.length_append]
      omega
  · have hempty : (r.nextChunk d.reader).1.data = [] := of_not_not hdata
    refine ⟨⟨_, h.split.symm⟩, h.bounded, fun heof => ?_, fun hcalm e' he' hmax => ?_⟩
    · rw [heof, hread] at herr
      have hend := r.ends t 1 herr
      rw [h.split, hsplit, hempty, hread, hend]
      simp
    · rw [hread] at herr
      cases he'
      rw [(hcalm t 1 e herr).1] at hmax
      cases hmax

theorem Within.fill (h : Within limit stream x d) (hsize : (size : ℤ) ≤ d.remaining) :
    Within limit stream (x ++ (d.fill size).1.data) (d.fill size).2 where
  same := h.same
  split := by
    rw [List.append_assoc, h.split, r.split d.reader size]
    rfl
  counted := by
    have hread := h.counted
    simp only [DecodedReadCloser.fill, List.length_append]
    omega
  bounded := by
    have hfits := r.fits d.reader size
    have hread := h.counted
    have hsame := h.same
    simp only [DecodedReadCloser.fill, List.length_append]
    unfold remaining at hsize
    omega

theorem Within.fill_error (h : Within limit stream x d) (hsize : (size : ℤ) ≤ d.remaining)
    (herr : (d.fill size).1.err = some e) :
    Delivers r limit stream (x ++ (d.fill size).1.data) (some e) := by
  have hnext := h.fill hsize
  obtain ⟨e', he', rfl⟩ := Option.map_eq_some_iff.mp herr
  refine ⟨hnext.delivers.initial, hnext.bounded, fun heof => ?_, fun hcalm e hsome hmax => ?_⟩
  · have hinner : e' = .eof := by
      split_ifs at heof with hexceeded
      · exact absurd (Option.some.inj heof) (by simp)
      · exact Option.some.inj heof
    subst hinner
    have hend : r.rest (d.fill size).2.reader = [] := r.ends d.reader size he'
    have hsplit := hnext.split
    rw [hend, List.append_nil] at hsplit
    exact hsplit.symm
  · have hcalm' := hcalm d.reader size e' he'
    rw [hcalm'.2] at hsome
    cases hsome
    rw [if_neg (by decide), hcalm'.1] at hmax
    cases hmax

theorem Within.read_cases (h : Within limit stream x d) (hlimit : 0 ≤ limit) (size : ℕ) :
    (d.Read size = (⟨[], none⟩, d)) ∨ (d.remaining = 0 ∧ d.Read size = d.probe) ∨
      ∃ n : ℕ, (n : ℤ) ≤ d.remaining ∧ d.Read size = d.fill n := by
  have hnonneg : 0 ≤ d.limit := h.same.symm ▸ hlimit
  have hleft : 0 ≤ d.remaining := by
    have hread := h.counted
    have hsame := h.same
    have hbounded := h.bounded
    unfold remaining
    omega
  unfold Read
  split_ifs with hsize hfull hlong
  · exact .inl rfl
  · exact .inr (.inl ⟨hfull, rfl⟩)
  · exact .inr (.inr ⟨_, by omega, rfl⟩)
  · exact .inr (.inr ⟨_, by omega, rfl⟩)

theorem Within.read (h : Within limit stream x d) (hlimit : 0 ≤ limit)
    (herr : (d.Read size).1.err = none) :
    Within limit stream (x ++ (d.Read size).1.data) (d.Read size).2 := by
  rcases h.read_cases hlimit size with heq | ⟨-, heq⟩ | ⟨n, hn, heq⟩
  · rw [heq, List.append_nil]
    exact h
  · rw [heq] at herr
    exact absurd herr d.probe_err_ne_none
  · rw [heq]
    exact h.fill hn

theorem Within.read_error (h : Within limit stream x d) (hlimit : 0 ≤ limit)
    (herr : (d.Read size).1.err = some e) :
    Delivers r limit stream (x ++ (d.Read size).1.data) (some e) := by
  rcases h.read_cases hlimit size with heq | ⟨hfull, heq⟩ | ⟨n, hn, heq⟩
  · rw [heq] at herr
    exact absurd herr.symm (Option.some_ne_none e)
  · rw [heq] at herr ⊢
    exact h.probe hfull herr
  · rw [heq] at herr ⊢
    exact h.fill_error hn herr

theorem reads_delivers (reader : r.State) (hlimit : 0 ≤ limit) (sizes : List ℕ) :
    Delivers r limit (r.rest reader) (Reader.reads Read sizes ⟨reader, limit, 0⟩).1
      (Reader.reads Read sizes ⟨reader, limit, 0⟩).2 := by
  have hstart : Within limit (r.rest reader) [] (⟨reader, limit, 0⟩ : DecodedReadCloser r) :=
    ⟨rfl, rfl, rfl, hlimit⟩
  exact Reader.reads_induct (Within limit (r.rest reader)) (Delivers r limit (r.rest reader))
    (fun x d size h => h.read hlimit) (fun x d size e h => h.read_error hlimit)
    (fun x d h => h.delivers) sizes hstart

/- Whatever limit the route of a request asks for, its decoded body keeps to the budget. -/
theorem decodeBody_delivers {lowMemory : Bool} {configuredMB : ℤ} {b : Budget}
    {opened : Except ReadError r.State} {encoding : Encoding} {asked : Option ℤ}
    (hb : new lowMemory configuredMB = .ok b)
    (h : decodeBody opened encoding (b.requestLimit (asked.map b.withRequestLimit)) = .ok d)
    (sizes : List ℕ) :
    ∃ reader, opened = .ok reader ∧ Delivers r (b.requestLimit (asked.map b.withRequestLimit))
      (r.rest reader) (Reader.reads Read sizes d).1 (Reader.reads Read sizes d).2 ∧
      ((Reader.reads Read sizes d).1.length : ℤ) ≤
        if lowMemory then lowMemoryMaxBytes else maxConfiguredMB * 2 ^ 20 := by
  cases opened with
  | error e => cases h
  | ok reader =>
    cases h
    have hpos := b.requestLimit_pos (asked.map b.withRequestLimit)
    have hdelivers := reads_delivers reader hpos.le sizes
    exact ⟨reader, rfl, hdelivers,
      (hdelivers.bounded.trans (b.requestLimit_le asked)).trans (maxBytes_le_of_new hb)⟩

end DecodedReadCloser

open DecodedReadCloser in
/-- However the decoder splits its stream and whatever buffers the caller brings, a body with a
limit delivers the beginning of the stream, at most `limit` bytes of it, all of it before `io.EOF`,
and is too large only if the stream is. -/
theorem decoded_reads (r : Decoder) (reader : r.State) (limit : ℤ) (hlimit : 0 ≤ limit)
    (sizes : List ℕ) :
    Delivers r limit (r.rest reader) (Reader.reads Read sizes ⟨reader, limit, 0⟩).1
      (Reader.reads Read sizes ⟨reader, limit, 0⟩).2 :=
  reads_delivers reader hlimit sizes

def sampleDecoder : Decoder where
  State := List UInt8
  read s size := (⟨s.take size, if s = [] then some .eof else none⟩, s.drop size)
  rest s := s
  fits s size := (List.length_take_le size s)
  split s size := (List.take_append_drop size s).symm
  ends s size h := by
    have hempty : s = [] := by
      by_contra hne
      simp [hne] at h
    simp [hempty]
  progress s := by
    refine ⟨1, ?_⟩
    cases s with
    | nil => rfl
    | cons b s => rfl

open DecodedReadCloser in
theorem decoded_reads_three :
    Reader.reads Read [1, 5, 4] (⟨[1, 2, 3], 2, 0⟩ : DecodedReadCloser sampleDecoder) =
        ([1, 2], some (.maxBytes 2)) ∧
      Delivers sampleDecoder 2 [1, 2, 3]
        (Reader.reads Read [1, 5, 4] (⟨[1, 2, 3], 2, 0⟩ : DecodedReadCloser sampleDecoder)).1
        (Reader.reads Read [1, 5, 4] (⟨[1, 2, 3], 2, 0⟩ : DecodedReadCloser sampleDecoder)).2 :=
  ⟨by decide +kernel, decoded_reads sampleDecoder [1, 2, 3] 2 (by decide) [1, 5, 4]⟩

end RemnanodeLite.Bodylimit
