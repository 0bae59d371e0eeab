import RemnanodeLite.Lib.Assured
import RemnanodeLite.Xray.CoreLoader

/-! # Downloads

`downloadFile` (`internal/xray/download.go`): the calls it makes and what they do to the
directory of its destination. -/

namespace RemnanodeLite.Xray.Cores.Download
open Filepath Program

/- `reads` are the reads that the body gives, `ended` the error after the last of them. -/
structure Response where
  statusCode : ℕ
  status : String
  https : Bool
  contentLength : Int64
  reads : List (List UInt8)
  ended : Option String

/- What a round trip of the HTTP client brings. A redirect has the quoted URL it came from
and says whether it goes to an HTTPS URL. -/
inductive Reply where
  | redirect (url : String) (https : Bool)
  | response (response : Response)

/- `cause` fails once the download is canceled. -/
inductive Op where
  | newRequest
  | roundTrip
  | cause
  | createTemp (name : Text)
  | write (path : Text) (data : List UInt8)
  | chmod (path : Text) (mode : ℕ)
  | close (path : Text)
  | rename (oldPath newPath : Text)
  | remove (path : Text)

def Op.Value : Op → Type
  | .roundTrip => Reply
  | .createTemp _ => Text
  | _ => Unit

def Op.quiet : Op → Bool
  | .newRequest | .cause | .chmod _ _ | .close _ => true
  | _ => false

/-! ### The directory -/

structure Scene where
  dir : Cache
  heard : List Reply

/- What the environment decides about a call: whether it fails, the reply, the random part of
a temporary name and how much a failed write has written. -/
structure Choice where
  failure : Option String
  reply : Reply
  suffix : Text
  written : ℕ

def temporaryName (name suffix : Text) : Text := '.' :: name ++ ".download-".toList ++ suffix

def Scene.append (s : Scene) (path : Text) (data : List UInt8) : Scene :=
  match s.dir path with
  | some (.file content) =>
    { s with dir := Function.update s.dir path (some (.file (content ++ data))) }
  | _ => s

def serve : Handler Op (fun op => Except String op.Value) Scene Choice := fun op s e =>
  match e.failure, op with
  | some err, .write path data => (.error err, s.append path (data.take e.written))
  | some err, _ => (.error err, s)
  | none, .roundTrip => (.ok e.reply, { s with heard := s.heard ++ [e.reply] })
  | none, .createTemp name =>
    if (s.dir (temporaryName name e.suffix)).isSome then (.error "file exists", s)
    else (.ok (temporaryName name e.suffix), { s with
      dir := Function.update s.dir (temporaryName name e.suffix) (some (.file [])) })
  | none, .write path data => (.ok (), s.append path data)
  | none, .rename oldPath newPath =>
    if s.dir newPath = some .directory then (.error "file exists", s)
    else (.ok (), { s with
      dir := Function.update (Function.update s.dir oldPath none) newPath (s.dir oldPath) })
  | none, .remove path => (.ok (), { s with dir := Function.update s.dir path none })
  | none, .newRequest | none, .cause | none, .chmod _ _ | none, .close _ => (.ok (), s)

/-! ### The download -/

abbrev DownloadM := ExceptT String (Program Op fun op => Except String op.Value)

def ask (op : Op) : DownloadM op.Value := ExceptT.mk (perform op)

-- client.Do with CheckRedirect; `more` is how many more redirects it follows
def clientDo (more : ℕ) : DownloadM Response := do
  match (← ask .roundTrip : Reply) with
  | .response response => pure response
  | .redirect url https =>
    refuseIf (https = false) ("Get " ++ url ++ ": download redirected to a non-HTTPS URL")
    match more with
    | 0 => throw ("Get " ++ url ++ ": download exceeded 10 redirects")
    | more + 1 => clientDo more

-- io.Copy from the LimitReader, of which `budget` bytes are left, to the file and the hasher
def copy (path : Text) (ended : Option String) (budget : ℕ) (body : List UInt8) :
    List (List UInt8) → DownloadM (List UInt8)
  | [] => if budget = 0 then pure body else returned (ended.elim (.ok body) .error)
  | data :: reads =>
    if budget = 0 then pure body
    else do
      ask (.write path (data.take budget))
      copy path ended (budget - data.length) (body ++ data.take budget) reads

structure DownloadOptions where
  maxSize : Int64
  expectedHash : Text
  fileMode : ℕ

def DownloadOptions.limit (opts : DownloadOptions) : Int64 :=
  if opts.maxSize ≤ 0 then Int64.ofNat panelDownloadMaxSize else opts.maxSize

def publish (m : Settings) (temporary destination : Text) (opts : DownloadOptions)
    (response : Response) : DownloadM (Text × ℕ) := do
  -- at a negative N the LimitReader is at its end
  let body ← tryCatch
    (copy temporary response.ended (opts.limit + 1).toInt.toNat [] response.reads)
    fun err => do
      ask .cause
      throw ("read download body: " ++ err)
  ask .cause
  refuseIf (body.length = 0) "empty response body"
  refuseIf (opts.limit.toInt < body.length) ("body exceeds " ++ toString opts.limit ++ " bytes")
  refuseIf (opts.expectedHash ≠ [] ∧ m.sha256 body ≠ opts.expectedHash.map Char.toLower)
    ("sha256 mismatch, got " ++ String.ofList (m.sha256 body) ++ ", expected " ++
      String.ofList opts.expectedHash)
  wrap ("set downloaded file mode: " ++ ·)
    (ask (.chmod temporary (if opts.fileMode = 0 then 0o644 else opts.fileMode)))
  wrap ("close downloaded file: " ++ ·) (ask (.close temporary))
  wrap ("publish downloaded file: " ++ ·) (ask (.rename temporary destination))
  return (m.sha256 body, body.length)

-- the deferred function, which ignores the errors of its calls
def discarding {α : Type} (temporary : Text) (p : DownloadM α) : DownloadM α :=
  tryCatch p fun err => do
    let _ ← ExceptT.lift (perform (.close temporary))
    let _ ← ExceptT.lift (perform (.remove temporary))
    throw err

/- `usesHTTPS` is what `url.Parse` says about the address. The result has the digest and
the size. -/
def downloadFile (m : Settings) (usesHTTPS : String → Bool) (address : String)
    (destination : Text) (opts : DownloadOptions) : DownloadM (Text × ℕ) := do
  refuseIf (usesHTTPS (Strings.trim address) = false) "download URL must use HTTPS"
  wrap ("create download request: " ++ ·) (ask .newRequest)
  let response ← tryCatch (clientDo 10) fun err => do
    ask .cause
    throw ("download request: " ++ err)
  refuseIf (response.statusCode < 200 ∨ 300 ≤ response.statusCode)
    ("unexpected response " ++ response.status)
  refuseIf (response.https = false) "download ended at a non-HTTPS URL"
  refuseIf (opts.limit < response.contentLength)
    ("content-length exceeds " ++ toString opts.limit ++ " bytes")
  let temporary ← wrap ("create download temporary file: " ++ ·) (ask (.createTemp destination))
  discarding temporary (publish m temporary destination opts response)

def downloadPanelFile (m : Settings) (usesHTTPS : String → Bool) (address : String)
    (destination expectedHash : Text) (mode : ℕ) : DownloadM (Text × ℕ) :=
  downloadFile m usesHTTPS address destination
    ⟨Int64.ofNat panelDownloadMaxSize, expectedHash, mode⟩

/-! ### Atomicity -/

structure Job where
  m : Settings
  dir : Cache
  destination : Text
  opts : DownloadOptions

namespace Job

structure Accepted (j : Job) (body : List UInt8) : Prop where
  nonempty : 0 < body.length
  fits : body.length ≤ j.opts.limit.toInt
  digest : j.opts.expectedHash ≠ [] → j.m.sha256 body = j.opts.expectedHash.map Char.toLower

/- A new file was added that exceeds the limit by at most a byte. -/
def Staged (j : Job) (temporary : Text) (now : Cache) : Prop :=
  ∃ part : List UInt8, part.length ≤ j.opts.limit.toInt + 1 ∧ j.dir temporary = none ∧
    now = Function.update j.dir temporary (some (.file part))

def Unpublished (j : Job) (now : Cache) : Prop :=
  now = j.dir ∨ ∃ suffix, j.Staged (temporaryName j.destination suffix) now

def Published (j : Job) (body : List UInt8) (now : Cache) : Prop :=
  j.Accepted body ∧ now = Function.update j.dir j.destination (some (.file body))

/- The result is that of a response which came over at most ten redirects, all to HTTPS, and
its whole body is published. -/
def Succeeded (j : Job) (result : Text × ℕ) (t : Scene) : Prop :=
  ∃ hops response, hops.length ≤ 10 ∧ (∀ hop ∈ hops, ∃ url, hop = .redirect url true) ∧
    t.heard = hops ++ [.response response] ∧ j.Published response.reads.flatten t.dir ∧
    result = (j.m.sha256 response.reads.flatten, response.reads.flatten.length)

/- Every call leaves a directory with nothing published or with an accepted body. -/
abbrev Atomic {α : Type} (j : Job) (rely : Call Op Scene Choice → Prop) (p : DownloadM α)
    (ok : α → Scene → Prop) (err : String → Scene → Prop) (s : Scene) : Prop :=
  ensures serve rely (fun c => j.Unpublished (c.after serve).dir ∨
    ∃ body, j.Published body (c.after serve).dir) p ok err s

end Job

def Removes (rely : Call Op Scene Choice → Prop) : Prop :=
  ∀ c, rely c → ∀ path, c.op = .remove path → c.choice.failure = none

theorem limit_pos (opts : DownloadOptions) : 0 < opts.limit.toInt := by
  unfold DownloadOptions.limit
  split_ifs with h
  · decide
  · rw [Int64.le_iff_toInt_le] at h
    simpa using h

/- At the largest limit the sum wraps and nothing is read. -/
theorem budget_eq (opts : DownloadOptions) :
    (opts.limit + 1).toInt.toNat = 0 ∨
      ((opts.limit + 1).toInt.toNat : ℤ) = opts.limit.toInt + 1 := by
  have hpos := limit_pos opts
  have hlt := opts.limit.toInt_lt
  rw [Int64.toInt_add, Int64.toInt_one, Int.bmod_def]
  omega

section
variable {j : Job} {rely : Call Op Scene Choice → Prop} {s : Scene} {temporary : Text} {α : Type}
  {err : String → Scene → Prop}

theorem atomic_quiet {op : Op} {ok : op.Value → Scene → Prop} (hop : op.quiet = true)
    (hs : j.Unpublished s.dir) (hok : ∀ a, ok a s) (herr : ∀ x, err x s) :
    j.Atomic rely (ask op) ok err s := by
  rintro ⟨_ | x, reply, suffix, written⟩ -
  · cases op <;> first | exact ⟨.inl hs, hok _⟩ | cases hop
  · cases op <;> first | exact ⟨.inl hs, herr x⟩ | cases hop

theorem atomic_clientDo (more : ℕ) (s : Scene) (hs : s.dir = j.dir) :
    j.Atomic rely (clientDo more)
      (fun response t => t.dir = j.dir ∧ ∃ hops, hops.length ≤ more ∧
        (∀ hop ∈ hops, ∃ url, hop = .redirect url true) ∧
        t.heard = s.heard ++ hops ++ [.response response])
      (fun _ t => t.dir = j.dir) s := by
  rw [clientDo]
  refine ensures_bind.mpr ?_
  rintro ⟨_ | x, reply, suffix, written⟩ -
  · refine ⟨.inl (.inl hs), ?_⟩
    cases reply with
    | response response => exact ⟨hs, [], Nat.zero_le _, by simp, by simp [serve]⟩
    | redirect url https =>
      refine ensures_bind.mpr (ensures_refuseIf.mpr ⟨fun _ => hs, fun htrue => ?_⟩)
      rw [Bool.not_eq_false] at htrue
      cases more with
      | zero => exact hs
      | succ more =>
        refine ensures_mono (atomic_clientDo more _ hs) (fun response t ht => ?_) fun _ _ h => h
        obtain ⟨hdir, hops, hlen, hall, ht⟩ := ht
        exact ⟨hdir, .redirect url https :: hops, by simpa using hlen, by simpa [htrue] using hall,
          by simp [ht, serve]⟩
  · exact ⟨.inl (.inl hs), hs⟩

theorem atomic_copy {ended : Option String} {reads : List (List UInt8)} {budget : ℕ}
    {body : List UInt8} (hstaged : ∀ now, j.Staged temporary now → j.Unpublished now)
    (hfree : j.dir temporary = none)
    (hs : s.dir = Function.update j.dir temporary (some (.file body)))
    (hbudget : (body.length + budget : ℤ) ≤ j.opts.limit.toInt + 1) :
    j.Atomic rely (copy temporary ended budget body reads)
      (fun r t => t.heard = s.heard ∧ t.dir = Function.update j.dir temporary (some (.file r)) ∧
        r = body ++ reads.flatten.take budget)
      (fun _ t => j.Staged temporary t.dir) s := by
  induction reads generalizing s body budget with
  | nil =>
    rw [copy]
    split_ifs with hzero
    · exact ⟨rfl, hs, by simp⟩
    · cases ended with
      | none => exact ⟨rfl, hs, by simp⟩
      | some x => exact ⟨body, by omega, hfree, hs⟩
  | cons data reads ih =>
    rw [copy]
    split_ifs with hzero
    · exact ⟨rfl, hs, by simp [hzero]⟩
    have happend : ∀ more, s.append temporary more =
        ⟨Function.update j.dir temporary (some (.file (body ++ more))), s.heard⟩ := by
      intro more
      simp [Scene.append, hs]
    have hpart : ∀ n, j.Staged temporary (s.append temporary ((data.take budget).take n)).dir := by
      intro n
      rw [happend]
      refine ⟨_, ?_, hfree, rfl⟩
      simp only [List.length_append, List.length_take]
      omega
    refine ensures_bind.mpr ?_
    rintro ⟨_ | x, reply, suffix, written⟩ -
    · have hwritten := hpart budget
      rw [List.take_take, Nat.min_self] at hwritten
      have hless : ((body ++ data.take budget).length + (budget - data.length : ℕ) : ℤ) ≤
          j.opts.limit.toInt + 1 := by
        simp only [List.length_append, List.length_take]
        omega
      have hrest := ih (congrArg Scene.dir (happend (data.take budget))) hless
      simp only [happend, List.append_assoc] at hrest
      refine ⟨.inl (hstaged _ hwritten), ?_⟩
      simp only [serve, happend, List.flatten_cons, List.take_append]
      exact hrest
    · exact ⟨.inl (hstaged _ (hpart written)), hpart written⟩

theorem atomic_publish {response : Response}
    (hstaged : ∀ now, j.Staged temporary now → j.Unpublished now) (hfree : j.dir temporary = none)
    (hs : s.dir = Function.update j.dir temporary (some (.file []))) :
    j.Atomic rely (publish j.m temporary j.destination j.opts response)
      (fun r t => t.heard = s.heard ∧ j.Published response.reads.flatten t.dir ∧
        r = (j.m.sha256 response.reads.flatten, response.reads.flatten.length))
      (fun _ t => j.Staged temporary t.dir) s := by
  have hpos := limit_pos j.opts
  have hbudget := budget_eq j.opts
  refine ensures_bind.mpr (ensures_tryCatch.mpr (ensures_mono
    (atomic_copy hstaged hfree hs (by simp only [List.length_nil]; omega)) ?_ fun x t hkeep => ?_))
  · rintro body t ⟨hheard, hdir, hbody⟩
    rw [List.nil_append] at hbody
    -- from here on only the publication changes the directory
    have hkeep : j.Staged temporary t.dir :=
      ⟨body, by rw [hbody, List.length_take]; omega, hfree, hdir⟩
    have hpart := hstaged _ hkeep
    refine ensures_bind.mpr (atomic_quiet rfl hpart (fun _ => ?_) fun _ => hkeep)
    refine ensures_bind.mpr (ensures_refuseIf.mpr ⟨fun _ => hkeep, fun hnonempty => ?_⟩)
    refine ensures_bind.mpr (ensures_refuseIf.mpr ⟨fun _ => hkeep, fun hfits => ?_⟩)
    refine ensures_bind.mpr (ensures_refuseIf.mpr ⟨fun _ => hkeep, fun hdigest => ?_⟩)
    refine ensures_bind.mpr (ensures_wrap.mpr (atomic_quiet rfl hpart (fun _ => ?_) fun _ => hkeep))
    refine ensures_bind.mpr (ensures_wrap.mpr (atomic_quiet rfl hpart (fun _ => ?_) fun _ => hkeep))
    refine ensures_bind.mpr (ensures_wrap.mpr ?_)
    -- a body within the limit was not cut off
    have hwhole : body = response.reads.flatten := by
      rw [hbody, List.length_take] at hfits hnonempty
      rw [hbody, List.take_of_length_le (by omega)]
    subst hwhole
    have hmoved : j.Published response.reads.flatten (Function.update
        (Function.update t.dir temporary none) j.destination (t.dir temporary)) := by
      refine ⟨⟨Nat.pos_of_ne_zero hnonempty, not_lt.mp hfits,
        fun h => by_contra fun hd => hdigest ⟨h, hd⟩⟩, ?_⟩
      rw [hdir, Function.update_idem, Function.update_self, ← hfree, Function.update_eq_self]
    rintro ⟨_ | x, reply, suffix, written⟩ -
    · by_cases hdirectory : t.dir j.destination = some .directory
      · simp only [Call.after, serve, hdirectory, if_true]
        exact ⟨.inl hpart, hkeep⟩
      · simp only [Call.after, serve, if_neg hdirectory]
        exact ⟨.inr ⟨_, hmoved⟩, hheard, hmoved, rfl⟩
    · exact ⟨.inl hpart, hkeep⟩
  · exact ensures_bind.mpr (atomic_quiet rfl (hstaged _ hkeep) (fun _ => hkeep) fun _ => hkeep)

/- The temporary file is left behind only if it cannot be removed. -/
theorem atomic_discarding {p : DownloadM α} {ok : α → Scene → Prop}
    (hstaged : ∀ now, j.Staged temporary now → j.Unpublished now)
    (hp : j.Atomic rely p ok (fun _ t => j.Staged temporary t.dir) s) :
    j.Atomic rely (discarding temporary p) ok
      (fun _ t => j.Unpublished t.dir ∧ (Removes rely → t.dir = j.dir)) s := by
  refine ensures_tryCatch.mpr (ensures_mono hp (fun _ _ h => h) fun x t hkeep => ?_)
  refine ensures_bind.mpr (ensures_lift.mpr fun e _ => ?_)
  have hclose : (serve (.close temporary) t e).2 = t := by
    rcases e with ⟨_ | x, reply, suffix, written⟩ <;> rfl
  rw [Call.after, hclose]
  refine ⟨.inl (hstaged _ hkeep), ensures_bind.mpr (ensures_lift.mpr ?_)⟩
  rintro ⟨_ | x, reply, suffix, written⟩ hrely
  · have hback : Function.update t.dir temporary none = j.dir := by
      obtain ⟨part, -, hfree, hdir⟩ := hkeep
      rw [hdir, Function.update_idem, ← hfree, Function.update_eq_self]
    exact ⟨.inl (.inl hback), .inl hback, fun _ => hback⟩
  · exact ⟨.inl (hstaged _ hkeep), hstaged _ hkeep, fun h => by cases h _ hrely _ rfl⟩

variable (j rely) in
theorem atomic_downloadFile (usesHTTPS : String → Bool) (address : String) :
    j.Atomic rely (downloadFile j.m usesHTTPS address j.destination j.opts) j.Succeeded
      (fun _ t => j.Unpublished t.dir ∧ (Removes rely → t.dir = j.dir)) ⟨j.dir, []⟩ := by
  have hstart : j.Unpublished j.dir := .inl rfl
  have hkeep : j.Unpublished j.dir ∧ (Removes rely → j.dir = j.dir) := ⟨hstart, fun _ => rfl⟩
  refine ensures_bind.mpr (ensures_refuseIf.mpr ⟨fun _ => hkeep, fun _ => ?_⟩)
  refine ensures_bind.mpr (ensures_wrap.mpr (atomic_quiet rfl hstart (fun _ => ?_) fun _ => hkeep))
  refine ensures_bind.mpr (ensures_tryCatch.mpr (ensures_mono
    (atomic_clientDo 10 ⟨j.dir, []⟩ rfl) ?_ ?_))
  · rintro response ⟨_, _⟩ ⟨rfl, hops, hlen, hall, rfl⟩
    refine ensures_bind.mpr (ensures_refuseIf.mpr ⟨fun _ => hkeep, fun _ => ?_⟩)
    refine ensures_bind.mpr (ensures_refuseIf.mpr ⟨fun _ => hkeep, fun _ => ?_⟩)
    refine ensures_bind.mpr (ensures_refuseIf.mpr ⟨fun _ => hkeep, fun _ => ?_⟩)
    refine ensures_bind.mpr (ensures_wrap.mpr ?_)
    rintro ⟨_ | x, reply, suffix, written⟩ -
    · by_cases htaken : (j.dir (temporaryName j.destination suffix)).isSome
      · simp only [Call.after, serve, htaken, if_true]
        exact ⟨.inl hstart, hkeep⟩
      · simp only [Call.after, serve, if_neg htaken]
        have hfree : j.dir (temporaryName j.destination suffix) = none := by simpa using htaken
        have hstaged : ∀ now, j.Staged (temporaryName j.destination suffix) now →
            j.Unpublished now := fun now h => .inr ⟨suffix, h⟩
        refine ⟨.inl (hstaged _ ⟨[], ?_, hfree, rfl⟩), atomic_discarding hstaged ?_⟩
        · have := limit_pos j.opts
          simp only [List.length_nil]
          omega
        refine ensures_mono (atomic_publish hstaged hfree rfl) ?_ fun _ _ h => h
        rintro r t ⟨hheard, hpublished, hr⟩
        exact ⟨hops, response, hlen, hall, hheard, hpublished, hr⟩
    · exact ⟨.inl hstart, hkeep⟩
  · rintro x ⟨_, _⟩ rfl
    exact ensures_bind.mpr (atomic_quiet rfl hstart (fun _ => hkeep) fun _ => hkeep)

end

/-- Wherever a download is cut off, the directory is what it was but for the temporary
file, until the destination holds an accepted body. A failed download publishes nothing,
and if its temporary file can be removed, the directory ends as it began. -/
theorem download_atomic (j : Job) (usesHTTPS : String → Bool) (address : String)
    (world : ℕ → Choice) :
    let p := (downloadFile j.m usesHTTPS address j.destination j.opts).run
    let (result, last) := p.run serve world ⟨j.dir, []⟩
    (∀ t ∈ p.trail serve world ⟨j.dir, []⟩, j.Unpublished t.dir ∨ ∃ body, j.Published body t.dir) ∧
    (∀ r, result = .ok r → j.Succeeded r last) ∧
    (∀ err, result = .error err → j.Unpublished last.dir ∧
      ((∀ c ∈ calls serve p world ⟨j.dir, []⟩, ∀ path, c.op = .remove path →
        c.choice.failure = none) → last.dir = j.dir)) := by
  intro p
  have hall := atomic_downloadFile j (fun _ => True) usesHTTPS address
  have hend := assured_run hall world fun _ _ => trivial
  refine ⟨assured_trail (G := fun _ (t : Scene) => j.Unpublished t.dir ∨
    ∃ body, j.Published body t.dir) hall (fun _ _ _ _ h => h) world fun _ _ => trivial,
    fun r hr => ?_, fun err herr => ⟨?_, fun hc => ?_⟩⟩
  · rw [hr] at hend
    exact hend
  · rw [herr] at hend
    exact hend.1
  · have hremoved := assured_run (atomic_downloadFile j
      (fun c => ∀ path, c.op = .remove path → c.choice.failure = none) usesHTTPS address) world hc
    rw [herr] at hremoved
    exact hremoved.2 fun _ h => h

end RemnanodeLite.Xray.Cores.Download
