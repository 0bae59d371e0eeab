import RemnanodeLite.Lib.Strconv
import RemnanodeLite.Lib.Transition

/-! # Killing a process group and making sure of it

`cleanupOwnedProcessGroup` and what it calls (`internal/xray/process_linux.go`),
beside a `/proc` in which processes come, go and change between any two steps. -/

namespace RemnanodeLite.Xray.ProcessGroup
open Strconv Transition

/-! ### Processes -/

/- The states of `/proc/<pid>/stat`. -/
inductive State where
  | running
  | sleeping
  | diskSleep
  | stopped
  | tracingStop
  | zombie
  | dead
  | idle
  deriving DecidableEq

def State.letter : State → Char
  | running => 'R'
  | sleeping => 'S'
  | diskSleep => 'D'
  | stopped => 'T'
  | tracingStop => 't'
  | zombie => 'Z'
  | dead => 'X'
  | idle => 'I'

/- `id` tells apart the processes that have one pid after another. The command may
be any text. -/
structure Process where
  id : ℕ
  command : List Char
  state : State
  parent : ℤ
  group : ℤ
  others : List ℤ
  group_int : isInt64 group = true

/- Neither zombie nor dead. -/
def Process.alive (p : Process) : Bool := p.state ≠ .zombie && p.state ≠ .dead

def numbersText : List ℤ → List Char
  | [] => ['\n']
  | n :: rest => itoa n ++ ' ' :: numbersText rest

/- `/proc/<pid>/stat`. -/
def Process.stat (p : Process) (pid : ℕ) : List Char :=
  (itoa pid ++ ' ' :: '(' :: p.command) ++ ([')', ' '] ++
    ([p.state.letter] ++ ' ' :: (itoa p.parent ++ ' ' :: (itoa p.group ++ ' ' :: numbersText p.others))))

structure Table where
  procs : ℕ → Option Process
  pid_int : ∀ pid p, procs pid = some p → isInt64 pid = true

def Table.find (table : Table) (pid : ℤ) : Option Process :=
  if 0 ≤ pid then table.procs pid.toNat else none

/-! ### Reading a stat file -/

def maxProcStatBytes : ℕ := 4096

inductive StatError where
  | openFile
  | readFile
  | vanished
  | exceeds
  | missingTerminator
  | incomplete
  | processGroup
  deriving DecidableEq

/- `readLinuxProcessStat` after the file has been read. -/
def parseStat (raw : List Char) : Except StatError (Char × ℤ) :=
  if maxProcStatBytes < raw.length then .error .exceeds
  else match afterLast [')', ' '] raw with
    | none => .error .missingTerminator
    | some rest => match fields rest with
      | [state] :: _ :: group :: _ => match atoi group with
        | none => .error .processGroup
        | some group => .ok (state, group)
      | _ => .error .incomplete

/-! ### The members that a scan has found -/

def maxReportedGroupMembers : ℕ := 8

structure Member where
  pid : ℤ
  state : Char
  deriving DecidableEq

structure Snapshot where
  total : ℕ
  reported : List Member
  deriving DecidableEq

def Snapshot.add (members : Snapshot) (member : Member) : Snapshot where
  total := members.total + 1
  reported := if members.reported.length < maxReportedGroupMembers then
    members.reported ++ [member] else members.reported

def Snapshot.sorted (members : Snapshot) : Snapshot :=
  { members with reported := members.reported.mergeSort fun a b => a.pid ≤ b.pid }

/-! ### The cleanup -/

inductive CleanupError where
  | kill
  | openProc
  | readDir
  | stat (pid : ℤ) (error : StatError)
  | scanTimeout (members : Snapshot)
  | timedOut (members : Snapshot)
  deriving DecidableEq

/- The error of `ReadDir`. -/
inductive ReadError where
  | eof
  | failed
  deriving DecidableEq

/- Where the cleanup is. The entries that are left of the last chunk come with the
error of that chunk; an opened stat file belongs to one process. -/
inductive PC where
  | kill
  | openProc
  | readDir
  | entries (names : List (List Char)) (readErr : Option ReadError)
  | openStat (pid : ℤ) (names : List (List Char)) (readErr : Option ReadError)
  | readStat (pid : ℤ) (id : ℕ) (names : List (List Char)) (readErr : Option ReadError)
  | scanned
  | sleep
  | returned (result : Option CleanupError)
  deriving DecidableEq

/- `scan` and `seen` are history: the tables since the scan began, and the names that
it was given. -/
structure Cleanup where
  leader : ℕ
  table : Table
  deadlinePassed : Bool
  pc : PC
  members : Snapshot
  scan : List Table
  seen : List (List Char)

def Cleanup.start (leader : ℕ) (table : Table) (deadlinePassed : Bool) : Cleanup :=
  ⟨leader, table, deadlinePassed, .kill, ⟨0, []⟩, [], []⟩

/- What the environment decides at a call: whether it fails although nothing has
vanished, and what a chunk of the directory holds. -/
structure Choice where
  failed : Bool
  names : List (List Char)
  readErr : Option ReadError

def Cleanup.finish (s : Cleanup) (result : Option CleanupError) : Cleanup :=
  { s with pc := .returned result }

def Cleanup.readStat (s : Cleanup) (pid : ℤ) (id : ℕ) (names : List (List Char))
    (readErr : Option ReadError) (failed : Bool) : Cleanup :=
  match (s.table.find pid).filter fun p => p.id = id with
  | none => s.finish (some (.stat pid .vanished))
  | some p =>
    if failed then s.finish (some (.stat pid .readFile))
    else match parseStat (p.stat pid.toNat) with
      | .error error => s.finish (some (.stat pid error))
      | .ok (state, group) =>
        { s with
          pc := .entries names readErr
          members := if group = s.leader ∧ state ≠ 'Z' ∧ state ≠ 'X' then
            s.members.add ⟨pid, state⟩ else s.members }

def Cleanup.run (s : Cleanup) (ch : Choice) : Option Cleanup :=
  match s.pc with
  -- an ESRCH of the kill is no failure
  | .kill => some (if ch.failed then s.finish (some .kill) else { s with pc := .openProc })
  | .openProc =>
    some (if ch.failed then s.finish (some .openProc)
      else { s with pc := .readDir, members := ⟨0, []⟩, scan := [s.table], seen := [] })
  | .readDir => some { s with pc := .entries ch.names ch.readErr, seen := s.seen ++ ch.names }
  | .entries (name :: names) readErr =>
    some (if s.deadlinePassed then s.finish (some (.scanTimeout s.members))
      else match atoi name with
        | none => { s with pc := .entries names readErr }
        | some pid =>
          if pid = s.leader then { s with pc := .entries names readErr }
          else { s with pc := .openStat pid names readErr })
  | .entries [] none => some { s with pc := .readDir }
  | .entries [] (some .eof) => some { s with pc := .scanned, members := s.members.sorted }
  | .entries [] (some .failed) => some (s.finish (some .readDir))
  | .openStat pid names readErr =>
    some (match s.table.find pid with
      | none => { s with pc := .entries names readErr }
      | some p =>
        if ch.failed then s.finish (some (.stat pid .openFile))
        else { s with pc := .readStat pid p.id names readErr })
  | .readStat pid id names readErr => some (s.readStat pid id names readErr ch.failed)
  | .scanned =>
    some (if s.members.total = 0 then s.finish none
      else if s.deadlinePassed then s.finish (some (.timedOut s.members))
      else { s with pc := .sleep })
  | .sleep => some { s with pc := .openProc }
  | .returned _ => none

inductive Event where
  | processes (table : Table)
  | deadline
  | run (ch : Choice)

def step (s : Cleanup) : Event → Option Cleanup
  | .processes table => some { s with table := table, scan := table :: s.scan }
  | .deadline => some { s with deadlinePassed := true }
  | .run ch => s.run ch

/-! ### What is assumed of the directory -/

/- One process was alive at all these moments. -/
def AliveThroughout (scan : List Table) (pid id : ℕ) : Prop :=
  ∀ table ∈ scan, ∃ p, table.procs pid = some p ∧ p.id = id ∧ p.alive = true

/- The listing contains every process that is alive throughout the scan. -/
def ListsAll (s : Cleanup) : Event → Prop
  | .run ch => s.pc = .readDir → ch.readErr = some .eof →
      ∀ pid id, AliveThroughout s.scan pid id → itoa pid ∈ s.seen ++ ch.names
  | _ => True

/-! ### The parser -/

theorem isSpace_digit {c : Char} (h : c = '-' ∨ c.isDigit = true) : Strings.isSpace c = false := by
  rcases h with rfl | h
  · decide
  · simp only [Char.isDigit, Bool.and_eq_true, decide_eq_true_eq] at h
    have h48 : 48 ≤ c.toNat := h.1
    have h57 : c.toNat ≤ 57 := h.2
    simp only [Strings.isSpace, Bool.or_eq_false_iff, Bool.and_eq_false_iff, decide_eq_false_iff_not]
    omega

theorem isSpace_itoa (n : ℤ) : ∀ c ∈ itoa n, Strings.isSpace c = false :=
  fun _ hc => isSpace_digit (mem_itoa hc)

theorem paren_notMem_itoa (n : ℤ) : ')' ∉ itoa n := by
  intro h
  rcases mem_itoa h with h | h
  · cases h
  · exact absurd h (by decide)

theorem paren_notMem_numbers (numbers : List ℤ) : ')' ∉ numbersText numbers := by
  induction numbers with
  | nil => decide
  | cons n rest ih => simp [numbersText, paren_notMem_itoa, ih]

/-- The parser finds the state and the group of every process, whatever its command
contains. -/
theorem parseStat_stat (p : Process) (pid : ℕ) (h : (p.stat pid).length ≤ maxProcStatBytes) :
    parseStat (p.stat pid) = .ok (p.state.letter, p.group) := by
  have hletter : Strings.isSpace p.state.letter = false := by cases p.state <;> decide
  have hparen : ')' ≠ p.state.letter := by cases p.state <;> decide
  have hblank : Strings.isSpace ' ' = true := by decide
  have hafter : afterLast [')', ' '] (p.stat pid) = some ([p.state.letter] ++ ' ' ::
      (itoa p.parent ++ ' ' :: (itoa p.group ++ ' ' :: numbersText p.others))) := by
    apply afterLast_append (by decide)
    simp [hparen, paren_notMem_itoa, paren_notMem_numbers]
  have hfields : fields ([p.state.letter] ++ ' ' ::
      (itoa p.parent ++ ' ' :: (itoa p.group ++ ' ' :: numbersText p.others))) =
      [p.state.letter] :: itoa p.parent :: itoa p.group :: fields (numbersText p.others) := by
    rw [fields_cons (by simp) (by simpa using hletter) hblank,
      fields_cons (itoa_ne_nil _) (isSpace_itoa _) hblank,
      fields_cons (itoa_ne_nil _) (isSpace_itoa _) hblank]
  simp only [parseStat, Nat.not_lt.mpr h, if_false, hafter, hfields, atoi_itoa p.group_int]

example : parseStat (Process.stat ⟨1, "a) R 1 ".toList, .sleeping, 1, 42, [], rfl⟩ 7) =
    .ok ('S', 42) := by decide

/-! ### What a scan has found -/

/- One process was a living member of the group at all these moments. -/
def MemberThroughout (group : ℤ) (scan : List Table) (pid id : ℕ) : Prop :=
  ∀ table ∈ scan, ∃ p, table.procs pid = some p ∧ p.id = id ∧ p.group = group ∧ p.alive = true

section
variable {s s' : Cleanup} {group : ℤ} {scan : List Table} {table : Table} {pid id : ℕ}
  {names : List (List Char)} {current : Option ℤ}

theorem MemberThroughout.alive (h : MemberThroughout group scan pid id) :
    AliveThroughout scan pid id := by
  intro table htable
  obtain ⟨p, hp, hid, -, halive⟩ := h table htable
  exact ⟨p, hp, hid, halive⟩

theorem MemberThroughout.earlier (h : MemberThroughout group (table :: scan) pid id) :
    MemberThroughout group scan pid id :=
  fun earlier hearlier => h earlier (List.mem_cons_of_mem table hearlier)

theorem AliveThroughout.earlier (h : AliveThroughout (table :: scan) pid id) :
    AliveThroughout scan pid id :=
  fun earlier hearlier => h earlier (List.mem_cons_of_mem table hearlier)

/- A name of the listing is of no living member, or it is the leader's. -/
def Cleared (s : Cleanup) (name : List Char) : Prop :=
  ∀ pid id : ℕ, name = itoa pid → pid ≠ s.leader → ¬ MemberThroughout s.leader s.scan pid id

/- As long as no member has been found, every name of the listing is cleared, except
for those that are still to come and the one that is being looked at. -/
def Searched (s : Cleanup) (names : List (List Char)) (current : Option ℤ) : Prop :=
  s.members.total = 0 → ∀ name ∈ s.seen,
    name ∈ names ∨ (∃ pid, current = some pid ∧ atoi name = some pid) ∨ Cleared s name

def Listed (s : Cleanup) : Prop :=
  ∀ pid id, AliveThroughout s.scan pid id → itoa pid ∈ s.seen

def Cleanup.Ok (s : Cleanup) : Prop :=
  match s.pc with
  | .kill | .openProc | .sleep | .returned _ => True
  | .readDir => s.table ∈ s.scan ∧ Searched s [] none
  | .entries names readErr =>
    s.table ∈ s.scan ∧ Searched s names none ∧ (readErr = some .eof → Listed s)
  | .openStat pid names readErr | .readStat pid _ names readErr =>
    s.table ∈ s.scan ∧ Searched s names (some pid) ∧ (readErr = some .eof → Listed s)
  | .scanned => s.table ∈ s.scan ∧ Searched s [] none ∧ Listed s

variable {name : List Char} {number : ℤ}

theorem Cleared.later (h : Cleared s name) :
    Cleared { s with table := table, scan := table :: s.scan } name :=
  fun pid id hname hne hmember => h pid id hname hne hmember.earlier

theorem Searched.later (h : Searched s names current) :
    Searched { s with table := table, scan := table :: s.scan } names current := by
  intro htotal name hname
  exact (h htotal name hname).imp_right (Or.imp_right Cleared.later)

theorem Listed.later (h : Listed s) : Listed { s with table := table, scan := table :: s.scan } :=
  fun pid id halive => h pid id halive.earlier

theorem Searched.next (h : Searched s (name :: names) none) (hclear : Cleared s name) :
    Searched s names none := by
  intro htotal n hn
  rcases h htotal n hn with hn | ⟨pid, hcur, -⟩ | hn
  · rcases List.mem_cons.mp hn with rfl | hn
    · exact .inr (.inr hclear)
    · exact .inl hn
  · cases hcur
  · exact .inr (.inr hn)

theorem Searched.look (h : Searched s (name :: names) none) (hname : atoi name = some number) :
    Searched s names (some number) := by
  intro htotal n hn
  rcases h htotal n hn with hn | ⟨pid, hcur, -⟩ | hn
  · rcases List.mem_cons.mp hn with rfl | hn
    · exact .inr (.inl ⟨number, rfl, hname⟩)
    · exact .inl hn
  · cases hcur
  · exact .inr (.inr hn)

theorem Searched.pass (h : Searched s names (some number)) (hnow : s.table ∈ s.scan)
    (hnot : ∀ p, s.table.find number = some p → p.group = s.leader → p.alive = false) :
    Searched s names none := by
  intro htotal n hn
  rcases h htotal n hn with hn | ⟨pid, hcur, hatoi⟩ | hn
  · exact .inl hn
  · right
    right
    cases hcur
    intro pid id hname _ hmember
    obtain ⟨p, hp, -, hgroup, halive⟩ := hmember s.table hnow
    have hnumber : number = pid := by
      rw [hname, atoi_itoa (s.table.pid_int pid p hp)] at hatoi
      exact (Option.some.inj hatoi).symm
    have hfind : s.table.find number = some p := by
      rw [hnumber]
      simpa [Table.find] using hp
    rw [hnot p hfind hgroup] at halive
    cases halive
  · exact .inr (.inr hn)

theorem searched_of_found (h : s.members.total ≠ 0) : Searched s names current :=
  fun htotal => absurd htotal h

theorem searched_start (s : Cleanup) :
    Searched { s with pc := .readDir, members := ⟨0, []⟩, scan := [s.table], seen := [] } [] none := by
  intro _ name hname
  cases hname

theorem Searched.chunk (h : Searched s [] none) :
    Searched { s with seen := s.seen ++ names } names none := by
  intro htotal name hname
  rcases List.mem_append.mp hname with hname | hname
  · rcases h htotal name hname with hnil | ⟨pid, hcur, -⟩ | hclear
    · cases hnil
    · cases hcur
    · exact .inr (.inr hclear)
  · exact .inl hname

theorem Cleanup.Ok.later (h : s.Ok) (table : Table) :
    Cleanup.Ok { s with table := table, scan := table :: s.scan } := by
  unfold Cleanup.Ok at h ⊢
  have hnow : table ∈ table :: s.scan := List.mem_cons_self
  cases hpc : s.pc with
  | kill | openProc | sleep | returned result => trivial
  | readDir =>
    simp only [hpc] at h ⊢
    exact ⟨hnow, h.2.later⟩
  | entries names readErr | openStat pid names readErr | readStat pid id names readErr =>
    simp only [hpc] at h ⊢
    exact ⟨hnow, h.2.1.later, fun heof => (h.2.2 heof).later⟩
  | scanned =>
    simp only [hpc] at h ⊢
    exact ⟨hnow, h.2.1.later, h.2.2.later⟩

theorem Cleanup.Ok.readStat {readErr : Option ReadError} (failed : Bool) (h : s.Ok)
    (hpc : s.pc = .readStat number id names readErr) :
    (s.readStat number id names readErr failed).Ok := by
  simp only [Cleanup.Ok, hpc] at h
  obtain ⟨hnow, hsearched, hlisted⟩ := h
  unfold Cleanup.readStat
  split
  · trivial
  · next p hp =>
    obtain ⟨hfind, -⟩ := Option.filter_eq_some_iff.mp hp
    split_ifs
    · trivial
    · split
      · trivial
      · next state group hparse =>
        have hshort : (p.stat number.toNat).length ≤ maxProcStatBytes := by
          by_contra hlong
          simp [parseStat, Nat.lt_of_not_le hlong] at hparse
        rw [parseStat_stat p _ hshort] at hparse
        cases hparse
        split_ifs with hmember
        · exact ⟨hnow, searched_of_found (Nat.succ_ne_zero _), hlisted⟩
        · refine ⟨hnow, hsearched.pass hnow ?_, hlisted⟩
          intro q hq hgroup
          rw [hfind] at hq
          cases hq
          cases hstate : p.state with
          | zombie | dead => simp [Process.alive, hstate]
          | _ => simp [hgroup, hstate, State.letter] at hmember

theorem Cleanup.Ok.step {e : Event} (h : s.Ok) (hlists : ListsAll s e)
    (hstep : ProcessGroup.step s e = some s') : s'.Ok := by
  cases e with
  | processes table =>
    cases hstep
    exact h.later table
  | deadline =>
    cases hstep
    exact h
  | run ch =>
    simp only [ProcessGroup.step, Cleanup.run] at hstep
    split at hstep
    · cases hstep
      split_ifs <;> trivial
    · cases hstep
      split_ifs
      · trivial
      · exact ⟨List.mem_singleton_self _, searched_start s⟩
    · next hpc =>
      cases hstep
      simp only [Cleanup.Ok, hpc] at h
      exact ⟨h.1, h.2.chunk, fun heof => hlists hpc heof⟩
    · next name names readErr hpc =>
      cases hstep
      simp only [Cleanup.Ok, hpc] at h
      obtain ⟨hnow, hsearched, hlisted⟩ := h
      split_ifs with hdeadline
      · trivial
      · split
        · next hatoi =>
          refine ⟨hnow, hsearched.next ?_, hlisted⟩
          intro pid id hname _ hmember
          obtain ⟨p, hp, -⟩ := hmember s.table hnow
          rw [hname, atoi_itoa (s.table.pid_int pid p hp)] at hatoi
          cases hatoi
        · next number hatoi =>
          split_ifs with hleader
          · refine ⟨hnow, hsearched.next ?_, hlisted⟩
            intro pid id hname hne hmember
            obtain ⟨p, hp, -⟩ := hmember s.table hnow
            rw [hname, atoi_itoa (s.table.pid_int pid p hp)] at hatoi
            cases hatoi
            exact hne (by exact_mod_cast hleader)
          · exact ⟨hnow, hsearched.look hatoi, hlisted⟩
    · next hpc =>
      cases hstep
      simp only [Cleanup.Ok, hpc] at h
      exact ⟨h.1, h.2.1⟩
    · next hpc =>
      cases hstep
      simp only [Cleanup.Ok, hpc] at h
      exact ⟨h.1, h.2.1, h.2.2 trivial⟩
    · cases hstep
      trivial
    · next number names readErr hpc =>
      cases hstep
      simp only [Cleanup.Ok, hpc] at h
      obtain ⟨hnow, hsearched, hlisted⟩ := h
      split
      · next hnone =>
        refine ⟨hnow, hsearched.pass hnow ?_, hlisted⟩
        intro p hp
        rw [hnone] at hp
        cases hp
      · split_ifs
        · trivial
        · exact ⟨hnow, hsearched, hlisted⟩
    · next number id names readErr hpc =>
      cases hstep
      exact h.readStat ch.failed hpc
    · cases hstep
      split_ifs <;> trivial
    · cases hstep
      trivial
    · cases hstep

theorem reached_ok {leader : ℕ} {deadlinePassed : Bool}
    (hrun : Steps step ListsAll (Cleanup.start leader table deadlinePassed) s) : s.Ok :=
  hrun.invariant Cleanup.Ok trivial fun _ _ _ h hlists hstep => h.step hlists hstep

/-! ### What the cleanup returns -/

/- No member of the group other than its leader was alive throughout the last scan. -/
def NoMember (s : Cleanup) : Prop :=
  ∀ pid id : ℕ, pid ≠ s.leader → ¬ MemberThroughout s.leader s.scan pid id

theorem Listed.noMember (h : Listed s) (hsearched : Searched s [] none)
    (htotal : s.members.total = 0) : NoMember s := by
  intro pid id hne hmember
  rcases hsearched htotal _ (h pid id hmember.alive) with hnil | ⟨_, hcur, -⟩ | hclear
  · cases hnil
  · cases hcur
  · exact hclear pid id rfl hne hmember

/- The call that returns the error failed, the deadline has passed, or the stat file of
a process that exists could not be read: the call failed or the file is too long. -/
def Caused (s : Cleanup) (ch : Choice) : CleanupError → Prop
  | .kill => s.pc = .kill ∧ ch.failed = true
  | .openProc => s.pc = .openProc ∧ ch.failed = true
  | .readDir => s.pc = .entries [] (some .failed)
  | .scanTimeout _ | .timedOut _ => s.deadlinePassed = true
  | .stat pid _ => match s.pc with
    | .openStat number _ _ => number = pid ∧ (s.table.find pid).isSome = true ∧ ch.failed = true
    | .readStat number id _ _ => number = pid ∧ ∃ p, s.table.find pid = some p ∧ p.id = id ∧
        (ch.failed = true ∨ maxProcStatBytes < (p.stat pid.toNat).length)
    | _ => False

/- A step that returns nil leaves no living member, one that returns an error has a
cause. -/
def AsClaimed (s : Cleanup) (e : Event) (s' : Cleanup) : Prop :=
  ∀ result, s.pc ≠ .returned result → s'.pc = .returned result → match result with
    | none => NoMember s'
    | some err => ∃ ch, e = .run ch ∧ Caused s ch err

/- An opened stat file is read after its process has gone. -/
def ReadsVanished (s : Cleanup) (e : Event) : Prop :=
  ∃ pid id names readErr ch, s.pc = .readStat pid id names readErr ∧ e = .run ch ∧
    ∀ p, s.table.find pid = some p → p.id ≠ id

theorem readStat_caused {readErr : Option ReadError} {ch : Choice} {result : Option CleanupError}
    (hpc : s.pc = .readStat number id names readErr)
    (hexists : ∃ p, s.table.find number = some p ∧ p.id = id)
    (hret : (s.readStat number id names readErr ch.failed).pc = .returned result) :
    ∃ err, result = some err ∧ Caused s ch err := by
  obtain ⟨p, hp, hid⟩ := hexists
  have hfilter : (s.table.find number).filter (fun p => p.id = id) = some p := by
    simp [hp, hid, Option.filter]
  unfold Cleanup.readStat at hret
  rw [hfilter] at hret
  dsimp only at hret
  split_ifs at hret with hfailed
  · cases hret
    refine ⟨_, rfl, ?_⟩
    simp only [Caused, hpc]
    exact ⟨trivial, p, hp, hid, .inl hfailed⟩
  · by_cases hlong : maxProcStatBytes < (p.stat number.toNat).length
    · rw [parseStat, if_pos hlong] at hret
      cases hret
      refine ⟨_, rfl, ?_⟩
      simp only [Caused, hpc]
      exact ⟨trivial, p, hp, hid, .inr hlong⟩
    · rw [parseStat_stat p _ (Nat.le_of_not_lt hlong)] at hret
      cases hret

theorem returned_asClaimed {ch : Choice} (h : s.Ok) (hread : ¬ ReadsVanished s (.run ch))
    (hstep : s.run ch = some s') : AsClaimed s (.run ch) s' := by
  intro result hnot hret
  unfold Cleanup.run at hstep
  split at hstep
  · next hpc =>
    cases hstep
    split_ifs at hret with hfailed
    · cases hret
      exact ⟨ch, rfl, hpc, hfailed⟩
  · next hpc =>
    cases hstep
    split_ifs at hret with hfailed
    · cases hret
      exact ⟨ch, rfl, hpc, hfailed⟩
  · cases hstep
    cases hret
  · cases hstep
    split_ifs at hret with hdeadline
    · cases hret
      exact ⟨ch, rfl, hdeadline⟩
    · split at hret
      · cases hret
      · split_ifs at hret
  · cases hstep
    cases hret
  · cases hstep
    cases hret
  · next hpc =>
    cases hstep
    cases hret
    exact ⟨ch, rfl, hpc⟩
  · next number names readErr hpc =>
    cases hstep
    split at hret
    · cases hret
    · next p hp =>
      split_ifs at hret with hfailed
      · cases hret
        refine ⟨ch, rfl, ?_⟩
        simp only [Caused, hpc, hp]
        exact ⟨trivial, rfl, hfailed⟩
  · next number id names readErr hpc =>
    cases hstep
    have hexists : ∃ p, s.table.find number = some p ∧ p.id = id := by
      by_contra hgone
      push Not at hgone
      exact hread ⟨number, id, names, readErr, ch, hpc, rfl, hgone⟩
    obtain ⟨err, rfl, hcaused⟩ := readStat_caused hpc hexists hret
    exact ⟨ch, rfl, hcaused⟩
  · next hpc =>
    cases hstep
    simp only [Cleanup.Ok, hpc] at h
    split_ifs at hret with htotal hdeadline
    · cases hret
      rw [if_pos htotal]
      exact h.2.2.noMember h.2.1 htotal
    · cases hret
      exact ⟨ch, rfl, hdeadline⟩
  · cases hstep
    cases hret
  · cases hstep

/-- In every run, the step that returns gives nil only when no member of the group
was alive throughout the last scan, and gives an error only for a failed call, a passed
deadline or the unreadable stat file of a process that exists, unless it reads the stat file
of a process that went away after the file was opened. -/
theorem cleanup_asClaimed_iff {leader : ℕ} {deadlinePassed : Bool} {e : Event}
    (hrun : Steps step ListsAll (Cleanup.start leader table deadlinePassed) s)
    (hstep : step s e = some s') :
    AsClaimed s e s' ↔ ¬ ReadsVanished s e := by
  constructor
  · rintro hclaimed ⟨number, id, names, readErr, ch, hpc, rfl, hgone⟩
    have hnone : (s.table.find number).filter (fun p => p.id = id) = none := by
      rw [Option.filter_eq_none_iff]
      simpa using hgone
    have hs' : s' = s.finish (some (.stat number .vanished)) := by
      simp only [step, Cleanup.run, hpc, Cleanup.readStat, hnone] at hstep
      exact (Option.some.inj hstep).symm
    obtain ⟨ch', -, hcaused⟩ := hclaimed (some (.stat number .vanished))
      (by rw [hpc]; nofun) (by rw [hs']; rfl)
    simp only [Caused, hpc] at hcaused
    obtain ⟨-, p, hp, hid, -⟩ := hcaused
    exact hgone p hp hid
  · intro hread
    cases e with
    | processes table | deadline =>
      cases hstep
      exact fun result hnot hret => absurd hret hnot
    | run ch => exact returned_asClaimed (reached_ok hrun) hread hstep

end

/-! A process of another group, whose stat file the scan has opened. -/

def foreign : Process := ⟨0, ['s', 'h'], .sleeping, 1, 7, [], rfl⟩

def foreignTable : Table where
  procs pid := if pid = 7 then some foreign else none
  pid_int pid p h := by
    split_ifs at h with hpid
    rw [hpid]
    rfl

def emptyTable : Table where
  procs _ := none
  pid_int _ _ h := nomatch h

def foreignOpened : Cleanup :=
  ⟨42, foreignTable, false, .readStat 7 0 [] (some .eof), ⟨0, []⟩, [foreignTable], [['7']]⟩

theorem foreignOpened_reached :
    Steps step ListsAll (Cleanup.start 42 foreignTable false) foreignOpened := by
  have hlists : ListsAll ⟨42, foreignTable, false, .readDir, ⟨0, []⟩, [foreignTable], []⟩
      (.run ⟨false, [['7']], some .eof⟩) := by
    intro _ _ pid id halive
    obtain ⟨p, hp, -⟩ := halive foreignTable List.mem_cons_self
    by_cases hpid : pid = 7
    · rw [hpid]
      decide
    · simp [foreignTable, hpid] at hp
  have hlisting : Steps step ListsAll (Cleanup.start 42 foreignTable false)
      ⟨42, foreignTable, false, .readDir, ⟨0, []⟩, [foreignTable], []⟩ :=
    (Steps.refl.tail (.run ⟨false, [], none⟩) nofun rfl).tail (.run ⟨false, [], none⟩) nofun rfl
  have hlisted : Steps step ListsAll (Cleanup.start 42 foreignTable false)
      ⟨42, foreignTable, false, .entries [['7']] (some .eof), ⟨0, []⟩, [foreignTable], [['7']]⟩ :=
    hlisting.tail (.run ⟨false, [['7']], some .eof⟩) hlists rfl
  have hopen : Steps step ListsAll (Cleanup.start 42 foreignTable false)
      ⟨42, foreignTable, false, .openStat 7 [] (some .eof), ⟨0, []⟩, [foreignTable], [['7']]⟩ :=
    hlisted.tail (.run ⟨false, [], none⟩) nofun rfl
  exact hopen.tail (.run ⟨false, [], none⟩) nofun rfl

theorem cleanup_asClaimed_foreign :
    ∃ s', step foreignOpened (.run ⟨false, [], none⟩) = some s' ∧
      (AsClaimed foreignOpened (.run ⟨false, [], none⟩) s' ↔
        ¬ ReadsVanished foreignOpened (.run ⟨false, [], none⟩)) :=
  ⟨_, rfl, cleanup_asClaimed_iff foreignOpened_reached rfl⟩

/-- A process of another group that exits between the opening and the reading of its stat
file makes the cleanup fail, although no call failed and the deadline is far. -/
theorem foreign_exit_fails_cleanup :
    ∃ s s', Steps step ListsAll (Cleanup.start 42 foreignTable false) s ∧
      ListsAll s (.run ⟨false, [], none⟩) ∧ step s (.run ⟨false, [], none⟩) = some s' ∧
      s.deadlinePassed = false ∧ s'.pc = .returned (some (.stat 7 .vanished)) ∧
      ¬ AsClaimed s (.run ⟨false, [], none⟩) s' := by
  refine ⟨{ foreignOpened with table := emptyTable, scan := [emptyTable, foreignTable] }, _,
    foreignOpened_reached.tail (.processes emptyTable) trivial rfl, nofun, rfl, rfl, rfl, ?_⟩
  intro hclaimed
  obtain ⟨_, -, -, p, hp, -⟩ := hclaimed (some (.stat 7 .vanished)) nofun rfl
  cases hp

end RemnanodeLite.Xray.ProcessGroup
