import RemnanodeLite.Rnlctl.Installation

/-! # The removal of the managed account

`RemoveAccount` of `host.go`: a purge removes the user and the group that the
installer has created. Lookups and commands may fail, and an uninstall that is
taken up again tries once more with what the last attempt has left. -/

namespace RemnanodeLite.Rnlctl.Account
open Filepath Program
open Lifecycle (ManagedAccount)

def managedAccountName : Text := "remnanode-lite".toList

/- A `user.User`. -/
structure User where
  uid : Text
  gid : Text
  username : Text
  homeDir : Text
  deriving DecidableEq

/- The entries of the managed account: its user, the text of `/etc/passwd` and the gid of
its group. -/
structure Database where
  user : Option User
  passwd : Text
  group : Option Text
  deriving DecidableEq

inductive Command where
  | userdel
  | groupdel
  deriving DecidableEq

def Command.text : Command → Text
  | .userdel => "userdel".toList
  | .groupdel => "groupdel".toList

inductive Lookup (α : Type) where
  | found (a : α)
  | unknown
  | failed

inductive Op where
  | lookupUser
  | lookupGroup
  | readPasswd
  | lookPath (command : Command)
  | run (command : Command)
  deriving DecidableEq

@[reducible] def Op.Answer : Op → Type
  | lookupUser => Lookup User
  | lookupGroup => Lookup Text
  | readPasswd => Option Text
  | lookPath _ => Bool
  | run _ => Bool

/-! ### The host -/

/- A failing command may have done its work. -/
structure Choice where
  fails : Bool
  tookEffect : Bool

def lookup {α : Type} (entry : Option α) (fails : Bool) : Lookup α :=
  if fails then .failed else match entry with
    | some a => .found a
    | none => .unknown

section
variable {α : Type} {entry : Option α} {fails : Bool} {a : α}

theorem lookup_found : lookup entry fails = .found a ↔ fails = false ∧ entry = some a := by
  cases fails <;> cases entry <;> simp [lookup]

theorem lookup_unknown : lookup entry fails = .unknown ↔ fails = false ∧ entry = none := by
  cases fails <;> cases entry <;> simp [lookup]

theorem lookup_failed : lookup entry fails = .failed ↔ fails = true := by
  cases fails <;> cases entry <;> simp [lookup]

end

def fields (line : Text) : List Text := line.splitOn ':'

def Command.apply (db : Database) : Command → Database
  | .userdel =>
    { db with
      user := none
      passwd := ['\n'].intercalate ((db.passwd.splitOn '\n').filter fun line =>
        (fields line).head? ≠ some managedAccountName) }
  | .groupdel => { db with group := none }

def host : Handler Op Op.Answer Database Choice
  | .lookupUser, db, c => (lookup db.user c.fails, db)
  | .lookupGroup, db, c => (lookup db.group c.fails, db)
  | .readPasswd, db, c => (if c.fails then none else some db.passwd, db)
  | .lookPath _, db, c => (!c.fails, db)
  | .run command, db, c =>
    (!c.fails, if c.fails && !c.tookEffect then db else command.apply db)

/-! ### The code -/

abbrev Host := ExceptT Failure (Program Op Op.Answer)

def perform (op : Op) : Host op.Answer := ExceptT.lift (Program.perform op)

def requireExecutable (command : Command) : Host Unit := do
  let found : Bool ← perform (.lookPath command)
  refuseIf (found = false) (.errorf "required command %q is unavailable" [command.text])

/- The last field of the account's line. A text that cannot be read leaves the home directory
as a marker. -/
def loginShell (home : Text) (raw : Option Text) : Text :=
  match raw with
  | none => home
  | some raw =>
    match ((raw.splitOn '\n').map fields).find? fun fs =>
        fs.length = 7 && fs.head? = some managedAccountName with
    | some fs => fs.getLastD []
    | none => home

/- The checks on what `user.Lookup` has found. -/
def checkUser (account : User) (expectedHome : Text) : Host Unit := do
  refuseIf (account.uid = ['0'] ∨ account.uid = [] ∨ account.gid = [])
    (.errorf "%s must be a non-root system account" [managedAccountName])
  refuseIf (account.homeDir ≠ expectedHome)
    (.errorf "%s home is %q, want %q" [managedAccountName, account.homeDir, expectedHome])
  refuseIf (base account.username ≠ managedAccountName)
    (.errorf "unexpected %s account name %q" [managedAccountName, account.username])

def requireGroup : Lookup Text → Except Failure Text
  | .found gid => .ok gid
  | .unknown | .failed => .error (.wrapf "look up %s group: %w" [managedAccountName] (.system "group"))

def validateManagedAccount (account : User) (expectedHome : Text) (userCreated groupCreated : Bool) :
    Host ManagedAccount := do
  checkUser account expectedHome
  let group : Lookup Text ← perform .lookupGroup
  let gid ← returned (requireGroup group)
  refuseIf (gid ≠ account.gid)
    (.errorf "%s primary gid %s does not match %s group gid %s"
      [managedAccountName, account.gid, managedAccountName, gid])
  let raw : Option Text ← perform .readPasswd
  refuseIf (base (loginShell account.homeDir raw) ≠ "nologin".toList)
    (.errorf "%s login shell %q is not nologin"
      [managedAccountName, loginShell account.homeDir raw])
  return ⟨userCreated, groupCreated, account.uid, account.gid, account.homeDir,
    loginShell account.homeDir raw⟩

def removeUser (expected : ManagedAccount) : Host Unit :=
  if expected.userCreated then do
    let done : Bool ← perform (.run .userdel)
    refuseIf (done = false)
      (.wrapf "remove %s account: %w" [managedAccountName] (.system "userdel"))
  else pure ()

/- A lookup that fails is taken for a group that is gone. -/
def removeGroup (expected : ManagedAccount) : Host Unit := do
  match ← perform .lookupGroup with
  | .found gid =>
    if expected.groupCreated ∧ gid = expected.gid then
      requireExecutable .groupdel
      let done : Bool ← perform (.run .groupdel)
      refuseIf (done = false)
        (.wrapf "remove %s group: %w" [managedAccountName] (.system "groupdel"))
    else pure ()
  | .unknown => pure ()
  | .failed => pure ()

def removeFound (expected : ManagedAccount) (account : User) : Host Unit := do
  let actual ← validateManagedAccount account expected.home expected.userCreated expected.groupCreated
  refuseIf (actual.uid ≠ expected.uid ∨ actual.gid ≠ expected.gid ∨ actual.shell ≠ expected.shell)
    (.errorf "refusing to remove %s account because its identity changed" [managedAccountName])
  requireExecutable .userdel
  removeUser expected
  removeGroup expected

def removeAccount (expected : ManagedAccount) : Host Unit :=
  if !expected.userCreated && !expected.groupCreated then pure ()
  else do
    match ← perform .lookupUser with
    | .found account => removeFound expected account
    | .unknown => pure ()
    | .failed => throw (.system "user")

/-! ### One attempt -/

def Recorded (expected : ManagedAccount) (db : Database) : Prop :=
  ∃ account, db.user = some account ∧ account.uid = expected.uid ∧ account.gid = expected.gid ∧
    account.homeDir = expected.home ∧ loginShell account.homeDir (some db.passwd) = expected.shell

/- An entry that goes was recorded as created and is what it was. -/
def Rightful (expected : ManagedAccount) (c : Call Op Database Choice) : Prop :=
  ((c.after host).user ≠ c.before.user → expected.userCreated ∧ Recorded expected c.before) ∧
    ((c.after host).group ≠ c.before.group →
      expected.groupCreated ∧ c.before.group = some expected.gid)

def Gone (expected : ManagedAccount) (db : Database) : Prop :=
  (expected.userCreated → db.user = none) ∧ (expected.groupCreated → db.group ≠ some expected.gid)

def GroupFound (c : Call Op Database Choice) : Prop := c.op = .lookupGroup → c.choice.fails = false

instance (c : Call Op Database Choice) : Decidable (GroupFound c) := inferInstanceAs (Decidable (_ → _))

section
variable {expected : ManagedAccount} {account : User} {db : Database}
  {rely guar : Call Op Database Choice → Prop} {err : Failure → Database → Prop}

theorem rightful_of_same {c : Call Op Database Choice} (h : c.after host = c.before) :
    Rightful expected c := by
  refine ⟨fun hne => absurd ?_ hne, fun hne => absurd ?_ hne⟩
  · rw [h]
  · rw [h]

theorem ensures_requireExecutable {command : Command} {ok : Unit → Database → Prop} (hok : ok () db)
    (herr : ∀ e, err e db) :
    ensures host rely (Rightful expected) (requireExecutable command) ok err db := by
  simp only [requireExecutable, ensures_bind, ensures_refuseIf]
  exact fun e _ => ⟨rightful_of_same rfl, fun _ => herr _, fun _ => hok⟩

/- What has been validated is the account that was found, with a shell that is read from
`/etc/passwd` if it can be read. -/
theorem ensures_validateManagedAccount {userCreated groupCreated : Bool} :
    ensures host rely (Rightful expected)
      (validateManagedAccount account expected.home userCreated groupCreated)
      (fun actual t => t = db ∧ account.homeDir = expected.home ∧ actual.uid = account.uid ∧
        actual.gid = account.gid ∧ (actual.shell = expected.home ∨
          actual.shell = loginShell account.homeDir (some db.passwd)))
      (fun _ _ => True) db := by
  simp only [validateManagedAccount, checkUser, ensures_bind, ensures_refuseIf,
    ensures_returned, ensures_pure, implies_true, true_and, and_true]
  intro hroot hhome hname e _
  refine ⟨rightful_of_same rfl, fun gid hgid hprimary e' _ => ⟨rightful_of_same rfl, fun hshell => ?_⟩⟩
  refine ⟨rfl, of_not_not hhome, ?_⟩
  cases hfails : e'.fails with
  | true =>
    left
    simp [host, hfails, loginShell, of_not_not hhome]
  | false =>
    right
    simp [host, hfails]

theorem ensures_removeUser (hrecorded : Recorded expected db) :
    ensures host rely (Rightful expected) (removeUser expected)
      (fun _ t => (expected.userCreated → t.user = none) ∧ t.group = db.group) (fun _ _ => True) db := by
  unfold removeUser
  split_ifs with hcreated
  · simp only [ensures_bind, ensures_refuseIf, implies_true, true_and]
    intro e _
    refine ⟨⟨fun _ => ⟨hcreated, hrecorded⟩, fun hne => absurd ?_ hne⟩, fun hdone => ?_⟩
    · simp only [Call.after, host]
      split_ifs <;> rfl
    · have hfails : e.fails = false := by simpa [host] using hdone
      simp [host, hfails, Command.apply]
  · rw [ensures_pure]
    exact ⟨fun h => absurd h hcreated, rfl⟩

/- The group is sure to be gone only if its lookup does not fail. -/
theorem ensures_removeGroup (huser : expected.userCreated → db.user = none) :
    ensures host rely (Rightful expected) (removeGroup expected)
      (fun _ t => (expected.userCreated → t.user = none) ∧ ((∀ c, rely c → GroupFound c) →
        expected.groupCreated → t.group ≠ some expected.gid)) (fun _ _ => True) db := by
  simp only [removeGroup, ensures_bind]
  intro e he
  refine ⟨rightful_of_same rfl, ?_⟩
  show ensures host rely _ (match lookup db.group e.fails with
    | .found gid => _
    | .unknown => _
    | .failed => _) _ _ db
  cases hlookup : lookup db.group e.fails with
  | unknown =>
    have hnone : db.group = none := (lookup_unknown.mp hlookup).2
    exact ⟨huser, fun _ _ hgroup => absurd (hnone.symm.trans hgroup) (Option.some_ne_none _).symm⟩
  | failed =>
    refine ⟨huser, fun hrely => ?_⟩
    have hfails : e.fails = false := hrely _ he rfl
    exact absurd ((lookup_failed.mp hlookup).symm.trans hfails) (by decide)
  | found gid =>
    have hgroup := lookup_found.mp hlookup |>.2
    show ensures host rely _ (if expected.groupCreated ∧ gid = expected.gid then _ else _) _ _ db
    split_ifs with hcreated
    · simp only [ensures_bind, ensures_refuseIf, implies_true, true_and]
      refine ensures_requireExecutable (fun e' _ => ⟨⟨fun hne => absurd ?_ hne, fun _ => ?_⟩,
        fun hdone => ?_⟩) fun _ => trivial
      · simp only [Call.after, host]
        split_ifs <;> rfl
      · exact ⟨hcreated.1, hgroup.trans (congrArg some hcreated.2)⟩
      · have hfails : e'.fails = false := by simpa [host] using hdone
        simpa [host, hfails, Command.apply] using huser
    · refine ⟨huser, fun _ hgroupCreated hgid => hcreated ⟨hgroupCreated, ?_⟩⟩
      exact Option.some.inj (hgroup.symm.trans hgid)

theorem ensures_removeFound (huser : db.user = some account) (hshell : expected.shell ≠ expected.home) :
    ensures host rely (Rightful expected) (removeFound expected account)
      (fun _ t => (∀ c, rely c → GroupFound c) → Gone expected t) (fun _ _ => True) db := by
  simp only [removeFound, ensures_bind]
  refine ensures_mono ensures_validateManagedAccount ?_ fun _ _ _ => trivial
  rintro actual t ⟨rfl, hhome, huid, hgid, hread⟩
  simp only [ensures_refuseIf, implies_true, true_and]
  intro hsame
  obtain ⟨hsameUid, hrest⟩ := not_or.mp hsame
  obtain ⟨hsameGid, hsameShell⟩ := not_or.mp hrest
  have hlogin : loginShell account.homeDir (some t.passwd) = expected.shell := by
    rcases hread with hmarker | hread
    · exact absurd ((of_not_not hsameShell).symm.trans hmarker) hshell
    · exact hread.symm.trans (of_not_not hsameShell)
  have hrecorded : Recorded expected t :=
    ⟨account, huser, huid.symm.trans (of_not_not hsameUid), hgid.symm.trans (of_not_not hsameGid),
      hhome, hlogin⟩
  refine ensures_requireExecutable ?_ fun _ => trivial
  refine ensures_mono (ensures_removeUser hrecorded) ?_ fun _ _ _ => trivial
  intro _ t' ht'
  exact ensures_mono (ensures_removeGroup ht'.1) (fun _ _ h hrely => ⟨h.1, h.2 hrely⟩)
    fun _ _ _ => trivial

/-- An attempt removes only what was created and is still the same. If it returns nil, nothing that
was created is left, unless it finds the group without the user. -/
theorem ensures_removeAccount (hshell : expected.shell ≠ expected.home) :
    ensures host rely (Rightful expected) (removeAccount expected)
      (fun _ t => (∀ c, rely c → GroupFound c) →
        (expected.groupCreated → db.group = some expected.gid → db.user ≠ none) → Gone expected t)
      (fun _ _ => True) db := by
  unfold removeAccount
  split_ifs with hnothing
  · rw [ensures_pure]
    simp only [Bool.and_eq_true, Bool.not_eq_true'] at hnothing
    intro _ _
    simp [Gone, hnothing]
  · simp only [ensures_bind]
    intro e _
    refine ⟨rightful_of_same rfl, ?_⟩
    cases hlookup : (host .lookupUser db e).1 with
    | failed => trivial
    | unknown =>
      have hnone : db.user = none := (lookup_unknown.mp hlookup).2
      exact fun _ hleft => ⟨fun _ => hnone, fun hcreated hgroup => hleft hcreated hgroup hnone⟩
    | found account =>
      have huser : db.user = some account := (lookup_found.mp hlookup).2
      refine ensures_mono (α := Unit) (ensures_removeFound huser hshell) ?_ fun _ _ _ => trivial
      exact fun _ _ h hrely _ => h hrely

end

/-! ### Attempt after attempt -/

/- An attempt of an uninstall that is taken up again, after what others have done to the
database. -/
structure Attempt where
  meanwhile : Database → Database
  choices : ℕ → Choice

structure Round where
  before : Database
  choices : ℕ → Choice

section
variable (expected : ManagedAccount)

def Round.outcome (r : Round) : Except Failure Unit × Database :=
  (removeAccount expected).run.run host r.choices r.before

def Round.calls (r : Round) : List (Call Op Database Choice) :=
  Program.calls host (removeAccount expected).run r.choices r.before

def rounds : List Attempt → Database → List Round
  | [], _ => []
  | a :: rest, db =>
    let r : Round := ⟨a.meanwhile db, a.choices⟩
    r :: rounds rest (r.outcome expected).2

/- Of an attempt that returns nil: the group has not outlived the user before it, and the
lookups of the group do not fail. -/
def Round.Met (r : Round) : Prop :=
  (r.outcome expected).1 = .ok () →
    (expected.groupCreated → r.before.group = some expected.gid → r.before.user ≠ none) ∧
      ∀ c ∈ r.calls expected, GroupFound c

instance (r : Round) : Decidable (r.Met expected) := inferInstanceAs (Decidable (_ → _ ∧ _))

end

/-- No attempt removes an entry that was not recorded as created or that has changed. An attempt
that meets the condition and returns nil leaves nothing that was created. -/
theorem removeAccount_attempts (expected : ManagedAccount) (hshell : expected.shell ≠ expected.home)
    (attempts : List Attempt) (db : Database) :
    (∀ r ∈ rounds expected attempts db, ∀ c ∈ r.calls expected, Rightful expected c) ∧
      (∀ r ∈ rounds expected attempts db, r.Met expected →
        (r.outcome expected).1 = .ok () → Gone expected (r.outcome expected).2) := by
  constructor
  · intro r _
    have hensures : ensures host (fun _ => True) (Rightful expected) (removeAccount expected) _ _
      r.before := ensures_removeAccount hshell
    exact assured_guar hensures r.choices fun _ _ => trivial
  · intro r _ hmet hok
    obtain ⟨hgroup, hfound⟩ := hmet hok
    have hensures : ensures host GroupFound (Rightful expected) (removeAccount expected) _ _
      r.before := ensures_removeAccount hshell
    have hend := assured_run hensures r.choices hfound
    unfold Round.outcome at hok
    rw [hok] at hend
    exact hend (fun _ h => h) hgroup

def sampleAccount : ManagedAccount :=
  ⟨true, true, "998".toList, "997".toList, "/var/lib/remnanode-lite".toList,
    "/usr/sbin/nologin".toList⟩

def sampleDatabase : Database :=
  ⟨some ⟨"998".toList, "997".toList, managedAccountName, "/var/lib/remnanode-lite".toList⟩,
    "remnanode-lite:x:998:997::/var/lib/remnanode-lite:/usr/sbin/nologin".toList,
    some "997".toList⟩

/- The attempt fails at its `n`th call, which has no effect. -/
def failingAt (n : ℕ) : Attempt := ⟨id, fun k => ⟨k = n, false⟩⟩

/- The first attempt is stopped at `userdel`, the second removes both entries. -/
theorem removeAccount_attempts_twice :
    ((rounds sampleAccount [failingAt 4, failingAt 8] sampleDatabase).map fun r =>
      (r.outcome sampleAccount).1.toBool) = [false, true] ∧
    ∀ r ∈ rounds sampleAccount [failingAt 4, failingAt 8] sampleDatabase,
      (r.outcome sampleAccount).1 = .ok () → Gone sampleAccount (r.outcome sampleAccount).2 := by
  have hmet : ∀ r ∈ rounds sampleAccount [failingAt 4, failingAt 8] sampleDatabase,
      r.Met sampleAccount := by decide +kernel
  exact ⟨by decide +kernel, fun r hr =>
    (removeAccount_attempts sampleAccount (by decide) _ _).2 r hr (hmet r hr)⟩

/-- The first attempt removes the user and is stopped at `groupdel`; the second finds no user and
returns nil. -/
theorem group_outlives_user :
    ¬ ∀ (expected : ManagedAccount) (attempts : List Attempt) (db : Database),
      expected.shell ≠ expected.home → ∀ r ∈ rounds expected attempts db,
        (r.outcome expected).1 = .ok () → Gone expected (r.outcome expected).2 := by
  intro h
  have hgone := h sampleAccount [failingAt 7, failingAt 8] sampleDatabase (by decide)
  have hleft : ∃ r ∈ rounds sampleAccount [failingAt 7, failingAt 8] sampleDatabase,
      (r.outcome sampleAccount).1 = .ok () ∧
        (r.outcome sampleAccount).2.group = some sampleAccount.gid := by decide +kernel
  obtain ⟨r, hr, hok, hgroup⟩ := hleft
  exact (hgone r hr hok).2 rfl hgroup

end RemnanodeLite.Rnlctl.Account
