import RemnanodeLite.Lib.Assured
import RemnanodeLite.Lib.FileTree

/-! # File system calls

What `rnlctl` asks of the operating system while it unpacks an archive, and the
helpers of `filesystem.go` that make these calls. Any call may fail. -/

namespace RemnanodeLite.Rnlctl
open Filepath FileTree Program

/- An `error`: its format, the arguments of the format and what it wraps. -/
inductive Failure where
  | errorf (format : String) (args : List Text)
  | wrapf (format : String) (args : List Text) (cause : Failure)
  | both (first second : Failure)
  | notExist
  | exist
  | notDirectory
  | unexpectedEOF
  | system (text : String)
  deriving DecidableEq

/- `errors.Join`. -/
def errorsJoin : List (Except Failure Unit) → Except Failure Unit
  | [] => .ok ()
  | .ok () :: rest => errorsJoin rest
  | .error e :: rest => match errorsJoin rest with
    | .ok () => .error e
    | .error later => .error (.both e later)

inductive Typeflag where
  | regular
  | regularA
  | directory
  | other (flag : Char)
  deriving DecidableEq

/- A `tar.Header`. -/
structure Header where
  name : Text
  typeflag : Typeflag
  mode : ℤ
  size : ℤ
  deriving DecidableEq

structure Entry where
  header : Header
  content : List UInt8
  deriving DecidableEq

inductive Op where
  | next
  | stat (p : Location)
  | lstat (p : Location)
  | mkdir (p : Location) (perm : ℕ)
  | create (p : Location) (perm : ℕ)
  | chmod (p : Location) (perm : ℕ)
  | copyN (p : Location) (n : ℕ)
  | sync (p : Location)
  | close (p : Location)
  | walk (p : Location)
  deriving DecidableEq

def Op.Answer : Op → Type
  | next => Except Failure (Option Header)
  | stat _ | lstat _ => Except Failure Node
  | mkdir _ _ | create _ _ | chmod _ _ | copyN _ _ | sync _ | close _ => Except Failure Unit
  | walk _ => Except Failure (List (Location × Node))

def Op.changes : Op → Bool
  | mkdir _ _ | create _ _ | chmod _ _ | copyN _ _ => true
  | _ => false

/- The file system, the archive being read and what has been written to files. -/
structure World where
  tree : Tree
  umask : ℕ
  unread : List Entry
  content : List UInt8
  /-- How many entries of the archive have been handed out. -/
  read : ℕ
  /-- The files data was copied to, with the number of bytes. -/
  written : List (Location × ℕ)

/- What the operating system chooses: whether the call fails, and how much a
failing copy has written. -/
structure Fault where
  failure : Option Failure
  copied : ℕ

def Fault.none : Fault := ⟨.none, 0⟩

def place (p : Location) (node : Node) (s : World) : Except Failure Unit × World :=
  match s.tree.add p node with
  | some tree => (.ok (), { s with tree := tree })
  | none => match s.tree.node p with
    | some _ => (.error .exist, s)
    | none => (.error .notExist, s)

def masked (s : World) (perm : ℕ) : ℕ := perm &&& (0o777 ^^^ (s.umask % 0o1000))

theorem isDirectory_chmod (perm : ℕ) (node : Node) (h : node.isDirectory = true) :
    (node.chmod perm).isDirectory = true := by
  obtain ⟨old, rfl⟩ := Node.isDirectory_iff.mp h
  rfl

theorem isDirectory_write (data : List UInt8) (node : Node) (h : node.isDirectory = true) :
    (node.write data).isDirectory = true := by
  obtain ⟨old, rfl⟩ := Node.isDirectory_iff.mp h
  rfl

def nodeOr (found : Option Node) : Except Failure Node :=
  match found with
  | some node => .ok node
  | none => .error .notExist

/- A call that does not fail by itself. -/
def performed : (op : Op) → World → op.Answer × World
  | .next, s => match s.unread with
    | [] => (.ok none, s)
    | entry :: rest =>
      (.ok (some entry.header),
        { s with unread := rest, content := entry.content, read := s.read + 1 })
  | .stat p, s => (nodeOr (s.tree.node p), s)
  | .lstat p, s => (nodeOr (s.tree.node p), s)
  | .mkdir p perm, s => place p (.directory (masked s perm)) s
  | .create p perm, s => place p (.file (masked s perm) []) s
  | .chmod p perm, s => match s.tree.node p with
    | none => (.error .notExist, s)
    | some _ => (.ok (), { s with tree := s.tree.modify p (Node.chmod perm) (isDirectory_chmod perm) })
  | .copyN p n, s =>
    let data := s.content.take n
    (if data.length < n then .error .unexpectedEOF else .ok (),
      { s with
        tree := s.tree.modify p (Node.write data) (isDirectory_write data)
        content := s.content.drop n
        written := (p, data.length) :: s.written })
  | .sync _, s => (.ok (), s)
  | .close _, s => (.ok (), s)
  | .walk p, s => (.ok (s.tree.walk p), s)

def refused (e : Failure) : (op : Op) → op.Answer
  | .next => .error e
  | .stat _ => .error e
  | .lstat _ => .error e
  | .mkdir _ _ => .error e
  | .create _ _ => .error e
  | .chmod _ _ => .error e
  | .copyN _ _ => .error e
  | .sync _ => .error e
  | .close _ => .error e
  | .walk _ => .error e

/- A failing copy may have written a part of the data. -/
def operatingSystem : Handler Op Op.Answer World Fault := fun op s e =>
  match e.failure with
  | none => performed op s
  | some failure => (refused failure op, match op with
    | .copyN p n => (performed (.copyN p (min n e.copied)) s).2
    | _ => s)

abbrev Sys := ExceptT Failure (Program Op Op.Answer)

def ask (op : Op) : Sys op.Answer := ExceptT.lift (perform op)

def next : Sys (Except Failure (Option Header)) := ask .next
def stat (p : Location) : Sys (Except Failure Node) := ask (.stat p)
def lstat (p : Location) : Sys (Except Failure Node) := ask (.lstat p)
def mkdir (p : Location) (perm : ℕ) : Sys (Except Failure Unit) := ask (.mkdir p perm)
def create (p : Location) (perm : ℕ) : Sys (Except Failure Unit) := ask (.create p perm)
def chmod (p : Location) (perm : ℕ) : Sys (Except Failure Unit) := ask (.chmod p perm)
def copyN (p : Location) (n : ℕ) : Sys (Except Failure Unit) := ask (.copyN p n)
def sync (p : Location) : Sys (Except Failure Unit) := ask (.sync p)
def close (p : Location) : Sys (Except Failure Unit) := ask (.close p)
def walk (p : Location) : Sys (Except Failure (List (Location × Node))) := ask (.walk p)

/- `os.MkdirAll`. -/
def mkdirAll : Location → ℕ → Sys Unit
  | [], _ => pure ()
  | name :: up, perm => do
    match ← stat (name :: up) with
    | .ok node => refuseIf (node.isDirectory = false) .notDirectory
    | .error _ => do
      mkdirAll up perm
      match ← mkdir (name :: up) perm with
      | .ok () => pure ()
      | .error e => do
        match ← lstat (name :: up) with
        | .ok node => refuseIf (node.isDirectory = false) e
        | .error _ => throw e

def pathText (p : Location) : Text := '/' :: unsplit p.reverse

/- The permissions are set unless nothing is known of what was there before. -/
def fixPermissions (p : Location) (perm : ℕ) (before : Except Failure Node) (node : Node) :
    Sys Unit :=
  match before with
  | .ok _ | .error .notExist =>
    if node.perm ≠ perm then chmod p perm >>= returned else pure ()
  | .error _ => pure ()

def ensureDirectory (p : Location) (perm : ℕ) : Sys Unit := do
  let before ← lstat p
  mkdirAll p perm
  let node ← lstat p >>= returned
  refuseIf (node.isDirectory = false) (.errorf "%s is not a real directory" [pathText p])
  fixPermissions p perm before node

def requireRealDirectory (p : Location) : Sys Unit := do
  let node ← lstat p >>= returned
  refuseIf (node.isDirectory = false) (.errorf "%s must be a real directory" [pathText p])

def pathWithin (base candidate : Location) : Bool :=
  (rel base candidate).head? ≠ some ['.', '.']

end RemnanodeLite.Rnlctl
