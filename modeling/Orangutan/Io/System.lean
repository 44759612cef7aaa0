import Orangutan.Core.Json
import Orangutan.Lib.Triples

/-!
# The system calls of one file mutation

The world holds the file that the target's name leads to and our temporary siblings. The script
has one turn for each system call to come: what other processes make of the target before it,
and how the call fares. When the script has run out, nobody interferes and every call succeeds.
-/

namespace Orangutan.Io

set_option autoImplicit false

open Orangutan.Core Orangutan.Lib

structure Failure where
  errno : Nat
  detail : Bytes := []

def eperm : Nat := 1
def enoent : Nat := 2
def eintr : Nat := 4
def eagain : Nat := 11
def eacces : Nat := 13
def eexist : Nat := 17
def exdev : Nat := 18
def enotdir : Nat := 20
def enametoolong : Nat := 36
def eloop : Nat := 40

def pathError (message : String) (root relativePath : Bytes) (reason : String) : Error :=
  (((Error.permissionDenied message).note "root" root).note "path" relativePath).note "reason"
    (text reason)

def errnoError (message : String) (root relativePath : Bytes) (failure : Failure) : Error :=
  let withContext (error : Error) : Error :=
    (((error.note "root" root).note "path" relativePath).note "errno" (decimal failure.errno)).note
      "detail" failure.detail
  if failure.errno = enoent then withContext (.notFound message)
  else if failure.errno = eacces ∨ failure.errno = eperm
    then withContext (.permissionDenied message)
  else if failure.errno = eloop then pathError message root relativePath "symlink_component"
  else if failure.errno = exdev then pathError message root relativePath "outside_authority"
  else if failure.errno = eagain then
    (((Error.of .conflict message).note "root" root).note "path" relativePath).note "reason"
      (text "path_resolution_raced")
  else if failure.errno = enametoolong ∨ failure.errno = enotdir
    then withContext (.invalidArgument message)
  else withContext (.of .io message)

inductive FileKind
  | regular
  | symlink
  | other
  deriving DecidableEq

structure Timespec where
  seconds : Int := 0
  nanoseconds : Nat := 0
  deriving DecidableEq

/-- What `same_identity` compares. -/
structure Stamp where
  device : Nat := 0
  inode : Nat := 0
  size : Nat := 0
  mtime : Timespec := {}
  ctime : Timespec := {}
  deriving DecidableEq

/-- `struct stat`. -/
structure Stat where
  kind : FileKind := .regular
  stamp : Stamp := {}

/-- The target as it stands until the next change. -/
structure Version where
  kind : FileKind := .regular
  content : Bytes
  device : Nat := 0
  inode : Nat := 0
  mtime : Timespec := {}
  ctime : Timespec := {}

def Version.stamp (v : Version) : Stamp where
  device := v.device
  inode := v.inode
  size := v.content.length
  mtime := v.mtime
  ctime := v.ctime

def Version.stat (v : Version) : Stat where
  kind := v.kind
  stamp := v.stamp

/-- An open file. Its inode is not used again while it is open. -/
structure Descriptor where
  device : Nat
  inode : Nat

def Version.holds (v : Version) (fd : Descriptor) : Bool := v.device = fd.device ∧
    v.inode = fd.inode

structure TempFile where
  name : Bytes
  content : Bytes

/-- One system call to come. `stale`, `drifted` and `bytes` are what an open file that is no longer
the target shows: when it has only just been opened, later, and to a read. -/
structure Turn where
  others : List (Option Version) := []
  failure : Option Failure := none
  amount : Nat := 2 ^ 63
  stale : Stat := {}
  drifted : Stat := {}
  bytes : Bytes := []
  name : Bytes := text ".orangutan.tmp"
  isLink : Bool := false
  installed : Version := { content := [] }

/-- A change of the target: by others, by our commit, or by our appending. -/
inductive Event
  | others (version : Option Version)
  | commit (replaced : Option Version) (content : Bytes)
  | appended (piece : Bytes)

/-- `seen` has the versions that the target has had so far, by others; `log` has every change. -/
structure World where
  target : Option Version
  temps : List TempFile := []
  script : List Turn
  seen : List Version
  log : List Event := []

namespace World

def interfere (w : World) (version : Option Version) : World :=
  { w with target := version, seen := w.seen ++ version.toList, log := w.log ++ [.others version] }

def takeTurn (w : World) : Turn × World :=
  match w.script with
  | [] => ({}, w)
  | turn :: rest => (turn, turn.others.foldl interfere { w with script := rest })

/-- The turn of a call that nothing comes before. -/
def takeQuietTurn (w : World) : Turn × World :=
  match w.script with
  | [] => ({}, w)
  | turn :: rest => (turn, { w with script := rest })

end World

abbrev Sys (α : Type) := Fallible World Error α

/-- A call after its turn has been taken. -/
abbrev Call (α : Type) := Turn → World → Except Failure α × World

def syscall {α : Type} (call : Call α) : Sys (Except Failure α) :=
  .of fun w => (.ok (call w.takeTurn.1 w.takeTurn.2).1, (call w.takeTurn.1 w.takeTurn.2).2)

/-- The loop that repeats an interrupted call. -/
def retryLoop {α : Type} (call : Call α) (failed : Failure → Error) : List Turn → World →
    Result α × World
  | [], w =>
    match call {} w with
    | (.ok a, w) => (.ok a, w)
    | (.error failure, w) => (.error (failed failure), w)
  | turn :: rest, w =>
    match call turn (turn.others.foldl World.interfere { w with script := rest }) with
    | (.ok a, w) => (.ok a, w)
    | (.error failure, w) => if failure.errno = eintr then retryLoop call failed rest w
        else (.error (failed failure), w)

def retrying {α : Type} (call : Call α) (failed : Failure → Error) : Sys α :=
  .of fun w => retryLoop call failed w.script w

/-- A call that does nothing but may fail. -/
def plain : Call Unit := fun turn w =>
  match turn.failure with
  | some failure => (.error failure, w)
  | none => (.ok (), w)

/-- `openat` of the target's name, which does not follow it; only `O_PATH` opens a link. It says
`ENOENT` exactly if there is nothing. -/
def openTarget (reading : Bool) : Call Descriptor := fun turn w =>
  match w.target with
  | none => (.error (turn.failure.getD { errno := enoent }), w)
  | some version =>
    if reading ∧ version.kind = .symlink then (.error { errno := eloop }, w)
    else
      match turn.failure.filter fun f => f.errno ≠ enoent with
      | some failure => (.error failure, w)
      | none => (.ok { device := version.device, inode := version.inode }, w)

/-- What an open file shows: the target, if it is the target's file. -/
def statOf (w : World) (fd : Descriptor) (otherwise : Stat) : Stat :=
  match w.target with
  | some version => if version.holds fd then version.stat else otherwise
  | none => otherwise

/-- `fstat`, of a file that the call before has opened, or later. -/
def fstat (fd : Descriptor) (later : Bool) : Call Stat := fun turn w =>
  match turn.failure with
  | some failure => (.error failure, w)
  | none => (.ok (statOf w fd (if later then turn.drifted else turn.stale)), w)

/-- `pread`: at least one byte, unless the file ends there. -/
def pread (fd : Descriptor) (offset requested : Nat) : Call Bytes := fun turn w =>
  match turn.failure with
  | some failure => (.error failure, w)
  | none =>
    match w.target with
    | some version =>
      if version.holds fd
        then (.ok ((version.content.drop offset).take (min requested (max 1 turn.amount))), w)
      else (.ok (turn.bytes.take requested), w)
    | none => (.ok (turn.bytes.take requested), w)

/-- `openat` of a new temporary sibling. -/
def createTemp : Call Bytes := fun turn w =>
  match turn.failure with
  | some failure => (.error failure, w)
  | none =>
    if w.temps.any fun temp => temp.name = turn.name then (.error { errno := eexist }, w)
    else (.ok turn.name, { w with temps := { name := turn.name, content := [] } :: w.temps })

def World.writeTemp (w : World) (name piece : Bytes) : World :=
  { w with temps := w.temps.map fun temp =>
      if temp.name = name then { temp with content := temp.content ++ piece } else temp }

def World.removeTemp (w : World) (name : Bytes) : World :=
  { w with temps := w.temps.filter fun temp => temp.name ≠ name }

def World.tempContent (w : World) (name : Bytes) : Bytes :=
  ((w.temps.find? fun temp => temp.name = name).map (·.content)).getD []

/-- `write` to a temporary sibling. -/
def writeTemp (name chunk : Bytes) : Call Nat := fun turn w =>
  match turn.failure with
  | some failure => (.error failure, w)
  | none => (.ok (min chunk.length turn.amount), w.writeTemp name (chunk.take turn.amount))

/-- Our file takes the target's name. -/
def World.install (w : World) (turn : Turn) (name : Bytes) : World :=
  { w with
    target := some { turn.installed with kind := .regular, content := w.tempContent name }
    log := w.log ++ [.commit w.target (w.tempContent name)] }

/-- `linkat` of a temporary sibling to the target's name. -/
def linkTemp (name : Bytes) : Call Unit := fun turn w =>
  match w.target with
  | some _ => (.error { errno := eexist }, w)
  | none =>
    match turn.failure with
    | some failure => (.error failure, w)
    | none => (.ok (), w.install turn name)

/-- `renameat` of a temporary sibling to the target's name, with nothing before it. -/
def renameTemp (name : Bytes) : Sys (Except Failure Unit) :=
  .of fun w =>
    match w.takeQuietTurn.1.failure with
    | some failure => (.ok (.error failure), w.takeQuietTurn.2)
    | none => (.ok (.ok ()), (w.takeQuietTurn.2.install w.takeQuietTurn.1 name).removeTemp name)

/-- `unlinkat` of a temporary sibling, which succeeds. -/
def unlinkTemp (name : Bytes) (w : World) : World := w.takeTurn.2.removeTemp name

/-- `openat` of the target for appending; a new one must not exist. -/
def openAppend (existed : Bool) : Call Descriptor := fun turn w =>
  match w.target with
  | some version =>
    if ¬existed then (.error { errno := eexist }, w)
    else if version.kind = .symlink then (.error { errno := eloop }, w)
    else
      match turn.failure with
      | some failure => (.error failure, w)
      | none => (.ok { device := version.device, inode := version.inode }, w)
  | none =>
    match turn.failure with
    | some failure => (.error failure, w)
    | none =>
      if existed then (.error { errno := enoent }, w)
      else
        (.ok { device := turn.installed.device, inode := turn.installed.inode },
          { w with target := some { turn.installed with
            kind := .regular, content := [] }, log := w.log ++ [.appended []] })

/-- `write` at the end of an open file. -/
def writeAppend (fd : Descriptor) (chunk : Bytes) : Call Nat := fun turn w =>
  match turn.failure with
  | some failure => (.error failure, w)
  | none =>
    (.ok (min chunk.length turn.amount),
      match w.target with
      | some version =>
        if version.holds fd then
          { w with
            target := some { version with content := version.content ++ chunk.take turn.amount }
            log := w.log ++ [.appended (chunk.take turn.amount)] }
        else w
      | none => w)

end Orangutan.Io
