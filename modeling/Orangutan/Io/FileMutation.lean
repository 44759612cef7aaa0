import Orangutan.Io.Paths
import Orangutan.Io.System

/-!
# Anchored file mutations

A mutation captures the target's stamp, or that there is none. It is compared when the file is
read and again before the staged file takes the target's name.
-/

namespace Orangutan.Io

set_option autoImplicit false

open Orangutan.Core Orangutan.Lib

structure FileFingerprint where
  sizeBytes : Nat
  mtimeNs : Nat
  deriving DecidableEq

def statMtimeNanoseconds (mtime : Timespec) : Nat :=
  if mtime.seconds < 0 then 0 else (mtime.seconds.toNat * 1000000000 + mtime.nanoseconds) % 2 ^ 64

def fingerprintFromStat (stamp : Stamp) : FileFingerprint where
  sizeBytes := stamp.size
  mtimeNs := statMtimeNanoseconds stamp.mtime

inductive WriteMode
  | truncate
  | append
  | failIfExists
  deriving DecidableEq

inductive WriteTextDurability
  | renameOnly
  | fsyncFile
  | fsyncFileAndParent
  deriving DecidableEq

structure WriteTextOptions where
  mode : WriteMode := .truncate
  createParentDirectories : Bool := false
  atomic : Bool := false
  durability : WriteTextDurability := .renameOnly
  verifyBeforeCommit : Option (FileFingerprint → Result Unit) := none

structure ReadOnlyFile where
  fd : Descriptor
  displayPath : Bytes

/-- `captured` is the stamp of the target, when it existed. -/
structure FileMutation where
  name : Bytes
  display : Bytes
  captured : Option Stamp

def validateAnchoredPath (path : Path) : Result Unit :=
  if path = [] then .error (.invalidArgument "anchored path must not be empty")
  else if 0 ∈ path then .error (.invalidArgument "anchored path must not contain NUL")
  else if path.isAbsolute then .error
    ((Error.invalidArgument "anchored path must be relative").note "path" path)
  else if text ".." ∈ path.elements then
    .error (pathError "anchored path must not contain parent traversal" [] path "outside_authority")
  else .ok ()

def pathComponents (path : Path) : List Bytes :=
  path.elements.filter fun component => component ≠ [] ∧ component ≠ text "."

/-- The call's error ends the operation. -/
def Sys.check {α : Type} (call : Call α) (failed : Failure → Error) : Sys α := do
  match ← syscall call with
  | .ok a => pure a
  | .error failure => throw (failed failure)

def requireRegularFile (fd : Descriptor) (root relativePath : Bytes) : Sys Unit := do
  let status ← Sys.check (fstat fd true)
    (errnoError "failed to inspect anchored file" root relativePath)
  if status.kind ≠ .regular then
    throw (((Error.invalidArgument "anchored path is not a regular file").note "root" root).note
      "path" relativePath)

/-- `openat` of one parent directory, again when it had to be made. -/
def openOrCreateParent (root relativePath : Bytes) (create : Bool) : Sys (Except Failure Unit) := do
  match ← syscall plain with
  | .ok () => pure (.ok ())
  | .error failure =>
    if failure.errno = enoent ∧ create then do
      match ← syscall plain with
      | .ok () => syscall plain
      | .error made =>
        if made.errno ≠ eexist then
          throw (errnoError "failed to create anchored parent directory" root relativePath made)
        else syscall plain
    else pure (.error failure)

def refuseParent (root relativePath : Bytes) (failure : Failure) : Sys Unit :=
  if failure.errno = eloop ∨ failure.errno = enotdir then do
    let component ← syscall fun turn w => (plain turn w |>.1.map fun _ => turn.isLink, w)
    if component.toOption = some true then
      throw (pathError "anchored mutation parent must not be a symlink" root relativePath
        "symlink_component")
    else throw (errnoError "failed to open anchored parent directory" root relativePath failure)
  else throw (errnoError "failed to open anchored parent directory" root relativePath failure)

/-- The descent into one parent directory. -/
def openParent (root relativePath : Bytes) (create : Bool) : Sys Unit := do
  match ← openOrCreateParent root relativePath create with
  | .ok () => pure ()
  | .error failure => refuseParent root relativePath failure

def openParents (root relativePath : Bytes) (create : Bool) : List Bytes → Sys Unit
  | [] => pure ()
  | _ :: rest => do
    openParent root relativePath create
    openParents root relativePath create rest

/-- The snapshot of the target. -/
def snapshotTarget (root relativePath : Bytes) : Sys (Option Stamp) := do
  match ← syscall (openTarget false) with
  | .error failure =>
    if failure.errno ≠ enoent
      then throw (errnoError "failed to inspect anchored mutation target" root relativePath failure)
    else pure none
  | .ok fd => do
    let status ← Sys.check (fstat fd false)
      (errnoError "failed to snapshot anchored mutation target" root relativePath)
    if status.kind = .symlink then
      throw (pathError "anchored mutation target must not be a symlink" root relativePath
        "symlink_component")
    else do
      requireRegularFile fd root relativePath
      pure (some status.stamp)

/-- `begin_file_mutation` below a root with this spelling. -/
def beginFileMutation (root relativePath : Bytes) (create : Bool) : Sys FileMutation :=
  match validateAnchoredPath relativePath, (pathComponents relativePath).getLast? with
  | .error e, _ => throw e
  | .ok (), none => throw (.invalidArgument "mutation target must name a file")
  | .ok (), some name => do
    Sys.check plain (errnoError "failed to duplicate directory authority" root relativePath)
    openParents root relativePath create (pathComponents relativePath).dropLast
    let captured ← snapshotTarget root relativePath
    pure { name, display := root ++ [slash] ++ relativePath, captured }

def staleMutationError (message : String) (path : Bytes) : Error :=
  ((Error.of .conflict message).note "reason" (text "stale_fingerprint")).note "path" path

namespace FileMutation

def openExisting (m : FileMutation) : Sys ReadOnlyFile :=
  match m.captured with
  | none => throw ((Error.notFound "anchored mutation target does not exist").note "path" m.display)
  | some captured => do
    let fd ← Sys.check (openTarget true)
      (errnoError "failed to open mutation target for reading" [] m.display)
    let status ← Sys.check (fstat fd false)
      (errnoError "failed to validate mutation read target" [] m.display)
    if status.stamp ≠ captured
      then throw (staleMutationError "anchored mutation target changed before read" m.display)
    else pure { fd, displayPath := m.display }

end FileMutation

/-- `write_all`: `write` gives the call for a chunk. -/
def writeAll (write : Bytes → Call Nat) (path : Bytes) : Nat → Bytes → Sys Unit
  | 0, _ => pure ()
  | n + 1, rest =>
    if rest = [] then pure ()
    else do
      let count ← retrying (write (rest.take (2 ^ 63 - 1)))
        (errnoError "failed to write anchored file" [] path)
      if count = 0
        then throw ((Error.of .io "anchored file write made no progress").note "path" path)
      else writeAll write path n (rest.drop count)

def syncFd (path : Bytes) (message : String) : Sys Unit :=
    retrying plain (errnoError message [] path)

def createSiblingTemp (display : Bytes) : Nat → Sys Bytes
  | 0 =>
    throw (((Error.of .io "failed to allocate anchored temporary file").note "path" display).note
      "attempts" (text "32"))
  | attempts + 1 => do
    match ← syscall createTemp with
    | .ok name => pure name
    | .error failure =>
      if failure.errno ≠ eexist
        then throw (errnoError "failed to create anchored temporary file" [] display failure)
      else createSiblingTemp display attempts

def writeAndSyncTemp (name contents display : Bytes) (durability : WriteTextDurability) :
    Sys Unit := do
  writeAll (writeTemp name) display contents.length contents
  if durability ≠ .renameOnly then syncFd display "failed to sync anchored temporary file"

namespace FileMutation

variable (m : FileMutation)

def appendText (contents : Bytes) : Sys Unit := do
  let existed := m.captured.isSome
  match ← syscall (openAppend existed) with
  | .error failure =>
    if ¬existed ∧ failure.errno = eexist then
      throw (staleMutationError "anchored append target appeared before write" m.display)
    else throw (errnoError "failed to open anchored append target" [] m.display failure)
  | .ok fd =>
    requireRegularFile fd [] m.display
    match m.captured with
    | none => pure ()
    | some captured =>
      let status ← Sys.check (fstat fd true)
        (errnoError "failed to validate anchored append target" [] m.display)
      if status.stamp ≠ captured then
        throw (staleMutationError "anchored append target changed before write" m.display)
    writeAll (writeAppend fd) m.display contents.length contents

/-- The link gives the target's name to the staged file, unless there is a target. -/
def commitExclusive (name contents : Bytes) (durability : WriteTextDurability) : Sys Unit := do
  writeAndSyncTemp name contents m.display durability
  match ← syscall (linkTemp name) with
  | .ok () => pure ()
  | .error failure =>
    if failure.errno = eexist
      then throw ((Error.of .conflict "file already exists").note "path" m.display)
    else throw (errnoError "failed to commit anchored exclusive create" [] m.display failure)

def createExclusive (contents : Bytes) (durability : WriteTextDurability) : Sys Unit :=
  if m.captured.isSome then throw ((Error.of .conflict "file already exists").note "path" m.display)
  else do
    let name ← createSiblingTemp m.display 32
    Fallible.always (m.commitExclusive name contents durability) (unlinkTemp name)

/-- What the mutation captured is compared with what is there now. -/
def compareCurrent (options : WriteTextOptions) : Except Failure Descriptor → Sys Unit :=
    fun opened =>
  match m.captured, opened with
  | some _, .error failure =>
    if failure.errno = enoent
      then throw (staleMutationError "anchored mutation target changed before commit" m.display)
    else throw (errnoError "failed to reopen anchored mutation target" [] m.display failure)
  | some captured, .ok fd => do
    let current ← Sys.check (fstat fd false)
      (errnoError "failed to validate anchored mutation target" [] m.display)
    if current.stamp ≠ captured then
      throw (staleMutationError "anchored mutation target changed before commit" m.display)
    else
      match options.verifyBeforeCommit with
      | none => pure ()
      | some verify =>
        match verify (fingerprintFromStat current.stamp) with
        | .ok () => pure ()
        | .error e => throw e
  | none, .ok _ =>
      throw (staleMutationError "anchored mutation target appeared before commit" m.display)
  | none, .error failure =>
    if failure.errno ≠ enoent then
      throw (errnoError "failed to verify absent anchored mutation target" [] m.display failure)
    else pure ()

/-- The last look at the target. -/
def checkCurrent (options : WriteTextOptions) : Sys Unit := do
  let opened ← syscall (openTarget false)
  m.compareCurrent options opened

/-- The rename follows the last look. -/
def commitReplacement (name contents : Bytes) (options : WriteTextOptions) : Sys Unit := do
  writeAndSyncTemp name contents m.display options.durability
  m.checkCurrent options
  match ← renameTemp name with
  | .ok () => pure ()
  | .error failure => throw (errnoError "failed to commit anchored write" [] m.display failure)

def replaceText (contents : Bytes) (options : WriteTextOptions) : Sys Unit := do
  let name ← createSiblingTemp m.display 32
  Fallible.onError (m.commitReplacement name contents options) (unlinkTemp name)
  if options.durability = .fsyncFileAndParent
    then syncFd m.display "failed to sync anchored parent directory"

def validateOptions (options : WriteTextOptions) : Result Unit :=
  if options.mode ≠ .truncate ∧
    options.atomic then .error (.invalidArgument "atomic writes require truncate mode")
  else if ¬options.atomic ∧ options.durability ≠ .renameOnly then
    .error (.invalidArgument "write durability requires atomic mode")
  else if options.verifyBeforeCommit.isSome ∧ (options.mode ≠ .truncate ∨ ¬options.atomic) then
    .error (.invalidArgument "commit verification requires atomic truncate mode")
  else if options.verifyBeforeCommit.isSome ∧ m.captured.isNone then
    .error (.invalidArgument "commit verification requires an existing target")
  else .ok ()

def writeText (contents : Bytes) (options : WriteTextOptions) : Sys Unit := do
  match m.validateOptions options with
  | .error e => throw e
  | .ok () =>
    match options.mode with
    | .append => m.appendText contents
    | .failIfExists => m.createExclusive contents options.durability
    | .truncate => m.replaceText contents options

end FileMutation

end Orangutan.Io
