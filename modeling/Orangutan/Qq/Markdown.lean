import Orangutan.Core.ScalarValues
import Orangutan.Io.FileLines
import Orangutan.Lib.Machines

/-!
# Parts of a Markdown reply

A reply goes out in parts. A code fence that is open where a part ends is closed there, and opened
again in the next part.
-/

namespace Orangutan.Qq

set_option autoImplicit false

open Orangutan.Core Orangutan.Core.Str Orangutan.Io Orangutan.Lib

def ticks : Bytes := [96, 96, 96]

def tildes : Bytes := [126, 126, 126]

/-- `marker` -/
def isMarker (line : Bytes) : Bool :=
    decide (line.length ≤ 64) && (ticks.isPrefixOf line || tildes.isPrefixOf line)

/-- The fence that is open behind a line. -/
def readFence (fence line : Bytes) : Bytes :=
  if isMarker line then
    if fence = [] then if line.getLast? = some 10 then line.dropLast else line
    else if (fence.take 3).isPrefixOf line then []
    else fence
  else fence

/-- What `flush` puts behind a part. -/
def close (fence : Bytes) : Bytes := if fence = [] then [] else 10 :: fence.take 3

/-- What `flush` begins the next part with. -/
def reopen (fence : Bytes) : Bytes := if fence = [] then [] else fence ++ [10]

/-- A part is what `flush` opened it with, what comes from the text, and what `flush` closed it
with. -/
structure Part where
  opening : Bytes
  content : Bytes
  closing : Bytes
deriving DecidableEq, Repr

def Part.bytes (part : Part) : Bytes := part.opening ++ part.content ++ part.closing

/-- The variables of `split_markdown`. `line` is what is left of `original`, and `text` begins at
the line behind it. -/
structure Splitter where
  parts : List Part
  part : Part
  fence : Bytes
  original : Bytes
  line : Bytes
  text : Bytes
deriving DecidableEq, Repr

namespace Splitter

def start (text : Bytes) : Splitter := ⟨[], ⟨[], [], []⟩, [], [], [], text⟩

/-- The part with the end that it gets. -/
def closed (s : Splitter) : Part := { s.part with closing := close s.fence }

def flush (s : Splitter) : Splitter :=
    { s with parts := s.parts ++ [s.closed], part := ⟨reopen s.fence, [], []⟩ }

/-- Up to the line end, which belongs to the line. -/
def nextLine (text : Bytes) : Bytes :=
  match text.findIdx? (· == 10) with
  | some newline => text.take (newline + 1)
  | none => text

/-- `capacity - part.size()`, a subtraction of `std::size_t` -/
def room (capacity : Nat) (s : Splitter) : Nat := (capacity + 2 ^ 64 - s.part.bytes.length) % 2 ^ 64

def beginLine (s : Splitter) : Splitter :=
  let line := nextLine s.text
  { s with original := line, line := line, text := s.text.drop line.length }

def append (s : Splitter) (fragment : Bytes) : Splitter :=
  { s with
    part := { s.part with content := s.part.content ++ fragment }
    line := s.line.drop fragment.length }

def endLine (s : Splitter) : Splitter := { s with fence := readFence s.fence s.original }

/-- The head of the outer loop. -/
def takeLine (capacity : Nat) (s : Splitter) : Splitter :=
  let line := nextLine s.text
  if isMarker line && decide (capacity < s.part.bytes.length + line.length) then s.flush.beginLine
    else s.beginLine

/-- Once through the inner loop, with the end of the outer one when the line is used up. -/
def appendFragment (capacity : Nat) (s : Splitter) : Splitter :=
  let fragment := truncateToCodePoint s.line (s.room capacity)
  if fragment = [] then s.flush
  else
    let s := s.append fragment
    if s.line ≠ [] then s.flush else s.endLine

def step (capacity : Nat) (s : Splitter) : Option Splitter :=
  if s.line ≠ [] then some (s.appendFragment capacity)
  else if s.text ≠ [] then some (s.takeLine capacity)
  else none

/-- Behind the loops. -/
def finish (s : Splitter) : List Part :=
  if s.part.bytes = [] then s.parts else s.parts ++ [s.closed]

end Splitter

def capacity (limit : Nat) : Nat := limit - 80

/-- `split_markdown` with its parts not yet put together, if the loops are done within so many
rounds. -/
def splitParts (fuel : Nat) (text : Bytes) (limit : Nat) : Option (Result (List Part)) :=
  if limit < 128 ∨ isValidUtf8 text = false
    then some (.error (.invalidArgument "invalid Markdown reply"))
  else
    (runMachine (Splitter.step (capacity limit)) fuel (.start text)).map fun s =>
      if 5 < s.finish.length then .error (.invalidArgument "QQ reply exceeds five parts")
        else .ok s.finish

def splitMarkdown (fuel : Nat) (text : Bytes) (limit : Nat) : Option (Result (List Bytes)) :=
  (splitParts fuel text limit).map fun reply => reply.map fun parts => parts.map Part.bytes

/-- The code fence that is open at the end of a part is opened again in the next one. -/
example : splitMarkdown 20 (text "```c\n" ++ List.replicate 60 120 ++ text "\n```") 128 =
    some (.ok [text "```c\n" ++ List.replicate 43 120 ++ text "\n```",
      text "```c\n" ++ List.replicate 17 120 ++ text "\n```"]) := by
  decide +kernel

/-- The fence that is open in front of the line, for each byte of the lines. -/
def lineFences (fence : Bytes) : List Bytes → List Bytes
  | [] => []
  | line :: lines => List.replicate line.length fence ++ lineFences (readFence fence line) lines

def fences (t : Bytes) : List Bytes := lineFences [] (fileLines t)

/-- The fence that is open at the end. -/
def endFence (t : Bytes) : Bytes := (fileLines t).foldl readFence []

/-- The fences around what comes from the text, as they are read in the part. -/
def Part.inside (part : Part) : List Bytes :=
    ((fences part.bytes).drop part.opening.length).take part.content.length

/-- The fence that is open in the text at a place: in front of the line there, or at the end. -/
def fenceAt (t : Bytes) (place : Nat) : Bytes := (fences t)[place]?.getD (endFence t)

/-- From this place of the text on, each part is opened and closed as `flush` does it there. -/
def Fenced (t : Bytes) : Nat → List Part → Prop
  | _, [] => True
  | place, part :: rest =>
    part.opening = reopen (fenceAt t place) ∧
      part.closing = close (fenceAt t (place + part.content.length)) ∧
      Fenced t (place + part.content.length) rest

/-- What the parts of a reply are meant to be. -/
structure Faithful (t : Bytes) (limit : Nat) (parts : List Part) : Prop where
  content : parts.flatMap Part.content = t
  fenced : Fenced t 0 parts
  sendable : ∀ part ∈ parts, part.bytes ≠ [] ∧ isValidUtf8 part.bytes = true ∧
    part.bytes.length ≤ limit
  outside : ∀ part ∈ parts, endFence part.bytes = []
  inside : parts.flatMap Part.inside = fences t

end Orangutan.Qq
