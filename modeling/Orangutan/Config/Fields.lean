import Orangutan.Config.Rules

/-!
# Reading an object

A view of one JSON object collects the keys that its reads claim. The first failure ends the
reading; at the end the members without a claim are warnings, or the first of them is the error.
-/

namespace Orangutan.Config

set_option autoImplicit false

open Orangutan.Core

abbrev Member := Bytes × Value

structure View where
  host : Host
  path : Bytes
  members : List Member

/-- What a run of reads gives: its value, the keys it claimed and the paths of its warnings. -/
structure Reading (α : Type) where
  value : α
  known : List String := []
  warnings : List Bytes := []

/-- Reads of one object, strict or not. -/
def Read (α : Type) : Type := Bool → View → Result (Reading α)

/-- A parser of a nested value, with the paths of its warnings. -/
def Parser (α : Type) : Type := Host → Bool → Value → Bytes → Result (α × List Bytes)

variable {α β ι : Type}

/-- One read after another: a failure is kept, and what follows is skipped. -/
def Read.bind (p : Read α) (f : α → Read β) : Read β := fun strict view =>
  match p strict view with
  | .error e => .error e
  | .ok first =>
    match f first.value strict view with
    | .error e => .error e
    | .ok second => .ok ⟨second.value, first.known ++ second.known,
        first.warnings ++ second.warnings⟩

instance : Monad Read where
  pure a := fun _ _ => .ok { value := a }
  bind := Read.bind

/-- A parser that looks into no object. -/
def plain (parse : Host → Value → Bytes → Result α) : Parser α := fun host _ value path =>
  match parse host value path with
  | .error e => .error e
  | .ok a => .ok (a, [])

/-- `Fields::nested`: the reads of an object, then its `finish`. -/
def nested (parse : Read α) : Parser α := fun host strict value path =>
  match value with
  | .object members =>
    match parse strict ⟨host, path, members⟩ with
    | .error e => .error e
    | .ok reading =>
      match finish members path reading.known strict with
      | .error e => .error e
      | .ok unknown => .ok (reading.value, reading.warnings ++ unknown)
  | _ => .error (configError "expected object" path)

/-- Parses one value after the other. -/
def each (parse : ι → Parser α) (host : Host) (strict : Bool) : List (ι × Bytes × Value) →
    Result (List α × List Bytes)
  | [] => .ok ([], [])
  | (i, path, value) :: rest =>
    match parse i host strict value path with
    | .error e => .error e
    | .ok (first, warnings) =>
      match each parse host strict rest with
      | .error e => .error e
      | .ok (more, others) => .ok (first :: more, warnings ++ others)

def elementPath (base : Bytes) (index : Nat) : Bytes :=
    base ++ text "[" ++ decimal index ++ text "]"

/-- The elements of an array with their paths. -/
def elements (path : Bytes) (items : List Value) : List (Unit × Bytes × Value) :=
  items.zipIdx.map fun item => ((), elementPath path item.2, item.1)

/-- The members of a name-keyed object with their paths. -/
def entriesOf (path : Bytes) (members : List Member) : List (Bytes × Bytes × Value) :=
  members.map fun member => (member.1, childPath path member.1, member.2)

def arrayOf (parse : Parser α) : Parser (List α) := fun host strict value path =>
  match value with
  | .array items => each (fun _ => parse) host strict (elements path items)
  | _ => .error (configError "expected array" path)

def namedBy (parse : Bytes → Parser α) : Parser (List α) := fun host strict value path =>
  match value with
  | .object members => each parse host strict (entriesOf path members)
  | _ => .error (configError "expected object" path)

namespace Fields

/-- Claims a key, and parses its value when it is there. -/
def take (key : String) (parse : Parser α) : Read (Option α) := fun strict view =>
  match view.members.find? (·.1 == text key) with
  | none => .ok { value := none, known := [key] }
  | some member =>
    match parse view.host strict member.2 (childPath view.path (text key)) with
    | .error e => .error e
    | .ok (parsed, warnings) => .ok { value := some parsed, known := [key], warnings }

/-- Does not claim the key. -/
def contains (key : String) : Read Bool :=
    fun _ view => .ok { value := view.members.any (·.1 == text key) }

def check (valid : Bytes → Result Unit) : Read Unit := fun _ view =>
  match valid view.path with
  | .error e => .error e
  | .ok () => .ok { value := () }

def require (key : String) : Read Unit := do
  let present ← contains key
  check fun path => if present then .ok ()
    else .error (configError "missing required field" (childPath path (text key)))

def field (key : String) (parse : Host → Value → Bytes → Result α) : Read (Option α) :=
    take key (plain parse)

def booleanValue (value : Value) (path : Bytes) : Result Bool :=
  match value with
  | .boolean b => .ok b
  | _ => .error (configError "expected boolean" path)

def boolean (key : String) (out : Bool) : Read Bool := do
  let parsed ← field key fun _ => booleanValue
  return parsed.getD out

def integer (key : String) (out : Int) (min : Int := 1) (max : Int := kMaxInteger) : Read Int := do
  let parsed ← field key fun _ => integerValue min max
  return parsed.getD out

def optionalInteger (key : String) (out : Option Int) (min : Int := 1) (max : Int := kMaxInteger) :
    Read (Option Int) := do
  let parsed ← field key fun _ => integerValue min max
  return parsed.or out

/-- The number as a double; an integer is rounded to the nearest. -/
def numberValue : Value → Option Float
  | .unsigned n => some n.toFloat
  | .negative n => some (-(Float.ofNat n))
  | .float x => some x
  | _ => none

def priceValue (value : Value) (path : Bytes) : Result Float :=
  match numberValue value with
  | none => .error (configError "expected number" path)
  | some parsed =>
    if !parsed.isFinite || parsed < 0
      then .error (configError "expected non-negative finite number" path) else .ok parsed

def price (key : String) (out : Option Float) : Read (Option Float) := do
  let parsed ← field key fun _ => priceValue
  return parsed.or out

def string (key : String) (out : Bytes) (nonEmpty : Bool := false) : Read Bytes := do
  let parsed ← field key fun host => stringValue host nonEmpty
  return parsed.getD out

def optionalString (key : String) (out : Option Bytes) (nonEmpty : Bool := false) :
    Read (Option Bytes) := do
  let parsed ← field key fun host => stringValue host nonEmpty
  return parsed.or out

def requiredString (key : String) (out : Bytes) (nonEmpty : Bool := false) : Read Bytes := do
  require key
  string key out nonEmpty

def strings (key : String) (out : List Bytes) (nonEmpty : Bool := false) : Read (List Bytes) := do
  let parsed ← take key (arrayOf (plain fun host => stringValue host nonEmpty))
  return parsed.getD out

def object (key : String) (out : α) (parse : Read α) : Read α := do
  let parsed ← take key (nested parse)
  return parsed.getD out

def entries (key : String) (parse : Bytes → Read α) : Read (List α) := do
  let parsed ← take key (namedBy fun name => nested (parse name))
  return parsed.getD []

end Fields

end Orangutan.Config
