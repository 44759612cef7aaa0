import Mathlib

/-!
# Errors across component boundaries

`core::Error` carries a kind, a message and an ordered list of context entries.
Strings that the program computes are byte strings; the fixed texts of the
source stay Lean strings and are encoded by `text` where the program copies them.
-/

namespace Orangutan.Core

set_option autoImplicit false

/-- A `std::string`: any sequence of bytes. -/
abbrev Bytes := List UInt8

instance : LawfulBEq Bytes := inferInstance

/-- The bytes of a fixed text of the source. -/
def text (s : String) : Bytes := s.toByteArray.data.toList

inductive ErrorKind
  | ok
  | cancelled
  | invalidArgument
  | notFound
  | permissionDenied
  | capabilityNotGranted
  | config
  | auth
  | io
  | network
  | rateLimit
  | upstream
  | parsing
  | timeout
  | conflict
  | notModified
  | storage
  | hookTimeout
  | hookFailed
  | mailboxOverflowed
  | internal
  deriving DecidableEq, Repr

/-- `core::enum_name` of an error kind. -/
def ErrorKind.name : ErrorKind → Bytes
  | ok => text "ok"
  | cancelled => text "cancelled"
  | invalidArgument => text "invalid_argument"
  | notFound => text "not_found"
  | permissionDenied => text "permission_denied"
  | capabilityNotGranted => text "capability_not_granted"
  | config => text "config"
  | auth => text "auth"
  | io => text "io"
  | network => text "network"
  | rateLimit => text "rate_limit"
  | upstream => text "upstream"
  | parsing => text "parsing"
  | timeout => text "timeout"
  | conflict => text "conflict"
  | notModified => text "not_modified"
  | storage => text "storage"
  | hookTimeout => text "hook_timeout"
  | hookFailed => text "hook_failed"
  | mailboxOverflowed => text "mailbox_overflowed"
  | internal => text "internal"

structure Error where
  kind : ErrorKind
  message : String
  context : List (String × Bytes) := []
  /-- Milliseconds, when the service asked for a delay. -/
  retryAfter : Option Nat := none
  deriving DecidableEq, Repr

namespace Error

/-- `Error::with`: append one context entry. -/
def note (e : Error) (key : String) (value : Bytes) : Error :=
  { e with context := e.context ++ [(key, value)] }

/-- The retry-friendly kinds. -/
def retryable (e : Error) : Bool :=
  match e.kind with
  | .network | .rateLimit | .timeout | .upstream => true
  | _ => false

/-- The two-argument constructor. -/
def of (kind : ErrorKind) (message : String) : Error := { kind, message }

def cancelled : Error := { kind := .cancelled, message := "cancelled" }
def invalidArgument (message : String) : Error := { kind := .invalidArgument, message }
def notFound (message : String) : Error := { kind := .notFound, message }
def permissionDenied (message : String) : Error := { kind := .permissionDenied, message }
def upstream (message : String) : Error := { kind := .upstream, message }
def storage (message : String) : Error := { kind := .storage, message }
def parsing (message : String) : Error := { kind := .parsing, message }
def internal (message : String) : Error := { kind := .internal, message }

end Error

abbrev Result (α : Type) := Except Error α

section Result

variable {α β : Type}

theorem ok_bind (a : α) (f : α → Result β) : (.ok a : Result α) >>= f = f a := rfl

theorem error_bind (e : Error) (f : α → Result β) : (.error e : Result α) >>= f = .error e := rfl

theorem bind_eq_ok {x : Result α} {f : α → Result β} {b : β} :
    x >>= f = .ok b ↔ ∃ a, x = .ok a ∧ f a = .ok b := by
  cases x with
  | error e => simp [bind, Except.bind]
  | ok a => simp [bind, Except.bind]

theorem bind_eq_error {x : Result α} {f : α → Result β} {e : Error} :
    x >>= f = .error e ↔ x = .error e ∨ ∃ a, x = .ok a ∧ f a = .error e := by
  cases x with
  | error e' => simp [bind, Except.bind]
  | ok a => simp [bind, Except.bind]

end Result

end Orangutan.Core
