import Orangutan.Core.Error

/-!
# Approval tokens

An authority signs what an operator has approved. The digest and the keyed code come
from the cryptographic library; the authority holds both, the key inside the second.
Times are nanoseconds of the 64-bit system clock.
-/

namespace Orangutan.Permission

set_option autoImplicit false

open Orangutan.Core

abbrev Time := Int

/-- What a 64-bit signed computation leaves of a result. -/
def wrapInt64 (n : Int) : Int := n.bmod (2 ^ 64)

/-- A time point plus whole seconds. -/
def addSeconds (t : Time) (seconds : Int) : Time := wrapInt64 (t + wrapInt64 (seconds * 1000000000))

structure ApprovalRequest where
  toolName : Bytes
  input : Bytes
  identity : Bytes
  ttl : Int := 3600

structure ApprovalToken where
  toolName : Bytes
  identity : Bytes
  inputHash : Bytes
  nonce : Bytes
  expiresAt : Time
  mac : Bytes
  deriving DecidableEq

/-- SHA-256, and HMAC-SHA-256 under the secret of the process. -/
structure ApprovalAuthority where
  sha256 : Bytes → Bytes
  hmac : Bytes → Bytes

def kDomainSeparator : Bytes := text "oran-approval-v1"

def kFormatVersion : UInt8 := 0x01

/-- The lowest bytes of a number, least significant first. -/
def littleEndian (width n : Nat) : Bytes := (List.range width).map fun i =>
    UInt8.ofNat (n / 256 ^ i % 256)

def appendLeU32 (out : Bytes) (value : Nat) : Bytes := out ++ littleEndian 4 (value % 2 ^ 32)

def appendLeI64 (out : Bytes) (value : Int) : Bytes := out ++ littleEndian 8 (value % 2 ^ 64).toNat

/-- `duration_cast` to milliseconds rounds towards zero. -/
def toUnixMillis (t : Time) : Int := t.tdiv 1000000

def appendStringView (out sv : Bytes) : Bytes := appendLeU32 out sv.length ++ sv

namespace ApprovalAuthority

def canonicalBytes (toolName identity inputHash nonce : Bytes) (expiresAt : Time) : Bytes :=
  let buf := kDomainSeparator ++ [kFormatVersion]
  let buf := appendStringView buf toolName
  let buf := appendStringView buf identity
  let buf := buf ++ inputHash
  let buf := buf ++ nonce
  appendLeI64 buf (toUnixMillis expiresAt)

def inputHash (a : ApprovalAuthority) (input : Bytes) : Bytes := a.sha256 input

/-- The nonce comes from the random generator. -/
def issue (a : ApprovalAuthority) (req : ApprovalRequest) (nonce : Bytes) (now : Time) :
    ApprovalToken :=
  let hash := a.inputHash req.input
  let expiresAt := addSeconds now req.ttl
  { toolName := req.toolName
    identity := req.identity
    inputHash := hash
    nonce
    expiresAt
    mac := a.hmac (canonicalBytes req.toolName req.identity hash nonce expiresAt) }

def denied (reason : String) : Error :=
  (Error.permissionDenied "approval token rejected").note "reason" (text reason)

def verify (a : ApprovalAuthority) (token : ApprovalToken) (toolName input identity : Bytes)
    (now : Time) :
    Result Unit :=
  if token.expiresAt ≤ now then .error (denied "expired")
  else if token.toolName ≠ toolName then .error (denied "tool_mismatch")
  else if token.identity ≠ identity then .error (denied "identity_mismatch")
  else if a.inputHash input ≠ token.inputHash then .error (denied "input_mismatch")
  else if a.hmac (canonicalBytes token.toolName token.identity token.inputHash token.nonce
    token.expiresAt) ≠
      token.mac then .error (denied "mac_mismatch")
  else .ok ()

/-- What a verified token says. -/
theorem verify_ok {a : ApprovalAuthority} {token : ApprovalToken} {toolName input identity : Bytes}
    {now : Time} :
    a.verify token toolName input identity now = .ok () ↔
      now < token.expiresAt ∧ token.toolName = toolName ∧ token.identity = identity ∧
        a.inputHash input = token.inputHash ∧
        a.hmac (canonicalBytes token.toolName token.identity token.inputHash token.nonce
          token.expiresAt) = token.mac := by
  unfold verify
  constructor
  · intro h
    split_ifs at h with h1 h2 h3 h4 h5
    · exact ⟨not_le.mp h1, not_not.mp h2, not_not.mp h3, not_not.mp h4, not_not.mp h5⟩
  · rintro ⟨h1, h2, h3, h4, h5⟩
    rw [if_neg (not_le.mpr h1), if_neg (not_not.mpr h2), if_neg (not_not.mpr h3),
      if_neg (not_not.mpr h4), if_neg (not_not.mpr h5)]

end ApprovalAuthority

end Orangutan.Permission
