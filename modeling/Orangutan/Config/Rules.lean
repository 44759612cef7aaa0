import Orangutan.Permission.RuleSet

/-!
# Permission rules in the configuration

A rule is read from a JSON object: each field is checked as it is read, the first failure is kept,
and a key that no read claims is a warning, or an error in strict mode.
-/

namespace Orangutan.Config

set_option autoImplicit false

open Orangutan.Core Orangutan.Permission

/-- A parsed JSON value. Integers that are not negative are read as unsigned 64-bit numbers. -/
inductive Value
  | null
  | boolean (b : Bool)
  | unsigned (n : UInt64)
  | negative (n : Nat)
  | float (x : Float)
  | string (s : Bytes)
  | array (items : List Value)
  | object (members : List (Bytes × Value))

/-- What the reader asks of the environment and of the regular expression library. -/
structure Host where
  getenv : Bytes → Option Bytes
  regexError : Bytes → Option Bytes

structure PermissionRuleConfig where
  verdict : Verdict := .deny
  toolPattern : Bytes
  capability : Option Capability := none
  inputPattern : Option Bytes := none
  replayMax : Option Nat := none
  approvalTtlSeconds : Option Int := none

def kMaxInteger : Int := 2 ^ 63 - 1

def configError (message : String) (path : Bytes) : Error :=
    (Error.of .config message).note "path" path

def childPath (base child : Bytes) : Bytes :=
  if base.isEmpty || base == text "$" then text "$." ++ child else base ++ text "." ++ child

def validEnvName (name : Bytes) : Bool :=
  !name.isEmpty && name.all fun ch =>
    (0x30 ≤ ch && ch ≤ 0x39) || (0x41 ≤ ch && ch ≤ 0x5A) || (0x61 ≤ ch && ch ≤ 0x7A) || ch == 0x5F

/-- `find` of two bytes: what stands before them and after them. -/
def breakAt (a b : UInt8) : Bytes → Option (Bytes × Bytes)
  | [] => none
  | [_] => none
  | c :: d :: rest =>
    if c = a ∧ d = b then some ([], rest) else (breakAt a b (d :: rest)).map fun found =>
      (c :: found.1, found.2)

/-- One substitution, on the text between the braces. -/
def substitute (host : Host) (path expr : Bytes) : Result Bytes :=
  let marker := breakAt 0x3A 0x2D expr
  let name := (marker.map Prod.fst).getD expr
  if !validEnvName name then .error
    ((configError "invalid environment variable name" path).note "name" name)
  else
    match host.getenv name, marker with
    | some value, none => .ok value
    | some value, some (_, fallback) => .ok (if value.isEmpty then fallback else value)
    | none, some (_, fallback) => .ok fallback
    | none, none => .error ((configError "missing environment variable" path).note "name" name)

/-- The loop of `expand_env_string`, from the cursor on. Every round goes forward. -/
def expandFrom (host : Host) (path : Bytes) : Nat → Bytes → Result Bytes
  | 0, _ => .ok []
  | rounds + 1, input =>
    match breakAt 0x24 0x7B input with
    | none => .ok input
    | some (before, after) =>
      if !after.contains 0x7D then .error (configError "unterminated environment substitution" path)
      else
        match substitute host path (after.takeWhile (· != 0x7D)) with
        | .error e => .error e
        | .ok value =>
          match expandFrom host path rounds ((after.dropWhile (· != 0x7D)).drop 1) with
          | .error e => .error e
          | .ok rest => .ok (before ++ value ++ rest)

def expandEnvString (host : Host) (input path : Bytes) : Result Bytes :=
    expandFrom host path (input.length + 1) input

def stringValue (host : Host) (nonEmpty : Bool) (value : Value) (path : Bytes) : Result Bytes :=
  match value with
  | .string s =>
    match expandEnvString host s path with
    | .error e => .error e
    | .ok expanded =>
      if nonEmpty && expanded.isEmpty then .error (configError "expected non-empty string" path)
        else .ok expanded
  | _ => .error (configError "expected string" path)

/-- The bounds of `integer_value`, on the number read. -/
def checkedInteger (parsed : Int) (path : Bytes) (min max : Int) : Result Int :=
  if parsed < min then
    .error (configError (if min = 1 then "expected positive integer"
      else "expected non-negative integer") path)
  else if max < parsed then .error
    ((configError "integer is out of range" path).note "max" (signedDecimal max))
  else .ok parsed

def integerValue (min max : Int) (value : Value) (path : Bytes) : Result Int :=
  match value with
  | .unsigned n =>
    if kMaxInteger < n.toNat then .error (configError "integer is out of range" path)
    else checkedInteger n.toNat path min max
  | .negative n => checkedInteger (-n) path min max
  | _ => .error (configError "expected integer" path)

def capabilities : List Capability :=
  [.readFile, .writeFile, .editFile, .deletePath, .listDirectory, .egressHttp, .egressWebsocket,
    .spawnSubprocess, .signalSubprocess, .externalMcp, .runtimeLoader]

def capabilityValue (value : Value) (path : Bytes) : Result Capability :=
  match value with
  | .string s =>
    match capabilities.find? (·.name == s) with
    | some capability => .ok capability
    | none => .error ((configError "unknown capability spelling" path).note "capability" s)
  | _ => .error (configError "expected string" path)

def patternValue (host : Host) (value : Value) (path : Bytes) : Result Bytes :=
  match stringValue host true value path with
  | .error e => .error e
  | .ok pattern =>
    match host.regexError pattern with
    | some detail =>
        .error ((configError "invalid input_pattern regex" path).note "regex_error" detail)
    | none => .ok pattern

/-- `Fields::field`: an absent key is no error. -/
def field {α : Type} (members : List (Bytes × Value)) (path : Bytes) (key : String)
    (parse : Value → Bytes → Result α) :
    Result (Option α) :=
  match members.find? (·.1 == text key) with
  | none => .ok none
  | some entry =>
    match parse entry.2 (childPath path (text key)) with
    | .error e => .error e
    | .ok parsed => .ok (some parsed)

def require (members : List (Bytes × Value)) (path : Bytes) (key : String) : Result Unit :=
  if members.any (·.1 == text key) then .ok ()
    else .error (configError "missing required field" (childPath path (text key)))

/-- `Fields::finish`: the paths of the warnings. -/
def finish (members : List (Bytes × Value)) (path : Bytes) (known : List String) (strict : Bool) :
    Result (List Bytes) :=
  let unknown := (members.filter fun m => !known.any fun key => text key == m.1).map fun m =>
    childPath path m.1
  match unknown with
  | [] => .ok []
  | first :: _ => if strict then .error (configError "unknown config field" first) else .ok unknown

/-- `parse_rule` on a nested object. -/
def parseRule (host : Host) (strict : Bool) (verdict : Verdict) (value : Value) (path : Bytes) :
    Result (PermissionRuleConfig × List Bytes) :=
  match value with
  | .object members => do
    require members path "tool_pattern"
    let toolPattern ← field members path "tool_pattern" (stringValue host true)
    let capability ← field members path "capability" capabilityValue
    let inputPattern ← field members path "input_pattern" (patternValue host)
    let replayMax ← field members path "replay_max" (integerValue 0 (2 ^ 32 - 1))
    let approvalTtlSeconds ← field members path "approval_ttl_seconds" (integerValue 0 kMaxInteger)
    let warnings ← finish members path
      ["tool_pattern", "capability", "input_pattern", "replay_max", "approval_ttl_seconds"] strict
    return ({ verdict
              toolPattern := toolPattern.getD []
              capability
              inputPattern
              replayMax := replayMax.map Int.toNat
              approvalTtlSeconds }, warnings)
  | _ => .error (configError "expected object" path)

theorem integerValue_range {min max n : Int} {value : Value} {path : Bytes}
    (h : integerValue min max value path = .ok n) :
    min ≤ n ∧ n ≤ max := by
  have hchecked : ∀ {m : Int}, checkedInteger m path min max = .ok n → min ≤ n ∧ n ≤ max := by
    intro m h
    unfold checkedInteger at h
    split at h
    · cases h
    · split at h
      · cases h
      · cases h
        exact ⟨by omega, by omega⟩
  unfold integerValue at h
  split at h
  · split at h
    · cases h
    · exact hchecked h
  · exact hchecked h
  · cases h

theorem field_some {α : Type} {members : List (Bytes × Value)} {path : Bytes} {key : String}
    {parse : Value → Bytes → Result α} {a : α} (h : field members path key parse = .ok (some a)) :
    ∃ value, parse value (childPath path (text key)) = .ok a := by
  unfold field at h
  split at h
  · cases h
  · next entry hentry =>
    split at h
    · cases h
    · next parsed hparsed =>
      cases h
      exact ⟨entry.2, hparsed⟩

theorem bind_ok {α β : Type} {x : Result α} {f : α → Result β} {b : β} (h : (x >>= f) = .ok b) :
    ∃ a, x = .ok a ∧ f a = .ok b := by
  cases x with
  | error e => cases h
  | ok a => exact ⟨a, rfl, h⟩

/-- An accepted rule has the verdict of its list, and its lifetime is a count of seconds the clock
library holds. -/
theorem parseRule_limits {host : Host} {strict : Bool} {verdict : Verdict} {value : Value}
    {path : Bytes} {rule : PermissionRuleConfig} {warnings : List Bytes}
    (h : parseRule host strict verdict value path = .ok (rule, warnings)) :
    rule.verdict = verdict ∧ ∀ ttl, rule.approvalTtlSeconds = some ttl → 0 ≤ ttl ∧
      ttl ≤ kMaxInteger := by
  unfold parseRule at h
  split at h
  · obtain ⟨-, -, h⟩ := bind_ok h
    obtain ⟨toolPattern, -, h⟩ := bind_ok h
    obtain ⟨capability, -, h⟩ := bind_ok h
    obtain ⟨inputPattern, -, h⟩ := bind_ok h
    obtain ⟨replayMax, -, h⟩ := bind_ok h
    obtain ⟨ttl, httl, h⟩ := bind_ok h
    obtain ⟨warnings, -, h⟩ := bind_ok h
    cases h
    refine ⟨rfl, fun n hn => ?_⟩
    dsimp only at hn
    subst hn
    obtain ⟨value, hvalue⟩ := field_some httl
    exact integerValue_range hvalue
  · cases h

end Orangutan.Config
