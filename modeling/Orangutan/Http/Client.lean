import Orangutan.Core.Json
import Orangutan.Http.SseParser

/-!
# The streaming transfer

One blocking transfer over libcurl. The library calls back with the header lines and with the
pieces of the body, and fails the transfer when a callback takes fewer bytes than it was given.
The parser's latch is looked at when a piece arrives, before the piece is taken.
-/

namespace Orangutan.Http

set_option autoImplicit false

open Orangutan.Core EventStream

structure Header where
  name : Bytes
  value : Bytes
  deriving DecidableEq

/-- `timeout` is in milliseconds. -/
structure BodyRequest where
  method : Bytes := text "GET"
  url : Bytes
  headers : List Header := []
  body : Bytes := []
  timeout : Int := 30000
  maxBytes : UInt64 := 16 * 1024 * 1024

structure BodyResponse where
  statusCode : UInt16 := 0
  headers : List Header := []
  body : Bytes := []
  deriving DecidableEq

inductive CurlCode
  | ok
  | operationTimedOut
  | couldntResolveHost
  | couldntConnect
  | recvError
  | sendError
  | gotNothing
  | sslConnectError
  | peerFailedVerification
  | writeError
  | other (code : Nat)
  deriving DecidableEq

/-- One `curl_multi_perform`: the callbacks it makes and its code, and what the loop sees after it
when the transfer is still running: the cancellation flag and the code of the poll. -/
structure Round where
  headerLines : List Bytes := []
  chunks : List Bytes := []
  perform : Nat := 0
  cancelled : Bool := false
  poll : Nat := 0

/-- What libcurl does during one request. A `CURLMcode` is zero when it is `CURLM_OK`; `result` is
the transfer's own code, if there is a completion message; `status` is what `curl_easy_getinfo` says
of the response code. -/
structure Curl where
  globalInit : Bool := true
  easyInit : Bool := true
  multiInit : Bool := true
  slistAppend : Header → Bool := fun _ => true
  setCommon : Bool := true
  setMethod : Bool := true
  addHandle : Nat := 0
  rounds : List Round
  result : Option CurlCode := some .ok
  status : Except CurlCode Int
  easyStrerror : CurlCode → Bytes
  multiStrerror : Nat → Bytes

namespace Curl

variable (curl : Curl)

def curlError (code : CurlCode) (action : String) : Error :=
  match code with
  | .operationTimedOut =>
    (Error.of .timeout "http request timed out").note "curl_error" (curl.easyStrerror code)
  | .couldntResolveHost | .couldntConnect | .recvError | .sendError | .gotNothing =>
    ((Error.of .network "http transport failed").note "curl_error" (curl.easyStrerror code)).note
      "action" (text action)
  | .sslConnectError | .peerFailedVerification =>
    ((Error.of .network "http TLS verification failed").note "curl_error"
      (curl.easyStrerror code)).note
      "action" (text action)
  | _ =>
    ((Error.upstream "http client failed").note "curl_error" (curl.easyStrerror code)).note "action"
      (text action)

def curlMultiError (code : Nat) (action : String) : Error :=
  ((Error.of .network "http multi transport failed").note "curl_multi_error"
    (curl.multiStrerror code)).note
    "action" (text action)

end Curl

def isHttpUrl (url : Bytes) : Bool := text "http://" <+: url ∨ text "https://" <+: url

def isKnownMethod (method : Bytes) : Bool :=
  method ∈ [text "GET", text "POST", text "PUT", text "PATCH", text "DELETE", text "HEAD"]

def isBlankByte (byte : UInt8) : Bool := byte = space ∨ byte = 9

def trimHeaderValue (value : Bytes) : Bytes :=
  (value.dropWhile isBlankByte).rdropWhile fun byte => byte = cr ∨ byte = lf ∨ isBlankByte byte

def writeHeader (headers : List Header) (data : Bytes) : List Header :=
  let line :=
    if [cr, lf] <:+ data then data.dropLast.dropLast
    else if data.getLast? = some lf then data.dropLast
    else data
  match line.dropWhile (· ≠ colon) with
  | [] => headers
  | _ :: value =>
    if line.takeWhile (· ≠ colon) = [] then headers
    else headers ++ [{ name := line.takeWhile (· ≠ colon), value := trimHeaderValue value }]

def asciiLower (byte : UInt8) : UInt8 := if 65 ≤ byte ∧ byte ≤ 90 then byte - 65 + 97 else byte

def asciiIequals (lhs rhs : Bytes) : Bool := lhs.map asciiLower = rhs.map asciiLower

def responseIsEventStream (status : Except CurlCode Int) (headers : List Header) : Bool :=
  match status with
  | .error _ => false
  | .ok status =>
    if status < 200 ∨ status ≥ 300 then false
    else headers.any fun h =>
      asciiIequals h.name (text "content-type") && decide (text "text/event-stream" <:+: h.value)

/-- `posted` has the events that were posted to the caller's executor. -/
structure StreamState where
  parser : SseParser := {}
  errorBody : Bytes := []
  isStream : Option Bool := none
  fedBytes : Nat := 0
  maxBytes : UInt64
  exceeded : Bool := false
  posted : List SseEvent := []

/-- The write callback, with the count that it returns. -/
def writeStream (status : Except CurlCode Int) (headers : List Header) (state : StreamState)
    (data : Bytes) :
    StreamState × Nat :=
  if state.maxBytes.toNat < (state.fedBytes + data.length) % 2 ^ 64 ∨ state.parser.exceeded then
    ({ state with exceeded := true }, 0)
  else
    let isStream := state.isStream.getD (responseIsEventStream status headers)
    let fed := { state with fedBytes := state.fedBytes + data.length, isStream := some isStream }
    if isStream then
      ({ fed with
        parser := (state.parser.feed data).1,
        posted := state.posted ++ (state.parser.feed data).2 }, data.length)
    else ({ fed with errorBody := state.errorBody ++ data }, data.length)

/-- The write callbacks of one round. The second component says that a count was short. -/
def deliver (status : Except CurlCode Int) (headers : List Header) (state : StreamState) :
    List Bytes → StreamState × Bool
  | [] => (state, false)
  | chunk :: rest =>
    if (writeStream status headers state chunk).2 = chunk.length then
      deliver status headers (writeStream status headers state chunk).1 rest
    else ((writeStream status headers state chunk).1, true)

/-- How the loop over the rounds ends. -/
structure Performed where
  state : StreamState
  headers : List Header
  result : Result Unit

def completion (curl : Curl) (result : Option CurlCode) : Result Unit :=
  match result with
  | none => .error (.of .network "http request finished without curl completion message")
  | some .ok => .ok ()
  | some code => .error (curl.curlError code "perform")

def runRounds (curl : Curl) (state : StreamState) (headers : List Header) : List Round → Performed
  | [] => { state, headers, result := completion curl curl.result }
  | round :: rest =>
    let seen := round.headerLines.foldl writeHeader headers
    let after := deliver curl.status seen state round.chunks
    if round.perform ≠ 0 then
      { state := after.1, headers := seen,
        result := .error (curl.curlMultiError round.perform "perform") }
    else if after.2 then
      { state := after.1, headers := seen, result := completion curl (some .writeError) }
    else if rest.isEmpty then
      { state := after.1, headers := seen, result := completion curl curl.result }
    else if round.cancelled then { state := after.1, headers := seen, result := .error .cancelled }
    else if round.poll ≠ 0 then
      { state := after.1, headers := seen,
        result := .error (curl.curlMultiError round.poll "poll") }
    else runRounds curl after.1 seen rest

def runMulti (curl : Curl) (state : StreamState) : Performed :=
  if curl.addHandle ≠ 0 then
    { state, headers := [], result := .error (curl.curlMultiError curl.addHandle "add_handle") }
  else runRounds curl state [] curl.rounds

def validateRequest (request : BodyRequest) : Result Unit :=
  if request.url = [] then .error (.invalidArgument "http request url must be non-empty")
  else if ¬isHttpUrl request.url then
    .error ((Error.invalidArgument "http request url must use http or https").note "url"
      request.url)
  else if ¬isKnownMethod request.method then
    .error ((Error.invalidArgument "http request method is not supported").note "method"
      request.method)
  else if request.timeout ≤ 0 then .error (.invalidArgument "http request timeout must be positive")
  else if 2 ^ 63 - 1 < request.timeout
    then .error (.invalidArgument "http request timeout is too large")
  else if request.maxBytes = 0
    then .error (.invalidArgument "http request max_bytes must be positive")
  else .ok ()

def appendHeader (curl : Curl) (header : Header) : Result Unit :=
  if header.name = [] then .error (.invalidArgument "http header name must be non-empty")
  else if ¬curl.slistAppend header then .error (.internal "failed to allocate curl header list")
  else .ok ()

def configureEasy (curl : Curl) (request : BodyRequest) : Result Unit := do
  request.headers.forM (appendHeader curl)
  if ¬curl.setCommon then .error (.internal "failed to configure curl easy handle")
  else if ¬curl.setMethod then
    if request.method = text "HEAD" then .error (.internal "failed to configure curl HEAD request")
    else if request.method = text "GET"
      then .error (.internal "failed to configure curl GET request")
    else .error (.internal "failed to configure curl body request")
  else .ok ()

def responseCode (curl : Curl) : Result UInt16 :=
  match curl.status with
  | .error code => .error (curl.curlError code "response_code")
  | .ok status =>
    if status < 0 ∨ 65535 < status then .error (.upstream "http response status is out of range")
    else .ok (UInt16.ofNat status.toNat)

/-- The result, and the events that were posted to the caller's executor. -/
structure Sent where
  result : Result BodyResponse
  posted : List SseEvent := []

def sendStreamingBlocking (curl : Curl) (request : BodyRequest) (cancelled : Bool) : Sent :=
  if ¬curl.globalInit then { result := .error (.internal "curl global initialization failed") }
  else
    match validateRequest request with
    | .error e => { result := .error e }
    | .ok () =>
      if cancelled then { result := .error .cancelled }
      else if ¬curl.easyInit then
        { result := .error (.internal "failed to allocate curl easy handle") }
      else if ¬curl.multiInit then
        { result := .error (.internal "failed to allocate curl multi handle") }
      else
        match configureEasy curl request with
        | .error e => { result := .error e }
        | .ok () =>
          let performed := runMulti curl { maxBytes := request.maxBytes }
          match performed.result with
          | .error e =>
            if performed.state.exceeded then
              { result := .error ((Error.of .network "http response exceeded max_bytes").note
                  "max_bytes" (decimal request.maxBytes.toNat))
                posted := performed.state.posted }
            else { result := .error e, posted := performed.state.posted }
          | .ok () =>
            { result := (responseCode curl).map fun status =>
                { statusCode := status, headers := performed.headers,
                  body := performed.state.errorBody }
              posted := performed.state.posted }

end Orangutan.Http
