import Orangutan.Core.Message

/-!
# Event sinks

What a caller sees of a stream is the list of callbacks of its sink, in order.
-/

namespace Orangutan.Provider

set_option autoImplicit false

open Orangutan.Core

/-- A callback of `EventSink` with its arguments. -/
inductive SinkEvent
  | textDelta (delta : Bytes)
  | thinkingDelta (delta : Bytes)
  | toolStart (id name : Bytes)
  | toolDelta (id inputDelta : Bytes)
  | done (stopReason : StopReason)
  deriving DecidableEq

namespace SinkEvent

def isDone : SinkEvent → Bool
  | done _ => true
  | _ => false

end SinkEvent

/-- The sink of one attempt: it forwards every callback to the sink of the caller. -/
structure AttemptSink where
  inner : List SinkEvent
  emitted : Bool := false

namespace AttemptSink

def on (sink : AttemptSink) (event : SinkEvent) : AttemptSink :=
  { inner := sink.inner ++ [event], emitted := true }

def drive (events : List SinkEvent) (sink : AttemptSink) : AttemptSink := events.foldl on sink

theorem drive_inner (events : List SinkEvent) (sink : AttemptSink) :
    (drive events sink).inner = sink.inner ++ events := by
  induction events generalizing sink with
  | nil => exact (List.append_nil _).symm
  | cons event rest ih =>
    rw [drive, List.foldl_cons, ← drive, ih, on, List.append_assoc]
    rfl

theorem drive_emitted (events : List SinkEvent) (sink : AttemptSink) :
    (drive events sink).emitted = (sink.emitted || !events.isEmpty) := by
  induction events generalizing sink with
  | nil => exact (Bool.or_false _).symm
  | cons event rest ih =>
    rw [drive, List.foldl_cons, ← drive, ih, on]
    simp

end AttemptSink

end Orangutan.Provider
