import Orangutan.Agent.Loop
import Orangutan.Tool.FileRead

/-!
# File reads in a turn

What a model gets to see of a FileRead: the output goes through the output caps and the scheduler,
and the loop turns it into a tool result or ends the turn.
-/

namespace Orangutan.Agent

set_option autoImplicit false

open Orangutan.Core Orangutan.Core.Str Orangutan.Io Orangutan.Lib Orangutan.Lib.Fallible
  Orangutan.Tool

/-- What the scheduler hands on of an output. -/
def handedOn (output : Output) : ToolOutput where
  text := output.text
  dataJson := output.dataJson
  isError := output.isError
  truncated := output.usage.truncated
  dataDropped := output.usage.dataDropped

/-- How the dispatch of an executor ends: it returns, with its output capped, or it throws. -/
def dispatchEnd (caps : OutputCapOptions) : Result (Option Output) → CallEnd
  | .ok (some output) => .dispatched (.ok (handedOn (applyOutputCaps output caps)))
  | .ok none => .threw false
  | .error e => .dispatched (.error e)

section Read

variable (sha256 : Bytes → Bytes) (openFile : Nat → Bytes →
  Result ReadOnlyFile) (openTrusted : Bytes → Result ReadOnlyFile)
  (options : ToolSchedulerOptions) (toolUseId : Bytes) (request : FileReadRequest)
    (ctx : DispatchContext)

/-- The tool result of a FileRead that is admitted. -/
def fileReadResult (w : World) : Result Content :=
  toolResultFrom toolUseId (callOutput options (text "FileRead")
    (dispatchEnd ctx.outputCaps
      (runIn (fileReadHandler sha256 openFile openTrusted request ctx) w).1))

/-- The model sees an error, or a success of valid UTF-8. -/
def SeenByModel : Result Content → Prop
  | .ok (.toolResult _ output dataJson isError) =>
    isError = true ∨ (isValidUtf8 output = true ∧ ∀ data, dataJson = some data →
      isValidUtf8 data = true)
  | _ => False

theorem toolNotice_valid (output : ToolOutput) : isValidUtf8 (toolNotice output) = true := by
  unfold toolNotice
  rw [isValidUtf8_append]
  · split <;> decide +kernel
  · split <;> decide +kernel

theorem applyOutputCaps_text (output : Output) (caps : OutputCapOptions) :
    (applyOutputCaps output caps).text = output.text ∨
      (applyOutputCaps output caps).text = truncateToCodePoint output.text caps.maxTextBytes := by
  unfold applyOutputCaps
  dsimp only
  split <;> split <;> simp

theorem applyOutputCaps_dataJson (output : Output) (caps : OutputCapOptions) :
    (applyOutputCaps output caps).dataJson = output.dataJson ∨
      (applyOutputCaps output caps).dataJson = none := by
  unfold applyOutputCaps
  dsimp only
  split <;> split <;> simp

theorem applyOutputCaps_valid {output : Output} (caps : OutputCapOptions)
    (htext : isValidUtf8 output.text = true)
    (hdata : ∀ data, output.dataJson = some data → isValidUtf8 data = true) :
    isValidUtf8 (applyOutputCaps output caps).text = true ∧
      ∀ data, (applyOutputCaps output caps).dataJson = some data → isValidUtf8 data = true := by
  constructor
  · rcases applyOutputCaps_text output caps with hsame | hcut
    · rw [hsame]
      exact htext
    · rw [hcut]
      exact isValidUtf8_truncateToCodePoint htext _
  · rcases applyOutputCaps_dataJson output caps with hsame | hnone
    · rw [hsame]
      exact hdata
    · rw [hnone]
      intro data h
      cases h

theorem seen_of_output {output : Output} (htext : isValidUtf8 output.text = true)
    (hdata : ∀ data, output.dataJson = some data → isValidUtf8 data = true) :
    SeenByModel (toolResultFrom toolUseId (callOutput options (text "FileRead")
      (dispatchEnd ctx.outputCaps (.ok (some output))))) := by
  obtain ⟨hcapped, hkept⟩ := applyOutputCaps_valid ctx.outputCaps htext hdata
  right
  refine ⟨?_, hkept⟩
  rw [isValidUtf8_append (toolNotice_valid _)]
  exact hcapped

/-- An exception ends the turn. -/
theorem not_seen_of_throw :
    ¬SeenByModel (toolResultFrom toolUseId (callOutput options (text "FileRead")
      (dispatchEnd ctx.outputCaps (.ok none)))) := id

/-- A read of a file that stays as it is shows its window, exactly if the window and the path can be
written. -/
theorem file_read_seen_iff {file : ReadOnlyFile} {v : Version} {w : World}
    (hopened : openedFile openFile openTrusted request ctx = .ok file) (hfd : v.holds file.fd =
      true) (hw : Still v w) :
    SeenByModel (fileReadResult sha256 openFile openTrusted options toolUseId request ctx w) ↔
      isValidUtf8 (shownPath request ctx) = true ∧
        Legible request.lines request.maxBytes v.content = true := by
  obtain ⟨result, w', hrun, -, htext⟩ :=
    @reads_readFile file v hfd request.lines request.maxBytes request.offset_pos request.limit_pos
      request.maxBytes_pos w hw
  have hhandler : (runIn (fileReadHandler sha256 openFile openTrusted request ctx) w).1 =
      .ok (readOutput sha256 (shownPath request ctx) request.limit result) := by
    rw [fileReadHandler, hopened]
    dsimp only
    rw [runIn_bind, hrun]
    rfl
  rw [fileReadResult, hhandler, ← legible_eq, ← htext,
    ← readOutput_isSome sha256 _ request.limit result]
  rcases houtput : readOutput sha256 (shownPath request ctx) request.limit result with _ | output
  · simp [not_seen_of_throw]
  · obtain ⟨hvalid, hdata, -⟩ := readOutput_valid houtput
    simp [seen_of_output options toolUseId ctx hvalid hdata]

end Read

/-- A file with this content that nobody touches. -/
def plainFile (content : Bytes) : Version := { content, inode := 1 }

def plainWorld (content : Bytes) : World :=
    { target := some (plainFile content), script := [], seen := [plainFile content] }

def plainOpen (_ : Bytes) : Result ReadOnlyFile :=
    .ok { fd := { device := 0, inode := 1 }, displayPath := text "note" }

def noteRead : FileReadRequest := { path := text "note" }

def bareContext : DispatchContext := { rules := [], now := 0 }

theorem plainWorld_still (content : Bytes) (h : content.length < 2 ^ 63) :
    Still (plainFile content) (plainWorld content) where
  target := rfl
  quiet := fun _ hturn => by cases hturn
  regular := rfl
  size := h

theorem file_read_seen_iff_plain :
    SeenByModel (fileReadResult id (fun _ => plainOpen) plainOpen {} (text "t") noteRead bareContext
      (plainWorld (text "one\n"))) :=
  (file_read_seen_iff id (fun _ => plainOpen) plainOpen {} (text "t") noteRead bareContext rfl rfl
    (plainWorld_still _ (by decide +kernel))).mpr (by decide +kernel)

/-- One byte that is no text ends the turn. -/
theorem file_read_not_seen :
    ¬SeenByModel (fileReadResult id (fun _ => plainOpen) plainOpen {}
      (text "t") noteRead bareContext
      (plainWorld [0xFF])) := by
  have hthrown : (runIn (fileReadHandler id (fun _ => plainOpen) plainOpen noteRead bareContext)
      (plainWorld [0xFF])).1 = .ok none := by
    rfl
  rw [fileReadResult, hthrown]
  exact not_seen_of_throw _ _ _

end Orangutan.Agent
