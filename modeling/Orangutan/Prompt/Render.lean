import Orangutan.Core.Message

/-!
# The stable prefix

The system text of a turn is its nonempty sections, one newline between them. Two FNV-1a hashes name
it: one of the declarations, one of the text with the first hash behind it.
-/

namespace Orangutan.Prompt

set_option autoImplicit false

open Orangutan.Core

def fnvOffset : UInt64 := 14695981039346656037

def fnvPrime : UInt64 := 1099511628211

def hashAppend (hash : UInt64) (bytes : Bytes) : UInt64 :=
    bytes.foldl (fun hash c => (hash ^^^ c.toUInt64) * fnvPrime) hash

/-- The eight bytes of a value, lowest first. -/
def bytesU64 (value : UInt64) : Bytes := (List.range 8).map fun i =>
    ((value >>> UInt64.ofNat (i * 8)) &&& 0xFF).toUInt8

def hashAppendU64 (hash value : UInt64) : UInt64 := hashAppend hash (bytesU64 value)

def hashField (hash : UInt64) (bytes : Bytes) : UInt64 :=
  hashAppend (hashAppendU64 hash (UInt64.ofNat bytes.length)) bytes

def hashTools (tools : List ToolDef) : UInt64 :=
  tools.foldl (fun hash definition =>
    hashField (hashField (hashField hash definition.name) definition.description)
      definition.inputSchemaJson)
    (hashAppendU64 fnvOffset (UInt64.ofNat tools.length))

structure RenderInputs where
  systemPreamble : Bytes := []
  tools : List ToolDef := []
  skillsCatalog : Bytes := []
  memoryFraming : Bytes := []
  perAgentOverlay : Bytes := []

structure RenderedPrompt where
  systemPrompt : Bytes := []
  toolCatalogHash : UInt64 := 0
  prefixHash : UInt64 := 0
  prefixBytes : Nat := 0
  deriving DecidableEq

def RenderInputs.sections (inputs : RenderInputs) : List Bytes :=
  [inputs.systemPreamble, inputs.skillsCatalog, inputs.memoryFraming, inputs.perAgentOverlay]

def appendSection (systemPrompt section' : Bytes) : Bytes :=
  if section'.isEmpty then systemPrompt
  else (if systemPrompt.isEmpty then systemPrompt else systemPrompt ++ [10]) ++ section'

def joinSections (sections : List Bytes) : Bytes := sections.foldl appendSection []

def render (inputs : RenderInputs) : RenderedPrompt :=
  let systemPrompt := joinSections inputs.sections
  let toolCatalogHash := hashTools inputs.tools
  { systemPrompt := systemPrompt
    toolCatalogHash := toolCatalogHash
    prefixHash := hashAppendU64 (hashField fnvOffset systemPrompt) toolCatalogHash
    prefixBytes := inputs.tools.foldl (fun bytes definition =>
      bytes + definition.name.length + definition.description.length +
        definition.inputSchemaJson.length)
      systemPrompt.length }

theorem intercalate_append (first second : Bytes) (rest : List Bytes) :
    [10].intercalate ((first ++ second) :: rest) = first ++ [10].intercalate (second :: rest) := by
  cases rest with
  | nil => simp
  | cons next rest => rw [List.intercalate_cons_cons, List.intercalate_cons_cons, List.append_assoc,
      List.append_assoc, List.append_assoc]

theorem foldl_appendSection (sections : List Bytes) {systemPrompt : Bytes}
    (hne : systemPrompt ≠ []) :
    sections.foldl appendSection systemPrompt =
      [10].intercalate (systemPrompt :: sections.filter fun text => !text.isEmpty) := by
  induction sections generalizing systemPrompt with
  | nil => simp
  | cons text sections ih =>
    rcases text with _ | ⟨c, text⟩
    · exact ih hne
    · have happend : appendSection systemPrompt (c :: text) = systemPrompt ++ [10] ++ c ::
          text := by
        simp [appendSection, hne]
      rw [List.foldl_cons, happend, ih (by simp), intercalate_append,
        List.filter_cons_of_pos (by simp), List.intercalate_cons_cons]

/-- The nonempty sections, one newline between them. -/
theorem joinSections_eq (sections : List Bytes) :
    joinSections sections = [10].intercalate (sections.filter fun text => !text.isEmpty) := by
  induction sections with
  | nil => rfl
  | cons text sections ih =>
    rcases text with _ | ⟨c, text⟩
    · exact ih
    · rw [List.filter_cons_of_pos (by simp)]
      exact foldl_appendSection sections (List.cons_ne_nil c text)

example : joinSections [text "a", text "b", [], []] = joinSections [text "a\nb", [], [], []] := rfl

end Orangutan.Prompt
