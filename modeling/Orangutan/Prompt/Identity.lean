import Orangutan.Lib.Frames
import Orangutan.Permission.Tokens
import Orangutan.Prompt.Render
import Orangutan.Tool.Catalog

/-!
# What a prompt's identity depends on

The hashes of a prompt are of framed streams, so a stream tells which declarations or which text it
was written from. What is not submitted, and how what is submitted was handed over, leaves no trace.
-/

namespace Orangutan.Prompt

set_option autoImplicit false

open Orangutan.Core Orangutan.Lib Orangutan.Tool
open Orangutan.Permission (littleEndian length_littleEndian mod_of_littleEndian)

/-- A size that a `std::size_t` holds. -/
def InSize (n : Nat) : Prop := n < 2 ^ 64

/-- The texts of a declaration have sizes. -/
def SizedTool (definition : ToolDef) : Prop :=
  InSize definition.name.length ∧ InSize definition.description.length ∧
    InSize definition.inputSchemaJson.length

def SizedTools (tools : List ToolDef) : Prop := InSize tools.length ∧ ∀ definition ∈ tools,
    SizedTool definition

/-- What a turn hands over for its stable prefix. -/
structure Submission where
  catalog : List CatalogTool
  names : Option (List Bytes)
  systemPreamble : Bytes
  skillsCatalog : Bytes
  memoryFraming : Bytes
  perAgentOverlay : Bytes
  distinct : (catalog.map fun tool => tool.name).Nodup

namespace Submission

def inputs (s : Submission) (tools : List ToolDef) : RenderInputs where
  systemPreamble := s.systemPreamble
  tools := tools
  skillsCatalog := s.skillsCatalog
  memoryFraming := s.memoryFraming
  perAgentOverlay := s.perAgentOverlay

/-- The selected declarations and the prompt rendered with them, when the names are registered. -/
def outcome (s : Submission) : Option (List ToolDef × RenderedPrompt) :=
  ((selectTools s.catalog s.names).toOption.map declared).map fun tools =>
    (tools, render (s.inputs tools))

/-- The definitions selected, when the names are registered. -/
def selected (s : Submission) : Option (List CatalogTool) :=
    (selectTools s.catalog s.names).toOption

/-- What is hashed has sizes, as every string and span has. -/
def Sized (tools : List ToolDef) (prompt : RenderedPrompt) : Prop :=
  SizedTools tools ∧ InSize prompt.systemPrompt.length

end Submission

open Submission

end Orangutan.Prompt
