import Mathlib.Data.List.Nodup
import Orangutan.Core.Message
import Orangutan.Permission.RuleSet

/-!
# The catalogue of tools

The tools of a turn are the registered definitions that the names ask for, in the order of their
names.
-/

namespace Orangutan.Tool

set_option autoImplicit false

open Orangutan.Core Orangutan.Permission

/-- A registered definition, with the requirements that only dispatch reads. -/
structure CatalogTool extends ToolDef where
  requiredCapabilities : List Capability
  deriving DecidableEq

def declared (tools : List CatalogTool) : List ToolDef := tools.map CatalogTool.toToolDef

/-- `std::ranges::adjacent_find` on the names. -/
def adjacentFind : List CatalogTool → Option CatalogTool
  | first :: second :: rest => if first.name = second.name then some first
      else adjacentFind (second :: rest)
  | _ => none

/-- Absent names ask for every definition. -/
def isSelected (names : Option (List Bytes)) (tool : ToolDef) : Bool := names.all fun names =>
    names.contains tool.name

def nameLe (a b : ToolDef) : Bool := decide (a.name ≤ b.name)

def selectTools (catalog : List CatalogTool) (names : Option (List Bytes)) :
    Result (List CatalogTool) :=
  match (names.getD []).find? fun name => !catalog.any fun tool => tool.name == name with
  | some name => .error ((Error.of .notFound "active tool is not registered").note "tool" name)
  | none =>
    let selected := (catalog.filter fun tool => isSelected names tool.toToolDef).mergeSort
      fun a b => nameLe a.toToolDef b.toToolDef
    match adjacentFind selected with
    | some duplicate =>
      .error ((Error.invalidArgument "tool catalogue contains duplicate names").note "tool"
        duplicate.name)
    | none => .ok selected

variable {catalog : List CatalogTool} {names : Option (List Bytes)} {selected : List CatalogTool}

end Orangutan.Tool
