import Orangutan.Desktop.Model

/-!
# Saving and loading

`JSON.parse` gives back what `JSON.stringify` was given, so an item is shown as the value it
encodes, where it encodes a value with the fields of a state at all.
-/

namespace Orangutan.Desktop

set_option autoImplicit false

/-- The item under the storage key. -/
inductive Item
  | missing
  | snapshot (state : AppState)
  /-- JSON of another shape. -/
  | foreign
  /-- Not JSON. -/
  | malformed

inductive LoadError
  | invalid
  | unavailable
  deriving DecidableEq

structure Loaded where
  state : AppState
  error : Option LoadError
  blocked : Bool

/-- `loadState`; `getItem` may throw. -/
def loadState (item : Option Item) (now : Int) : Loaded :=
  match item with
  | some .missing => ⟨createInitialState now, none, false⟩
  | some (.snapshot state) =>
    if stateSchema state then ⟨recover state, none, false⟩
      else ⟨createInitialState now, some .invalid, true⟩
  | some .foreign => ⟨createInitialState now, some .invalid, true⟩
  | some .malformed => ⟨createInitialState now, some .unavailable, true⟩
  | none => ⟨createInitialState now, some .unavailable, true⟩

/-- `saveState`; `setItem` may throw. -/
def saveState (accepts : Bool) (item : Item) (state : AppState) : Bool × Item :=
  if accepts then (true, .snapshot state) else (false, item)

end Orangutan.Desktop
