import Orangutan.Core.Error

/-!
# Path strings

`std::filesystem::path` as it is on Linux: the elements of a path are its root directory, its
file names, which any number of slashes separate, and an empty last name after a trailing slash.
-/

namespace Orangutan.Io

set_option autoImplicit false

open Orangutan.Core

abbrev Path := Bytes

def slash : UInt8 := 47

namespace Path

def isAbsolute (path : Path) : Bool := path.head? = some slash

/-- The names between the slashes. -/
def filenames (path : Path) : List Bytes := (path.splitOn slash).filter fun name => name ≠ []

/-- A slash follows the last name. -/
def hasTrailingSlash (path : Path) : Bool := path.getLast? = some slash ∧ filenames path ≠ []

/-- What the path's iterator visits. -/
def elements (path : Path) : List Bytes :=
  (if isAbsolute path then [text "/"] else []) ++ filenames path ++ if hasTrailingSlash path
    then [[]] else []

end Path

end Orangutan.Io
