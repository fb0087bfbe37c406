import AccessPlanner.Json.Basic

/-!
# Paths into a document

A path is a text of field names with points between them; `Json.resolve` walks it.  A segment may
be empty, and then names the field with the empty name.
-/

namespace AccessPlanner

/-- A list of characters cut at the points; there is always a first segment. -/
def Json.cutAtPoints : List Char → List (List Char)
  | [] => [[]]
  | c :: rest =>
    if c = '.' then [] :: cutAtPoints rest
    else
      match cutAtPoints rest with
      | [] => [[c]]
      | segment :: segments => (c :: segment) :: segments

/-- The field names of a path. -/
def Json.pathSegments (path : String) : List String :=
  (cutAtPoints path.toList).map String.ofList

/-- One step of a path: the field, or `null` where there is none. -/
def Json.child (value : Json) (name : String) : Json := ofOption (value.field? name)

/-- **The value at a path.** A step that leads to no field leads to `null`, and so do all steps
after it. -/
def Json.resolve (value : Json) (path : String) : Json := (pathSegments path).foldl child value

end AccessPlanner
