import SwiftMangling.Node

/-!
# Outlines

The outline of a tree shows one node a line, its children below it and two spaces further in.
-/

namespace SwiftMangling.Node

/-- What an outline shows of a payload. -/
def payloadText : Payload → String
  | .none => ""
  | .text s => ", text=\"" ++ s ++ "\""
  | .index n => ", index=" ++ toString n.toNat
  | .valueWitness w => ", value-witness=" ++ w.name
  | .differentiability d => ", differentiability=" ++ d.code.toString
  | .specialization k => ", specialization-kind=" ++ toString k.raw.toNat
  | .directness d => ", directness=" ++ d.name

/-- The line of a node `depth` levels below the root. -/
def outlineLine (depth : Nat) (kind : Kind) (payload : Payload) : String :=
  "".pushn ' ' (2 * depth) ++ "kind=" ++ kind.name ++ payloadText payload ++ "\n"

mutual

/-- The outline of a node `depth` levels below the root, after `out`. -/
def outlineFrom (depth : Nat) (out : String) : Node → String
  | ⟨kind, payload, children, _⟩ =>
    outlineListFrom (depth + 1) (out ++ outlineLine depth kind payload) children

/-- The outlines of several nodes `depth` levels below the root, after `out`. -/
def outlineListFrom (depth : Nat) (out : String) : List Node → String
  | [] => out
  | n :: ns => outlineListFrom depth (outlineFrom depth out n) ns

end

/-- The outline of a tree. -/
def outline (n : Node) : String :=
  outlineFrom 0 "" n

end SwiftMangling.Node
