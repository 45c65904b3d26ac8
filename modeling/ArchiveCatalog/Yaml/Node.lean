import ArchiveCatalog.Yaml.Token

namespace ArchiveCatalog.Yaml

/-! # YAML nodes

A document is a scalar, a list of nodes or a mapping from nodes to nodes. What is left out
where a node may stand is the empty plain scalar.
-/

/-- A node of a document. -/
inductive Node
  | scalar (s : Scalar)
  | list (items : List Node)
  | mapping (fields : List (Node × Node))
  deriving Repr, Inhabited

namespace Node

/-- What is left out. -/
def absent : Node := .scalar ⟨[], true⟩

/-- One of the tokens comes next, or none at all. -/
def ahead (ends : List Token) : List Token → Bool
  | [] => true
  | t :: _ => ends.contains t

mutual

/-- A node and the tokens after it. In a block mapping the entries of a list may stand
at the column of the mapping, without a token that begins the list. -/
def node (fuel : Nat) (inBlock entriesAllowed : Bool) (ts : List Token) :
    Option (Node × List Token) :=
  match fuel with
  | 0 => none
  | fuel + 1 =>
    match ts with
    | .scalar s :: rest => some (.scalar s, rest)
    | .blockEntry :: _ =>
      if entriesAllowed then
        (looseEntries fuel ts).map fun (items, rest) => (.list items, rest)
      else none
    | .blockSequence :: rest =>
      if inBlock then (entries fuel rest).map fun (items, rest) => (.list items, rest) else none
    | .blockMapping :: rest =>
      if inBlock then (fields fuel rest).map fun (fields, rest) => (.mapping fields, rest)
      else none
    | .flowSequence :: rest =>
      (flowItems fuel true rest).map fun (items, rest) => (.list items, rest)
    | .flowMapping :: rest =>
      (flowFields fuel true rest).map fun (fields, rest) => (.mapping fields, rest)
    | _ => none

/-- A node, or what is left out before one of the tokens. -/
def nodeOrAbsent (fuel : Nat) (inBlock entriesAllowed : Bool) (ends ts : List Token) :
    Option (Node × List Token) :=
  match fuel with
  | 0 => none
  | fuel + 1 => if ahead ends ts then some (absent, ts) else node fuel inBlock entriesAllowed ts

/-- The entries of a block list up to its end. -/
def entries (fuel : Nat) (ts : List Token) : Option (List Node × List Token) :=
  match fuel with
  | 0 => none
  | fuel + 1 =>
    match ts with
    | .blockEntry :: rest => do
      let (item, rest) ← nodeOrAbsent fuel true false [.blockEntry, .blockEnd] rest
      let (items, rest) ← entries fuel rest
      return (item :: items, rest)
    | .blockEnd :: rest => some ([], rest)
    | _ => none

/-- The entries of a list at the column of the mapping around it. -/
def looseEntries (fuel : Nat) (ts : List Token) : Option (List Node × List Token) :=
  match fuel with
  | 0 => none
  | fuel + 1 =>
    match ts with
    | .blockEntry :: rest => do
      let (item, rest) ←
        nodeOrAbsent fuel true false [.blockEntry, .key, .value, .blockEnd] rest
      let (items, rest) ← looseEntries fuel rest
      return (item :: items, rest)
    | ts => some ([], ts)

/-- The fields of a block mapping up to its end. -/
def fields (fuel : Nat) (ts : List Token) : Option (List (Node × Node) × List Token) :=
  match fuel with
  | 0 => none
  | fuel + 1 =>
    match ts with
    | .blockEnd :: rest => some ([], rest)
    | .key :: rest => do
      let (key, rest) ← nodeOrAbsent fuel true true [.key, .value, .blockEnd] rest
      let (value, rest) ← fieldValue fuel rest
      let (more, rest) ← fields fuel rest
      return ((key, value) :: more, rest)
    | _ => none

/-- The value of a field of a block mapping. -/
def fieldValue (fuel : Nat) (ts : List Token) : Option (Node × List Token) :=
  match fuel with
  | 0 => none
  | fuel + 1 =>
    match ts with
    | .value :: rest => nodeOrAbsent fuel true true [.key, .value, .blockEnd] rest
    | ts => some (absent, ts)

/-- The items of a flow list up to its end; an item may be a mapping of a single field. -/
def flowItems (fuel : Nat) (first : Bool) (ts : List Token) : Option (List Node × List Token) :=
  match fuel with
  | 0 => none
  | fuel + 1 =>
    match ts with
    | .flowSequenceEnd :: rest => some ([], rest)
    | ts => do
      let ts ← separated first ts
      match ts with
      | .flowSequenceEnd :: rest => return ([], rest)
      | .key :: rest =>
        let (key, rest) ← nodeOrAbsent fuel false false [.value, .flowEntry, .flowSequenceEnd] rest
        let (value, rest) ← flowValue fuel rest
        let (items, rest) ← flowItems fuel false rest
        return (.mapping [(key, value)] :: items, rest)
      | ts =>
        let (item, rest) ← node fuel false false ts
        let (items, rest) ← flowItems fuel false rest
        return (item :: items, rest)

/-- The fields of a flow mapping up to its end; a key alone has no value. -/
def flowFields (fuel : Nat) (first : Bool) (ts : List Token) :
    Option (List (Node × Node) × List Token) :=
  match fuel with
  | 0 => none
  | fuel + 1 =>
    match ts with
    | .flowMappingEnd :: rest => some ([], rest)
    | ts => do
      let ts ← separated first ts
      match ts with
      | .flowMappingEnd :: rest => return ([], rest)
      | .key :: rest =>
        let (key, rest) ← nodeOrAbsent fuel false false [.value, .flowEntry, .flowMappingEnd] rest
        let (value, rest) ← flowValue fuel rest
        let (more, rest) ← flowFields fuel false rest
        return ((key, value) :: more, rest)
      | ts =>
        let (key, rest) ← node fuel false false ts
        let (more, rest) ← flowFields fuel false rest
        return ((key, absent) :: more, rest)

/-- The value of a field in a flow collection. -/
def flowValue (fuel : Nat) (ts : List Token) : Option (Node × List Token) :=
  match fuel with
  | 0 => none
  | fuel + 1 =>
    match ts with
    | .value :: rest =>
      nodeOrAbsent fuel false false [.flowEntry, .flowSequenceEnd, .flowMappingEnd] rest
    | ts => some (absent, ts)

/-- What follows the comma before an item that is not the first. -/
def separated (first : Bool) (ts : List Token) : Option (List Token) :=
  if first then some ts
  else
    match ts with
    | .flowEntry :: rest => some rest
    | _ => none

end

/-- The tokens without marks of documents that ended. -/
def skipEnds : List Token → List Token
  | .documentEnd :: rest => skipEnds rest
  | ts => ts

/-- Steps enough for so many tokens: every fourth step takes one. -/
def stepsFor (ts : List Token) : Nat := 4 * ts.length + 4

/-- Only marks of ended documents may follow a document. -/
def alone (found : Node × List Token) : Option Node :=
  if (skipEnds found.2).isEmpty then some found.1 else none

/-- The only document of a text; nothing at all counts as one that is left out. -/
def document? : List Token → Option Node
  | [] => some absent
  | .documentStart :: rest => do
    alone (← nodeOrAbsent (stepsFor rest) true false [.documentStart, .documentEnd] rest)
  | ts => do alone (← node (stepsFor ts) true false ts)

/-- The document of a text. -/
def parse? (s : List Char) : Option Node := do document? (← tokens? s)

end Node

end ArchiveCatalog.Yaml
