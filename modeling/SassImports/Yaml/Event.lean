/-
  SassImports/Yaml/Event.lean
  ===========================
  The grammar of YAML tokens. A source holds at most one document, whose content is flattened into
  events: scalars, aliases, and the starts and ends of sequences and mappings. Where a key, a value or
  an item is left out, an empty plain scalar stands for it.

  The functions below read one construct each and answer its events and the tokens after it; `fuel`
  bounds how deep they call each other.
-/
import SassImports.Yaml.Token

namespace SassImports.Yaml

inductive Event where
  | scalar (anchor? : Option Text) (plain : Bool) (text : Text)
  | alias (name : Text)
  | sequenceStart (anchor? : Option Text)
  | mappingStart (anchor? : Option Text)
  /-- The end of the innermost sequence or mapping. -/
  | close
  deriving DecidableEq, Repr

namespace Event

/-- The events of a construct and the tokens after it. -/
abbrev Reading := Option (List Event × List Token)

def before (events : List Event) (r : Reading) : Reading :=
  r.map fun (more, rest) => (events ++ more, rest)

/-- What is left out. -/
def missing : Event := .scalar none true []

def startsWith (ts : List Token) (options : List Token) : Bool := ts.head?.any (· ∈ options)

mutual
/-- A node. In a block it may be a block itself, and where a mapping allows it, a sequence that is not
    indented. -/
def node (fuel : Nat) (block unindented : Bool) (ts : List Token) : Reading :=
  match fuel with
  | 0 => none
  | fuel + 1 =>
    match ts with
    | .alias name :: rest => some ([.alias name], rest)
    | .anchor name :: rest => content fuel block unindented (some name) rest
    | ts => content fuel block unindented none ts

/-- A node after its anchor. With an anchor it may be empty. -/
def content (fuel : Nat) (block unindented : Bool) (anchor? : Option Text) (ts : List Token) :
    Reading :=
  match fuel with
  | 0 => none
  | fuel + 1 =>
    let empty : Reading := if anchor?.isSome then some ([.scalar anchor? true []], ts) else none
    match ts with
    | .scalar plain text :: rest => some ([.scalar anchor? plain text], rest)
    | .flowSequenceStart :: rest => before [.sequenceStart anchor?] (flowItems fuel true rest)
    | .flowMappingStart :: rest => before [.mappingStart anchor?] (flowFields fuel true rest)
    | .blockSequenceStart :: rest =>
      if block then before [.sequenceStart anchor?] (blockItems fuel rest) else empty
    | .blockMappingStart :: rest =>
      if block then before [.mappingStart anchor?] (blockFields fuel rest) else empty
    | .blockEntry :: _ =>
      if unindented then before [.sequenceStart anchor?] (unindentedItems fuel ts) else empty
    | _ => empty

/-- A node of a block, which is left out before some tokens. -/
def blockNode (fuel : Nat) (unindented : Bool) (absentBefore : List Token) (ts : List Token) :
    Reading :=
  match fuel with
  | 0 => none
  | fuel + 1 =>
    if startsWith ts absentBefore then some ([missing], ts) else node fuel true unindented ts

/-- A node in brackets, which is left out before some tokens. -/
def flowNode (fuel : Nat) (absentBefore : List Token) (ts : List Token) : Reading :=
  match fuel with
  | 0 => none
  | fuel + 1 =>
    if startsWith ts absentBefore then some ([missing], ts) else node fuel false false ts

def blockItems (fuel : Nat) (ts : List Token) : Reading :=
  match fuel with
  | 0 => none
  | fuel + 1 =>
    match ts with
    | .blockEntry :: rest =>
      (blockNode fuel false [.blockEntry, .blockEnd] rest).bind fun (item, rest) =>
        before item (blockItems fuel rest)
    | .blockEnd :: rest => some ([.close], rest)
    | _ => none

/-- The items of a sequence that is not indented; it ends where no item follows. -/
def unindentedItems (fuel : Nat) (ts : List Token) : Reading :=
  match fuel with
  | 0 => none
  | fuel + 1 =>
    match ts with
    | .blockEntry :: rest =>
      (blockNode fuel false [.blockEntry, .key, .value, .blockEnd] rest).bind fun (item, rest) =>
        before item (unindentedItems fuel rest)
    | ts => some ([.close], ts)

def blockFields (fuel : Nat) (ts : List Token) : Reading :=
  match fuel with
  | 0 => none
  | fuel + 1 =>
    match ts with
    | .key :: rest =>
      (blockNode fuel true [.key, .value, .blockEnd] rest).bind fun (key, rest) =>
        before key (blockValue fuel rest)
    | .blockEnd :: rest => some ([.close], rest)
    | _ => none

def blockValue (fuel : Nat) (ts : List Token) : Reading :=
  match fuel with
  | 0 => none
  | fuel + 1 =>
    match ts with
    | .value :: rest =>
      (blockNode fuel true [.key, .value, .blockEnd] rest).bind fun (value, rest) =>
        before value (blockFields fuel rest)
    | ts => before [missing] (blockFields fuel ts)

/-- The items of a sequence in brackets and its end. All but the first follow a comma, and a comma may
    stand before the end. -/
def flowItems (fuel : Nat) (first : Bool) (ts : List Token) : Reading :=
  match fuel with
  | 0 => none
  | fuel + 1 =>
    match first, ts with
    | _, .flowSequenceEnd :: rest => some ([.close], rest)
    | true, ts => flowItem fuel ts
    | false, .flowEntry :: .flowSequenceEnd :: rest => some ([.close], rest)
    | false, .flowEntry :: rest => flowItem fuel rest
    | false, _ => none

/-- One item in brackets and those after it. A key there makes a mapping of one field. -/
def flowItem (fuel : Nat) (ts : List Token) : Reading :=
  match fuel with
  | 0 => none
  | fuel + 1 =>
    match ts with
    | .key :: rest =>
      -- A key that is left out takes the token after it along.
      let key : Reading :=
        if startsWith rest [.value, .flowEntry, .flowSequenceEnd] then some ([missing], rest.tail)
        else node fuel false false rest
      key.bind fun (key, rest) =>
        let value : Reading :=
          match rest with
          | .value :: rest => flowNode fuel [.flowEntry, .flowSequenceEnd] rest
          | rest => some ([missing], rest)
        value.bind fun (value, rest) =>
          before (.mappingStart none :: key ++ value ++ [.close]) (flowItems fuel false rest)
    | ts =>
      (node fuel false false ts).bind fun (item, rest) => before item (flowItems fuel false rest)

def flowFields (fuel : Nat) (first : Bool) (ts : List Token) : Reading :=
  match fuel with
  | 0 => none
  | fuel + 1 =>
    match first, ts with
    | _, .flowMappingEnd :: rest => some ([.close], rest)
    | true, ts => flowField fuel ts
    | false, .flowEntry :: .flowMappingEnd :: rest => some ([.close], rest)
    | false, .flowEntry :: rest => flowField fuel rest
    | false, _ => none

/-- One field in brackets and those after it. A node without a key token is a key without a value. -/
def flowField (fuel : Nat) (ts : List Token) : Reading :=
  match fuel with
  | 0 => none
  | fuel + 1 =>
    match ts with
    | .key :: rest =>
      (flowNode fuel [.value, .flowEntry, .flowMappingEnd] rest).bind fun (key, rest) =>
        let value : Reading :=
          match rest with
          | .value :: rest => flowNode fuel [.flowEntry, .flowMappingEnd] rest
          | rest => some ([missing], rest)
        value.bind fun (value, rest) => before (key ++ value) (flowFields fuel false rest)
    | ts =>
      (node fuel false false ts).bind fun (key, rest) =>
        before (key ++ [missing]) (flowFields fuel false rest)
end

/-! ### Documents -/

/-- The document of a source and the tokens after it. It starts with a mark or with its content; only
    after a mark may the content be left out. -/
def document (ts : List Token) : Reading :=
  let fuel := 8 * ts.length + 8
  match ts with
  | .documentStart :: rest =>
    if rest.isEmpty then some ([missing], [])
    else blockNode fuel false [.documentStart, .documentEnd] rest
  | ts => node fuel true false ts

/-- The events of a source: none if it is empty, else those of its only document. -/
def ofTokens? (ts : List Token) : Option (List Event) :=
  if ts.isEmpty then some []
  else (document ts).bind fun (events, rest) =>
    if rest.all (· = .documentEnd) then some events else none

end Event
end SassImports.Yaml
