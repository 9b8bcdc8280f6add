/-
  SassImports/Yaml/Node.lean
  ==========================
  A YAML document as a tree, in which aliases are left standing. Anchors are numbered as they come, by
  how many names were known before, and an alias has the number that its name had last; the place that
  a number stands for is the last one that got it. So a name that is used again moves on to a new number,
  and may share it with the next new name.

    * `Document.ofEvents?` numbers the anchors and refuses an alias to a name not known yet;
    * `Document.root?` is the document's tree, and `Document.target?` the tree behind a number.
-/
import SassImports.Yaml.Event

namespace SassImports.Yaml

/-! ### Items -/

/-- A step through a document with its aliases numbered. -/
inductive Item where
  | scalar (plain : Bool) (text : Text)
  | alias (number : Nat)
  | sequenceStart
  | mappingStart
  | close
  deriving DecidableEq, Repr

/-- A document as its items, and the place that every number was given to, in order. -/
structure Document where
  items : List Item
  /-- Numbers of anchors and how many items come before them. -/
  anchors : List (Nat × Nat)

namespace Document

/-- The names known after an anchor, each with its number. -/
def register (names : List (Text × Nat)) (name : Text) : List (Text × Nat) :=
  (name, names.length) :: names.filter (·.1 ≠ name)

/-- The document of some events, where some names are known and some items come before. -/
def number (names : List (Text × Nat)) (count : Nat) : List Event → Option Document
  | [] => some ⟨[], []⟩
  | event :: rest =>
    match event with
    | .alias name =>
      (names.lookup name).bind fun n =>
        (number names (count + 1) rest).map fun d => { d with items := .alias n :: d.items }
    | .close => (number names (count + 1) rest).map fun d => { d with items := .close :: d.items }
    | .scalar anchor? plain text => anchored anchor? (.scalar plain text) rest
    | .sequenceStart anchor? => anchored anchor? .sequenceStart rest
    | .mappingStart anchor? => anchored anchor? .mappingStart rest
where
  /-- An item that may have an anchor, and those after it. -/
  anchored (anchor? : Option Text) (item : Item) (rest : List Event) : Option Document :=
    match anchor? with
    | some name =>
      (number (register names name) (count + 1) rest).map fun d =>
        ⟨item :: d.items, (names.length, count) :: d.anchors⟩
    | none => (number names (count + 1) rest).map fun d => { d with items := item :: d.items }

def ofEvents? (events : List Event) : Option Document := number [] 0 events

end Document

/-! ### Trees -/

inductive Node where
  | scalar (plain : Bool) (text : Text)
  | alias (number : Nat)
  | sequence (items : List Node)
  | mapping (fields : List (Node × Node))

/-- A collection that is still open, with what it holds so far, last first. -/
inductive Node.Open where
  | sequence (items : List Node)
  | mapping (fields : List (Node × Node)) (key? : Option Node)

namespace Node

def Open.add (n : Node) : Open → Open
  | .sequence items => .sequence (n :: items)
  | .mapping fields none => .mapping fields (some n)
  | .mapping fields (some key) => .mapping ((key, n) :: fields) none

def Open.close : Open → Node
  | .sequence items => .sequence items.reverse
  | .mapping fields _ => .mapping fields.reverse

/-- The first node of some items, inside of collections that are open, innermost first. -/
def build (opened : List Open) : List Item → Option Node
  | [] => none
  | .sequenceStart :: rest => build (.sequence [] :: opened) rest
  | .mappingStart :: rest => build (.mapping [] none :: opened) rest
  | .scalar plain text :: rest =>
    match opened with
    | [] => some (.scalar plain text)
    | o :: opened => build (o.add (.scalar plain text) :: opened) rest
  | .alias n :: rest =>
    match opened with
    | [] => some (.alias n)
    | o :: opened => build (o.add (.alias n) :: opened) rest
  | .close :: rest =>
    match opened with
    | [] => none
    | [o] => some o.close
    | o :: next :: opened => build (next.add o.close :: opened) rest

end Node

namespace Document

/-- The tree of the document; none if the source is empty. -/
def root? (d : Document) : Option Node := Node.build [] d.items

def target? (d : Document) (number : Nat) : Option Node :=
  (d.anchors.reverse.lookup number).bind fun count => Node.build [] (d.items.drop count)

/-- The node itself, or what it is an alias of. -/
def follow? (d : Document) : Node → Option Node
  | .alias number => d.target? number
  | n => some n

def ofSource? (source : Text) : Option Document :=
  (tokens? source).bind fun ts => (Event.ofTokens? ts).bind ofEvents?

end Document
end SassImports.Yaml
