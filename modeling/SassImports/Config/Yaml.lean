/-
  SassImports/Config/Yaml.lean
  ============================
  Reading a configuration from YAML: a mapping with the keys `load_paths` and `max_depth`. Other keys are
  passed over, what is missing or empty is empty, and a key that comes twice is refused. Every scalar is
  a load path, whatever it looks like; a bound is a plain scalar.
-/
import SassImports.Config
import SassImports.Text.Hexadecimal
import SassImports.Yaml.Node

namespace SassImports.Config

open Yaml (Document Node)

/-! ### Numbers -/

/-- The value of a run of digits in a base of at most ten, if it has one. -/
def digits? (base : Nat) (t : Text) : Option Nat :=
  if !t.isEmpty && t.all fun c => c.isDigit && c.toNat - '0'.toNat < base then
    some (t.foldl (fun n c => base * n + (c.toNat - '0'.toNat)) 0)
  else none

/-- The number that a text stands for: digits after `0x`, `0o`, `0b` or none of these, in which case
    there is no zero before other digits. -/
def magnitude? : Text → Option Nat
  | '0' :: 'x' :: rest => if rest.isEmpty then none else Text.hexadecimal? 0 rest
  | '0' :: 'o' :: rest => digits? 8 rest
  | '0' :: 'b' :: rest => digits? 2 rest
  | '0' :: _ :: _ => none
  | t => digits? 10 t

/-- The bound that a text stands for: a number of 64 bits, maybe after a plus sign. -/
def depth? (t : Text) : Option UInt64 :=
  let unsigned := match t with
    | '+' :: rest => rest
    | t => t
  (magnitude? unsigned).bind fun n => if n < UInt64.size then some (UInt64.ofNat n) else none

/-! ### Values -/

/-- Whether a plain scalar means that there is no value. -/
def isNull (t : Text) : Bool :=
  t.isEmpty || t ∈ ["~".toList, "null".toList, "Null".toList, "NULL".toList]

def scalarOf? (d : Document) (n : Node) : Option Text :=
  match d.follow? n with
  | some (.scalar _ text) => some text
  | _ => none

def pathsOf? (d : Document) (n : Node) : Option (List Path) :=
  match d.follow? n with
  | some (.sequence items) => (items.mapM (scalarOf? d)).map (·.map Path.mk)
  | some (.scalar true []) => some []
  | _ => none

def depthOf? (d : Document) (n : Node) : Option (Option UInt64) :=
  match d.follow? n with
  | some (.scalar true text) => if isNull text then some none else (depth? text).map some
  | _ => none

/-! ### Mappings -/

/-- The value of the field under a key, read by `read`; `absent` if there is no such field. More than
    one such field is refused. -/
def readField? {α : Type} (fields : List (Text × Node)) (key : Text) (read : Node → Option α)
    (absent : α) : Option α :=
  match fields.filter (·.1 = key) with
  | [] => some absent
  | [(_, n)] => read n
  | _ => none

/-- The fields of a mapping by the texts of their keys, which must be scalars. -/
def namedFields? (d : Document) (fields : List (Node × Node)) : Option (List (Text × Node)) :=
  fields.mapM fun field => (scalarOf? d field.1).map fun key => (key, field.2)

def ofNode? (d : Document) : Node → Option Config
  | .mapping fields =>
    (namedFields? d fields).bind fun fields =>
      (readField? fields loadPathsKey (pathsOf? d) []).bind fun paths =>
        (readField? fields maxDepthKey (depthOf? d) none).map fun bound => ⟨paths, bound⟩
  | .scalar true [] => some .empty
  | _ => none

def ofYamlText? (t : Text) : Option Config :=
  (Document.ofSource? t).bind fun d =>
    match d.root? with
    | some n => ofNode? d n
    | none => if d.items.isEmpty then some .empty else none

end SassImports.Config
