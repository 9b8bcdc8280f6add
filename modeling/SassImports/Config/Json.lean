/-
  SassImports/Config/Json.lean
  ============================
  Reading a configuration from JSON: an object with the keys `load_paths` and `max_depth`, or a list of
  the two values. Other keys are passed over, what is missing is empty, and a key that comes twice is a
  wrong value, found before its second value is looked at.

  The reader goes through the tokens once and stops at the first fault, so a wrong value before a
  broken end is reported as a wrong value.
-/
import SassImports.Config
import SassImports.Json.Token

namespace SassImports.Config

open Json (Fault Token)

/-! ### Values -/

/-- The paths of a list after its first item, and what follows the list. -/
def readMorePaths : List Token → Except Fault (List Path × List Token)
  | [] => .error .endOfText
  | .mark ']' :: rest => .ok ([], rest)
  | [.mark ','] => .error .endOfText
  | .mark ',' :: token :: rest => do
    let text ← token.asText
    let (paths, rest) ← readMorePaths rest
    return (⟨text⟩ :: paths, rest)
  | _ => .error .notJson

def readPaths : List Token → Except Fault (List Path × List Token)
  | [] => .error .endOfText
  | [.mark '['] => .error .endOfText
  | .mark '[' :: .mark ']' :: rest => .ok ([], rest)
  | .mark '[' :: token :: rest => do
    let text ← token.asText
    let (paths, rest) ← readMorePaths rest
    return (⟨text⟩ :: paths, rest)
  | token :: _ => .error token.wrong

def readDepth : List Token → Except Fault (Option UInt64 × List Token)
  | [] => .error .endOfText
  | .word true none :: rest => .ok (none, rest)
  | .number (.ok (some n)) _ :: rest => .ok (some (UInt64.ofNat n), rest)
  | token :: _ => .error token.wrong

theorem length_readMorePaths {ts rest : List Token} {paths : List Path}
    (h : readMorePaths ts = .ok (paths, rest)) : rest.length < ts.length := by
  fun_induction readMorePaths ts generalizing paths with
  | case1 => cases h
  | case2 rest' =>
    obtain ⟨-, rfl⟩ := Prod.mk.inj (Except.ok.inj h)
    exact Nat.lt_succ_self _
  | case3 => cases h
  | case4 token rest' ih =>
    obtain ⟨text, -, h⟩ := Outcome.bind_eq_ok_iff.1 h
    obtain ⟨⟨more, _⟩, hm, h⟩ := Outcome.bind_eq_ok_iff.1 h
    obtain ⟨-, rfl⟩ := Prod.mk.inj (Except.ok.inj h)
    have := ih hm
    simp only [List.length_cons]
    omega
  | case5 => cases h

theorem length_readPaths {ts rest : List Token} {paths : List Path}
    (h : readPaths ts = .ok (paths, rest)) : rest.length < ts.length := by
  unfold readPaths at h
  split at h
  · cases h
  · cases h
  · obtain ⟨-, rfl⟩ := Prod.mk.inj (Except.ok.inj h)
    simp only [List.length_cons]
    omega
  · obtain ⟨text, -, h⟩ := Outcome.bind_eq_ok_iff.1 h
    obtain ⟨⟨more, _⟩, hm, h⟩ := Outcome.bind_eq_ok_iff.1 h
    obtain ⟨-, rfl⟩ := Prod.mk.inj (Except.ok.inj h)
    have := length_readMorePaths hm
    simp only [List.length_cons]
    omega
  · cases h

theorem length_readDepth {ts rest : List Token} {depth? : Option UInt64}
    (h : readDepth ts = .ok (depth?, rest)) : rest.length < ts.length := by
  unfold readDepth at h
  split at h
  · cases h
  · obtain ⟨-, rfl⟩ := Prod.mk.inj (Except.ok.inj h); simp
  · obtain ⟨-, rfl⟩ := Prod.mk.inj (Except.ok.inj h); simp
  · cases h

/-! ### Objects -/

/-- What was read of a configuration so far. -/
structure Draft where
  loadPaths? : Option (List Path)
  maxDepth? : Option (Option UInt64)

namespace Draft

def empty : Draft := ⟨none, none⟩

def has (d : Draft) (key : Text) : Bool :=
  (key = loadPathsKey && d.loadPaths?.isSome) || (key = maxDepthKey && d.maxDepth?.isSome)

/-- The configuration, what was not read being empty. -/
def toConfig (d : Draft) : Config := ⟨d.loadPaths?.getD [], d.maxDepth?.getD none⟩

end Draft

/-- The draft with the value of a key, and what follows the value. -/
def readField (d : Draft) (key : Text) (ts : List Token) : Except Fault (Draft × List Token) :=
  if key = loadPathsKey then
    (readPaths ts).map fun (paths, rest) => ({ d with loadPaths? := some paths }, rest)
  else if key = maxDepthKey then
    (readDepth ts).map fun (depth?, rest) => ({ d with maxDepth? := some depth? }, rest)
  else (Json.skip .value [] ts).map fun rest => (d, rest)

theorem length_readField {d d' : Draft} {key : Text} {ts rest : List Token}
    (h : readField d key ts = .ok (d', rest)) : rest.length < ts.length := by
  unfold readField at h
  split at h
  · obtain ⟨p, hp, he⟩ := Outcome.map_eq_ok_iff.1 h
    obtain ⟨-, rfl⟩ := Prod.mk.inj he
    exact length_readPaths hp
  · split at h
    · obtain ⟨p, hp, he⟩ := Outcome.map_eq_ok_iff.1 h
      obtain ⟨-, rfl⟩ := Prod.mk.inj he
      exact length_readDepth hp
    · obtain ⟨r, hr, he⟩ := Outcome.map_eq_ok_iff.1 h
      obtain ⟨-, rfl⟩ := Prod.mk.inj he
      exact Json.length_skip hr

/-- The fields of an object from a key on, and what follows the object. -/
def readFields (d : Draft) : List Token → Except Fault (Draft × List Token)
  | [] => .error .endOfText
  | .text (.error fault) _ :: _ => .error fault
  | .text (.ok key) _ :: rest =>
    if d.has key then .error .wrongValue
    else
      match rest with
      | [] => .error .endOfText
      | .mark ':' :: rest =>
        match _ : readField d key rest with
        | .error fault => .error fault
        | .ok (_, []) => .error .endOfText
        | .ok (d, .mark '}' :: rest) => .ok (d, rest)
        | .ok (d, .mark ',' :: rest) => readFields d rest
        | .ok _ => .error .notJson
      | _ => .error .notJson
  | _ => .error .notJson
termination_by ts => ts.length
decreasing_by
  have := length_readField ‹_›
  simp only [List.length_cons] at this ⊢
  omega

/-! ### Whole texts -/

def closeList : List Token → Except Fault (List Token)
  | [] => .error .endOfText
  | .mark ']' :: rest => .ok rest
  | _ => .error .notJson

/-- The bound as the second value of a list, which may be missing, and what follows the list. -/
def readSecond : List Token → Except Fault (Option UInt64 × List Token)
  | [] => .error .endOfText
  | .mark ']' :: rest => .ok (none, rest)
  | .mark ',' :: .mark ']' :: _ => .error .notJson
  | .mark ',' :: rest => do
    let (depth?, rest) ← readDepth rest
    return (depth?, ← closeList rest)
  | _ => .error .notJson

def readConfig : List Token → Except Fault (Config × List Token)
  | [] => .error .endOfText
  | .mark '{' :: .mark '}' :: rest => .ok (.empty, rest)
  | .mark '{' :: rest => (readFields .empty rest).map fun (d, rest) => (d.toConfig, rest)
  | [.mark '['] => .error .endOfText
  | .mark '[' :: .mark ']' :: rest => .ok (.empty, rest)
  | .mark '[' :: rest => do
    let (paths, rest) ← readPaths rest
    let (depth?, rest) ← readSecond rest
    return (⟨paths, depth?⟩, rest)
  | token :: _ => .error token.wrong

def ofJsonText (t : Text) : Except Fault Config := do
  match ← readConfig (Json.tokens t) with
  | (c, []) => return c
  | _ => throw .notJson

end SassImports.Config
