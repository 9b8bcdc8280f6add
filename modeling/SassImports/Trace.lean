/-
  SassImports/Trace.lean
  ======================
  What a computation asks, does and reports while it runs. `Traced α` is an outcome together with
  the events up to it, in order; a failure keeps the events before it and ends the computation.

    * `Event` is one question, action or report; `Notice` is a report for the log;
    * `Failure` is the one way in which resolving and walking can end early, and `Failure.message`
      names what was tried, then why it failed.
-/
import SassImports.Asset
import SassImports.Config

namespace SassImports

/-! ### Reports -/

inductive Notice where
  | skippedPlainCss (reference : Text)
  | resolvedImport (reference : Text) (file : Path)
  /-- An import was found in none of so many directories. -/
  | unresolvedImport (reference : Text) (directories : Nat)
  /-- A walk has found so many imported files. -/
  | collectedDependencies (entry : Path) (files : Nat)
  | ignoredConfig (error : ConfigError)
  deriving DecidableEq, Repr

inductive Notice.Level where
  | trace
  | debug
  | warn
  deriving DecidableEq, Repr

inductive Notice.Value where
  | text (value : Text)
  | count (value : Nat)
  deriving DecidableEq, Repr

namespace Notice

def level : Notice → Level
  | .skippedPlainCss _ | .resolvedImport .. => .trace
  | .unresolvedImport .. | .collectedDependencies .. => .debug
  | .ignoredConfig _ => .warn

def message : Notice → Text
  | .skippedPlainCss _ => "skipping plain css import".toList
  | .resolvedImport .. => "resolved stylesheet import".toList
  | .unresolvedImport .. => "stylesheet import did not resolve".toList
  | .collectedDependencies .. => "collected stylesheet dependencies".toList
  | .ignoredConfig error => "ignoring resolver configuration: ".toList ++ error.message

/-- What the report is about, by name. -/
def fields : Notice → List (Text × Value)
  | .skippedPlainCss reference => [("reference".toList, .text reference)]
  | .resolvedImport reference file =>
    [("reference".toList, .text reference), ("path".toList, .text file.text)]
  | .unresolvedImport reference directories =>
    [("reference".toList, .text reference), ("directories".toList, .count directories)]
  | .collectedDependencies entry files =>
    [("entry".toList, .text entry.text), ("files".toList, .count files)]
  | .ignoredConfig _ => []

end Notice

/-! ### Events -/

inductive Event where
  | probed (file : Path)
  /-- Assets were asked for, for a file found in a directory. -/
  | created (file directory : Path)
  /-- The references of a source were asked for. -/
  | extracted
  /-- A stylesheet was opened, so many imports away from the entry. -/
  | read (file : Path) (depth : Nat)
  | noticed (notice : Notice)
  deriving DecidableEq, Repr

namespace Event

def probed? : Event → Option Path
  | .probed file => some file
  | _ => none

/-- The file and the directory for which assets are asked. -/
def created? : Event → Option (Path × Path)
  | .created file directory => some (file, directory)
  | _ => none

/-- The stylesheet that is opened, and how far from the entry it is. -/
def read? : Event → Option (Path × Nat)
  | .read file depth => some (file, depth)
  | _ => none

def notice? : Event → Option Notice
  | .noticed notice => some notice
  | _ => none

/-- Whether a stylesheet is opened or references are extracted. -/
def isReading : Event → Bool
  | .read .. | .extracted => true
  | _ => false

end Event

/-! ### Failures -/

/-- Why resolving or walking ended early. -/
inductive Failure where
  /-- It could not be told whether a file exists. -/
  | probe (file : Path) (error : IoError)
  /-- No assets could be made for a file; the text is the maker's own. -/
  | create (file : Path) (reason : Text)
  | read (file : Path) (error : IoError)
  /-- The canonical location of a file could not be found. -/
  | canonicalize (file : Path) (error : IoError)
  deriving DecidableEq, Repr

namespace Failure

def message : Failure → Text
  | .probe file error =>
    "failed to check whether ".toList ++ file.text ++ " exists: ".toList ++ error.message
  | .create file reason =>
    "failed to create asset for ".toList ++ file.text ++ ": ".toList ++ reason
  | .read file error =>
    "failed to read stylesheet at ".toList ++ file.text ++ ": ".toList ++ error.message
  | .canonicalize file error =>
    "failed to resolve ".toList ++ file.text ++ ": ".toList ++ error.message

def kind : Failure → IoError.Kind
  | .probe _ error | .read _ error | .canonicalize _ error => error.kind
  | .create .. => .other

end Failure

/-! ### Traced computations -/

/-- An outcome and the events up to it. -/
structure Traced (α : Type) where
  outcome : Except Failure α
  events : List Event

namespace Traced

variable {α β : Type}

def done (a : α) : Traced α := ⟨.ok a, []⟩

def fail (e : Failure) : Traced α := ⟨.error e, []⟩

def emit (e : Event) : Traced Unit := ⟨.ok (), [e]⟩

/-- One computation and, if it succeeds, the next. -/
def andThen (x : Traced α) (f : α → Traced β) : Traced β :=
  match x.outcome with
  | .ok a =>
    let y := f a
    ⟨y.outcome, x.events ++ y.events⟩
  | .error e => ⟨.error e, x.events⟩

instance : Monad Traced where
  pure := done
  bind := andThen

/-- A result, or a failure under the name of what was tried. -/
def ofExcept {ε : Type} (failure : ε → Failure) : Except ε α → Traced α
  | .ok a => done a
  | .error e => fail (failure e)

def probed (x : Traced α) : List Path := x.events.filterMap Event.probed?

def created (x : Traced α) : List (Path × Path) := x.events.filterMap Event.created?

def extractions (x : Traced α) : Nat := x.events.count .extracted

def reads (x : Traced α) : List (Path × Nat) := x.events.filterMap Event.read?

def notices (x : Traced α) : List Notice := x.events.filterMap Event.notice?

/-! Equations of the computations, by which longer ones are taken apart. -/

@[simp] theorem outcome_pure (a : α) : (pure a : Traced α).outcome = .ok a := rfl

@[simp] theorem events_pure (a : α) : (pure a : Traced α).events = [] := rfl

theorem bind_ok {x : Traced α} {f : α → Traced β} {a : α} (h : x.outcome = .ok a) :
    x >>= f = ⟨(f a).outcome, x.events ++ (f a).events⟩ := by
  show andThen x f = _
  unfold andThen
  rw [h]

theorem bind_error {x : Traced α} {f : α → Traced β} {e : Failure} (h : x.outcome = .error e) :
    x >>= f = ⟨.error e, x.events⟩ := by
  show andThen x f = _
  unfold andThen
  rw [h]

/-- What comes after a computation counts only for the result that it has. -/
theorem bind_congr_of_ok {x : Traced α} {f g : α → Traced β}
    (h : ∀ a, x.outcome = .ok a → f a = g a) : x >>= f = x >>= g := by
  cases hx : x.outcome with
  | ok a => rw [bind_ok hx, bind_ok hx, h a hx]
  | error e => rw [bind_error hx, bind_error hx]

theorem bind_pure_self (x : Traced α) : x >>= pure = x := by
  obtain ⟨outcome, events⟩ := x
  cases outcome with
  | ok a => rw [bind_ok rfl]; simp
  | error e => rw [bind_error rfl]

theorem bind_bind {γ : Type} (x : Traced α) (f : α → Traced β) (g : β → Traced γ) :
    x >>= f >>= g = x >>= fun a => f a >>= g := by
  cases h : x.outcome with
  | error e => rw [bind_error h, bind_error h, bind_error rfl]
  | ok a =>
    rw [bind_ok h, bind_ok h]
    cases h' : (f a).outcome with
    | error e => rw [bind_error h', bind_error rfl]
    | ok b => rw [bind_ok h', bind_ok rfl, List.append_assoc]

instance : LawfulMonad Traced :=
  .mk' Traced bind_pure_self (fun _ _ => rfl) bind_bind

theorem outcome_bind_eq_ok_iff {x : Traced α} {f : α → Traced β} {b : β} :
    (x >>= f).outcome = .ok b ↔ ∃ a, x.outcome = .ok a ∧ (f a).outcome = .ok b := by
  cases h : x.outcome with
  | ok a => rw [bind_ok h]; simp
  | error e => rw [bind_error h]; simp

theorem outcome_bind_eq_error_iff {x : Traced α} {f : α → Traced β} {e : Failure} :
    (x >>= f).outcome = .error e ↔
      x.outcome = .error e ∨ ∃ a, x.outcome = .ok a ∧ (f a).outcome = .error e := by
  cases h : x.outcome with
  | ok a => rw [bind_ok h]; simp
  | error e' => rw [bind_error h]; simp

theorem mem_events_bind_iff {x : Traced α} {f : α → Traced β} {e : Event} :
    e ∈ (x >>= f).events ↔ e ∈ x.events ∨ ∃ a, x.outcome = .ok a ∧ e ∈ (f a).events := by
  cases h : x.outcome with
  | ok a => rw [bind_ok h]; simp
  | error e' => rw [bind_error h]; simp

theorem reads_eq_nil {x : Traced α} (h : ∀ e ∈ x.events, e.isReading = false) : x.reads = [] := by
  refine List.filterMap_eq_nil_iff.2 fun e he => ?_
  have hquiet := h e he
  cases e with
  | read file depth => cases hquiet
  | _ => rfl

theorem outcome_bind_pure {x : Traced α} {g : α → β} :
    (x >>= fun a => pure (g a)).outcome = x.outcome.map g := by
  cases h : x.outcome with
  | ok a => rw [bind_ok h]; rfl
  | error e => rw [bind_error h]; rfl

theorem outcome_ofExcept_eq_ok_iff {ε : Type} {failure : ε → Failure} {x : Except ε α} {a : α} :
    (ofExcept failure x).outcome = .ok a ↔ x = .ok a := by
  cases x with
  | ok b => simp [ofExcept, done]
  | error e => simp [ofExcept, fail]

end Traced
end SassImports
