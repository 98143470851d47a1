import StoreMarkup.Text.Basic
import StoreMarkup.Text.Integer
import StoreMarkup.Text.Quoted

/-! The switches of the command line, and what each argument is by its form. -/
namespace StoreMarkup.CommandLine

inductive Switch where
  | help
  | encoding
  | workers
  | failOnWarning
  | ismlOnly
  | noHashExpressions
  | json
deriving DecidableEq, Repr

namespace Switch

def all : List Switch :=
  [help, encoding, workers, failOnWarning, ismlOnly, noHashExpressions, json]

/-- The ways to write a switch. -/
def names : Switch → List String
  | help => ["-h", "--help"]
  | encoding => ["--encoding", "-e"]
  | workers => ["--workers", "-w"]
  | failOnWarning => ["--fail-on-warning"]
  | ismlOnly => ["--isml-only"]
  | noHashExpressions => ["--no-hash-expressions"]
  | json => ["--json"]

def takesValue : Switch → Bool
  | encoding | workers => true
  | _ => false

/-- A switch as messages name it. -/
def label (s : Switch) : String := "/".intercalate s.names

/-- Every written form with its switch. -/
def forms : List (Text × Switch) := all.flatMap fun s => s.names.map fun n => (n.toList, s)

def ofForm? (form : Text) : Option Switch := forms.lookup form

end Switch

/-- What is wrong with the arguments. -/
inductive UsageError where
  | ambiguous (argument : Text) (candidates : List Text)
  | ignoredValue (switch : Switch) (value : Text)
  | missingValue (switch : Switch)
  | notInteger (switch : Switch) (value : Text)
  | missingDirectory
  | unrecognized (arguments : List Text)
deriving DecidableEq, Repr

namespace UsageError

/-- The message about the value of a switch. -/
def about (switch : Switch) (problem : String) : String := s!"argument {switch.label}: {problem}"

def quoted (value : Text) : String := String.ofList (quotedText value)

def message : UsageError → String
  | ambiguous argument candidates =>
    s!"ambiguous option: {String.ofList argument} could match " ++
      ", ".intercalate (candidates.map String.ofList)
  | ignoredValue switch value => about switch ("ignored explicit argument " ++ quoted value)
  | missingValue switch => about switch "expected one argument"
  | notInteger switch value => about switch ("invalid int value: " ++ quoted value)
  | missingDirectory => "the following arguments are required: src_dir"
  | unrecognized arguments =>
    "unrecognized arguments: " ++ " ".intercalate (arguments.map String.ofList)

end UsageError

/-- A value in the argument of a switch. -/
inductive Attached where
  /-- After an equals sign. -/
  | assigned (value : Text)
  /-- Right after the letter of the switch. -/
  | adjacent (value : Text)
deriving DecidableEq, Repr

/-- An argument by its form. -/
inductive Argument where
  | value (text : Text)
  /-- Two dashes, after which there are only values. -/
  | terminator
  /-- A switch, written as a letter or as a word, and the value in the same argument. -/
  | switch (switch : Switch) (letter : Bool) (attached : Option Attached)
  /-- It looks like a switch and is none. -/
  | unknown (text : Text)
deriving DecidableEq, Repr

/-- Whether a text is digits alone or digits with a point before the last of them. -/
def isNumber (t : Text) : Bool :=
  let isDigit := fun c => (digitValue? c).isSome
  match t.dropWhile isDigit with
  | [] => !t.isEmpty
  | '.' :: fraction => !fraction.isEmpty && fraction.all isDigit
  | _ => false

/-- Whether an argument is a number below zero. It may end with a line break. -/
def isNegativeNumber : Text → Bool
  | '-' :: t => isNumber (if t.getLast? = some '\n' then t.dropLast else t)
  | _ => false

namespace Argument

/-- Whether a written form is a dash and a letter. -/
def isLetterForm : Text → Bool
  | ['-', c] => c != '-'
  | _ => false

/-- A text up to its first equals sign, and what follows that. -/
def splitAssignment (t : Text) : Text × Option Text :=
  match t.dropWhile (· != '=') with
  | [] => (t, none)
  | _ :: assigned => (t.takeWhile (· != '='), some assigned)

/-- The written forms that start with the given text. -/
def completions (start : Text) : List (Text × Switch) :=
  Switch.forms.filter fun f => start.isPrefixOf f.1

/-- What an argument that starts with a dash and is no written form may abbreviate or join. -/
def shortened? (t : Text) : Except UsageError (Option Argument) :=
  match t with
  | '-' :: '-' :: _ =>
    match splitAssignment t with
    | (start, assigned) =>
      match completions start with
      | [] => .ok none
      | [(_, s)] => .ok (some (switch s false (assigned.map .assigned)))
      | candidates => .error (.ambiguous t (candidates.map Prod.fst))
  | '-' :: c :: rest =>
    .ok ((Switch.ofForm? ['-', c]).map fun s => switch s true (some (.adjacent rest)))
  | _ => .ok none

/-- What an argument is that is not written in full: a shortened switch, or else a value if it is a
negative number or has a space. -/
def inexact (t : Text) : Except UsageError Argument :=
  match shortened? t with
  | .error e => .error e
  | .ok (some a) => .ok a
  | .ok none => .ok (if isNegativeNumber t || t.contains ' ' then value t else unknown t)

/-- What an argument is before two dashes. A lone dash is a value. -/
def ofText (t : Text) : Except UsageError Argument :=
  match t with
  | '-' :: _ :: _ =>
    match Switch.ofForm? t with
    | some s => .ok (switch s (isLetterForm t) none)
    | none =>
      match splitAssignment t with
      | (form, some v) =>
        match Switch.ofForm? form with
        | some s => .ok (switch s (isLetterForm form) (some (.assigned v)))
        | none => inexact t
      | (_, none) => inexact t
  | _ => .ok (value t)

/-- What the arguments are. All are looked at before any is used. -/
def ofTexts : List Text → Except UsageError (List Argument)
  | [] => .ok []
  | t :: rest =>
    if t = ['-', '-'] then .ok (terminator :: rest.map value)
    else do
      let first ← ofText t
      return first :: (← ofTexts rest)

end Argument

end StoreMarkup.CommandLine
