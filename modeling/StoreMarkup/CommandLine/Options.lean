import StoreMarkup.CommandLine.Switch
import StoreMarkup.Settings

/-! What the arguments of the command line ask for. -/
namespace StoreMarkup.CommandLine

/-- What to check, how, and how to print the result. -/
structure Options where
  sourceDir : Text
  encoding : Text
  workers : Option Int
  failOnWarning : Bool
  ismlOnly : Bool := false
  noHashExpressions : Bool := false
  json : Bool := false
deriving DecidableEq, Repr

/-- Why there is nothing to check. -/
inductive Stop where
  /-- The user asks what the arguments may be. -/
  | help
  | usage (error : UsageError)
deriving DecidableEq, Repr

/-- The arguments read so far. -/
structure Progress where
  /-- The options, but for the source directory, which may be still to come. -/
  options : Options
  sourceDir : Option Text := none
  /-- Arguments that nothing is done with. -/
  extra : List Text := []
deriving DecidableEq, Repr

/-- One use of a switch, with its value if it takes one. -/
structure Use where
  switch : Switch
  value : Text := []
deriving DecidableEq, Repr

/-- The switches that one argument holds. -/
structure Cluster where
  uses : List Use
  /-- The last switch, if its value is to be the next argument. -/
  pending : Option Switch := none
  /-- The rest of the argument after the last letter that is a switch. -/
  extra : List Text := []
deriving DecidableEq, Repr

namespace Cluster

/-- A switch without a value in its argument. -/
def alone (s : Switch) : Cluster := if s.takesValue then ⟨[], some s, []⟩ else ⟨[⟨s, []⟩], none, []⟩

def cons (use : Use) (c : Cluster) : Cluster := { c with uses := use :: c.uses }

/-- A switch that is written as a letter and followed by a text, which holds its value or the
letters of more switches. -/
def ofLetter (s : Switch) (assigned : Bool) (t : Text) : Except UsageError Cluster :=
  if s.takesValue then .ok ⟨[⟨s, t⟩], none, []⟩
  else
    match t with
    | [] => .error (.ignoredValue s t)
    | c :: rest =>
      if assigned || c == '-' then .error (.ignoredValue s t)
      else
        match Switch.ofForm? ['-', c] with
        | none => .ok ⟨[⟨s, []⟩], none, ['-' :: t]⟩
        | some next =>
          match rest with
          | [] => .ok (cons ⟨s, []⟩ (alone next))
          | '=' :: v => (ofLetter next true v).map (cons ⟨s, []⟩)
          | d :: v => (ofLetter next false (d :: v)).map (cons ⟨s, []⟩)

/-- The switches of an argument. -/
def ofSwitch (s : Switch) (letter : Bool) : Option Attached → Except UsageError Cluster
  | none => .ok (alone s)
  | some (.adjacent v) => ofLetter s false v
  | some (.assigned v) =>
    if letter then ofLetter s true v
    else if s.takesValue then .ok ⟨[⟨s, v⟩], none, []⟩
    else .error (.ignoredValue s v)

end Cluster

namespace Progress

/-- Carries out one use of a switch. -/
def use (r : Progress) (u : Use) : Except Stop Progress :=
  match u.switch with
  | .help => .error .help
  | .encoding => .ok { r with options.encoding := u.value }
  | .workers =>
    match integer u.value with
    | .ok n => .ok { r with options.workers := some n }
    | .error _ => .error (.usage (.notInteger .workers u.value))
  | .failOnWarning => .ok { r with options.failOnWarning := true }
  | .ismlOnly => .ok { r with options.ismlOnly := true }
  | .noHashExpressions => .ok { r with options.noHashExpressions := true }
  | .json => .ok { r with options.json := true }

def useAll (r : Progress) (c : Cluster) : Except Stop Progress :=
  c.uses.foldlM use { r with extra := r.extra ++ c.extra }

/-- Takes a value that belongs to no switch: the first is the source directory. -/
def take (r : Progress) (t : Text) : Progress :=
  match r.sourceDir with
  | none => { r with sourceDir := some t }
  | some _ => { r with extra := r.extra ++ [t] }

/-- Reads the arguments in order. Two dashes go unseen just before or just after the source
directory. -/
def readAll (r : Progress) : List Argument → Except Stop Progress
  | [] => .ok r
  | .value t :: .terminator :: rest =>
    if r.sourceDir.isNone then readAll (r.take t) rest
    else readAll { r with extra := r.extra ++ [t, ['-', '-']] } rest
  | .value t :: rest => readAll (r.take t) rest
  | .terminator :: rest =>
    if r.sourceDir.isNone then readAll r rest
    else readAll { r with extra := r.extra ++ [['-', '-']] } rest
  | .unknown t :: rest => readAll { r with extra := r.extra ++ [t] } rest
  | .switch s letter attached :: rest =>
    match Cluster.ofSwitch s letter attached with
    | .error e => .error (.usage e)
    | .ok cluster =>
      match cluster.pending, rest with
      | none, rest => do readAll (← r.useAll cluster) rest
      | some last, .value v :: rest => do
        readAll (← r.useAll { cluster with uses := cluster.uses ++ [⟨last, v⟩] }) rest
      | some last, _ => .error (.usage (.missingValue last))

/-- The options, once all arguments are read. -/
def finish (r : Progress) : Except Stop Options :=
  match r.sourceDir with
  | none => .error (.usage .missingDirectory)
  | some dir =>
    if r.extra.isEmpty then .ok { r.options with sourceDir := dir }
    else .error (.usage (.unrecognized r.extra))

end Progress

/-- The options that the arguments ask for, on top of the settings. -/
def Options.ofArguments (settings : Settings) (texts : List Text) : Except Stop Options :=
  match Argument.ofTexts texts with
  | .error e => .error (.usage e)
  | .ok arguments => do
    let start : Options :=
      { sourceDir := [], encoding := settings.encoding, workers := settings.maxWorkers,
        failOnWarning := settings.failOnWarning }
    (← Progress.readAll { options := start } arguments).finish

end StoreMarkup.CommandLine
