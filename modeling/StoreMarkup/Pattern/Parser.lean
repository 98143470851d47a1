import StoreMarkup.Pattern.Basic
import StoreMarkup.Text.Alphanumeric
import StoreMarkup.Text.Integer

/-! Options patterns from text. -/
namespace StoreMarkup

/-- Why a text is no pattern. -/
inductive PatternError where
  | malformed
  /-- A number of repetitions that is too large. -/
  | tooManyRepetitions
  /-- Characters cannot be compared both as ASCII and as Unicode. -/
  | incompatibleFlags
deriving DecidableEq, Repr

namespace Pattern

/-- A character of a pattern, or one with a backslash in front. -/
inductive Token where
  | plain (c : Char)
  | escaped (c : Char)
deriving DecidableEq, Repr

def Token.text : Token → Text
  | plain c => [c]
  | escaped c => ['\\', c]

/-- The tokens of a pattern. A backslash at the end has nothing to escape. -/
def tokens? : Text → Option (List Token)
  | [] => some []
  | '\\' :: c :: rest => (tokens? rest).map (.escaped c :: ·)
  | c :: rest => if c = '\\' then none else (tokens? rest).map (.plain c :: ·)

/-- How the rest of a pattern is read. -/
structure Options where
  mode : PatternMode := {}
  /-- Blanks and comments do not count. -/
  extended : Bool := false
  /-- Nothing may be repeated. -/
  template : Bool := false
deriving DecidableEq, Repr

/-- How far a pattern is read, and what is known of its groups. -/
structure Progress where
  rest : List Token
  /-- The number of the next group. -/
  next : Nat := 1
  /-- The groups that are closed. -/
  widths : List (Nat × Width) := []
  names : List (Text × Nat) := []
  /-- Inside a look behind, the first group that is too late to refer to. -/
  late : Option Nat := none
  /-- The groups that conditions refer to. -/
  conditions : List Nat := []
  /-- The pattern can be read and still cannot be used. -/
  unusable : Bool := false
deriving Repr

namespace Progress

/-- The longest run of at most `n` plain characters that pass a test. -/
def run (test : Char → Bool) (n : Nat) : List Token → Text × List Token
  | [] => ([], [])
  | t :: rest =>
    match n, t with
    | n + 1, .plain c =>
      if test c then
        let (text, rest) := run test n rest
        (c :: text, rest)
      else ([], t :: rest)
    | _, _ => ([], t :: rest)

/-- The text up to a mark, which may not be empty, and what follows the mark. -/
def name? (mark : Char) (ts : List Token) : Except PatternError (Text × List Token) :=
  match ts.takeWhile (· != .plain mark), ts.dropWhile (· != .plain mark) with
  | first :: more, _ :: rest => .ok ((first :: more).flatMap Token.text, rest)
  | _, _ => .error .malformed

/-- Whether a group that is closed may be referred to here. -/
def canRefer (p : Progress) (number : Nat) : Bool :=
  (p.widths.lookup number).isSome && p.late.all fun late => number < late

def widthOf (p : Progress) (number : Nat) : Width := (p.widths.lookup number).getD ⟨0, some 0⟩

end Progress

/-- A letter or underscore, followed by letters, numbers and underscores. -/
def isName (t : Text) : Bool :=
  match t with
  | [] => false
  | c :: rest =>
    (c == '_' || (isAlphanumeric c && (digitValue? c).isNone)) &&
      rest.all fun d => d == '_' || isAlphanumeric d

def hexNumber (digits : Text) : Nat :=
  digits.foldl (fun n c => 16 * n + (hexValue? c).getD 0) 0

def octalNumber (digits : Text) : Nat :=
  digits.foldl (fun n c => 8 * n + (c.toNat - '0'.toNat)) 0

def isOctalDigit (c : Char) : Bool := '0' ≤ c && c ≤ '7'

/-- The characters that stand after a backslash for a control. -/
def controls : List (Char × Nat) :=
  [('a', 0x7), ('b', 0x8), ('f', 0xC), ('n', 0xA), ('r', 0xD), ('t', 0x9), ('v', 0xB),
    ('\\', 0x5C)]

/-- The characters that stand after a backslash for a kind. -/
def kinds : List (Char × CharItem) :=
  [('d', .kind .digit false), ('D', .kind .digit true), ('s', .kind .blank false),
    ('S', .kind .blank true), ('w', .kind .word false), ('W', .kind .word true)]

/-- The characters that stand after a backslash for a place. -/
def places : List (Char × Place) :=
  [('A', .start), ('Z', .stop), ('b', .wordEdge false), ('B', .wordEdge true)]

/-- A code point in as many hexadecimal digits as the letter in front says. -/
def hexCode (count : Nat) (rest : List Token) : Except PatternError (Nat × List Token) :=
  let (digits, rest) := Progress.run (fun c => (hexValue? c).isSome) count rest
  if digits.length = count && hexNumber digits ≤ 0x10FFFF then .ok (hexNumber digits, rest)
  else .error .malformed

/-- The code point that an escaped letter or mark stands for, with what follows it. -/
def escapedCode (c : Char) (rest : List Token) : Except PatternError (Nat × List Token) :=
  match c with
  | 'x' => hexCode 2 rest
  | 'u' => hexCode 4 rest
  | 'U' => hexCode 8 rest
  | _ => if c.isAlpha then .error .malformed else .ok (c.toNat, rest)

/-- An escaped character in a set. -/
def escapedItem (c : Char) (rest : List Token) : Except PatternError (CharItem × List Token) :=
  match controls.lookup c, kinds.lookup c with
  | some code, _ => .ok (.code code, rest)
  | none, some kind => .ok (kind, rest)
  | none, none =>
    if isOctalDigit c then
      let (digits, rest) := Progress.run isOctalDigit 2 rest
      let code := octalNumber (c :: digits)
      if code ≤ 0xFF then .ok (.code code, rest) else .error .malformed
    else if c.isDigit then .error .malformed
    else (escapedCode c rest).map fun (code, rest) => (.code code, rest)

def item : Token → List Token → Except PatternError (CharItem × List Token)
  | .plain c, rest => .ok (.code c.toNat, rest)
  | .escaped c, rest => escapedItem c rest

/-- The items of a set up to its closing bracket, after those in `read`. A bracket in the first
place is an item. -/
def setItems : Nat → List CharItem → List Token → Except PatternError (List CharItem × List Token)
  | 0, _, _ | _, _, [] => .error .malformed
  | fuel + 1, read, t :: rest =>
    if t = .plain ']' && !read.isEmpty then .ok (read.reverse, rest)
    else do
      let (first, rest) ← item t rest
      match rest with
      | .plain '-' :: .plain ']' :: rest =>
        return ((.code '-'.toNat :: first :: read).reverse, rest)
      | .plain '-' :: t :: rest =>
        match first, ← item t rest with
        | .code lo, (.code hi, rest) =>
          if lo ≤ hi then setItems fuel (.range lo hi :: read) rest else .error .malformed
        | _, _ => .error .malformed
      | _ => setItems fuel (first :: read) rest

/-- A set after its opening bracket. A set of one character is that character. -/
def charSet (mode : PatternMode) (rest : List Token) :
    Except PatternError (Pattern × List Token) := do
  let (negated, rest) := match rest with
    | .plain '^' :: rest => (true, rest)
    | _ => (false, rest)
  let (items, rest) ← setItems (rest.length + 1) [] rest
  match items.eraseDups with
  | [.code n] => return (.char mode n negated, rest)
  | items => return (.oneOf mode items negated, rest)

/-- What an escaped digit other than zero stands for: a character in three octal digits, or a
group. -/
def numbered (mode : PatternMode) (c : Char) (p : Progress) :
    Except PatternError (Pattern × Progress) :=
  let octal := Progress.run isOctalDigit 2 p.rest
  if isOctalDigit c && octal.1.length = 2 then
    let code := octalNumber (c :: octal.1)
    if code ≤ 0xFF then .ok (.char mode code false, { p with rest := octal.2 })
    else .error .malformed
  else
    let (digits, rest) := Progress.run Char.isDigit 1 p.rest
    let number := decimalValue (c :: digits)
    if p.canRefer number then .ok (.again mode number, { p with rest }) else .error .malformed

/-- An escaped character outside of sets. -/
def escape (mode : PatternMode) (c : Char) (p : Progress) :
    Except PatternError (Pattern × Progress) :=
  match places.lookup c, controls.lookup c, kinds.lookup c with
  | some edge, _, _ => .ok (.place mode edge, p)
  | none, some code, _ => .ok (.char mode code false, p)
  | none, none, some kind => .ok (.oneOf mode [kind] false, p)
  | none, none, none =>
    if c = '0' then
      let (digits, rest) := Progress.run isOctalDigit 2 p.rest
      .ok (.char mode (octalNumber digits) false, { p with rest })
    else if c.isDigit then numbered mode c p
    else (escapedCode c p.rest).map fun (code, rest) => (.char mode code false, { p with rest })

/-- How often something is repeated: at least and at most. -/
abbrev Bounds := Nat × Option Nat

/-- The first number of repetitions that is too large. -/
def maxRepetitions : Nat := 4294967295

/-- Bounds in braces, after the opening brace. If there are none, the brace is a character. -/
def bounds? (rest : List Token) : Except PatternError (Option (Bounds × List Token)) :=
  let all := rest.length
  let (low, afterLow) := Progress.run Char.isDigit all rest
  let (high, after) := match afterLow with
    | .plain ',' :: afterComma => Progress.run Char.isDigit all afterComma
    | _ => (low, afterLow)
  match rest, after with
  | .plain '\x7d' :: _, _ => .ok none
  | _, .plain '\x7d' :: rest =>
    let least := decimalValue low
    let most := if high.isEmpty then none else some (decimalValue high)
    if maxRepetitions ≤ least || most.any (maxRepetitions ≤ ·) then .error .tooManyRepetitions
    else if most.any (· < least) then .error .malformed
    else .ok (some ((least, most), rest))
  | _, _ => .ok none

/-- The bounds that a token sets for what precedes it. -/
def quantifier? (t : Token) (rest : List Token) :
    Except PatternError (Option (Bounds × List Token)) :=
  match t with
  | .plain '?' => .ok (some ((0, some 1), rest))
  | .plain '*' => .ok (some ((0, none), rest))
  | .plain '+' => .ok (some ((1, none), rest))
  | .plain '\x7b' => bounds? rest
  | _ => .ok none

/-- The eagerness that a mark after the bounds sets. -/
def eagerness (rest : List Token) : Eagerness × List Token :=
  match rest with
  | .plain '?' :: rest => (.reluctant, rest)
  | .plain '+' :: rest => (.possessive, rest)
  | _ => (.greedy, rest)

/-- Whether something may be repeated: no place, and nothing that is repeated already. -/
def isRepeatable : Pattern → Bool
  | place .. | repeated .. => false
  | _ => true

/-! Flags -/

def isFlag (c : Char) : Bool := "iLmsxatu".toList.contains c

/-- Flags that are set and flags that are taken back. -/
structure FlagChange where
  on : Text := []
  off : Text := []
  /-- The change is for the whole pattern. -/
  isGlobal : Bool := false
deriving DecidableEq, Repr

/-- Whether flags may be set together. -/
def areCompatible (on : Text) : Bool :=
  !on.contains 'L' && !(on.contains 'a' && on.contains 'u')

/-- Reads flags up to the mark that ends them. -/
def flagChange (rest : List Token) : Except PatternError (FlagChange × List Token) :=
  let all := rest.length
  let (on, rest) := Progress.run isFlag all rest
  if !areCompatible on then .error .malformed
  else
    match on, rest with
    | _ :: _, .plain ')' :: rest => .ok ({ on, isGlobal := true }, rest)
    | _ :: _, .plain ':' :: rest =>
      if on.contains 't' then .error .malformed else .ok ({ on }, rest)
    | _, .plain '-' :: rest =>
      match Progress.run isFlag all rest with
      | (c :: more, .plain ':' :: rest) =>
        let off := c :: more
        if on.contains 't' || off.any (fun f => "aLut".toList.contains f || on.contains f) then
          .error .malformed
        else .ok ({ on, off }, rest)
      | _ => .error .malformed
    | _, _ => .error .malformed

def FlagChange.apply (change : FlagChange) (r : Options) : Options :=
  let now := fun (flag : Char) (value : Bool) =>
    (value || change.on.contains flag) && !change.off.contains flag
  { mode :=
      { ignoreCase := now 'i' r.mode.ignoreCase
        asciiOnly := change.on.contains 'a' || (r.mode.asciiOnly && !change.on.contains 'u')
        multiline := now 'm' r.mode.multiline
        dotAll := now 's' r.mode.dotAll }
    extended := now 'x' r.extended
    template := now 't' r.template }

/-! Groups -/

def isPatternBlank (c : Char) : Bool := c == ' ' || (0x9 ≤ c.toNat && c.toNat ≤ 0xD)

/-- What follows a comment in parentheses. -/
def afterComment (rest : List Token) : Except PatternError (List Token) :=
  match rest.dropWhile (· != .plain ')') with
  | [] => .error .malformed
  | _ :: rest => .ok rest

/-- What follows the blank or the comment at the start, if blanks and comments do not count. -/
def afterBlank? (r : Options) (ts : List Token) : Option (List Token) :=
  match r.extended, ts with
  | true, .plain '#' :: rest => some ((rest.dropWhile (· != .plain '\n')).drop 1)
  | true, .plain c :: rest => if isPatternBlank c then some rest else none
  | _, _ => none

/-- Reads the flags at the start of a pattern, which are for the whole of it. All flags are
returned, too. -/
def leadingFlags : Nat → Options → Text → List Token →
    Except PatternError (Options × Text × List Token)
  | 0, r, on, ts => .ok (r, on, ts)
  | fuel + 1, r, on, ts =>
    match afterBlank? r ts, ts with
    | some rest, _ => leadingFlags fuel r on rest
    | none, .plain '(' :: .plain '?' :: .plain '#' :: rest => do
      leadingFlags fuel r on (← afterComment rest)
    | none, .plain '(' :: .plain '?' :: rest =>
      match flagChange rest with
      | .ok (change, rest) =>
        if change.isGlobal then leadingFlags fuel (change.apply r) (on ++ change.on) rest
        else .ok (r, on, ts)
      | .error _ => .ok (r, on, ts)
    | none, _ => .ok (r, on, ts)

/-- Opens a group that gets a number and may get a name. -/
def openGroup (name : Option Text) (p : Progress) : Except PatternError (Nat × Progress) :=
  match name with
  | none => .ok (p.next, { p with next := p.next + 1 })
  | some name =>
    if (p.names.lookup name).isSome then .error .malformed
    else .ok (p.next, { p with next := p.next + 1, names := (name, p.next) :: p.names })

/-- What a group is for. -/
inductive GroupKind where
  | comment
  | again (number : Nat)
  | part (name : Option Text)
  | plainPart (r : Options)
  | atomic
  | look (ahead holds : Bool)
  | condition (number : Nat)
deriving DecidableEq, Repr

/-- The group that a condition or a reference names. -/
def groupNamed (name : Text) (p : Progress) : Except PatternError Nat :=
  match p.names.lookup name with
  | some number => .ok number
  | none => .error .malformed

/-- The group that a condition refers to. By a number, it may be one that comes later. -/
def conditionGroup (name : Text) (p : Progress) : Except PatternError (Nat × Progress) :=
  if isName name then (groupNamed name p).map fun number => (number, p)
  else
    match integer name with
    | .ok n =>
      if 0 < n then .ok (n.toNat, { p with conditions := n.toNat :: p.conditions })
      else .error .malformed
    | .error _ => .error .malformed

/-- What a group is for, by the marks after its opening parenthesis. -/
def groupKind (r : Options) (p : Progress) : Except PatternError (GroupKind × Progress) :=
  match p.rest with
  | .plain '?' :: .plain 'P' :: .plain '<' :: rest => do
    let (name, rest) ← Progress.name? '>' rest
    if isName name then return (.part (some name), { p with rest }) else .error .malformed
  | .plain '?' :: .plain 'P' :: .plain '=' :: rest => do
    let (name, rest) ← Progress.name? ')' rest
    let number ← groupNamed name p
    if p.canRefer number then return (.again number, { p with rest }) else .error .malformed
  | .plain '?' :: .plain ':' :: rest => .ok (.plainPart r, { p with rest })
  | .plain '?' :: .plain '#' :: rest => do return (.comment, { p with rest := ← afterComment rest })
  | .plain '?' :: .plain '=' :: rest => .ok (.look true true, { p with rest })
  | .plain '?' :: .plain '!' :: rest => .ok (.look true false, { p with rest })
  | .plain '?' :: .plain '<' :: .plain '=' :: rest => .ok (.look false true, { p with rest })
  | .plain '?' :: .plain '<' :: .plain '!' :: rest => .ok (.look false false, { p with rest })
  | .plain '?' :: .plain '>' :: rest => .ok (.atomic, { p with rest })
  | .plain '?' :: .plain '(' :: rest => do
    let (name, rest) ← Progress.name? ')' rest
    let (number, p) ← conditionGroup name p
    if p.late.isSome && !p.canRefer number then .error .malformed
    else return (.condition number, { p with rest })
  | .plain '?' :: rest => do
    let (change, rest) ← flagChange rest
    if change.isGlobal then .error .malformed
    else return (.plainPart (change.apply r), { p with rest })
  | rest => .ok (.part none, { p with rest })

/-- Goes on after the parenthesis that closes a group. -/
def close (p : Progress) : Except PatternError Progress :=
  match p.rest with
  | .plain ')' :: rest => .ok { p with rest }
  | _ => .error .malformed

mutual

/-- Reads patterns with bars between them. -/
def alternatives : Nat → Options → Progress → Except PatternError (Pattern × Progress)
  | 0, _, _ => .error .malformed
  | fuel + 1, r, p => do
    let (first, p) ← parts fuel r [] p
    match p.rest with
    | .plain '|' :: rest =>
      let (second, p) ← alternatives fuel r { p with rest }
      return (.either first second, p)
    | _ => return (first, p)

/-- Reads patterns one after the other, after those in `read`. -/
def parts : Nat → Options → List Pattern → Progress → Except PatternError (Pattern × Progress)
  | 0, _, _, _ => .error .malformed
  | fuel + 1, r, read, p =>
    match afterBlank? r p.rest, p.rest with
    | some rest, _ => parts fuel r read { p with rest }
    | none, [] | none, .plain '|' :: _ | none, .plain ')' :: _ => .ok (sequence read.reverse, p)
    | none, t :: rest => do
      match ← quantifier? t rest, read with
      | some _, [] => .error .malformed
      | some ((least, most), rest), last :: earlier =>
        if !isRepeatable last then .error .malformed
        else
          let (how, rest) := eagerness rest
          let unusable := p.unusable || r.template
          parts fuel r (.repeated how least most last :: earlier) { p with rest, unusable }
      | none, _ =>
        let p := { p with rest }
        match t with
        | .escaped c =>
          let (part, p) ← escape r.mode c p
          parts fuel r (part :: read) p
        | .plain '[' =>
          let (part, rest) ← charSet r.mode rest
          parts fuel r (part :: read) { p with rest }
        | .plain '.' => parts fuel r (.point r.mode :: read) p
        | .plain '^' => parts fuel r (.place r.mode .lineStart :: read) p
        | .plain '$' => parts fuel r (.place r.mode .lineStop :: read) p
        | .plain '(' =>
          let (part, p) ← parenthesis fuel r p
          parts fuel r (part.toList ++ read) p
        | .plain c => parts fuel r (.char r.mode c.toNat false :: read) p

/-- Reads a group after its opening parenthesis. A comment is no part of the pattern. -/
def parenthesis : Nat → Options → Progress → Except PatternError (Option Pattern × Progress)
  | 0, _, _ => .error .malformed
  | fuel + 1, r, p => do
    let (kind, p) ← groupKind r p
    match kind with
    | .comment => return (none, p)
    | .again number => return (some (.again r.mode number), p)
    | .part name =>
      let (number, p) ← openGroup name p
      let (body, p) ← alternatives fuel r p
      let p ← close p
      let width := body.width p.widthOf
      return (some (.group (some number) body), { p with widths := (number, width) :: p.widths })
    | .plainPart r =>
      let (body, p) ← alternatives fuel r p
      return (some (.group none body), ← close p)
    | .atomic =>
      let (body, p) ← alternatives fuel r p
      return (some (.atomic body), ← close p)
    | .look true holds =>
      let (body, p) ← alternatives fuel r p
      return (some (.ahead holds body), ← close p)
    | .look false holds =>
      let late := p.late
      let (body, p) ← alternatives fuel r { p with late := some (late.getD p.next) }
      let p ← close { p with late }
      let width := body.width p.widthOf
      let isFixed := width.most == some width.least
      return (some (.behind holds width.least body), { p with unusable := p.unusable || !isFixed })
    | .condition number =>
      let (yes, p) ← parts fuel r [] p
      match p.rest with
      | .plain '|' :: rest =>
        let (no, p) ← parts fuel r [] { p with rest }
        return (some (.ifGroup number yes no), ← close p)
      | _ => return (some (.ifGroup number yes .empty), ← close p)

end

/-- The pattern that a text stands for, in a mode that flags in the text may change. -/
def parse (mode : PatternMode) (text : Text) : Except PatternError Pattern := do
  match tokens? text with
  | none => .error .malformed
  | some tokens =>
    let (r, on, rest) ← leadingFlags tokens.length { mode } [] tokens
    let (pattern, p) ← alternatives (3 * tokens.length + 3) r { rest }
    if on.contains 'a' && on.contains 'u' then .error .incompatibleFlags
    else if p.unusable || !p.rest.isEmpty || p.conditions.any (p.next ≤ ·) then .error .malformed
    else return pattern

end Pattern

end StoreMarkup
