import StoreMarkup.Construct.Expression
import StoreMarkup.Source.Position
import StoreMarkup.Text.Blank
import StoreMarkup.Vocabulary

/-! Attribute values: literal text with expressions in it. -/
namespace StoreMarkup

/-- The marks around an expression. -/
inductive Delimiter where
  | dollar
  | hash
deriving DecidableEq, Repr

def Delimiter.opening : Delimiter → Text
  | dollar => ['$', '{']
  | hash => ['#']

def Delimiter.closing : Delimiter → Text
  | dollar => ['}']
  | hash => ['#']

/-- A part of an attribute value. -/
inductive Fragment where
  | literal (text : Text)
  | expression (delimiter : Delimiter) (body : Text)
deriving DecidableEq, Repr

namespace Fragment

/-- The part as it is written. -/
def source : Fragment → Text
  | literal text => text
  | expression delimiter body => delimiter.opening ++ body ++ delimiter.closing

def isExpression : Fragment → Bool
  | literal _ => false
  | expression _ _ => true

end Fragment

/-- The quote on each side of a value, if it has one, as text. -/
def quoteMark (quote : Option Quote) : Text := (quote.map Quote.char).toList

/-- What a value is read from when it starts with `c`: the quote itself is passed over. -/
def afterQuote (c : Char) (cs : Text) : Text := if (Quote.ofChar? c).isSome then cs else c :: cs

theorem quoteMark_append_afterQuote (c : Char) (cs : Text) :
    quoteMark (Quote.ofChar? c) ++ afterQuote c cs = c :: cs := by
  unfold afterQuote Quote.ofChar?
  by_cases h : c = '"'
  · simp [h, quoteMark, Quote.char]
  · by_cases h' : c = '\'' <;> simp [h, h', quoteMark, Quote.char]

/-- An attribute value with what leads to it: blanks, the equals sign and blanks again. -/
structure Value where
  lead : Text
  quote : Option Quote
  fragments : List Fragment
deriving DecidableEq, Repr

namespace Value

/-- The value as it is written, with its quotes. -/
def text (v : Value) : Text :=
  quoteMark v.quote ++ v.fragments.flatMap Fragment.source ++ quoteMark v.quote

/-- The fragments of a value that starts at a point. -/
def locatedFragments (v : Value) (p : Position) : List (Located Fragment) :=
  locate Fragment.source (p.advance (quoteMark v.quote)) v.fragments

end Value

/-- Whether no hash expression reaches over this character: the quote of a quoted value, and a
blank or an angle bracket in one without quotes. -/
def endsHash (quote : Option Quote) (c : Char) : Bool :=
  match quote with
  | some q => c == q.char
  | none => isBlank c || c == '>'

/-- A string inside a hash expression after its opening quote. It stays inside the value. -/
def nestedTail (quote : Option Quote) (inner : Quote) : Text → Option (Text × Text)
  | [] => none
  | c :: cs =>
    if endsHash quote c then none
    else if c = inner.char then some ([c], cs)
    else afterText [c] (nestedTail quote inner cs)

theorem nestedTail_eq {quote : Option Quote} {inner : Quote} {s t r : Text}
    (h : nestedTail quote inner s = some (t, r)) : s = t ++ r ∧ t ≠ [] := by
  fun_induction nestedTail quote inner s generalizing t with
  | case1 | case2 => simp at h
  | case3 cs _ =>
    obtain ⟨rfl, rfl⟩ := by simpa using h
    simp
  | case4 c cs _ _ ih =>
    obtain ⟨u, hu, rfl⟩ := afterText_eq_some.mp h
    simp [(ih hu).1]

theorem length_lt_of_nestedTail {quote : Option Quote} {inner : Quote} {s t r : Text}
    (h : nestedTail quote inner s = some (t, r)) : r.length < s.length := by
  obtain ⟨rfl, ht⟩ := nestedTail_eq h
  have := List.length_pos_iff.mpr ht
  simp only [List.length_append]
  omega

/-- A hash expression after its opening hash: the body, and what follows the closing hash. -/
def hashTail (quote : Option Quote) (s : Text) : Option (Text × Text) :=
  match s with
  | [] => none
  | c :: cs =>
    if c = '#' then some ([], cs)
    else if endsHash quote c then none
    else
      match Quote.ofChar? c with
      | some inner =>
        match _h : nestedTail quote inner cs with
        | none => none
        | some (t, rest) => afterText (c :: t) (hashTail quote rest)
      | none => afterText [c] (hashTail quote cs)
termination_by s.length
decreasing_by
  · have := length_lt_of_nestedTail _h
    simp only [List.length_cons]
    omega
  · simp

theorem hashTail_eq {quote : Option Quote} {s t r : Text} (h : hashTail quote s = some (t, r)) :
    s = t ++ '#' :: r := by
  fun_induction hashTail quote s generalizing t with
  | case1 | case3 | case4 => simp at h
  | case2 cs =>
    obtain ⟨rfl, rfl⟩ := by simpa using h
    simp
  | case5 c cs _ _ inner _ u rest hu ih =>
    obtain ⟨v, hv, rfl⟩ := afterText_eq_some.mp h
    simp [(nestedTail_eq hu).1, ih hv]
  | case6 c cs _ _ _ ih =>
    obtain ⟨v, hv, rfl⟩ := afterText_eq_some.mp h
    simp [ih hv]

/-- Two hashes with nothing between them are literal. -/
def hashBody? (quote : Option Quote) (s : Text) : Option (Text × Text) :=
  (hashTail quote s).filter fun (body, _) => !body.isEmpty

/-- What a value goes on with. -/
inductive ValueStep where
  | literal
  | expression (delimiter : Delimiter) (body rest : Text)
  /-- An expression that the text ends inside. -/
  | cutOff
deriving DecidableEq, Repr

def valueStep (d : Dialect) (quote : Option Quote) (c : Char) (cs : Text) : ValueStep :=
  match afterDollar? (c :: cs) with
  | some inner =>
    match expressionBody 0 inner with
    | some (body, rest) => .expression .dollar body rest
    | none => .cutOff
  | none =>
    if c == '#' && d.hashExpressions then
      match hashBody? quote cs with
      | some (body, rest) => .expression .hash body rest
      | none => .literal
    else .literal

theorem valueStep_eq {d : Dialect} {quote : Option Quote} {c : Char} {cs body rest : Text}
    {delimiter : Delimiter} (h : valueStep d quote c cs = .expression delimiter body rest) :
    c :: cs = (Fragment.expression delimiter body).source ++ rest := by
  unfold valueStep at h
  split at h
  · rename_i inner hi
    split at h
    · rename_i b r he
      obtain ⟨rfl, rfl, rfl⟩ := by simpa using h
      rw [afterDollar?_eq hi, expressionBody_eq he]
      simp [Fragment.source, Delimiter.opening, Delimiter.closing]
    · simp at h
  · split at h
    · rename_i hc
      split at h
      · rename_i b r he
        obtain ⟨rfl, rfl, rfl⟩ := by simpa using h
        obtain ⟨he, _⟩ := Option.filter_eq_some_iff.mp he
        obtain ⟨rfl, _⟩ := by simpa using hc
        simp [Fragment.source, Delimiter.opening, Delimiter.closing, hashTail_eq he]
      · simp at h
    · simp at h

/-- What follows a value that ends here: its closing quote is passed over, and a value without
quotes ends before a blank or the end of the tag. -/
def valueEnd? (quote : Option Quote) (c : Char) (cs : Text) : Option Text :=
  match quote with
  | some q => if c = q.char then some cs else none
  | none =>
    if isBlank c || c == '>' || (c == '/' && cs.head? == some '>') then some (c :: cs) else none

/-- Literal text grows by one character at its front. -/
def consLiteral (c : Char) : List Fragment → List Fragment
  | .literal t :: fs => .literal (c :: t) :: fs
  | fs => .literal [c] :: fs

/-- The fragments of a value after its opening quote, if any, and what follows the value. There are
none if the text ends first. -/
def valueFragments (d : Dialect) (quote : Option Quote) (s : Text) :
    Option (List Fragment × Text) :=
  match s with
  | [] => none
  | c :: cs =>
    match valueEnd? quote c cs with
    | some rest => some ([], rest)
    | none =>
      match _h : valueStep d quote c cs with
      | .cutOff => none
      | .literal => (valueFragments d quote cs).map fun (fs, rest) => (consLiteral c fs, rest)
      | .expression delimiter body rest =>
        (valueFragments d quote rest).map fun (fs, rest) =>
          (.expression delimiter body :: fs, rest)
termination_by s.length
decreasing_by
  · simp
  · have := congrArg List.length (valueStep_eq _h)
    cases delimiter <;>
      simp [Fragment.source, Delimiter.opening, Delimiter.closing] at this ⊢ <;> omega

theorem valueEnd?_eq {quote : Option Quote} {c : Char} {cs rest : Text}
    (h : valueEnd? quote c cs = some rest) : c :: cs = quoteMark quote ++ rest := by
  cases quote with
  | none => simp_all [valueEnd?, quoteMark]
  | some q =>
    obtain ⟨rfl, rfl⟩ := by simpa [valueEnd?] using h
    simp [quoteMark]

theorem source_consLiteral (c : Char) (fs : List Fragment) :
    (consLiteral c fs).flatMap Fragment.source = c :: fs.flatMap Fragment.source := by
  unfold consLiteral
  split <;> simp [Fragment.source]

/-- The fragments and the closing quote are what the scan passes over. -/
theorem valueFragments_eq {d : Dialect} {quote : Option Quote} {s rest : Text}
    {fs : List Fragment} (h : valueFragments d quote s = some (fs, rest)) :
    s = fs.flatMap Fragment.source ++ quoteMark quote ++ rest := by
  fun_induction valueFragments d quote s generalizing fs with
  | case1 | case3 => simp at h
  | case2 c cs r hr =>
    obtain ⟨rfl, rfl⟩ := by simpa using h
    simp [valueEnd?_eq hr]
  | case4 c cs _ _ ih =>
    obtain ⟨⟨gs, r⟩, hr, he⟩ := Option.map_eq_some_iff.mp h
    obtain ⟨rfl, rfl⟩ := by simpa using he
    simp [source_consLiteral, ih hr]
  | case5 c cs _ delimiter body r hs ih =>
    obtain ⟨⟨gs, r'⟩, hr, he⟩ := Option.map_eq_some_iff.mp h
    obtain ⟨rfl, rfl⟩ := by simpa using he
    rw [valueStep_eq hs, ih hr]
    simp

end StoreMarkup
