import StoreMarkup.Construct.Value
import StoreMarkup.Text.Quoted

/-! The inside of tags: attributes and whatever else stands there, up to the end of the tag. -/
namespace StoreMarkup

/-- What is wrong at a place inside a tag. -/
inductive Fault where
  /-- Quoted text in place of an attribute name. -/
  | strayQuoted
  /-- A mark that no attribute name starts with. -/
  | strayMark (mark : Char)
  | missingValue
  | closingContent
deriving DecidableEq, Repr

def Fault.message : Fault → String
  | strayQuoted => "Unexpected quoted text where an attribute name was expected"
  | strayMark mark =>
    "Unexpected " ++ String.ofList (quotedText [mark]) ++ " where an attribute name was expected"
  | missingValue => "Missing attribute value after '='"
  | closingContent => "Unexpected content in closing tag"

/-- Text that does not belong inside a tag, and the blanks before it. -/
structure Stray where
  gap : Text
  text : Text
deriving DecidableEq, Repr

def Stray.source (s : Stray) : Text := s.gap ++ s.text

/-- A part of an open tag, with the blanks before it. -/
inductive TagPart where
  | attribute (gap name : Text) (value : Option Value)
  | stray (stray : Stray) (fault : Fault)
deriving DecidableEq, Repr

/-- The part as it is written. -/
def TagPart.source : TagPart → Text
  | .attribute gap name none => gap ++ name
  | .attribute gap name (some value) => gap ++ name ++ value.lead ++ value.text
  | .stray s _ => s.source

/-- Whether an attribute name ends before `c`, which `cs` follows. -/
def endsAttributeName (c : Char) (cs : Text) : Bool :=
  isBlank c || c == '=' || c == '>' || c == '"' || c == '\'' || c == '<' ||
    (c == '/' && cs.head? == some '>')

/-- The attribute name at the start of a text and what follows it. Expressions belong to the name
as a whole, and there is none if the text ends inside one. -/
def attributeName (s : Text) : Option (Text × Text) :=
  match s with
  | [] => some ([], [])
  | c :: cs =>
    if endsAttributeName c cs then some ([], c :: cs)
    else
      match _hi : afterDollar? (c :: cs) with
      | some inner =>
        match _hb : expressionBody 0 inner with
        | none => none
        | some (body, rest) => afterText ('$' :: '{' :: body ++ ['}']) (attributeName rest)
      | none => afterText [c] (attributeName cs)
termination_by s.length
decreasing_by
  · have := length_lt_of_expressionBody _hb
    have := congrArg List.length (afterDollar?_eq _hi)
    simp only [List.length_cons] at this ⊢
    omega
  · simp

theorem attributeName_eq {s t r : Text} (h : attributeName s = some (t, r)) : s = t ++ r := by
  fun_induction attributeName s generalizing t with
  | case1 | case2 =>
    obtain ⟨rfl, rfl⟩ := by simpa using h
    simp
  | case3 => simp at h
  | case4 c cs _ inner hi body rest hb ih =>
    obtain ⟨u, hu, rfl⟩ := afterText_eq_some.mp h
    rw [afterDollar?_eq hi, expressionBody_eq hb, ih hu]
    simp
  | case5 c cs _ _ ih =>
    obtain ⟨u, hu, rfl⟩ := afterText_eq_some.mp h
    simp [ih hu]

theorem attributeName_ne_nil {c : Char} {cs t r : Text} (hc : endsAttributeName c cs = false)
    (h : attributeName (c :: cs) = some (t, r)) : t ≠ [] := by
  rw [attributeName, if_neg (by simp [hc])] at h
  split at h
  · split at h
    · simp at h
    · obtain ⟨u, _, rfl⟩ := afterText_eq_some.mp h
      simp
  · obtain ⟨u, _, rfl⟩ := afterText_eq_some.mp h
    simp

/-- What the inside of an open tag goes on with. -/
inductive TagStep where
  | more (parts : List TagPart) (rest : Text)
  | close (gap : Text) (slash : Bool) (rest : Text)
  /-- The text ends, after the given parts. -/
  | cutOff (parts : List TagPart)
deriving DecidableEq, Repr

/-- Whether a tag ends with `c`, which `cs` follows. -/
def endsTag (c : Char) (cs : Text) : Bool := c == '>' || (c == '/' && cs.head? == some '>')

/-- An attribute after its equals sign, which the blanks `before` precede. -/
def assignmentStep (d : Dialect) (gap name before after : Text) : TagStep :=
  match afterBlanks after with
  | [] => .cutOff [.attribute gap name none]
  | c :: cs =>
    if endsTag c cs then
      .more [.attribute gap name none, .stray ⟨before, '=' :: blanks after⟩ .missingValue]
        (c :: cs)
    else
      match valueFragments d (Quote.ofChar? c) (afterQuote c cs) with
      | none => .cutOff [.attribute gap name none]
      | some (fragments, rest) =>
        .more [.attribute gap name
          (some ⟨before ++ '=' :: blanks after, Quote.ofChar? c, fragments⟩)] rest

def attributeStep (d : Dialect) (gap s : Text) : TagStep :=
  match attributeName s with
  | none => .cutOff []
  | some (name, rest) =>
    match afterBlanks rest with
    | '=' :: after => assignmentStep d gap name (blanks rest) after
    | _ => .more [.attribute gap name none] rest

def tagStep (d : Dialect) (s : Text) : TagStep :=
  match afterBlanks s with
  | [] => .cutOff []
  | c :: cs =>
    if endsTag c cs then .close (blanks s) (c == '/') (if c == '/' then cs.drop 1 else cs)
    else
      match Quote.ofChar? c with
      | some q =>
        match quotedTail q cs with
        | none => .cutOff []
        | some (t, rest) => .more [.stray ⟨blanks s, c :: t⟩ .strayQuoted] rest
      | none =>
        if c == '=' || c == '<' || c == '/' then
          .more [.stray ⟨blanks s, [c]⟩ (.strayMark c)] cs
        else attributeStep d (blanks s) (c :: cs)

theorem assignmentStep_more {d : Dialect} {gap name before after rest : Text}
    {parts : List TagPart} (h : assignmentStep d gap name before after = .more parts rest) :
    gap ++ name ++ before ++ '=' :: after = parts.flatMap TagPart.source ++ rest := by
  have hs := blanks_append_afterBlanks after
  unfold assignmentStep at h
  split at h
  · simp at h
  · rename_i c cs hd
    rw [hd] at hs
    split at h
    · obtain ⟨rfl, rfl⟩ := by simpa using h
      simp [TagPart.source, Stray.source, hs]
    · split at h
      · simp at h
      · rename_i fs r hv
        obtain ⟨rfl, rfl⟩ := by simpa using h
        rw [← quoteMark_append_afterQuote, valueFragments_eq hv] at hs
        simpa [TagPart.source, Value.text] using hs.symm

theorem attributeStep_more {d : Dialect} {gap s rest : Text} {parts : List TagPart}
    (h : attributeStep d gap s = .more parts rest) :
    gap ++ s = parts.flatMap TagPart.source ++ rest := by
  unfold attributeStep at h
  split at h
  · simp at h
  · rename_i name r hn
    have hs := blanks_append_afterBlanks r
    rw [attributeName_eq hn]
    split at h
    · rename_i after hd
      rw [hd] at hs
      rw [← assignmentStep_more h]
      simp [hs]
    · obtain ⟨rfl, rfl⟩ := by simpa using h
      simp [TagPart.source]

/-- The parts that are read are what the step passes over. -/
theorem tagStep_more {d : Dialect} {s rest : Text} {parts : List TagPart}
    (h : tagStep d s = .more parts rest) : s = parts.flatMap TagPart.source ++ rest := by
  have hs := blanks_append_afterBlanks s
  unfold tagStep at h
  split at h
  · simp at h
  · rename_i c cs hd
    rw [hd] at hs
    split at h
    · simp at h
    · split at h
      · split at h
        · simp at h
        · rename_i t r ht
          obtain ⟨rfl, rfl⟩ := by simpa using h
          rw [(quotedTail_eq ht).1] at hs
          simp [TagPart.source, Stray.source, hs]
      · split at h
        · obtain ⟨rfl, rfl⟩ := by simpa using h
          simp [TagPart.source, Stray.source, hs]
        · rw [← attributeStep_more h, hs]

/-- The name or the stray text of a part. -/
def TagPart.text : TagPart → Text
  | .attribute _ name _ => name
  | .stray s _ => s.text

theorem TagPart.length_text_le (part : TagPart) : part.text.length ≤ part.source.length := by
  cases part with
  | stray s f => simp [text, source, Stray.source]
  | «attribute» gap name value =>
    cases value with
    | none => simp [text, source]
    | some a =>
      simp only [text, source, List.length_append]
      omega

theorem text_of_assignmentStep {d : Dialect} {gap name before after rest : Text}
    {parts : List TagPart} (h : assignmentStep d gap name before after = .more parts rest) :
    ∃ value others, parts = .attribute gap name value :: others := by
  unfold assignmentStep at h
  split at h
  · simp at h
  · split at h
    · exact ⟨_, _, (by simpa using h.symm : parts = _ ∧ _).1⟩
    · split at h
      · simp at h
      · exact ⟨_, _, (by simpa using h.symm : parts = _ ∧ _).1⟩

theorem text_of_attributeStep {d : Dialect} {gap rest : Text} {c : Char} {cs : Text}
    {parts : List TagPart} (hc : endsAttributeName c cs = false)
    (h : attributeStep d gap (c :: cs) = .more parts rest) :
    ∃ part others, parts = part :: others ∧ part.text ≠ [] := by
  unfold attributeStep at h
  split at h
  · simp at h
  · rename_i name r hn
    have hne := attributeName_ne_nil hc hn
    split at h
    · obtain ⟨value, others, rfl⟩ := text_of_assignmentStep h
      exact ⟨_, _, rfl, hne⟩
    · obtain ⟨rfl, rfl⟩ := by simpa using h
      exact ⟨_, _, rfl, hne⟩

/-- Each step passes over a name or some stray text. -/
theorem text_of_tagStep {d : Dialect} {s rest : Text} {parts : List TagPart}
    (h : tagStep d s = .more parts rest) :
    ∃ part others, parts = part :: others ∧ part.text ≠ [] := by
  unfold tagStep at h
  split at h
  · simp at h
  · rename_i c cs hd
    split at h
    · simp at h
    · rename_i he
      split at h
      · split at h
        · simp at h
        · exact ⟨_, _, (by simpa using h.symm : parts = _ ∧ _).1, by simp [TagPart.text]⟩
      · rename_i hq
        split at h
        · exact ⟨_, _, (by simpa using h.symm : parts = _ ∧ _).1, by simp [TagPart.text]⟩
        · rename_i hm
          refine text_of_attributeStep ?_ h
          have hb := isBlank_head_afterBlanks hd
          have hn := Quote.ofChar?_eq_none.mp hq
          simp_all [endsAttributeName, endsTag]

theorem length_lt_of_tagStep {d : Dialect} {s rest : Text} {parts : List TagPart}
    (h : tagStep d s = .more parts rest) : rest.length < s.length := by
  obtain ⟨part, others, rfl, hne⟩ := text_of_tagStep h
  have hs := congrArg List.length (tagStep_more h)
  have := part.length_text_le
  have := List.length_pos_iff.mpr hne
  simp only [List.flatMap_cons, List.length_append] at hs
  omega

/-- The inside of an open tag. -/
inductive TagScan where
  | closed (parts : List TagPart) (gap : Text) (slash : Bool) (rest : Text)
  | cutOff (parts : List TagPart)
deriving DecidableEq, Repr

/-- The same with more parts at the front. -/
def TagScan.after (before : List TagPart) : TagScan → TagScan
  | closed parts gap slash rest => closed (before ++ parts) gap slash rest
  | cutOff parts => cutOff (before ++ parts)

def scanTag (d : Dialect) (s : Text) : TagScan :=
  match _h : tagStep d s with
  | .close gap slash rest => .closed [] gap slash rest
  | .cutOff parts => .cutOff parts
  | .more parts rest => (scanTag d rest).after parts
termination_by s.length
decreasing_by exact length_lt_of_tagStep _h

/-- How an open tag ends. -/
def tagEnd (slash : Bool) : Text := if slash then ['/', '>'] else ['>']

theorem tagStep_close {d : Dialect} {s gap rest : Text} {slash : Bool}
    (h : tagStep d s = .close gap slash rest) : s = gap ++ tagEnd slash ++ rest := by
  have hs := blanks_append_afterBlanks s
  unfold tagStep at h
  split at h
  · simp at h
  · rename_i c cs hd
    rw [hd] at hs
    split at h
    · rename_i he
      obtain ⟨rfl, rfl, rfl⟩ := by simpa using h
      obtain rfl | ⟨rfl, ht⟩ := by simpa [endsTag] using he
      · simp [tagEnd, hs]
      · obtain ⟨ds, rfl⟩ := List.head?_eq_some_iff.mp ht
        simp [tagEnd, hs]
    · split at h
      · split at h <;> simp at h
      · split at h
        · simp at h
        · unfold attributeStep assignmentStep at h
          repeat' split at h
          all_goals simp at h

theorem scanTag_closed {d : Dialect} {s gap rest : Text} {slash : Bool} {parts : List TagPart}
    (h : scanTag d s = .closed parts gap slash rest) :
    s = parts.flatMap TagPart.source ++ gap ++ tagEnd slash ++ rest := by
  fun_induction scanTag d s generalizing parts with
  | case1 s g sl r hs =>
    obtain ⟨rfl, rfl, rfl, rfl⟩ := by simpa using h
    simpa using tagStep_close hs
  | case2 => simp at h
  | case3 s ps r hs ih =>
    cases hr : scanTag d r with
    | cutOff qs => simp [hr, TagScan.after] at h
    | closed qs g sl r' =>
      obtain ⟨rfl, rfl, rfl, rfl⟩ := by simpa [hr, TagScan.after] using h
      rw [tagStep_more hs, ih hr]
      simp

/-- What the inside of a close tag goes on with. -/
inductive CloseStep where
  | more (stray : Stray) (rest : Text)
  | close (gap rest : Text)
  | cutOff
deriving DecidableEq, Repr

/-- Whether stray text in a close tag goes on. -/
def inClosingRun (c : Char) : Bool := !isBlank c && c != '>'

def closeStep (s : Text) : CloseStep :=
  match afterBlanks s with
  | [] => .cutOff
  | c :: cs =>
    if c = '>' then .close (blanks s) cs
    else
      match Quote.ofChar? c with
      | some q =>
        match quotedTail q cs with
        | none => .cutOff
        | some (t, rest) => .more ⟨blanks s, c :: t⟩ rest
      | none => .more ⟨blanks s, c :: cs.takeWhile inClosingRun⟩ (cs.dropWhile inClosingRun)

theorem closeStep_more {s rest : Text} {stray : Stray} (h : closeStep s = .more stray rest) :
    s = stray.source ++ rest ∧ stray.text ≠ [] := by
  have hs := blanks_append_afterBlanks s
  unfold closeStep at h
  split at h
  · simp at h
  · rename_i c cs hd
    rw [hd] at hs
    split at h
    · simp at h
    · split at h
      · split at h
        · simp at h
        · rename_i t r ht
          obtain ⟨rfl, rfl⟩ := by simpa using h
          rw [(quotedTail_eq ht).1] at hs
          simp [Stray.source, hs]
      · obtain ⟨rfl, rfl⟩ := by simpa using h
        simp [Stray.source, hs]

theorem length_lt_of_closeStep {s rest : Text} {stray : Stray}
    (h : closeStep s = .more stray rest) : rest.length < s.length := by
  obtain ⟨rfl, hne⟩ := closeStep_more h
  have := List.length_pos_iff.mpr hne
  simp only [Stray.source, List.length_append]
  omega

/-- The inside of a close tag. -/
inductive CloseScan where
  | closed (strays : List Stray) (gap rest : Text)
  | cutOff (strays : List Stray)
deriving DecidableEq, Repr

def CloseScan.after (before : Stray) : CloseScan → CloseScan
  | closed strays gap rest => closed (before :: strays) gap rest
  | cutOff strays => cutOff (before :: strays)

def scanClose (s : Text) : CloseScan :=
  match _h : closeStep s with
  | .close gap rest => .closed [] gap rest
  | .cutOff => .cutOff []
  | .more stray rest => (scanClose rest).after stray
termination_by s.length
decreasing_by exact length_lt_of_closeStep _h

theorem closeStep_close {s gap rest : Text} (h : closeStep s = .close gap rest) :
    s = gap ++ '>' :: rest := by
  have hs := blanks_append_afterBlanks s
  unfold closeStep at h
  split at h
  · simp at h
  · rename_i c cs hd
    rw [hd] at hs
    split at h
    · obtain ⟨rfl, rfl⟩ := by simpa using h
      simp_all
    · split at h
      · split at h <;> simp at h
      · simp at h

theorem scanClose_closed {s gap rest : Text} {strays : List Stray}
    (h : scanClose s = .closed strays gap rest) :
    s = strays.flatMap Stray.source ++ gap ++ '>' :: rest := by
  fun_induction scanClose s generalizing strays with
  | case1 s g r hs =>
    obtain ⟨rfl, rfl, rfl⟩ := by simpa using h
    simpa using closeStep_close hs
  | case2 => simp at h
  | case3 s stray r hs ih =>
    cases hr : scanClose r with
    | cutOff qs => simp [hr, CloseScan.after] at h
    | closed qs g r' =>
      obtain ⟨rfl, rfl, rfl⟩ := by simpa [hr, CloseScan.after] using h
      rw [(closeStep_more hs).1, ih hr]
      simp

end StoreMarkup
