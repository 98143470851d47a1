import StoreMarkup.Construct.Comment
import StoreMarkup.Construct.RawText

/-! Reading a template construct by construct. -/
namespace StoreMarkup

/-- The start of a construct other than text, with what follows the part that tells it. -/
inductive Opener where
  | expression (inner : Text)
  | comment
  | openTag (name rest : Text)
  | closeTag (name rest : Text)
deriving DecidableEq, Repr

/-- A close tag with a name that is read as one. -/
def closeOpener? (d : Dialect) (raw : Option RawText) (s : Text) : Option Opener :=
  match splitName? s with
  | some (name, rest) => if recognizes d raw name true then some (.closeTag name rest) else none
  | none => none

/-- A comment, or an open tag with a name that is read as one. Comments are found everywhere. -/
def openOpener? (d : Dialect) (raw : Option RawText) (s : Text) : Option Opener :=
  match splitName? s with
  | some (name, rest) =>
    if canonicalName name = commentTag then some .comment
    else if recognizes d raw name false then some (.openTag name rest)
    else none
  | none => none

/-- The construct that starts here, unless it is text. -/
def opener? (d : Dialect) (raw : Option RawText) : Text → Option Opener
  | '$' :: '{' :: inner => some (.expression inner)
  | '<' :: '/' :: cs => closeOpener? d raw cs
  | '<' :: cs => openOpener? d raw cs
  | _ => none

/-- The text up to the next construct of another kind, and what follows it. -/
def textRun (d : Dialect) (raw : Option RawText) : Text → Text × Text
  | [] => ([], [])
  | c :: cs =>
    if (opener? d raw (c :: cs)).isSome then ([], c :: cs)
    else
      match textRun d raw cs with
      | (text, rest) => (c :: text, rest)

/-- The first construct of a template and what follows it, or the end of the template. -/
inductive Reading.Step where
  | construct (construct : Construct) (rest : Text)
  | ending (ending : Ending)
deriving DecidableEq, Repr

def Reading.step (d : Dialect) (raw : Option RawText) (s : Text) : Reading.Step :=
  match s with
  | [] => .ending .clean
  | c :: cs =>
    match opener? d raw (c :: cs) with
    | none =>
      match textRun d raw cs with
      | (text, rest) => .construct (.text (c :: text)) rest
    | some (.expression inner) =>
      match expressionBody 0 inner with
      | some (body, rest) => .construct (.expression body) rest
      | none => .ending (.expression (c :: cs))
    | some .comment =>
      match scanComment (c :: cs) with
      | .closed opening content closing rest =>
        .construct (.comment opening content closing) rest
      | .cutOff opening => .ending (.comment opening (c :: cs))
    | some (.openTag name after) =>
      match scanTag d after with
      | .closed parts gap slash rest => .construct (.openTag name parts gap slash) rest
      | .cutOff parts => .ending (.openTag name parts (c :: cs))
    | some (.closeTag name after) =>
      match scanClose after with
      | .closed strays gap rest => .construct (.closeTag name strays gap) rest
      | .cutOff strays => .ending (.closeTag name strays (c :: cs))

theorem splitName?_eq {s name rest : Text} (h : splitName? s = some (name, rest)) :
    s = name ++ rest := by
  unfold splitName? at h
  split at h
  · simp at h
  · split at h
    · obtain ⟨rfl, rfl⟩ := by simpa using h
      exact List.takeWhile_append_dropWhile.symm
    · simp at h

/-- Which construct other than text a text starts with, one rule for each kind. -/
inductive Opens (d : Dialect) (raw : Option RawText) : Text → Opener → Prop
  | expression (inner : Text) : Opens d raw ('$' :: '{' :: inner) (.expression inner)
  | comment {cs name rest : Text} : splitName? cs = some (name, rest) →
      canonicalName name = commentTag → Opens d raw ('<' :: cs) .comment
  | openTag {cs name rest : Text} : splitName? cs = some (name, rest) →
      canonicalName name ≠ commentTag → recognizes d raw name false = true →
      Opens d raw ('<' :: cs) (.openTag name rest)
  | closeTag {cs name rest : Text} : splitName? cs = some (name, rest) →
      recognizes d raw name true = true → Opens d raw ('<' :: '/' :: cs) (.closeTag name rest)

section Opens

variable {d : Dialect} {raw : Option RawText} {s name rest : Text} {o : Opener}

theorem opens_of_opener? (h : opener? d raw s = some o) : Opens d raw s o := by
  unfold opener? closeOpener? openOpener? at h
  split at h
  · cases h
    exact .expression _
  · split at h
    · rename_i hs
      split at h
      · cases h
        exact .closeTag hs ‹_›
      · cases h
    · cases h
  · split at h
    · rename_i hs
      split at h
      · cases h
        exact .comment hs ‹_›
      · split at h
        · cases h
          exact .openTag hs ‹_› ‹_›
        · cases h
    · cases h
  · cases h

theorem opener?_open (h : s.head? ≠ some '/') : opener? d raw ('<' :: s) = openOpener? d raw s := by
  rw [opener?]
  rintro cs rfl
  exact h rfl

theorem head?_ne_slash_of_splitName? (h : splitName? s = some (name, rest)) :
    s.head? ≠ some '/' := by
  intro hs
  obtain ⟨cs, rfl⟩ := List.head?_eq_some_iff.mp hs
  cases h

theorem opener?_of_opens (h : Opens d raw s o) : opener? d raw s = some o := by
  cases h with
  | expression inner => rfl
  | comment hs hname =>
    rw [opener?_open (head?_ne_slash_of_splitName? hs), openOpener?, hs]
    simp [hname]
  | openTag hs hne hname =>
    rw [opener?_open (head?_ne_slash_of_splitName? hs), openOpener?, hs]
    simp [hne, hname]
  | closeTag hs hname => simp [opener?, closeOpener?, hs, hname]

theorem opener?_expression (h : opener? d raw s = some (.expression rest)) :
    s = '$' :: '{' :: rest := by
  cases opens_of_opener? h
  rfl

theorem opener?_openTag (h : opener? d raw s = some (.openTag name rest)) :
    s = '<' :: name ++ rest := by
  cases opens_of_opener? h with
  | openTag hs _ _ => simp [splitName?_eq hs]

theorem opener?_closeTag (h : opener? d raw s = some (.closeTag name rest)) :
    s = '<' :: '/' :: name ++ rest := by
  cases opens_of_opener? h with
  | closeTag hs _ => simp [splitName?_eq hs]

end Opens

theorem textRun_eq (d : Dialect) (raw : Option RawText) (s : Text) :
    (textRun d raw s).1 ++ (textRun d raw s).2 = s := by
  fun_induction textRun d raw s with
  | case1 => rfl
  | case2 => rfl
  | case3 c cs _ text rest h ih => simpa [h] using ih

/-- What the first step of reading gives, one rule for each way that it goes. -/
inductive Reading.Reads (d : Dialect) (raw : Option RawText) : Text → Reading.Step → Prop
  | clean : Reads d raw [] (.ending .clean)
  | text {c : Char} {cs text rest : Text} : opener? d raw (c :: cs) = none →
      textRun d raw cs = (text, rest) → Reads d raw (c :: cs) (.construct (.text (c :: text)) rest)
  | expression {s inner body rest : Text} : opener? d raw s = some (.expression inner) →
      expressionBody 0 inner = some (body, rest) →
        Reads d raw s (.construct (.expression body) rest)
  | unclosedExpression {s inner : Text} : opener? d raw s = some (.expression inner) →
      expressionBody 0 inner = none → Reads d raw s (.ending (.expression s))
  | comment {s opening content closing rest : Text} : opener? d raw s = some .comment →
      scanComment s = .closed opening content closing rest →
      Reads d raw s (.construct (.comment opening content closing) rest)
  | unclosedComment {s : Text} {opening : Option Text} : opener? d raw s = some .comment →
      scanComment s = .cutOff opening → Reads d raw s (.ending (.comment opening s))
  | openTag {s name after gap rest : Text} {parts : List TagPart} {slash : Bool} :
      opener? d raw s = some (.openTag name after) →
      scanTag d after = .closed parts gap slash rest →
      Reads d raw s (.construct (.openTag name parts gap slash) rest)
  | unclosedOpenTag {s name after : Text} {parts : List TagPart} :
      opener? d raw s = some (.openTag name after) → scanTag d after = .cutOff parts →
      Reads d raw s (.ending (.openTag name parts s))
  | closeTag {s name after gap rest : Text} {strays : List Stray} :
      opener? d raw s = some (.closeTag name after) → scanClose after = .closed strays gap rest →
      Reads d raw s (.construct (.closeTag name strays gap) rest)
  | unclosedCloseTag {s name after : Text} {strays : List Stray} :
      opener? d raw s = some (.closeTag name after) → scanClose after = .cutOff strays →
      Reads d raw s (.ending (.closeTag name strays s))

theorem Reading.reads_step (d : Dialect) (raw : Option RawText) (s : Text) :
    Reads d raw s (step d raw s) := by
  unfold step
  split
  · exact .clean
  · split
    · rename_i ho
      exact .text ho rfl
    all_goals
      rename_i ho
      split
      all_goals rename_i hscan
    · exact .expression ho hscan
    · exact .unclosedExpression ho hscan
    · exact .comment ho hscan
    · exact .unclosedComment ho hscan
    · exact .openTag ho hscan
    · exact .unclosedOpenTag ho hscan
    · exact .closeTag ho hscan
    · exact .unclosedCloseTag ho hscan

theorem Reading.reads_of_step {d : Dialect} {raw : Option RawText} {s : Text} {r : Step}
    (h : step d raw s = r) : Reads d raw s r := h ▸ reads_step d raw s

theorem Reading.step_of_reads {d : Dialect} {raw : Option RawText} {s : Text} {r : Step}
    (h : Reads d raw s r) : step d raw s = r := by
  cases s with
  | nil =>
    cases h with
    | clean => rfl
    | _ ho => cases ho
  | cons c cs => cases h <;> simp [step, *]

/-- The construct is what the step passes over, and it is never empty. -/
theorem Reading.step_construct {d : Dialect} {raw : Option RawText} {s rest : Text} {c : Construct}
    (h : Reading.step d raw s = .construct c rest) : s = c.source ++ rest ∧ c.source ≠ [] := by
  cases reads_of_step h with
  | @text c cs text rest _ hrun =>
    have htext := textRun_eq d raw cs
    rw [hrun] at htext
    simp [Construct.source, htext]
  | expression ho hbody =>
    cases opens_of_opener? ho
    simp [expressionBody_eq hbody, Construct.source, Delimiter.opening, Delimiter.closing]
  | comment _ hscan =>
    obtain ⟨he, hne⟩ := scanComment_closed hscan
    simp [Construct.source, he, hne]
  | openTag ho hscan =>
    rw [opener?_openTag ho, scanTag_closed hscan]
    simp [Construct.source]
  | closeTag ho hscan =>
    rw [opener?_closeTag ho, scanClose_closed hscan]
    simp [Construct.source]

theorem Reading.length_lt_of_step {d : Dialect} {raw : Option RawText} {s rest : Text}
    {c : Construct} (h : Reading.step d raw s = .construct c rest) : rest.length < s.length := by
  obtain ⟨rfl, hne⟩ := step_construct h
  have := List.length_pos_iff.mpr hne
  simp only [List.length_append]
  omega

/-- Reads a template that starts in the given raw text, if any. -/
def Reading.inRawText (d : Dialect) (raw : Option RawText) (s : Text) : Reading :=
  match _h : Reading.step d raw s with
  | .ending ending => ⟨[], ending⟩
  | .construct c rest =>
    let after := Reading.inRawText d (RawText.after d raw c) rest
    ⟨c :: after.constructs, after.ending⟩
termination_by s.length
decreasing_by exact length_lt_of_step _h

/-- Reads a template. -/
def Reading.ofText (d : Dialect) (s : Text) : Reading := .inRawText d none s

end StoreMarkup
