import StoreMarkup.Document
import StoreMarkup.Proofs.Boundaries
import StoreMarkup.Proofs.Elements
import StoreMarkup.Proofs.RawText

/-! Runs of text are as long as they can be: a run ends where another construct starts, and none
starts inside it. What starts a construct is said here by the characters alone. -/
namespace StoreMarkup

/-- What stands before the name in a tag. -/
def tagMark (closing : Bool) : Text := if closing then ['<', '/'] else ['<']

/-- The names of tags that are read as tags: those of ISML, outside raw text all if HTML is read,
and in raw text that of its own close tag. -/
def Known (d : Dialect) (raw : Option RawText) (closing : Bool) (name : Text) : Prop :=
  ['i', 's'] <+: lower name ∨ (raw = none ∧ d.htmlTags = true) ∨
    (closing = true ∧ ∃ r, raw = some r ∧ lower name = r.tag)

/-- A text that starts with a construct other than text. -/
inductive Opening (d : Dialect) (raw : Option RawText) : Text → Prop
  | expression (inner : Text) : Opening d raw ('$' :: '{' :: inner)
  | tag {closing : Bool} {name after : Text} : TagName name after → Known d raw closing name →
      Opening d raw (tagMark closing ++ name ++ after)

section Opening

variable {d : Dialect} {raw : Option RawText} {closing : Bool} {c : Char} {s name after : Text}

theorem exists_tagName (hc : c.isAlpha = true) (s : Text) :
    ∃ name after, c :: s = name ++ after ∧ TagName name after := by
  have h : splitName? (c :: s) =
      some ((c :: s).takeWhile isNameChar, (c :: s).dropWhile isNameChar) :=
    if_pos hc
  exact ⟨_, _, splitName?_eq_some_iff.mp h⟩

theorem recognizes_iff : recognizes d raw name closing = true ↔ Known d raw closing name := by
  have hisml : isIsmlTag name = true ↔ ['i', 's'] <+: lower name := List.isPrefixOf_iff_prefix
  cases raw with
  | none => simp [recognizes, Known, hisml, or_comm]
  | some r => simp [recognizes, Known, hisml, canonicalName]

/-- A construct other than text is found exactly where one starts. -/
theorem isSome_opener?_iff : (opener? d raw s).isSome = true ↔ Opening d raw s := by
  rw [Option.isSome_iff_exists]
  constructor
  · rintro ⟨o, ho⟩
    cases opens_of_opener? ho with
    | expression inner => exact .expression inner
    -- The name of comments is one of ISML, so that they are read everywhere.
    | comment hs hname =>
      obtain ⟨rfl, htag⟩ := splitName?_eq_some_iff.mp hs
      have hisml : Known d raw false _ := Or.inl ⟨"comment".toList, hname.symm⟩
      exact .tag htag hisml
    | openTag hs _ hname =>
      obtain ⟨rfl, htag⟩ := splitName?_eq_some_iff.mp hs
      exact .tag htag (recognizes_iff.mp hname)
    | closeTag hs hname =>
      obtain ⟨rfl, htag⟩ := splitName?_eq_some_iff.mp hs
      exact .tag htag (recognizes_iff.mp hname)
  · rintro (⟨inner⟩ | ⟨hs, hknown⟩)
    · exact ⟨_, opener?_of_opens (.expression inner)⟩
    · rename_i closing name after
      have hsplit := splitName?_eq_some_iff.mpr ⟨rfl, hs⟩
      have hname := recognizes_iff.mpr hknown
      cases closing with
      | true => exact ⟨_, opener?_of_opens (.closeTag hsplit hname)⟩
      | false =>
        by_cases hcomment : canonicalName name = commentTag
        · exact ⟨_, opener?_of_opens (.comment hsplit hcomment)⟩
        · exact ⟨_, opener?_of_opens (.openTag hsplit hcomment hname)⟩

end Opening

/-- Text that the source goes on after with `after`, as long as it can be: another construct starts
right behind it and none at any of its characters. -/
structure MaximalText (d : Dialect) (raw : Option RawText) (text after : Text) : Prop where
  nonempty : text ≠ []
  stops : after = [] ∨ Opening d raw after
  noExpression : ¬ ['$', '{'] <:+: text
  noTag : raw = none → d.htmlTags = true → ∀ c : Char, c.isAlpha = true →
    ¬ ['<', c] <:+: text ∧ ¬ ['<', '/', c] <:+: text
  noIsml : ∀ v, v <:+ text → v ≠ [] → ∀ closing name rest,
    v ++ after = tagMark closing ++ name ++ rest →
    TagName name rest → ¬ ['i', 's'] <+: lower name
  noEnd : ∀ r, raw = some r → ∀ v, v <:+ text → v ≠ [] → ∀ name rest,
    v ++ after = tagMark true ++ name ++ rest → TagName name rest → lower name ≠ r.tag

section MaximalText

variable {d : Dialect} {raw : Option RawText} {s text after v : Text}

/-- Nothing but text starts inside a run of text. -/
theorem opener?_eq_none_of_textRun (h : textRun d raw s = (text, after)) (hv : v <:+ text)
    (hne : v ≠ []) :
    opener? d raw (v ++ after) = none := by
  induction text generalizing s with
  | nil => exact (hne (List.suffix_nil.mp hv)).elim
  | cons c text ih =>
    cases s with
    | nil => cases h
    | cons b s =>
      simp only [textRun] at h
      split at h
      · cases h
      · rename_i hnone
        obtain ⟨⟨rfl, htext⟩, hafter⟩ := by simpa using h
        have hrun : textRun d raw s = (text, after) := Prod.ext htext hafter
        rcases List.suffix_cons_iff.mp hv with rfl | hv
        · have hs : text ++ after = s := by simpa [hrun] using textRun_eq d raw s
          rw [List.cons_append, hs]
          exact Option.not_isSome_iff_eq_none.mp hnone
        · exact ih hrun hv

theorem maximalText_of_textRun (h : textRun d raw s = (text, after)) (hne : text ≠ []) :
    MaximalText d raw text after := by
  have hinside : ∀ v, v <:+ text → v ≠ [] → ¬ Opening d raw (v ++ after) := by
    intro v hv hv' hopening
    rw [← isSome_opener?_iff, opener?_eq_none_of_textRun h hv hv'] at hopening
    cases hopening
  have hstops := textRun_stops d raw s
  rw [h, isSome_opener?_iff] at hstops
  refine ⟨hne, hstops, ?_, ?_, ?_, ?_⟩
  · rintro ⟨u, w, rfl⟩
    refine hinside (['$', '{'] ++ w) ⟨u, by simp⟩ (by simp) ?_
    exact .expression (w ++ after)
  · intro hraw hhtml c hc
    have htag : ∀ closing, ¬ tagMark closing ++ [c] <:+: text := by
      rintro closing ⟨u, w, rfl⟩
      obtain ⟨name, rest, hname, htag⟩ := exists_tagName hc (w ++ after)
      refine hinside (tagMark closing ++ [c] ++ w) ⟨u, by simp⟩ (by simp) ?_
      have hopening := Opening.tag htag (Or.inr (Or.inl ⟨hraw, hhtml⟩) : Known d raw closing name)
      rw [List.append_assoc, ← hname] at hopening
      simpa using hopening
    exact ⟨htag false, htag true⟩
  · intro v hv hv' closing name rest hsplit htag hisml
    refine hinside v hv hv' ?_
    rw [hsplit]
    exact .tag htag (Or.inl hisml)
  · intro r hraw v hv hv' name rest hsplit htag hown
    refine hinside v hv hv' ?_
    rw [hsplit]
    exact .tag htag (Or.inr (Or.inr ⟨rfl, r, hraw, hown⟩))

theorem maximalText_of_step (h : Reading.step d raw s = .construct (.text text) after) :
    MaximalText d raw text after := by
  cases Reading.reads_of_step h with
  | @text c cs text _ hnone hrun =>
    refine maximalText_of_textRun (s := c :: cs) ?_ (List.cons_ne_nil c text)
    simp [textRun, hnone, hrun]

end MaximalText

theorem Item.eq_text {ks : List TokenKind} (h : Item ks) (hlast : ks.getLast? = some .text) :
    ks = [.text] := by
  cases h with
  | text => rfl
  | openTag => cases List.getLast?_concat.symm.trans hlast
  | closeTag => cases List.getLast?_concat.symm.trans hlast
  | expression => cases hlast
  | comment => cases hlast

theorem Item.ne_nil {ks : List TokenKind} (h : Item ks) : ks ≠ [] := by
  cases h <;> simp

/-- A construct that ends with the token of a text is that text. -/
theorem Construct.eq_text_of_tokens {p : Position} {c : Construct} {ts : List Token} {t : Token}
    (h : c.tokens p = ts ++ [t]) (ht : t.kind = .text) : ts = [] ∧ c = .text t.text := by
  have hlast : ((c.tokens p).map Token.kind).getLast? = some .text := by simp [h, ht]
  have hkinds := (c.item_tokens p).eq_text hlast
  have htext := isText_of_kinds hkinds
  cases c with
  | text content =>
    obtain ⟨rfl, rfl⟩ : ts = [] ∧ t = Token.place p .text content := by
      simpa [tokens, List.singleton_eq_append_iff] using h
    exact ⟨rfl, rfl⟩
  | _ => cases htext

namespace Lexer

variable {d : Dialect} {s : Text}

/-- The token of a text is all that is given of a construct, and leaves the raw text as it was. -/
theorem exists_text_of_pull {ts : List Token} {l : Lexer} {given : Token × Lexer}
    (h : Gives (start d s) ts l) (hpull : l.pull = some given) (htext : given.1.kind = .text) :
    ∃ cs ds, (Reading.ofText d s).constructs = cs ++ .text given.1.text :: ds ∧
      given.1.span.stop.offset = (cs.flatMap Construct.source).length + given.1.text.length ∧
      given.2.raw = cs.foldl (RawText.after d) none := by
  have hgives : Gives (between d [] s none .markup) (ts ++ [given.1]) given.2 :=
    h.trans (.single hpull)
  -- After the text the lexer is between two constructs, of which the first is the text.
  have hmode : given.2.mode = .markup := (tells_of_pull hpull).mpr (by rw [htext]; rfl)
  obtain ⟨cs, ds, hsplit, htokens⟩ := exists_eq_constructTokens hgives hmode
  obtain ⟨rest, hafter, -⟩ := gives_constructs [] hsplit
  rw [htokens] at hgives
  have hraw : given.2.raw = cs.foldl (RawText.after d) none := by
    rw [hgives.unique hafter]
    rfl
  rcases List.eq_nil_or_concat' cs with rfl | ⟨cs, c, rfl⟩
  · simp at htokens
  · rw [constructTokens_append, constructTokens_cons, constructTokens_nil, List.append_nil]
      at htokens
    obtain ⟨us, t, hus⟩ := (List.eq_nil_or_concat' (c.tokens _)).resolve_left
      fun hnil => (c.item_tokens _).ne_nil (List.map_eq_nil_iff.mpr hnil)
    rw [hus, ← List.append_assoc] at htokens
    obtain rfl : given.1 = t := by simpa using (List.append_inj' htokens rfl).2
    obtain ⟨rfl, rfl⟩ := Construct.eq_text_of_tokens hus htext
    refine ⟨cs, ds, by simpa [Reading.ofText] using hsplit, ?_, ?_⟩
    · have hstop := congrArg Token.span (List.singleton_inj.mp hus)
      rw [← hstop]
      simp [Token.place, Span.covering, Position.start]
    · rw [hraw, List.foldl_concat]
      rfl

theorem maximalText_of_pull {ts : List Token} {l : Lexer} {given : Token × Lexer}
    (h : Gives (start d s) ts l) (hpull : l.pull = some given) (htext : given.1.kind = .text) :
    MaximalText d given.2.raw given.1.text (s.drop given.1.span.stop.offset) := by
  obtain ⟨cs, ds, hsplit, hstop, hraw⟩ := exists_text_of_pull h hpull htext
  obtain ⟨rest, -, hrest⟩ := gives_constructs [] hsplit
  obtain ⟨after, hstep, -⟩ := Reading.step_of_inRawText hrest
  have hs := Reading.source_split hsplit hrest
  rw [(Reading.step_construct hstep).1] at hs
  have hafter : s.drop given.1.span.stop.offset = after := by
    rw [hs, hstop, ← List.append_assoc]
    exact List.drop_left' List.length_append
  rw [hafter, hraw]
  exact maximalText_of_step hstep

end Lexer

/-- Without HTML every element has an ISML name. -/
theorem Document.eachElement_isml {d : Dialect} (h : d.htmlTags = false) (name : Option String)
    (s : Text) :
    Node.EachElement (fun e _ => ['i', 's'] <+: e.tag) (parse d name s).children := by
  intro e children he
  obtain ⟨x, hx, tagName, parts, gap, slash, hvalue, htag, -⟩ :=
    Nesting.makes_ofReading (.ofText d s) e children he
  obtain ⟨raw, hstep⟩ := Reading.exists_step (value_mem_of_mem_locate hx)
  rw [hvalue] at hstep
  have hknown := recognizes_iff.mp (Reading.recognized_of_step hstep)
  rw [htag]
  rcases hknown with hisml | ⟨-, hhtml⟩ | ⟨hclosing, -⟩
  · exact hisml
  · rw [h] at hhtml
    cases hhtml
  · cases hclosing

/-- Every text that a lexer gives is as long as it can be, in the raw text that the lexer is in
then. Without HTML only ISML tags become elements. -/
theorem Lexer.text_isMaximal (d : Dialect) (s : Text) :
    (∀ n, ∀ given ∈ pulls n (start d s), given.1.kind = .text →
      MaximalText d given.2.raw given.1.text (s.drop given.1.span.stop.offset)) ∧
    (d.htmlTags = false → ∀ name, Node.EachElement (fun e _ => ['i', 's'] <+: e.tag)
      (Document.parse d name s).children) := by
  refine ⟨?_, fun h name => Document.eachElement_isml h name s⟩
  intro n given hmem htext
  obtain ⟨ts, l, hgives, hpull⟩ := exists_of_mem_pulls hmem
  exact maximalText_of_pull hgives hpull htext

/-- Other tags are text in a script, and without HTML everywhere. -/
theorem Lexer.text_isMaximal_in_script :
    (∃ given ∈ pulls 3 (start {} "<script>a</b>${c}".toList), given.1.kind = .text ∧
      given.1.text = "a</b>".toList ∧ given.2.raw = some ⟨"script".toList, 0⟩ ∧
      MaximalText {} given.2.raw given.1.text
        ("<script>a</b>${c}".toList.drop given.1.span.stop.offset)) ∧
    ((Document.parse { htmlTags := false } none "<b><isset></b>".toList).maxDepth = 1 ∧
      Node.EachElement (fun e _ => ['i', 's'] <+: e.tag)
        (Document.parse { htmlTags := false } none "<b><isset></b>".toList).children) := by
  have htoken : ∃ given ∈ pulls 3 (start {} "<script>a</b>${c}".toList), given.1.kind = .text ∧
      given.1.text = "a</b>".toList ∧ given.2.raw = some ⟨"script".toList, 0⟩ := by decide +kernel
  obtain ⟨given, hmem, hkind, htext, hraw⟩ := htoken
  refine ⟨⟨given, hmem, hkind, htext, hraw, (text_isMaximal {} _).1 3 given hmem hkind⟩, ?_, ?_⟩
  · decide +kernel
  · exact (text_isMaximal { htmlTags := false } _).2 rfl none

end StoreMarkup
