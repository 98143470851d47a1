import StoreMarkup.Proofs.LetterCase
import StoreMarkup.Proofs.ProblemPlaces
import StoreMarkup.Proofs.TextRuns
import StoreMarkup.Proofs.Unterminated

/-! How far comments reach, said by the characters alone: up to the first bracket, and from there up
to the first close tag. -/
namespace StoreMarkup

/-- The close tag of a comment, in any case, with blanks before its bracket. -/
def ClosesComment (t : Text) : Prop :=
  ∃ mark gap, t = mark ++ gap ++ ['>'] ∧ mark.uncased = "</iscomment".toList ∧ Blank gap

/-- A text that starts with the close tag of a comment. -/
def StartsClosing (s : Text) : Prop := ∃ t rest, s = t ++ rest ∧ ClosesComment t

/-- How far a comment reaches that a text starts with. -/
inductive CommentExtent : Text → CommentScan → Prop
  /-- There is no bracket. -/
  | unopened {s : Text} : '>' ∉ s → CommentExtent s (.cutOff none)
  /-- A slash stands before the first bracket. -/
  | empty {u rest : Text} : '>' ∉ u → u.getLast? = some '/' →
      CommentExtent (u ++ '>' :: rest) (.closed (u ++ ['>']) [] [] rest)
  /-- The content goes on up to the first place where a close tag starts. -/
  | closed {u content closing rest : Text} :
      '>' ∉ u → u.getLast? ≠ some '/' → ClosesComment closing →
      (∀ v, v <:+ content → v ≠ [] → ¬ StartsClosing (v ++ (closing ++ rest))) →
      CommentExtent (u ++ '>' :: (content ++ (closing ++ rest)))
        (.closed (u ++ ['>']) content closing rest)
  /-- No close tag starts anywhere. -/
  | unclosed {u after : Text} :
      '>' ∉ u → u.getLast? ≠ some '/' → (∀ v, v <:+ after → ¬ StartsClosing v) →
      CommentExtent (u ++ '>' :: after) (.cutOff (some (u ++ ['>'])))

section Scan

variable {s t u rest content closing : Text}

theorem throughBracket?_of_notMem (h : '>' ∉ u) (rest : Text) :
    throughBracket? (u ++ '>' :: rest) = some (u ++ ['>'], rest) := by
  induction u with
  | nil => rfl
  | cons c u ih =>
    obtain ⟨hc, hu⟩ := not_or.mp (mt List.mem_cons.mpr h)
    rw [List.cons_append, throughBracket?, if_neg (Ne.symm hc), ih hu]
    rfl

theorem throughBracket?_eq_none (h : '>' ∉ s) : throughBracket? s = none := by
  induction s with
  | nil => rfl
  | cons c s ih =>
    obtain ⟨hc, hs⟩ := not_or.mp (mt List.mem_cons.mpr h)
    rw [throughBracket?, if_neg (Ne.symm hc), ih hs]
    rfl

theorem slash_suffix_iff : ['/', '>'].isSuffixOf (u ++ ['>']) = true ↔ u.getLast? = some '/' := by
  rw [List.isSuffixOf_iff_suffix, List.getLast?_eq_some_iff]
  constructor
  · rintro ⟨w, hw⟩
    rw [List.append_cons] at hw
    exact ⟨w, (List.append_inj_left' hw rfl).symm⟩
  · rintro ⟨w, rfl⟩
    exact ⟨w, by simp⟩

theorem ownCase_commentClosing : ∀ c ∈ commentClosing, OwnCase c := by
  have hall : (commentClosing.all fun c => OwnCase c) = true := by decide
  intro c hc
  exact of_decide_eq_true (List.all_eq_true.mp hall c hc)

theorem ownCase_commentTag : ∀ c ∈ commentTag, OwnCase c := by
  intro c hc
  exact ownCase_commentClosing c (List.mem_cons_of_mem _ (List.mem_cons_of_mem _ hc))

theorem commentCloser?_eq_some_iff :
    commentCloser? s = some (closing, rest) ↔ s = closing ++ rest ∧ ClosesComment closing := by
  have hcase : ∀ t, lower t = commentClosing ↔ Text.uncased t = commentClosing := fun t =>
    lower_eq_iff ownCase_commentClosing (by decide)
  constructor
  · intro h
    refine ⟨commentCloser?_eq h, ?_⟩
    simp only [commentCloser?] at h
    split at h
    · rename_i hmark
      split at h
      · cases h
        exact ⟨_, _, rfl, (hcase _).mp (beq_iff_eq.mp hmark), blank_blanks _⟩
      · cases h
    · cases h
  · rintro ⟨rfl, mark, gap, rfl, hmark, hgap⟩
    have hlength : mark.length = commentClosing.length := by
      rw [← length_uncased mark, hmark]
      rfl
    have hbracket : isBlank '>' = false := by decide
    have hsource : mark ++ gap ++ ['>'] ++ rest = mark ++ (gap ++ '>' :: rest) := by simp
    have hlower : lower mark = commentClosing := (hcase mark).mpr hmark
    rw [hsource]
    simp only [commentCloser?, ← hlength, List.take_left, List.drop_left, hlower, beq_self_eq_true,
      if_true, blanks_append hgap hbracket, afterBlanks_append hgap hbracket]

theorem startsClosing_iff : StartsClosing s ↔ (commentCloser? s).isSome = true := by
  rw [Option.isSome_iff_exists]
  constructor
  · rintro ⟨t, rest, hs, ht⟩
    exact ⟨(t, rest), commentCloser?_eq_some_iff.mpr ⟨hs, ht⟩⟩
  · rintro ⟨found, hfound⟩
    exact ⟨found.1, found.2, commentCloser?_eq_some_iff.mp hfound⟩

theorem not_startsClosing_nil : ¬ StartsClosing [] := by
  rw [startsClosing_iff]
  decide

theorem not_startsClosing_of_none (h : commentCloser? s = none) : ¬ StartsClosing s := by
  rw [startsClosing_iff, h]
  exact Bool.false_ne_true

/-- The content of a comment ends where the first close tag starts. -/
theorem commentBody?_eq_some_iff : commentBody? s = some (content, closing, rest) ↔
    s = content ++ (closing ++ rest) ∧ ClosesComment closing ∧
      ∀ v, v <:+ content → v ≠ [] → ¬ StartsClosing (v ++ (closing ++ rest)) := by
  induction s generalizing content with
  | nil =>
    constructor
    · intro h
      cases h
    · rintro ⟨hnil, hclosing, -⟩
      obtain ⟨-, hnil⟩ := List.append_eq_nil_iff.mp hnil.symm
      exact (not_startsClosing_nil ⟨closing, rest, hnil.symm, hclosing⟩).elim
  | cons c s ih =>
    rw [commentBody?]
    cases hcloser : commentCloser? (c :: s) with
    | some found =>
      have hfound := commentCloser?_eq_some_iff.mp (hcloser.trans rfl : _ = some (found.1, found.2))
      constructor
      · intro h
        cases h
        refine ⟨hfound.1, hfound.2, ?_⟩
        intro v hv hne
        exact (hne (List.suffix_nil.mp hv)).elim
      · rintro ⟨hs, hclosing, hfirst⟩
        -- A longer content would have a close tag at its first character.
        obtain rfl : content = [] := by
          by_contra hne
          refine hfirst content (List.suffix_refl _) hne ?_
          rw [← hs]
          exact ⟨_, _, hfound⟩
        rw [List.nil_append] at hs
        have hsame := hcloser.symm.trans (commentCloser?_eq_some_iff.mpr ⟨hs, hclosing⟩)
        rw [Option.some.inj hsame]
    | none =>
      have hnot := not_startsClosing_of_none hcloser
      simp only [Option.map_eq_some_iff]
      constructor
      · rintro ⟨⟨content', closing', rest'⟩, hbody, heq⟩
        cases heq
        obtain ⟨rfl, hclosing, hfirst⟩ := ih.mp hbody
        refine ⟨rfl, hclosing, ?_⟩
        intro v hv hne
        rcases List.suffix_cons_iff.mp hv with rfl | hv
        · exact hnot
        · exact hfirst v hv hne
      · rintro ⟨hs, hclosing, hfirst⟩
        cases content with
        | nil => exact (hnot ⟨closing, rest, hs, hclosing⟩).elim
        | cons b content =>
          obtain ⟨rfl, rfl⟩ := List.cons.inj hs
          refine ⟨(content, closing, rest), ih.mpr ⟨rfl, hclosing, ?_⟩, rfl⟩
          intro v hv
          exact hfirst v (hv.trans (List.suffix_cons c content))

/-- A comment does not end exactly if no close tag starts anywhere. -/
theorem commentBody?_eq_none_iff : commentBody? s = none ↔ ∀ v, v <:+ s → ¬ StartsClosing v := by
  induction s with
  | nil => simpa [commentBody?] using not_startsClosing_nil
  | cons c s ih =>
    rw [commentBody?]
    cases hcloser : commentCloser? (c :: s) with
    | some found =>
      constructor
      · intro h
        cases h
      · intro h
        refine (h (c :: s) (List.suffix_refl _) ?_).elim
        rw [startsClosing_iff, hcloser]
        rfl
    | none =>
      rw [Option.map_eq_none_iff, ih]
      constructor
      · intro h v hv
        rcases List.suffix_cons_iff.mp hv with rfl | hv
        · exact not_startsClosing_of_none hcloser
        · exact h v hv
      · intro h v hv
        exact h v (hv.trans (List.suffix_cons c s))

/-- The scan of a comment finds how far it reaches. -/
theorem commentExtent_iff {scan : CommentScan} : CommentExtent s scan ↔ scanComment s = scan := by
  constructor
  · intro h
    cases h with
    | unopened hs => rw [scanComment, throughBracket?_eq_none hs]
    | empty hu hslash =>
      simp only [scanComment, throughBracket?_of_notMem hu, slash_suffix_iff.mpr hslash, if_true]
    | closed hu hslash hclosing hfirst =>
      have hbody := commentBody?_eq_some_iff.mpr ⟨rfl, hclosing, hfirst⟩
      simp only [scanComment, throughBracket?_of_notMem hu, slash_suffix_iff, hslash,
        if_false, hbody]
    | unclosed hu hslash hnone =>
      have hbody := commentBody?_eq_none_iff.mpr hnone
      simp only [scanComment, throughBracket?_of_notMem hu, slash_suffix_iff, hslash,
        if_false, hbody]
  · rintro rfl
    by_cases hmem : '>' ∈ s
    · obtain ⟨u, rest, rfl, hu⟩ := List.eq_append_cons_of_mem hmem
      simp only [scanComment, throughBracket?_of_notMem hu, slash_suffix_iff]
      split
      · exact .empty hu ‹_›
      · split
        · exact .unclosed hu ‹_› (commentBody?_eq_none_iff.mp ‹_›)
        · rename_i hbody
          obtain ⟨rfl, hclosing, hfirst⟩ := commentBody?_eq_some_iff.mp hbody
          exact .closed hu ‹_› hclosing hfirst
    · rw [scanComment, throughBracket?_eq_none hmem]
      exact .unopened hmem

end Scan

namespace Lexer

/-- A lexer gives the three tokens of a comment and is then as it was, behind the comment. -/
def GivesComment (l : Lexer) (opening content closing rest : Text) : Prop :=
  ∃ next, Gives l (Token.placeAll l.cursor.position
      [(.commentStart, opening), (.commentContent, content), (.commentEnd, closing)]) next ∧
    next.cursor.rest = rest ∧ next.raw = l.raw ∧ next.mode = .markup

/-- A lexer gives all that is left with its last token, after the open tag of a comment if that was
finished. -/
def GivesUnfinished (l : Lexer) (opening : Option Text) : Prop :=
  ∃ last, Gives l (opening.toList.map (Token.place l.cursor.position .commentStart) ++
      [.place l.cursor.position (.endOfInput (some .comment)) l.cursor.rest]) last ∧
        last.mode = .done

/-- What becomes of a comment that a lexer meets. A complete one has its tokens, and no diagnostic
is about anything in it. An unfinished one is reported and becomes the last text. -/
def CommentOutcome (doc : Document) (l : Lexer) : CommentScan → Prop
  | .closed opening content closing rest => l.GivesComment opening content closing rest ∧
      ∀ x ∈ doc.diagnostics, x.span.stop.offset ≤ l.cursor.position.offset ∨
        l.cursor.position.offset + (opening ++ content ++ closing).length ≤ x.span.start.offset
  | .cutOff opening => l.GivesUnfinished opening ∧
      (Node.walk doc.children).getLast? =
        some (.text l.cursor.rest (.covering l.cursor.position l.cursor.rest)) ∧
      (∃ x ∈ doc.diagnostics, x.code = .unterminatedComment ∧ x.span.start = l.cursor.position) ∧
      ∀ x ∈ doc.diagnostics,
        x.span.stop.offset ≤ l.cursor.position.offset ∨ x.code = .unterminatedComment

section Outcome

variable {d : Dialect} {source : Option String} {s w opening content closing rest : Text}
  {cs ds : List Construct} {raw : Option RawText}

theorem outcome_closed (hsplit : (Reading.ofText d s).constructs = cs ++ ds)
    (hread : Reading.inRawText d raw w = ⟨ds, (Reading.ofText d s).ending⟩)
    (ho : opener? d raw w = some .comment)
    (hscan : scanComment w = .closed opening content closing rest) :
    (between d (cs.flatMap Construct.source) w raw .markup).CommentOutcome (.parse d source s)
      (.closed opening content closing rest) := by
  have hgives : GivesNext d (cs.flatMap Construct.source) w raw _ _ := gives_comment ho
  rw [hscan] at hgives
  refine ⟨⟨_, hgives, rest_between, rfl, rfl⟩, ?_⟩
  have hstep := Reading.step_of_reads (.comment ho hscan)
  rw [Reading.inRawText_of_step hstep] at hread
  obtain rfl := congrArg Reading.constructs hread
  intro x hx
  obtain ⟨q, hq, rfl⟩ := (Document.mem_diagnostics d source s).mp hx
  have houtside := (Reading.reports_of_mem hq).outside hsplit rfl (fun _ => rfl)
  rw [position_between, Position.offset_advance, Position.start, Nat.zero_add]
  exact houtside

theorem outcome_cutOff {opening : Option Text} (hsplit : (Reading.ofText d s).constructs = cs ++ ds)
    (hread : Reading.inRawText d raw w = ⟨ds, (Reading.ofText d s).ending⟩)
    (ho : opener? d raw w = some .comment) (hscan : scanComment w = .cutOff opening) :
    (between d (cs.flatMap Construct.source) w raw .markup).CommentOutcome (.parse d source s)
      (.cutOff opening) := by
  have hgives : GivesNext d (cs.flatMap Construct.source) w raw _ _ := gives_comment ho
  rw [hscan] at hgives
  have hstep := Reading.step_of_reads (.unclosedComment ho hscan)
  rw [Reading.inRawText_of_ending hstep] at hread
  obtain rfl : [] = ds := congrArg Reading.constructs hread
  have hending : Ending.comment opening w = (Reading.ofText d s).ending :=
    congrArg Reading.ending hread
  have hstart : (Reading.ofText d s).endingStart =
      Position.start.advance (cs.flatMap Construct.source) := by
    rw [Reading.endingStart, hsplit, List.append_nil]
  refine ⟨?_, ?_, ?_, ?_⟩
  · refine ⟨between d (cs.flatMap Construct.source ++ w) [] raw .done, ?_, rfl⟩
    rw [rest_between, position_between]
    cases opening <;> exact hgives
  · have hlast := getLast?_walk_ofReading (Reading.ofText d s) (by rw [← hending]; rfl)
    rw [← hending, hstart] at hlast
    rw [rest_between, position_between, Document.children_eq]
    exact hlast
  · have hproblem : ⟨.unterminatedComment,
        .covering (Reading.ofText d s).endingStart (opening.getD w)⟩ ∈
        (Nesting.ofReading (.ofText d s)).problems.toList := by
      rw [Nesting.problems_ofReading, ← hending]
      simp [Nesting.endingProblems]
    exact ⟨_, (Document.mem_diagnostics d source s).mpr ⟨_, hproblem, rfl⟩, rfl, hstart⟩
  · intro x hx
    obtain ⟨q, hq, rfl⟩ := (Document.mem_diagnostics d source s).mp hx
    rw [position_between, ← hstart]
    rcases (Reading.reports_of_mem hq).before_or_ending with hbefore | hproblem
    · exact Or.inl hbefore
    · rw [← hending] at hproblem
      rw [List.mem_singleton.mp hproblem]
      exact Or.inr rfl

/-- A comment is found where its name is, in any case. -/
theorem opener?_comment {name after : Text} (hname : TagName name after)
    (hcase : name.uncased = "iscomment".toList) :
    opener? d raw ('<' :: (name ++ after)) = some .comment := by
  have hlower : canonicalName name = commentTag :=
    (lower_eq_iff ownCase_commentTag (by decide)).mpr hcase
  exact opener?_of_opens (.comment (splitName?_eq_some_iff.mpr ⟨rfl, hname⟩) hlower)

end Outcome

/-- A comment reaches from where a lexer meets its name, in any case, up to the first bracket if a
slash stands before it, and up to the end of the first close tag if not. It is unfinished if there
is no such bracket or close tag. -/
theorem comment_reaches (d : Dialect) (source : Option String) (s : Text) {ts : List Token}
    {l : Lexer} (hl : Gives (start d s) ts l) (hmode : l.mode = .markup) {name after : Text}
    (hname : TagName name after) (hcase : name.uncased = "iscomment".toList)
    (hrest : l.cursor.rest = '<' :: (name ++ after)) :
    (∃ extent, CommentExtent l.cursor.rest extent) ∧
    ∀ extent, CommentExtent l.cursor.rest extent → l.CommentOutcome (.parse d source s) extent := by
  obtain ⟨cs, ds, w, hsplit, rfl, hread⟩ := exists_boundary hl hmode
  rw [rest_between] at hrest ⊢
  refine ⟨⟨_, commentExtent_iff.mpr rfl⟩, ?_⟩
  intro extent hextent
  have hscan := commentExtent_iff.mp hextent
  have ho : opener? d (cs.foldl (RawText.after d) none) w = some .comment := by
    rw [hrest]
    exact opener?_comment hname hcase
  cases extent with
  | closed opening content closing rest => exact outcome_closed hsplit hread ho hscan
  | cutOff opening => exact outcome_cutOff hsplit hread ho hscan

/-- In a script, behind a close tag without a bracket. -/
theorem comment_reaches_in_script : ∃ ts l,
    Gives (start {} "<script><ISComment>${a}</iscomment </isCOMMENT\n>b".toList) ts l ∧
    l.mode = .markup ∧ l.raw = some ⟨"script".toList, 0⟩ ∧
    TagName "ISComment".toList ">${a}</iscomment </isCOMMENT\n>b".toList ∧
    Text.uncased "ISComment".toList = "iscomment".toList ∧
    l.cursor.rest = '<' :: ("ISComment".toList ++ ">${a}</iscomment </isCOMMENT\n>b".toList) ∧
    l.CommentOutcome (.parse {} none "<script><ISComment>${a}</iscomment </isCOMMENT\n>b".toList)
      (.closed "<ISComment>".toList "${a}</iscomment ".toList "</isCOMMENT\n>".toList
        "b".toList) := by
  have htoken : ∃ given ∈ pulls 2
      (start {} "<script><ISComment>${a}</iscomment </isCOMMENT\n>b".toList),
      given.2.mode = .markup ∧ given.2.raw = some ⟨"script".toList, 0⟩ ∧
      given.2.cursor.rest =
        '<' :: ("ISComment".toList ++ ">${a}</iscomment </isCOMMENT\n>b".toList) := by
    decide +kernel
  obtain ⟨⟨t, l⟩, hmem, hmode, hraw, hrest⟩ := htoken
  obtain ⟨ts, hl⟩ := gives_of_mem_pulls hmem
  have hsplit : splitName? "ISComment>${a}</iscomment </isCOMMENT\n>b".toList =
      some ("ISComment".toList, ">${a}</iscomment </isCOMMENT\n>b".toList) := by decide +kernel
  have hname := (splitName?_eq_some_iff.mp hsplit).2
  refine ⟨ts, l, hl, hmode, hraw, hname, by decide, hrest, ?_⟩
  refine (comment_reaches {} none _ hl hmode hname (by decide) hrest).2 _ ?_
  rw [commentExtent_iff, hrest]
  decide +kernel

end Lexer

end StoreMarkup
