import StoreMarkup.Proofs.Coverage
import StoreMarkup.Proofs.Segmentation

/-! A lexer makes progress: with each token there are fewer left to give, so it stops, after at most
one token for each character of the source and one more. -/
namespace StoreMarkup

/-- Whether a token of this kind may have no text. A comment that a slash ends has no close tag. -/
def TokenKind.mayBeEmpty : TokenKind → Bool
  | expressionContent | commentContent | commentEnd | endOfInput _ => true
  | _ => false

namespace LexerMode

/-- How many tokens come at most where `s` is left of the source: one for each character and one for
the end. Expressions and comments have characters left over from their first token, which pay for
the tokens in them that may be empty. -/
def allowance (s : Text) : LexerMode → Nat
  | .expression _ => s.length + 2
  | .comment _ _ => s.length + 3
  | .commentEnd closing => s.length - closing.length + 2
  | .done => 0
  | _ => s.length + 1

/-- The end of a construct that was seen before is what the source goes on with. -/
def Ready (s : Text) : LexerMode → Prop
  | .expressionEnd => Delimiter.dollar.closing <+: s
  | .commentEnd closing => closing <+: s
  | _ => True

end LexerMode

namespace Lexer

variable {l k m : Lexer} {kind : TokenKind} {next : LexerMode} {s t rest name value : Text}
  {opener : Position}

def allowance (l : Lexer) : Nat := l.mode.allowance l.cursor.rest

def Ready (l : Lexer) : Prop := l.mode.Ready l.cursor.rest

theorem allowance_eq (hmode : l.mode = next) : l.allowance = next.allowance l.cursor.rest := by
  rw [allowance, hmode]

theorem length_lt_allowance (hmode : l.mode = next)
    (hnext : next.allowance l.cursor.rest = l.cursor.rest.length + 1) :
    l.cursor.rest.length < l.allowance := by
  rw [allowance_eq hmode]
  omega

theorem rest_skip (h : l.cursor.rest = t ++ rest) : (l.skip t).cursor.rest = rest := by
  have htaken : l.cursor.rest.take t.length = t := by simp [h]
  have hdrop : l.cursor.text.drop l.cursor.position.offset = t ++ rest := h
  simp only [skip, Cursor.advanceBy, Cursor.rest, Int.toNat_natCast] at htaken ⊢
  rw [htaken, Position.offset_advance, ← List.drop_drop, hdrop, List.drop_left]

theorem rest_skip_blanks (l : Lexer) :
    (l.skip (blanks l.cursor.rest)).cursor.rest = afterBlanks l.cursor.rest :=
  rest_skip (blanks_append_afterBlanks l.cursor.rest).symm

theorem length_rest_skip_lt {n : Nat} (h : l.cursor.rest.length < n) (t : Text) :
    (l.skip t).cursor.rest.length < n := by
  simp only [skip, Cursor.advanceBy, Cursor.rest, Position.offset_advance, List.length_drop] at h ⊢
  omega

/-- The text of a token is what the lexer moves over. -/
theorem text_skip_emit (h : l.cursor.rest = t ++ rest) (hne : t ≠ []) :
    ((l.skip t).emit kind l.cursor.position next).1.text = t := by
  have htaken : l.cursor.rest.take t.length = t := by simp [h]
  have hdrop : l.cursor.text.drop l.cursor.position.offset = t ++ rest := h
  have hpos := List.length_pos_iff.mpr hne
  have hlength := congrArg List.length hdrop
  simp only [List.length_drop, List.length_append] at hlength
  have hstop : (l.skip t).cursor.position.offset = l.cursor.position.offset + t.length := by
    simp [skip, Cursor.advanceBy, htaken]
  have htext : (l.skip t).cursor.text = l.cursor.text := rfl
  simp only [emit, hstop]
  rw [Cursor.slice_of_le (by rw [htext]; omega) (by rw [htext]; omega), htext, Text.slice, hdrop]
  simp

/-- What each token brings a lexer that gives it. -/
structure Advances (l : Lexer) (given : Token × Lexer) : Prop where
  allowance_lt : given.2.allowance < l.allowance
  ready : given.2.Ready
  filled : given.1.kind.mayBeEmpty = false → given.1.text ≠ []

theorem advances_emitUnterminated (hl : 0 < l.allowance) (u : Unterminated) :
    Advances l (k.emitUnterminated u opener) where
  allowance_lt := hl
  ready := trivial
  filled := by
    intro h
    cases h

/-- A token for the next piece of the source, which leaves enough for those after it. -/
theorem advances_emit (h : k.cursor.rest = t ++ rest) (hlt : next.allowance rest < l.allowance)
    (hready : next.Ready rest) (hfilled : kind.mayBeEmpty = false → t ≠ []) :
    Advances l ((k.skip t).emit kind k.cursor.position next) where
  allowance_lt := by
    change next.allowance (k.skip t).cursor.rest < l.allowance
    rw [rest_skip h]
    exact hlt
  ready := by
    change next.Ready (k.skip t).cursor.rest
    rw [rest_skip h]
    exact hready
  filled := by
    intro hkind
    have hne := hfilled hkind
    rw [text_skip_emit h hne]
    exact hne

/-- A token with text pays for itself, where all that was left before pays for what comes. -/
theorem advances_filled (h : k.cursor.rest = t ++ rest) (hne : t ≠ [])
    (hl : k.cursor.rest.length < l.allowance) (hnext : next.allowance rest = rest.length + 1)
    (hready : next.Ready rest) : Advances l ((k.skip t).emit kind k.cursor.position next) := by
  have hpos := List.length_pos_iff.mpr hne
  rw [h, List.length_append] at hl
  apply advances_emit h _ hready
  · intro _
    exact hne
  · omega

/-- The open tag of a comment has characters to spare. -/
theorem three_le_length_opening {d : Dialect} {raw : Option RawText}
    (ho : opener? d raw s = some .comment) (h : throughBracket? s = some (t, rest)) :
    3 ≤ t.length := by
  cases opens_of_opener? ho with
  | @comment cs name after hs hname =>
    obtain ⟨hcs, htag⟩ := splitName?_eq_some_iff.mp hs
    subst hcs
    obtain ⟨c, hc, -⟩ := htag.letter
    obtain ⟨name', rfl⟩ := List.head?_eq_some_iff.mp hc
    have hbracket : '>' ∉ '<' :: c :: name' := by simpa using bracket_notMem_of_splitName? hs
    obtain ⟨w, hw, rfl⟩ := exists_of_throughBracket?_append hbracket h
    have hpos := List.length_pos_iff.mpr hw
    simp only [List.length_append, List.length_cons]
    omega

theorem advances_markupToken (hmode : l.mode = .markup) : Advances l l.markupToken := by
  have hl : l.allowance = l.cursor.rest.length + 1 := allowance_eq hmode
  unfold markupToken
  dsimp only
  split
  · rename_i inner ho
    have hrest : l.cursor.rest = Delimiter.dollar.opening ++ inner := opener?_expression ho
    have hlength : l.cursor.rest.length = inner.length + 2 := congrArg List.length hrest
    refine advances_emit hrest ?_ trivial (by simp [Delimiter.opening])
    change inner.length + 2 < l.allowance
    omega
  · rename_i ho
    split
    · rename_i opening after hthrough
      obtain ⟨hrest, hne⟩ := throughBracket?_eq hthrough
      -- One character pays for this token, and two for those of the content and the end.
      have hthree := three_le_length_opening ho hthrough
      refine advances_emit hrest ?_ trivial (fun _ => hne)
      rw [hrest, List.length_append] at hl
      change after.length + 3 < l.allowance
      omega
    · apply advances_emitUnterminated
      omega
  · rename_i name after ho
    exact advances_filled (opener?_openTag ho) (by simp) (by omega) rfl trivial
  · rename_i name after ho
    exact advances_filled (opener?_closeTag ho) (by simp) (by omega) rfl trivial
  · split
    · refine ⟨?_, trivial, by simp [emit, TokenKind.mayBeEmpty]⟩
      change 0 < l.allowance
      omega
    · rename_i c cs hs
      have hrest : l.cursor.rest =
          c :: (textRun l.dialect l.raw cs).1 ++ (textRun l.dialect l.raw cs).2 := by
        rw [List.cons_append, textRun_eq, hs]
      exact advances_filled hrest (by simp) (by omega) rfl trivial

theorem tagEnd_ne_nil (slash : Bool) : tagEnd slash ≠ [] := by
  cases slash <;> simp [tagEnd]

theorem advances_openTagToken (hl : l.cursor.rest.length < l.allowance) :
    Advances l (l.openTagToken opener name) := by
  have hrest := rest_skip_blanks l
  have hlt := length_rest_skip_lt hl (blanks l.cursor.rest)
  unfold openTagToken
  dsimp only
  rw [hrest]
  split
  · apply advances_emitUnterminated
    omega
  · rename_i c cs hc
    rw [hc] at hrest
    split
    · rename_i hend
      have htext := hrest.trans (tagEnd_append hend)
      exact advances_filled htext (tagEnd_ne_nil _) hlt rfl trivial
    · rename_i hend
      split
      · split
        · rename_i t rest ht
          have htext : c :: cs = c :: t ++ rest := by simp [(quotedTail_eq ht).1]
          exact advances_filled (hrest.trans htext) (by simp) hlt rfl trivial
        · apply advances_emitUnterminated
          omega
      · rename_i hquote
        split
        · exact advances_filled (t := [c]) hrest (by simp) hlt rfl trivial
        · rename_i hmark
          split
          · rename_i found rest hfound
            -- What ends a name was ruled out one by one before.
            have hgoes : endsAttributeName c cs = false := by
              have hblank := isBlank_head_afterBlanks hc
              have hnone := Quote.ofChar?_eq_none.mp hquote
              simp_all [endsAttributeName, endsTag]
            have htext := hrest.trans (attributeName_eq hfound)
            have hne := attributeName_ne_nil hgoes hfound
            exact advances_filled htext hne hlt rfl trivial
          · apply advances_emitUnterminated
            omega

theorem advances_valueToken (hrest : k.cursor.rest = '=' :: value)
    (hl : k.cursor.rest.length < l.allowance) :
    Advances l (k.valueToken opener name value) := by
  have hlead : k.cursor.rest = '=' :: blanks value ++ afterBlanks value := by
    rw [hrest, List.cons_append, blanks_append_afterBlanks]
  have hafter := rest_skip hlead
  have hlt := length_rest_skip_lt hl ('=' :: blanks value)
  unfold valueToken
  dsimp only
  split
  · apply advances_emitUnterminated
    omega
  · rename_i c cs hc
    split
    · exact advances_filled hlead (by simp) hl rfl trivial
    · rename_i hend
      split
      · rename_i fragments rest hv
        have htext : c :: cs = Value.text ⟨[], Quote.ofChar? c, fragments⟩ ++ rest := by
          rw [← quoteMark_append_afterQuote, valueFragments_eq hv]
          simp [Value.text]
        have hne := text_ne_nil_of_valueFragments [] (isBlank_head_afterBlanks hc)
          (by simpa using hend) hv
        exact advances_filled (hafter.trans (hc.trans htext)) hne hlt rfl trivial
      · apply advances_emitUnterminated
        omega

theorem advances_attributeToken (hl : l.cursor.rest.length < l.allowance) :
    Advances l (l.attributeToken opener name) := by
  unfold attributeToken
  split
  · rename_i value hvalue
    have hrest := (rest_skip_blanks l).trans hvalue
    exact advances_valueToken hrest (length_rest_skip_lt hl _)
  · exact advances_openTagToken hl

theorem advances_closeTagToken (hl : l.cursor.rest.length < l.allowance) :
    Advances l (l.closeTagToken opener name) := by
  unfold closeTagToken
  split
  · rename_i gap rest hs
    have hgap := rest_skip (closeStep_close hs)
    exact advances_filled (t := ['>']) hgap (by simp) (length_rest_skip_lt hl gap) rfl trivial
  · rename_i stray rest hs
    obtain ⟨hsource, hne⟩ := closeStep_more hs
    rw [Stray.source, List.append_assoc] at hsource
    exact advances_filled (rest_skip hsource) hne (length_rest_skip_lt hl stray.gap) rfl trivial
  · apply advances_emitUnterminated
    omega

theorem advances_expressionToken (hmode : l.mode = .expression opener) :
    Advances l (l.expressionToken opener) := by
  have hl : l.allowance = l.cursor.rest.length + 2 := allowance_eq hmode
  unfold expressionToken
  split
  · rename_i body rest hbody
    have hrest := expressionBody_eq hbody
    have hlength := congrArg List.length hrest
    simp only [List.length_append] at hlength
    refine advances_emit hrest ?_ ⟨rest, rfl⟩ (by simp [TokenKind.mayBeEmpty])
    change (('}' :: rest : Text)).length + 1 < l.allowance
    omega
  · apply advances_emitUnterminated
    omega

theorem advances_commentToken {opening : Text} (hmode : l.mode = .comment opener opening) :
    Advances l (l.commentToken opener opening) := by
  have hl : l.allowance = l.cursor.rest.length + 3 := allowance_eq hmode
  unfold commentToken
  split
  · refine ⟨?_, List.nil_prefix, by simp [emit, TokenKind.mayBeEmpty]⟩
    change l.cursor.rest.length + 2 < l.allowance
    omega
  · split
    · rename_i content closing rest hbody
      have hrest := commentBody?_eq hbody
      rw [List.append_assoc] at hrest
      have hlength := congrArg List.length hrest
      simp only [List.length_append] at hlength
      refine advances_emit hrest ?_ (List.prefix_append closing rest)
        (by simp [TokenKind.mayBeEmpty])
      change (closing ++ rest).length - closing.length + 2 < l.allowance
      rw [List.length_append]
      omega
    · apply advances_emitUnterminated
      omega

/-- The brace after the content of an expression is still there. -/
theorem advances_expressionEnd (hmode : l.mode = .expressionEnd) (hready : l.Ready) :
    Advances l ((l.skip Delimiter.dollar.closing).emit .expressionEnd l.cursor.position
      .markup) := by
  have hl := length_lt_allowance hmode rfl
  rw [Ready, hmode] at hready
  obtain ⟨rest, hrest⟩ := hready
  exact advances_filled hrest.symm (by simp [Delimiter.closing]) hl rfl trivial

theorem advances_commentEnd {closing : Text} (hmode : l.mode = .commentEnd closing)
    (hready : l.Ready) :
    Advances l ((l.skip closing).emit .commentEnd l.cursor.position .markup) := by
  have hl : l.allowance = l.cursor.rest.length - closing.length + 2 := allowance_eq hmode
  rw [Ready, hmode] at hready
  obtain ⟨rest, hrest⟩ := hready
  rw [← hrest, List.length_append] at hl
  refine advances_emit hrest.symm ?_ trivial (by simp [TokenKind.mayBeEmpty])
  change rest.length + 1 < l.allowance
  omega

/-- Whatever a lexer is inside of, its next token leaves fewer to give. -/
theorem advances_of_pull {given : Token × Lexer} (hready : l.Ready) (h : l.pull = some given) :
    Advances l given := by
  unfold pull at h
  split at h
  all_goals
    rename_i hmode
    cases h
  · exact advances_markupToken hmode
  · exact advances_openTagToken (length_lt_allowance hmode rfl)
  · exact advances_attributeToken (length_lt_allowance hmode rfl)
  · exact advances_closeTagToken (length_lt_allowance hmode rfl)
  · exact advances_expressionToken hmode
  · exact advances_expressionEnd hmode hready
  · exact advances_commentToken hmode
  · exact advances_commentEnd hmode hready

/-- Every token a lexer gives takes one of those it may still give. -/
theorem Gives.length_add_allowance_le {ts : List Token} (h : Gives l ts m) (hl : l.Ready) :
    ts.length + m.allowance ≤ l.allowance := by
  induction h with
  | nil l => simp
  | @cons l k m t ts hpull _ ih =>
    have hstep := advances_of_pull hl hpull
    have hlt : k.allowance < l.allowance := hstep.allowance_lt
    have hrest := ih hstep.ready
    simp only [List.length_cons]
    omega

theorem Gives.filled {ts : List Token} (h : Gives l ts m) (hl : l.Ready) :
    ∀ t ∈ ts, t.kind.mayBeEmpty = false → t.text ≠ [] := by
  induction h with
  | nil => simp
  | cons hpull _ ih =>
    have hstep := advances_of_pull hl hpull
    intro t ht
    rcases List.mem_cons.mp ht with rfl | ht
    · exact hstep.filled
    · exact ih hstep.ready t ht

/-- A lexer gives the tokens of a template and then stops, so that pulling more often than the
source has characters brings nothing more. The last token stands for the end of the input. Only the
inside of an expression or of a comment, the close tag of a comment and the last token can be empty,
and there is at most one token for each character and one more. -/
theorem run_bounded (d : Dialect) (s : Text) : ∃ ts stop l,
    Gives (start d s) (ts ++ [stop]) l ∧ l.mode = .done ∧
      (∀ n, s.length < n → (pulls n (start d s)).map Prod.fst = ts ++ [stop]) ∧
      tokenize d s = ts ++ [stop] ∧ (∃ unterminated, stop.kind = .endOfInput unterminated) ∧
      (∀ t ∈ ts, t.kind.mayBeEmpty = false → t.text ≠ []) ∧
      (ts ++ [stop]).length ≤ s.length + 1 := by
  have hready : (start d s).Ready := trivial
  have hstart : (start d s).allowance = s.length + 1 := rfl
  obtain ⟨raw, hgives⟩ := gives_tokenize d s
  have heq := tokenize_eq d s
  rw [heq] at hgives
  have hlength := hgives.length_add_allowance_le hready
  refine ⟨_, lastToken d s, _, hgives, rfl, ?_, heq, ⟨_, rfl⟩, ?_, ?_⟩
  · intro n hn
    rw [map_pulls_start, heq]
    apply List.take_of_length_le
    omega
  · intro t ht
    exact hgives.filled hready t (List.mem_append_left _ ht)
  · omega

/-- The bound is reached: an empty expression has as many tokens as characters. -/
example : (tokenize {} "$\x7b\x7d".toList).length = 4 := by decide +kernel

end Lexer

end StoreMarkup
