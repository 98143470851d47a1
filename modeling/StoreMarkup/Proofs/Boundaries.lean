import StoreMarkup.Proofs.Lexing

/-! Where a lexer looks for the next construct: in markup it stands between two constructs, and
nowhere else. -/
namespace StoreMarkup

namespace Lexer

/-- After a token a lexer is in markup exactly if the token closes a construct. -/
def Tells (given : Token × Lexer) : Prop := given.2.mode = .markup ↔ given.1.kind.closes = true

theorem tells_of_pull {l : Lexer} {given : Token × Lexer} (h : l.pull = some given) :
    Tells given := by
  cases emits_of_pull h with
  | token _ hmode => exact hmode
  | unterminated _ => simp [Tells, emitUnterminated, TokenKind.closes]

variable {d : Dialect} {before s : Text} {raw : Option RawText} {l m : Lexer} {ts : List Token}

/-- A lexer in markup has given nothing yet, or has just closed a construct. -/
theorem eq_nil_or_closes (h : Gives l ts m) (hmode : m.mode = .markup) :
    ts = [] ∨ ∃ us t, ts = us ++ [t] ∧ t.kind.closes = true := by
  rcases List.eq_nil_or_concat' ts with rfl | ⟨us, t, rfl⟩
  · exact Or.inl rfl
  · obtain ⟨k, -, hpull⟩ := h.exists_pull
    exact Or.inr ⟨us, t, rfl, (tells_of_pull hpull).mp hmode⟩

/-- A lexer that comes to markup has given the tokens of some constructs, and none of the next
one. -/
theorem exists_eq_constructTokens (h : Gives (between d before s raw .markup) ts l)
    (hmode : l.mode = .markup) :
    ∃ cs ds, (Reading.inRawText d raw s).constructs = cs ++ ds ∧
      ts = constructTokens (Position.start.advance before) cs := by
  rcases eq_nil_or_closes h hmode with rfl | ⟨us, t, rfl, hcloses⟩
  · exact ⟨[], _, rfl, rfl⟩
  fun_induction Reading.inRawText d raw s generalizing before us t with
  | case1 raw s e hstep =>
    have hending := givesNext_step d before s raw
    rw [hstep] at hending
    exfalso
    -- The tokens of an ending close nothing, and after them the lexer is done.
    rcases h.compare hending with ⟨vs, hvs, hrest⟩ | ⟨v, vs, hvs, hrest⟩
    · cases hrest with
      | nil => cases hmode
      | cons hpull _ => cases hpull
    · have hmem : t ∈ e.startedTokens (Position.start.advance before) := by
        have hlast := congrArg List.dropLast hvs
        rw [Ending.tokens_eq, List.dropLast_concat, List.dropLast_append_cons] at hlast
        simp [hlast]
      have hnot := (e.started_startedTokens _).not_closes _ (List.mem_map_of_mem hmem)
      rw [hcloses] at hnot
      cases hnot
  | case2 raw s c rest hstep after =>
    rename_i ih
    have hnext := givesNext_step d before s raw
    rw [hstep] at hnext
    rcases h.compare hnext with ⟨vs, hvs, hrest⟩ | ⟨v, vs, hvs, hrest⟩
    · rcases eq_nil_or_closes hrest hmode with rfl | ⟨us', t', rfl, hcloses'⟩
      · exact ⟨[c], _, rfl, by simpa using hvs⟩
      · obtain ⟨cs, ds, hsplit, htokens⟩ := ih us' t' hcloses' hrest
        refine ⟨c :: cs, ds, by rw [hsplit]; rfl, ?_⟩
        rw [hvs, htokens, constructTokens_cons, Position.advance_append]
    -- The lexer would have stopped inside of the construct, where it is in another mode.
    · exfalso
      have hmem : t ∈ (c.tokens (Position.start.advance before)).dropLast := by
        rw [hvs, List.dropLast_append_cons]
        simp
      have hnot := (c.item_tokens (Position.start.advance before)).not_closes t.kind
        (by rw [← List.map_dropLast]; exact List.mem_map_of_mem hmem)
      rw [hcloses] at hnot
      cases hnot

/-- A lexer of a template that is in markup stands between two constructs, in the raw text that the
first ones leave, and reads the others there. -/
theorem exists_boundary (h : Gives (start d s) ts l) (hmode : l.mode = .markup) :
    ∃ cs ds rest, (Reading.ofText d s).constructs = cs ++ ds ∧
      l = between d (cs.flatMap Construct.source) rest (cs.foldl (RawText.after d) none) .markup ∧
      Reading.inRawText d (cs.foldl (RawText.after d) none) rest =
        ⟨ds, (Reading.ofText d s).ending⟩ := by
  have hfirst : Gives (between d [] s none .markup) ts l := h
  obtain ⟨cs, ds, hsplit, rfl⟩ := exists_eq_constructTokens hfirst hmode
  obtain ⟨rest, hgives, hrest⟩ := gives_constructs [] hsplit
  exact ⟨cs, ds, rest, hsplit, h.unique hgives, hrest⟩

end Lexer

end StoreMarkup
