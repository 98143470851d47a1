import Mathlib.Data.List.Chain
import StoreMarkup.Proofs.Acceptance
import StoreMarkup.Proofs.Scanning

/-! The grammar that every stream of tokens follows: complete constructs one after the other, then
what was read of an unfinished one, then the end of the input. -/
namespace StoreMarkup

/-- What may stand in an open tag: attributes with or without a value, and what is invalid. -/
inductive TagParts : List TokenKind → Prop
  | nil : TagParts []
  | name {ks : List TokenKind} : TagParts ks → TagParts (.attributeName :: ks)
  | value {fs : List (Located Fragment)} {ks : List TokenKind} : TagParts ks →
      TagParts (.attributeName :: .attributeValue fs :: ks)
  | invalid {fault : Fault} {ks : List TokenKind} : TagParts ks → TagParts (.invalid fault :: ks)

/-- What may stand in a close tag. -/
def CloseParts (ks : List TokenKind) : Prop := ∀ k ∈ ks, ∃ fault, k = .invalid fault

/-- The tokens of one complete construct. -/
inductive Item : List TokenKind → Prop
  | text : Item [.text]
  | openTag {ks : List TokenKind} : TagParts ks → Item (.tagOpenStart :: ks ++ [.tagOpenEnd])
  | closeTag {ks : List TokenKind} : CloseParts ks → Item (.tagCloseStart :: ks ++ [.tagCloseEnd])
  | expression : Item [.expressionStart, .expressionContent, .expressionEnd]
  | comment : Item [.commentStart, .commentContent, .commentEnd]

/-- The tokens of the construct that the input ends inside, if it does. A comment has none if its
open tag is not finished. -/
inductive Started : Option Unterminated → List TokenKind → Prop
  | clean : Started none []
  | openTag {ks : List TokenKind} : TagParts ks → Started (some .tag) (.tagOpenStart :: ks)
  | closeTag {ks : List TokenKind} : CloseParts ks → Started (some .tag) (.tagCloseStart :: ks)
  | expression : Started (some .expression) [.expressionStart]
  | commentOpening : Started (some .comment) []
  | comment : Started (some .comment) [.commentStart]

/-- Tokens of complete constructs, of which no two neighbours are text, then those of an unfinished
one and one last token for the end of the input. -/
structure TokenStream (ts : List Token) (items : List (List Token)) (last : List Token)
    (stop : Token) (unterminated : Option Unterminated) : Prop where
  eq : ts = items.flatten ++ last ++ [stop]
  complete : ∀ item ∈ items, Item (item.map Token.kind)
  separate : items.IsChain fun a b =>
    ¬ (a.map Token.kind = [.text] ∧ b.map Token.kind = [.text])
  started : Started unterminated (last.map Token.kind)
  ends : stop.kind = .endOfInput unterminated

/-- The kinds of token that a construct ends with. -/
def TokenKind.closes : TokenKind → Bool
  | text | tagOpenEnd | tagCloseEnd | expressionEnd | commentEnd => true
  | _ => false

section Kinds

variable {ks : List TokenKind}

theorem TagParts.not_closes (h : TagParts ks) : ∀ k ∈ ks, k.closes = false := by
  induction h with
  | nil => simp
  | name _ ih => simpa [TokenKind.closes] using ih
  | value _ ih => simpa [TokenKind.closes] using ih
  | invalid _ ih => simpa [TokenKind.closes] using ih

theorem CloseParts.not_closes (h : CloseParts ks) : ∀ k ∈ ks, k.closes = false := by
  intro k hk
  obtain ⟨fault, rfl⟩ := h k hk
  rfl

/-- Only the last token of a construct closes it. -/
theorem Item.not_closes (h : Item ks) : ∀ k ∈ ks.dropLast, k.closes = false := by
  cases h with
  | text => simp
  | openTag hparts =>
    rw [List.dropLast_concat]
    simpa [TokenKind.closes] using hparts.not_closes
  | closeTag hparts =>
    rw [List.dropLast_concat]
    simpa [TokenKind.closes] using hparts.not_closes
  | expression => simp [TokenKind.closes]
  | comment => simp [TokenKind.closes]

theorem Started.not_closes {u : Option Unterminated} (h : Started u ks) :
    ∀ k ∈ ks, k.closes = false := by
  cases h with
  | clean => simp
  | openTag hparts => simpa [TokenKind.closes] using hparts.not_closes
  | closeTag hparts => simpa [TokenKind.closes] using hparts.not_closes
  | expression => simp [TokenKind.closes]
  | commentOpening => simp
  | comment => simp [TokenKind.closes]

end Kinds

def Construct.isText : Construct → Bool
  | text _ => true
  | _ => false

@[simp] theorem partTokens_nil (p : Position) : partTokens p [] = [] := rfl

@[simp] theorem partTokens_cons (p : Position) (part : TagPart) (parts : List TagPart) :
    partTokens p (part :: parts) = part.tokens p ++ partTokens (p.advance part.source) parts := rfl

theorem partTokens_append (p : Position) (parts others : List TagPart) :
    partTokens p (parts ++ others) =
      partTokens p parts ++ partTokens (p.advance (parts.flatMap TagPart.source)) others := by
  simp [partTokens, locate_append]

/-- The tokens of some strays in a close tag. -/
def strayTokens (p : Position) (strays : List Stray) : List Token :=
  (locate Stray.source p strays).map fun stray => stray.value.token stray.span.start

@[simp] theorem strayTokens_nil (p : Position) : strayTokens p [] = [] := rfl

@[simp] theorem strayTokens_cons (p : Position) (stray : Stray) (strays : List Stray) :
    strayTokens p (stray :: strays) =
      stray.token p :: strayTokens (p.advance stray.source) strays := rfl

theorem closeTagTokens_eq (p : Position) (name : Text) (strays : List Stray) :
    closeTagTokens p name strays = .place p .tagCloseStart ('<' :: '/' :: name) ::
      strayTokens (p.advance ('<' :: '/' :: name)) strays := rfl

theorem tagParts_partTokens (p : Position) (parts : List TagPart) :
    TagParts ((partTokens p parts).map Token.kind) := by
  induction parts generalizing p with
  | nil => exact .nil
  | cons part parts ih =>
    have hrest := ih (p.advance part.source)
    cases part with
    | stray s fault => exact .invalid hrest
    | «attribute» gap name value =>
      cases value with
      | none => exact .name hrest
      | some v => exact .value hrest

theorem closeParts_strayTokens (p : Position) (strays : List Stray) :
    CloseParts ((strayTokens p strays).map Token.kind) := by
  intro k hk
  simp only [strayTokens, List.mem_map] at hk
  obtain ⟨t, ⟨stray, -, rfl⟩, rfl⟩ := hk
  exact ⟨.closingContent, rfl⟩

theorem Construct.item_tokens (p : Position) (c : Construct) :
    Item ((c.tokens p).map Token.kind) := by
  cases c with
  | text content => exact .text
  | openTag name parts gap slash =>
    simpa [tokens, openTagTokens_eq, Token.place] using
      Item.openTag (tagParts_partTokens (p.advance ('<' :: name)) parts)
  | closeTag name strays gap =>
    simpa [tokens, closeTagTokens_eq, Token.place] using
      Item.closeTag (closeParts_strayTokens (p.advance ('<' :: '/' :: name)) strays)
  | expression body => exact .expression
  | comment opening content closing => exact .comment

theorem Construct.isText_of_kinds {p : Position} {c : Construct}
    (h : (c.tokens p).map Token.kind = [.text]) : c.isText = true := by
  cases c with
  | text content => rfl
  | openTag name parts gap slash => simp [tokens, openTagTokens, Token.place] at h
  | closeTag name strays gap => simp [tokens, closeTagTokens, Token.place] at h
  | expression body => simp [tokens, Token.placeAll] at h
  | comment opening content closing => simp [tokens, Token.placeAll] at h

/-- The tokens of constructs that follow each other from a point on. -/
def constructTokens (p : Position) (cs : List Construct) : List Token :=
  (locate Construct.source p cs).flatMap fun c => c.value.tokens c.span.start

@[simp] theorem constructTokens_nil (p : Position) : constructTokens p [] = [] := rfl

@[simp] theorem constructTokens_cons (p : Position) (c : Construct) (cs : List Construct) :
    constructTokens p (c :: cs) = c.tokens p ++ constructTokens (p.advance c.source) cs := rfl

theorem constructTokens_append (p : Position) (cs ds : List Construct) :
    constructTokens p (cs ++ ds) =
      constructTokens p cs ++ constructTokens (p.advance (cs.flatMap Construct.source)) ds := by
  simp [constructTokens, locate_append]

/-- The tokens of an ending before the last one. -/
def Ending.startedTokens (p : Position) : Ending → List Token
  | clean | comment none _ => []
  | openTag name parts _ => openTagTokens p name parts
  | closeTag name strays _ => closeTagTokens p name strays
  | expression _ => [.place p .expressionStart Delimiter.dollar.opening]
  | comment (some opening) _ => [.place p .commentStart opening]

theorem Ending.tokens_eq (p : Position) (e : Ending) :
    e.tokens p = e.startedTokens p ++ [.place p (.endOfInput e.unterminated?) e.source] := by
  cases e with
  | comment opening text => cases opening <;> rfl
  | _ => rfl

theorem Ending.started_startedTokens (p : Position) (e : Ending) :
    Started e.unterminated? ((e.startedTokens p).map Token.kind) := by
  cases e with
  | clean => exact .clean
  | openTag name parts text =>
    exact .openTag (tagParts_partTokens (p.advance ('<' :: name)) parts)
  | closeTag name strays text =>
    exact .closeTag (closeParts_strayTokens (p.advance ('<' :: '/' :: name)) strays)
  | expression text => exact .expression
  | comment opening text =>
    cases opening with
    | none => exact .commentOpening
    | some opening => exact .comment

section Values

variable {p : Position} {name : Text} {t : Token} {fragments : List (Located Fragment)}

theorem mem_partTokens_of_value {parts : List TagPart} (h : t ∈ openTagTokens p name parts)
    (hkind : t.kind = .attributeValue fragments) :
    t ∈ partTokens (p.advance ('<' :: name)) parts := by
  rcases List.mem_cons.mp h with rfl | h
  · cases hkind
  · exact h

theorem not_value_of_mem_closeTagTokens {strays : List Stray}
    (h : t ∈ closeTagTokens p name strays) :
    t.kind ≠ .attributeValue fragments := by
  intro hkind
  rcases List.mem_cons.mp h with rfl | h
  · cases hkind
  · obtain ⟨stray, -, rfl⟩ := List.mem_map.mp h
    cases hkind

/-- Values stand in open tags only. -/
theorem Construct.exists_of_value {c : Construct} (h : t ∈ c.tokens p)
    (hkind : t.kind = .attributeValue fragments) : ∃ name parts gap slash,
      c = .openTag name parts gap slash ∧ t ∈ partTokens (p.advance ('<' :: name)) parts := by
  cases c with
  | openTag name parts gap slash =>
    refine ⟨name, parts, gap, slash, rfl, ?_⟩
    rcases List.mem_append.mp h with h | h
    · exact mem_partTokens_of_value h hkind
    · obtain rfl := List.mem_singleton.mp h
      cases hkind
  | closeTag name strays gap =>
    rcases List.mem_append.mp h with h | h
    · exact (not_value_of_mem_closeTagTokens h hkind).elim
    · obtain rfl := List.mem_singleton.mp h
      cases hkind
  | text content =>
    obtain rfl := List.mem_singleton.mp h
    cases hkind
  | expression body =>
    simp only [tokens, Token.placeAll, List.mem_cons, List.not_mem_nil, or_false] at h
    rcases h with rfl | rfl | rfl <;> cases hkind
  | comment opening content closing =>
    simp only [tokens, Token.placeAll, List.mem_cons, List.not_mem_nil, or_false] at h
    rcases h with rfl | rfl | rfl <;> cases hkind

theorem Ending.exists_of_value {e : Ending} (h : t ∈ e.tokens p)
    (hkind : t.kind = .attributeValue fragments) : ∃ name parts text,
      e = .openTag name parts text ∧ t ∈ partTokens (p.advance ('<' :: name)) parts := by
  rw [tokens_eq] at h
  rcases List.mem_append.mp h with h | h
  · cases e with
    | clean => cases h
    | openTag name parts text => exact ⟨name, parts, text, rfl, mem_partTokens_of_value h hkind⟩
    | closeTag name strays text => exact (not_value_of_mem_closeTagTokens h hkind).elim
    | expression text =>
      obtain rfl := List.mem_singleton.mp h
      cases hkind
    | comment opening text =>
      cases opening with
      | none => cases h
      | some opening =>
        obtain rfl := List.mem_singleton.mp h
        cases hkind
  · obtain rfl := List.mem_singleton.mp h
    cases hkind

end Values

/-- Text reaches up to the next construct of another kind. -/
theorem textRun_stops (d : Dialect) (raw : Option RawText) (s : Text) :
    (textRun d raw s).2 = [] ∨ (opener? d raw (textRun d raw s).2).isSome = true := by
  fun_induction textRun d raw s with
  | case1 => exact Or.inl rfl
  | case2 c cs h => exact Or.inr h
  | case3 c cs _ text rest h ih => simpa [h] using ih

namespace Reading

variable {d : Dialect} {raw : Option RawText} {s rest : Text} {c : Construct}

theorem isText_of_step (h : step d raw s = .construct c rest) :
    c.isText = true ↔ opener? d raw s = none := by
  cases reads_of_step h <;> simp [Construct.isText, *]

theorem opener?_of_step_text (h : step d raw s = .construct c rest) (hc : c.isText = true) :
    rest = [] ∨ (opener? d raw rest).isSome = true := by
  cases reads_of_step h with
  | @text b cs t rest _ hrun =>
    have hstops := textRun_stops d raw cs
    rwa [hrun] at hstops
  | _ => cases hc

/-- Two pieces of text are never neighbours. -/
theorem separate_inRawText (d : Dialect) (raw : Option RawText) (s : Text) :
    (inRawText d raw s).constructs.IsChain fun a b => ¬ (a.isText = true ∧ b.isText = true) := by
  fun_induction inRawText d raw s with
  | case1 => exact .nil
  | case2 raw s c rest h after ih =>
    refine List.IsChain.cons ih ?_
    rintro b hb ⟨hc, hbt⟩
    -- The text leaves the state as it is, so what follows is looked at in the same way.
    have hsame : RawText.after d raw c = raw := by
      cases c with
      | text content => rfl
      | _ => cases hc
    simp only [after, hsame] at hb
    rw [inRawText] at hb
    split at hb
    · cases hb
    · rename_i b' rest' hb'
      obtain rfl : b' = b := by simpa using hb
      have hnone := (isText_of_step hb').mp hbt
      rcases opener?_of_step_text h hc with rfl | hsome
      · cases hb'
      · rw [hnone] at hsome
        cases hsome

/-- The tokens of the constructs, one list for each of them. -/
def items (r : Reading) : List (List Token) := r.located.map fun c => c.value.tokens c.span.start

/-- The tokens of a template follow the grammar, construct by construct. -/
theorem tokenStream_tokens {r : Reading}
    (h : r.constructs.IsChain fun a b => ¬ (a.isText = true ∧ b.isText = true)) :
    TokenStream r.tokens r.items (r.ending.startedTokens r.endingStart)
      (.place r.endingStart (.endOfInput r.ending.unterminated?) r.ending.source)
      r.ending.unterminated? where
  eq := by
    rw [tokens, Ending.tokens_eq, items, ← List.append_assoc]
    rfl
  complete := by
    intro item hitem
    obtain ⟨c, -, rfl⟩ := List.mem_map.mp hitem
    exact c.value.item_tokens c.span.start
  separate := by
    rw [← map_value_locate Construct.source .start r.constructs, List.isChain_map] at h
    rw [items, List.isChain_map]
    refine h.imp ?_
    rintro a b hab ⟨ha, hb⟩
    exact hab ⟨Construct.isText_of_kinds ha, Construct.isText_of_kinds hb⟩
  started := r.ending.started_startedTokens r.endingStart
  ends := rfl

end Reading

end StoreMarkup
