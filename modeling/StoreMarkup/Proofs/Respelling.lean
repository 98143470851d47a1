import StoreMarkup.Proofs.Coverage
import StoreMarkup.Proofs.LetterCase

/-! Templates in which letters of tag names have another case: they are read as the same constructs
but for the spelling of their names. -/
namespace StoreMarkup

/-- Where the tag name starts in a token that has one. -/
def TokenKind.nameStart? : TokenKind → Option Nat
  | tagOpenStart | commentStart => some 1
  | tagCloseStart | commentEnd => some 2
  | _ => none

/-- Whether an index of the source is in the tag name of a token. -/
def Token.NameAt (t : Token) (i : Nat) : Prop :=
  ∃ n ∈ t.kind.nameStart?, t.span.start.offset + n ≤ i ∧
    i < t.span.start.offset + n + ((t.text.drop n).takeWhile isNameChar).length

instance (t : Token) (i : Nat) : Decidable (t.NameAt i) :=
  inferInstanceAs (Decidable (∃ n ∈ t.kind.nameStart?, _ ∧ _))

/-- A template that differs from another at most in the case of ASCII letters of tag names. -/
structure Respells (d : Dialect) (s s' : Text) : Prop where
  uncased_eq : s'.uncased = s.uncased
  onlyNames : ∀ i < s.length, s'[i]? ≠ s[i]? → ∃ t ∈ tokenize d s, t.NameAt i

/-- The second text is the first but for the case of letters, where the flags allow another one. -/
inductive Spelled : List Bool → Text → Text → Prop
  | nil : Spelled [] [] []
  | same {free : Bool} {flags : List Bool} {c : Char} {s t : Text} : Spelled flags s t →
      Spelled (free :: flags) (c :: s) (c :: t)
  | other {flags : List Bool} {c b : Char} {s t : Text} : b.toLower = c.toLower →
      Spelled flags s t → Spelled (true :: flags) (c :: s) (b :: t)

/-- Flags that let all letters of a text have another case. -/
def free (t : Text) : List Bool := t.map fun _ => true

def fixed (t : Text) : List Bool := t.map fun _ => false

section Spelled

variable {flags more : List Bool} {s t u : Text}

@[simp] theorem length_free (t : Text) : (free t).length = t.length := List.length_map _

@[simp] theorem length_fixed (t : Text) : (fixed t).length = t.length := List.length_map _

theorem Spelled.uncased_eq (h : Spelled flags s t) : t.uncased = s.uncased := by
  induction h with
  | nil => rfl
  | same _ ih => rw [uncased_cons, uncased_cons, ih]
  | other hc _ ih => rw [uncased_cons, uncased_cons, hc, ih]

theorem Spelled.split (h : Spelled (flags ++ more) (s ++ u) t) (hlength : flags.length = s.length) :
    ∃ t₁ t₂, t = t₁ ++ t₂ ∧ Spelled flags s t₁ ∧ Spelled more u t₂ := by
  induction s generalizing flags t with
  | nil =>
    obtain rfl : flags = [] := List.length_eq_zero_iff.mp hlength
    exact ⟨[], t, rfl, .nil, h⟩
  | cons c s ih =>
    obtain ⟨flag, flags, rfl⟩ := List.exists_cons_of_length_eq_add_one hlength
    have htail : flags.length = s.length := Nat.succ.inj hlength
    cases h with
    | same h =>
      obtain ⟨t₁, t₂, rfl, h₁, h₂⟩ := ih h htail
      exact ⟨c :: t₁, t₂, rfl, .same h₁, h₂⟩
    | @other _ _ b _ _ hb h =>
      obtain ⟨t₁, t₂, rfl, h₁, h₂⟩ := ih h htail
      exact ⟨b :: t₁, t₂, rfl, .other hb h₁, h₂⟩

theorem Spelled.eq_of_fixed (h : Spelled (fixed s) s t) : t = s := by
  induction s generalizing t with
  | nil =>
    cases h
    rfl
  | cons c s ih =>
    cases h with
    | same h => rw [ih h]

/-- Texts that differ only where letters may have another case. -/
theorem spelled_of_getElem? (hlength : flags.length = s.length) (huncased : t.uncased = s.uncased)
    (h : ∀ i < s.length, t[i]? ≠ s[i]? → flags[i]? = some true) : Spelled flags s t := by
  induction s generalizing flags t with
  | nil =>
    obtain rfl : flags = [] := List.length_eq_zero_iff.mp hlength
    obtain rfl : t = [] := List.map_eq_nil_iff.mp huncased
    exact .nil
  | cons c s ih =>
    obtain ⟨flag, flags, rfl⟩ := List.exists_cons_of_length_eq_add_one hlength
    obtain ⟨b, t, rfl, hb, ht⟩ := List.map_eq_cons_iff.mp huncased
    have htail : Spelled flags s t := by
      refine ih (Nat.succ.inj hlength) ht ?_
      intro i hi hne
      have hflag := h (i + 1) (Nat.succ_lt_succ hi)
      simp only [List.getElem?_cons_succ] at hflag
      exact hflag hne
    by_cases hbc : b = c
    · subst hbc
      exact .same htail
    · have hflag : flag = true := by
        have hzero := h 0 (Nat.zero_lt_succ _)
        simpa [hbc] using hzero
      subst hflag
      exact .other hb htail

end Spelled

/-- Two constructs that differ at most in the case of letters of their tag names. -/
inductive Construct.Respelled : Construct → Construct → Prop
  | text (content : Text) : Respelled (.text content) (.text content)
  | expression (body : Text) : Respelled (.expression body) (.expression body)
  | openTag {name name' gap : Text} {parts : List TagPart} {slash : Bool} :
      name'.uncased = name.uncased →
      Respelled (.openTag name parts gap slash) (.openTag name' parts gap slash)
  | closeTag {name name' gap : Text} {strays : List Stray} : name'.uncased = name.uncased →
      Respelled (.closeTag name strays gap) (.closeTag name' strays gap)
  | comment {opening opening' content closing closing' : Text} :
      opening'.uncased = opening.uncased → closing'.uncased = closing.uncased →
      Respelled (.comment opening content closing) (.comment opening' content closing')

inductive Ending.Respelled : Ending → Ending → Prop
  | clean : Respelled .clean .clean
  | expression (text : Text) : Respelled (.expression text) (.expression text)
  | openTag {name name' rest : Text} {parts : List TagPart} : name'.uncased = name.uncased →
      Respelled (.openTag name parts ('<' :: name ++ rest))
        (.openTag name' parts ('<' :: name' ++ rest))
  | closeTag {name name' rest : Text} {strays : List Stray} : name'.uncased = name.uncased →
      Respelled (.closeTag name strays ('<' :: '/' :: name ++ rest))
        (.closeTag name' strays ('<' :: '/' :: name' ++ rest))
  | commentStart (text : Text) : Respelled (.comment none text) (.comment none text)
  | comment {opening opening' rest : Text} : opening'.uncased = opening.uncased →
      Respelled (.comment (some opening) (opening ++ rest))
        (.comment (some opening') (opening' ++ rest))

/-- Where letters of a construct may have another case: in its tag names, and in all of the tags of
a comment. -/
def Construct.flags : Construct → List Bool
  | text content => fixed content
  | expression body => fixed (source (.expression body))
  | openTag name parts gap slash =>
    free ('<' :: name) ++ fixed (parts.flatMap TagPart.source ++ gap ++ tagEnd slash)
  | closeTag name strays gap =>
    free ('<' :: '/' :: name) ++ fixed (strays.flatMap Stray.source ++ gap ++ ['>'])
  | comment opening content closing => free opening ++ (fixed content ++ free closing)

/-- What is left of a template up to the end of the tag name or of the open tag of a comment. -/
def Ending.head : Ending → Text
  | clean | expression _ | comment none _ => []
  | openTag name .. => '<' :: name
  | closeTag name .. => '<' :: '/' :: name
  | comment (some opening) _ => opening

def Ending.flags (e : Ending) : List Bool := free e.head ++ fixed (e.source.drop e.head.length)

section Flags

variable {c : Construct} {e : Ending} {t : Text}

theorem toLower_delimiter {b : Char} (h : b ∈ delimiters) {c : Char} (hc : c.toLower = b.toLower) :
    c = b := by
  have hb : b.toLower = b := (toLower_eq_iff h).mpr rfl
  rwa [hb, toLower_eq_iff h] at hc

theorem exists_of_uncased_cons {b : Char} (h : b ∈ delimiters) {u : Text}
    (ht : t.uncased = Text.uncased (b :: u)) : ∃ v : Text, t = b :: v ∧ v.uncased = u.uncased := by
  obtain ⟨c, v, rfl, hc, hv⟩ := List.map_eq_cons_iff.mp ht
  obtain rfl := toLower_delimiter h hc
  exact ⟨v, rfl, hv⟩

theorem Construct.length_flags (c : Construct) : c.flags.length = c.source.length := by
  cases c <;> simp [flags, source] <;> omega

/-- What a construct looks like in another spelling. -/
theorem Construct.exists_respelled (h : Spelled c.flags c.source t) :
    ∃ c', c.Respelled c' ∧ c'.source = t := by
  cases c with
  | text content =>
    obtain rfl := Spelled.eq_of_fixed h
    exact ⟨_, .text _, rfl⟩
  | expression body =>
    obtain rfl := Spelled.eq_of_fixed h
    exact ⟨_, .expression _, rfl⟩
  | openTag name parts gap slash =>
    have hsource : source (.openTag name parts gap slash) =
        '<' :: name ++ (parts.flatMap TagPart.source ++ gap ++ tagEnd slash) := by
      simp [source]
    rw [hsource, flags] at h
    obtain ⟨t₁, t₂, rfl, h₁, h₂⟩ := h.split (length_free _)
    obtain rfl := h₂.eq_of_fixed
    obtain ⟨name', rfl, hname⟩ := exists_of_uncased_cons (by simp [delimiters]) h₁.uncased_eq
    exact ⟨_, .openTag hname, by simp [source]⟩
  | closeTag name strays gap =>
    have hsource : source (.closeTag name strays gap) =
        '<' :: '/' :: name ++ (strays.flatMap Stray.source ++ gap ++ ['>']) := by
      simp [source]
    rw [hsource, flags] at h
    obtain ⟨t₁, t₂, rfl, h₁, h₂⟩ := h.split (length_free _)
    obtain rfl := h₂.eq_of_fixed
    obtain ⟨t₃, rfl, h₃⟩ := exists_of_uncased_cons (by simp [delimiters]) h₁.uncased_eq
    obtain ⟨name', rfl, hname⟩ := exists_of_uncased_cons (by simp [delimiters]) h₃
    exact ⟨_, .closeTag hname, by simp [source]⟩
  | comment opening content closing =>
    have hsource : source (.comment opening content closing) = opening ++ (content ++ closing) := by
      simp [source]
    rw [hsource, flags] at h
    obtain ⟨opening', t₂, rfl, hopening, h₂⟩ := h.split (length_free _)
    obtain ⟨t₃, closing', rfl, h₃, hclosing⟩ := h₂.split (length_fixed _)
    obtain rfl := h₃.eq_of_fixed
    exact ⟨_, .comment hopening.uncased_eq hclosing.uncased_eq, by simp [source]⟩

theorem Ending.exists_rest (h : e.Tidy) :
    ∃ rest, e.source = e.head ++ rest ∧ e.flags = free e.head ++ fixed rest := by
  have hprefix : ∃ rest, e.source = e.head ++ rest := by
    cases e with
    | clean => exact ⟨[], rfl⟩
    | openTag name parts text =>
      obtain ⟨-, rest, rfl⟩ := h
      exact ⟨parts.flatMap TagPart.source ++ rest, by simp [source, head]⟩
    | closeTag name strays text =>
      obtain ⟨-, rest, rfl⟩ := h
      exact ⟨strays.flatMap Stray.source ++ rest, by simp [source, head]⟩
    | expression text => exact ⟨text, rfl⟩
    | comment opening text =>
      cases opening with
      | none => exact ⟨text, rfl⟩
      | some opening => exact h
  obtain ⟨rest, hrest⟩ := hprefix
  refine ⟨rest, hrest, ?_⟩
  rw [flags, hrest, List.drop_left]

theorem Ending.length_flags (h : e.Tidy) : e.flags.length = e.source.length := by
  obtain ⟨rest, hsource, hflags⟩ := exists_rest h
  rw [hsource, hflags, List.length_append, List.length_append, length_free, length_fixed]

theorem Ending.exists_respelled (ht : e.Tidy) (h : Spelled e.flags e.source t) :
    ∃ e', e.Respelled e' ∧ e'.source = t := by
  obtain ⟨rest, hsource, hflags⟩ := exists_rest ht
  rw [hsource, hflags] at h
  obtain ⟨head', t₂, rfl, h₁, h₂⟩ := h.split (length_free _)
  obtain rfl := h₂.eq_of_fixed
  have hhead := h₁.uncased_eq
  cases e with
  | clean =>
    obtain rfl : head' = [] := List.map_eq_nil_iff.mp hhead
    exact ⟨.clean, .clean, hsource⟩
  | openTag name parts text =>
    obtain rfl : text = '<' :: name ++ t₂ := hsource
    obtain ⟨name', rfl, hname⟩ := exists_of_uncased_cons (by simp [delimiters]) hhead
    exact ⟨_, .openTag hname, rfl⟩
  | closeTag name strays text =>
    obtain rfl : text = '<' :: '/' :: name ++ t₂ := hsource
    obtain ⟨t₃, rfl, h₃⟩ := exists_of_uncased_cons (by simp [delimiters]) hhead
    obtain ⟨name', rfl, hname⟩ := exists_of_uncased_cons (by simp [delimiters]) h₃
    exact ⟨_, .closeTag hname, rfl⟩
  | expression text =>
    obtain rfl : head' = [] := List.map_eq_nil_iff.mp hhead
    exact ⟨_, .expression text, hsource⟩
  | comment opening text =>
    cases opening with
    | none =>
      obtain rfl : head' = [] := List.map_eq_nil_iff.mp hhead
      exact ⟨_, .commentStart text, hsource⟩
    | some opening =>
      obtain rfl : text = opening ++ t₂ := hsource
      exact ⟨_, .comment hhead, rfl⟩

end Flags

section Names

variable {p : Position} {kind : TokenKind} {text : Text} {t : Token} {i : Nat} {more : List Bool}

theorem Token.NameAt.place (h : (Token.place p kind text).NameAt i) :
    kind.nameStart? ≠ none ∧ p.offset ≤ i ∧ i < p.offset + text.length := by
  obtain ⟨n, hn, hstart, hstop⟩ := h
  have hkind : kind.nameStart? = some n := hn
  have hlength : ((text.drop n).takeWhile isNameChar).length ≤ text.length - n := by
    rw [← List.length_drop]
    exact (List.takeWhile_prefix isNameChar).length_le
  simp only [Token.place, Span.covering] at hstart hstop
  refine ⟨by simp [hkind], ?_, ?_⟩ <;> omega

theorem not_nameAt_of_isPart (h : t.isPart = true) : ¬ t.NameAt i := by
  rintro ⟨n, hn, -⟩
  obtain ⟨kind, text, span⟩ := t
  cases kind <;> cases h <;> cases hn

theorem getElem?_free {u : Text} (h : i < u.length) : (free u ++ more)[i]? = some true := by
  rw [List.getElem?_append_left (by simpa using h), free, List.getElem?_map,
    List.getElem?_eq_getElem h]
  rfl

theorem flags_of_mem_openTagTokens {name : Text} {parts : List TagPart}
    (ht : t ∈ openTagTokens p name parts) (h : t.NameAt i) :
    p.offset ≤ i ∧ (free ('<' :: name) ++ more)[i - p.offset]? = some true := by
  rw [openTagTokens_eq] at ht
  rcases List.mem_cons.mp ht with rfl | hpart
  · obtain ⟨-, hstart, hstop⟩ := h.place
    exact ⟨hstart, getElem?_free (by omega)⟩
  · exact (not_nameAt_of_isPart (isPart_of_mem_partTokens hpart) h).elim

theorem flags_of_mem_closeTagTokens {name : Text} {strays : List Stray}
    (ht : t ∈ closeTagTokens p name strays) (h : t.NameAt i) :
    p.offset ≤ i ∧ (free ('<' :: '/' :: name) ++ more)[i - p.offset]? = some true := by
  rw [closeTagTokens_eq] at ht
  rcases List.mem_cons.mp ht with rfl | hstray
  · obtain ⟨-, hstart, hstop⟩ := h.place
    exact ⟨hstart, getElem?_free (by omega)⟩
  · exact (not_nameAt_of_isPart (isPart_of_mem_strayTokens hstray) h).elim

/-- The names of the tokens of a construct are where its letters may have another case. -/
theorem Construct.flags_of_nameAt {c : Construct} (ht : t ∈ c.tokens p) (h : t.NameAt i) :
    p.offset ≤ i ∧ c.flags[i - p.offset]? = some true := by
  cases c with
  | text content =>
    obtain rfl := List.mem_singleton.mp ht
    exact (h.place.1 rfl).elim
  | expression body =>
    simp only [tokens, Token.placeAll, List.mem_cons, List.not_mem_nil, or_false] at ht
    rcases ht with rfl | rfl | rfl <;> exact (h.place.1 rfl).elim
  | openTag name parts gap slash =>
    rcases List.mem_append.mp ht with ht | ht
    · exact flags_of_mem_openTagTokens ht h
    · obtain rfl := List.mem_singleton.mp ht
      exact (h.place.1 rfl).elim
  | closeTag name strays gap =>
    rcases List.mem_append.mp ht with ht | ht
    · exact flags_of_mem_closeTagTokens ht h
    · obtain rfl := List.mem_singleton.mp ht
      exact (h.place.1 rfl).elim
  | comment opening content closing =>
    simp only [tokens, Token.placeAll, List.mem_cons, List.not_mem_nil, or_false] at ht
    rcases ht with rfl | rfl | rfl
    · obtain ⟨-, hstart, hstop⟩ := h.place
      exact ⟨hstart, getElem?_free (by omega)⟩
    · exact (h.place.1 rfl).elim
    · obtain ⟨-, hstart, hstop⟩ := h.place
      simp only [Position.offset_advance] at hstart hstop
      refine ⟨by omega, ?_⟩
      have hlengths : (free opening ++ fixed content).length = opening.length + content.length := by
        simp
      have hlt : i - p.offset - (opening.length + content.length) < closing.length := by omega
      have hclosing : (free closing ++ [])[i - p.offset - (opening.length + content.length)]? =
        some true := getElem?_free hlt
      rw [List.append_nil] at hclosing
      rw [flags, ← List.append_assoc, List.getElem?_append_right (by omega), hlengths, hclosing]

theorem Ending.flags_of_nameAt {e : Ending} (ht : t ∈ e.tokens p) (h : t.NameAt i) :
    p.offset ≤ i ∧ e.flags[i - p.offset]? = some true := by
  rw [tokens_eq] at ht
  rcases List.mem_append.mp ht with ht | ht
  · cases e with
    | clean => cases ht
    | openTag name parts text => exact flags_of_mem_openTagTokens ht h
    | closeTag name strays text => exact flags_of_mem_closeTagTokens ht h
    | expression text =>
      obtain rfl := List.mem_singleton.mp ht
      exact (h.place.1 rfl).elim
    | comment opening text =>
      cases opening with
      | none => cases ht
      | some opening =>
        obtain rfl := List.mem_singleton.mp ht
        obtain ⟨-, hstart, hstop⟩ := h.place
        have hlt : i - p.offset < opening.length := by omega
        exact ⟨hstart, getElem?_free hlt⟩
  · obtain rfl := List.mem_singleton.mp ht
    exact (h.place.1 rfl).elim

/-- Where letters of a template may have another case. -/
def Reading.flags (r : Reading) : List Bool :=
  r.constructs.flatMap Construct.flags ++ r.ending.flags

theorem flags_of_mem_tokens {cs : List Construct} {e : Ending}
    (ht : t ∈ constructTokens p cs ++ e.tokens (p.advance (cs.flatMap Construct.source)))
    (h : t.NameAt i) :
    p.offset ≤ i ∧ (cs.flatMap Construct.flags ++ e.flags)[i - p.offset]? = some true := by
  induction cs generalizing p with
  | nil => exact Ending.flags_of_nameAt (by simpa using ht) h
  | cons c cs ih =>
    rw [constructTokens_cons, List.append_assoc] at ht
    rcases List.mem_append.mp ht with ht | ht
    · obtain ⟨hstart, hflag⟩ := Construct.flags_of_nameAt ht h
      obtain ⟨hlt, -⟩ := List.getElem?_eq_some_iff.mp hflag
      rw [List.flatMap_cons, List.append_assoc, List.getElem?_append_left hlt]
      exact ⟨hstart, hflag⟩
    · obtain ⟨hstart, hflag⟩ := ih (p := p.advance c.source) (by simpa using ht)
      rw [Position.offset_advance] at hstart hflag
      have hlength := c.length_flags
      rw [List.flatMap_cons, List.append_assoc, List.getElem?_append_right (by omega), hlength,
        Nat.sub_sub]
      exact ⟨by omega, hflag⟩

end Names

section Steps

variable {d : Dialect} {raw : Option RawText} {c c' : Construct} {e e' : Ending} {s s' : Text}

theorem length_eq_of_uncased {t u : Text} (h : t.uncased = u.uncased) : t.length = u.length := by
  have hlength := congrArg List.length h
  rwa [length_uncased, length_uncased] at hlength

theorem canonicalName_congr {name name' : Text} (h : name'.uncased = name.uncased) :
    canonicalName name' = canonicalName name := by
  rw [← canonicalName_uncased name', h, canonicalName_uncased]

theorem isIsmlTag_congr {name name' : Text} (h : name'.uncased = name.uncased) :
    isIsmlTag name' = isIsmlTag name := by
  rw [isIsmlTag, isIsmlTag, canonicalName_congr h]

theorem isVoid_congr {name name' : Text} (h : name'.uncased = name.uncased) :
    isVoid name' = isVoid name := by
  rw [isVoid, isVoid, canonicalName_congr h]

theorem recognizes_congr {name name' : Text} (h : name'.uncased = name.uncased) (closing : Bool) :
    recognizes d raw name' closing = recognizes d raw name closing := by
  cases raw <;> simp only [recognizes, isIsmlTag_congr h, canonicalName_congr h]

theorem splitName?_congr {name rest : Text} (h : splitName? s = some (name, rest))
    (hs : s'.uncased = s.uncased) : ∃ name' rest', splitName? s' = some (name', rest') ∧
      name'.uncased = name.uncased := by
  have hmap := splitName?_uncased s'
  rw [hs, splitName?_uncased, h] at hmap
  obtain ⟨⟨name', rest'⟩, hsplit, hpair⟩ := Option.map_eq_some_iff.mp hmap.symm
  exact ⟨name', rest', hsplit, congrArg Prod.fst hpair⟩

/-- A name is cut off where the other spelling of it is. -/
theorem splitName?_respelled {name name' rest : Text}
    (h : splitName? (name ++ rest) = some (name, rest)) (hname : name'.uncased = name.uncased) :
    splitName? (name' ++ rest) = some (name', rest) := by
  have huncased : Text.uncased (name' ++ rest) = Text.uncased (name ++ rest) := by simp [hname]
  obtain ⟨found, rest', hsplit, hfound⟩ := splitName?_congr h huncased
  have hlength := length_eq_of_uncased (hfound.trans hname.symm)
  obtain ⟨rfl, rfl⟩ := List.append_inj (splitName?_eq hsplit) hlength.symm
  exact hsplit

theorem opener?_openTag_respelled {name name' rest : Text}
    (h : opener? d raw ('<' :: name ++ rest) = some (.openTag name rest))
    (hname : name'.uncased = name.uncased) :
    opener? d raw ('<' :: name' ++ rest) = some (.openTag name' rest) := by
  generalize htext : '<' :: name ++ rest = text at h
  cases opens_of_opener? h with
  | openTag hs hne hrec =>
    rw [← List.tail_eq_of_cons_eq htext] at hs
    refine opener?_of_opens (.openTag (splitName?_respelled hs hname) ?_ ?_)
    · rwa [canonicalName_congr hname]
    · rwa [recognizes_congr hname]

theorem opener?_closeTag_respelled {name name' rest : Text}
    (h : opener? d raw ('<' :: '/' :: name ++ rest) = some (.closeTag name rest))
    (hname : name'.uncased = name.uncased) :
    opener? d raw ('<' :: '/' :: name' ++ rest) = some (.closeTag name' rest) := by
  cases opens_of_opener? h with
  | closeTag hs hrec =>
    refine opener?_of_opens (.closeTag (splitName?_respelled hs hname) ?_)
    rwa [recognizes_congr hname]

theorem opener?_comment_congr (h : opener? d raw s = some .comment) (hs : s'.uncased = s.uncased) :
    opener? d raw s' = some .comment := by
  cases opens_of_opener? h with
  | comment hsplit hcomment =>
    obtain ⟨t, rfl, ht⟩ := exists_of_uncased_cons (by simp [delimiters]) hs
    obtain ⟨name', rest', hsplit', hname⟩ := splitName?_congr hsplit ht
    exact opener?_of_opens (.comment hsplit' (by rwa [canonicalName_congr hname]))

theorem scanComment_congr (hs : s'.uncased = s.uncased) :
    (scanComment s').uncased = (scanComment s).uncased := by
  rw [← scanComment_uncased, hs, scanComment_uncased]

theorem scanComment_respelled {opening opening' content closing closing' : Text}
    (h : scanComment (opening ++ content ++ closing) = .closed opening content closing [])
    (hopening : opening'.uncased = opening.uncased)
    (hclosing : closing'.uncased = closing.uncased) :
    scanComment (opening' ++ content ++ closing') = .closed opening' content closing' [] := by
  have hs : Text.uncased (opening' ++ content ++ closing') =
      Text.uncased (opening ++ content ++ closing) := by simp [hopening, hclosing]
  have huncased := scanComment_congr hs
  rw [h] at huncased
  cases hscan : scanComment (opening' ++ content ++ closing') with
  | cutOff found =>
    rw [hscan] at huncased
    cases huncased
  | closed o b cl r =>
    rw [hscan] at huncased
    obtain ⟨ho, hb, hcl, hr⟩ := CommentScan.closed.inj huncased
    obtain rfl : r = [] := List.map_eq_nil_iff.mp hr
    have hsource := (scanComment_closed hscan).1
    rw [List.append_nil] at hsource
    have hlength := length_eq_of_uncased (ho.trans hopening.symm)
    have hcontent := length_eq_of_uncased hb
    obtain ⟨hfront, rfl⟩ := List.append_inj hsource (by simp [hlength, hcontent])
    obtain ⟨rfl, rfl⟩ := List.append_inj hfront hlength.symm
    rfl

theorem scanComment_cutOff_respelled {opening opening' rest : Text}
    (h : scanComment (opening ++ rest) = .cutOff (some opening))
    (hopening : opening'.uncased = opening.uncased) :
    scanComment (opening' ++ rest) = .cutOff (some opening') := by
  have hs : Text.uncased (opening' ++ rest) = Text.uncased (opening ++ rest) := by simp [hopening]
  have huncased := scanComment_congr hs
  rw [h] at huncased
  cases hscan : scanComment (opening' ++ rest) with
  | closed o b cl r =>
    rw [hscan] at huncased
    cases huncased
  | cutOff found =>
    rw [hscan] at huncased
    obtain ⟨o, rfl, ho⟩ := Option.map_eq_some_iff.mp (CommentScan.cutOff.inj huncased)
    obtain ⟨r, hthrough⟩ := throughBracket?_of_cutOff hscan
    have hlength := length_eq_of_uncased (ho.trans hopening.symm)
    obtain ⟨rfl, -⟩ := List.append_inj (throughBracket?_eq hthrough).1 hlength.symm
    rfl

/-- A construct in another spelling is read as what it is. -/
theorem Construct.Respelled.step (h : c.Respelled c')
    (hc : Reading.step d raw c.source = .construct c []) :
    Reading.step d raw c'.source = .construct c' [] := by
  cases h with
  | text | expression => exact hc
  | @openTag name name' gap parts slash hname =>
    cases Reading.reads_of_step hc with
    | @openTag _ _ after _ _ _ _ ho hscan =>
      have hsource := opener?_openTag ho
      rw [hsource] at ho
      have hsource' : source (.openTag name' parts gap slash) = '<' :: name' ++ after := by
        have hafter : parts.flatMap TagPart.source ++ gap ++ tagEnd slash = after := by
          simpa [source] using hsource
        simp [source, ← hafter]
      rw [hsource']
      exact Reading.step_of_reads (.openTag (opener?_openTag_respelled ho hname) hscan)
  | @closeTag name name' gap strays hname =>
    cases Reading.reads_of_step hc with
    | @closeTag _ _ after _ _ _ ho hscan =>
      have hsource := opener?_closeTag ho
      rw [hsource] at ho
      have hsource' : source (.closeTag name' strays gap) = '<' :: '/' :: name' ++ after := by
        have hafter : strays.flatMap Stray.source ++ gap ++ ['>'] = after := by
          simpa [source] using hsource
        simp [source, ← hafter]
      rw [hsource']
      exact Reading.step_of_reads (.closeTag (opener?_closeTag_respelled ho hname) hscan)
  | @comment opening opening' content closing closing' hopening hclosing =>
    generalize htext : source (.comment opening content closing) = text at hc
    cases Reading.reads_of_step hc with
    | comment ho hscan =>
      subst htext
      have huncased : Text.uncased (source (.comment opening' content closing')) =
          Text.uncased (source (.comment opening content closing)) := by
        simp [source, hopening, hclosing]
      exact Reading.step_of_reads
        (.comment (opener?_comment_congr ho huncased)
          (scanComment_respelled hscan hopening hclosing))

theorem Ending.Respelled.step (h : e.Respelled e') (he : Reading.step d raw e.source = .ending e) :
    Reading.step d raw e'.source = .ending e' := by
  cases h with
  | clean | expression | commentStart => exact he
  | openTag hname =>
    cases Reading.reads_of_step he with
    | unclosedOpenTag ho hscan =>
      obtain rfl := List.append_cancel_left (opener?_openTag ho)
      exact Reading.step_of_reads (.unclosedOpenTag (opener?_openTag_respelled ho hname) hscan)
  | closeTag hname =>
    cases Reading.reads_of_step he with
    | unclosedCloseTag ho hscan =>
      obtain rfl := List.append_cancel_left (opener?_closeTag ho)
      exact Reading.step_of_reads (.unclosedCloseTag (opener?_closeTag_respelled ho hname) hscan)
  | @comment opening opening' rest hopening =>
    change Reading.step d raw (opening ++ rest) = _ at he
    generalize htext : opening ++ rest = text at he
    cases Reading.reads_of_step he with
    | unclosedComment ho hscan =>
      subst htext
      have huncased : Text.uncased (opening' ++ rest) = Text.uncased (opening ++ rest) := by
        simp [hopening]
      exact Reading.step_of_reads (.unclosedComment (opener?_comment_congr ho huncased)
        (scanComment_cutOff_respelled hscan hopening))

theorem Construct.Respelled.after (h : c.Respelled c') :
    RawText.after d raw c' = RawText.after d raw c := by
  cases h with
  | text | expression | comment => rfl
  | @openTag name name' gap parts slash hname =>
    cases slash with
    | true => rfl
    | false =>
      cases raw <;> simp only [RawText.after, RawText.afterOpen, isIsmlTag_congr hname,
        isVoid_congr hname, canonicalName_congr hname]
  | closeTag hname =>
    cases raw <;> simp only [RawText.after, RawText.afterClose, isIsmlTag_congr hname,
      canonicalName_congr hname]

theorem Construct.Respelled.isText (h : c.Respelled c') : c'.isText = c.isText := by
  cases h <;> rfl

end Steps

/-- Two readings that differ at most in the case of letters of tag names. -/
structure Reading.Respelled (r r' : Reading) : Prop where
  constructs : List.Forall₂ Construct.Respelled r.constructs r'.constructs
  ending : r.ending.Respelled r'.ending

namespace Reading

variable {d : Dialect} {raw : Option RawText} {r r' : Reading} {cs cs' : List Construct}
  {e : Ending}
  {s s' t : Text}

theorem length_flags (h : r.ending.Tidy) : r.flags.length = r.source.length := by
  have hconstructs : (r.constructs.flatMap Construct.flags).length =
      (r.constructs.flatMap Construct.source).length := by
    simp only [List.length_flatMap, Construct.length_flags]
  rw [flags, source, List.length_append, List.length_append, hconstructs, Ending.length_flags h]

theorem exists_respelled (he : e.Tidy)
    (h : Spelled (cs.flatMap Construct.flags ++ e.flags)
      (cs.flatMap Construct.source ++ e.source) t) :
    ∃ r' : Reading, Respelled ⟨cs, e⟩ r' ∧ r'.source = t := by
  induction cs generalizing t with
  | nil =>
    obtain ⟨e', hending, rfl⟩ := Ending.exists_respelled he h
    exact ⟨⟨[], e'⟩, ⟨.nil, hending⟩, rfl⟩
  | cons c cs ih =>
    rw [List.flatMap_cons, List.flatMap_cons, List.append_assoc, List.append_assoc] at h
    obtain ⟨t₁, t₂, rfl, h₁, h₂⟩ := h.split c.length_flags
    obtain ⟨c', hconstruct, rfl⟩ := Construct.exists_respelled h₁
    obtain ⟨r', hrest, rfl⟩ := ih h₂
    refine ⟨⟨c' :: r'.constructs, r'.ending⟩, ⟨.cons hconstruct hrest.constructs, hrest.ending⟩, ?_⟩
    simp [source]

theorem stands_respelled (h : List.Forall₂ Construct.Respelled cs cs') (hcs : Stands d raw cs) :
    Stands d raw cs' := by
  induction h generalizing raw with
  | nil => trivial
  | cons hc _ ih =>
    obtain ⟨hstep, hrest⟩ := hcs
    refine ⟨hc.step hstep, ?_⟩
    rw [hc.after]
    exact ih hrest

theorem foldl_after_respelled (h : List.Forall₂ Construct.Respelled cs cs') (raw : Option RawText) :
    cs'.foldl (RawText.after d) raw = cs.foldl (RawText.after d) raw := by
  induction h generalizing raw with
  | nil => rfl
  | cons hc _ ih => rw [List.foldl_cons, List.foldl_cons, hc.after, ih]

theorem map_isText_respelled (h : List.Forall₂ Construct.Respelled cs cs') :
    cs'.map Construct.isText = cs.map Construct.isText := by
  induction h with
  | nil => rfl
  | cons hc _ ih => rw [List.map_cons, List.map_cons, hc.isText, ih]

theorem Respelled.segmented (h : r.Respelled r') (hr : r.Segmented d raw) : r'.Segmented d raw where
  stands := stands_respelled h.constructs hr.stands
  separate := separate_of_map_isText (map_isText_respelled h.constructs).symm hr.separate
  ends := by
    rw [foldl_after_respelled h.constructs]
    exact h.ending.step hr.ends

/-- A template in another spelling of its tag names is read as the same constructs, in another
spelling of their names. -/
theorem ofText_respelled (h : Respells d s s') : (ofText d s).Respelled (ofText d s') := by
  have hsource : (ofText d s).source = s := source_ofText d s
  have htidy : (ofText d s).ending.Tidy := (inRawText_tidy d none s).2
  have hspelled : Spelled (ofText d s).flags (ofText d s).source s' := by
    rw [hsource]
    refine spelled_of_getElem? ?_ h.uncased_eq ?_
    · rw [length_flags htidy]
      exact congrArg List.length hsource
    · intro i hi hne
      obtain ⟨t, ht, hname⟩ := h.onlyNames i hi hne
      exact (flags_of_mem_tokens ht hname).2
  obtain ⟨r', hrespelled, hr'⟩ := exists_respelled htidy hspelled
  have hread : ofText d s' = r' :=
    inRawText_eq_iff.mpr ⟨hrespelled.segmented (segmented_inRawText d none s), hr'⟩
  rw [hread]
  exact hrespelled

end Reading

end StoreMarkup
