import StoreMarkup.Proofs.ExpressionExtent
import StoreMarkup.Proofs.Origins
import StoreMarkup.Proofs.Parsing
import StoreMarkup.Proofs.Spans
import StoreMarkup.Proofs.Tiling

/-! The fragments of attribute values: they make up the value between its quotes, and each of them
is what its kind allows. -/
namespace StoreMarkup

/-- Text that stays inside a value: without its quote if it has one, and otherwise without blanks
and the end of the tag. -/
def StaysInside : Option Quote → Text → Prop
  | some q, t => q.char ∉ t
  | none, t => ∀ c ∈ t, isBlank c = false ∧ c ≠ '>'

/-- What a fragment may hold in a value with the given quote, if any. -/
def Fragment.Fits (quote : Option Quote) : Fragment → Prop
  | literal t => t ≠ [] ∧ ¬ Delimiter.dollar.opening <:+: t ∧ StaysInside quote t
  | expression .hash body => body ≠ [] ∧ StaysInside quote body
  | expression .dollar body => InsideExpression body

/-- One of two neighbours is an expression. -/
def Fragment.Apart (a b : Fragment) : Prop := a.isExpression = true ∨ b.isExpression = true

section Values

variable {d : Dialect} {quote : Option Quote} {c : Char} {s t cs rest : Text}

theorem staysInside_nil : StaysInside quote [] := by
  cases quote <;> simp [StaysInside]

theorem staysInside_append :
    StaysInside quote (s ++ t) ↔ StaysInside quote s ∧ StaysInside quote t := by
  cases quote with
  | none => simp only [StaysInside, List.forall_mem_append]
  | some q => simp [StaysInside]

theorem staysInside_singleton : StaysInside quote [c] ↔ endsHash quote c = false := by
  cases quote with
  | none => simp [StaysInside, endsHash]
  | some q =>
    simp only [StaysInside, List.mem_singleton, endsHash, beq_eq_false_iff_ne, ne_eq]
    exact not_congr eq_comm

theorem staysInside_cons :
    StaysInside quote (c :: t) ↔ endsHash quote c = false ∧ StaysInside quote t := by
  rw [← staysInside_singleton, ← staysInside_append, List.singleton_append]

/-- A string in a hash expression reaches no further than the value. -/
theorem staysInside_of_nestedTail {inner : Quote}
    (h : nestedTail quote inner s = some (t, rest)) : StaysInside quote t := by
  fun_induction nestedTail quote inner s generalizing t with
  | case1 | case2 => cases h
  | case3 cs hends =>
    cases h
    exact staysInside_singleton.mpr (by simpa using hends)
  | case4 c cs hends _ ih =>
    obtain ⟨u, hu, rfl⟩ := afterText_eq_some.mp h
    exact staysInside_cons.mpr ⟨by simpa using hends, ih hu⟩

theorem staysInside_of_hashTail (h : hashTail quote s = some (t, rest)) : StaysInside quote t := by
  fun_induction hashTail quote s generalizing t with
  | case1 | case3 | case4 => cases h
  | case2 cs =>
    cases h
    exact staysInside_nil
  | case5 c cs _ hends inner _ u r hu ih =>
    obtain ⟨v, hv, rfl⟩ := afterText_eq_some.mp h
    have hstring := staysInside_of_nestedTail hu
    exact staysInside_cons.mpr ⟨by simpa using hends, staysInside_append.mpr ⟨hstring, ih hv⟩⟩
  | case6 c cs _ hends _ ih =>
    obtain ⟨v, hv, rfl⟩ := afterText_eq_some.mp h
    exact staysInside_cons.mpr ⟨by simpa using hends, ih hv⟩

theorem endsHash_of_valueEnd? (h : valueEnd? quote c cs = none) : endsHash quote c = false := by
  cases quote with
  | some q => simpa [valueEnd?, endsHash] using h
  | none =>
    simp only [valueEnd?, ite_eq_right_iff, reduceCtorEq, imp_false, Bool.not_eq_true,
      Bool.or_eq_false_iff] at h
    simpa [endsHash] using h.1

theorem afterDollar?_of_literal (h : valueStep d quote c cs = .literal) :
    afterDollar? (c :: cs) = none := by
  unfold valueStep at h
  split at h
  · split at h <;> cases h
  · assumption

theorem fits_of_valueStep {delimiter : Delimiter} {body : Text}
    (h : valueStep d quote c cs = .expression delimiter body rest) :
    (Fragment.expression delimiter body).Fits quote := by
  unfold valueStep at h
  split at h
  · split at h
    · rename_i hbody
      cases h
      exact (expressionBody_eq_some_iff.mp hbody).1
    · cases h
  · split at h
    · split at h
      · rename_i hhash
        cases h
        obtain ⟨htail, hne⟩ := Option.filter_eq_some_iff.mp hhash
        exact ⟨by simpa using hne, staysInside_of_hashTail htail⟩
      · cases h
    · cases h

theorem not_infix_cons (h : c = '$' → t.head? ≠ some '{') (ht : ¬ Delimiter.dollar.opening <:+: t) :
    ¬ Delimiter.dollar.opening <:+: c :: t := by
  intro hin
  rcases List.infix_cons_iff.mp hin with hprefix | hin
  · obtain ⟨rest, hrest⟩ := hprefix
    obtain ⟨rfl, rfl⟩ := List.cons.inj hrest
    exact h rfl rfl
  · exact ht hin

theorem fits_consLiteral {fs : List Fragment} (hc : endsHash quote c = false)
    (hdollar : c = '$' → (fs.flatMap Fragment.source).head? ≠ some '{')
    (hfs : ∀ f ∈ fs, f.Fits quote) : ∀ f ∈ consLiteral c fs, f.Fits quote := by
  have hinside : StaysInside quote [c] := staysInside_singleton.mpr hc
  unfold consLiteral
  split
  · rename_i t gs
    obtain ⟨⟨hne, hno, ht⟩, hgs⟩ := List.forall_mem_cons.mp hfs
    refine List.forall_mem_cons.mpr ⟨⟨by simp, ?_, staysInside_cons.mpr ⟨hc, ht⟩⟩, hgs⟩
    refine not_infix_cons ?_ hno
    intro hd
    obtain ⟨b, bs, rfl⟩ := List.exists_cons_of_ne_nil hne
    exact hdollar hd
  · refine List.forall_mem_cons.mpr ⟨⟨by simp, ?_, hinside⟩, hfs⟩
    exact not_infix_cons (by simp) (by simp [Delimiter.opening])

/-- Every fragment of a value holds what its kind allows. -/
theorem fits_of_valueFragments {fs : List Fragment}
    (h : valueFragments d quote s = some (fs, rest)) : ∀ f ∈ fs, f.Fits quote := by
  fun_induction valueFragments d quote s generalizing fs with
  | case1 | case3 => cases h
  | case2 c cs r hr =>
    cases h
    simp
  | case4 c cs hgoes hstep ih =>
    obtain ⟨⟨gs, r⟩, hr, he⟩ := Option.map_eq_some_iff.mp h
    cases he
    refine fits_consLiteral (endsHash_of_valueEnd? hgoes) ?_ (ih hr)
    intro hd hhead
    refine afterDollar?_eq_none.mp (afterDollar?_of_literal hstep) hd ?_
    -- What follows the character starts with the fragments after it.
    obtain ⟨ds, hds⟩ := List.head?_eq_some_iff.mp hhead
    rw [valueFragments_eq hr, hds]
    rfl
  | case5 c cs hgoes delimiter body r hstep ih =>
    obtain ⟨⟨gs, r'⟩, hr, he⟩ := Option.map_eq_some_iff.mp h
    cases he
    exact List.forall_mem_cons.mpr ⟨fits_of_valueStep hstep, ih hr⟩

theorem apart_consLiteral {fs : List Fragment} (h : fs.IsChain Fragment.Apart) :
    (consLiteral c fs).IsChain Fragment.Apart := by
  unfold consLiteral
  split
  · rename_i t gs
    cases gs with
    | nil => exact .singleton _
    | cons g gs =>
      obtain ⟨hg, hgs⟩ := List.isChain_cons_cons.mp h
      refine .cons_cons (hg.imp ?_ id) hgs
      intro hliteral
      cases hliteral
  · rename_i hfs
    cases fs with
    | nil => exact .singleton _
    | cons g gs =>
      refine .cons_cons (Or.inr ?_) h
      cases g with
      | literal t => exact (hfs t gs rfl).elim
      | expression delimiter body => rfl

/-- No two literals of a value are neighbours. -/
theorem apart_of_valueFragments {fs : List Fragment}
    (h : valueFragments d quote s = some (fs, rest)) : fs.IsChain Fragment.Apart := by
  fun_induction valueFragments d quote s generalizing fs with
  | case1 | case3 => cases h
  | case2 c cs r hr =>
    cases h
    exact .nil
  | case4 c cs hgoes hstep ih =>
    obtain ⟨⟨gs, r⟩, hr, he⟩ := Option.map_eq_some_iff.mp h
    cases he
    exact apart_consLiteral (ih hr)
  | case5 c cs hgoes delimiter body r hstep ih =>
    obtain ⟨⟨gs, r'⟩, hr, he⟩ := Option.map_eq_some_iff.mp h
    cases he
    refine (ih hr).cons ?_
    intro g hg
    exact Or.inl rfl

end Values

/-- Each of some pieces of a text has a property that looks at what follows the piece, where `rest`
follows the last one. -/
def EachBefore {α : Type} (source : α → Text) (P : α → Text → Prop) (rest : Text) : List α → Prop
  | [] => True
  | a :: as => P a (as.flatMap source ++ rest) ∧ EachBefore source P rest as

section EachBefore

variable {α : Type} {source : α → Text} {P : α → Text → Prop} {rest : Text} {as bs : List α}

theorem eachBefore_append : EachBefore source P rest (as ++ bs) ↔
    EachBefore source P (bs.flatMap source ++ rest) as ∧ EachBefore source P rest bs := by
  induction as with
  | nil => simp [EachBefore]
  | cons a as ih => simp [EachBefore, ih, and_assoc]

theorem EachBefore.of_mem_locate (before : Text) {x : Located α} (h : EachBefore source P rest as)
    (hx : x ∈ locate source (Position.start.advance before) as) :
    ∃ left right, before ++ as.flatMap source ++ rest = left ++ source x.value ++ right ∧
      x.span = .covering (Position.start.advance left) (source x.value) ∧ P x.value right := by
  obtain ⟨left, right, rfl, hspan⟩ := exists_of_mem_locate hx
  obtain ⟨-, hP, -⟩ := eachBefore_append.mp h
  refine ⟨before ++ left.flatMap source, right.flatMap source ++ rest, by simp, ?_, hP⟩
  rw [Position.advance_append]
  exact hspan

end EachBefore

/-- A value is what its scan gives where it stands. -/
def TagPart.ReadsValue (d : Dialect) : TagPart → Text → Prop
  | .attribute _ _ (some v), rest =>
    valueFragments d v.quote (v.fragments.flatMap Fragment.source ++ quoteMark v.quote ++ rest) =
      some (v.fragments, rest)
  | _, _ => True

/-- Every value among some parts of a tag, which `rest` follows, is what its scan gives there. -/
def ReadsValues (d : Dialect) (parts : List TagPart) (rest : Text) : Prop :=
  EachBefore TagPart.source (TagPart.ReadsValue d) rest parts

/-- The parts that the scan of an open tag passes over. -/
def TagScan.parts : TagScan → List TagPart
  | closed parts _ _ _ | cutOff parts => parts

section Tags

variable (d : Dialect)

/-- What a step in an open tag reads of values. -/
def TagStep.ReadsValues (d : Dialect) : TagStep → Prop
  | .more parts rest => StoreMarkup.ReadsValues d parts rest
  | .cutOff parts => ∀ rest, StoreMarkup.ReadsValues d parts rest
  | .close _ _ _ => True

theorem readsValues_assignmentStep (gap name before after : Text) :
    (assignmentStep d gap name before after).ReadsValues d := by
  unfold assignmentStep
  split
  · intro rest
    exact ⟨trivial, trivial⟩
  · split
    · exact ⟨trivial, trivial, trivial⟩
    · split
      · intro rest
        exact ⟨trivial, trivial⟩
      · rename_i fragments rest hv
        refine ⟨?_, trivial⟩
        have hs := valueFragments_eq hv
        rw [hs] at hv
        exact hv

theorem readsValues_attributeStep (gap s : Text) : (attributeStep d gap s).ReadsValues d := by
  unfold attributeStep
  split
  · intro rest
    trivial
  · split
    · exact readsValues_assignmentStep d gap _ _ _
    · exact ⟨trivial, trivial⟩

theorem readsValues_tagStep (s : Text) : (tagStep d s).ReadsValues d := by
  unfold tagStep
  split
  · intro rest
    trivial
  · split
    · trivial
    · split
      · split
        · intro rest
          trivial
        · exact ⟨trivial, trivial⟩
      · split
        · exact ⟨trivial, trivial⟩
        · exact readsValues_attributeStep d _ _

theorem readsValues_scanTag (s : Text) : ∃ rest,
    s = (scanTag d s).parts.flatMap TagPart.source ++ rest ∧
      ReadsValues d (scanTag d s).parts rest := by
  fun_induction scanTag d s with
  | case1 s gap slash rest hs => exact ⟨s, rfl, trivial⟩
  | case2 s parts hs =>
    have htidy := tagStep_tidy d s
    have hreads := readsValues_tagStep d s
    rw [hs] at htidy hreads
    obtain ⟨-, rest, hrest⟩ := htidy
    exact ⟨rest, hrest, hreads rest⟩
  | case3 s parts rest hs ih =>
    have hreads := readsValues_tagStep d s
    rw [hs] at hreads
    obtain ⟨after, hafter, hrest⟩ := ih
    have hparts : ((scanTag d rest).after parts).parts = parts ++ (scanTag d rest).parts := by
      cases scanTag d rest <;> rfl
    refine ⟨after, ?_, ?_⟩
    · rw [hparts, List.flatMap_append, List.append_assoc, ← hafter]
      exact tagStep_more hs
    · rw [ReadsValues, hparts, eachBefore_append, ← hafter]
      exact ⟨hreads, hrest⟩

end Tags

/-- The values in a construct are what their scans give there. -/
def Construct.ReadsValues (d : Dialect) : Construct → Text → Prop
  | openTag _ parts gap slash, rest => StoreMarkup.ReadsValues d parts (gap ++ tagEnd slash ++ rest)
  | _, _ => True

/-- The values in an unfinished construct are what their scans give there. -/
def Ending.ReadsValues (d : Dialect) : Ending → Prop
  | openTag name parts text => ∃ rest, text = '<' :: name ++ parts.flatMap TagPart.source ++ rest ∧
      StoreMarkup.ReadsValues d parts rest
  | _ => True

namespace Reading

variable {d : Dialect} {raw : Option RawText} {s : Text}

theorem readsValues_step {c : Construct} {rest : Text} (h : step d raw s = .construct c rest) :
    c.ReadsValues d rest := by
  cases reads_of_step h with
  | @openTag _ _ after gap _ parts slash _ hscan =>
    obtain ⟨behind, hsource, hreads⟩ := readsValues_scanTag d after
    rw [hscan] at hsource hreads
    have hclosed := scanTag_closed hscan
    simp only [List.append_assoc] at hclosed
    obtain rfl := List.append_cancel_left (hsource.symm.trans hclosed)
    simpa [Construct.ReadsValues, TagScan.parts] using hreads
  | _ => trivial

theorem readsValues_ending {e : Ending} (h : step d raw s = .ending e) : e.ReadsValues d := by
  cases reads_of_step h with
  | @unclosedOpenTag _ _ after _ ho hscan =>
    obtain ⟨rest, hsource, hreads⟩ := readsValues_scanTag d after
    rw [hscan] at hsource hreads
    refine ⟨rest, ?_, hreads⟩
    rw [opener?_openTag ho, hsource]
    simp [TagScan.parts]
  | _ => trivial

theorem readsValues_inRawText (d : Dialect) (raw : Option RawText) (s : Text) :
    EachBefore Construct.source (Construct.ReadsValues d) (inRawText d raw s).ending.source
      (inRawText d raw s).constructs ∧ (inRawText d raw s).ending.ReadsValues d := by
  fun_induction inRawText d raw s with
  | case1 raw s e h => exact ⟨trivial, readsValues_ending h⟩
  | case2 raw s c rest h after ih =>
    refine ⟨⟨?_, ih.1⟩, ih.2⟩
    have hrest : after.source = rest := source_inRawText d _ rest
    rw [← source, hrest]
    exact readsValues_step h

end Reading

/-- A token is what reading a value with the given quote, if any, gives at its place: the fragments
up to the end of the value, with the quote on both sides. -/
def Token.ReadAs (d : Dialect) (s : Text) (quote : Option Quote) (t : Token) : Prop :=
  ∃ before body fragments after, s = before ++ quoteMark quote ++ body ∧
    valueFragments d quote body = some (fragments, after) ∧
    t = .place (Position.start.advance before)
      (.attributeValue (Value.locatedFragments ⟨[], quote, fragments⟩
        (Position.start.advance before)))
      (Value.text ⟨[], quote, fragments⟩)

section Tokens

variable {d : Dialect} {s : Text} {t : Token} {p : Position} {fragments : List (Located Fragment)}

theorem Value.readAs {v : Value} (before : Text) {after : Text}
    (h : valueFragments d v.quote
      (v.fragments.flatMap Fragment.source ++ quoteMark v.quote ++ after) =
      some (v.fragments, after)) :
    (Token.place (Position.start.advance before)
      (.attributeValue (v.locatedFragments (Position.start.advance before))) v.text).ReadAs d
        (before ++ v.text ++ after) v.quote :=
  ⟨before, _, v.fragments, after, by simp [text], h, rfl⟩

/-- A value among the parts of a tag is read with the quote that it shows. -/
theorem readAs_of_mem_partTokens {before after : Text} {parts : List TagPart}
    (hreads : ReadsValues d parts after) (htidy : ∀ part ∈ parts, part.Tidy)
    (h : t ∈ partTokens (Position.start.advance before) parts)
    (hkind : t.kind = .attributeValue fragments) :
    t.ReadAs d (before ++ parts.flatMap TagPart.source ++ after)
      (t.text.head?.bind Quote.ofChar?) := by
  obtain ⟨part, hpart, ht⟩ := List.mem_flatMap.mp h
  obtain ⟨left, right, hs, hspan, hvalue⟩ := EachBefore.of_mem_locate before hreads hpart
  have hquote := htidy part.value (value_mem_of_mem_locate hpart)
  rw [hspan] at ht
  rw [hs]
  cases hpart : part.value with
  | stray stray fault =>
    rw [hpart] at ht
    rw [List.mem_singleton.mp ht] at hkind
    cases hkind
  | «attribute» gap name value =>
    rw [hpart] at ht hvalue hquote
    cases value with
    | none =>
      rw [List.mem_singleton.mp ht] at hkind
      cases hkind
    | some v =>
      rcases List.mem_cons.mp ht with rfl | ht
      · cases hkind
      · rw [List.mem_singleton.mp ht]
        simp only [Token.place, hquote.2.2]
        have hread := Value.readAs (left ++ gap ++ name ++ v.lead) hvalue
        simpa [TagPart.source, Token.place, Span.covering] using hread

/-- Every value token of a template is read with the quote that it shows. -/
theorem readAs_of_mem_tokenize (h : t ∈ tokenize d s) (hkind : t.kind = .attributeValue fragments) :
    t.ReadAs d s (t.text.head?.bind Quote.ofChar?) := by
  obtain ⟨hreads, hending⟩ := Reading.readsValues_inRawText d none s
  obtain ⟨htidy, htidyEnding⟩ := Reading.inRawText_tidy d none s
  have hs := Reading.source_ofText d s
  rw [Reading.source] at hs
  rcases List.mem_append.mp h with h | h
  · obtain ⟨c, hc, ht⟩ := List.mem_flatMap.mp h
    obtain ⟨left, right, hsource, hspan, hvalues⟩ :=
      EachBefore.of_mem_locate [] hreads hc
    have hparts := htidy c.value (value_mem_of_mem_locate hc)
    obtain ⟨name, parts, gap, slash, hvalue, ht⟩ := Construct.exists_of_value ht hkind
    rw [hvalue] at hvalues hparts hsource
    rw [hspan, Span.covering, ← Position.advance_append] at ht
    have hread := readAs_of_mem_partTokens hvalues hparts.1 ht hkind
    have hall : s = left ++ '<' :: name ++ parts.flatMap TagPart.source ++
        (gap ++ tagEnd slash ++ right) := by
      rw [← hs]
      simpa [Construct.source, Reading.ofText] using hsource
    rwa [← hall] at hread
  · obtain ⟨name, parts, text, he, ht⟩ := Ending.exists_of_value h hkind
    rw [Reading.ofText] at he hs
    rw [he] at hending htidyEnding hs
    obtain ⟨rest, htext, hvalues⟩ := hending
    rw [Reading.endingStart, ← Position.advance_append] at ht
    have hread := readAs_of_mem_partTokens hvalues htidyEnding.1 ht hkind
    have hall : s = (Reading.ofText d s).constructs.flatMap Construct.source ++ '<' :: name ++
        parts.flatMap TagPart.source ++ rest := by
      rw [Ending.source, htext] at hs
      simpa [Reading.ofText] using hs.symm
    rwa [← hall] at hread

theorem quoteMark_injective {quote quote' : Option Quote} (h : quoteMark quote = quoteMark quote') :
    quote = quote' := by
  cases quote with
  | none => cases quote' with
    | none => rfl
    | some q => cases h
  | some q => cases quote' with
    | none => cases h
    | some q' =>
      have hchar : q.char = q'.char := (List.cons.inj h).1
      rw [← Quote.ofChar?_char q, hchar, Quote.ofChar?_char]

/-- A token is read with one quote only: the fragments that it holds leave the rest of it. -/
theorem Token.ReadAs.unique {quote quote' : Option Quote} (h : t.ReadAs d s quote)
    (h' : t.ReadAs d s quote') : quote = quote' := by
  obtain ⟨before, body, fs, after, -, -, ht⟩ := h
  obtain ⟨before', body', fs', after', -, -, ht'⟩ := h'
  have heq := ht.symm.trans ht'
  simp only [place, Token.mk.injEq, TokenKind.attributeValue.injEq] at heq
  obtain ⟨hfragments, htext, -⟩ := heq
  obtain rfl : fs = fs' := by
    have hvalues := congrArg (List.map Located.value) hfragments
    simpa [Value.locatedFragments, map_value_locate] using hvalues
  have hlength : (quoteMark quote ++ fs.flatMap Fragment.source).length =
      (quoteMark quote' ++ fs.flatMap Fragment.source).length := by
    have hall := congrArg List.length htext
    simp only [Value.text, List.length_append] at hall ⊢
    omega
  exact quoteMark_injective (List.append_inj htext hlength).2

/-- The fragments of a value token make up its text between the quotes, one right after the other.
Each has the text at its region and what its kind allows, and no two literals are neighbours. -/
structure Token.Fragmented (s : Text) (t : Token) (quote : Option Quote)
    (fragments : List (Located Fragment)) : Prop where
  text : t.text = quoteMark quote ++ fragments.flatMap (fun f => f.value.source) ++ quoteMark quote
  contiguous : ∃ stop, stop + (quoteMark quote).length = t.span.stop.offset ∧
    Contiguous (t.span.start.offset + (quoteMark quote).length) stop (fragments.map Located.span)
  source : ∀ f ∈ fragments, f.value.source = s.slice f.span.start.offset f.span.stop.offset
  fits : ∀ f ∈ fragments, f.value.Fits quote
  apart : fragments.IsChain fun a b => a.value.Apart b.value

theorem contiguous_locate {α : Type} (source : α → Text) (p : Position) (as : List α) :
    Contiguous p.offset (p.offset + (as.flatMap source).length)
      ((locate source p as).map Located.span) := by
  induction as generalizing p with
  | nil => rfl
  | cons a as ih =>
    refine ⟨rfl, ?_⟩
    have hrest := ih (p.advance (source a))
    simpa [Span.covering, Nat.add_assoc] using hrest

theorem flatMap_locate {α : Type} (source : α → Text) (p : Position) (as : List α) :
    (locate source p as).flatMap (fun x => source x.value) = as.flatMap source := by
  induction as generalizing p with
  | nil => rfl
  | cons a as ih => simp [locate, ih]

theorem Token.ReadAs.fragmented {quote : Option Quote} (h : t.ReadAs d s quote)
    (hkind : t.kind = .attributeValue fragments) : t.Fragmented s quote fragments := by
  obtain ⟨before, body, fs, after, hs, hread, rfl⟩ := h
  have hbody := valueFragments_eq hread
  obtain rfl := TokenKind.attributeValue.inj hkind
  have hvalues := map_value_locate Fragment.source
    ((Position.start.advance before).advance (quoteMark quote)) fs
  refine ⟨?_, ?_, ?_, ?_, ?_⟩
  · rw [Value.locatedFragments, flatMap_locate]
    rfl
  · refine ⟨((Position.start.advance before).advance (quoteMark quote)).offset +
      (fs.flatMap Fragment.source).length, ?_, ?_⟩
    · simp only [place, Span.covering, Value.text, Position.offset_advance, List.length_append]
      omega
    · have hlocated := contiguous_locate Fragment.source
        ((Position.start.advance before).advance (quoteMark quote)) fs
      simpa [place, Span.covering, Value.locatedFragments] using hlocated
  · intro f hf
    rw [Value.locatedFragments, ← Position.advance_append] at hf
    obtain ⟨left, right, hsource, hspan⟩ := mem_locate hf
    have hall : s = before ++ quoteMark quote ++ left ++ f.value.source ++
        (right ++ quoteMark quote ++ after) := by
      rw [hs, hbody]
      simp [hsource]
    rw [hspan, hall, Span.covering]
    exact (slice_advance _ _ _).symm
  · intro f hf
    exact fits_of_valueFragments hread f.value (value_mem_of_mem_locate hf)
  · have hapart := apart_of_valueFragments hread
    rw [← hvalues, List.isChain_map] at hapart
    exact hapart

end Tokens

section Attributes

variable {d : Dialect} {s : Text} {fragments : List (Located Fragment)} {a : Attribute}

/-- Without expressions there is at most one fragment. -/
theorem Attribute.valueKind_eq_literal_iff (h : a.value = some fragments)
    (hapart : fragments.IsChain fun f g => f.value.Apart g.value) :
    a.valueKind = .literal ↔ fragments = [] ∨ ∃ text span, fragments = [⟨.literal text, span⟩] := by
  have hkind : a.valueKind = .literal ↔ ∀ f ∈ fragments, f.value.isExpression = false := by
    simp only [valueKind, h, expressions, Option.getD_some]
    split
    · rename_i hempty
      simpa using hempty
    · rename_i hsome
      have hno : ¬ ∀ f ∈ fragments, f.value.isExpression = false := by simpa using hsome
      simp only [hno, iff_false]
      split <;> simp
  rw [hkind]
  constructor
  · intro hall
    cases fragments with
    | nil => exact Or.inl rfl
    | cons f rest =>
      have hf := hall f (by simp)
      obtain ⟨value, span⟩ := f
      cases value with
      | expression delimiter body => cases hf
      | literal text =>
        cases rest with
        | nil => exact Or.inr ⟨text, span, rfl⟩
        | cons g rest =>
          have hg := hall g (by simp)
          rcases (List.isChain_cons_cons.mp hapart).1 with hexpression | hexpression
          · cases hexpression
          · rw [hg] at hexpression
            cases hexpression
  · rintro (rfl | ⟨text, span, rfl⟩)
    · simp
    · simp [Fragment.isExpression]

/-- What an attribute shows of the value token that it was built from. -/
structure Attribute.Shows (d : Dialect) (s : Text) (a : Attribute) (t : Token)
    (fragments : List (Located Fragment)) : Prop where
  quote : ∀ quote, a.quote = quote ↔ t.ReadAs d s quote
  fragmented : t.Fragmented s a.quote fragments
  literal : a.valueKind = .literal ↔
    fragments = [] ∨ ∃ text span, fragments = [⟨.literal text, span⟩]
  /-- The value of a literal is the text of the token between its quotes. -/
  literalValue : a.valueKind = .literal → ∃ text, a.literalValue? = some text ∧
    t.text = quoteMark a.quote ++ text ++ quoteMark a.quote

theorem Attribute.shows_ofTokens {t : Token} (ht : t ∈ tokenize d s)
    (hkind : t.kind = .attributeValue fragments) (n : Token) :
    (Attribute.ofTokens s n (some (t, fragments))).Shows d s t fragments := by
  have hread := readAs_of_mem_tokenize ht hkind
  have hfragmented := hread.fragmented hkind
  refine ⟨?_, hfragmented, valueKind_eq_literal_iff rfl hfragmented.apart, ?_⟩
  · intro quote
    refine ⟨?_, fun h => hread.unique h⟩
    rintro rfl
    exact hread
  · intro hliteral
    refine ⟨fragments.flatMap fun f : Located Fragment => f.value.source, ?_, hfragmented.text⟩
    rw [literalValue?, hliteral]
    rfl

/-- The attribute of a part with a value is built from the two tokens of the part. -/
theorem TagPart.attribute?_eq_ofTokens {gap name : Text} {v : Value} (before after : Text)
    (h : (TagPart.attribute gap name (some v)).Tidy) : ∃ n t,
      (TagPart.attribute gap name (some v)).tokens (Position.start.advance before) = [n, t] ∧
      n.kind = .attributeName ∧ t.kind = .attributeValue
        (v.locatedFragments ((Position.start.advance before).advance (gap ++ name ++ v.lead))) ∧
      (TagPart.attribute gap name (some v)).attribute? (Position.start.advance before) =
        some (.ofTokens (before ++ (TagPart.attribute gap name (some v)).source ++ after) n
          (some (t, v.locatedFragments
            ((Position.start.advance before).advance (gap ++ name ++ v.lead))))) := by
  have hattributes := @tokenAttributes_tokens before gap name after (some v) h [] rfl
  exact ⟨_, _, rfl, rfl, rfl, congrArg some (List.cons.inj hattributes).1.symm⟩

theorem Reading.infix_tokens {r : Reading} {x : Located Construct} (h : x ∈ r.located) :
    x.value.tokens x.span.start <:+: r.tokens := by
  have hall := List.infix_of_mem_flatten
    (List.mem_map_of_mem (f := fun c : Located Construct => c.value.tokens c.span.start) h)
  exact hall.trans (List.prefix_append _ _).isInfix

theorem Construct.infix_tokens {p : Position} {name gap : Text} {parts : List TagPart}
    {slash : Bool} {part : Located TagPart}
    (h : part ∈ locate TagPart.source (p.advance ('<' :: name)) parts) :
    part.value.tokens part.span.start <:+: (openTag name parts gap slash).tokens p := by
  have hparts := List.infix_of_mem_flatten
    (List.mem_map_of_mem (f := fun part : Located TagPart => part.value.tokens part.span.start) h)
  rw [tokens, openTagTokens_eq]
  exact (hparts.trans (List.suffix_cons _ _).isInfix).trans (List.prefix_append _ _).isInfix

/-- An attribute in a tree that has a value comes from a name token and the value token after it. -/
theorem exists_tokens_of_attribute {e : Element}
    (hmakes : ∃ x ∈ (Reading.ofText d s).located, x.value.Makes x.span e) (ha : a ∈ e.attributes)
    (hvalue : a.value = some fragments) :
    ∃ n t, [n, t] <:+: tokenize d s ∧ n.kind = .attributeName ∧
      t.kind = .attributeValue fragments ∧ a = .ofTokens s n (some (t, fragments)) := by
  obtain ⟨x, hx, name, parts, gap, slash, hopen, -, hattributes, -⟩ := hmakes
  obtain ⟨left, right, hconstructs, hspan⟩ := exists_of_mem_locate hx
  have htidy := (Reading.inRawText_tidy d none s).1 x.value (value_mem_of_mem_locate hx)
  have htokens : x.value.tokens x.span.start <:+: tokenize d s := Reading.infix_tokens hx
  have htag : left.flatMap Construct.source ++
      ('<' :: name ++ parts.flatMap TagPart.source) <+: s := by
    have hsource := Reading.source_ofText d s
    rw [Reading.source, hconstructs, hopen] at hsource
    exact ⟨gap ++ tagEnd slash ++ right.flatMap Construct.source ++
      (Reading.ofText d s).ending.source, by simpa [Construct.source] using hsource⟩
  rw [hattributes] at ha
  rw [hopen] at htidy htokens
  rw [hspan, Span.covering] at ha htokens
  obtain ⟨part, hpart, hattribute⟩ := List.mem_filterMap.mp ha
  obtain ⟨before, ⟨after, hafter⟩, hstart⟩ := mem_locate_parts hpart htag
  have hpartTidy := htidy.1 part.value (value_mem_of_mem_locate hpart)
  have hpartTokens := (Construct.infix_tokens hpart).trans htokens
  rw [hstart] at hattribute hpartTokens
  cases hkind : part.value with
  | stray stray fault =>
    rw [hkind] at hattribute
    cases hattribute
  | «attribute» gap name value =>
    rw [hkind] at hattribute hpartTokens hpartTidy hafter
    cases value with
    | none =>
      cases hattribute
      cases hvalue
    | some v =>
      obtain ⟨n, t, hnt, hn, ht, heq⟩ := TagPart.attribute?_eq_ofTokens before after hpartTidy
      rw [hattribute, hafter] at heq
      obtain rfl := Option.some.inj heq
      obtain rfl := Option.some.inj hvalue
      exact ⟨n, t, hnt ▸ hpartTokens, hn, ht, rfl⟩

end Attributes

/-- The fragments of a value token make up the value, and an attribute that is built from the token
shows the quote that the value was read with, and its text if it is literal. Every attribute of a
template that has a value is built from such a token. -/
theorem Document.values_fragmented (d : Dialect) (name : Option String) (s : Text) :
    (∀ t ∈ tokenize d s, ∀ fragments, t.kind = .attributeValue fragments →
      ∀ n, (Attribute.ofTokens s n (some (t, fragments))).Shows d s t fragments) ∧
    ∀ e children, .element e children ∈ Node.walk (parse d name s).children →
      ∀ a ∈ e.attributes, ∀ fragments, a.value = some fragments →
        ∃ n t, [n, t] <:+: tokenize d s ∧ n.kind = .attributeName ∧
          t.kind = .attributeValue fragments ∧ a = .ofTokens s n (some (t, fragments)) := by
  refine ⟨?_, ?_⟩
  · intro t ht fragments hkind n
    exact Attribute.shows_ofTokens ht hkind n
  · intro e children he a ha fragments hvalue
    have hmakes := Nesting.makes_ofReading (.ofText d s) e children he
    exact exists_tokens_of_attribute hmakes ha hvalue

/-- A value in quotes with a literal and an expression of each kind. -/
theorem Document.values_fragmented_mixed :
    ∃ (a : Attribute) (t : Token) (fragments : List (Located Fragment)),
    t ∈ tokenize {} "<a b='x#y#$\x7bz\x7d'>".toList ∧ t.kind = .attributeValue fragments ∧
      fragments.length = 3 ∧ a.quote = some .single ∧
      a.Shows {} "<a b='x#y#$\x7bz\x7d'>".toList t fragments := by
  have hfound : ((Node.walk (parse {} none "<a b='x#y#$\x7bz\x7d'>".toList).children).any
      fun node =>
      node.element?.any fun e => e.attributes.any fun a =>
        a.quote == some .single && a.value.any fun fragments => fragments.length == 3) = true := by
    decide +kernel
  obtain ⟨node, hnode, helement⟩ := List.any_eq_true.mp hfound
  cases node with
  | element e children =>
    obtain ⟨a, ha, hvalue⟩ := List.any_eq_true.mp helement
    rw [Bool.and_eq_true, beq_iff_eq, Option.any_eq_true] at hvalue
    obtain ⟨hquote, fragments, hfragments, hlength⟩ := hvalue
    obtain ⟨hshows, htokens⟩ := values_fragmented {} none "<a b='x#y#$\x7bz\x7d'>".toList
    obtain ⟨n, t, hinfix, -, ht, rfl⟩ := htokens e children hnode a ha fragments hfragments
    have hmem : t ∈ tokenize {} "<a b='x#y#$\x7bz\x7d'>".toList := hinfix.mem (by simp)
    exact ⟨_, t, fragments, hmem, ht, by simpa using hlength, hquote, hshows t hmem fragments ht n⟩
  | _ => cases helement

end StoreMarkup
