import StoreMarkup.Proofs.ExpressionExtent
import StoreMarkup.Proofs.Origins
import StoreMarkup.Proofs.Recovery
import StoreMarkup.Proofs.Segmentation

/-! What every element of a tree is: written as its tags say, closed in the one way that they leave,
and with its attributes in order inside the open tag. -/
namespace StoreMarkup

open Node

/-- A text that does not end in a slash. -/
def OffSlash (t : Text) : Prop := t.getLast? ≠ some '/'

section Slash

variable {d : Dialect} {s t u r gap name : Text} {c : Char} {parts : List TagPart}

theorem offSlash_of_not_mem (h : '/' ∉ t) : OffSlash t := by
  intro hlast
  exact h (List.mem_of_getLast? hlast)

theorem offSlash_append (ht : u = [] → OffSlash t) (hu : OffSlash u) : OffSlash (t ++ u) := by
  cases u with
  | nil => simpa using ht rfl
  | cons b bs =>
    intro hlast
    rw [List.getLast?_append_of_ne_nil _ (by simp)] at hlast
    exact hu hlast

theorem offSlash_concat (t : Text) (hc : c ≠ '/') : OffSlash (t ++ [c]) :=
  offSlash_append (by simp) (offSlash_of_not_mem (by simpa using hc.symm))

theorem Blank.offSlash (h : Blank t) : OffSlash t := by
  apply offSlash_of_not_mem
  intro hmem
  have hblank := h '/' hmem
  revert hblank
  decide

/-- A name leaves the slash to the end of the tag. -/
theorem offSlash_of_attributeName (h : attributeName s = some (t, r)) (hr : r.head? = some '>') :
    OffSlash t := by
  fun_induction attributeName s generalizing t with
  | case1 | case2 =>
    obtain ⟨rfl, rfl⟩ := by simpa using h
    exact offSlash_of_not_mem (by simp)
  | case3 => cases h
  | case4 c cs _ inner hi body rest hb ih =>
    obtain ⟨u, hu, rfl⟩ := afterText_eq_some.mp h
    exact offSlash_append (fun _ => offSlash_concat ('$' :: '{' :: body) (by decide)) (ih hu)
  | case5 c cs hgoes _ ih =>
    obtain ⟨u, hu, rfl⟩ := afterText_eq_some.mp h
    refine offSlash_append ?_ (ih hu)
    -- The name ends after this character, so the bracket follows it.
    rintro rfl
    obtain rfl : cs = r := attributeName_eq hu
    apply offSlash_of_not_mem
    intro hmem
    obtain rfl := List.mem_singleton.mp hmem
    exact hgoes (by simp [endsAttributeName, hr])

theorem Quote.char_ne_slash (q : Quote) : q.char ≠ '/' := by cases q <;> decide

theorem offSlash_quoteMark (quote : Option Quote) : OffSlash (quoteMark quote) := by
  cases quote with
  | none => exact offSlash_of_not_mem (by simp [quoteMark])
  | some q => exact offSlash_concat [] q.char_ne_slash

/-- So does a value, with its closing quote if it has one. -/
theorem offSlash_of_valueFragments {quote : Option Quote} {fs : List Fragment}
    (h : valueFragments d quote s = some (fs, r)) (hr : r.head? = some '>') :
    OffSlash (fs.flatMap Fragment.source ++ quoteMark quote) := by
  fun_induction valueFragments d quote s generalizing fs with
  | case1 | case3 => cases h
  | case2 c cs rest hend =>
    obtain ⟨rfl, rfl⟩ := by simpa using h
    exact offSlash_quoteMark quote
  | case4 c cs hgoes _ ih =>
    obtain ⟨⟨gs, rest⟩, hread, he⟩ := Option.map_eq_some_iff.mp h
    obtain ⟨rfl, rfl⟩ := by simpa using he
    rw [source_consLiteral]
    refine offSlash_append (t := [c]) ?_ (ih hread)
    intro hnil
    have hend : gs.flatMap Fragment.source ++ quoteMark quote = [] := hnil
    obtain rfl : cs = rest := by rw [valueFragments_eq hread, hend, List.nil_append]
    apply offSlash_of_not_mem
    intro hmem
    obtain rfl := List.mem_singleton.mp hmem
    cases quote with
    | none => simp [valueEnd?, hr] at hgoes
    | some q => simp [quoteMark] at hend
  | case5 c cs _ delimiter body rest _ ih =>
    obtain ⟨⟨gs, rest'⟩, hread, he⟩ := Option.map_eq_some_iff.mp h
    obtain ⟨rfl, rfl⟩ := by simpa using he
    rw [List.flatMap_cons, List.append_assoc]
    refine offSlash_append (fun _ => ?_) (ih hread)
    cases delimiter with
    | dollar => exact offSlash_concat (['$', '{'] ++ body) (by decide)
    | hash => exact offSlash_concat (['#'] ++ body) (by decide)

theorem offSlash_of_assignmentStep {before after : Text}
    (h : assignmentStep d gap name before after = .more parts r) (hr : r.head? = some '>') :
    OffSlash (parts.flatMap TagPart.source) := by
  have hblanks := (blank_blanks after).offSlash
  have hmark : OffSlash ['='] := offSlash_of_not_mem (by simp)
  have hlead : OffSlash (before ++ '=' :: blanks after) :=
    offSlash_append (by simp) (offSlash_append (fun _ => hmark) hblanks)
  unfold assignmentStep at h
  split at h
  · cases h
  · rename_i c cs hd
    split at h
    · obtain ⟨rfl, rfl⟩ := by simpa using h
      simpa [TagPart.source, Stray.source] using offSlash_append (t := gap ++ name) (by simp) hlead
    · split at h
      · cases h
      · rename_i fs rest hv
        obtain ⟨rfl, rfl⟩ := by simpa using h
        have htext := offSlash_append (fun _ => offSlash_quoteMark (Quote.ofChar? c))
          (offSlash_of_valueFragments hv hr)
        have hvalue := offSlash_append (t := gap ++ name ++ (before ++ '=' :: blanks after))
          (fun _ => offSlash_append (by simp) hlead) htext
        simpa [TagPart.source, Value.text] using hvalue

theorem offSlash_of_attributeStep (hgap : Blank gap) (h : attributeStep d gap s = .more parts r)
    (hr : r.head? = some '>') : OffSlash (parts.flatMap TagPart.source) := by
  unfold attributeStep at h
  split at h
  · cases h
  · rename_i name rest hn
    split at h
    · exact offSlash_of_assignmentStep h hr
    · obtain ⟨rfl, rfl⟩ := by simpa using h
      have hname := offSlash_append (fun _ => hgap.offSlash) (offSlash_of_attributeName hn hr)
      simpa [TagPart.source] using hname

/-- No part of a tag takes the slash of an ending `/>`. -/
theorem offSlash_of_tagStep (h : tagStep d s = .more parts r) (hr : r.head? = some '>') :
    OffSlash (parts.flatMap TagPart.source) := by
  unfold tagStep at h
  split at h
  · cases h
  · rename_i c cs hd
    split at h
    · cases h
    · rename_i hgoes
      split at h
      · rename_i q hq
        split at h
        · cases h
        · rename_i t rest ht
          obtain ⟨rfl, rfl⟩ := by simpa using h
          obtain ⟨u, -, rfl⟩ := inside_of_quotedTail ht
          simpa [TagPart.source, Stray.source]
            using offSlash_concat (blanks s ++ c :: u) q.char_ne_slash
      · split at h
        · obtain ⟨rfl, rfl⟩ := by simpa using h
          have hc : c ≠ '/' := by
            rintro rfl
            exact hgoes (by simp [endsTag, hr])
          simpa [TagPart.source, Stray.source] using offSlash_concat (blanks s) hc
        · exact offSlash_of_attributeStep (blank_blanks s) h hr

theorem offSlash_of_scanTag (h : scanTag d s = .closed parts gap false r) :
    OffSlash (parts.flatMap TagPart.source ++ gap) := by
  fun_induction scanTag d s generalizing parts with
  | case1 s gap' slash rest hs =>
    obtain ⟨rfl, rfl, rfl, rfl⟩ := by simpa using h
    have htidy := tagStep_tidy d s
    rw [hs] at htidy
    exact Blank.offSlash htidy
  | case2 => cases h
  | case3 s before rest hs ih =>
    cases hrest : scanTag d rest with
    | cutOff more => simp [hrest, TagScan.after] at h
    | closed more gap' slash rest' =>
      obtain ⟨rfl, rfl, rfl, rfl⟩ := by simpa [hrest, TagScan.after] using h
      rw [List.flatMap_append, List.append_assoc]
      refine offSlash_append ?_ (ih hrest)
      intro hnil
      have hsource := scanTag_closed hrest
      rw [hnil] at hsource
      exact offSlash_of_tagStep hs (by simp [hsource, tagEnd])

end Slash

/-- A tag as it is written: a mark, a name of the element, and what follows the name up to the
bracket. -/
def Tagged (mark tag text : Text) : Prop :=
  ∃ name rest, text = mark ++ name ++ rest ∧ splitName? (name ++ rest) = some (name, rest) ∧
    canonicalName name = tag ∧ rest.getLast? = some '>'

namespace Reading

variable {d : Dialect} {s name gap : Text} {c : Construct}

/-- Every construct of a template is read alone as what it is. -/
theorem exists_step (h : c ∈ (ofText d s).constructs) :
    ∃ raw, step d raw c.source = .construct c [] := by
  obtain ⟨before, after, hsplit⟩ := List.append_of_mem h
  have hstands : Stands d none (ofText d s).constructs := (segmented_inRawText d none s).stands
  rw [hsplit, stands_append] at hstands
  exact ⟨_, hstands.2.1⟩

/-- An open tag is cut from a template by its name, which is not that of comments, and by the scan
of what follows the name. -/
theorem openTag_cut {parts : List TagPart} {slash : Bool}
    (h : .openTag name parts gap slash ∈ (ofText d s).constructs) :
    ∃ rest, rest = parts.flatMap TagPart.source ++ gap ++ tagEnd slash ∧
      splitName? (name ++ rest) = some (name, rest) ∧ canonicalName name ≠ commentTag ∧
      scanTag d rest = .closed parts gap slash [] := by
  obtain ⟨raw, hstep⟩ := exists_step h
  generalize Construct.source (.openTag name parts gap slash) = text at hstep
  cases reads_of_step hstep with
  | @openTag _ _ after _ _ _ _ ho hscan =>
    cases opens_of_opener? ho with
    | openTag hs hne _ =>
      have hafter := scanTag_closed hscan
      rw [List.append_nil] at hafter
      refine ⟨after, hafter, ?_, hne, hscan⟩
      rw [← splitName?_eq hs, hs]

theorem closeTag_cut {strays : List Stray}
    (h : .closeTag name strays gap ∈ (ofText d s).constructs) :
    ∃ rest, rest = strays.flatMap Stray.source ++ gap ++ ['>'] ∧
      splitName? (name ++ rest) = some (name, rest) := by
  obtain ⟨raw, hstep⟩ := exists_step h
  generalize Construct.source (.closeTag name strays gap) = text at hstep
  cases reads_of_step hstep with
  | @closeTag _ _ after _ _ _ ho hscan =>
    cases opens_of_opener? ho with
    | closeTag hs _ =>
      refine ⟨after, scanClose_closed hscan, ?_⟩
      rw [← splitName?_eq hs, hs]

theorem tagged_openTag {parts : List TagPart} {slash : Bool}
    (h : .openTag name parts gap slash ∈ (ofText d s).constructs) :
    Tagged ['<'] (canonicalName name) (Construct.source (.openTag name parts gap slash)) := by
  obtain ⟨rest, hrest, hname, -, -⟩ := openTag_cut h
  refine ⟨name, rest, ?_, hname, rfl, ?_⟩
  · simp [hrest, Construct.source]
  · cases slash <;> simp [hrest, tagEnd]

theorem tagged_closeTag {strays : List Stray}
    (h : .closeTag name strays gap ∈ (ofText d s).constructs) :
    Tagged ['<', '/'] (canonicalName name) (Construct.source (.closeTag name strays gap)) := by
  obtain ⟨rest, hrest, hname⟩ := closeTag_cut h
  refine ⟨name, rest, ?_, hname, rfl, ?_⟩
  · simp [hrest, Construct.source]
  · simp [hrest]

/-- A tag ends in a slash and a bracket only if the slash was read as its own. -/
theorem slash_of_suffix {parts : List TagPart} {slash : Bool}
    (h : .openTag name parts gap slash ∈ (ofText d s).constructs)
    (hsuffix : ['/', '>'] <:+ Construct.source (.openTag name parts gap slash)) : slash = true := by
  cases slash with
  | true => rfl
  | false =>
    obtain ⟨rest, rfl, hname, -, hscan⟩ := openTag_cut h
    obtain ⟨hchars, -⟩ := splitName?_eq_some hname
    have hopening : OffSlash ('<' :: name) := by
      apply offSlash_of_not_mem
      intro hmem
      rcases List.mem_cons.mp hmem with hmark | hmem
      · cases hmark
      · rw [hchars] at hmem
        have hchar := List.mem_takeWhile_imp hmem
        rw [isNameChar_delimiter (by simp)] at hchar
        cases hchar
    have hoff := offSlash_append (fun _ => hopening) (offSlash_of_scanTag hscan)
    obtain ⟨init, hinit⟩ := hsuffix
    have hsource : init ++ ['/'] ++ ['>'] =
        '<' :: name ++ (parts.flatMap TagPart.source ++ gap) ++ ['>'] := by
      simpa [Construct.source, tagEnd] using hinit
    have hlast := List.append_cancel_right hsource
    rw [← hlast] at hoff
    exact (hoff (by simp)).elim

end Reading

/-- An open element has its open tag among some constructs. -/
def Frame.OpenedIn (xs : List (Located Construct)) (f : Frame) : Prop :=
  ∃ x ∈ xs, x.value.event? = some (.opened f.tag) ∧
    x.value.Opens x.span f.tag f.attributes f.openSpan ∧ f.openText = x.value.source

/-- The four ways to make an element out of some constructs. -/
inductive Element.Made (xs : List (Located Construct)) : Element → List Node → Prop
  | atOnce {e : Element} {x : Located Construct} (mem : x ∈ xs) (event : x.value.event? = none)
      (origin : x.value.Opens x.span e.tag e.attributes e.openSpan)
      (text : e.openText = x.value.source) (closing : e.closing = .selfClosed) : Made xs e []
  | leftOpen {f : Frame} (opened : f.OpenedIn xs) (optional : closesOptionally f.tag = true) :
      Made xs (f.element .selfClosed) []
  | closed {f : Frame} {x : Located Construct} (opened : f.OpenedIn xs) (mem : x ∈ xs)
      (event : x.value.event? = some (.closed f.tag)) (children : List Node) :
      Made xs (f.element (.tag x.value.source x.span)) children
  | implied {f : Frame} (opened : f.OpenedIn xs) (needed : closesOptionally f.tag = false)
      (p : Position) (children : List Node) : Made xs (f.element (.implied p)) children

theorem Frame.leaves_made (xs : List (Located Construct)) :
    Frame.Leaves (Frame.OpenedIn xs) (Element.Made xs) where
  append _ h := h
  selfClosed h hoptional := .leftOpen h hoptional
  implied p children h hneeded := .implied h hneeded p children

/-- Every element of a tree is made in one of the four ways. -/
theorem Nesting.made_ofReading (r : Reading) :
    EachElement (Element.Made r.located) (ofReading r).roots.toList := by
  have hleaves := Frame.leaves_made r.located
  have hrun : (r.located.foldl step {}).Keeps (Frame.OpenedIn r.located)
      (Element.Made r.located) := by
    refine keeps_empty.foldl ?_
    intro x hx n hn
    refine hn.step hleaves ?_ ?_ ?_
    · intro e event origin text closing
      exact .atOnce hx event origin text closing
    · intro f event origin text
      exact ⟨x, hx, event, origin, text⟩
    · intro f children event opened
      exact .closed opened hx event children
  exact hrun.finish hleaves r.endingStart r.ending

section Attributes

variable {p : Position} {name : Text} {parts : List TagPart} {a : Attribute}

/-- An attribute is a part of its tag without the blanks before it. -/
theorem TagPart.attribute?_eq_some {part : TagPart} (h : part.attribute? p = some a) :
    ∃ gap, part.source = gap ++ a.source ∧ a.span = .covering (p.advance gap) a.source ∧
      a.name <+: a.source := by
  cases part with
  | stray s fault => cases h
  | «attribute» gap name value =>
    cases value with
    | none =>
      cases h
      exact ⟨gap, rfl, rfl, List.prefix_rfl⟩
    | some v =>
      cases h
      exact ⟨gap, by simp [source], rfl, by simp⟩

/-- The attributes of a tag stand inside it, after its name. -/
theorem mem_tagAttributes (h : a ∈ tagAttributes p name parts) :
    ∃ left right, parts.flatMap TagPart.source = left ++ a.source ++ right ∧
      a.span = .covering (p.advance ('<' :: name ++ left)) a.source ∧ a.name <+: a.source := by
  obtain ⟨part, hpart, ha⟩ := List.mem_filterMap.mp h
  obtain ⟨before, after, rfl, hspan⟩ := exists_of_mem_locate hpart
  obtain ⟨gap, hsource, hplace, hname⟩ := TagPart.attribute?_eq_some ha
  refine ⟨before.flatMap TagPart.source ++ gap, after.flatMap TagPart.source, ?_, ?_, hname⟩
  · simp [hsource]
  · rw [hplace, hspan, ← List.append_assoc, Position.advance_append, Position.advance_append]
    rfl

theorem pairwise_locate {α : Type} (source : α → Text) (p : Position) (as : List α) :
    (locate source p as).Pairwise fun x y => x.span.stop.offset ≤ y.span.start.offset := by
  induction as generalizing p with
  | nil => exact .nil
  | cons a as ih =>
    refine .cons ?_ (ih _)
    intro y hy
    exact (offset_le_of_mem_locate hy).1

theorem pairwise_tagAttributes (p : Position) (name : Text) (parts : List TagPart) :
    (tagAttributes p name parts).Pairwise fun a b => a.span.stop.offset ≤ b.span.start.offset := by
  refine List.pairwise_filterMap.mpr ((pairwise_locate _ _ _).imp_of_mem ?_)
  intro x y hx _ hle a ha b hb
  obtain ⟨before, after, -, hspan⟩ := exists_of_mem_locate hx
  obtain ⟨gap, hsource, hplace, -⟩ := TagPart.attribute?_eq_some ha
  obtain ⟨gap', -, hplace', -⟩ := TagPart.attribute?_eq_some hb
  have hstop : x.span.stop = x.span.start.advance x.value.source := by rw [hspan]; rfl
  rw [hstop, hsource] at hle
  rw [hplace, hplace']
  simp only [Span.covering, Position.offset_advance, List.length_append] at hle ⊢
  omega

end Attributes

/-- What holds of an element with its children in the tree of a text. -/
structure Element.WellFormed (s : Text) (e : Element) (children : List Node) : Prop where
  openTag : Tagged ['<'] e.tag e.openText
  notComment : e.tag ≠ commentTag
  selfClosing_iff : e.selfClosing = true ↔ ['/', '>'] <:+ e.openText ∨ isVoid e.tag = true ∨
    closesOptionally e.tag = true ∧ e.closeText = []
  selfClosed : e.selfClosing = true →
    children = [] ∧ e.closeText = [] ∧ e.closeSpan? = none ∧ e.recovered = false
  closed : e.selfClosing = false → ∃ close, e.closeSpan? = some close ∧
    (e.recovered = true ↔ close.isEmpty = true) ∧ (close.isEmpty = true ↔ e.closeText = [])
  closeTag : e.closeText ≠ [] → Tagged ['<', '/'] e.tag e.closeText
  optional : closesOptionally e.tag = true → e.recovered = false
  openText_eq : e.openText = s.slice e.span.start.offset (e.span.start.offset + e.openText.length)
  inside : ∀ a ∈ e.attributes, e.span.start.offset < a.span.start.offset ∧
    a.span.stop.offset < e.span.start.offset + e.openText.length
  ordered : e.attributes.Pairwise fun a b => a.span.stop.offset ≤ b.span.start.offset
  written : ∀ a ∈ e.attributes,
    a.source = s.slice a.span.start.offset a.span.stop.offset ∧ a.name <+: a.source

section WellFormed

variable {d : Dialect} {s : Text} {e : Element} {children : List Node}

/-- However an element is made, its open tag is one of the constructs. -/
theorem Element.Made.opened {xs : List (Located Construct)} (h : Element.Made xs e children) :
    ∃ x ∈ xs, x.value.Opens x.span e.tag e.attributes e.openSpan ∧ e.openText = x.value.source := by
  cases h with
  | atOnce mem _ origin text _ => exact ⟨_, mem, origin, text⟩
  | leftOpen opened | closed opened | implied opened =>
    obtain ⟨x, hx, -, origin, text⟩ := opened
    exact ⟨x, hx, origin, text⟩

/-- A construct stands in its template where its region is. -/
theorem Reading.exists_around {x : Located Construct} (h : x ∈ (Reading.ofText d s).located) :
    ∃ before after, s = before ++ x.value.source ++ after ∧
      x.span = .covering (Position.start.advance before) x.value.source := by
  obtain ⟨before, after, hsplit, hspan⟩ := exists_of_mem_locate h
  refine ⟨before.flatMap Construct.source,
    after.flatMap Construct.source ++ (Reading.ofText d s).ending.source, ?_, hspan⟩
  conv_lhs => rw [← Reading.source_ofText d s]
  simp [Reading.source, hsplit]

/-- An element that waits for its close tag was not opened with a slash and is not void. -/
theorem Frame.OpenedIn.waits {f : Frame} (h : f.OpenedIn (Reading.ofText d s).located) :
    ¬ ['/', '>'] <:+ f.openText ∧ isVoid f.tag = false := by
  obtain ⟨x, hx, event, ⟨name, parts, gap, slash, hvalue, htag, -, -⟩, text⟩ := h
  have hmem := value_mem_of_mem_locate hx
  rw [hvalue] at hmem event text
  rw [text, htag]
  by_cases hempty : (slash || isVoid (canonicalName name)) = true
  · simp [Construct.event?, hempty] at event
  · simp only [Bool.not_eq_true, Bool.or_eq_false_iff] at hempty
    refine ⟨?_, hempty.2⟩
    intro hsuffix
    have hslash := Reading.slash_of_suffix hmem hsuffix
    rw [hempty.1] at hslash
    cases hslash

theorem Construct.exists_closeTag {c : Construct} {tag : Text} (h : c.event? = some (.closed tag)) :
    ∃ name strays gap, c = .closeTag name strays gap ∧ canonicalName name = tag := by
  cases c with
  | closeTag name strays gap =>
    cases h
    exact ⟨name, strays, gap, rfl, rfl⟩
  | openTag name parts gap slash =>
    simp only [event?] at h
    split at h <;> cases h
  | _ => cases h

namespace Element.Made

theorem selfClosing_iff (h : Made (Reading.ofText d s).located e children) :
    e.selfClosing = true ↔ ['/', '>'] <:+ e.openText ∨ isVoid e.tag = true ∨
      closesOptionally e.tag = true ∧ e.closeText = [] := by
  cases h with
  | atOnce _ event origin text closing =>
    refine ⟨fun _ => ?_, fun _ => by simp [selfClosing, closing]⟩
    obtain ⟨name, parts, gap, slash, hvalue, htag, -, -⟩ := origin
    rw [hvalue] at event text
    by_cases hempty : (slash || isVoid (canonicalName name)) = true
    · rcases Bool.or_eq_true_iff.mp hempty with rfl | hvoid
      · rw [text]
        exact Or.inl (List.suffix_append _ _)
      · rw [htag]
        exact Or.inr (Or.inl hvoid)
    · simp [Construct.event?, hempty] at event
  | leftOpen opened optional => exact ⟨fun _ => Or.inr (Or.inr ⟨optional, rfl⟩), fun _ => rfl⟩
  | closed opened _ event _ =>
    obtain ⟨hslash, hvoid⟩ := opened.waits
    refine ⟨by simp [selfClosing, Frame.element], ?_⟩
    rintro (h | h | ⟨-, h⟩)
    · exact (hslash h).elim
    · cases hvoid.symm.trans h
    · exact (List.length_pos_iff.mp (Construct.source_pos event) h).elim
  | implied opened needed _ _ =>
    obtain ⟨hslash, hvoid⟩ := opened.waits
    refine ⟨by simp [selfClosing, Frame.element], ?_⟩
    rintro (h | h | ⟨h, -⟩)
    · exact (hslash h).elim
    · cases hvoid.symm.trans h
    · cases needed.symm.trans h

/-- An element that ends with its open tag has nothing else. -/
theorem selfClosed (h : Made (Reading.ofText d s).located e children)
    (hself : e.selfClosing = true) :
    children = [] ∧ e.closeText = [] ∧ e.closeSpan? = none ∧ e.recovered = false := by
  cases h with
  | atOnce _ _ _ _ closing => simp [closeText, closeSpan?, recovered, closing]
  | leftOpen => exact ⟨rfl, rfl, rfl, rfl⟩
  | closed | implied => cases hself

/-- The close tag of any other is found, or missing and then of no length. -/
theorem closeSpan?_eq (h : Made (Reading.ofText d s).located e children)
    (hself : e.selfClosing = false) :
    ∃ close, e.closeSpan? = some close ∧ (e.recovered = true ↔ close.isEmpty = true) ∧
      (close.isEmpty = true ↔ e.closeText = []) := by
  cases h with
  | atOnce _ _ _ _ closing => simp [selfClosing, closing] at hself
  | leftOpen => cases hself
  | @closed f x _ mem event _ =>
    have hne := List.length_pos_iff.mp (Construct.source_pos event)
    have hempty : x.span.isEmpty = false := by
      obtain ⟨before, after, -, hspan⟩ := Reading.exists_around mem
      simp [hspan, Span.isEmpty, Span.covering, hne]
    refine ⟨x.span, rfl, ?_, ?_⟩
    · simp [recovered, Frame.element, hempty]
    · simp [closeText, Frame.element, hempty, hne]
  | implied _ _ p _ =>
    refine ⟨.point p, rfl, ?_, ?_⟩
    · simp [recovered, Frame.element, Span.isEmpty, Span.point]
    · simp [closeText, Frame.element, Span.isEmpty, Span.point]

theorem closeTag (h : Made (Reading.ofText d s).located e children) (htext : e.closeText ≠ []) :
    Tagged ['<', '/'] e.tag e.closeText := by
  cases h with
  | atOnce _ _ _ _ closing => simp [closeText, closing] at htext
  | leftOpen | implied => exact (htext rfl).elim
  | @closed f x _ mem event _ =>
    obtain ⟨name, strays, gap, hvalue, hname⟩ := Construct.exists_closeTag event
    have hmem := value_mem_of_mem_locate mem
    rw [hvalue] at hmem
    have htagged := Reading.tagged_closeTag hmem
    rw [hname, ← hvalue] at htagged
    exact htagged

theorem not_recovered (h : Made (Reading.ofText d s).located e children)
    (hoptional : closesOptionally e.tag = true) : e.recovered = false := by
  cases h with
  | atOnce _ _ _ _ closing => simp [recovered, closing]
  | leftOpen | closed => rfl
  | implied _ needed _ _ => cases needed.symm.trans hoptional

/-- The open tag stands in the template where the element starts, and attributes stand in it. -/
theorem exists_openTag (h : Made (Reading.ofText d s).located e children) :
    ∃ before after name parts gap slash,
      .openTag name parts gap slash ∈ (Reading.ofText d s).constructs ∧
      s = before ++ e.openText ++ after ∧ e.span.start = Position.start.advance before ∧
      e.openText = Construct.source (.openTag name parts gap slash) ∧ e.tag = canonicalName name ∧
      e.attributes = tagAttributes e.span.start name parts := by
  obtain ⟨x, hx, ⟨name, parts, gap, slash, hvalue, htag, hattributes, hopen⟩, htext⟩ := h.opened
  obtain ⟨before, after, hs, hspan⟩ := Reading.exists_around hx
  have hmem := value_mem_of_mem_locate hx
  have hstart : e.span.start = x.span.start := by rw [start_span, hopen]
  rw [← htext] at hs
  rw [hvalue] at hmem htext
  refine ⟨before, after, name, parts, gap, slash, hmem, hs, ?_, htext, htag, ?_⟩
  · rw [hstart, hspan]
    rfl
  · rw [hstart, hattributes]

/-- An attribute stands in the open tag, with its region there. -/
theorem exists_attribute (h : Made (Reading.ofText d s).located e children) {a : Attribute}
    (ha : a ∈ e.attributes) : ∃ left right, e.openText = left ++ a.source ++ right ∧ left ≠ [] ∧
      right ≠ [] ∧ a.span = .covering (e.span.start.advance left) a.source ∧
        a.name <+: a.source := by
  obtain ⟨-, -, name, parts, gap, slash, -, -, -, htext, -, hattributes⟩ := h.exists_openTag
  rw [hattributes] at ha
  obtain ⟨left, right, hparts, hspan, hname⟩ := mem_tagAttributes ha
  refine ⟨'<' :: name ++ left, right ++ gap ++ tagEnd slash, ?_, by simp, ?_, hspan, hname⟩
  · rw [htext, Construct.source, hparts]
    simp
  · cases slash <;> simp [tagEnd]

theorem openTag (h : Made (Reading.ofText d s).located e children) :
    Tagged ['<'] e.tag e.openText ∧ e.tag ≠ commentTag := by
  obtain ⟨-, -, name, parts, gap, slash, hmem, -, -, htext, htag, -⟩ := h.exists_openTag
  obtain ⟨rest, -, -, hne, -⟩ := Reading.openTag_cut hmem
  rw [htext, htag]
  exact ⟨Reading.tagged_openTag hmem, hne⟩

theorem openText_eq (h : Made (Reading.ofText d s).located e children) :
    e.openText = s.slice e.span.start.offset (e.span.start.offset + e.openText.length) := by
  obtain ⟨before, after, -, -, -, -, -, hs, hstart, -, -, -⟩ := h.exists_openTag
  have hslice := slice_advance before e.openText after
  rw [← hs, ← hstart, Position.offset_advance] at hslice
  exact hslice.symm

theorem inside (h : Made (Reading.ofText d s).located e children) {a : Attribute}
    (ha : a ∈ e.attributes) : e.span.start.offset < a.span.start.offset ∧
      a.span.stop.offset < e.span.start.offset + e.openText.length := by
  obtain ⟨left, right, hsplit, hleft, hright, hspan, -⟩ := h.exists_attribute ha
  have hl := List.length_pos_iff.mpr hleft
  have hr := List.length_pos_iff.mpr hright
  have hlength := congrArg List.length hsplit
  simp only [hspan, Span.covering, Position.offset_advance, List.length_append] at hlength ⊢
  omega

theorem ordered (h : Made (Reading.ofText d s).located e children) :
    e.attributes.Pairwise fun a b => a.span.stop.offset ≤ b.span.start.offset := by
  obtain ⟨-, -, name, parts, -, -, -, -, -, -, -, hattributes⟩ := h.exists_openTag
  rw [hattributes]
  exact pairwise_tagAttributes e.span.start name parts

theorem written (h : Made (Reading.ofText d s).located e children) {a : Attribute}
    (ha : a ∈ e.attributes) :
    a.source = s.slice a.span.start.offset a.span.stop.offset ∧ a.name <+: a.source := by
  obtain ⟨before, after, -, -, -, -, -, hs, hstart, -, -, -⟩ := h.exists_openTag
  obtain ⟨left, right, hsplit, -, -, hspan, hname⟩ := h.exists_attribute ha
  refine ⟨?_, hname⟩
  have hslice := slice_advance (before ++ left) a.source (right ++ after)
  have htext : before ++ left ++ a.source ++ (right ++ after) = s := by simp [hs, hsplit]
  rw [htext, Position.advance_append, ← hstart] at hslice
  rw [hspan]
  exact hslice.symm

end Element.Made

end WellFormed

/-- Every element of a template is well-formed: it is written as its tags say, it ends with its open
tag exactly if that has a slash, is void or may go without the close tag that is missing, it counts
as recovered exactly if its close tag is missing otherwise, and its attributes stand in order inside
the open tag. -/
theorem Document.element_wellFormed (d : Dialect) (name : Option String) (s : Text) {e : Element}
    {children : List Node} (h : .element e children ∈ walk (parse d name s).children) :
    e.WellFormed s children := by
  have hmade := Nesting.made_ofReading (.ofText d s) e children h
  obtain ⟨htagged, hcomment⟩ := hmade.openTag
  exact
    { openTag := htagged
      notComment := hcomment
      selfClosing_iff := hmade.selfClosing_iff
      selfClosed := hmade.selfClosed
      closed := hmade.closeSpan?_eq
      closeTag := hmade.closeTag
      optional := hmade.not_recovered
      openText_eq := hmade.openText_eq
      inside := fun _ => hmade.inside
      ordered := hmade.ordered
      written := fun _ => hmade.written }

/-- A slash in a value does not end the tag. -/
theorem Document.element_wellFormed_path : ∃ e children,
    .element e children ∈ walk (parse {} none "<P a=x/y b>z<isa></p>".toList).children ∧
      e.attributes.map Attribute.source = ["a=x/y".toList, ['b']] ∧ e.selfClosing = false ∧
      e.WellFormed "<P a=x/y b>z<isa></p>".toList children := by
  have hfound : ((walk (parse {} none "<P a=x/y b>z<isa></p>".toList).children).any fun node =>
      node.element?.any fun e => e.attributes.map Attribute.source == ["a=x/y".toList, ['b']] &&
        !e.selfClosing) = true := by
    decide +kernel
  obtain ⟨node, hnode, hparagraph⟩ := List.any_eq_true.mp hfound
  cases node with
  | element e children =>
    simp only [element?, Option.any_some, Bool.and_eq_true, beq_iff_eq, Bool.not_eq_true']
      at hparagraph
    exact ⟨e, children, hnode, hparagraph.1, hparagraph.2, element_wellFormed _ _ _ hnode⟩
  | _ => cases hparagraph

end StoreMarkup
