import StoreMarkup.Proofs.LeftOpen
import StoreMarkup.Proofs.RawText
import StoreMarkup.Proofs.Recovery

/-! Close tags in raw text: the lexer goes by a count of ISML tags and the tree by the names of the
open elements, and the two part where a close tag has no element or an ISML tag is left open. -/
namespace StoreMarkup

namespace Construct

/-- An ISML tag that the lexer counts as opened in raw text. -/
def opensIsml : Construct → Bool
  | openTag name _ _ slash => !slash && isIsmlTag name && !isVoid name
  | _ => false

/-- An ISML tag that the lexer counts as closed in raw text. -/
def closesIsml : Construct → Bool
  | closeTag name _ _ => isIsmlTag name
  | _ => false

end Construct

namespace Nesting

variable {n : Nesting} {place span : Span} {outer : List Frame} {tag text : Text}

/-- The element with its open tag at a place is open. -/
def IsOpen (n : Nesting) (place : Span) : Prop := ∃ f ∈ n.stack, f.openSpan = place

instance (n : Nesting) (place : Span) : Decidable (n.IsOpen place) :=
  inferInstanceAs (Decidable (∃ f ∈ n.stack, f.openSpan = place))

/-- An element at a place is open around ISML elements and inside some others. -/
def Holds (n : Nesting) (outer : List Frame) (place : Span) (tag : Text) : Prop :=
  ∃ inner f, n.stack = inner ++ f :: outer ∧ f.openSpan = place ∧ f.tag = tag ∧
    ∀ g ∈ inner, isIsmlTag g.tag = true

theorem isOpen_append (nodes : List Node) : (n.append nodes).IsOpen place ↔ n.IsOpen place := by
  unfold IsOpen append
  split
  · rfl
  · rename_i f fs hstack
    simp [hstack, Frame.append]

theorem Holds.append (h : n.Holds outer place tag) (nodes : List Node) :
    (n.append nodes).Holds outer place tag := by
  obtain ⟨inner, f, hstack, hspan, htag, hinner⟩ := h
  cases inner with
  | nil => exact ⟨[], f.append nodes, by simp [Nesting.append, hstack], hspan, htag, by simp⟩
  | cons g gs =>
    refine ⟨g.append nodes :: gs, f, by simp [Nesting.append, hstack], hspan, htag, ?_⟩
    simpa [Frame.append] using hinner

section Close

variable {inner : List Frame} {f : Frame}

/-- The close tag of an element inside leaves the one at the place open. -/
theorem holds_closeElement {name : Text} (hstack : n.stack = inner ++ f :: outer)
    (hspan : f.openSpan = place) (htag : f.tag = tag) (hisml : ∀ g ∈ inner, isIsmlTag g.tag = true)
    (hname : ∃ g ∈ inner, g.tag = name) :
    (n.closeElement name text span).Holds outer place tag := by
  cases hsplit : splitFrames? name inner with
  | none =>
    obtain ⟨g, hg, hgname⟩ := hname
    exact (splitFrames?_eq_none_iff.mp hsplit g hg hgname).elim
  | some found =>
    obtain ⟨i, g, o⟩ := found
    obtain ⟨rfl, -⟩ := splitFrames?_eq_some hsplit
    rw [closeElement_of_some n (hstack ▸ splitFrames?_append_of_some hsplit)]
    refine Holds.append ⟨o, f, rfl, hspan, htag, ?_⟩ _
    intro k hk
    exact hisml k (by simp [hk])

/-- A close tag closes the element at a place with its own name, or with the name of one around it
that no element inside has. -/
theorem isOpen_closeElement (hstack : n.stack = inner ++ f :: outer) (hspan : f.openSpan = place)
    (houter : ∀ g ∈ outer, g.openSpan ≠ place) : (n.closeElement tag text span).IsOpen place ↔
      (∃ g ∈ inner, g.tag = tag) ∨ f.tag ≠ tag ∧ ∀ g ∈ outer, g.tag ≠ tag := by
  have hclosed : ∀ {i o : List Frame} {g : Frame}, splitFrames? tag n.stack = some (i, g, o) →
      ((n.closeElement tag text span).IsOpen place ↔ ∃ k ∈ o, k.openSpan = place) := by
    intro i o g h
    rw [closeElement_of_some n h, isOpen_append]
    rfl
  cases hsplit : splitFrames? tag inner with
  | some found =>
    obtain ⟨i, g, o⟩ := found
    obtain ⟨rfl, hg⟩ := splitFrames?_eq_some hsplit
    rw [hclosed (hstack ▸ splitFrames?_append_of_some hsplit)]
    exact iff_of_true ⟨f, by simp, hspan⟩ (Or.inl ⟨g, by simp, hg⟩)
  | none =>
    have hinner := splitFrames?_eq_none_iff.mp hsplit
    have hnone : ¬ ∃ g ∈ inner, g.tag = tag := by
      rintro ⟨g, hg, hgtag⟩
      exact hinner g hg hgtag
    have hrest := @splitFrames?_append_of_none tag inner (f :: outer) hsplit
    rw [← hstack] at hrest
    by_cases hf : f.tag = tag
    · rw [hclosed (i := inner) (g := f) (o := outer) (by simp [hrest, splitFrames?, hf])]
      refine iff_of_false ?_ ?_
      · rintro ⟨k, hk, hplace⟩
        exact houter k hk hplace
      · rintro (h | ⟨h, -⟩)
        · exact hnone h
        · exact h hf
    · cases hout : splitFrames? tag outer with
      | none =>
        rw [closeElement_of_none n (by simp [hrest, splitFrames?, hf, hout])]
        refine iff_of_true ⟨f, ?_, hspan⟩ (Or.inr ⟨hf, splitFrames?_eq_none_iff.mp hout⟩)
        have hmem : f ∈ n.stack := by simp [hstack]
        exact hmem
      | some found =>
        obtain ⟨i, g, o⟩ := found
        obtain ⟨rfl, hg⟩ := splitFrames?_eq_some hout
        rw [hclosed (i := inner ++ f :: i) (g := g) (o := o)
          (by simp [hrest, splitFrames?, hf, hout])]
        refine iff_of_false ?_ ?_
        · rintro ⟨k, hk, hplace⟩
          exact houter k (by simp [hk]) hplace
        · rintro (h | ⟨-, h⟩)
          · exact hnone h
          · exact h g (by simp) hg

theorem isOpen_closeTag {name gap : Text} {strays : List Stray}
    (hstack : n.stack = inner ++ f :: outer) (hspan : f.openSpan = place)
    (houter : ∀ g ∈ outer, g.openSpan ≠ place) :
    (n.step ⟨.closeTag name strays gap, span⟩).IsOpen place ↔
      (∃ g ∈ inner, g.tag = canonicalName name) ∨
        f.tag ≠ canonicalName name ∧ ∀ g ∈ outer, g.tag ≠ canonicalName name :=
  isOpen_closeElement (n := n.report (closeTagProblems span.start name strays)) hstack hspan houter

end Close

/-- As long as the element at a place stays open, only ISML elements are opened inside it. -/
theorem holds_step {c : Construct} (h : n.Holds outer place tag)
    (houter : ∀ g ∈ outer, g.openSpan ≠ place)
    (hc : ∀ name parts gap slash, c = .openTag name parts gap slash →
      isIsmlTag (canonicalName name) = true)
    (hopen : (n.step ⟨c, span⟩).IsOpen place) : (n.step ⟨c, span⟩).Holds outer place tag := by
  cases c with
  | openTag name parts gap slash =>
    have hreported : (n.report (tagProblems span.start name parts)).Holds outer place tag := h
    simp only [step, openTag, openElement]
    split
    · exact hreported.append _
    · obtain ⟨inner, f, hstack, hspan, htag, hinner⟩ := hreported
      refine ⟨_ :: inner, f, congrArg (List.cons _) hstack, hspan, htag, ?_⟩
      exact List.forall_mem_cons.mpr ⟨hc name parts gap slash rfl, hinner⟩
  | closeTag name strays gap =>
    obtain ⟨inner, f, hstack, hspan, htag, hinner⟩ := h
    have hreported : (n.report (closeTagProblems span.start name strays)).stack =
        inner ++ f :: outer := hstack
    by_cases hinside : ∃ g ∈ inner, g.tag = canonicalName name
    · exact holds_closeElement hreported hspan htag hinner hinside
    · -- The close tag of the element or of one around it would have closed it, so this one closes
      -- none.
      obtain ⟨hf, hall⟩ := ((isOpen_closeTag hstack hspan houter).mp hopen).resolve_left hinside
      have hnone : splitFrames? (canonicalName name)
          (n.report (closeTagProblems span.start name strays)).stack = none := by
        apply splitFrames?_eq_none_iff.mpr
        intro g hg
        rw [hreported] at hg
        rcases List.mem_append.mp hg with hg | hg
        · intro hname
          exact hinside ⟨g, hg, hname⟩
        · rcases List.mem_cons.mp hg with rfl | hg
          · exact hf
          · exact hall g hg
      simp only [step, closeTag]
      rw [closeElement_of_none _ hnone]
      exact ⟨inner, f, hreported, hspan, htag, hinner⟩
  | _ => exact h.append _

end Nesting

namespace RawText

variable {d : Dialect} {r : RawText} {c : Construct}

/-- Where an open tag stands behind some constructs. -/
def openPlace (before : List Construct) (opener : Construct) : Span :=
  .covering (Position.start.advance (before.flatMap Construct.source)) opener.source

/-- The raw text that the lexer is in: it began with the opener and did not end in the body, whose
constructs are counted, and the element around them is held as long as it is open. -/
structure BodyOf (d : Dialect) (before : List Construct) (opener : Construct)
    (body : List Construct) (r : RawText) : Prop where
  opens : opener.event? = some (.opened r.tag)
  raw : r.tag ∈ rawTextTags
  outside : before.foldl (after d) none = none
  inside : ∀ part, part <+: body →
    ∃ depth, (before ++ opener :: part).foldl (after d) none = some ⟨r.tag, depth⟩
  counted : r.depth + body.countP Construct.closesIsml = body.countP Construct.opensIsml
  held : (Nesting.ofConstructs (before ++ opener :: body)).IsOpen (openPlace before opener) →
    (Nesting.ofConstructs (before ++ opener :: body)).Holds (Nesting.ofConstructs before).stack
      (openPlace before opener) r.tag

/-- The elements around the one at a place are at other places. -/
theorem openSpan_ne_openPlace (before : List Construct) (opener : Construct) :
    ∀ g ∈ (Nesting.ofConstructs before).stack, g.openSpan ≠ openPlace before opener := by
  intro g hg hplace
  obtain ⟨hyields, -⟩ := (Nesting.each_before before).frames g hg
  refine hyields (.implied .start) (by simp) ?_
  have hstart : (g.element (.implied .start)).openSpan.start = (openPlace before opener).start :=
    congrArg Span.start hplace
  rw [hstart]
  simp [openPlace, Span.covering, Position.start]

/-- Raw text begins with a script or a style. -/
theorem bodyOf_open {cs : List Construct} (hcs : cs.foldl (after d) none = none)
    (h : after d none c = some r) : BodyOf d cs c [] r := by
  have hinside : ∀ part, part <+: [] →
      ∃ depth, (cs ++ c :: part).foldl (after d) none = some ⟨r.tag, depth⟩ := by
    intro part hpart
    obtain rfl := List.prefix_nil.mp hpart
    exact ⟨r.depth, by rw [List.foldl_concat, hcs, h]⟩
  cases c with
  | openTag name parts gap slash =>
    cases slash with
    | true => cases h
    | false =>
      simp only [after, afterOpen] at h
      split at h
      · rename_i hbegins
        cases h
        have hraw : canonicalName name ∈ rawTextTags := by
          simp only [Bool.and_eq_true, List.contains_iff_mem] at hbegins
          exact hbegins.2
        have hvoid := (kind_of_raw hraw).2.1
        refine ⟨by simp [Construct.event?, hvoid], hraw, hcs, hinside, rfl, ?_⟩
        intro _
        rw [Nesting.ofConstructs_concat]
        simp only [Nesting.step, Nesting.openTag, Nesting.openElement, hvoid]
        exact ⟨[], _, rfl, rfl, rfl, by simp⟩
      · cases h
  | _ => cases h

/-- As long as the raw text goes on, the lexer counts. -/
theorem count_after {r' : RawText} (h : after d (some r) c = some r') : r'.tag = r.tag ∧
    r'.depth + [c].countP Construct.closesIsml = r.depth + [c].countP Construct.opensIsml := by
  cases c with
  | openTag name parts gap slash =>
    cases slash with
    | true =>
      cases h
      exact ⟨rfl, rfl⟩
    | false =>
      simp only [after, afterOpen] at h
      split at h
      · rename_i hcounts
        cases h
        simp [Construct.closesIsml, Construct.opensIsml, hcounts]
      · rename_i hcounts
        cases h
        simp [Construct.closesIsml, Construct.opensIsml, hcounts]
  | closeTag name strays gap =>
    simp only [after, afterClose] at h
    split at h
    · cases h
    · split at h
      · rename_i hisml
        split at h
        · cases h
        · rename_i depth hdepth
          cases h
          simp [Construct.closesIsml, Construct.opensIsml, hisml, hdepth]
      · rename_i hisml
        cases h
        simp [Construct.closesIsml, Construct.opensIsml, hisml]
  | _ =>
    cases h
    exact ⟨rfl, rfl⟩

theorem bodyOf_step {before body : List Construct} {opener : Construct} {r' : RawText}
    (hbody : BodyOf d before opener body r)
    (hr : (before ++ opener :: body).foldl (after d) none = some r)
    (hc : c.Recognized d (some r)) (h : after d (some r) c = some r') :
    BodyOf d before opener (body ++ [c]) r' := by
  obtain ⟨htag, hcount⟩ := count_after h
  have hcs : before ++ opener :: (body ++ [c]) = (before ++ opener :: body) ++ [c] := by simp
  refine ⟨htag ▸ hbody.opens, htag ▸ hbody.raw, hbody.outside, ?_, ?_, ?_⟩
  · intro part hpart
    rcases List.prefix_concat_iff.mp hpart with rfl | hpart
    · exact ⟨r'.depth, by rw [hcs, List.foldl_concat, hr, h]⟩
    · exact htag ▸ hbody.inside part hpart
  · have hcounted := hbody.counted
    rw [List.countP_append, List.countP_append]
    omega
  · rw [hcs, Nesting.ofConstructs_concat, htag]
    intro hopen
    refine Nesting.holds_step (hbody.held ?_) (openSpan_ne_openPlace before opener) ?_ hopen
    · -- The construct stands behind the open tag, so that it did not open this element.
      obtain ⟨f, hf, hplace⟩ := hopen
      rcases Nesting.openSpan_step hf with ⟨hhere, -⟩ | ⟨g, hg, hspan⟩
      · have hoffset := congrArg (fun span => span.start.offset) (hhere.symm.trans hplace)
        have hpos := Construct.source_pos hbody.opens
        simp only [openPlace, Span.covering, Position.offset_advance, List.flatMap_append,
          List.flatMap_cons, List.length_append] at hoffset
        omega
      · exact ⟨g, hg, hspan.trans hplace⟩
    · rintro name parts gap slash rfl
      exact isIsmlTag_canonicalName (by simpa [Construct.Recognized, recognizes] using hc)

/-- In raw text the lexer is in the body of a script or a style. -/
theorem exists_bodyOf {s : Text} {cs ds : List Construct}
    (h : (Reading.ofText d s).constructs = cs ++ ds) (hraw : cs.foldl (after d) none = some r) :
    ∃ before opener body, cs = before ++ opener :: body ∧ BodyOf d before opener body r := by
  refine Reading.boundary_induction (P := fun cs => ∀ r, cs.foldl (after d) none = some r →
    ∃ before opener body, cs = before ++ opener :: body ∧
      BodyOf d before opener body r) ?_ ?_ h r hraw
  · intro r hr
    cases hr
  · intro cs c hc ih r hr
    rw [List.foldl_concat] at hr
    cases hbefore : cs.foldl (after d) none with
    | none =>
      rw [hbefore] at hr
      exact ⟨cs, c, [], rfl, bodyOf_open hbefore hr⟩
    | some inside =>
      rw [hbefore] at hr hc
      obtain ⟨before, opener, body, rfl, hbody⟩ := ih inside hbefore
      exact ⟨before, opener, body ++ [c], by simp, bodyOf_step hbody hbefore hc hr⟩

/-- A close tag ends the element around a body if it is its own, or names one that was open before
the element and none inside. -/
theorem BodyOf.ends_iff {before body : List Construct} {opener : Construct}
    (hbody : BodyOf d before opener body r)
    (hopen : (Nesting.ofConstructs (before ++ opener :: body)).IsOpen (openPlace before opener))
    (name gap : Text) (strays : List Stray) :
    ∃ inner f, (Nesting.ofConstructs (before ++ opener :: body)).stack =
        inner ++ f :: (Nesting.ofConstructs before).stack ∧
      f.openSpan = openPlace before opener ∧
      (¬ (Nesting.ofConstructs (before ++ opener :: body ++ [.closeTag name strays gap])).IsOpen
        f.openSpan ↔
        canonicalName name = r.tag ∨ (∀ g ∈ inner, g.tag ≠ canonicalName name) ∧
          ∃ g ∈ (Nesting.ofConstructs before).stack, g.tag = canonicalName name) := by
  obtain ⟨inner, f, hstack, hspan, htag, hisml⟩ := hbody.held hopen
  refine ⟨inner, f, hstack, hspan, ?_⟩
  have houter : ∀ g ∈ (Nesting.ofConstructs before).stack, g.openSpan ≠ f.openSpan := by
    rw [hspan]
    exact openSpan_ne_openPlace before opener
  rw [Nesting.ofConstructs_concat]
  refine (not_congr (Nesting.isOpen_closeTag hstack rfl houter)).trans ?_
  rw [htag]
  by_cases hown : canonicalName name = r.tag
  · have hnone : ¬ ∃ g ∈ inner, g.tag = canonicalName name := by
      rintro ⟨g, hg, hgname⟩
      have hisml := hisml g hg
      rw [hgname, hown] at hisml
      exact not_raw_of_isml hisml hbody.raw
    simp [hown ▸ hnone, hown]
  · simp [hown, Ne.symm hown]

/-- The lexer leaves raw text at its own close tag, and at another if it has counted no open tag
more than close tags. -/
theorem leaves_iff {name gap : Text} {strays : List Stray}
    (hname : recognizes d (some r) name true = true) :
    after d (some r) (.closeTag name strays gap) = none ↔
      canonicalName name = r.tag ∨ r.depth = 0 := by
  simp only [after, afterClose]
  by_cases hown : canonicalName name = r.tag
  · simp [hown]
  · have hisml : isIsmlTag name = true := by simpa [recognizes, hown] using hname
    cases hdepth : r.depth <;> simp [hown, hisml]

end RawText

namespace Lexer

/-- Behind some constructs of a template the lexer is in that raw text, or in none. -/
def RawBehind (d : Dialect) (s : Text) (cs : List Construct) (raw : Option RawText) : Prop :=
  ∃ l, Gives (start d s) (constructTokens .start cs) l ∧ l.raw = raw

theorem rawBehind_foldl {d : Dialect} {s : Text} {cs ds : List Construct}
    (h : (Reading.ofText d s).constructs = cs ++ ds) :
    RawBehind d s cs (cs.foldl (RawText.after d) none) := by
  obtain ⟨rest, hgives, -⟩ := gives_constructs [] h
  exact ⟨_, hgives, rfl⟩

/-- The raw text that a lexer is in between two constructs. -/
theorem raw_of_gives {d : Dialect} {s : Text} {cs ds : List Construct} {l : Lexer}
    (h : (Reading.ofText d s).constructs = cs ++ ds)
    (hl : Gives (start d s) (constructTokens .start cs) l) :
    l.raw = cs.foldl (RawText.after d) none := by
  obtain ⟨k, hgives, hraw⟩ := rawBehind_foldl h
  rw [hl.unique hgives, hraw]

theorem leaves_iff_of_gives {d : Dialect} {s name gap : Text} {cs ds : List Construct}
    {strays : List Stray} {r : RawText} {l : Lexer}
    (h : (Reading.ofText d s).constructs = cs ++ .closeTag name strays gap :: ds)
    (hinside : cs.foldl (RawText.after d) none = some r)
    (hl : Gives (start d s) (constructTokens .start (cs ++ [.closeTag name strays gap])) l) :
    l.raw = none ↔ canonicalName name = r.tag ∨ r.depth = 0 := by
  have hstands : Reading.Stands d none (Reading.ofText d s).constructs :=
    (Reading.segmented_inRawText d none s).stands
  rw [h, Reading.stands_append, hinside] at hstands
  rw [List.append_cons] at h
  rw [raw_of_gives h hl, List.foldl_concat, hinside]
  exact RawText.leaves_iff (Reading.recognized_of_step hstands.2.1)

end Lexer

namespace Document

open Nesting

variable (d : Dialect) (s : Text)

/-- A close tag in raw text has an open tag before it where the raw text began, which goes on from
there to the close tag. The lexer leaves raw text at the close tag if it is that of the element or
as many ISML tags were closed as opened since the raw text began. The element is ended if the tag is
its own, or names one that was open before and none inside. So the two agree exactly if the tag is
the element's own, or both of these hold or none. -/
theorem leaves_iff_ends {cs ds : List Construct} {name gap : Text} {strays : List Stray}
    {l l' : Lexer} {r : RawText}
    (hsplit : (Reading.ofText d s).constructs = cs ++ .closeTag name strays gap :: ds)
    (hbefore : Lexer.Gives (.start d s) (constructTokens .start cs) l)
    (hafter :
      Lexer.Gives (.start d s) (constructTokens .start (cs ++ [.closeTag name strays gap])) l')
    (hraw : l.raw = some r) :
    ∃ before opener body, cs = before ++ opener :: body ∧ opener.event? = some (.opened r.tag) ∧
      r.tag ∈ rawTextTags ∧ Lexer.RawBehind d s before none ∧
      (∀ part, part <+: body →
        ∃ depth, Lexer.RawBehind d s (before ++ opener :: part) (some ⟨r.tag, depth⟩)) ∧
      (l'.raw = none ↔ canonicalName name = r.tag ∨
        body.countP Construct.opensIsml = body.countP Construct.closesIsml) ∧
      ((ofConstructs cs).IsOpen (RawText.openPlace before opener) →
        ∃ inner f, (ofConstructs cs).stack = inner ++ f :: (ofConstructs before).stack ∧
          f.openSpan = RawText.openPlace before opener ∧
          (¬ (ofConstructs (cs ++ [.closeTag name strays gap])).IsOpen f.openSpan ↔
            canonicalName name = r.tag ∨ (∀ g ∈ inner, g.tag ≠ canonicalName name) ∧
              ∃ g ∈ (ofConstructs before).stack, g.tag = canonicalName name) ∧
          ((l'.raw = none ↔
              ¬ (ofConstructs (cs ++ [.closeTag name strays gap])).IsOpen f.openSpan) ↔
            canonicalName name = r.tag ∨
            (body.countP Construct.opensIsml = body.countP Construct.closesIsml ↔
              (∀ g ∈ inner, g.tag ≠ canonicalName name) ∧
                ∃ g ∈ (ofConstructs before).stack, g.tag = canonicalName name))) := by
  have hinside := (Lexer.raw_of_gives hsplit hbefore).symm.trans hraw
  have hleaves := Lexer.leaves_iff_of_gives hsplit hinside hafter
  obtain ⟨before, opener, body, rfl, hbody⟩ := RawText.exists_bodyOf hsplit hinside
  have hcounted : r.depth = 0 ↔
      body.countP Construct.opensIsml = body.countP Construct.closesIsml := by
    have hcount := hbody.counted
    omega
  rw [hcounted] at hleaves
  have houtside : Lexer.RawBehind d s before none := by
    rw [List.append_assoc] at hsplit
    have hbehind := Lexer.rawBehind_foldl hsplit
    rwa [hbody.outside] at hbehind
  have hstays : ∀ part, part <+: body →
      ∃ depth, Lexer.RawBehind d s (before ++ opener :: part) (some ⟨r.tag, depth⟩) := by
    rintro part ⟨more, rfl⟩
    rw [← List.cons_append, ← List.append_assoc, List.append_assoc] at hsplit
    have hbehind := Lexer.rawBehind_foldl hsplit
    obtain ⟨depth, hdepth⟩ := hbody.inside part (List.prefix_append part more)
    rw [hdepth] at hbehind
    exact ⟨depth, hbehind⟩
  refine ⟨before, opener, body, rfl, hbody.opens, hbody.raw, houtside, hstays, hleaves, ?_⟩
  intro hopen
  obtain ⟨inner, f, hstack, hspan, hends⟩ := hbody.ends_iff hopen name gap strays
  refine ⟨inner, f, hstack, hspan, hends, ?_⟩
  rw [hleaves, hends]
  by_cases hown : canonicalName name = r.tag <;> simp [hown]

/-- A script in a condition, with a module tag that is left open. -/
def scriptInCondition : List Construct :=
  [.openTag "isif".toList [] [] false, .openTag "script".toList [] [] false,
    .openTag "isa".toList [] [] false]

/-- The script is the only construct there that opens raw text. -/
theorem split_scriptInCondition {before body : List Construct} {opener : Construct}
    (h : scriptInCondition = before ++ opener :: body)
    (hopens : opener.event? = some (.opened "script".toList)) :
    before = [.openTag "isif".toList [] [] false] ∧
      opener = .openTag "script".toList [] [] false ∧
      body = [.openTag "isa".toList [] [] false] := by
  rcases before with _ | ⟨x, _ | ⟨y, _ | ⟨z, zs⟩⟩⟩
  · obtain ⟨rfl, -⟩ := List.cons.inj h
    exact absurd hopens (by decide +kernel)
  · obtain ⟨rfl, hrest⟩ := List.cons.inj h
    obtain ⟨rfl, rfl⟩ := List.cons.inj hrest
    exact ⟨rfl, rfl, rfl⟩
  · obtain ⟨rfl, hrest⟩ := List.cons.inj h
    obtain ⟨rfl, hlast⟩ := List.cons.inj hrest
    obtain ⟨rfl, -⟩ := List.cons.inj hlast
    exact absurd hopens (by decide +kernel)
  · simpa [scriptInCondition] using congrArg List.length h

/-- The lexer stays in raw text at the close tag of the condition, though the script ends with
it. -/
theorem leaves_iff_ends_condition : ∃ l l',
    Lexer.Gives (.start {} "<isif><script><isa></isif>".toList)
      (constructTokens .start scriptInCondition) l ∧
    Lexer.Gives (.start {} "<isif><script><isa></isif>".toList)
      (constructTokens .start (scriptInCondition ++ [.closeTag "isif".toList [] []])) l' ∧
    l.raw = some ⟨"script".toList, 1⟩ ∧ l'.raw ≠ none ∧
    (ofConstructs scriptInCondition).IsOpen ⟨⟨6, 1, 7⟩, ⟨14, 1, 15⟩⟩ ∧
    ¬ (ofConstructs (scriptInCondition ++ [.closeTag "isif".toList [] []])).IsOpen
      ⟨⟨6, 1, 7⟩, ⟨14, 1, 15⟩⟩ := by
  have hsplit : (Reading.ofText {} "<isif><script><isa></isif>".toList).constructs =
      scriptInCondition ++ .closeTag "isif".toList [] [] :: [] := by
    decide +kernel
  obtain ⟨rest, hbefore, -⟩ := Lexer.gives_constructs [] hsplit
  obtain ⟨rest', hafter, -⟩ :=
    Lexer.gives_constructs [] (hsplit.trans (List.append_nil _).symm)
  have hopen : (ofConstructs scriptInCondition).IsOpen ⟨⟨6, 1, 7⟩, ⟨14, 1, 15⟩⟩ := by
    decide +kernel
  have hraw : scriptInCondition.foldl (RawText.after {}) none = some ⟨"script".toList, 1⟩ := by
    decide +kernel
  obtain ⟨before, opener, body, hcs, hopens, -, -, -, hleaves, hends⟩ :=
    leaves_iff_ends {} "<isif><script><isa></isif>".toList hsplit hbefore hafter hraw
  obtain ⟨rfl, rfl, rfl⟩ := split_scriptInCondition hcs hopens
  obtain ⟨inner, f, hstack, hspan, hended, -⟩ := hends hopen
  refine ⟨_, _, hbefore, hafter, hraw, ?_, hopen, ?_⟩
  · intro hleft
    exact absurd (hleaves.mp hleft) (by decide +kernel)
  · have htags : (ofConstructs scriptInCondition).stack.map Frame.tag =
        ["isa".toList, "script".toList, "isif".toList] := by
      decide +kernel
    have houter : (ofConstructs [.openTag "isif".toList [] [] false]).stack.map Frame.tag =
        ["isif".toList] := by
      decide +kernel
    have hinner : inner.map Frame.tag = ["isa".toList] := by
      rw [hstack, List.map_append, List.map_cons, houter] at htags
      have hends : inner.map Frame.tag ++ [f.tag, "isif".toList] =
          ["isa".toList] ++ ["script".toList, "isif".toList] := htags
      exact (List.append_inj' hends rfl).1
    have hplace : f.openSpan = ⟨⟨6, 1, 7⟩, ⟨14, 1, 15⟩⟩ := hspan
    rw [← hplace]
    refine hended.mpr (Or.inr ⟨?_, ?_⟩)
    · intro g hg
      have hname : g.tag ∈ inner.map Frame.tag := List.mem_map_of_mem hg
      rw [hinner, List.mem_singleton] at hname
      rw [hname]
      decide +kernel
    · decide +kernel

/-- A close tag without its element makes the lexer leave the raw text of a script that stays open,
so that what follows is no longer text. -/
theorem leaves_at_stray : ∃ l l',
    Lexer.Gives (.start {} "<script></isif>a<b</script>".toList)
      (constructTokens .start [.openTag "script".toList [] [] false]) l ∧
    Lexer.Gives (.start {} "<script></isif>a<b</script>".toList)
      (constructTokens .start [.openTag "script".toList [] [] false, .closeTag "isif".toList [] []])
        l' ∧
    l.raw = some ⟨"script".toList, 0⟩ ∧ l'.raw = none ∧
    (ofConstructs [.openTag "script".toList [] [] false, .closeTag "isif".toList [] []]).strays =
      [⟨⟨8, 1, 9⟩, ⟨15, 1, 16⟩⟩] ∧
    (ofConstructs [.openTag "script".toList [] [] false, .closeTag "isif".toList [] []]).IsOpen
      (RawText.openPlace [] (.openTag "script".toList [] [] false)) ∧
    ∀ t ∈ tokenize {} "<script></isif>a<b</script>".toList, t.kind = .text → t.text = ['a'] := by
  have hread : (Reading.ofText {} "<script></isif>a<b</script>".toList).constructs.take 2 =
      [.openTag "script".toList [] [] false, .closeTag "isif".toList [] []] := by
    decide +kernel
  have hsplit := (List.take_append_drop 2
    (Reading.ofText {} "<script></isif>a<b</script>".toList).constructs).symm
  rw [hread] at hsplit
  have hfirst : (Reading.ofText {} "<script></isif>a<b</script>".toList).constructs =
      [.openTag "script".toList [] [] false] ++ .closeTag "isif".toList [] [] ::
        (Reading.ofText {} "<script></isif>a<b</script>".toList).constructs.drop 2 := hsplit
  obtain ⟨rest, hbefore, -⟩ := Lexer.gives_constructs [] hfirst
  obtain ⟨rest', hafter, -⟩ := Lexer.gives_constructs [] hsplit
  have hinside : [Construct.openTag "script".toList [] [] false].foldl (RawText.after {}) none =
      some ⟨"script".toList, 0⟩ := by
    decide +kernel
  have houtside : [Construct.openTag "script".toList [] [] false,
      .closeTag "isif".toList [] []].foldl (RawText.after {}) none = none := by
    decide +kernel
  exact ⟨_, _, hbefore, hafter, hinside, houtside,
    by decide +kernel, by decide +kernel, by decide +kernel⟩

end Document

end StoreMarkup
