import StoreMarkup.Proofs.Diagnostics
import StoreMarkup.Proofs.Layout
import StoreMarkup.Proofs.Traversals

/-! Writing a document gives back its template, less the close tags that were dropped. -/
namespace StoreMarkup

/-- Whether an offset lies in a region. -/
def Span.covers (span : Span) (i : Nat) : Bool := span.start.offset ≤ i && i < span.stop.offset

namespace Text

/-- The text without the characters in some regions. -/
def without (regions : List Span) (t : Text) : Text :=
  (t.zipIdx.filter fun c => !regions.any (·.covers c.2)).map Prod.fst

variable {regions : List Span} {s t : Text}

@[simp] theorem without_nil (t : Text) : without [] t = t := by
  rw [without, List.filter_eq_self.mpr (by simp)]
  exact List.zipIdx_map_fst 0 t

theorem without_congr {others : List Span} (h : ∀ r, r ∈ regions ↔ r ∈ others) (t : Text) :
    without regions t = without others t := by
  have hany : ∀ i, regions.any (·.covers i) = others.any (·.covers i) := by
    intro i
    rw [Bool.eq_iff_iff]
    simp [h]
  simp [without, hany]

/-- Text after all regions is kept. -/
theorem without_append (h : ∀ r ∈ regions, r.stop.offset ≤ s.length) :
    without regions (s ++ t) = without regions s ++ t := by
  have hkept : ∀ c ∈ t.zipIdx s.length, (!regions.any (·.covers c.2)) = true := by
    intro c hc
    have hle := List.le_snd_of_mem_zipIdx hc
    simp only [Bool.not_eq_true', List.any_eq_false, Span.covers]
    intro r hr hcov
    have := h r hr
    simp at hcov
    omega
  simp [without, List.zipIdx_append, List.filter_eq_self.mpr hkept]

/-- A region that is exactly the end of a text takes it away, and nothing before it. -/
theorem without_append_covering (p : Position) (hp : p.offset = s.length) :
    without (regions ++ [.covering p t]) (s ++ t) = without regions s := by
  have hgone : ∀ c ∈ t.zipIdx s.length, (Span.covering p t).covers c.2 = true := by
    intro c hc
    have hle := List.le_snd_of_mem_zipIdx hc
    have hlt := List.snd_lt_add_of_mem_zipIdx hc
    simp [Span.covers, Span.covering, hp]
    omega
  have hkept : ∀ c ∈ s.zipIdx, (Span.covering p t).covers c.2 = false := by
    intro c hc
    have hlt := List.snd_lt_add_of_mem_zipIdx hc
    simp [Span.covers, Span.covering, hp]
    omega
  have hs : s.zipIdx.filter (fun c => !(regions ++ [Span.covering p t]).any (·.covers c.2)) =
      s.zipIdx.filter fun c => !regions.any (·.covers c.2) := by
    apply List.filter_congr
    intro c hc
    simp [hkept c hc]
  have ht : (t.zipIdx s.length).filter
      (fun c => !(regions ++ [Span.covering p t]).any (·.covers c.2)) = [] := by
    apply List.filter_eq_nil_iff.mpr
    intro c hc
    simp [hgone c hc]
  rw [without, List.zipIdx_append, List.filter_append, hs, Nat.zero_add, ht]
  simp [without]

end Text

namespace Laid

variable {s : Text} {ps : List (Located Text)} {ds : List Span}

theorem stop_le_of_mem (h : Laid s ps ds) : ∀ r ∈ ds, r.stop.offset ≤ s.length := by
  induction h with
  | start => simp
  | keep t _ ih =>
    intro r hr
    have := ih r hr
    simp only [List.length_append]
    omega
  | drop t _ ih =>
    intro r hr
    rcases List.mem_append.mp hr with hr | hr
    · have := ih r hr
      simp only [List.length_append]
      omega
    · obtain rfl := List.mem_singleton.mp hr
      simp [Span.covering, Position.start]

/-- The pieces are the text without the dropped regions. -/
theorem piecesText_eq (h : Laid s ps ds) : Node.piecesText ps = s.without ds := by
  induction h with
  | start => rfl
  | keep t h ih =>
    rw [Text.without_append h.stop_le_of_mem, ← ih]
    simp [Node.piecesText]
  | drop t _ ih => rw [Text.without_append_covering _ (by simp [Position.start]), ih]

end Laid

/-- Writing a document gives the template without the close tags that end no element, and so the
template itself if there are none. -/
theorem Document.toSource_parse (d : Dialect) (name : Option String) (s : Text) :
    (parse d name s).toSource = s.without ((parse d name s).regions .unexpectedClosingTag) ∧
      ((parse d name s).ofCode .unexpectedClosingTag = [] → (parse d name s).toSource = s) := by
  have hlaid := Nesting.laid_ofReading (.ofText d s)
  rw [Reading.source_ofText] at hlaid
  have hsame : ∀ r, r ∈ (Nesting.ofReading (.ofText d s)).strays ↔
      r ∈ (parse d name s).regions .unexpectedClosingTag := by
    intro r
    exact (regions_perm d name s .unexpectedClosingTag).mem_iff.symm
  have hwrite : (parse d name s).toSource =
      s.without ((parse d name s).regions .unexpectedClosingTag) := by
    rw [← Text.without_congr hsame, ← hlaid.piecesText_eq]
    exact Node.write_eq _
  refine ⟨hwrite, ?_⟩
  intro hnone
  rw [hwrite, regions, hnone, List.map_nil, Text.without_nil]

/-- A template that ends inside a tag, below a tag that may be left open. -/
theorem Document.toSource_parse_cutOff :
    (parse {} none "<isfoo>a<b".toList).ofCode .unexpectedClosingTag = [] ∧
      (parse {} none "<isfoo>a<b".toList).toSource = "<isfoo>a<b".toList :=
  ⟨by decide +kernel, (toSource_parse {} none "<isfoo>a<b".toList).2 (by decide +kernel)⟩

end StoreMarkup
