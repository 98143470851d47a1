import StoreMarkup.Proofs.Edit
import StoreMarkup.Proofs.Lossless
import StoreMarkup.Proofs.Reports

/-! A template without its dropped close tags: the tree is the same at other places, and all
problems stay that are not about these tags. -/
namespace StoreMarkup

/-- A text in segments, each with whether it is kept. -/
abbrev Segments := List (Text × Bool)

namespace Segments

def text (segs : Segments) : Text := segs.flatMap Prod.fst

def kept (segs : Segments) : Text := segs.flatMap fun (t, keep) => if keep then t else []

/-- What is kept of the text before an offset. -/
def keptBefore : Segments → Nat → Text
  | [], _ => []
  | (t, keep) :: segs, k => (if keep then t.take k else []) ++ keptBefore segs (k - t.length)

/-- Whether the character at an offset is kept. -/
def KeptAt : Segments → Nat → Prop
  | [], _ => False
  | (t, keep) :: segs, k => if k < t.length then keep = true else KeptAt segs (k - t.length)

variable {segs left right : Segments} {t : Text} {keep : Bool} {i j : Nat}

@[simp] theorem keptBefore_zero (segs : Segments) : segs.keptBefore 0 = [] := by
  induction segs with
  | nil => rfl
  | cons seg segs ih => simp [keptBefore, ih]

theorem keptBefore_append (left right : Segments) (i : Nat) :
    keptBefore (left ++ right) (left.text.length + i) = left.kept ++ right.keptBefore i := by
  induction left generalizing i with
  | nil => simp [text, kept]
  | cons seg left ih =>
    obtain ⟨t, keep⟩ := seg
    have hrest := ih i
    have hoffset : text ((t, keep) :: left) = t ++ text left := rfl
    have htake : t.take (t.length + (text left).length + i) = t := List.take_of_length_le (by omega)
    have hsub : t.length + (text left).length + i - t.length = (text left).length + i := by omega
    rw [hoffset, List.length_append, List.cons_append, keptBefore, htake, hsub, hrest]
    simp [kept]

theorem keptAt_append : KeptAt (left ++ right) (left.text.length + i) ↔ right.KeptAt i := by
  induction left with
  | nil => simp [text]
  | cons seg left ih =>
    obtain ⟨t, keep⟩ := seg
    have hoffset : text ((t, keep) :: left) = t ++ text left := rfl
    have hnot : ¬ t.length + (text left).length + i < t.length := by omega
    have hsub : t.length + (text left).length + i - t.length = (text left).length + i := by omega
    rw [hoffset, List.length_append, List.cons_append, KeptAt, if_neg hnot, hsub, ih]

/-- Inside a segment its mark decides. -/
theorem keptAt_segment (hlow : left.text.length ≤ i) (hhigh : i < left.text.length + t.length) :
    KeptAt (left ++ (t, keep) :: right) i ↔ keep = true := by
  obtain ⟨j, rfl⟩ := Nat.exists_eq_add_of_le hlow
  rw [keptAt_append, KeptAt, if_pos (by omega)]

/-- What is kept grows with every character that is kept. -/
theorem length_keptBefore_lt (h : segs.KeptAt i) (hij : i < j) :
    (segs.keptBefore i).length < (segs.keptBefore j).length := by
  induction segs generalizing i j with
  | nil => cases h
  | cons seg segs ih =>
    obtain ⟨t, keep⟩ := seg
    by_cases hi : i < t.length
    · have hkeep : keep = true := by simpa [KeptAt, hi] using h
      have hzero : i - t.length = 0 := by omega
      simp only [keptBefore, hkeep, if_true, hzero, keptBefore_zero, List.append_nil,
        List.length_append, List.length_take]
      omega
    · have hrest : KeptAt segs (i - t.length) := by simpa [KeptAt, hi] using h
      have hlt := @ih _ (j - t.length) hrest (by omega)
      have htake : ∀ k, t.length ≤ k → t.take k = t := fun k hk => List.take_of_length_le hk
      simp only [keptBefore, htake i (by omega), htake j (by omega), List.length_append]
      omega

theorem length_keptBefore_le_iff (hi : i < j → segs.KeptAt i) (hj : j < i → segs.KeptAt j) :
    i ≤ j ↔ (segs.keptBefore i).length ≤ (segs.keptBefore j).length := by
  constructor
  · intro h
    rcases Nat.eq_or_lt_of_le h with rfl | h
    · exact Nat.le_refl _
    · exact Nat.le_of_lt (length_keptBefore_lt (hi h) h)
  · intro h
    by_contra hlt
    have hlt := Nat.lt_of_not_le hlt
    have := length_keptBefore_lt (hj hlt) hlt
    omega

end Segments

/-- The change that leaves the segments out that are not kept. -/
def Edit.dropping (segs : Segments) : Edit where
  move := fun p => Position.start.advance (segs.keptBefore p.offset)

namespace Edit

variable {left right : Segments} {t : Text}

theorem dropping_move (left right : Segments) :
    (dropping (left ++ right)).move (Position.start.advance left.text) =
      Position.start.advance left.kept := by
  have h := Segments.keptBefore_append left right 0
  rw [Nat.add_zero, Segments.keptBefore_zero, List.append_nil] at h
  simp [dropping, Position.start, h]

/-- A segment that is kept moves as a whole. -/
theorem rigid_dropping :
    (dropping (left ++ (t, true) :: right)).Rigid (Position.start.advance left.text) t := by
  rintro u v rfl
  have h := Segments.keptBefore_append left ((u ++ v, true) :: right) u.length
  have hzero : u.length - (u ++ v).length = 0 := by simp
  simp only [Segments.keptBefore, if_true, List.take_left, hzero, Segments.keptBefore_zero,
    List.append_nil] at h
  rw [dropping_move, ← Position.advance_append]
  simp [dropping, Position.start, h]

end Edit

namespace Nesting

/-- Constructs from a point on, each with whether it is kept. -/
def marked (n : Nesting) (p : Position) : List Construct → List (Construct × Bool)
  | [] => []
  | c :: cs =>
    (c, !n.drops c) :: marked (n.step ⟨c, .covering p c.source⟩) (p.advance c.source) cs

theorem marked_append (n : Nesting) (p : Position) (cs ds : List Construct) :
    n.marked p (cs ++ ds) = n.marked p cs ++
      ((locate Construct.source p cs).foldl step n).marked (p.advance (cs.flatMap Construct.source))
        ds := by
  induction cs generalizing n p with
  | nil => rfl
  | cons c cs ih => simp [marked, ih, locate, Span.covering]

theorem map_fst_marked (n : Nesting) (p : Position) (cs : List Construct) :
    (n.marked p cs).map Prod.fst = cs := by
  induction cs generalizing n p with
  | nil => rfl
  | cons c cs ih => simp [marked, ih]

end Nesting

/-- The constructs that are kept. -/
def keptOf (ms : List (Construct × Bool)) : List Construct := (ms.filter Prod.snd).map Prod.fst

/-- The texts of marked constructs. -/
def segmentsOf (ms : List (Construct × Bool)) : Segments := ms.map fun (c, keep) => (c.source, keep)

theorem text_segmentsOf (ms : List (Construct × Bool)) :
    Segments.text (segmentsOf ms) = (ms.map Prod.fst).flatMap Construct.source := by
  simp [Segments.text, segmentsOf, List.flatMap_map]

theorem kept_segmentsOf (ms : List (Construct × Bool)) :
    Segments.kept (segmentsOf ms) = (keptOf ms).flatMap Construct.source := by
  induction ms with
  | nil => rfl
  | cons m ms ih =>
    obtain ⟨c, keep⟩ := m
    cases keep <;> simpa [Segments.kept, segmentsOf, keptOf] using ih

namespace Reading

variable (r : Reading)

/-- The marked constructs of a reading. -/
def marked (cs : List Construct) : List (Construct × Bool) := Nesting.marked {} .start cs

/-- The text of a reading, where the close tags that end no element are not kept. -/
def segments : Segments := segmentsOf (marked r.constructs) ++ [(r.ending.source, true)]

/-- The reading without the close tags that end no element. -/
def kept : Reading := ⟨keptOf (marked r.constructs), r.ending⟩

variable {r} {cs ds : List Construct} {c : Construct}

theorem marked_cons_eq (cs ds : List Construct) (c : Construct) : ∃ rest, marked (cs ++ c :: ds) =
    marked cs ++ (c, !(Nesting.ofConstructs cs).drops c) :: rest :=
  ⟨_, Nesting.marked_append {} .start cs (c :: ds)⟩

theorem constructs_of_marked {left right : List (Construct × Bool)}
    (h : marked cs = left ++ right) :
    cs = left.map Prod.fst ++ right.map Prod.fst := by
  have hfst := Nesting.map_fst_marked {} .start cs
  rw [← marked, h, List.map_append] at hfst
  exact hfst.symm

/-- The mark of a construct is made from the tree before it. -/
theorem drops_of_marked {left right : List (Construct × Bool)} {keep : Bool}
    (h : marked cs = left ++ (c, keep) :: right) :
    (Nesting.ofConstructs (left.map Prod.fst)).drops c = !keep := by
  obtain ⟨rest, hrest⟩ := marked_cons_eq (left.map Prod.fst) (right.map Prod.fst) c
  have hcs : cs = left.map Prod.fst ++ c :: right.map Prod.fst := constructs_of_marked h
  rw [← hcs, h] at hrest
  have hlength : left.length = (marked (left.map Prod.fst)).length := by
    have hfst := congrArg List.length (Nesting.map_fst_marked {} .start (left.map Prod.fst))
    rw [← marked] at hfst
    simpa using hfst.symm
  obtain ⟨-, htail⟩ := List.append_inj hrest hlength
  have hkeep : keep = !(Nesting.ofConstructs (left.map Prod.fst)).drops c :=
    congrArg Prod.snd (List.cons.inj htail).1
  rw [hkeep, Bool.not_not]

theorem marked_concat (cs : List Construct) (c : Construct) :
    marked (cs ++ [c]) = marked cs ++ [(c, !(Nesting.ofConstructs cs).drops c)] :=
  Nesting.marked_append {} .start cs [c]

theorem text_marked (cs : List Construct) :
    Segments.text (segmentsOf (marked cs)) = cs.flatMap Construct.source := by
  rw [text_segmentsOf, marked, Nesting.map_fst_marked]

/-- The segment of a construct. -/
theorem segments_eq (h : r.constructs = cs ++ c :: ds) : ∃ right, r.segments =
    segmentsOf (marked cs) ++ (c.source, !(Nesting.ofConstructs cs).drops c) :: right := by
  obtain ⟨rest, hrest⟩ := marked_cons_eq cs ds c
  refine ⟨segmentsOf rest ++ [(r.ending.source, true)], ?_⟩
  rw [segments, h, hrest]
  simp [segmentsOf]

/-- Inside a construct all characters are kept or none. -/
theorem keptAt_construct (h : r.constructs = cs ++ c :: ds) {k : Nat}
    (hlow : (cs.flatMap Construct.source).length ≤ k)
    (hhigh : k < (cs.flatMap Construct.source).length + c.source.length) :
    r.segments.KeptAt k ↔ (Nesting.ofConstructs cs).drops c = false := by
  obtain ⟨right, hright⟩ := segments_eq h
  rw [hright, Segments.keptAt_segment (by rwa [text_marked]) (by rwa [text_marked])]
  simp

/-- The characters of a dropped close tag are not kept. -/
theorem not_keptAt_of_mem_strays (h : r.constructs = cs ++ ds) {region : Span}
    (hregion : region ∈ (Nesting.ofConstructs cs).strays) :
    region.start.offset < region.stop.offset ∧
      ∀ k, region.start.offset ≤ k → k < region.stop.offset → ¬ r.segments.KeptAt k := by
  induction cs using List.reverseRecOn generalizing ds with
  | nil => cases hregion
  | append_singleton cs c ih =>
    rw [List.append_assoc, List.singleton_append] at h
    rw [Nesting.ofConstructs_concat, Nesting.strays_step] at hregion
    rcases List.mem_append.mp hregion with hregion | hregion
    · exact ih h hregion
    · split at hregion
      · rename_i hdrops
        rw [List.mem_singleton.mp hregion]
        have hpos : 0 < c.source.length := by
          obtain ⟨name, strays, gap, rfl, -⟩ := Nesting.exists_of_drops hdrops
          simp [Construct.source]
        simp only [Span.covering, Position.offset_advance, Position.start, Nat.zero_add]
        refine ⟨by omega, ?_⟩
        intro k hlow hhigh hkept
        rw [keptAt_construct h hlow hhigh, hdrops] at hkept
        cases hkept
      · cases hregion

/-- The region of a construct that is dropped is that of a close tag that ends no element. -/
theorem mem_strays_of_drops (h : r.constructs = cs ++ c :: ds)
    (hdrops : (Nesting.ofConstructs cs).drops c = true) :
    .covering (Position.start.advance (cs.flatMap Construct.source)) c.source ∈
      (Nesting.ofReading r).strays := by
  rw [Nesting.strays_ofReading, h, ← List.singleton_append, ← List.append_assoc]
  refine Nesting.strays_mono (cs ++ [c]) ds _ ?_
  rw [Nesting.ofConstructs_concat, Nesting.strays_step, if_pos hdrops]
  exact List.mem_append_right _ (List.mem_singleton_self _)

/-- Whether a report is about a close tag that ends no element or about something in one of these
regions, which are those of such close tags. -/
def reportsDropped (regions : List Span) (code : Code) (span : Span) : Bool :=
  code == .unexpectedClosingTag || code == .malformedClosingTag && regions.any (·.contains span)

theorem reportsDropped_congr {regions others : List Span}
    (h : ∀ region, region ∈ regions ↔ region ∈ others) (code : Code) (span : Span) :
    reportsDropped regions code span = reportsDropped others code span := by
  have hany : regions.any (·.contains span) = others.any (·.contains span) := by
    rw [Bool.eq_iff_iff]
    simp [h]
  simp [reportsDropped, hany]

/-- Whether a problem of a reading stays when the close tags that end no element are left out. -/
def keeps (r : Reading) (q : Located Problem) : Bool :=
  !reportsDropped (Nesting.ofReading r).strays q.value.code q.span

/-- What is reported with a construct that is dropped goes with it. -/
theorem keeps_of_dropped (h : r.constructs = cs ++ c :: ds)
    (hdrops : (Nesting.ofConstructs cs).drops c = true) {q : Located Problem}
    (hq : q ∈ (Nesting.ofConstructs cs).news c
      (.covering (Position.start.advance (cs.flatMap Construct.source)) c.source)) :
    r.keeps q = false := by
  have hregion := mem_strays_of_drops h hdrops
  obtain ⟨name, strays, gap, rfl, -⟩ := Nesting.exists_of_drops hdrops
  have hwithin := Nesting.within_of_mem_news hq (by simp [Construct.source])
  rcases Nesting.of_mem_news hq with hfault | ⟨-, ⟨hcode, -⟩ | ⟨-, hkept⟩⟩
  · have hcode := code_of_mem_closeTagProblems hfault
    have hany : (Nesting.ofReading r).strays.any (·.contains q.span) = true := by
      refine List.any_eq_true.mpr ⟨_, hregion, ?_⟩
      simp only [Span.contains, Span.covering, Position.offset_advance, Position.start,
        Bool.and_eq_true, decide_eq_true_eq]
      omega
    simp [keeps, reportsDropped, hcode, hany]
  · simp [keeps, reportsDropped, hcode]
  · rw [hdrops] at hkept
    cases hkept

/-- What is reported with a construct that is kept stays. -/
theorem keeps_of_kept (h : r.constructs = cs ++ c :: ds) (hne : c.source ≠ [])
    (hkept : (Nesting.ofConstructs cs).drops c = false) {q : Located Problem}
    (hq : q ∈ (Nesting.ofConstructs cs).news c
      (.covering (Position.start.advance (cs.flatMap Construct.source)) c.source)) :
    r.keeps q = true ∧ r.segments.KeptAt q.span.start.offset := by
  obtain ⟨hlow, hhigh, hle, -, hinside⟩ := Nesting.within_of_mem_news hq hne
  have hat : ∀ k, (cs.flatMap Construct.source).length ≤ k →
      k < (cs.flatMap Construct.source).length + c.source.length → r.segments.KeptAt k :=
    fun k hk hk' => (keptAt_construct h hk hk').mpr hkept
  refine ⟨?_, hat _ hlow hhigh⟩
  have hexpected : q.value.code ≠ .unexpectedClosingTag := by
    rcases Nesting.of_mem_news hq with hfault | ⟨-, ⟨-, hdrops⟩ | ⟨hcode, -⟩⟩
    · rcases c.code_of_mem_faults hfault with hcode | hcode <;> simp [hcode]
    · rw [hkept] at hdrops
      cases hdrops
    · simp [hcode]
  have houtside : q.value.code = .malformedClosingTag →
      ∀ region ∈ (Nesting.ofReading r).strays, region.contains q.span = false := by
    intro hcode region hregion
    rw [Nesting.strays_ofReading] at hregion
    obtain ⟨hpos, hnot⟩ := not_keptAt_of_mem_strays (List.append_nil _).symm hregion
    by_contra hcontains
    obtain ⟨hstart, hend⟩ : region.start.offset ≤ q.span.start.offset ∧
        q.span.stop.offset ≤ region.stop.offset := by simpa [Span.contains] using hcontains
    -- The character before the problem is kept as well, so the region could start only at the
    -- problem.
    rcases Nat.lt_or_eq_of_le hstart with hstart | hstart
    · have := hinside hcode
      exact hnot (q.span.start.offset - 1) (by omega) (by omega) (hat _ (by omega) (by omega))
    · exact hnot q.span.start.offset (by omega) (by omega) (hat _ hlow hhigh)
  by_cases hcode : q.value.code = .malformedClosingTag
  · have hnone : (Nesting.ofReading r).strays.any (·.contains q.span) = false := by
      simpa using houtside hcode
    simp [keeps, reportsDropped, hcode, hnone]
  · simp [keeps, reportsDropped, hcode, hexpected]

/-- The tree of the constructs that are kept is the tree of all of them at new places, with the
problems that stay. These and the open elements start at characters that are kept. -/
structure KeptAlong (r : Reading) (cs : List Construct) : Prop where
  tree : Nesting.ofConstructs (keptOf (marked cs)) = (Edit.dropping r.segments).nesting
    ((Nesting.ofConstructs cs).withProblems
      ((Nesting.ofConstructs cs).problems.toList.filter r.keeps))
  frames : ∀ f ∈ (Nesting.ofConstructs cs).stack, r.segments.KeptAt f.openSpan.start.offset
  starts : ∀ q ∈ (Nesting.ofConstructs cs).problems.toList, r.keeps q = true →
    r.segments.KeptAt q.span.start.offset

theorem keptAlong_dropped (h : r.constructs = cs ++ c :: ds) (hcs : r.KeptAlong cs)
    (hdrops : (Nesting.ofConstructs cs).drops c = true) : r.KeptAlong (cs ++ [c]) := by
  have hstep := Nesting.step_of_drops hdrops
    (.covering (Position.start.advance (cs.flatMap Construct.source)) c.source)
  have hgone : ((Nesting.ofConstructs cs).news c
      (.covering (Position.start.advance (cs.flatMap Construct.source)) c.source)).filter r.keeps =
        [] := by
    refine List.filter_eq_nil_iff.mpr ?_
    intro q hq
    simp [keeps_of_dropped h hdrops hq]
  have hmarked : keptOf (marked (cs ++ [c])) = keptOf (marked cs) := by
    simp [marked_concat, keptOf, hdrops]
  rw [← Nesting.ofConstructs_concat] at hstep
  refine ⟨?_, ?_, ?_⟩
  · rw [hmarked, hcs.tree, hstep, Nesting.report_withProblems]
    simp [Nesting.report, hgone]
  · rw [hstep]
    exact hcs.frames
  · intro q hq hkeeps
    rw [hstep] at hq
    simp only [Nesting.report, Array.toList_appendList] at hq
    rcases List.mem_append.mp hq with hq | hq
    · exact hcs.starts q hq hkeeps
    · rw [keeps_of_dropped h hdrops hq] at hkeeps
      cases hkeeps

theorem keptAlong_kept (h : r.constructs = cs ++ c :: ds) (hcs : r.KeptAlong cs)
    (hne : c.source ≠ []) (hkept : (Nesting.ofConstructs cs).drops c = false) :
    r.KeptAlong (cs ++ [c]) := by
  have hall : ((Nesting.ofConstructs cs).news c
      (.covering (Position.start.advance (cs.flatMap Construct.source)) c.source)).filter r.keeps =
      (Nesting.ofConstructs cs).news c
        (.covering (Position.start.advance (cs.flatMap Construct.source)) c.source) := by
    refine List.filter_eq_self.mpr ?_
    intro q hq
    exact (keeps_of_kept h hne hkept hq).1
  have hmarked : keptOf (marked (cs ++ [c])) = keptOf (marked cs) ++ [c] := by
    simp [marked_concat, keptOf, hkept]
  obtain ⟨right, hright⟩ := segments_eq h
  rw [hkept, Bool.not_false] at hright
  have hmove : (Edit.dropping r.segments).move
      (Position.start.advance (cs.flatMap Construct.source)) =
      Position.start.advance ((keptOf (marked cs)).flatMap Construct.source) := by
    rw [hright, ← text_marked, Edit.dropping_move, kept_segmentsOf]
  have hrigid : (Edit.dropping r.segments).Rigid
      (Position.start.advance (cs.flatMap Construct.source)) c.source := by
    rw [hright, ← text_marked]
    exact Edit.rigid_dropping
  refine ⟨?_, ?_, ?_⟩
  · rw [hmarked, Nesting.ofConstructs_concat, Nesting.ofConstructs_concat, Nesting.problems_step,
      List.filter_append, hall, ← Nesting.withProblems_step, Edit.nesting_step _ hrigid rfl, hmove,
      hcs.tree]
  · intro f hf
    rw [Nesting.ofConstructs_concat] at hf
    rcases Nesting.openSpan_step hf with ⟨hspan, -⟩ | ⟨g, hg, hspan⟩
    · have hpos := List.length_pos_iff.mpr hne
      rw [hspan]
      refine (keptAt_construct h ?_ ?_).mpr hkept
      · simp [Span.covering, Position.start]
      · simpa [Span.covering, Position.start] using hpos
    · rw [← hspan]
      exact hcs.frames g hg
  · intro q hq hkeeps
    rw [Nesting.ofConstructs_concat, Nesting.problems_step] at hq
    rcases List.mem_append.mp hq with hq | hq
    · exact hcs.starts q hq hkeeps
    · exact (keeps_of_kept h hne hkept hq).2

theorem keptAlong (hne : ∀ c ∈ r.constructs, c.source ≠ []) (h : r.constructs = cs ++ ds) :
    r.KeptAlong cs := by
  induction cs using List.reverseRecOn generalizing ds with
  | nil =>
    refine ⟨?_, ?_, ?_⟩
    · simp [Nesting.ofConstructs, marked, Nesting.marked, keptOf, locate, Edit.nesting,
        Nesting.withProblems]
    · intro f hf
      cases hf
    · intro q hq
      cases hq
  | append_singleton cs c ih =>
    rw [List.append_assoc, List.singleton_append] at h
    cases hdrops : (Nesting.ofConstructs cs).drops c with
    | true => exact keptAlong_dropped h (ih h) hdrops
    | false => exact keptAlong_kept h (ih h) (hne c (by simp [h])) hdrops

/-- The ending is kept, and what is reported at the end of a template stays. -/
theorem keeps_of_ending {q : Located Problem}
    (hq : q ∈ Nesting.endingProblems r.endingStart r.ending) :
    r.keeps q = true := by
  obtain ⟨hlow, hle, hinside⟩ := Nesting.within_of_mem_endingProblems hq
  have hexpected : q.value.code ≠ .unexpectedClosingTag := by
    intro hcode
    have hnone := @Nesting.ofCode_endingProblems .unexpectedClosingTag rfl r.endingStart r.ending
    have hmem : q ∈ Problem.ofCode .unexpectedClosingTag
        (Nesting.endingProblems r.endingStart r.ending) :=
      List.mem_filter.mpr ⟨hq, by simpa using hcode⟩
    rw [hnone] at hmem
    cases hmem
  by_cases hcode : q.value.code = .malformedClosingTag
  · have hnone : (Nesting.ofReading r).strays.any (·.contains q.span) = false := by
      refine List.any_eq_false.mpr ?_
      intro region hregion hcontains
      rw [Nesting.strays_ofReading] at hregion
      have hstop := (Nesting.laid_ofConstructs r.constructs).stop_le_of_mem region hregion
      have := hinside hcode
      simp only [Span.contains, Bool.and_eq_true, decide_eq_true_eq] at hcontains
      omega
    simp [keeps, reportsDropped, hcode, hnone]
  · simp [keeps, reportsDropped, hcode, hexpected]

theorem keeps_of_open {frames : List Frame} {q : Located Problem}
    (hq : q ∈ Nesting.openProblems frames) :
    r.keeps q = true := by
  have hcode := Nesting.code_of_mem_openProblems hq
  simp [keeps, reportsDropped, hcode]

/-- The tree without the dropped close tags is the tree with them at new places. -/
theorem ofReading_kept (hne : ∀ c ∈ r.constructs, c.source ≠ []) (ht : r.ending.Tidy) :
    Nesting.ofReading r.kept = (Edit.dropping r.segments).nesting
      ((Nesting.ofReading r).withProblems
        ((Nesting.ofReading r).problems.toList.filter r.keeps)) := by
  have hall := keptAlong hne (List.append_nil r.constructs).symm
  have hsegments : r.segments = segmentsOf (marked r.constructs) ++ [(r.ending.source, true)] := rfl
  have hmove : (Edit.dropping r.segments).move r.endingStart = r.kept.endingStart := by
    rw [hsegments, endingStart, ← text_marked, Edit.dropping_move, kept_segmentsOf]
    rfl
  have hrigid : (Edit.dropping r.segments).Rigid r.endingStart r.ending.source := by
    rw [hsegments, endingStart, ← text_marked]
    exact Edit.rigid_dropping
  have hend : (Nesting.endingProblems r.endingStart r.ending ++
      Nesting.openProblems (Nesting.ofConstructs r.constructs).stack).filter r.keeps =
      Nesting.endingProblems r.endingStart r.ending ++
        Nesting.openProblems (Nesting.ofConstructs r.constructs).stack := by
    refine List.filter_eq_self.mpr ?_
    intro q hq
    rcases List.mem_append.mp hq with hq | hq
    · exact keeps_of_ending hq
    · exact keeps_of_open hq
  rw [Nesting.problems_ofReading, List.filter_append, hend, Nesting.ofReading_eq,
    Nesting.ofReading_eq, ← Nesting.withProblems_finish, Edit.nesting_finish _ hrigid ht, hmove,
    ← hall.tree]
  rfl

/-- Every problem that stays starts at a character that is kept or at the end of the template. -/
theorem starts_of_keeps (hne : ∀ c ∈ r.constructs, c.source ≠ []) {q : Located Problem}
    (hq : q ∈ (Nesting.ofReading r).problems.toList) (hkeeps : r.keeps q = true)
    (hlt : q.span.start.offset < r.source.length) : r.segments.KeptAt q.span.start.offset := by
  have hall := keptAlong hne (List.append_nil r.constructs).symm
  rw [Nesting.problems_ofReading] at hq
  rcases List.mem_append.mp hq with hq | hq
  · exact hall.starts q hq hkeeps
  · rcases List.mem_append.mp hq with hq | hq
    · obtain ⟨hlow, -⟩ := Nesting.within_of_mem_endingProblems hq
      rw [source, List.length_append, ← text_marked] at hlt
      rw [← text_marked] at hlow
      exact (Segments.keptAt_segment hlow hlt).mpr rfl
    · obtain ⟨f, hf, rfl⟩ := List.mem_map.mp hq
      exact hall.frames f (List.mem_of_mem_filter hf)

end Reading

end StoreMarkup
