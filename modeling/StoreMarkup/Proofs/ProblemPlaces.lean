import StoreMarkup.Proofs.Reports

/-! Where problems are reported: inside a tag, at a tag as a whole, or at the ending. Nothing else
has any. -/
namespace StoreMarkup

/-- What a problem of a reading is about. -/
inductive Reading.Reports (r : Reading) (q : Located Problem) : Prop
  | inside {cs ds : List Construct} {c : Construct} (split : r.constructs = cs ++ c :: ds)
      (fault : q ∈ c.faults (Position.start.advance (cs.flatMap Construct.source)))
  | whole {cs ds : List Construct} {c : Construct} (split : r.constructs = cs ++ c :: ds)
      (tag : c.event? ≠ none)
      (place : q.span = .covering (Position.start.advance (cs.flatMap Construct.source)) c.source)
      (code : q.value.code.isStructural = true)
  | ending (problem : q ∈ Nesting.endingProblems r.endingStart r.ending)

namespace Nesting

/-- The place of an open element is that of its open tag. -/
theorem exists_of_mem_stack {cs : List Construct} {f : Frame} (h : f ∈ (ofConstructs cs).stack) :
    ∃ before c after, cs = before ++ c :: after ∧ c.event? ≠ none ∧
      f.openSpan = .covering (Position.start.advance (before.flatMap Construct.source))
        c.source := by
  induction cs using List.reverseRecOn generalizing f with
  | nil => cases h
  | append_singleton cs c ih =>
    rw [ofConstructs_concat] at h
    rcases openSpan_step h with ⟨hspan, hevent⟩ | ⟨g, hg, hspan⟩
    · exact ⟨cs, c, [], rfl, hevent, hspan⟩
    · obtain ⟨before, b, after, rfl, hevent, hplace⟩ := ih hg
      exact ⟨before, b, after ++ [c], by simp, hevent, hspan ▸ hplace⟩

theorem reports_of_mem_ofConstructs {r : Reading} {cs ds : List Construct}
    (h : r.constructs = cs ++ ds) {q : Located Problem}
    (hq : q ∈ (ofConstructs cs).problems.toList) : r.Reports q := by
  induction cs using List.reverseRecOn generalizing ds with
  | nil => cases hq
  | append_singleton cs c ih =>
    rw [List.append_assoc, List.singleton_append] at h
    rw [ofConstructs_concat, problems_step] at hq
    rcases List.mem_append.mp hq with hq | hq
    · exact ih h hq
    · rcases List.mem_append.mp hq with hq | hq
      · exact .inside h hq
      · split at hq
        · rename_i tag hevent
          obtain ⟨hspan, ⟨hcode, -⟩ | ⟨hcode, -⟩⟩ := of_mem_verdict hq <;>
            exact .whole h (by simp [hevent]) hspan (by rw [hcode]; rfl)
        · cases hq

end Nesting

/-- Every problem is about something inside a tag, a tag as a whole, or the ending. -/
theorem Reading.reports_of_mem {r : Reading} {q : Located Problem}
    (h : q ∈ (Nesting.ofReading r).problems.toList) : r.Reports q := by
  rw [Nesting.problems_ofReading] at h
  rcases List.mem_append.mp h with h | h
  · exact Nesting.reports_of_mem_ofConstructs (List.append_nil _).symm h
  · rcases List.mem_append.mp h with h | h
    · exact .ending h
    · obtain ⟨f, hf, rfl⟩ := List.mem_map.mp h
      obtain ⟨before, c, after, hsplit, hevent, hplace⟩ :=
        Nesting.exists_of_mem_stack (List.mem_of_mem_filter hf)
      exact .whole hsplit hevent hplace rfl

section Splits

variable {r : Reading} {cs cs' ds ds' : List Construct} {c c' : Construct}

/-- Two constructs of a template are the same, or one ends before the other starts. -/
theorem split_cases (h : r.constructs = cs ++ c :: ds) (h' : r.constructs = cs' ++ c' :: ds') :
    (cs = cs' ∧ c = c') ∨
    (cs.flatMap Construct.source).length + c.source.length ≤ (cs'.flatMap Construct.source).length ∨
    (cs'.flatMap Construct.source).length + c'.source.length ≤
      (cs.flatMap Construct.source).length := by
  rcases List.append_eq_append_iff.mp (h.symm.trans h') with
    ⟨between, rfl, hrest⟩ | ⟨between, rfl, hrest⟩
  · cases between with
    | nil => exact Or.inl ⟨(List.append_nil cs).symm, (List.cons.inj hrest).1⟩
    | cons b bs =>
      obtain ⟨rfl, -⟩ := List.cons.inj hrest
      refine Or.inr (Or.inl ?_)
      simp only [List.flatMap_append, List.flatMap_cons, List.length_append]
      omega
  · cases between with
    | nil => exact Or.inl ⟨List.append_nil cs', (List.cons.inj hrest).1.symm⟩
    | cons b bs =>
      obtain ⟨rfl, -⟩ := List.cons.inj hrest
      refine Or.inr (Or.inr ?_)
      simp only [List.flatMap_append, List.flatMap_cons, List.length_append]
      omega

theorem Reading.le_offset_endingStart (h : r.constructs = cs ++ c :: ds) :
    (cs.flatMap Construct.source).length + c.source.length ≤ r.endingStart.offset := by
  rw [endingStart, h]
  simp only [Position.offset_advance, Position.start, List.flatMap_append, List.flatMap_cons,
    List.length_append]
  omega

end Splits

section Offsets

variable {r : Reading} {c : Construct} {q q' : Located Problem} {p p' : Position}

/-- The kind of a tag tells what can be wrong inside it. -/
theorem Construct.code_eq_of_mem_faults (h : q ∈ c.faults p) (h' : q' ∈ c.faults p') :
    q.value.code = q'.value.code := by
  cases c with
  | openTag => exact (code_of_mem_tagProblems h).trans (code_of_mem_tagProblems h').symm
  | closeTag => exact (code_of_mem_closeTagProblems h).trans (code_of_mem_closeTagProblems h').symm
  | _ => cases h

/-- What is wrong with an ending that has a warning is this, or that the ending does not end. -/
theorem Nesting.start_of_mem_endingProblems {e : Ending} (h : q ∈ endingProblems p e)
    (h' : q' ∈ endingProblems p e) (hwarning : q.value.code = .malformedClosingTag)
    (herror : q'.value.code ≠ .malformedClosingTag) : q'.span.start = p := by
  cases e with
  | clean => cases h
  | openTag name parts text =>
    rcases List.mem_append.mp h with h | h
    · cases (code_of_mem_tagProblems h).symm.trans hwarning
    · rw [List.mem_singleton.mp h] at hwarning
      cases hwarning
  | closeTag name strays text =>
    rcases List.mem_append.mp h' with h' | h'
    · exact (herror (code_of_mem_closeTagProblems h')).elim
    · rw [List.mem_singleton.mp h']
      rfl
  | expression text =>
    rw [List.mem_singleton.mp h']
    rfl
  | comment opening text =>
    rw [List.mem_singleton.mp h']
    rfl

namespace Reading

/-- What is reported on the ending starts there. -/
theorem le_of_mem_endingProblems (h : q ∈ Nesting.endingProblems r.endingStart r.ending) :
    r.endingStart.offset ≤ q.span.start.offset ∧
      (q.value.code = .malformedClosingTag → r.endingStart.offset < q.span.start.offset) := by
  obtain ⟨hle, -, hlt⟩ := Nesting.within_of_mem_endingProblems h
  have hstart : r.endingStart.offset = (r.constructs.flatMap Construct.source).length := by
    simp [endingStart, Position.start]
  rw [hstart]
  exact ⟨hle, hlt⟩

/-- A warning never starts where an error starts: it is inside a close tag, and errors are at the
start of something or inside an open tag. -/
theorem Reports.offset_ne (h : r.Reports q) (h' : r.Reports q')
    (hwarning : q.value.code = .malformedClosingTag)
    (herror : q'.value.code ≠ .malformedClosingTag) :
    q.span.start.offset ≠ q'.span.start.offset := by
  intro heq
  cases h with
  | inside split fault =>
    have hwithin := Construct.within_of_mem_faults fault
    have hend := le_offset_endingStart split
    cases h' with
    | inside split' fault' =>
      have hwithin' := Construct.within_of_mem_faults fault'
      rcases split_cases split split' with ⟨-, rfl⟩ | hle | hle
      · exact herror ((Construct.code_eq_of_mem_faults fault' fault).trans hwarning)
      · omega
      · omega
    | whole split' _ place' _ =>
      rw [place'] at heq
      simp only [Span.covering, Position.offset_advance, Position.start] at heq
      rcases split_cases split split' with ⟨rfl, -⟩ | hle | hle <;> omega
    | ending problem' =>
      have hle := (le_of_mem_endingProblems problem').1
      omega
  | whole _ _ _ code =>
    rw [hwarning] at code
    cases code
  | ending problem =>
    have hlt := (le_of_mem_endingProblems problem).2 hwarning
    cases h' with
    | inside split' fault' =>
      have hwithin' := Construct.within_of_mem_faults fault'
      have hend := le_offset_endingStart split'
      omega
    | whole split' _ place' _ =>
      have hend := le_offset_endingStart split'
      rw [place'] at heq
      simp only [Span.covering, Position.offset_advance, Position.start] at heq
      omega
    | ending problem' =>
      rw [Nesting.start_of_mem_endingProblems problem problem' hwarning herror] at heq
      omega

/-- No problem is about a construct that is no tag. -/
theorem Reports.outside (h : r.Reports q) {cs ds : List Construct}
    (hsplit : r.constructs = cs ++ c :: ds) (hevent : c.event? = none)
    (hfaults : ∀ p, c.faults p = []) :
    q.span.stop.offset ≤ (cs.flatMap Construct.source).length ∨
      (cs.flatMap Construct.source).length + c.source.length ≤ q.span.start.offset := by
  cases h with
  | inside split fault =>
    have hwithin := Construct.within_of_mem_faults fault
    rcases split_cases hsplit split with ⟨-, rfl⟩ | hle | hle
    · rw [hfaults] at fault
      cases fault
    · omega
    · omega
  | whole split tag place _ =>
    rw [place]
    simp only [Span.covering, Position.offset_advance, Position.start]
    rcases split_cases hsplit split with ⟨-, rfl⟩ | hle | hle
    · exact (tag hevent).elim
    · omega
    · omega
  | ending problem =>
    have hle := (le_of_mem_endingProblems problem).1
    have hend := le_offset_endingStart hsplit
    omega

/-- Problems of complete constructs end before the ending starts. -/
theorem Reports.before_or_ending (h : r.Reports q) :
    q.span.stop.offset ≤ r.endingStart.offset ∨
      q ∈ Nesting.endingProblems r.endingStart r.ending := by
  cases h with
  | inside split fault =>
    have hwithin := Construct.within_of_mem_faults fault
    have hend := le_offset_endingStart split
    omega
  | whole split _ place _ =>
    have hend := le_offset_endingStart split
    left
    rw [place]
    simp only [Span.covering, Position.offset_advance, Position.start]
    omega
  | ending problem => exact Or.inr problem

end Reading

end Offsets

end StoreMarkup
