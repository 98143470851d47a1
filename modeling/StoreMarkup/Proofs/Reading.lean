import Mathlib.Data.List.Induction
import StoreMarkup.Tree.Nesting

/-! Reading loses nothing, and what every construct keeps holds after every reading. -/
namespace StoreMarkup

namespace Reading

variable {d : Dialect} {raw : Option RawText} {s : Text}

/-- An unfinished construct is kept from its first character on. -/
theorem source_of_step_ending {e : Ending} (h : step d raw s = .ending e) : e.source = s := by
  cases reads_of_step h <;> rfl

theorem source_inRawText (d : Dialect) (raw : Option RawText) (s : Text) :
    (inRawText d raw s).source = s := by
  fun_induction inRawText d raw s with
  | case1 raw s e h => simpa [source] using source_of_step_ending h
  | case2 raw s c rest h after ih =>
    rw [(step_construct h).1]
    simpa [source, after] using ih

/-- The constructs and the ending of a template make up the template. -/
theorem source_ofText (d : Dialect) (s : Text) : (ofText d s).source = s :=
  source_inRawText d none s

/-- The first construct of a reading is read first, and the others in what is left. -/
theorem step_of_inRawText {c : Construct} {cs : List Construct} {e : Ending}
    (h : inRawText d raw s = ⟨c :: cs, e⟩) : ∃ rest, step d raw s = .construct c rest ∧
      inRawText d (RawText.after d raw c) rest = ⟨cs, e⟩ := by
  rw [inRawText] at h
  split at h
  · cases h
  · rename_i b rest hstep
    cases h
    exact ⟨rest, hstep, rfl⟩

theorem step_of_inRawText_nil {e : Ending} (h : inRawText d raw s = ⟨[], e⟩) :
    step d raw s = .ending e := by
  rw [inRawText] at h
  split at h
  · rename_i hstep
    cases h
    exact hstep
  · cases h

/-- A template is its first constructs and what the others are read in. -/
theorem source_split {cs ds : List Construct} {rest : Text} (h : (ofText d s).constructs = cs ++ ds)
    (hrest : inRawText d raw rest = ⟨ds, (ofText d s).ending⟩) :
    s = cs.flatMap Construct.source ++ rest := by
  have hafter := source_inRawText d raw rest
  rw [hrest] at hafter
  calc
    s = (ofText d s).source := (source_ofText d s).symm
    _ = cs.flatMap Construct.source ++
      (ds.flatMap Construct.source ++ (ofText d s).ending.source) := by
      rw [source, h, List.flatMap_append, List.append_assoc]
    _ = cs.flatMap Construct.source ++ rest := congrArg _ hafter

theorem endingStart_advance (r : Reading) :
    r.endingStart.advance r.ending.source = Position.start.advance r.source := by
  simp [endingStart, source]

end Reading

theorem locate_append {α : Type} (source : α → Text) (p : Position) (as bs : List α) :
    locate source p (as ++ bs) =
      locate source p as ++ locate source (p.advance (as.flatMap source)) bs := by
  induction as generalizing p with
  | nil => simp [locate]
  | cons a as ih => simp [locate, ih, Span.covering]

/-- A text between two others is cut out again by its place. -/
theorem slice_advance (before t after : Text) :
    Text.slice (Position.start.advance before).offset
      ((Position.start.advance before).advance t).offset (before ++ t ++ after) = t := by
  simp [Text.slice, Position.start]

theorem map_value_locate {α : Type} (source : α → Text) (p : Position) (as : List α) :
    (locate source p as).map Located.value = as := by
  induction as generalizing p with
  | nil => rfl
  | cons a as ih => simp [locate, ih]

theorem exists_of_mem_locate {α : Type} {source : α → Text} {p : Position} {as : List α}
    {x : Located α} (h : x ∈ locate source p as) :
    ∃ left right, as = left ++ x.value :: right ∧
      x.span = .covering (p.advance (left.flatMap source)) (source x.value) := by
  induction as generalizing p with
  | nil => cases h
  | cons a as ih =>
    rcases List.mem_cons.mp h with rfl | h
    · exact ⟨[], as, rfl, rfl⟩
    · obtain ⟨left, right, rfl, hspan⟩ := ih h
      exact ⟨a :: left, right, rfl, by simpa [Span.covering] using hspan⟩

theorem value_mem_of_mem_locate {α : Type} {source : α → Text} {p : Position} {as : List α}
    {x : Located α} (h : x ∈ locate source p as) : x.value ∈ as := by
  obtain ⟨left, right, rfl, -⟩ := exists_of_mem_locate h
  simp

theorem offset_le_of_mem_locate {α : Type} {source : α → Text} {p : Position} {as : List α}
    {x : Located α} (h : x ∈ locate source p as) :
    p.offset ≤ x.span.start.offset ∧
      x.span.start.offset + (source x.value).length ≤ p.offset + (as.flatMap source).length := by
  obtain ⟨left, right, rfl, hspan⟩ := exists_of_mem_locate h
  simp only [hspan, Span.covering, Position.offset_advance, List.flatMap_append, List.flatMap_cons,
    List.length_append]
  omega

namespace Nesting

/-- The tree under construction after some constructs, read from the start of a template. -/
def ofConstructs (cs : List Construct) : Nesting :=
  (locate Construct.source .start cs).foldl step {}

theorem ofConstructs_concat (cs : List Construct) (c : Construct) :
    ofConstructs (cs ++ [c]) = (ofConstructs cs).step
      ⟨c, .covering (Position.start.advance (cs.flatMap Construct.source)) c.source⟩ := by
  simp [ofConstructs, locate_append, locate]

/-- What holds at the start of a template and is kept by each construct holds after any number of
them. -/
theorem ofConstructs_induction {P : List Construct → Nesting → Prop} (start : P [] {})
    (step : ∀ cs n c, P cs n → P (cs ++ [c])
      (n.step ⟨c, .covering (Position.start.advance (cs.flatMap Construct.source)) c.source⟩))
    (cs : List Construct) : P cs (ofConstructs cs) := by
  -- The induction adds constructs at the end, where the state is.
  induction cs using List.reverseRecOn with
  | nil => exact start
  | append_singleton cs c ih =>
    rw [ofConstructs_concat]
    exact step cs _ c ih

theorem ofReading_eq (r : Reading) :
    ofReading r = (ofConstructs r.constructs).finish r.endingStart r.ending := rfl

end Nesting

end StoreMarkup
