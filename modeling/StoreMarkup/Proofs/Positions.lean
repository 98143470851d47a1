import Mathlib.Data.List.Induction
import StoreMarkup.Source.Cursor

/-! Points of a source: line and column are a function of the offset, which orders them in the same
way. -/
namespace StoreMarkup

/-- The index of the last line feed of a text, or the one before its start if there is none. -/
def lastLineFeed (t : Text) : Int :=
  match t.reverse.idxOf? '\n' with
  | some n => t.length - 1 - n
  | none => -1

theorem lastLineFeed_concat (t : Text) (c : Char) :
    lastLineFeed (t ++ [c]) = if c = '\n' then (t.length : Int) else lastLineFeed t := by
  by_cases h : c = '\n'
  · simp [lastLineFeed, List.idxOf?_cons, h]
  · cases hn : t.reverse.idxOf? '\n' with
    | none => simp [lastLineFeed, List.idxOf?_cons, h, hn]
    | some n =>
      simp only [lastLineFeed, List.reverse_append, List.reverse_singleton, List.singleton_append,
        List.idxOf?_cons, beq_iff_eq, h, if_false, hn, Option.map_some, List.length_append,
        List.length_singleton]
      omega

namespace Position

/-- A point of a text whose line and column are those of its offset. -/
structure Exact (s : Text) (p : Position) : Prop where
  offset_le : p.offset ≤ s.length
  line_eq : p.line = 1 + (s.take p.offset).count '\n'
  column_eq : (p.column : Int) = p.offset - lastLineFeed (s.take p.offset)

theorem line_advance (p : Position) (t : Text) : (p.advance t).line = p.line + t.count '\n' := by
  induction t generalizing p with
  | nil => rfl
  | cons c t ih =>
    have hnext := ih (p.next c)
    simp only [advance, List.foldl_cons] at hnext ⊢
    rw [hnext]
    by_cases h : c = '\n'
    · simp only [next, h, if_true, List.count_cons_self]
      omega
    · simp [next, h]

/-- Without a line feed the column goes on. -/
theorem column_advance (p : Position) {t : Text} (h : '\n' ∉ t) :
    (p.advance t).column = p.column + t.length := by
  induction t generalizing p with
  | nil => rfl
  | cons c t ih =>
    obtain ⟨hc, ht⟩ : '\n' ≠ c ∧ '\n' ∉ t := by simpa using h
    have hnext := ih (p.next c) ht
    simp only [advance, List.foldl_cons] at hnext ⊢
    rw [hnext]
    simp only [next, Ne.symm hc, if_false, List.length_cons]
    omega

theorem column_advance_start (t : Text) :
    ((start.advance t).column : Int) = t.length - lastLineFeed t := by
  induction t using List.reverseRecOn with
  | nil => rfl
  | append_singleton t c ih =>
    have hlast : start.advance (t ++ [c]) = (start.advance t).next c := by simp [advance]
    rw [hlast, lastLineFeed_concat]
    by_cases h : c = '\n'
    · simp only [next, h, if_true, List.length_append, List.length_singleton]
      omega
    · simp only [next, h, if_false, List.length_append, List.length_singleton]
      omega

variable {s t : Text} {p q : Position}

/-- A text leads from the start of a longer one to an exact point. -/
theorem exact_advance (h : t <+: s) : (start.advance t).Exact s := by
  have htake : s.take (start.advance t).offset = t := by
    have hoffset : (start.advance t).offset = t.length := by simp [start]
    rw [hoffset]
    exact (List.prefix_iff_eq_take.mp h).symm
  refine ⟨?_, ?_, ?_⟩
  · simpa [start] using h.length_le
  · rw [htake, line_advance]
    rfl
  · rw [htake, column_advance_start]
    simp [start]

theorem eq_of_eq (hoffset : p.offset = q.offset) (hline : p.line = q.line)
    (hcolumn : p.column = q.column) : p = q := by
  cases p
  cases q
  simp_all

/-- An exact point is determined by its offset. -/
theorem Exact.eq_advance (h : p.Exact s) : p = start.advance (s.take p.offset) := by
  have hexact := exact_advance (List.take_prefix p.offset s)
  have hoffset : (start.advance (s.take p.offset)).offset = p.offset := by
    simp [start, Nat.min_eq_left h.offset_le]
  have hline : (start.advance (s.take p.offset)).line = p.line := by
    rw [hexact.line_eq, hoffset, h.line_eq]
  have hcolumn : ((start.advance (s.take p.offset)).column : Int) = p.column := by
    rw [hexact.column_eq, hoffset, h.column_eq]
  exact eq_of_eq hoffset.symm hline.symm (Int.ofNat.inj hcolumn.symm)

theorem Exact.mono (h : p.Exact t) (hts : t <+: s) : p.Exact s := by
  rw [h.eq_advance]
  exact exact_advance ((List.take_prefix _ t).trans hts)

/-- A later point has a later line, or a later column in the same one. -/
theorem Exact.lex_of_lt (hp : p.Exact s) (hq : q.Exact s) (h : p.offset < q.offset) :
    p.line < q.line ∨ p.line = q.line ∧ p.column < q.column := by
  obtain ⟨u, hu⟩ : s.take p.offset <+: s.take q.offset := List.take_prefix_take_left (by omega)
  have hq' : q = p.advance u := by
    rw [hq.eq_advance, ← hu, advance_append, ← hp.eq_advance]
  have hoffset : q.offset = p.offset + u.length := by rw [hq', offset_advance]
  have hline : q.line = p.line + u.count '\n' := by rw [hq', line_advance]
  by_cases hu : '\n' ∈ u
  · have hcount := List.count_pos_iff.mpr hu
    exact Or.inl (by omega)
  · have hcount := List.count_eq_zero.mpr hu
    have hcolumn : q.column = p.column + u.length := by rw [hq', column_advance p hu]
    exact Or.inr (by omega)

/-- Points are ordered by line and column as by their offset. -/
theorem Exact.lt_iff (hp : p.Exact s) (hq : q.Exact s) :
    p.offset < q.offset ↔ p.line < q.line ∨ p.line = q.line ∧ p.column < q.column := by
  refine ⟨hp.lex_of_lt hq, ?_⟩
  intro h
  rcases Nat.lt_trichotomy p.offset q.offset with hlt | heq | hgt
  · exact hlt
  · have hsame : p = q := by rw [hp.eq_advance, hq.eq_advance, heq]
    subst hsame
    omega
  · have hlex := hq.lex_of_lt hp hgt
    omega

end Position

namespace Cursor

variable {c : Cursor}

theorem exact_advanceBy (h : c.position.Exact c.text) (n : Int) :
    (c.advanceBy n).2.position.Exact c.text := by
  have hread : c.text.take c.position.offset ++ c.rest.take n.toNat <+: c.text := by
    refine ⟨c.rest.drop n.toNat, ?_⟩
    rw [List.append_assoc, List.take_append_drop, rest, List.take_append_drop]
  have hexact := Position.exact_advance hread
  rwa [Position.advance_append, ← h.eq_advance] at hexact

/-- A call leaves the text as it is and the cursor at an exact point of it. -/
theorem exact_call (h : c.position.Exact c.text) (call : Call) :
    (c.call call).2.text = c.text ∧ (c.call call).2.position.Exact c.text := by
  cases call with
  | peek n =>
    unfold Cursor.call
    dsimp only
    split <;> exact ⟨rfl, h⟩
  | advance => exact ⟨rfl, exact_advanceBy h 1⟩
  | advanceBy n => exact ⟨rfl, exact_advanceBy h n⟩
  | startsWith text ignoreCase => exact ⟨rfl, h⟩
  | slice start stop => exact ⟨rfl, h⟩

theorem exact_run (h : c.position.Exact c.text) (calls : List Call) :
    (c.run calls).position.Exact c.text := by
  induction calls generalizing c with
  | nil => exact h
  | cons call calls ih =>
    obtain ⟨htext, hposition⟩ := exact_call h call
    rw [← htext] at hposition ⊢
    exact ih hposition

end Cursor

end StoreMarkup
