import Mathlib.Data.List.Sort
import StoreMarkup.Document
import StoreMarkup.Proofs.Nesting

/-! The diagnostics of a document are the problems of its nesting, and their order is all that
changes. -/
namespace StoreMarkup

namespace Diagnostic

/-- Whether a diagnostic does not start behind another. -/
def NotAfter (a b : Diagnostic) : Prop := a.span.start.offset ≤ b.span.start.offset

instance : DecidableRel NotAfter := fun a _ => inferInstanceAs (Decidable (a.span.start.offset ≤ _))

variable {a : Diagnostic} {ds es : List Diagnostic}

theorem mem_inSourceOrder : a ∈ inSourceOrder ds ↔ a ∈ ds := (List.mergeSort_perm ds _).mem_iff

theorem pairwise_inSourceOrder (ds : List Diagnostic) : (inSourceOrder ds).Pairwise NotAfter := by
  have h := @List.pairwise_mergeSort Diagnostic
    (fun a b => a.span.start.offset ≤ b.span.start.offset) (by simp; omega) (by simp; omega) ds
  simp only [decide_eq_true_eq] at h
  exact h

theorem inSourceOrder_of_pairwise (h : ds.Pairwise NotAfter) : inSourceOrder ds = ds :=
  List.mergeSort_of_pairwise (h.imp fun hab => decide_eq_true hab)

theorem orderedInsert_of_forall (h : ∀ b ∈ ds, NotAfter a b) :
    ds.orderedInsert NotAfter a = a :: ds := by
  cases ds with
  | nil => rfl
  | cons b ds => exact List.orderedInsert_cons_of_le NotAfter ds (h b List.mem_cons_self)

/-- Sorting is stable: the first diagnostic goes before all that start where it starts. -/
theorem inSourceOrder_cons (a : Diagnostic) (ds : List Diagnostic) :
    inSourceOrder (a :: ds) = (inSourceOrder ds).orderedInsert NotAfter a := by
  have hsorted := pairwise_inSourceOrder (a :: ds)
  obtain ⟨before, after, hcons, hds, hbefore⟩ := @List.mergeSort_cons Diagnostic
    (fun a b => a.span.start.offset ≤ b.span.start.offset) (by simp; omega) (by simp; omega) a ds
  rw [inSourceOrder, hcons] at hsorted ⊢
  rw [inSourceOrder, hds]
  clear hcons hds
  induction before with
  | nil => exact (orderedInsert_of_forall (List.pairwise_cons.mp hsorted).1).symm
  | cons b before ih =>
    have hlt : ¬ NotAfter a b := by simpa [NotAfter] using hbefore b List.mem_cons_self
    rw [List.cons_append, List.cons_append, List.orderedInsert_of_not_le NotAfter _ hlt,
      ih hsorted.tail fun c hc => hbefore c (List.mem_cons_of_mem b hc)]

theorem inSourceOrder_append (h : ∀ a ∈ ds, ∀ b ∈ es, NotAfter a b) :
    inSourceOrder (ds ++ es) = inSourceOrder ds ++ inSourceOrder es := by
  have hinsert : ∀ a, (∀ b ∈ es, NotAfter a b) → ∀ xs : List Diagnostic,
      (xs ++ inSourceOrder es).orderedInsert NotAfter a =
        xs.orderedInsert NotAfter a ++ inSourceOrder es := by
    intro a ha xs
    induction xs with
    | nil => exact orderedInsert_of_forall fun b hb => ha b (mem_inSourceOrder.mp hb)
    | cons x xs ih =>
      rw [List.cons_append, List.orderedInsert_cons, List.orderedInsert_cons, ih]
      split <;> rfl
  induction ds with
  | nil => simp [inSourceOrder]
  | cons a ds ih =>
    rw [List.cons_append, inSourceOrder_cons, inSourceOrder_cons,
      ih fun b hb => h b (List.mem_cons_of_mem a hb), hinsert a (h a List.mem_cons_self)]

theorem filter_orderedInsert (keep : Diagnostic → Bool) (h : ds.Pairwise NotAfter) :
    (ds.orderedInsert NotAfter a).filter keep =
      if keep a then (ds.filter keep).orderedInsert NotAfter a else ds.filter keep := by
  induction ds with
  | nil => cases ha : keep a <;> simp [ha]
  | cons b ds ih =>
    by_cases hle : NotAfter a b
    · have hall : ∀ c ∈ (b :: ds).filter keep, NotAfter a c := by
        intro c hc
        rcases List.mem_cons.mp (List.mem_of_mem_filter hc) with rfl | hc
        · exact hle
        · exact Nat.le_trans hle ((List.pairwise_cons.mp h).1 c hc)
      rw [List.orderedInsert_cons_of_le NotAfter ds hle, orderedInsert_of_forall hall,
        List.filter_cons]
    · rw [List.orderedInsert_of_not_le NotAfter ds hle, List.filter_cons, List.filter_cons,
        ih h.tail]
      cases keep a <;> cases keep b <;> simp [hle]

/-- What is left out of the sorted diagnostics may as well be left out before. -/
theorem filter_inSourceOrder (keep : Diagnostic → Bool) (ds : List Diagnostic) :
    (inSourceOrder ds).filter keep = inSourceOrder (ds.filter keep) := by
  induction ds with
  | nil => simp [inSourceOrder]
  | cons a ds ih =>
    rw [inSourceOrder_cons, filter_orderedInsert keep (pairwise_inSourceOrder ds), ih,
      List.filter_cons]
    split
    · exact (inSourceOrder_cons a _).symm
    · rfl

end Diagnostic

namespace Document

/-- The diagnostics of a kind. -/
def ofCode (doc : Document) (code : Code) : List Diagnostic :=
  doc.diagnostics.filter fun x => x.code = code

/-- The regions of the diagnostics of a kind. -/
def regions (doc : Document) (code : Code) : List Span := (doc.ofCode code).map Diagnostic.span

variable (d : Dialect) (name : Option String) (s : Text)

theorem children_eq :
    (parse d name s).children = (Nesting.ofReading (.ofText d s)).roots.toList := rfl

theorem diagnostics_eq : (parse d name s).diagnostics = Diagnostic.inSourceOrder
    ((Nesting.ofReading (.ofText d s)).problems.toList.map
      (Problem.diagnostic { sourceName := name })) := rfl

theorem diagnostics_perm :
    (parse d name s).diagnostics.Perm ((Nesting.ofReading (.ofText d s)).problems.toList.map
      (Problem.diagnostic { sourceName := name })) :=
  List.mergeSort_perm _ _

theorem mem_diagnostics {x : Diagnostic} : x ∈ (parse d name s).diagnostics ↔
    ∃ q ∈ (Nesting.ofReading (.ofText d s)).problems.toList,
      Problem.diagnostic { sourceName := name } q = x := by
  rw [(diagnostics_perm d name s).mem_iff, List.mem_map]

/-- A kind of diagnostic is missing exactly if no such problem was reported. -/
theorem forall_code_iff {P : Code → Prop} :
    (∀ x ∈ (parse d name s).diagnostics, P x.code) ↔
      ∀ code, ¬ P code → (Nesting.ofReading (.ofText d s)).reported code = [] := by
  constructor
  · intro h code hcode
    apply Problem.ofCode_eq_nil
    rintro q hq rfl
    exact hcode (h _ ((mem_diagnostics d name s).mpr ⟨q, hq, rfl⟩))
  · intro h x hx
    obtain ⟨q, hq, rfl⟩ := (mem_diagnostics d name s).mp hx
    rcases Classical.em (P q.value.code) with hP | hP
    · exact hP
    · have hnone := h _ hP
      have hmem : q ∈ (Nesting.ofReading (.ofText d s)).reported q.value.code := by
        simpa [Nesting.reported, Problem.ofCode] using hq
      rw [hnone] at hmem
      cases hmem

theorem isError_of_mem {x : Diagnostic} (h : x ∈ (parse d name s).diagnostics) :
    x.isError = true ↔ x.code ≠ .malformedClosingTag := by
  obtain ⟨q, _, rfl⟩ := (mem_diagnostics d name s).mp h
  cases hq : q.value <;>
    simp [Problem.diagnostic, Collector.diagnostic, Diagnostic.isError, hq, Problem.code,
      Code.defaultSeverity]

theorem ofCode_perm (code : Code) :
    ((parse d name s).ofCode code).Perm (((Nesting.ofReading (.ofText d s)).reported code).map
      (Problem.diagnostic { sourceName := name })) := by
  have h := (diagnostics_perm d name s).filter fun x => x.code = code
  rwa [List.filter_map] at h

theorem regions_perm (code : Code) :
    ((parse d name s).regions code).Perm
      (((Nesting.ofReading (.ofText d s)).reported code).map Located.span) := by
  have h := (ofCode_perm d name s code).map Diagnostic.span
  rwa [List.map_map] at h

end Document

end StoreMarkup
