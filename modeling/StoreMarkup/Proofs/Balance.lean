import StoreMarkup.Proofs.Nesting

/-! Tags nest without a problem exactly if a grammar derives them. The grammar may leave an element
open or close it where it could also close another of the same name, and the stack always takes the
nearest: that loses no derivation. -/
namespace StoreMarkup

/-- Tags in which every element is closed, or may be left open and is. -/
inductive Balanced : List TagEvent → Prop
  | nil : Balanced []
  | pair (tag : Text) {inner after : List TagEvent} : Balanced inner → Balanced after →
      Balanced (.opened tag :: inner ++ .closed tag :: after)
  | leftOpen {tag : Text} {after : List TagEvent} : closesOptionally tag = true →
      Balanced after → Balanced (.opened tag :: after)

/-- What stays open when a close tag ends the nearest element of its name. An element inside it that
needs its own close tag stands in the way. -/
def closeNearest? (tag : Text) : List Text → Option (List Text)
  | [] => none
  | t :: ts =>
    if t = tag then some ts
    else if closesOptionally t then closeNearest? tag ts
    else none

/-- The names of the open elements after a tag, innermost first. -/
def TagEvent.nest? (stack : List Text) : TagEvent → Option (List Text)
  | opened tag => some (tag :: stack)
  | closed tag => closeNearest? tag stack

/-- The names of the open elements after some tags, if all of them nest. -/
def openAfter? (stack : List Text) (es : List TagEvent) : Option (List Text) :=
  es.foldlM TagEvent.nest? stack

theorem openAfter?_cons (stack : List Text) (e : TagEvent) (es : List TagEvent) :
    openAfter? stack (e :: es) = (e.nest? stack).bind fun s => openAfter? s es := by
  simp [openAfter?]

theorem openAfter?_singleton (stack : List Text) (e : TagEvent) :
    openAfter? stack [e] = e.nest? stack := by
  simp [openAfter?]

theorem openAfter?_append (stack : List Text) (es fs : List TagEvent) :
    openAfter? stack (es ++ fs) = (openAfter? stack es).bind fun s => openAfter? s fs := by
  simp [openAfter?]

/-- Below elements that may be left open, the nearest element of a name leaves only such. -/
theorem closeNearest?_append {tag : Text} {extra : List Text}
    (h : ∀ t ∈ extra, closesOptionally t = true) (stack : List Text) :
    ∃ left, (∀ t ∈ left, closesOptionally t = true) ∧
      closeNearest? tag (extra ++ tag :: stack) = some (left ++ stack) := by
  induction extra with
  | nil => exact ⟨[], by simp, by simp [closeNearest?]⟩
  | cons t ts ih =>
    have hts : ∀ u ∈ ts, closesOptionally u = true := fun u hu => h u (List.mem_cons_of_mem t hu)
    by_cases ht : t = tag
    · -- The name is found above its derived partner, which then stays open and may.
      subst ht
      refine ⟨ts ++ [t], ?_, by simp [closeNearest?]⟩
      exact List.forall_mem_append.mpr ⟨hts, by simpa using h t List.mem_cons_self⟩
    · obtain ⟨left, hleft, he⟩ := ih hts
      exact ⟨left, hleft, by simpa [closeNearest?, ht, h t List.mem_cons_self] using he⟩

/-- Balanced tags leave what was open before them as it is, below elements that may be left open.
-/
theorem openAfter?_of_balanced {es : List TagEvent} (h : Balanced es) (stack : List Text) :
    ∃ extra, (∀ t ∈ extra, closesOptionally t = true) ∧
      openAfter? stack es = some (extra ++ stack) := by
  induction h generalizing stack with
  | nil => exact ⟨[], by simp, rfl⟩
  | pair tag _ _ inner after =>
    obtain ⟨extra, hextra, hinner⟩ := inner (tag :: stack)
    obtain ⟨left, hleft, hclose⟩ := closeNearest?_append hextra stack
    obtain ⟨more, hmore, hafter⟩ := after (left ++ stack)
    refine ⟨more ++ left, List.forall_mem_append.mpr ⟨hmore, hleft⟩, ?_⟩
    rw [List.cons_append, openAfter?_cons, TagEvent.nest?, Option.bind_some,
      openAfter?_append, hinner, Option.bind_some, openAfter?_cons, TagEvent.nest?, hclose,
      Option.bind_some, hafter, List.append_assoc]
  | @leftOpen tag _ htag _ after =>
    obtain ⟨extra, hextra, hafter⟩ := after (tag :: stack)
    refine ⟨extra ++ [tag], List.forall_mem_append.mpr ⟨hextra, by simpa using htag⟩, ?_⟩
    rw [openAfter?_cons, TagEvent.nest?, Option.bind_some, hafter]
    simp

/-- Tags that close open elements, innermost first, with balanced tags before each close tag. An
element that may be left open need not be closed. -/
def Completes : List Text → List TagEvent → Prop
  | [], es => Balanced es
  | tag :: stack, es =>
    (∃ inner after, es = inner ++ .closed tag :: after ∧ Balanced inner ∧ Completes stack after) ∨
      (closesOptionally tag = true ∧ Completes stack es)

section Completes

variable {stack : List Text} {tag : Text} {es : List TagEvent}

theorem Completes.leftOpen (htag : closesOptionally tag = true) (h : Completes stack es) :
    Completes stack (.opened tag :: es) := by
  induction stack generalizing es with
  | nil => exact Balanced.leftOpen htag h
  | cons t ts ih =>
    rcases h with ⟨inner, after, rfl, hinner, hafter⟩ | ⟨ht, h⟩
    · exact Or.inl ⟨.opened tag :: inner, after, rfl, .leftOpen htag hinner, hafter⟩
    · exact Or.inr ⟨ht, ih h⟩

theorem Completes.pair {inner : List TagEvent} (hinner : Balanced inner)
    (h : Completes stack es) : Completes stack (.opened tag :: inner ++ .closed tag :: es) := by
  induction stack generalizing es with
  | nil => exact Balanced.pair tag hinner h
  | cons t ts ih =>
    rcases h with ⟨before, after, rfl, hbefore, hafter⟩ | ⟨ht, h⟩
    · exact Or.inl ⟨.opened tag :: inner ++ .closed tag :: before, after, by simp,
        .pair tag hinner hbefore, hafter⟩
    · exact Or.inr ⟨ht, ih h⟩

theorem Completes.opened (h : Completes (tag :: stack) es) :
    Completes stack (.opened tag :: es) := by
  rcases h with ⟨inner, after, rfl, hinner, hafter⟩ | ⟨htag, h⟩
  · exact hafter.pair hinner
  · exact h.leftOpen htag

theorem Completes.closed {rest : List Text} (hclose : closeNearest? tag stack = some rest)
    (h : Completes rest es) : Completes stack (.closed tag :: es) := by
  induction stack with
  | nil => cases hclose
  | cons t ts ih =>
    rw [closeNearest?] at hclose
    split at hclose
    · rename_i ht
      cases hclose
      subst ht
      exact Or.inl ⟨[], es, rfl, .nil, h⟩
    · split at hclose
      · rename_i ht
        exact Or.inr ⟨ht, ih hclose⟩
      · cases hclose

theorem completes_nil (h : ∀ t ∈ stack, closesOptionally t = true) : Completes stack [] := by
  induction stack with
  | nil => exact .nil
  | cons t ts ih =>
    exact Or.inr ⟨h t List.mem_cons_self, ih fun u hu => h u (List.mem_cons_of_mem t hu)⟩

/-- What the stack accepts closes all that must be closed. -/
theorem completes_of_openAfter? {rest : List Text} (h : openAfter? stack es = some rest)
    (hrest : ∀ t ∈ rest, closesOptionally t = true) : Completes stack es := by
  induction es generalizing stack with
  | nil =>
    cases h
    exact completes_nil hrest
  | cons e es ih =>
    rw [openAfter?_cons] at h
    obtain ⟨next, hnext, hes⟩ := Option.bind_eq_some_iff.mp h
    cases e with
    | opened tag =>
      cases hnext
      exact (ih hes).opened
    | closed tag => exact (ih hes).closed hnext

end Completes

/-- The stack accepts what the grammar derives and nothing else. -/
theorem balanced_iff {es : List TagEvent} :
    Balanced es ↔ ∃ rest, openAfter? [] es = some rest ∧ ∀ t ∈ rest, closesOptionally t = true := by
  constructor
  · intro h
    obtain ⟨extra, hextra, he⟩ := openAfter?_of_balanced h []
    exact ⟨extra, by simpa using he, hextra⟩
  · rintro ⟨rest, h, hrest⟩
    exact completes_of_openAfter? h hrest

/-- The close tag ends the frame that the search finds, if nothing stands in the way. -/
theorem closeNearest?_eq (tag : Text) (stack : List Frame) :
    closeNearest? tag (stack.map Frame.tag) =
      (splitFrames? tag stack).bind fun (inner, _, outer) =>
        if Frame.needed inner = [] then some (outer.map Frame.tag) else none := by
  induction stack with
  | nil => rfl
  | cons f fs ih =>
    by_cases hf : f.tag = tag
    · simp [closeNearest?, splitFrames?, hf, Frame.needed]
    · cases hs : splitFrames? tag fs with
      | none => simp [closeNearest?, splitFrames?, hf, ih, hs]
      | some split =>
        by_cases ho : closesOptionally f.tag = true
        · simp [closeNearest?, splitFrames?, hf, ih, hs, ho, Frame.needed]
        · simp [closeNearest?, splitFrames?, hf, hs, ho, Frame.needed]

namespace Nesting

/-- No problem of nesting was reported. -/
def Clean (n : Nesting) : Prop := ∀ code : Code, code.isStructural = true → n.reported code = []

/-- The names of the open elements, innermost first. -/
def tags (n : Nesting) : List Text := n.stack.map Frame.tag

@[simp] theorem tags_append (n : Nesting) (nodes : List Node) : (n.append nodes).tags = n.tags := by
  cases h : n.stack <;> simp [append, tags, h, Frame.append]

/-- The tree under construction follows the stack of names while all tags nest, and has reported a
problem as soon as one does not. -/
def Follows (n : Nesting) (result : Option (List Text)) : Prop :=
  match result with
  | some stack => n.Clean ∧ n.tags = stack
  | none => ¬ n.Clean

theorem clean_report {n : Nesting} {problems : List (Located Problem)} :
    (n.report problems).Clean ↔
      n.Clean ∧ ∀ code : Code, code.isStructural = true → Problem.ofCode code problems = [] := by
  simp only [Clean, reported_report, List.append_eq_nil_iff]
  constructor
  · intro h
    exact ⟨fun code hc => (h code hc).1, fun code hc => (h code hc).2⟩
  · rintro ⟨hn, hp⟩ code hc
    exact ⟨hn code hc, hp code hc⟩

theorem clean_append {n : Nesting} {nodes : List Node} : (n.append nodes).Clean ↔ n.Clean := by
  simp [Clean]

theorem clean_mismatch {n : Nesting} {tag : Text} {inner : List Frame} {span : Span} :
    (n.report (mismatch tag inner span)).Clean ↔ n.Clean ∧ Frame.needed inner = [] := by
  rw [clean_report]
  refine and_congr_right fun _ => ?_
  constructor
  · intro h
    have hm := h .mismatchedNesting rfl
    simpa [mismatch, Problem.ofCode, Problem.code] using hm
  · intro h code _
    simp [mismatch, h, Problem.ofCode]

theorem follows_report {n : Nesting} {result : Option (List Text)}
    {problems : List (Located Problem)}
    (hp : ∀ code : Code, code.isStructural = true → Problem.ofCode code problems = [])
    (h : n.Follows result) : (n.report problems).Follows result := by
  have hclean : (n.report problems).Clean ↔ n.Clean := by
    rw [clean_report]
    exact and_iff_left hp
  cases result with
  | none => exact fun hc => h (hclean.mp hc)
  | some stack => exact ⟨hclean.mpr h.1, h.2⟩

/-- A close tag leaves the names that it should, and if it cannot, that is reported. -/
theorem follows_closed {n : Nesting} {result : Option (List Text)} (h : n.Follows result)
    {tag : Text} {inner outer : List Frame} {frame : Frame}
    (found : splitFrames? tag n.stack = some (inner, frame, outer)) (span : Span)
    (nodes : List Node) :
    (append { n.report (mismatch tag inner span) with stack := outer } nodes).Follows
      (result.bind (closeNearest? tag)) := by
  have hclean : (append { n.report (mismatch tag inner span) with stack := outer } nodes).Clean ↔
      n.Clean ∧ Frame.needed inner = [] := by
    rw [clean_append]
    exact clean_mismatch
  cases result with
  | none => exact fun hc => h (hclean.mp hc).1
  | some stack =>
    obtain ⟨hn, rfl⟩ := h
    have hclose : closeNearest? tag n.tags =
        if Frame.needed inner = [] then some (outer.map Frame.tag) else none := by
      rw [tags, closeNearest?_eq, found]
      rfl
    rw [Option.bind_some, hclose]
    by_cases hneeded : Frame.needed inner = []
    · rw [if_pos hneeded]
      exact ⟨hclean.mpr ⟨hn, hneeded⟩, by rw [tags_append]; rfl⟩
    · rw [if_neg hneeded]
      exact fun hc => hneeded (hclean.mp hc).2

/-- Each construct moves the stack of names as its tag does. -/
theorem follows_step {n : Nesting} {result : Option (List Text)} (h : n.Follows result)
    (c : Construct) (span : Span) :
    (n.step ⟨c, span⟩).Follows (result.bind fun s => openAfter? s c.event?.toList) := by
  have he := n.step_effect c span
  have hfaults := follows_report (fun code hc => c.ofCode_faults hc span.start) h
  generalize n.step _ = m at he ⊢
  cases he with
  | node event pieces children closing =>
    rw [event]
    cases result with
    | none => exact fun hc => hfaults (clean_append.mp hc)
    | some stack => exact ⟨clean_append.mpr hfaults.1, by rw [tags_append]; exact hfaults.2⟩
  | opened event text place children =>
    rw [event]
    cases result with
    | none => exact hfaults
    | some stack =>
      obtain ⟨hclean, rfl⟩ := hfaults
      exact ⟨hclean, rfl⟩
  | @dropped tag event absent =>
    have hdirty : ¬ ((n.report (c.faults span.start)).report
        [⟨.unexpectedClosingTag tag, span⟩]).Clean := by
      intro hc
      have hnone := (clean_report.mp hc).2 .unexpectedClosingTag rfl
      simp [Problem.ofCode, Problem.code] at hnone
    rw [event]
    cases result with
    | none => exact hdirty
    | some stack =>
      obtain ⟨_, rfl⟩ := hfaults
      have hblocked : closeNearest? tag (n.report (c.faults span.start)).tags = none := by
        rw [tags, closeNearest?_eq, absent, Option.bind_none]
      rw [Option.bind_some, Option.toList_some, openAfter?_singleton, TagEvent.nest?, hblocked]
      exact hdirty
  | @closed tag inner outer frame event found =>
    simp only [event, Option.toList_some, openAfter?_singleton]
    exact follows_closed hfaults found span _

theorem follows_ofConstructs (cs : List Construct) :
    (ofConstructs cs).Follows (openAfter? [] (cs.filterMap Construct.event?)) := by
  refine ofConstructs_induction (P := fun cs n =>
    n.Follows (openAfter? [] (cs.filterMap Construct.event?))) ?_ ?_ cs
  · exact ⟨fun _ _ => rfl, rfl⟩
  · intro cs n c h
    have hevents : (cs ++ [c]).filterMap Construct.event? =
        cs.filterMap Construct.event? ++ c.event?.toList := by
      cases hc : c.event? <;> simp [hc]
    rw [hevents, openAfter?_append]
    exact follows_step h c _

theorem clean_finish {n : Nesting} {p : Position} {e : Ending} :
    (n.finish p e).Clean ↔ n.Clean ∧ ∀ t ∈ n.tags, closesOptionally t = true := by
  have hopen : openProblems n.stack = [] ↔ ∀ t ∈ n.tags, closesOptionally t = true := by
    simp [openProblems, tags]
  rw [← hopen]
  constructor
  · intro h
    refine ⟨?_, ?_⟩
    · intro code hc
      have hnone := h code hc
      rw [reported_finish hc] at hnone
      exact (List.append_eq_nil_iff.mp hnone).1
    · have hnone := h .unterminatedElement rfl
      rw [reported_finish rfl, Problem.ofCode_eq_self fun q hq => code_of_mem_openProblems hq]
        at hnone
      exact (List.append_eq_nil_iff.mp hnone).2
  · rintro ⟨hn, hnone⟩ code hc
    rw [reported_finish hc, hn code hc, hnone]
    rfl

/-- A tree has no problem of nesting exactly if the grammar derives its tags. -/
theorem clean_ofReading (r : Reading) :
    (ofReading r).Clean ↔ Balanced (r.constructs.filterMap Construct.event?) := by
  have h := follows_ofConstructs r.constructs
  rw [ofReading_eq, clean_finish, balanced_iff]
  cases hrun : openAfter? [] (r.constructs.filterMap Construct.event?) with
  | none =>
    rw [hrun] at h
    constructor
    · rintro ⟨hc, _⟩
      exact (h hc).elim
    · rintro ⟨rest, hrest, _⟩
      cases hrest
  | some stack =>
    rw [hrun] at h
    obtain ⟨hclean, htags⟩ := h
    rw [htags]
    constructor
    · rintro ⟨_, hall⟩
      exact ⟨stack, rfl, hall⟩
    · rintro ⟨rest, hrest, hall⟩
      cases hrest
      exact ⟨hclean, hall⟩

end Nesting

end StoreMarkup
