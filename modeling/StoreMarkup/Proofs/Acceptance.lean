import Mathlib.Data.List.Basic
import StoreMarkup.Proofs.Balance
import StoreMarkup.Proofs.Diagnostics

/-! Which templates are accepted, said by their tokens: the completed tags are balanced, and nothing
malformed or unfinished stands beside them. -/
namespace StoreMarkup

/-- The tags that a stream of tokens completes after `tag` was started. An open tag counts if it
ends without a slash and its name asks for a body. -/
def completedTags (tag : Option TagEvent) : List Token → List TagEvent
  | [] => []
  | t :: ts =>
    match t.kind, tag with
    | .tagOpenStart, _ => completedTags (some (.opened (canonicalName (t.text.drop 1)))) ts
    | .tagCloseStart, _ => completedTags (some (.closed (canonicalName (t.text.drop 2)))) ts
    | .tagOpenEnd, some (.opened name) =>
      if t.text = ['>'] ∧ isVoid name = false then .opened name :: completedTags none ts
      else completedTags none ts
    | .tagCloseEnd, some (.closed name) => .closed name :: completedTags none ts
    | _, _ => completedTags tag ts

/-- What a stream of tokens marks as invalid inside its open tags, from a place that is inside of
one or not. -/
def openTagFaults (inside : Bool) : List Token → List Fault
  | [] => []
  | t :: ts =>
    match t.kind with
    | .tagOpenStart => openTagFaults true ts
    | .tagOpenEnd | .tagCloseStart => openTagFaults false ts
    | .invalid fault => if inside then fault :: openTagFaults inside ts else openTagFaults inside ts
    | _ => openTagFaults inside ts

namespace Token

/-- Whether a token stands between the start and the end of a tag. -/
def isPart (t : Token) : Bool :=
  match t.kind with
  | .attributeName | .attributeValue _ | .invalid _ => true
  | _ => false

def fault? (t : Token) : Option Fault :=
  match t.kind with
  | .invalid fault => some fault
  | _ => none

variable {ts : List Token}

theorem completedTags_openStart (tag : Option TagEvent) (p : Position) (name : Text)
    (ts : List Token) : completedTags tag (place p .tagOpenStart ('<' :: name) :: ts) =
      completedTags (some (.opened (canonicalName name))) ts := rfl

theorem completedTags_closeStart (tag : Option TagEvent) (p : Position) (name : Text)
    (ts : List Token) : completedTags tag (place p .tagCloseStart ('<' :: '/' :: name) :: ts) =
      completedTags (some (.closed (canonicalName name))) ts := rfl

theorem completedTags_parts (h : ∀ t ∈ ts, t.isPart = true) (tag : Option TagEvent)
    (rest : List Token) : completedTags tag (ts ++ rest) = completedTags tag rest := by
  induction ts with
  | nil => rfl
  | cons t ts ih =>
    have ht := h t List.mem_cons_self
    have hts := ih fun u hu => h u (List.mem_cons_of_mem t hu)
    cases hk : t.kind <;> simp_all [isPart, completedTags]

theorem openTagFaults_parts (h : ∀ t ∈ ts, t.isPart = true) (inside : Bool) (rest : List Token) :
    openTagFaults inside (ts ++ rest) =
      (if inside then ts.filterMap fault? else []) ++ openTagFaults inside rest := by
  induction ts with
  | nil => simp
  | cons t ts ih =>
    have ht := h t List.mem_cons_self
    have hts := ih fun u hu => h u (List.mem_cons_of_mem t hu)
    cases inside <;> cases hk : t.kind <;> simp_all [isPart, openTagFaults, fault?]

end Token

/-- What is wrong with a part of an open tag, if anything. -/
def TagPart.fault? : TagPart → Option Fault
  | .attribute .. => none
  | .stray _ fault => some fault

/-- What is wrong inside a construct, if it is an open tag. -/
def Construct.openFaults : Construct → List Fault
  | openTag _ parts _ _ => parts.filterMap TagPart.fault?
  | _ => []

/-- The tokens of some parts of an open tag. -/
def partTokens (p : Position) (parts : List TagPart) : List Token :=
  (locate TagPart.source p parts).flatMap fun part => part.value.tokens part.span.start

theorem isPart_of_mem_partTokens {p : Position} {parts : List TagPart} {t : Token}
    (h : t ∈ partTokens p parts) : t.isPart = true := by
  obtain ⟨part, _, ht⟩ := List.mem_flatMap.mp h
  cases hv : part.value with
  | stray s fault =>
    obtain rfl : t = _ := by simpa [hv, TagPart.tokens] using ht
    rfl
  | «attribute» gap name value =>
    cases value with
    | none =>
      obtain rfl : t = _ := by simpa [hv, TagPart.tokens] using ht
      rfl
    | some value =>
      obtain rfl | rfl : t = _ ∨ t = _ := by simpa [hv, TagPart.tokens] using ht
      · rfl
      · rfl

theorem fault?_partTokens (p : Position) (parts : List TagPart) :
    (partTokens p parts).filterMap Token.fault? = parts.filterMap TagPart.fault? := by
  have one : ∀ q (part : TagPart),
      (part.tokens q).filterMap Token.fault? = part.fault?.toList := by
    intro q part
    cases part with
    | stray s fault => rfl
    | «attribute» gap name value => cases value <;> rfl
  induction parts generalizing p with
  | nil => rfl
  | cons part parts ih =>
    have hcons : partTokens p (part :: parts) =
        part.tokens p ++ partTokens (p.advance part.source) parts := rfl
    rw [hcons, List.filterMap_append, one, ih]
    cases hf : part.fault? <;> simp [hf]

theorem isPart_of_mem_strayTokens {p : Position} {strays : List Stray} {t : Token}
    (h : t ∈ (locate Stray.source p strays).map fun stray => stray.value.token stray.span.start) :
    t.isPart = true := by
  obtain ⟨stray, _, rfl⟩ := List.mem_map.mp h
  rfl

theorem openTagTokens_eq (p : Position) (name : Text) (parts : List TagPart) :
    openTagTokens p name parts = .place p .tagOpenStart ('<' :: name) ::
      partTokens (p.advance ('<' :: name)) parts := rfl

namespace Construct

/-- A construct completes the tag that counts for nesting, if it is one. -/
theorem completedTags_tokens (p : Position) (c : Construct) (rest : List Token) :
    completedTags none (c.tokens p ++ rest) = c.event?.toList ++ completedTags none rest := by
  cases c with
  | openTag name parts gap slash =>
    simp only [tokens, openTagTokens_eq, List.cons_append, List.append_assoc]
    rw [Token.completedTags_openStart,
      Token.completedTags_parts fun t => isPart_of_mem_partTokens]
    cases slash <;> cases hv : isVoid (canonicalName name) <;>
      simp [completedTags, tagEnd, event?, hv, Token.place]
  | closeTag name strays gap =>
    simp only [tokens, closeTagTokens, List.cons_append, List.append_assoc]
    rw [Token.completedTags_closeStart,
      Token.completedTags_parts fun t => isPart_of_mem_strayTokens]
    rfl
  | _ => rfl

theorem openTagFaults_tokens (p : Position) (c : Construct) (rest : List Token) :
    openTagFaults false (c.tokens p ++ rest) = c.openFaults ++ openTagFaults false rest := by
  cases c with
  | openTag name parts gap slash =>
    simp only [tokens, openTagTokens_eq, List.cons_append, List.append_assoc]
    rw [openTagFaults]
    simp only [Token.place]
    rw [Token.openTagFaults_parts fun t => isPart_of_mem_partTokens]
    simp [openTagFaults, fault?_partTokens, openFaults]
  | closeTag name strays gap =>
    simp only [tokens, closeTagTokens, List.cons_append, List.append_assoc]
    rw [openTagFaults]
    simp only [Token.place]
    rw [Token.openTagFaults_parts fun t => isPart_of_mem_strayTokens]
    rfl
  | _ => rfl

end Construct

namespace Ending

theorem completedTags_tokens (p : Position) (e : Ending) :
    completedTags none (e.tokens p) = [] := by
  cases e with
  | openTag name parts text =>
    simp only [tokens, openTagTokens_eq, List.cons_append]
    rw [Token.completedTags_openStart,
      Token.completedTags_parts fun t => isPart_of_mem_partTokens]
    rfl
  | closeTag name strays text =>
    simp only [tokens, closeTagTokens, List.cons_append]
    rw [Token.completedTags_closeStart,
      Token.completedTags_parts fun t => isPart_of_mem_strayTokens]
    rfl
  | comment opening text => cases opening <;> rfl
  | _ => rfl

theorem getLast?_tokens (e : Ending) (p : Position) :
    (e.tokens p).getLast?.map Token.kind = some (.endOfInput e.unterminated?) := by
  simp [tokens, Token.place]

end Ending

namespace Reading

/-- A scan that takes the tokens of each construct by itself takes a reading construct by construct.
-/
theorem scan_tokens {β : Type} {scan : List Token → List β} {result : Construct → List β}
    (h : ∀ p (c : Construct) rest, scan (c.tokens p ++ rest) = result c ++ scan rest)
    (r : Reading) :
    scan r.tokens = r.constructs.flatMap result ++ scan (r.ending.tokens r.endingStart) := by
  have from_point : ∀ (cs : List Construct) (p : Position) (rest : List Token),
      scan ((locate Construct.source p cs).flatMap (fun c => c.value.tokens c.span.start) ++ rest) =
        cs.flatMap result ++ scan rest := by
    intro cs
    induction cs with
    | nil =>
      intro p rest
      rfl
    | cons c cs ih =>
      intro p rest
      simp only [locate, List.flatMap_cons, List.append_assoc, Span.covering]
      rw [h, ih]
  exact from_point r.constructs .start _

theorem completedTags_tokens (r : Reading) :
    completedTags none r.tokens = r.constructs.filterMap Construct.event? := by
  rw [scan_tokens Construct.completedTags_tokens, Ending.completedTags_tokens, List.append_nil,
    List.filterMap_eq_flatMap_toList]

theorem getLast?_tokens (r : Reading) :
    r.tokens.getLast?.map Token.kind = some (.endOfInput r.ending.unterminated?) := by
  have hlast := r.ending.getLast?_tokens r.endingStart
  obtain ⟨t, ht, hkind⟩ := Option.map_eq_some_iff.mp hlast
  rw [tokens, List.getLast?_append, ht, Option.some_or, Option.map_some, hkind]

end Reading

namespace Nesting

theorem tagProblems_eq_nil_iff {p : Position} {name : Text} {parts : List TagPart} :
    tagProblems p name parts = [] ↔ parts.filterMap TagPart.fault? = [] := by
  have one : ∀ q part, TagPart.problem? name q part = none ↔ part.fault? = none := by
    intro q part
    cases part <;> simp [TagPart.problem?, TagPart.fault?]
  unfold tagProblems
  generalize p.advance _ = q
  induction parts generalizing q with
  | nil => simp [locate]
  | cons part parts ih =>
    simp only [locate, List.filterMap_eq_nil_iff, List.mem_cons, forall_eq_or_imp] at ih ⊢
    exact and_congr (one q part) (ih _)

theorem ofCode_faults_eq_nil_iff {p : Position} {c : Construct} :
    Problem.ofCode .malformedAttribute (c.faults p) = [] ↔ c.openFaults = [] := by
  cases c with
  | openTag name parts gap slash =>
    simp only [Construct.faults, Construct.openFaults]
    rw [Problem.ofCode_eq_self fun q hq => code_of_mem_tagProblems hq, tagProblems_eq_nil_iff]
  | closeTag name strays gap =>
    have hnone : Problem.ofCode .malformedAttribute (closeTagProblems p name strays) = [] := by
      apply Problem.ofCode_eq_nil
      intro q hq
      simp [code_of_mem_closeTagProblems hq]
    simp [Construct.faults, Construct.openFaults, hnone]
  | _ => simp [Construct.faults, Construct.openFaults, Problem.ofCode]

theorem reported_malformedAttribute (cs : List Construct) :
    (ofConstructs cs).reported .malformedAttribute = [] ↔
      cs.flatMap Construct.openFaults = [] := by
  refine ofConstructs_induction (P := fun cs n => n.reported .malformedAttribute = [] ↔
    cs.flatMap Construct.openFaults = []) ?_ ?_ cs
  · simp [reported, Problem.ofCode]
  · intro cs n c h
    rw [reported_step (by decide) (by decide), List.flatMap_append, List.append_eq_nil_iff,
      List.append_eq_nil_iff, h, ofCode_faults_eq_nil_iff]
    simp

/-- The kinds of problem that a template ends with. -/
def unterminatedCode : Unterminated → Code
  | .tag => .unterminatedTag
  | .expression => .unterminatedExpression
  | .comment => .unterminatedComment

theorem reported_finish_inner {code : Code} (h : code.isStructural = false) (n : Nesting)
    (p : Position) (e : Ending) : (n.finish p e).reported code =
      n.reported code ++ Problem.ofCode code (endingProblems p e) := by
  have hother : code ≠ .unterminatedElement := by
    rintro rfl
    cases h
  simp [finish_eq, reported, ofCode_openProblems hother]

/-- An ending inside a construct is reported as such. -/
theorem ofCode_endingProblems_ne_nil {p : Position} {e : Ending} {u : Unterminated}
    (h : e.unterminated? = some u) :
    Problem.ofCode (unterminatedCode u) (endingProblems p e) ≠ [] := by
  cases e <;> cases h <;> simp [endingProblems, Problem.ofCode, Problem.code, unterminatedCode]

/-- The problems that are errors are those of nesting, what is malformed in open tags and the
ending. -/
theorem reported_eq_nil_iff (r : Reading) :
    (∀ code : Code, code ≠ .malformedClosingTag → (ofReading r).reported code = []) ↔
      (ofReading r).Clean ∧ r.constructs.flatMap Construct.openFaults = [] ∧
        r.ending.unterminated? = none := by
  constructor
  · intro h
    refine ⟨?_, ?_, ?_⟩
    · intro code hc
      refine h code ?_
      rintro rfl
      cases hc
    · have hnone := h .malformedAttribute (by decide)
      rw [ofReading_eq, reported_finish_inner rfl] at hnone
      exact (reported_malformedAttribute _).mp (List.append_eq_nil_iff.mp hnone).1
    · cases hu : r.ending.unterminated? with
      | none => rfl
      | some u =>
        have hnone := h (unterminatedCode u) (by cases u <;> decide)
        rw [ofReading_eq, reported_finish_inner (by cases u <;> rfl)] at hnone
        exact (ofCode_endingProblems_ne_nil hu (List.append_eq_nil_iff.mp hnone).2).elim
  · rintro ⟨hclean, hfaults, hending⟩ code hcode
    have hclear : endingProblems r.endingStart r.ending = [] := by
      cases he : r.ending <;> simp [he, Ending.unterminated?] at hending
      rfl
    have inner : ∀ {code : Code}, code.isStructural = false →
        (ofConstructs r.constructs).reported code = [] → (ofReading r).reported code = [] := by
      intro code hc hnone
      rw [ofReading_eq, reported_finish_inner hc, hnone, hclear]
      rfl
    cases code with
    | unexpectedClosingTag | mismatchedNesting | unterminatedElement => exact hclean _ rfl
    | malformedAttribute => exact inner rfl ((reported_malformedAttribute _).mpr hfaults)
    | unterminatedTag => exact inner rfl (reported_ofConstructs rfl _)
    | unterminatedExpression => exact inner rfl (reported_ofConstructs rfl _)
    | unterminatedComment => exact inner rfl (reported_ofConstructs rfl _)
    | malformedClosingTag => exact (hcode rfl).elim

end Nesting

namespace Document

variable (d : Dialect) (name : Option String) (s : Text)

theorem structural_iff_clean :
    (∀ x ∈ (parse d name s).diagnostics, x.code.isStructural = false) ↔
      (Nesting.ofReading (.ofText d s)).Clean := by
  rw [forall_code_iff d name s (P := fun code => code.isStructural = false)]
  simp [Nesting.Clean]

theorem hasErrors_eq_false_iff :
    (parse d name s).hasErrors = false ↔ ∀ code : Code, code ≠ .malformedClosingTag →
      (Nesting.ofReading (.ofText d s)).reported code = [] := by
  rw [← forall_code_iff d name s (P := fun code => code = .malformedClosingTag), hasErrors,
    List.any_eq_false]
  refine forall_congr' fun x => forall_congr' fun hx => ?_
  rw [isError_of_mem d name s hx, not_not]

/-- The tags of a template nest without a problem exactly if the grammar derives those that its
tokens complete. There are no errors at all exactly if moreover no open tag holds anything invalid
and the template does not end inside a construct. -/
theorem accepted_iff :
    ((∀ x ∈ (parse d name s).diagnostics, x.code.isStructural = false) ↔
      Balanced (completedTags none (tokenize d s))) ∧
    ((parse d name s).hasErrors = false ↔
      Balanced (completedTags none (tokenize d s)) ∧ openTagFaults false (tokenize d s) = [] ∧
        (tokenize d s).getLast?.map Token.kind = some (.endOfInput none)) := by
  have htags := (Reading.ofText d s).completedTags_tokens
  have hlast := (Reading.ofText d s).getLast?_tokens
  have hfaults := Reading.scan_tokens Construct.openTagFaults_tokens (.ofText d s)
  rw [structural_iff_clean, hasErrors_eq_false_iff, Nesting.reported_eq_nil_iff,
    Nesting.clean_ofReading, tokenize, htags, hlast]
  refine ⟨Iff.rfl, and_congr_right fun _ => ?_⟩
  constructor
  · rintro ⟨hopen, hending⟩
    -- Without an unfinished construct the last token is the only one of the ending.
    have hclean : (Reading.ofText d s).ending = .clean := by
      cases he : (Reading.ofText d s).ending <;> simp [he, Ending.unterminated?] at hending ⊢
    rw [hfaults, hopen, hclean]
    exact ⟨rfl, rfl⟩
  · rintro ⟨hopen, hending⟩
    rw [hfaults, List.append_eq_nil_iff] at hopen
    exact ⟨hopen.1, by simpa using hending⟩

end Document

end StoreMarkup
