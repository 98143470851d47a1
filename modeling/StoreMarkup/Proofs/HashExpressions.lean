import StoreMarkup.Proofs.Diagnostics
import StoreMarkup.Proofs.Fragments
import StoreMarkup.Proofs.Relabeling

/-! Expressions between hash signs never move the end of a value: a template that holds no other
expressions is read the same without them, but that each value is one literal then. -/
namespace StoreMarkup

/-- The same dialect with hash signs as literal text. -/
def Dialect.withoutHashes (d : Dialect) : Dialect := { d with hashExpressions := false }

/-- Text without the marks that open an expression. -/
def DollarFree (s : Text) : Prop := ¬ Delimiter.dollar.opening <:+: s

/-- The text of some fragments as one literal. -/
def Fragment.joined (fs : List Fragment) : List Fragment :=
  if fs.isEmpty then [] else [.literal (fs.flatMap source)]

/-- The value with its text as one literal. -/
def Value.joined (v : Value) : Value := { v with fragments := Fragment.joined v.fragments }

def TagPart.joined : TagPart → TagPart
  | .attribute gap name value => .attribute gap name (value.map Value.joined)
  | .stray s fault => .stray s fault

section Values

variable {d : Dialect} {quote : Option Quote} {c : Char} {s t r cs : Text} {fs : List Fragment}

theorem DollarFree.right (h : DollarFree (t ++ s)) : DollarFree s := by
  intro hin
  exact h (hin.trans (List.suffix_append t s).isInfix)

theorem DollarFree.tail (h : DollarFree (c :: cs)) : DollarFree cs :=
  DollarFree.right (t := [c]) h

theorem DollarFree.afterDollar? (h : DollarFree s) : afterDollar? s = none := by
  cases hs : StoreMarkup.afterDollar? s with
  | none => rfl
  | some inner =>
    rw [afterDollar?_eq hs] at h
    exact (h (List.prefix_append ['$', '{'] inner).isInfix).elim

theorem source_joined (fs : List Fragment) :
    (Fragment.joined fs).flatMap Fragment.source = fs.flatMap Fragment.source := by
  cases fs with
  | nil => rfl
  | cons f fs => simp [Fragment.joined, Fragment.source]

theorem consLiteral_joined (c : Char) (fs : List Fragment) :
    consLiteral c (Fragment.joined fs) = [.literal (c :: fs.flatMap Fragment.source)] := by
  cases fs with
  | nil => rfl
  | cons f fs => rfl

theorem joined_consLiteral (c : Char) (fs : List Fragment) :
    Fragment.joined (consLiteral c fs) = [.literal (c :: fs.flatMap Fragment.source)] := by
  have hsource := source_consLiteral c fs
  unfold Fragment.joined
  rw [hsource, if_neg]
  unfold consLiteral
  split <;> simp

/-- A value goes on over a character that ends no hash expression, unless a slash ends the tag. -/
theorem valueEnd?_eq_none (hc : endsHash quote c = false)
    (hslash : quote = none → c = '/' → cs.head? ≠ some '>') : valueEnd? quote c cs = none := by
  cases quote with
  | some q => simpa [valueEnd?, endsHash] using hc
  | none =>
    simp only [endsHash, Bool.or_eq_false_iff] at hc
    simpa [valueEnd?, hc] using hslash rfl

theorem valueFragments_withoutHashes_cons (hgoes : valueEnd? quote c cs = none)
    (hs : DollarFree (c :: cs)) : valueFragments d.withoutHashes quote (c :: cs) =
      (valueFragments d.withoutHashes quote cs).map fun r => (consLiteral c r.1, r.2) := by
  have hstep : valueStep d.withoutHashes quote c cs = .literal := by
    simp [valueStep, hs.afterDollar?, Dialect.withoutHashes]
  rw [valueFragments, hgoes]
  simp only
  rw [hstep]

/-- Without hash expressions the scan passes over the text of one, which stays inside the value. -/
theorem valueFragments_withoutHashes_append (ht : StaysInside quote t) (hr : r.head? ≠ some '>')
    (hs : DollarFree (t ++ r)) : valueFragments d.withoutHashes quote (t ++ r) =
      (valueFragments d.withoutHashes quote r).map fun p => (t.foldr consLiteral p.1, p.2) := by
  induction t with
  | nil => simp
  | cons c t ih =>
    obtain ⟨hc, hinside⟩ := staysInside_cons.mp ht
    have hgoes : valueEnd? quote c (t ++ r) = none := by
      refine valueEnd?_eq_none hc ?_
      rintro rfl - hhead
      cases t with
      | nil => exact hr hhead
      | cons b t =>
        obtain rfl : b = '>' := by simpa using hhead
        exact (hinside '>' (by simp)).2 rfl
    rw [List.cons_append] at hs ⊢
    rw [valueFragments_withoutHashes_cons hgoes hs, ih hinside hs.tail, Option.map_map]
    rfl

theorem foldr_consLiteral (t u : Text) :
    t.foldr consLiteral [.literal u] = [.literal (t ++ u)] := by
  induction t with
  | nil => rfl
  | cons c t ih => simp [ih, consLiteral]

theorem endsHash_hash (quote : Option Quote) : endsHash quote '#' = false := by
  cases quote with
  | none => decide
  | some q => cases q <;> decide

/-- The scan with hash expressions passes over one of them, and the scan without them does, too. -/
theorem valueFragments_withoutHashes_hash {body rest : Text} (hbody : StaysInside quote body)
    (hs : DollarFree ('#' :: body ++ '#' :: rest)) :
    valueFragments d.withoutHashes quote ('#' :: body ++ '#' :: rest) =
      (valueFragments d.withoutHashes quote rest).map fun p =>
        (('#' :: body).foldr consLiteral (consLiteral '#' p.1), p.2) := by
  have hash := endsHash_hash quote
  have hgoes : valueEnd? quote '#' rest = none := by
    refine valueEnd?_eq_none hash ?_
    intro _ hslash
    cases hslash
  rw [valueFragments_withoutHashes_append (staysInside_cons.mpr ⟨hash, hbody⟩) (by simp) hs,
    valueFragments_withoutHashes_cons hgoes hs.right, Option.map_map]
  rfl

/-- A value ends where it ends without hash expressions, and its text is one literal then. -/
theorem valueFragments_withoutHashes (d : Dialect) (quote : Option Quote) (hs : DollarFree s) :
    valueFragments d.withoutHashes quote s =
      (valueFragments d quote s).map fun r => (Fragment.joined r.1, r.2) := by
  fun_induction valueFragments d quote s with
  | case1 => simp [valueFragments]
  | case2 c cs rest hend => simp [valueFragments, hend, Fragment.joined]
  | case3 c cs hgoes hcut =>
    unfold valueStep at hcut
    rw [hs.afterDollar?] at hcut
    simp only at hcut
    split at hcut
    · split at hcut <;> cases hcut
    · cases hcut
  | case4 c cs hgoes hstep ih =>
    rw [valueFragments_withoutHashes_cons hgoes hs, ih hs.tail, Option.map_map, Option.map_map]
    congr 1
    funext r
    simp [consLiteral_joined, joined_consLiteral]
  | case5 c cs hgoes delimiter body rest hstep ih =>
    have hsource := valueStep_eq hstep
    have hfits := fits_of_valueStep hstep
    cases delimiter with
    | dollar =>
      rw [hsource] at hs
      refine (hs ?_).elim
      exact (List.prefix_append ['$', '{'] (body ++ ['}'] ++ rest)).isInfix
    | hash =>
      have hall : c :: cs = '#' :: body ++ '#' :: rest := by
        simpa [Fragment.source, Delimiter.opening, Delimiter.closing] using hsource
      rw [hall] at hs ⊢
      rw [valueFragments_withoutHashes_hash hfits.2 hs, ih hs.right.tail, Option.map_map,
        Option.map_map]
      congr 1
      funext r
      simp only [Function.comp_apply, consLiteral_joined, foldr_consLiteral]
      simp [Fragment.joined, Fragment.source, Delimiter.opening, Delimiter.closing]

end Values

def TagStep.joined : TagStep → TagStep
  | .more parts rest => .more (parts.map TagPart.joined) rest
  | .close gap slash rest => .close gap slash rest
  | .cutOff parts => .cutOff (parts.map TagPart.joined)

def TagScan.joined : TagScan → TagScan
  | .closed parts gap slash rest => .closed (parts.map TagPart.joined) gap slash rest
  | .cutOff parts => .cutOff (parts.map TagPart.joined)

section Tags

variable (d : Dialect) {s : Text}

theorem DollarFree.afterBlanks (h : DollarFree s) : DollarFree (afterBlanks s) := by
  rw [← blanks_append_afterBlanks s] at h
  exact h.right

theorem DollarFree.afterQuote {c : Char} {cs : Text} (h : DollarFree (c :: cs)) :
    DollarFree (afterQuote c cs) := by
  unfold StoreMarkup.afterQuote
  split
  · exact h.tail
  · exact h

theorem assignmentStep_withoutHashes (gap name before : Text) (h : DollarFree s) :
    assignmentStep d.withoutHashes gap name before s =
      (assignmentStep d gap name before s).joined := by
  have hvalue := h.afterBlanks
  unfold assignmentStep
  split
  · rfl
  · rename_i c cs hd
    rw [hd] at hvalue
    split
    · rfl
    · rw [valueFragments_withoutHashes d _ hvalue.afterQuote]
      cases valueFragments d (Quote.ofChar? c) (StoreMarkup.afterQuote c cs) <;> rfl

theorem attributeStep_withoutHashes (gap : Text) (h : DollarFree s) :
    attributeStep d.withoutHashes gap s = (attributeStep d gap s).joined := by
  unfold attributeStep
  split
  · rfl
  · rename_i name rest hname
    rw [attributeName_eq hname] at h
    have hrest := h.right.afterBlanks
    split
    · rename_i after hd
      rw [hd] at hrest
      exact assignmentStep_withoutHashes d gap name (blanks rest) hrest.tail
    · rfl

theorem tagStep_withoutHashes (h : DollarFree s) :
    tagStep d.withoutHashes s = (tagStep d s).joined := by
  have hafter := h.afterBlanks
  unfold tagStep
  split
  · rfl
  · rename_i c cs hd
    rw [hd] at hafter
    split
    · rfl
    · split
      · split <;> rfl
      · split
        · rfl
        · exact attributeStep_withoutHashes d (blanks s) hafter

theorem scanTag_withoutHashes (h : DollarFree s) :
    scanTag d.withoutHashes s = (scanTag d s).joined := by
  fun_induction scanTag d s with
  | case1 s gap slash rest hs =>
    rw [scanTag, tagStep_withoutHashes d h, hs]
    rfl
  | case2 s parts hs =>
    rw [scanTag, tagStep_withoutHashes d h, hs]
    rfl
  | case3 s parts rest hs ih =>
    have hfree := h
    rw [tagStep_more hs] at hfree
    rw [scanTag, tagStep_withoutHashes d h, hs]
    simp only [TagStep.joined]
    rw [ih hfree.right]
    cases scanTag d rest <;> simp [TagScan.after, TagScan.joined]

end Tags

def Construct.joined : Construct → Construct
  | openTag name parts gap slash => openTag name (parts.map TagPart.joined) gap slash
  | c => c

def Ending.joined : Ending → Ending
  | openTag name parts text => openTag name (parts.map TagPart.joined) text
  | e => e

namespace Reading

/-- The reading with the text of each value as one literal. -/
def joined (r : Reading) : Reading := ⟨r.constructs.map Construct.joined, r.ending.joined⟩

def Step.joined : Step → Step
  | construct c rest => construct c.joined rest
  | ending e => ending e.joined

variable (d : Dialect) (raw : Option RawText) {s : Text}

theorem opener?_withoutHashes (s : Text) : opener? d.withoutHashes raw s = opener? d raw s := rfl

theorem textRun_withoutHashes (s : Text) : textRun d.withoutHashes raw s = textRun d raw s := by
  induction s with
  | nil => rfl
  | cons c cs ih => rw [textRun, textRun, ih, opener?_withoutHashes]

theorem step_withoutHashes (h : DollarFree s) :
    step d.withoutHashes raw s = (step d raw s).joined := by
  have hreads := reads_step d raw s
  generalize step d raw s = r at hreads ⊢
  apply step_of_reads
  cases hreads with
  | clean => exact .clean
  | text ho hrun => exact .text ho (by rw [textRun_withoutHashes, hrun])
  | expression ho hbody => exact .expression ho hbody
  | unclosedExpression ho hbody => exact .unclosedExpression ho hbody
  | comment ho hscan => exact .comment ho hscan
  | unclosedComment ho hscan => exact .unclosedComment ho hscan
  | openTag ho hscan =>
    rw [opener?_openTag ho] at h
    exact .openTag ho (by rw [scanTag_withoutHashes d h.right, hscan, TagScan.joined])
  | unclosedOpenTag ho hscan =>
    rw [opener?_openTag ho] at h
    exact .unclosedOpenTag ho (by rw [scanTag_withoutHashes d h.right, hscan, TagScan.joined])
  | closeTag ho hscan => exact .closeTag ho hscan
  | unclosedCloseTag ho hscan => exact .unclosedCloseTag ho hscan

theorem inRawText_withoutHashes (h : DollarFree s) :
    inRawText d.withoutHashes raw s = (inRawText d raw s).joined := by
  fun_induction inRawText d raw s with
  | case1 raw s e hs =>
    rw [inRawText, step_withoutHashes d raw h, hs]
    rfl
  | case2 raw s c rest hs after ih =>
    have hfree := h
    rw [(step_construct hs).1] at hfree
    have hafter : RawText.after d.withoutHashes raw c.joined = RawText.after d raw c := by
      cases c with
      | openTag name parts gap slash => cases slash <;> rfl
      | _ => rfl
    rw [inRawText, step_withoutHashes d raw h, hs]
    simp only [Step.joined, hafter, ih hfree.right]
    rfl

end Reading

/-- Fragments at their places as one literal, from the start of the first to the end of the last. -/
def joinLocated : List (Located Fragment) → List (Located Fragment)
  | [] => []
  | f :: fs => [⟨.literal ((f :: fs).flatMap fun g => g.value.source),
      ⟨f.span.start, fs.foldl (fun _ g => g.span.stop) f.span.stop⟩⟩]

/-- The kind of a token, with the text of a value as one literal. -/
def TokenKind.joined : TokenKind → TokenKind
  | attributeValue fragments => attributeValue (joinLocated fragments)
  | kind => kind

def Token.joined (t : Token) : Token := { t with kind := t.kind.joined }

section Tokens

theorem locate_map {α β : Type} {source : α → Text} {source' : β → Text} {f : α → β}
    (h : ∀ a, source' (f a) = source a) (p : Position) (as : List α) :
    locate source' p (as.map f) = (locate source p as).map fun x => ⟨f x.value, x.span⟩ := by
  induction as generalizing p with
  | nil => rfl
  | cons a as ih => simp [locate, h, ih]

theorem foldl_stop_locate {α : Type} (source : α → Text) (p : Position) (as : List α) :
    (locate source p as).foldl (fun _ x => x.span.stop) p = p.advance (as.flatMap source) := by
  induction as generalizing p with
  | nil => rfl
  | cons a as ih => simp [locate, Span.covering, ih]

theorem joinLocated_locate (p : Position) (fs : List Fragment) :
    joinLocated (locate Fragment.source p fs) = locate Fragment.source p (Fragment.joined fs) := by
  cases fs with
  | nil => rfl
  | cons f fs =>
    have hsource := flatMap_locate Fragment.source p (f :: fs)
    have hstop := foldl_stop_locate Fragment.source p (f :: fs)
    simp only [locate, List.foldl_cons] at hsource hstop
    simp only [locate, joinLocated, hsource, hstop]
    rfl

theorem Value.text_joined (v : Value) : v.joined.text = v.text := by
  simp only [text, joined, source_joined]

theorem Value.locatedFragments_joined (v : Value) (p : Position) :
    v.joined.locatedFragments p = joinLocated (v.locatedFragments p) := by
  rw [locatedFragments, locatedFragments, joinLocated_locate]
  rfl

theorem TagPart.source_joined (part : TagPart) : part.joined.source = part.source := by
  cases part with
  | stray s fault => rfl
  | «attribute» gap name value =>
    cases value with
    | none => rfl
    | some v =>
      simp only [joined, Option.map_some, source, v.text_joined]
      rfl

theorem flatMap_source_joined (parts : List TagPart) :
    (parts.map TagPart.joined).flatMap TagPart.source = parts.flatMap TagPart.source := by
  simp [List.flatMap_map, TagPart.source_joined]

theorem Construct.source_joined (c : Construct) : c.joined.source = c.source := by
  cases c with
  | openTag name parts gap slash => simp only [joined, source, flatMap_source_joined]
  | _ => rfl

theorem Ending.source_joined (e : Ending) : e.joined.source = e.source := by
  cases e <;> rfl

theorem TagPart.tokens_joined (p : Position) (part : TagPart) :
    part.joined.tokens p = (part.tokens p).map Token.joined := by
  cases part with
  | stray s fault => rfl
  | «attribute» gap name value =>
    cases value with
    | none => rfl
    | some v =>
      simp only [joined, Option.map_some, tokens, v.text_joined, v.locatedFragments_joined]
      rfl

theorem openTagTokens_joined (p : Position) (name : Text) (parts : List TagPart) :
    openTagTokens p name (parts.map TagPart.joined) =
      (openTagTokens p name parts).map Token.joined := by
  rw [openTagTokens, openTagTokens, locate_map TagPart.source_joined, List.map_cons,
    List.flatMap_map, List.map_flatMap]
  simp only [TagPart.tokens_joined]
  rfl

theorem closeTagTokens_joined (p : Position) (name : Text) (strays : List Stray) :
    (closeTagTokens p name strays).map Token.joined = closeTagTokens p name strays := by
  rw [closeTagTokens, List.map_cons, List.map_map]
  rfl

theorem Construct.tokens_joined (p : Position) (c : Construct) :
    c.joined.tokens p = (c.tokens p).map Token.joined := by
  cases c with
  | openTag name parts gap slash =>
    simp only [joined, tokens, openTagTokens_joined, flatMap_source_joined, List.map_append]
    rfl
  | closeTag name strays gap =>
    simp only [joined, tokens, List.map_append, closeTagTokens_joined]
    rfl
  | _ => rfl

theorem Ending.tokens_joined (p : Position) (e : Ending) :
    e.joined.tokens p = (e.tokens p).map Token.joined := by
  cases e with
  | openTag name parts text =>
    simp only [joined, tokens, openTagTokens_joined, List.map_append]
    rfl
  | closeTag name strays text =>
    simp only [joined, tokens, List.map_append, closeTagTokens_joined]
    rfl
  | comment opening text => cases opening <;> rfl
  | _ => rfl

theorem Reading.endingStart_joined (r : Reading) : r.joined.endingStart = r.endingStart := by
  simp [endingStart, joined, List.flatMap_map, Construct.source_joined]

theorem Reading.tokens_joined (r : Reading) : r.joined.tokens = r.tokens.map Token.joined := by
  rw [tokens, tokens, located, located, r.endingStart_joined, joined,
    locate_map Construct.source_joined, List.map_append, List.flatMap_map, List.map_flatMap,
    Ending.tokens_joined]
  simp only [Construct.tokens_joined]

end Tokens

/-- The attribute with the text of its value as one literal. -/
def Attribute.joined (a : Attribute) : Attribute := { a with value := a.value.map joinLocated }

def Element.joined (e : Element) : Element :=
  { e with attributes := e.attributes.map Attribute.joined }

mutual

/-- The tree with the text of each attribute value as one literal. -/
def Node.joined : Node → Node
  | .text content span => .text content span
  | .expression opening body closing span => .expression opening body closing span
  | .comment opening content closing span => .comment opening content closing span
  | .element e children => .element e.joined (Node.joinedAll children)

def Node.joinedAll : List Node → List Node
  | [] => []
  | node :: rest => node.joined :: Node.joinedAll rest

end

theorem Node.joinedAll_eq (nodes : List Node) : Node.joinedAll nodes = nodes.map Node.joined := by
  induction nodes with
  | nil => simp [Node.joinedAll]
  | cons node rest ih => simp [Node.joinedAll, ih]

@[simp] theorem Node.joined_element (e : Element) (children : List Node) :
    Node.joined (.element e children) = .element e.joined (children.map Node.joined) := by
  rw [Node.joined, Node.joinedAll_eq]

def Frame.joined (f : Frame) : Frame :=
  { f with
    attributes := f.attributes.map Attribute.joined
    children := f.children.map Node.joined }

/-- To join the fragments of values keeps the shape of the tree and all problems. -/
def joining : Relabeling where
  move := id
  span := id
  closeText := id
  node := Node.joined
  frame := Frame.joined
  problem := id
  start_span _ := rfl
  tag_frame _ := rfl
  openSpan_frame _ := rfl
  frame_append f nodes := by simp [Frame.joined, Frame.append, Relabeling.map_append_list]
  node_close f text s := by simp [Frame.close, Frame.element, Frame.joined, Element.joined]
  node_selfClosed f := by simp [Frame.element, Frame.joined, Element.joined]
  map_closeImplicitly f p := by
    by_cases h : closesOptionally f.tag = true <;>
      simp [Frame.closeImplicitly, Frame.element, Frame.joined, Element.joined, h]
  problem_of_mem _ _ _ := rfl

@[simp] theorem node_joining : joining.node = Node.joined := rfl

@[simp] theorem frame_joining : joining.frame = Frame.joined := rfl

@[simp] theorem problem_joining (qs : List (Located Problem)) : qs.map joining.problem = qs :=
  List.map_id qs

section Trees

variable (p : Position)

theorem tagAttributes_joined (name : Text) (parts : List TagPart) :
    tagAttributes p name (parts.map TagPart.joined) =
      (tagAttributes p name parts).map Attribute.joined := by
  rw [tagAttributes, tagAttributes, locate_map TagPart.source_joined, List.filterMap_map,
    List.map_filterMap]
  apply List.filterMap_congr
  intro part _
  cases hpart : part.value with
  | stray s fault => simp [hpart, TagPart.joined, TagPart.attribute?]
  | «attribute» gap name value =>
    cases value with
    | none => simp [hpart, TagPart.joined, TagPart.attribute?, Attribute.joined]
    | some v =>
      simp only [Function.comp_apply, hpart, TagPart.joined, Option.map_some, TagPart.attribute?,
        v.text_joined, v.locatedFragments_joined]
      rfl

theorem tagProblems_joined (name : Text) (parts : List TagPart) :
    tagProblems p name (parts.map TagPart.joined) = tagProblems p name parts := by
  rw [tagProblems, tagProblems, locate_map TagPart.source_joined, List.filterMap_map]
  apply List.filterMap_congr
  intro part _
  cases hpart : part.value with
  | stray s fault => simp [hpart, TagPart.joined]
  | «attribute» gap name value => simp [hpart, TagPart.joined, TagPart.problem?]

theorem nesting_step_joined (n : Nesting) (c : Construct) (span : Span) :
    (joining.nesting n).step ⟨c.joined, span⟩ = joining.nesting (n.step ⟨c, span⟩) := by
  have hsource := c.source_joined
  cases c with
  | openTag name parts gap slash =>
    simp only [Construct.joined] at hsource ⊢
    simp only [Nesting.step, Nesting.openTag, Relabeling.nesting_openElement,
      Relabeling.nesting_report, problem_joining, tagProblems_joined, tagAttributes_joined, hsource]
    simp [Frame.joined]
  | closeTag name strays gap =>
    simp only [Construct.joined, Nesting.step, Nesting.closeTag, Relabeling.nesting_closeElement,
      Relabeling.nesting_report, problem_joining]
    rfl
  | _ =>
    simp only [Construct.joined, Nesting.step, Relabeling.nesting_append]
    rfl

theorem nesting_foldl_joined (n : Nesting) (cs : List Construct) :
    (locate Construct.source p (cs.map Construct.joined)).foldl Nesting.step (joining.nesting n) =
      joining.nesting ((locate Construct.source p cs).foldl Nesting.step n) := by
  induction cs generalizing n p with
  | nil => rfl
  | cons c cs ih =>
    rw [List.map_cons, locate, locate, List.foldl_cons, List.foldl_cons, c.source_joined,
      nesting_step_joined, ih]

theorem finish_joined (n : Nesting) (e : Ending) :
    (joining.nesting n).finish p e.joined = joining.nesting (n.finish p e) := by
  have hproblems : Nesting.endingProblems p e.joined = Nesting.endingProblems p e := by
    cases e with
    | openTag name parts text =>
      simp only [Ending.joined, Nesting.endingProblems, tagProblems_joined]
    | _ => rfl
  have hnodes : Nesting.endingNodes p e.joined = (Nesting.endingNodes p e).map Node.joined := by
    cases e <;> rfl
  simp only [Nesting.finish, Relabeling.nesting_closeAll, Relabeling.nesting_append,
    Relabeling.nesting_report, problem_joining, node_joining, hproblems, hnodes, e.source_joined]
  rfl

/-- The tree of a reading with joined values is the joined tree. -/
theorem ofReading_joined (r : Reading) :
    Nesting.ofReading r.joined = joining.nesting (Nesting.ofReading r) := by
  have hconstructs := nesting_foldl_joined .start {} r.constructs
  have hempty : joining.nesting {} = {} := by simp [Relabeling.nesting]
  rw [hempty] at hconstructs
  rw [Nesting.ofReading, Nesting.ofReading, r.endingStart_joined, ← finish_joined]
  exact congrArg (fun n => n.finish r.endingStart r.ending.joined) hconstructs

end Trees

/-- Two kinds of token that agree but for the fragments of a value, whose texts agree. -/
def TokenKind.Agrees : TokenKind → TokenKind → Prop
  | attributeValue fs, attributeValue gs =>
    fs.flatMap (fun f => f.value.source) = gs.flatMap fun g => g.value.source
  | kind, kind' => kind = kind'

/-- Two tokens that agree but for the fragments of a value, whose texts agree. -/
structure Token.Agrees (t u : Token) : Prop where
  kind : t.kind.Agrees u.kind
  text : t.text = u.text
  span : t.span = u.span

theorem source_joinLocated (fs : List (Located Fragment)) :
    (joinLocated fs).flatMap (fun f => f.value.source) = fs.flatMap fun f => f.value.source := by
  cases fs with
  | nil => rfl
  | cons f fs => simp [joinLocated, Fragment.source]

theorem Token.agrees_joined (t : Token) : t.Agrees t.joined := by
  refine ⟨?_, rfl, rfl⟩
  rw [joined]
  cases t.kind with
  | attributeValue fragments => exact (source_joinLocated fragments).symm
  | _ => rfl

/-- Whether hash signs may hold expressions makes no difference to the tokens, the tree and the
diagnostics of a template without other expressions, but for how the values of attributes fall into
fragments: without them, the text of each value is one literal. -/
theorem Document.parse_withoutHashes (html : Bool) (name : Option String) {s : Text}
    (h : ¬ Delimiter.dollar.opening <:+: s) :
    List.Forall₂ Token.Agrees (tokenize ⟨html, true⟩ s) (tokenize ⟨html, false⟩ s) ∧
      (parse ⟨html, false⟩ name s).children =
        (parse ⟨html, true⟩ name s).children.map Node.joined ∧
      (parse ⟨html, false⟩ name s).diagnostics = (parse ⟨html, true⟩ name s).diagnostics := by
  have hread : Reading.ofText ⟨html, false⟩ s = (Reading.ofText ⟨html, true⟩ s).joined :=
    Reading.inRawText_withoutHashes ⟨html, true⟩ none h
  have htree := ofReading_joined (Reading.ofText ⟨html, true⟩ s)
  refine ⟨?_, ?_, ?_⟩
  · rw [tokenize, tokenize, hread, Reading.tokens_joined, List.forall₂_map_right_iff]
    exact List.forall₂_same.mpr fun t _ => t.agrees_joined
  · rw [children_eq, children_eq, hread, htree]
    simp [Relabeling.nesting]
  · rw [diagnostics_eq, diagnostics_eq, hread, htree]
    simp [Relabeling.nesting]

/-- A value without quotes and one that ends with the tag, both with an expression between hash
signs. -/
theorem Document.parse_withoutHashes_quoted :
    let s := "<a b=#c# d='x#y#z'/>".toList
    (¬ Delimiter.dollar.opening <:+: s ∧ tokenize ⟨true, false⟩ s ≠ tokenize ⟨true, true⟩ s) ∧
      List.Forall₂ Token.Agrees (tokenize ⟨true, true⟩ s) (tokenize ⟨true, false⟩ s) ∧
      (parse ⟨true, false⟩ none s).children =
        (parse ⟨true, true⟩ none s).children.map Node.joined ∧
      (parse ⟨true, false⟩ none s).diagnostics = (parse ⟨true, true⟩ none s).diagnostics := by
  have h : ¬ Delimiter.dollar.opening <:+: "<a b=#c# d='x#y#z'/>".toList := by decide +kernel
  exact ⟨⟨h, by decide +kernel⟩, parse_withoutHashes true none h⟩

end StoreMarkup
