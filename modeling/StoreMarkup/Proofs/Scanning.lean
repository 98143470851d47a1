import Mathlib.Data.List.TakeWhile
import StoreMarkup.Construct.Scan

/-! What a scan may leave between the parts of a tag, and how much of an unfinished construct the
parts that were read make up. -/
namespace StoreMarkup

/-- Text with nothing but blanks in it. -/
def Blank (t : Text) : Prop := ∀ c ∈ t, isBlank c = true

theorem blank_blanks (t : Text) : Blank (blanks t) := by
  intro c hc
  exact List.mem_takeWhile_imp hc

/-- An equals sign between blanks. -/
def Assigns (t : Text) : Prop := ∃ a b, t = a ++ '=' :: b ∧ Blank a ∧ Blank b

/-- Only blanks stand around what is known of a part, and its value shows its quote. -/
def TagPart.Tidy : TagPart → Prop
  | .attribute gap _ none => Blank gap
  | .attribute gap _ (some v) =>
    Blank gap ∧ Assigns v.lead ∧ v.text.head?.bind Quote.ofChar? = v.quote
  | .stray s _ => Blank s.gap

theorem Quote.ofChar?_char (q : Quote) : Quote.ofChar? q.char = some q := by
  cases q <;> rfl

/-- A value without quotes goes on until something ends it. -/
theorem source_ne_nil_of_valueFragments {d : Dialect} {quote : Option Quote} {c : Char}
    {cs rest : Text} {fs : List Fragment} (hc : valueEnd? quote c cs = none)
    (h : valueFragments d quote (c :: cs) = some (fs, rest)) : fs.flatMap Fragment.source ≠ [] := by
  rw [valueFragments, hc] at h
  simp only at h
  split at h
  · cases h
  · obtain ⟨⟨gs, r⟩, -, he⟩ := Option.map_eq_some_iff.mp h
    cases he
    simp [source_consLiteral]
  · obtain ⟨⟨gs, r⟩, -, he⟩ := Option.map_eq_some_iff.mp h
    rename_i delimiter body _ _
    cases he
    cases delimiter <;> simp [Fragment.source, Delimiter.opening]

/-- A value that starts with something other than a blank or the end of the tag is not empty. -/
theorem text_ne_nil_of_valueFragments {d : Dialect} {c : Char} {cs rest : Text} {fs : List Fragment}
    (lead : Text) (hblank : isBlank c = false) (hend : endsTag c cs = false)
    (h : valueFragments d (Quote.ofChar? c) (afterQuote c cs) = some (fs, rest)) :
    Value.text ⟨lead, Quote.ofChar? c, fs⟩ ≠ [] := by
  cases hq : Quote.ofChar? c with
  | some q => simp [Value.text, quoteMark]
  | none =>
    simp only [hq, afterQuote, Option.isSome_none, Bool.false_eq_true, if_false] at h
    have hgoes : valueEnd? none c cs = none := by
      simp only [endsTag, Bool.or_eq_false_iff] at hend
      simp [valueEnd?, hblank, hend.1, hend.2]
    have hne := source_ne_nil_of_valueFragments hgoes h
    simpa [Value.text, quoteMark] using hne

/-- The first character of a value tells its quote. -/
theorem quote_of_valueFragments {d : Dialect} {c : Char} {cs rest : Text} {fs : List Fragment}
    (lead : Text) (hblank : isBlank c = false) (hend : endsTag c cs = false)
    (h : valueFragments d (Quote.ofChar? c) (afterQuote c cs) = some (fs, rest)) :
    (Value.text ⟨lead, Quote.ofChar? c, fs⟩).head?.bind Quote.ofChar? = Quote.ofChar? c := by
  have hne := text_ne_nil_of_valueFragments lead hblank hend h
  have hs : c :: cs = Value.text ⟨lead, Quote.ofChar? c, fs⟩ ++ rest := by
    rw [← quoteMark_append_afterQuote, valueFragments_eq h]
    simp [Value.text]
  obtain ⟨b, bs, ht⟩ := List.exists_cons_of_ne_nil hne
  rw [ht] at hs
  obtain rfl : c = b := (List.cons.inj hs).1
  rw [ht]
  rfl

/-- What a step in an open tag makes sure of. -/
def TagStep.Tidy (s : Text) : TagStep → Prop
  | .more parts _ => ∀ part ∈ parts, part.Tidy
  | .close gap _ _ => Blank gap
  | .cutOff parts =>
    (∀ part ∈ parts, part.Tidy) ∧ ∃ rest, s = parts.flatMap TagPart.source ++ rest

theorem assignmentStep_tidy (d : Dialect) {gap before : Text} (name after : Text)
    (hgap : Blank gap) (hbefore : Blank before) :
    (assignmentStep d gap name before after).Tidy (gap ++ name ++ before ++ '=' :: after) := by
  have hcut : TagStep.Tidy (gap ++ name ++ before ++ '=' :: after)
      (.cutOff [.attribute gap name none]) := by
    refine ⟨by simpa [TagPart.Tidy] using hgap, before ++ '=' :: after, ?_⟩
    simp [TagPart.source]
  unfold assignmentStep
  split
  · exact hcut
  · rename_i c cs hd
    have hblank := isBlank_head_afterBlanks hd
    split
    · simpa [TagStep.Tidy, TagPart.Tidy] using ⟨hgap, hbefore⟩
    · rename_i hend
      split
      · exact hcut
      · rename_i fs rest hv
        have hquote := quote_of_valueFragments (before ++ '=' :: blanks after) hblank
          (by simpa using hend) hv
        simpa [TagStep.Tidy, TagPart.Tidy, hquote] using
          ⟨hgap, before, blanks after, rfl, hbefore, blank_blanks after⟩

theorem attributeStep_tidy (d : Dialect) {gap : Text} (s : Text) (hgap : Blank gap) :
    (attributeStep d gap s).Tidy (gap ++ s) := by
  unfold attributeStep
  split
  · exact ⟨by simp, gap ++ s, by simp⟩
  · rename_i name rest hn
    split
    · rename_i after hd
      have hs := blanks_append_afterBlanks rest
      rw [hd] at hs
      have h := assignmentStep_tidy d name after hgap (blank_blanks rest)
      rwa [List.append_assoc, hs, List.append_assoc, ← attributeName_eq hn] at h
    · simpa [TagStep.Tidy, TagPart.Tidy] using hgap

theorem tagStep_tidy (d : Dialect) (s : Text) : (tagStep d s).Tidy s := by
  have hblank := blank_blanks s
  have hnone : TagStep.Tidy s (.cutOff []) := ⟨by simp, s, by simp⟩
  unfold tagStep
  split
  · exact hnone
  · rename_i c cs hd
    have hs := blanks_append_afterBlanks s
    rw [hd] at hs
    split
    · exact hblank
    · split
      · split
        · exact hnone
        · simpa [TagStep.Tidy, TagPart.Tidy] using hblank
      · split
        · simpa [TagStep.Tidy, TagPart.Tidy] using hblank
        · have h := attributeStep_tidy d (c :: cs) hblank
          rwa [hs] at h

/-- What the scan of an open tag makes sure of. -/
def TagScan.Tidy (s : Text) : TagScan → Prop
  | .closed parts gap _ _ => (∀ part ∈ parts, part.Tidy) ∧ Blank gap
  | .cutOff parts =>
    (∀ part ∈ parts, part.Tidy) ∧ ∃ rest, s = parts.flatMap TagPart.source ++ rest

theorem scanTag_tidy (d : Dialect) (s : Text) : (scanTag d s).Tidy s := by
  fun_induction scanTag d s with
  | case1 s gap slash rest hs =>
    have h := tagStep_tidy d s
    rw [hs] at h
    exact ⟨by simp, h⟩
  | case2 s parts hs =>
    have h := tagStep_tidy d s
    rwa [hs] at h
  | case3 s parts rest hs ih =>
    have h := tagStep_tidy d s
    rw [hs] at h
    cases hr : scanTag d rest with
    | closed others gap slash after =>
      rw [hr] at ih
      exact ⟨by simpa using fun part hp => hp.elim (h part) (ih.1 part), ih.2⟩
    | cutOff others =>
      rw [hr] at ih
      obtain ⟨hothers, after, ha⟩ := ih
      refine ⟨by simpa using fun part hp => hp.elim (h part) (hothers part), after, ?_⟩
      rw [tagStep_more hs, ha]
      simp

/-- What the scan of a close tag makes sure of. -/
def CloseScan.Tidy (s : Text) : CloseScan → Prop
  | .closed strays gap _ => (∀ stray ∈ strays, Blank stray.gap) ∧ Blank gap
  | .cutOff strays =>
    (∀ stray ∈ strays, Blank stray.gap) ∧ ∃ rest, s = strays.flatMap Stray.source ++ rest

theorem blank_of_closeStep {s rest : Text} {stray : Stray} (h : closeStep s = .more stray rest) :
    Blank stray.gap := by
  have hblank := blank_blanks s
  unfold closeStep at h
  repeat' split at h
  all_goals cases h
  all_goals exact hblank

theorem blank_of_closeStep_close {s gap rest : Text} (h : closeStep s = .close gap rest) :
    Blank gap := by
  have hblank := blank_blanks s
  unfold closeStep at h
  repeat' split at h
  all_goals cases h
  exact hblank

theorem scanClose_tidy (s : Text) : (scanClose s).Tidy s := by
  fun_induction scanClose s with
  | case1 s gap rest hs => exact ⟨by simp, blank_of_closeStep_close hs⟩
  | case2 s hs => exact ⟨by simp, s, by simp⟩
  | case3 s stray rest hs ih =>
    have hstray := blank_of_closeStep hs
    cases hr : scanClose rest with
    | closed strays gap after =>
      rw [hr] at ih
      exact ⟨by simpa [hstray] using ih.1, ih.2⟩
    | cutOff strays =>
      rw [hr] at ih
      obtain ⟨hstrays, after, ha⟩ := ih
      refine ⟨by simpa [hstray] using hstrays, after, ?_⟩
      rw [(closeStep_more hs).1, ha]
      simp

/-- Only blanks stand around the parts of a tag. -/
def Construct.Tidy : Construct → Prop
  | openTag _ parts gap _ => (∀ part ∈ parts, part.Tidy) ∧ Blank gap
  | closeTag _ strays gap => (∀ stray ∈ strays, Blank stray.gap) ∧ Blank gap
  | _ => True

/-- What was read of an unfinished construct is what the rest of the template starts with. -/
def Ending.Tidy : Ending → Prop
  | clean => True
  | openTag name parts text => (∀ part ∈ parts, part.Tidy) ∧
      ∃ rest, text = '<' :: name ++ parts.flatMap TagPart.source ++ rest
  | closeTag name strays text => (∀ stray ∈ strays, Blank stray.gap) ∧
      ∃ rest, text = '<' :: '/' :: name ++ strays.flatMap Stray.source ++ rest
  | expression text => ∃ rest, text = Delimiter.dollar.opening ++ rest
  | comment none text => ∃ name rest, text = '<' :: name ++ rest ∧ canonicalName name = commentTag
  | comment (some opening) text => ∃ rest, text = opening ++ rest

namespace Reading

variable {d : Dialect} {raw : Option RawText} {s : Text}

theorem step_tidy {c : Construct} {rest : Text} (h : step d raw s = .construct c rest) :
    c.Tidy := by
  cases reads_of_step h with
  | @openTag _ _ after _ _ _ _ _ hscan =>
    have ht := scanTag_tidy d after
    rwa [hscan] at ht
  | @closeTag _ _ after _ _ _ _ hscan =>
    have ht := scanClose_tidy after
    rwa [hscan] at ht
  | _ => trivial

theorem tidy_comment {opening : Option Text} (ho : opener? d raw s = some .comment)
    (h : scanComment s = .cutOff opening) : (Ending.comment opening s).Tidy := by
  cases opening with
  | none =>
    cases opens_of_opener? ho with
    | @comment _ name rest hs hname => exact ⟨name, rest, by rw [splitName?_eq hs]; rfl, hname⟩
  | some opening =>
    obtain ⟨r, hthrough⟩ := throughBracket?_of_cutOff h
    exact ⟨r, (throughBracket?_eq hthrough).1⟩

theorem step_ending_tidy {e : Ending} (h : step d raw s = .ending e) : e.Tidy := by
  cases reads_of_step h with
  | clean => trivial
  | unclosedExpression ho _ => exact ⟨_, opener?_expression ho⟩
  | unclosedComment ho hscan => exact tidy_comment ho hscan
  | @unclosedOpenTag _ _ after _ ho hscan =>
    have ht := scanTag_tidy d after
    rw [hscan] at ht
    obtain ⟨hparts, rest, hr⟩ := ht
    refine ⟨hparts, rest, ?_⟩
    rw [opener?_openTag ho, hr]
    simp
  | @unclosedCloseTag _ _ after _ ho hscan =>
    have ht := scanClose_tidy after
    rw [hscan] at ht
    obtain ⟨hstrays, rest, hr⟩ := ht
    refine ⟨hstrays, rest, ?_⟩
    rw [opener?_closeTag ho, hr]
    simp

theorem inRawText_tidy (d : Dialect) (raw : Option RawText) (s : Text) :
    (∀ c ∈ (inRawText d raw s).constructs, c.Tidy) ∧ (inRawText d raw s).ending.Tidy := by
  fun_induction inRawText d raw s with
  | case1 raw s e h => exact ⟨by simp, step_ending_tidy h⟩
  | case2 raw s c rest h after ih => exact ⟨by simpa [step_tidy h] using ih.1, ih.2⟩

end Reading

end StoreMarkup
