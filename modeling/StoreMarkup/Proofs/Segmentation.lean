import StoreMarkup.Proofs.Locality
import StoreMarkup.Proofs.TokenStream

/-! Which constructs a text can be cut into: any that are read alone as what they are, with no two
pieces of text next to each other, and there is only one way. -/
namespace StoreMarkup

/-- A text that no tag name goes on in. -/
def NameStops (r : Text) : Prop := ∀ c ∈ r.head?, isNameChar c = false

/-- A tag name and what follows it. It starts with an ASCII letter and is a longest run of name
characters. -/
structure TagName (name after : Text) : Prop where
  letter : ∃ c ∈ name.head?, c.isAlpha = true
  chars : ∀ c ∈ name, isNameChar c = true
  stops : NameStops after

section Names

variable {c : Char} {name s rest r r' : Text}

theorem isNameChar_of_isNameStart (h : isNameStart c = true) : isNameChar c = true := by
  have htable : alphanumericRanges =
      (0x30, 0x39) :: (0x41, 0x5A) :: (0x61, 0x7A) :: alphanumericRanges.drop 3 := rfl
  have hletter : 65 ≤ c.toNat ∧ c.toNat ≤ 90 ∨ 97 ≤ c.toNat ∧ c.toNat ≤ 122 := by
    have hbounds : (decide ('A'.val ≤ c.val ∧ c.val ≤ 'Z'.val) ||
        (decide ('a'.val ≤ c.val) && decide (c.val ≤ 'z'.val))) = true := h
    simp only [Bool.or_eq_true, Bool.and_eq_true, decide_eq_true_eq, UInt32.le_iff_toNat_le]
      at hbounds
    exact hbounds
  have halpha : isAlphanumeric c = true := by
    rw [isAlphanumeric, htable]
    simp only [CharRanges.member]
    rcases hletter with hl | hl <;> simp <;> omega
  simp [isNameChar, halpha]

/-- The characters that constructs start and end with are in no tag name. -/
theorem isNameChar_delimiter (h : c ∈ ['<', '>', '/', '$']) : isNameChar c = false := by
  simp only [List.mem_cons, List.not_mem_nil, or_false] at h
  rcases h with rfl | rfl | rfl | rfl <;> rfl

theorem splitName?_append (hr : NameStops r) (w : Text) :
    splitName? (w ++ r) = (splitName? w).map fun (name, rest) => (name, rest ++ r) := by
  cases w with
  | nil =>
    cases r with
    | nil => rfl
    | cons b bs =>
      have hb : isNameStart b = false := by
        have hchar := hr b rfl
        by_contra hstart
        rw [isNameChar_of_isNameStart (by simpa using hstart)] at hchar
        cases hchar
      simp [splitName?, hb]
  | cons c w =>
    have hstop : r.takeWhile isNameChar = [] ∧ r.dropWhile isNameChar = r := by
      cases r with
      | nil => exact ⟨rfl, rfl⟩
      | cons b bs => simp [hr b rfl]
    by_cases hc : isNameStart c = true
    · have htake : (c :: w ++ r).takeWhile isNameChar = (c :: w).takeWhile isNameChar := by
        rw [List.takeWhile_append, hstop.1]
        split
        · rename_i hall
          rw [List.append_nil, (List.takeWhile_prefix isNameChar).eq_of_length hall]
        · rfl
      have hdrop : (c :: w ++ r).dropWhile isNameChar = (c :: w).dropWhile isNameChar ++ r := by
        rw [List.dropWhile_append, hstop.2]
        split
        · rename_i hnone
          rw [List.isEmpty_iff.mp hnone, List.nil_append]
        · rfl
      rw [List.cons_append] at htake hdrop
      simp [splitName?, hc, htake, hdrop]
    · simp [splitName?, hc]

theorem splitName?_eq_some (h : splitName? s = some (name, rest)) :
    name = s.takeWhile isNameChar ∧ rest = s.dropWhile isNameChar := by
  cases s with
  | nil => cases h
  | cons c cs =>
    simp only [splitName?] at h
    split at h
    · cases h
      exact ⟨rfl, rfl⟩
    · cases h

theorem nameStops_of_splitName? (h : splitName? s = some (name, rest)) : NameStops rest := by
  obtain ⟨-, rfl⟩ := splitName?_eq_some h
  intro b hb
  have hstop := List.head?_dropWhile_not isNameChar s
  rw [Option.mem_def.mp hb] at hstop
  simpa using hstop

/-- A name is cut off at the same place before anything that no name goes on in. -/
theorem splitName?_of_stops (h : splitName? s = some (name, rest)) (hr : NameStops r) :
    splitName? (name ++ r) = some (name, r) := by
  have hself := splitName?_append (nameStops_of_splitName? h) name
  rw [← splitName?_eq h, h] at hself
  obtain ⟨⟨name', rest'⟩, hname, he⟩ := Option.map_eq_some_iff.mp hself.symm
  obtain ⟨rfl, rfl⟩ := by simpa using he
  rw [splitName?_append hr, hname]
  rfl

/-- Names are cut off where they end. -/
theorem splitName?_eq_some_iff :
    splitName? s = some (name, rest) ↔ s = name ++ rest ∧ TagName name rest := by
  constructor
  · intro h
    refine ⟨splitName?_eq h, ?_, ?_, nameStops_of_splitName? h⟩
    · have hself := splitName?_of_stops h (r := []) (by simp [NameStops])
      rw [List.append_nil] at hself
      cases name with
      | nil => cases hself
      | cons c name =>
        rw [splitName?] at hself
        split at hself
        · exact ⟨c, rfl, ‹_›⟩
        · cases hself
    · intro c hc
      rw [(splitName?_eq_some h).1] at hc
      exact List.mem_takeWhile_imp hc
  · rintro ⟨rfl, ⟨c, hc, hletter⟩, hchars, hstops⟩
    obtain ⟨name, rfl⟩ := List.head?_eq_some_iff.mp hc
    have hstart : isNameStart c = true := hletter
    have halone : splitName? (c :: name) = some (c :: name, []) := by
      rw [splitName?, if_pos hstart, List.takeWhile_eq_self_iff.mpr hchars,
        List.dropWhile_eq_nil_iff.mpr hchars]
    exact splitName?_of_stops halone hstops

theorem NameStops.of_append {v : Text} (h : NameStops (v ++ r)) (hr : NameStops r') :
    NameStops (v ++ r') := by
  cases v with
  | nil => exact hr
  | cons b v => exact h

theorem nameStops_tagEnd (slash : Bool) (r : Text) : NameStops (tagEnd slash ++ r) := by
  intro c hc
  apply isNameChar_delimiter
  cases slash <;> cases hc <;> simp

theorem bracket_notMem_of_splitName? (h : splitName? s = some (name, rest)) : '>' ∉ name := by
  obtain ⟨rfl, -⟩ := splitName?_eq_some h
  intro hmem
  have hbracket : isNameChar '>' = false := isNameChar_delimiter (by simp)
  rw [List.mem_takeWhile_imp hmem] at hbracket
  cases hbracket

end Names

section Opener

variable {d : Dialect} {raw : Option RawText} {s name after : Text}

/-- What may follow text: nothing, or the first character of another construct. -/
def Begins (r : Text) : Prop := r = [] ∨ r.head? = some '<' ∨ r.head? = some '$'

theorem begins_of_opener? {r : Text} (h : r = [] ∨ (opener? d raw r).isSome = true) : Begins r := by
  rcases h with rfl | h
  · exact Or.inl rfl
  · obtain ⟨o, ho⟩ := Option.isSome_iff_exists.mp h
    right
    cases opens_of_opener? ho with
    | expression inner => exact Or.inr rfl
    | _ => exact Or.inl rfl

theorem Begins.head? {r : Text} (h : Begins r) {c : Char} (hc : c ∈ r.head?) :
    c = '<' ∨ c = '$' := by
  rcases h with rfl | h | h
  · cases hc
  · exact Or.inl (Option.some.inj (hc.symm.trans h))
  · exact Or.inr (Option.some.inj (hc.symm.trans h))

theorem Begins.nameStops {r : Text} (h : Begins r) : NameStops r := by
  intro c hc
  apply isNameChar_delimiter
  rcases h.head? hc with rfl | rfl <;> simp

theorem isSome_closeOpener?_append {r : Text} (hr : NameStops r) (w : Text) :
    (closeOpener? d raw (w ++ r)).isSome = (closeOpener? d raw w).isSome := by
  rw [closeOpener?, closeOpener?, splitName?_append hr]
  cases splitName? w with
  | none => rfl
  | some found => simp only [Option.map_some]; split <;> rfl

theorem isSome_openOpener?_append {r : Text} (hr : NameStops r) (w : Text) :
    (openOpener? d raw (w ++ r)).isSome = (openOpener? d raw w).isSome := by
  rw [openOpener?, openOpener?, splitName?_append hr]
  cases splitName? w with
  | none => rfl
  | some found =>
    simp only [Option.map_some]
    split
    · rfl
    · split <;> rfl

/-- Whether a construct starts at a character of a text is not decided by what follows the text. -/
theorem isSome_opener?_append {r : Text} (hr : Begins r) (c : Char) (w : Text) :
    (opener? d raw (c :: w ++ r)).isSome = (opener? d raw (c :: w)).isSome := by
  have hnext : ∀ b, b ≠ '<' → b ≠ '$' → r.head? ≠ some b := by
    intro b hlt hdollar hb
    rcases hr.head? hb with rfl | rfl
    · exact hlt rfl
    · exact hdollar rfl
  by_cases hlt : c = '<'
  · subst hlt
    by_cases hslash : w.head? = some '/'
    · obtain ⟨cs, rfl⟩ := List.head?_eq_some_iff.mp hslash
      exact isSome_closeOpener?_append hr.nameStops cs
    · have hslash' : (w ++ r).head? ≠ some '/' := by
        rw [List.head?_append]
        cases w with
        | nil => simpa using hnext '/' (by decide) (by decide)
        | cons b w => simpa using hslash
      rw [List.cons_append, opener?_open hslash, opener?_open hslash']
      exact isSome_openOpener?_append hr.nameStops w
  · by_cases hdollar : c = '$'
    · subst hdollar
      cases w with
      | nil =>
        have hbrace := hnext '{' (by decide) (by decide)
        clear hnext
        unfold opener?
        split <;> simp_all
      | cons b w =>
        by_cases hb : b = '{'
        · subst hb
          rfl
        · unfold opener?
          split <;> simp_all
    · unfold opener?
      split <;> simp_all

theorem opener?_append_eq_none {c : Char} {t rest r : Text}
    (h : opener? d raw (c :: t ++ rest) = none) (hrest : Begins rest) (hr : Begins r) :
    opener? d raw (c :: t ++ r) = none := by
  rw [← Option.not_isSome_iff_eq_none] at h ⊢
  rwa [isSome_opener?_append hr, ← isSome_opener?_append hrest]

theorem begins_of_textRun {t rest : Text} (h : textRun d raw s = (t, rest)) : Begins rest := by
  have hstops := textRun_stops d raw s
  rw [h] at hstops
  exact begins_of_opener? hstops

/-- A run of text is the same run before anything that a construct starts at. -/
theorem textRun_append {t rest r : Text} (h : textRun d raw s = (t, rest))
    (hr : r = [] ∨ (opener? d raw r).isSome = true) : textRun d raw (t ++ r) = (t, r) := by
  induction t generalizing s with
  | nil =>
    cases r with
    | nil => rfl
    | cons b r => simp [textRun, hr.resolve_left (List.cons_ne_nil b r)]
  | cons c t ih =>
    cases s with
    | nil => cases h
    | cons b s =>
      simp only [textRun] at h
      split at h
      · cases h
      · rename_i hnone
        obtain ⟨⟨rfl, ht⟩, hrest⟩ := by simpa using h
        have hrun : textRun d raw s = (t, rest) := Prod.ext ht hrest
        have hs : t ++ rest = s := by simpa [hrun] using textRun_eq d raw s
        rw [Option.not_isSome_iff_eq_none, ← hs] at hnone
        have hnone' := opener?_append_eq_none hnone (begins_of_textRun hrun) (begins_of_opener? hr)
        simp only [List.cons_append] at hnone' ⊢
        simp [textRun, hnone', ih hrun]

end Opener

section Comment

variable {s t r : Text}

theorem exists_of_throughBracket?_append {u v : Text} (hu : '>' ∉ u)
    (h : throughBracket? (u ++ v) = some (t, r)) : ∃ w, w ≠ [] ∧ t = u ++ w := by
  induction u generalizing t with
  | nil => exact ⟨t, (throughBracket?_eq h).2, rfl⟩
  | cons c u ih =>
    have hc : c ≠ '>' := fun he => hu (he ▸ List.mem_cons_self)
    rw [List.cons_append, throughBracket?, if_neg hc] at h
    obtain ⟨t', ht, rfl⟩ := afterText_eq_some.mp h
    obtain ⟨w, hw, rfl⟩ := ih (fun hmem => hu (List.mem_cons_of_mem c hmem)) ht
    exact ⟨w, hw, rfl⟩

theorem throughBracket?_of_scanComment {opening content closing : Text}
    (h : scanComment s = .closed opening content closing r) :
    ∃ r', throughBracket? s = some (opening, r') := by
  unfold scanComment at h
  split at h
  · cases h
  · rename_i o r' ho
    split at h
    · cases h
      exact ⟨_, ho⟩
    · split at h
      · cases h
      · cases h
        exact ⟨_, ho⟩

end Comment

namespace Reading

variable {d : Dialect} {raw : Option RawText} {s rest : Text}

/-- An open tag is read in the same way whatever follows it, and with a slash at its end as without
one, unless the slash comes after another. -/
theorem step_openTag_append {name gap : Text} {parts : List TagPart} {slash slash' : Bool}
    (h : step d raw s = .construct (.openTag name parts gap slash) rest) (r : Text)
    (hslash : slash' = slash ∨
      slash' = true ∧ (parts.flatMap TagPart.source ++ gap).getLast? ≠ some '/') :
    step d raw (Construct.source (.openTag name parts gap slash') ++ r) =
      .construct (.openTag name parts gap slash') r := by
  cases reads_of_step h with
  | openTag ho hscan =>
    cases opens_of_opener? ho with
    | openTag hs hne hname =>
      have hstops := nameStops_of_splitName? hs
      rw [scanTag_closed hscan, List.append_assoc] at hstops
      have hstops' := hstops.of_append (nameStops_tagEnd slash' r)
      rw [← List.append_assoc] at hstops'
      have hname' := opener?_of_opens (.openTag (splitName?_of_stops hs hstops') hne hname)
      have hread := step_of_reads (.openTag hname' (scanTag_append hscan r hslash))
      simpa [Construct.source] using hread

theorem step_closeTag_append {name gap : Text} {strays : List Stray}
    (h : step d raw s = .construct (.closeTag name strays gap) rest) (r : Text) :
    step d raw (Construct.source (.closeTag name strays gap) ++ r) =
      .construct (.closeTag name strays gap) r := by
  cases reads_of_step h with
  | closeTag ho hscan =>
    cases opens_of_opener? ho with
    | closeTag hs hname =>
      have hstops := nameStops_of_splitName? hs
      rw [scanClose_closed hscan] at hstops
      have hstops' := hstops.of_append (nameStops_tagEnd false r)
      have hname' := opener?_of_opens (.closeTag (splitName?_of_stops hs hstops') hname)
      have hread := step_of_reads (.closeTag hname' (scanClose_append hscan r))
      simpa [Construct.source, tagEnd] using hread

theorem step_comment_append {opening content closing : Text}
    (h : step d raw s = .construct (.comment opening content closing) rest) (r : Text) :
    step d raw (Construct.source (.comment opening content closing) ++ r) =
      .construct (.comment opening content closing) r := by
  cases reads_of_step h with
  | comment ho hscan =>
    cases opens_of_opener? ho with
    | @comment cs name after hs hname =>
      -- The name cannot reach over the bracket, so it is followed by the same character as before.
      obtain ⟨w, hw, rfl⟩ : ∃ w, w ≠ [] ∧ opening = '<' :: name ++ w := by
        obtain ⟨r', hthrough⟩ := throughBracket?_of_scanComment hscan
        rw [splitName?_eq hs, ← List.cons_append] at hthrough
        refine exists_of_throughBracket?_append ?_ hthrough
        simpa using bracket_notMem_of_splitName? hs
      have hafter : after = w ++ (content ++ closing ++ rest) := by
        have hsource := (scanComment_closed hscan).1
        rw [splitName?_eq hs] at hsource
        simpa using hsource
      obtain ⟨b, w, rfl⟩ := List.exists_cons_of_ne_nil hw
      have hstops := nameStops_of_splitName? hs
      rw [hafter] at hstops
      have hstops' : NameStops (b :: w ++ (content ++ closing ++ r)) := hstops
      have hscan' := scanComment_append hscan r
      have hname' : opener? d raw ('<' :: (name ++ (b :: w ++ (content ++ closing ++ r)))) =
          some .comment := opener?_of_opens (.comment (splitName?_of_stops hs hstops') hname)
      refine step_of_reads (.comment ?_ hscan')
      simpa [Construct.source] using hname'

/-- A construct is read in the same way whatever follows it, but for text, which goes on up to the
next construct. -/
theorem step_append {c : Construct} (h : step d raw s = .construct c rest) {r : Text}
    (hr : c.isText = true → r = [] ∨ (opener? d raw r).isSome = true) :
    step d raw (c.source ++ r) = .construct c r := by
  cases c with
  | text t =>
    cases reads_of_step h with
    | @text b cs t _ hnone hrun =>
      have hcs : t ++ rest = cs := by simpa [hrun] using textRun_eq d raw cs
      rw [← hcs] at hnone
      have hnone' := opener?_append_eq_none hnone (begins_of_textRun hrun)
        (begins_of_opener? (hr rfl))
      exact step_of_reads (.text hnone' (textRun_append hrun (hr rfl)))
  | openTag => exact step_openTag_append h r (Or.inl rfl)
  | closeTag => exact step_closeTag_append h r
  | comment => exact step_comment_append h r
  | expression body =>
    cases reads_of_step h with
    | expression _ hbody =>
      have ho : opener? d raw (Construct.source (.expression body) ++ r) =
          some (.expression (body ++ '}' :: r)) := by
        simp [Construct.source, Delimiter.opening, Delimiter.closing, opener?]
      exact step_of_reads (.expression ho (expressionBody_append hbody r))

/-- Constructs of which each, in the raw text that it stands in, is read alone as what it is. -/
def Stands (d : Dialect) : Option RawText → List Construct → Prop
  | _, [] => True
  | raw, c :: cs => step d raw c.source = .construct c [] ∧ Stands d (RawText.after d raw c) cs

@[simp] theorem stands_append {cs ds : List Construct} : Stands d raw (cs ++ ds) ↔
    Stands d raw cs ∧ Stands d (cs.foldl (RawText.after d) raw) ds := by
  induction cs generalizing raw with
  | nil => simp [Stands]
  | cons c cs ih => simp [Stands, ih, and_assoc]

/-- Whether two texts stand side by side is told by which constructs are texts. -/
theorem separate_of_map_isText {cs cs' : List Construct}
    (h : cs.map Construct.isText = cs'.map Construct.isText)
    (hcs : cs.IsChain fun a b => ¬ (a.isText = true ∧ b.isText = true)) :
    cs'.IsChain fun a b => ¬ (a.isText = true ∧ b.isText = true) := by
  have hmap : ∀ cs : List Construct, cs.IsChain (fun a b => ¬ (a.isText = true ∧ b.isText = true)) ↔
      (cs.map Construct.isText).IsChain fun a b => ¬ (a = true ∧ b = true) := by
    intro cs
    rw [List.isChain_map]
  rw [hmap] at hcs ⊢
  rwa [← h]

/-- A reading that the text of its parts is cut into again. -/
structure Segmented (d : Dialect) (raw : Option RawText) (r : Reading) : Prop where
  stands : Stands d raw r.constructs
  separate : r.constructs.IsChain fun a b => ¬ (a.isText = true ∧ b.isText = true)
  ends : step d (r.constructs.foldl (RawText.after d) raw) r.ending.source = .ending r.ending

theorem segmented_inRawText (d : Dialect) (raw : Option RawText) (s : Text) :
    (inRawText d raw s).Segmented d raw := by
  refine ⟨?_, separate_inRawText d raw s, ?_⟩
  · fun_induction inRawText d raw s with
    | case1 => trivial
    | case2 raw s c rest h after ih =>
      have halone := step_append h (r := []) fun _ => Or.inl rfl
      rw [List.append_nil] at halone
      exact ⟨halone, ih⟩
  · fun_induction inRawText d raw s with
    | case1 raw s e h => rwa [List.foldl_nil, source_of_step_ending h]
    | case2 raw s c rest h after ih => exact ih

theorem inRawText_of_ending {e : Ending} (h : step d raw s = .ending e) :
    inRawText d raw s = ⟨[], e⟩ := by
  rw [inRawText]
  split
  · rename_i he
    rw [he] at h
    cases h
    rfl
  · rename_i hc
    rw [hc] at h
    cases h

theorem inRawText_of_step {c : Construct} (h : step d raw s = .construct c rest) :
    inRawText d raw s =
    ⟨c :: (inRawText d (RawText.after d raw c) rest).constructs,
      (inRawText d (RawText.after d raw c) rest).ending⟩ := by
  rw [inRawText]
  split
  · rename_i he
    rw [he] at h
    cases h
  · rename_i hc
    rw [hc] at h
    cases h
    rfl

/-- A template whose first construct is not text is over, or a construct starts there. -/
theorem opener?_of_head (h : ∀ c ∈ (inRawText d raw s).constructs.head?, c.isText = false) :
    s = [] ∨ (opener? d raw s).isSome = true := by
  cases s with
  | nil => exact Or.inl rfl
  | cons b bs =>
    right
    by_contra hnone
    rw [Option.not_isSome_iff_eq_none] at hnone
    cases hstep : step d raw (b :: bs) with
    | ending e => cases reads_of_step hstep <;> simp_all
    | construct c rest =>
      rw [inRawText_of_step hstep] at h
      have htext := (isText_of_step hstep).mpr hnone
      rw [h c rfl] at htext
      cases htext

/-- A template is read as the one segmented reading that it is made of. -/
theorem inRawText_eq_iff {r : Reading} :
    inRawText d raw s = r ↔ r.Segmented d raw ∧ r.source = s := by
  constructor
  · rintro rfl
    exact ⟨segmented_inRawText d raw s, source_inRawText d raw s⟩
  · rintro ⟨h, rfl⟩
    obtain ⟨cs, e⟩ := r
    induction cs generalizing raw with
    | nil =>
      have hends : step d raw e.source = .ending e := h.ends
      rw [source, List.flatMap_nil, List.nil_append, inRawText]
      split
      · rename_i he
        rw [hends] at he
        cases he
        rfl
      · rename_i hc
        rw [hends] at hc
        cases hc
    | cons c cs ih =>
      obtain ⟨hstep, hstands⟩ := h.stands
      have hrest := ih ⟨hstands, h.separate.tail, h.ends⟩
      have hnext : step d raw (c.source ++ source ⟨cs, e⟩) = .construct c (source ⟨cs, e⟩) := by
        refine step_append hstep ?_
        intro htext
        have hsame : RawText.after d raw c = raw := by
          cases c with
          | text => rfl
          | _ => cases htext
        rw [hsame] at hrest
        refine opener?_of_head ?_
        rw [hrest]
        intro b hb
        have hsep := (List.isChain_cons.mp h.separate).1 b hb
        simpa [htext] using hsep
      have hsource : source ⟨c :: cs, e⟩ = c.source ++ source ⟨cs, e⟩ := by simp [source]
      rw [hsource, inRawText_of_step hnext, hrest]

end Reading

end StoreMarkup
