import StoreMarkup.Proofs.Segmentation

/-! The case of ASCII letters: tag names, comments and points do not depend on it. -/
namespace StoreMarkup

/-- A text up to the case of its ASCII letters. -/
def Text.uncased (t : Text) : Text := t.map Char.toLower

def asciiLetters : List Char :=
  (List.range 26).flatMap fun i => [Char.ofNat (0x41 + i), Char.ofNat (0x61 + i)]

/-- Characters that tags and lines end or start with. -/
def delimiters : List Char := ['<', '/', '>', '\n']

/-- What all letters have in common. -/
structure Letter (c : Char) : Prop where
  toLower_mem : c.toLower ∈ asciiLetters
  lowerChar_eq : lowerChar c.toLower = lowerChar c
  isBlank_eq : isBlank c = false
  isNameChar_eq : isNameChar c = true
  isNameStart_eq : isNameStart c = true
  isCased_eq : isCased c = true
  isCaseIgnorable_eq : isCaseIgnorable c = false
  toNat_ne_sigma : c.toNat ≠ 0x3A3
  notMem_delimiters : c ∉ delimiters

section Letters

variable {c b : Char}

theorem letter_of_mem (hc : c ∈ asciiLetters) : Letter c := by
  -- A search of the list: a statement on all characters would be decided by trying each of them.
  have hletters : (asciiLetters.all fun c => c.toLower ∈ asciiLetters ∧
      lowerChar c.toLower = lowerChar c ∧ isBlank c = false ∧ isNameChar c = true ∧
      isNameStart c = true ∧ isCased c = true ∧ isCaseIgnorable c = false ∧ c.toNat ≠ 0x3A3 ∧
      c ∉ delimiters) = true := by decide +kernel
  obtain ⟨hmem, hlower, hblank, hname, hstart, hcased, hignorable, hsigma, hdelimiter⟩ :=
    of_decide_eq_true (List.all_eq_true.mp hletters c hc)
  exact ⟨hmem, hlower, hblank, hname, hstart, hcased, hignorable, hsigma, hdelimiter⟩

/-- The change to small letters changes letters, and nothing else. -/
theorem toLower_cases (c : Char) : c.toLower = c ∨ c ∈ asciiLetters := by
  by_cases hupper : c.val ≥ 'A'.val ∧ c.val ≤ 'Z'.val
  · have hbounds : 0x41 ≤ c.toNat ∧ c.toNat ≤ 0x5A := by
      rw [ge_iff_le, UInt32.le_iff_toNat_le, UInt32.le_iff_toNat_le] at hupper
      exact hupper
    refine .inr (List.mem_flatMap.mpr ⟨c.toNat - 0x41, List.mem_range.mpr (by omega), ?_⟩)
    rw [Nat.add_sub_cancel' hbounds.1, Char.ofNat_toNat]
    exact List.mem_cons_self ..
  · exact .inl (dif_neg hupper)

/-- What is the same for all letters does not depend on their case. -/
theorem apply_toLower {α : Type} {f : Char → α} {a : α} (h : ∀ c, Letter c → f c = a) (c : Char) :
    f c.toLower = f c := by
  rcases toLower_cases c with hc | hc
  · rw [hc]
  · have hletter := letter_of_mem hc
    rw [h c hletter, h _ (letter_of_mem hletter.toLower_mem)]

theorem isBlank_toLower (c : Char) : isBlank c.toLower = isBlank c :=
  apply_toLower (fun _ h => h.isBlank_eq) c

theorem isNameChar_toLower (c : Char) : isNameChar c.toLower = isNameChar c :=
  apply_toLower (fun _ h => h.isNameChar_eq) c

theorem isNameStart_toLower (c : Char) : isNameStart c.toLower = isNameStart c :=
  apply_toLower (fun _ h => h.isNameStart_eq) c

theorem isCased_toLower (c : Char) : isCased c.toLower = isCased c :=
  apply_toLower (fun _ h => h.isCased_eq) c

theorem isCaseIgnorable_toLower (c : Char) : isCaseIgnorable c.toLower = isCaseIgnorable c :=
  apply_toLower (fun _ h => h.isCaseIgnorable_eq) c

/-- A delimiter is no letter and is found in the same places. -/
theorem toLower_eq_iff (hb : b ∈ delimiters) : c.toLower = b ↔ c = b := by
  have hnone : ∀ c, Letter c → decide (c = b) = false := by
    intro c h
    rw [decide_eq_false_iff_not]
    rintro rfl
    exact h.notMem_delimiters hb
  rw [← decide_eq_decide]
  exact apply_toLower hnone c

theorem toNat_toLower_eq_sigma (c : Char) : c.toLower.toNat = 0x3A3 ↔ c.toNat = 0x3A3 := by
  have hnone : ∀ c, Letter c → decide (c.toNat = 0x3A3) = false := by
    intro c h
    exact decide_eq_false h.toNat_ne_sigma
  rw [← decide_eq_decide]
  exact apply_toLower hnone c

theorem next_toLower (p : Position) (c : Char) : p.next c.toLower = p.next c := by
  have hlineFeed : c.toLower = '\n' ↔ c = '\n' := toLower_eq_iff (by simp [delimiters])
  simp only [Position.next, hlineFeed]

theorem lowerChar_toLower (c : Char) : lowerChar c.toLower = lowerChar c := by
  rcases toLower_cases c with hc | hc
  · rw [hc]
  · exact (letter_of_mem hc).lowerChar_eq

end Letters

section Texts

variable (s t : Text)

@[simp] theorem uncased_nil : Text.uncased [] = [] := rfl

@[simp] theorem uncased_cons (c : Char) : Text.uncased (c :: t) = c.toLower :: t.uncased := rfl

@[simp] theorem uncased_append : Text.uncased (s ++ t) = s.uncased ++ t.uncased := List.map_append

@[simp] theorem length_uncased : t.uncased.length = t.length := List.length_map _

theorem takeWhile_uncased {p : Char → Bool} (h : ∀ c, p c.toLower = p c) :
    t.uncased.takeWhile p = Text.uncased (t.takeWhile p) := by
  rw [Text.uncased, List.takeWhile_map]
  have hp : p ∘ Char.toLower = p := funext h
  rw [hp]
  rfl

theorem dropWhile_uncased {p : Char → Bool} (h : ∀ c, p c.toLower = p c) :
    t.uncased.dropWhile p = Text.uncased (t.dropWhile p) := by
  rw [Text.uncased, List.dropWhile_map]
  have hp : p ∘ Char.toLower = p := funext h
  rw [hp]
  rfl

theorem advance_uncased (p : Position) : p.advance t.uncased = p.advance t := by
  induction t generalizing p with
  | nil => rfl
  | cons c t ih =>
    change (p.next c.toLower).advance (Text.uncased t) = (p.next c).advance t
    rw [next_toLower, ih]

theorem nextIsCased_uncased : nextIsCased t.uncased = nextIsCased t := by
  rw [nextIsCased, dropWhile_uncased t isCaseIgnorable_toLower, nextIsCased]
  cases t.dropWhile isCaseIgnorable with
  | nil => rfl
  | cons c cs => exact isCased_toLower c

theorem lowerAfter_uncased (before : Text) :
    lowerAfter before.uncased t.uncased = lowerAfter before t := by
  induction t generalizing before with
  | nil => rfl
  | cons c cs ih =>
    have hrest := ih (c :: before)
    rw [uncased_cons] at hrest
    rw [uncased_cons, lowerAfter, lowerAfter, hrest, nextIsCased_uncased, nextIsCased_uncased,
      lowerChar_toLower]
    simp only [toNat_toLower_eq_sigma]

theorem canonicalName_uncased (name : Text) : canonicalName name.uncased = canonicalName name :=
  lowerAfter_uncased name []

theorem splitName?_uncased :
    splitName? s.uncased = (splitName? s).map (Prod.map Text.uncased Text.uncased) := by
  cases s with
  | nil => rfl
  | cons c cs =>
    have htake := takeWhile_uncased (c :: cs) isNameChar_toLower
    have hdrop := dropWhile_uncased (c :: cs) isNameChar_toLower
    rw [uncased_cons] at htake hdrop ⊢
    simp only [splitName?, isNameStart_toLower, htake, hdrop]
    split <;> rfl

theorem throughBracket?_uncased :
    throughBracket? s.uncased = (throughBracket? s).map (Prod.map Text.uncased Text.uncased) := by
  have hbracket : '>' ∈ delimiters := by simp [delimiters]
  induction s with
  | nil => rfl
  | cons c cs ih =>
    rw [uncased_cons, throughBracket?, throughBracket?]
    simp only [toLower_eq_iff hbracket]
    split
    · rfl
    · rw [ih]
      cases throughBracket? cs <;> rfl

theorem isSuffixOf_uncased : ['/', '>'].isSuffixOf s.uncased = ['/', '>'].isSuffixOf s := by
  have hreverse : s.uncased.reverse = Text.uncased s.reverse := List.map_reverse.symm
  rw [List.isSuffixOf, List.isSuffixOf, hreverse]
  have hdelimiter : ∀ b ∈ delimiters, ∀ c : Char, (b == c.toLower) = (b == c) := by
    intro b hb c
    rw [Bool.eq_iff_iff, beq_iff_eq, beq_iff_eq, eq_comm, toLower_eq_iff hb, eq_comm]
  have hbracket := hdelimiter '>' (by simp [delimiters])
  have hslash := hdelimiter '/' (by simp [delimiters])
  cases s.reverse with
  | nil => rfl
  | cons a rest =>
    cases rest with
    | nil => simp [List.isPrefixOf]
    | cons b rest => simp [List.isPrefixOf, hbracket, hslash]

theorem blanks_uncased : blanks t.uncased = Text.uncased (blanks t) :=
  takeWhile_uncased t isBlank_toLower

theorem afterBlanks_uncased : afterBlanks t.uncased = Text.uncased (afterBlanks t) :=
  dropWhile_uncased t isBlank_toLower

theorem commentCloser?_uncased :
    commentCloser? s.uncased = (commentCloser? s).map (Prod.map Text.uncased Text.uncased) := by
  have hstart : s.uncased.take commentClosing.length =
      Text.uncased (s.take commentClosing.length) := List.map_take.symm
  have hafter : s.uncased.drop commentClosing.length =
      Text.uncased (s.drop commentClosing.length) := List.map_drop.symm
  have hlower : lower (Text.uncased (s.take commentClosing.length)) =
      lower (s.take commentClosing.length) := canonicalName_uncased _
  simp only [commentCloser?, hstart, hafter, hlower, blanks_uncased, afterBlanks_uncased]
  split
  · cases afterBlanks (s.drop commentClosing.length) with
    | nil => rfl
    | cons c cs =>
      by_cases hc : c = '>'
      · subst hc
        simp [Prod.map]
      · have hlower : c.toLower ≠ '>' := by
          rwa [Ne, toLower_eq_iff (by simp [delimiters])]
        simp [hc, hlower]
  · rfl

theorem commentBody?_uncased : commentBody? s.uncased =
    (commentBody? s).map (Prod.map Text.uncased (Prod.map Text.uncased Text.uncased)) := by
  induction s with
  | nil => rfl
  | cons c cs ih =>
    have hcloser := commentCloser?_uncased (c :: cs)
    rw [uncased_cons] at hcloser ⊢
    rw [commentBody?, commentBody?, hcloser]
    cases commentCloser? (c :: cs) with
    | some found => rfl
    | none =>
      simp only [Option.map_none, ih]
      cases commentBody? cs <;> rfl

end Texts

/-- Whether a run has no small letter in ASCII, the capitals of ASCII and the Kelvin sign apart. -/
def outsideAscii (run : Nat × Nat × Nat × Int) : Bool :=
  decide (run.2.1 < 0x80 ∨ 0x80 ≤ run.1 + run.2.2.2 ∨
    run.1 = run.2.1 ∧ run.1 + run.2.2.2 = 'k'.toNat)

theorem smallOf_outsideAscii {runs : List (Nat × Nat × Nat × Int)}
    (h : runs.all outsideAscii = true) {n : Nat} (hn : 0x80 ≤ n) :
    0x80 ≤ smallOf runs n ∨ smallOf runs n = 'k'.toNat := by
  induction runs with
  | nil => exact Or.inl hn
  | cons run runs ih =>
    obtain ⟨hrun, hruns⟩ := by simpa using h
    obtain ⟨first, last, step, shift⟩ := run
    have hrun := of_decide_eq_true hrun
    rw [smallOf]
    split
    · exact Or.inl hn
    · split
      · dsimp only at hrun
        omega
      · exact ih (by simpa using hruns)

/-- A character that is the lower case of itself and its ASCII capital only. -/
def OwnCase (c : Char) : Prop := 0 < c.toNat ∧ c.toNat < 0x80 ∧ c ≠ 'k'

instance (c : Char) : Decidable (OwnCase c) :=
  inferInstanceAs (Decidable (0 < c.toNat ∧ c.toNat < 0x80 ∧ c ≠ 'k'))

section OwnCase

variable {c : Char} {before after t u v rest : Text}

/-- No other character becomes one of these, alone or with more. -/
theorem lt_of_ownCase (hc : ∀ b ∈ lowerChar c, OwnCase b) : c.toNat < 0x80 := by
  by_contra hlarge
  rw [lowerChar, if_neg hlarge] at hc
  split at hc
  · obtain ⟨-, hdot, -⟩ := hc (Char.ofNat 0x307) (by simp)
    exact absurd hdot (by decide)
  · obtain ⟨hpos, hascii, hk⟩ := hc _ List.mem_cons_self
    have htable : capitalRuns.all outsideAscii = true := by decide
    rcases smallOf_outsideAscii htable (Nat.not_lt.mp hlarge) with hsmall | hsmall
    · have hself : (Char.ofNat (smallOf capitalRuns c.toNat)).toNat = smallOf capitalRuns c.toNat ∨
          (Char.ofNat (smallOf capitalRuns c.toNat)).toNat = 0 := by
        by_cases hvalid : (smallOf capitalRuns c.toNat).isValidChar
        · rw [Char.ofNat, dif_pos hvalid]
          exact Or.inl rfl
        · rw [Char.ofNat, dif_neg hvalid]
          exact Or.inr rfl
      omega
    · rw [hsmall, Char.ofNat_toNat] at hk
      exact hk rfl

/-- Texts of such characters are the lower case only of what differs from them in the case of ASCII
letters. -/
theorem uncased_eq_of_lowerAfter (h : lowerAfter before t = u) (hu : ∀ b ∈ u, OwnCase b) :
    t.uncased = u := by
  induction t generalizing before u with
  | nil => exact h
  | cons c t ih =>
    rw [lowerAfter] at h
    subst h
    obtain ⟨hfirst, hrest⟩ := List.forall_mem_append.mp hu
    split at hfirst
    · obtain ⟨-, hsigma, -⟩ := hfirst _ List.mem_cons_self
      split at hsigma <;> exact absurd hsigma (by decide)
    · rename_i hsigma
      have hlower : lowerChar c = [c.toLower] := if_pos (lt_of_ownCase hfirst)
      rw [if_neg hsigma, hlower, uncased_cons, ih rfl hrest]
      rfl

/-- Lower case tells such a text up to the case of ASCII letters. -/
theorem lower_eq_iff (hu : ∀ b ∈ u, OwnCase b) (hlower : lower u = u) :
    lower t = u ↔ t.uncased = u := by
  refine ⟨fun h => uncased_eq_of_lowerAfter h hu, ?_⟩
  rintro rfl
  exact (canonicalName_uncased t).symm.trans hlower

/-- What a character becomes in lower case. -/
def lowerPart (before : Text) (c : Char) (after : Text) : Text :=
  if c.toNat = 0x3A3 then
    [if nextIsCased before && !nextIsCased after then Char.ofNat 0x3C2 else Char.ofNat 0x3C3]
  else lowerChar c

theorem lowerAfter_cons :
    lowerAfter before (c :: t) = lowerPart before c t ++ lowerAfter (c :: before) t := rfl

theorem lowerPart_cases (before : Text) (c : Char) (after : Text) :
    (∃ b, lowerPart before c after = [b]) ∨ lowerPart before c after = ['i', Char.ofNat 0x307] := by
  rw [lowerPart, lowerChar]
  by_cases hsigma : c.toNat = 0x3A3
  · exact .inl ⟨_, if_pos hsigma⟩
  · rw [if_neg hsigma]
    by_cases hascii : c.toNat < 0x80
    · exact .inl ⟨_, if_pos hascii⟩
    · rw [if_neg hascii]
      by_cases hdotted : c.toNat = 0x130
      · exact .inr (if_pos hdotted)
      · exact .inl ⟨_, if_neg hdotted⟩

/-- No character becomes a text that goes on with ASCII after its first character. -/
theorem eq_nil_of_lowerPart (hpart : lowerPart before c after = u ++ rest) (hu : u ≠ [])
    (hrest : ∀ b ∈ rest, OwnCase b) : rest = [] := by
  obtain ⟨b, u, rfl⟩ := List.exists_cons_of_ne_nil hu
  rw [List.cons_append] at hpart
  rcases lowerPart_cases before c after with ⟨d, hone⟩ | htwo
  · rw [hone, List.cons.injEq] at hpart
    exact (List.append_eq_nil_iff.mp hpart.2.symm).2
  · rw [htwo, List.cons.injEq] at hpart
    cases u with
    | nil =>
      have hdots : [Char.ofNat 0x307] = rest := hpart.2
      obtain ⟨-, hdot, -⟩ := hrest (Char.ofNat 0x307) (hdots ▸ List.mem_cons_self)
      exact absurd hdot (by decide)
    | cons d u =>
      rw [List.cons_append, List.cons.injEq] at hpart
      exact (List.append_eq_nil_iff.mp hpart.2.2.symm).2

/-- A text whose lower case ends in ASCII ends in the same up to the case of letters. -/
theorem exists_ending_of_lowerAfter (h : lowerAfter before t = u ++ v) (hv : ∀ b ∈ v, OwnCase b) :
    ∃ stem ending, t = stem ++ ending ∧ ending.uncased = v := by
  induction t generalizing before u with
  | nil =>
    obtain ⟨-, rfl⟩ := List.append_eq_nil_iff.mp h.symm
    exact ⟨[], [], rfl, rfl⟩
  | cons c t ih =>
    rw [lowerAfter_cons] at h
    rcases List.append_eq_append_iff.mp h with ⟨more, rfl, hrest⟩ | ⟨more, hpart, rfl⟩
    · obtain ⟨stem, ending, rfl, hending⟩ := ih hrest
      exact ⟨c :: stem, ending, rfl, hending⟩
    · by_cases hu : u = []
      · rw [hu, List.nil_append] at h
        exact ⟨[], c :: t, rfl, uncased_eq_of_lowerAfter h hv⟩
      · obtain ⟨hmore, hrest⟩ := List.forall_mem_append.mp hv
        have hnone : more = [] := eq_nil_of_lowerPart hpart hu hmore
        rw [hnone, List.nil_append]
        exact ⟨[c], t, rfl, uncased_eq_of_lowerAfter rfl hrest⟩

/-- The lower case of a text ends in that of its last part, where a sigma may depend on what
precedes it. -/
theorem exists_lowerAfter_append (before s t : Text) :
    ∃ u, lowerAfter before (s ++ t) = u ++ lowerAfter (s.reverse ++ before) t := by
  induction s generalizing before with
  | nil => exact ⟨[], rfl⟩
  | cons c s ih =>
    obtain ⟨u, hu⟩ := ih (c :: before)
    refine ⟨lowerPart before c (s ++ t) ++ u, ?_⟩
    rw [List.cons_append, lowerAfter_cons, hu, List.reverse_cons, List.append_assoc,
      List.append_assoc]
    rfl

end OwnCase

/-- The scan of a comment up to the case of letters. -/
def CommentScan.uncased : CommentScan → CommentScan
  | closed opening content closing rest =>
    closed opening.uncased content.uncased closing.uncased rest.uncased
  | cutOff opening => cutOff (opening.map Text.uncased)

theorem scanComment_uncased (s : Text) : scanComment s.uncased = (scanComment s).uncased := by
  rw [scanComment, throughBracket?_uncased, scanComment]
  cases throughBracket? s with
  | none => rfl
  | some found =>
    obtain ⟨opening, rest⟩ := found
    simp only [Option.map_some, Prod.map, isSuffixOf_uncased, commentBody?_uncased]
    split
    · rfl
    · cases commentBody? rest <;> rfl

end StoreMarkup
