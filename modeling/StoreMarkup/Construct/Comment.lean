import StoreMarkup.Construct.Expression
import StoreMarkup.Text.Blank
import StoreMarkup.Vocabulary

/-! How far a comment reaches. What stands inside is not looked at. -/
namespace StoreMarkup

/-- The text up to and with the first closing angle bracket, and what follows. -/
def throughBracket? : Text → Option (Text × Text)
  | [] => none
  | c :: cs => if c = '>' then some ([c], cs) else afterText [c] (throughBracket? cs)

theorem throughBracket?_eq {s t r : Text} (h : throughBracket? s = some (t, r)) :
    s = t ++ r ∧ t ≠ [] := by
  fun_induction throughBracket? s generalizing t with
  | case1 => simp at h
  | case2 cs =>
    obtain ⟨rfl, rfl⟩ := by simpa using h
    simp
  | case3 c cs _ ih =>
    obtain ⟨u, hu, rfl⟩ := afterText_eq_some.mp h
    simp [(ih hu).1]

/-- The start of a close tag of a comment, in lower case. -/
def commentClosing : Text := '<' :: '/' :: commentTag

/-- The close tag of a comment at the start of a text, and what follows it. Only blanks may stand
inside it, and its case does not matter. -/
def commentCloser? (s : Text) : Option (Text × Text) :=
  let start := s.take commentClosing.length
  let after := s.drop commentClosing.length
  if lower start == commentClosing then
    match afterBlanks after with
    | '>' :: rest => some (start ++ blanks after ++ ['>'], rest)
    | _ => none
  else none

theorem commentCloser?_eq {s t r : Text} (h : commentCloser? s = some (t, r)) : s = t ++ r := by
  have hb := blanks_append_afterBlanks (s.drop commentClosing.length)
  have hs := List.take_append_drop commentClosing.length s
  simp only [commentCloser?] at h
  split at h
  · split at h
    · rename_i rest hr
      obtain ⟨rfl, rfl⟩ := by simpa using h
      rw [hr] at hb
      rw [← hb] at hs
      simpa using hs.symm
    · simp at h
  · simp at h

/-- The content of a comment, its close tag and what follows. -/
def commentBody? : Text → Option (Text × Text × Text)
  | [] => none
  | c :: cs =>
    match commentCloser? (c :: cs) with
    | some (closing, rest) => some ([], closing, rest)
    | none => (commentBody? cs).map fun (content, closing, rest) => (c :: content, closing, rest)

theorem commentBody?_eq {s t u r : Text} (h : commentBody? s = some (t, u, r)) :
    s = t ++ u ++ r := by
  fun_induction commentBody? s generalizing t with
  | case1 => simp at h
  | case2 c cs closing rest hc =>
    obtain ⟨rfl, rfl, rfl⟩ := by simpa using h
    simpa using commentCloser?_eq hc
  | case3 c cs _ ih =>
    obtain ⟨⟨t', u', r'⟩, hb, he⟩ := Option.map_eq_some_iff.mp h
    obtain ⟨rfl, rfl, rfl⟩ := by simpa using he
    simp [ih hb]

/-- A comment from its opening angle bracket on. -/
inductive CommentScan where
  | closed (opening content closing rest : Text)
  /-- The text ends, before or after the end of the open tag. -/
  | cutOff (opening : Option Text)
deriving DecidableEq, Repr

/-- A slash at the end of the open tag makes the comment empty, without a close tag. -/
def scanComment (s : Text) : CommentScan :=
  match throughBracket? s with
  | none => .cutOff none
  | some (opening, rest) =>
    if ['/', '>'].isSuffixOf opening then .closed opening [] [] rest
    else
      match commentBody? rest with
      | none => .cutOff (some opening)
      | some (content, closing, rest) => .closed opening content closing rest

theorem scanComment_closed {s opening content closing rest : Text}
    (h : scanComment s = .closed opening content closing rest) :
    s = opening ++ content ++ closing ++ rest ∧ opening ≠ [] := by
  unfold scanComment at h
  split at h
  · simp at h
  · rename_i o r ho
    obtain ⟨rfl, hne⟩ := throughBracket?_eq ho
    split at h
    · obtain ⟨rfl, rfl, rfl, rfl⟩ := by simpa using h
      simp [hne]
    · split at h
      · simp at h
      · rename_i c cl r' hb
        obtain ⟨rfl, rfl, rfl, rfl⟩ := by simpa using h
        simp [commentBody?_eq hb, hne]

theorem throughBracket?_of_cutOff {s opening : Text}
    (h : scanComment s = .cutOff (some opening)) : ∃ r, throughBracket? s = some (opening, r) := by
  unfold scanComment at h
  split at h
  · cases h
  · rename_i o r ho
    split at h
    · cases h
    · split at h
      · cases h
        exact ⟨r, ho⟩
      · cases h

end StoreMarkup
