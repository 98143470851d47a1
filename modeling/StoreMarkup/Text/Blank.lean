import StoreMarkup.Text.Basic

/-! Blank characters: the whitespace of Unicode 14 and the four information separators. -/
namespace StoreMarkup

def blankRanges : CharRanges :=
  [(9, 0xD), (0x1C, 0x20), (0x85, 0x85), (0xA0, 0xA0), (0x1680, 0x1680), (0x2000, 0x200A),
   (0x2028, 0x2029), (0x202F, 0x202F), (0x205F, 0x205F), (0x3000, 0x3000)]

def isBlank (c : Char) : Bool := blankRanges.member c.toNat

/-- The blanks that a text starts with. -/
def blanks (t : Text) : Text := t.takeWhile isBlank

/-- What follows the blanks that a text starts with. -/
def afterBlanks (t : Text) : Text := t.dropWhile isBlank

theorem blanks_append_afterBlanks (t : Text) : blanks t ++ afterBlanks t = t :=
  List.takeWhile_append_dropWhile

theorem isBlank_head_afterBlanks {t cs : Text} {c : Char} (h : afterBlanks t = c :: cs) :
    isBlank c = false := by
  have := List.head?_dropWhile_not isBlank t
  unfold afterBlanks at h
  simpa [h] using this

/-- Text without the blanks at its two ends. -/
def trimBlanks (t : Text) : Text :=
  ((t.dropWhile isBlank).reverse.dropWhile isBlank).reverse

end StoreMarkup
