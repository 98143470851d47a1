import StoreMarkup.Text.Lowercase

/-! Characters that patterns take for the same when case does not count. -/
namespace StoreMarkup

/-- The small letter of a code point by itself. -/
def simpleLower (n : Nat) : Nat :=
  if n = 0x130 then 0x69 else smallOf capitalRuns n

/-- The code points with a given small letter, apart from itself. -/
def capitalsOf (n : Nat) : List Nat :=
  let inRun := fun ((first, last, step, shift) : Nat × Nat × Nat × Int) =>
    let capital := ((n : Int) - shift).toNat
    if first ≤ capital && capital ≤ last && (capital - first) % step == 0 && n != capital
    then some capital else none
  (if n = 0x69 then [0x130] else []) ++ capitalRuns.filterMap inRun

/-- Small letters that share their capital. -/
def sharedCapitals : List (List Nat) :=
  [[0x69, 0x131], [0x73, 0x17F], [0xB5, 0x3BC], [0x345, 0x3B9, 0x1FBE], [0x390, 0x1FD3],
   [0x3B0, 0x1FE3], [0x3B2, 0x3D0], [0x3B5, 0x3F5], [0x3B8, 0x3D1], [0x3BA, 0x3F0], [0x3C0, 0x3D6],
   [0x3C1, 0x3F1], [0x3C2, 0x3C3], [0x3C6, 0x3D5], [0x432, 0x1C80], [0x434, 0x1C81],
   [0x43E, 0x1C82], [0x441, 0x1C83], [0x442, 0x1C84, 0x1C85], [0x44A, 0x1C86], [0x463, 0x1C87],
   [0x1C88, 0xA64B], [0x1E61, 0x1E9B], [0xFB05, 0xFB06]]

/-- The small letters that count as equal to one. -/
def equalSmall (n : Nat) : List Nat := (sharedCapitals.find? (·.contains n)).getD [n]

/-- Whether two code points differ in nothing but case. -/
def sameButCase (m n : Nat) : Bool := (equalSmall (simpleLower m)).contains (simpleLower n)

/-- The code points that differ from one in nothing but case. -/
def caseVariants (n : Nat) : List Nat :=
  (equalSmall (simpleLower n)).flatMap fun small => small :: capitalsOf small

end StoreMarkup
