import StoreMarkup.Text.Basic

/-! How far an expression reaches: quoted strings and balanced braces inside it are passed over
as a whole. -/
namespace StoreMarkup

/-- The two marks that quoted text stands between. -/
inductive Quote where
  | double
  | single
deriving DecidableEq, Repr

def Quote.char : Quote → Char
  | double => '"'
  | single => '\''

def Quote.ofChar? (c : Char) : Option Quote :=
  if c = '"' then some .double else if c = '\'' then some .single else none

theorem Quote.ofChar?_eq_none {c : Char} : Quote.ofChar? c = none ↔ c ≠ '"' ∧ c ≠ '\'' := by
  unfold Quote.ofChar?
  split <;> simp_all

/-- A scan that has already passed over `t` when it goes on with the result `r`: a scanned part and
the rest. -/
def afterText (t : Text) (r : Option (Text × Text)) : Option (Text × Text) :=
  r.map fun (scanned, rest) => (t ++ scanned, rest)

theorem afterText_eq_some {t scanned rest : Text} {r : Option (Text × Text)} :
    afterText t r = some (scanned, rest) ↔
      ∃ u, r = some (u, rest) ∧ scanned = t ++ u := by
  unfold afterText
  cases r <;> grind

/-- What follows the marks that open an expression. -/
def afterDollar? : Text → Option Text
  | '$' :: '{' :: rest => some rest
  | _ => none

theorem afterDollar?_eq {s rest : Text} (h : afterDollar? s = some rest) :
    s = '$' :: '{' :: rest := by
  unfold afterDollar? at h
  split at h <;> simp_all

/-- A quoted string after its opening quote, up to and with the closing one. A backslash takes the
character after it along. -/
def quotedTail (q : Quote) : Text → Option (Text × Text)
  | [] => none
  | c :: cs =>
    if c = '\\' then
      match cs with
      | [] => none
      | d :: ds => afterText [c, d] (quotedTail q ds)
    else if c = q.char then some ([c], cs)
    else afterText [c] (quotedTail q cs)

/-- Nothing is lost, and the closing quote at least is passed over. -/
theorem quotedTail_eq {q : Quote} {s t r : Text} (h : quotedTail q s = some (t, r)) :
    s = t ++ r ∧ t ≠ [] := by
  fun_induction quotedTail q s generalizing t with
  | case1 | case2 => simp at h
  | case3 d ds ih =>
    obtain ⟨u, hu, rfl⟩ := afterText_eq_some.mp h
    simp [(ih hu).1]
  | case4 cs _ =>
    obtain ⟨rfl, rfl⟩ := by simpa using h
    simp
  | case5 c cs _ _ ih =>
    obtain ⟨u, hu, rfl⟩ := afterText_eq_some.mp h
    simp [(ih hu).1]

theorem length_lt_of_quotedTail {q : Quote} {s t r : Text} (h : quotedTail q s = some (t, r)) :
    r.length < s.length := by
  obtain ⟨rfl, ht⟩ := quotedTail_eq h
  have := List.length_pos_iff.mpr ht
  simp only [List.length_append]
  omega

/-- The body of an expression and what follows its closing brace, where `depth` braces are open
inside it. -/
def expressionBody (depth : Nat) (s : Text) : Option (Text × Text) :=
  match s with
  | [] => none
  | c :: cs =>
    match Quote.ofChar? c with
    | some q =>
      match _h : quotedTail q cs with
      | none => none
      | some (t, rest) => afterText (c :: t) (expressionBody depth rest)
    | none =>
      if c = '{' then afterText [c] (expressionBody (depth + 1) cs)
      else if c = '}' then
        match depth with
        | 0 => some ([], cs)
        | d + 1 => afterText [c] (expressionBody d cs)
      else afterText [c] (expressionBody depth cs)
termination_by s.length
decreasing_by
  · have := length_lt_of_quotedTail _h
    simp only [List.length_cons]
    omega
  all_goals simp

theorem expressionBody_eq {depth : Nat} {s t r : Text}
    (h : expressionBody depth s = some (t, r)) : s = t ++ '}' :: r := by
  fun_induction expressionBody depth s generalizing t with
  | case1 | case2 => simp at h
  | case3 depth c cs q hq u rest hu ih =>
    obtain ⟨v, hv, rfl⟩ := afterText_eq_some.mp h
    simp [(quotedTail_eq hu).1, ih hv]
  | case4 depth cs hq ih =>
    obtain ⟨v, hv, rfl⟩ := afterText_eq_some.mp h
    simp [ih hv]
  | case5 cs hq hc =>
    obtain ⟨rfl, rfl⟩ := by simpa using h
    simp
  | case6 cs hq hc d ih =>
    obtain ⟨v, hv, rfl⟩ := afterText_eq_some.mp h
    simp [ih hv]
  | case7 depth c cs hq _ _ ih =>
    obtain ⟨v, hv, rfl⟩ := afterText_eq_some.mp h
    simp [ih hv]

theorem length_lt_of_expressionBody {depth : Nat} {s t r : Text}
    (h : expressionBody depth s = some (t, r)) : r.length < s.length := by
  simp [expressionBody_eq h]
  omega

end StoreMarkup
