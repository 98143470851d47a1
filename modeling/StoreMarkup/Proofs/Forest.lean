import StoreMarkup.Proofs.Filling
import StoreMarkup.Tree.Export
import StoreMarkup.Tree.Source

/-! Forests by recursion: the loops over pending nodes compute what the shape of the forest says. -/
namespace StoreMarkup

namespace Node

/-- A forest is empty, or a node with a smaller forest inside and one after it. -/
theorem forest_induction {P : List Node → Prop} (nil : P [])
    (cons : ∀ node rest, P node.children → P rest → P (node :: rest)) (nodes : List Node) :
    P nodes := by
  match nodes with
  | [] => exact nil
  | node :: rest =>
    exact cons node rest (forest_induction nil cons node.children) (forest_induction nil cons rest)
termination_by sizeAll nodes
decreasing_by
  · rw [sizeAll_cons, size_eq]
    exact Nat.lt_of_lt_of_le (Nat.lt_succ_self _) (Nat.le_add_right _ _)
  · rw [sizeAll_cons, size_eq]
    exact Nat.lt_add_of_pos_left (Nat.succ_pos _)

/-- The same where only elements have something inside. -/
theorem element_induction {P : List Node → Prop} (nil : P [])
    (element : ∀ e children rest, P children → P rest → P (element e children :: rest))
    (leaf : ∀ node rest, node.kind ≠ .element → P rest → P (node :: rest)) (nodes : List Node) :
    P nodes := by
  induction nodes using forest_induction with
  | nil => exact nil
  | cons node rest inside after =>
    cases node with
    | element e children => exact element e children rest inside after
    | _ => exact leaf _ rest (by simp [kind]) after

theorem children_leaf {node : Node} (h : node.kind ≠ .element) : node.children = [] := by
  cases node with
  | element => exact (h rfl).elim
  | _ => rfl

theorem element?_leaf {node : Node} (h : node.kind ≠ .element) : node.element? = none := by
  cases node with
  | element => exact (h rfl).elim
  | _ => rfl

@[simp] theorem walk_nil : walk [] = [] := by
  rw [walk]

@[simp] theorem walk_append (xs ys : List Node) : walk (xs ++ ys) = walk xs ++ walk ys := by
  fun_induction walk xs with
  | case1 => rfl
  | case2 node rest ih =>
    rw [List.append_assoc] at ih
    rw [List.cons_append, walk, ih]
    rfl

theorem walk_cons (node : Node) (rest : List Node) :
    walk (node :: rest) = node :: walk node.children ++ walk rest := by
  rw [walk, walk_append]
  rfl

mutual

/-- The tags and leaves of a tree in source order, each with its place. A close tag that is missing
has an empty text, and an element that ends with its open tag has none. -/
def pieces : Node → List (Located Text)
  | text content span => [⟨content, span⟩]
  | expression opening inner closing span | comment opening inner closing span =>
    [⟨opening ++ inner ++ closing, span⟩]
  | element e children =>
    ⟨e.openText, e.openSpan⟩ :: piecesAll children ++ (e.closeSpan?.map (⟨e.closeText, ·⟩)).toList

def piecesAll : List Node → List (Located Text)
  | [] => []
  | node :: rest => node.pieces ++ piecesAll rest

end

@[simp] theorem piecesAll_nil : piecesAll [] = [] := by
  simp [piecesAll]

@[simp] theorem piecesAll_cons (node : Node) (rest : List Node) :
    piecesAll (node :: rest) = node.pieces ++ piecesAll rest := by
  simp [piecesAll]

@[simp] theorem piecesAll_append (xs ys : List Node) :
    piecesAll (xs ++ ys) = piecesAll xs ++ piecesAll ys := by
  induction xs with
  | nil => simp
  | cons x xs ih => simp [ih]

/-- The text of some pieces. -/
def piecesText (ps : List (Located Text)) : Text := ps.flatMap Located.value

@[simp] theorem exportAll_nil (spans : Bool) : exportAll spans [] = [] := by
  simp [exportAll, fold_eq, foldForest]

theorem foldForest_depth {α : Type} (visit : Node → Visit α) (nodes : List Node)
    (depth depth' : Nat) :
    foldForest (fun _ => visit) depth nodes = foldForest (fun _ => visit) depth' nodes := by
  induction nodes using forest_induction generalizing depth depth' with
  | nil => simp [foldForest]
  | cons node rest inside after =>
    simp only [foldForest, foldNode_eq]
    rw [inside (depth + 1) (depth' + 1), after depth depth']

theorem exportAll_cons (spans : Bool) (node : Node) (rest : List Node) :
    exportAll spans (node :: rest) =
      node.toJson spans (exportAll spans node.children) :: exportAll spans rest := by
  simp only [exportAll, fold_eq, foldForest, foldNode_eq]
  rw [foldForest_depth _ node.children 1 2]
  cases node with
  | element e children => rfl
  | _ =>
    simp only [exportVisit, kind, children, foldForest]
    rfl

/-- A property of all elements of a forest with their children. -/
def EachElement (P : Element → List Node → Prop) (nodes : List Node) : Prop :=
  ∀ e children, element e children ∈ walk nodes → P e children

section EachElement

variable {P : Element → List Node → Prop}

theorem eachElement_nil : EachElement P [] := by
  intro e children h
  simp at h

theorem eachElement_append {xs ys : List Node} :
    EachElement P (xs ++ ys) ↔ EachElement P xs ∧ EachElement P ys := by
  simp only [EachElement, walk_append, List.mem_append]
  constructor
  · intro h
    exact ⟨fun e cs he => h e cs (.inl he), fun e cs he => h e cs (.inr he)⟩
  · rintro ⟨hx, hy⟩ e cs (he | he)
    · exact hx e cs he
    · exact hy e cs he

theorem eachElement_cons {node : Node} {rest : List Node} :
    EachElement P (node :: rest) ↔ (∀ e children, node = element e children → P e children) ∧
      EachElement P node.children ∧ EachElement P rest := by
  simp only [EachElement, walk_cons, List.cons_append, List.mem_cons, List.mem_append]
  constructor
  · intro h
    exact ⟨fun e cs he => h e cs (.inl he.symm), fun e cs he => h e cs (.inr (.inl he)),
      fun e cs he => h e cs (.inr (.inr he))⟩
  · rintro ⟨hnode, hin, hafter⟩ e cs (he | he | he)
    · exact hnode e cs he.symm
    · exact hin e cs he
    · exact hafter e cs he

end EachElement

end Node

end StoreMarkup
