import StoreMarkup.Tree.Node

/-! Traversals of a forest. They keep what is still to be visited in a list, so that deep trees need
no deep recursion. -/
namespace StoreMarkup

namespace Node

mutual

/-- The number of nodes of a tree. -/
def size : Node → Nat
  | element _ children => sizeAll children + 1
  | _ => 1

def sizeAll : List Node → Nat
  | [] => 0
  | node :: nodes => size node + sizeAll nodes

end

@[simp] theorem sizeAll_nil : sizeAll [] = 0 := by simp [sizeAll]

@[simp] theorem sizeAll_cons (node : Node) (nodes : List Node) :
    sizeAll (node :: nodes) = node.size + sizeAll nodes := by simp [sizeAll]

@[simp] theorem sizeAll_append (xs ys : List Node) :
    sizeAll (xs ++ ys) = sizeAll xs + sizeAll ys := by
  induction xs with
  | nil => simp
  | cons x xs ih => simp [ih, Nat.add_assoc]

theorem size_eq (node : Node) : node.size = sizeAll node.children + 1 := by
  cases node <;> simp [size, children]

/-- The nodes of a forest in document order: each before its children, depth first. -/
def walk (nodes : List Node) : List Node :=
  match nodes with
  | [] => []
  | node :: rest => node :: walk (node.children ++ rest)
termination_by sizeAll nodes
decreasing_by
  simp only [sizeAll_append, sizeAll_cons, size_eq]
  omega

/-- The elements among some nodes as they wait on a stack, each with its level: the last is the
first whose turn comes. -/
def stacked (level : Nat) (nodes : List Node) : List (Node × Nat) :=
  ((nodes.filter fun node => node.kind == .element).map (·, level)).reverse

theorem sizeAll_stacked (level : Nat) (nodes : List Node) :
    sizeAll ((stacked level nodes).map Prod.fst) ≤ sizeAll nodes := by
  induction nodes with
  | nil => exact Nat.le_refl _
  | cons node nodes ih =>
    simp only [stacked, List.filter_cons] at ih ⊢
    split
    · simp only [List.map_cons, List.reverse_cons, List.map_append, sizeAll_append, sizeAll_cons,
        List.map_nil, sizeAll_nil]
      omega
    · rw [sizeAll_cons]
      omega

/-- The deepest level of the elements on a stack and of those inside them, or `deepest` if that is
more. -/
def deepestFrom (deepest : Nat) (stack : List (Node × Nat)) : Nat :=
  match stack with
  | [] => deepest
  | (node, level) :: rest =>
    deepestFrom (max deepest level) (stacked (level + 1) node.children ++ rest)
termination_by sizeAll (stack.map Prod.fst)
decreasing_by
  have := sizeAll_stacked (level + 1) node.children
  simp only [List.map_append, List.map_cons, sizeAll_append, sizeAll_cons, size_eq]
  omega

/-- How deep elements are nested in each other. -/
def maxDepth (nodes : List Node) : Nat := deepestFrom 0 (stacked 1 nodes)

/-- The elements of a forest in document order, all of them or those of one tag. -/
def elements (tag : Option Text) (nodes : List Node) : List Element :=
  ((walk nodes).filterMap element?).filter fun e => tag.all (e.tag == ·)

end Node

end StoreMarkup
