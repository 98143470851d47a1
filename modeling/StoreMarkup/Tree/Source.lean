import StoreMarkup.Tree.Walk

/-! A forest as template text. -/
namespace StoreMarkup

/-- Something to be written: a node, or a close tag that waits for the body before it. -/
inductive Piece where
  | node (node : Node)
  | text (text : Text)

namespace Piece

def weight : Piece → Nat
  | node n => 2 * n.size
  | text _ => 1

def weightAll : List Piece → Nat
  | [] => 0
  | piece :: rest => piece.weight + weightAll rest

/-- Nodes as pieces. -/
def nodes (ns : List Node) : List Piece := ns.map node

theorem weightAll_nodes (ns : List Node) : weightAll (nodes ns) = 2 * Node.sizeAll ns := by
  induction ns with
  | nil => rfl
  | cons n ns ih =>
    simp only [weightAll, nodes, List.map_cons, weight, Node.sizeAll_cons] at ih ⊢
    omega

theorem weightAll_append (xs ys : List Piece) :
    weightAll (xs ++ ys) = weightAll xs + weightAll ys := by
  induction xs with
  | nil => simp [weightAll]
  | cons x xs ih =>
    simp only [List.cons_append, weightAll, ih]
    omega

end Piece

namespace Node

/-- The text of a node but for its children and what follows them. -/
def opening : Node → Text
  | text content _ => content
  | expression opening inner closing _ | comment opening inner closing _ =>
    opening ++ inner ++ closing
  | element e _ => e.openText

def writePieces (pieces : List Piece) : Text :=
  match pieces with
  | [] => []
  | .text t :: rest => t ++ writePieces rest
  | .node (element e children) :: rest =>
    e.openText ++ writePieces (Piece.nodes children ++ .text e.closeText :: rest)
  | .node n :: rest => n.opening ++ writePieces rest
termination_by Piece.weightAll pieces
decreasing_by
  · simp only [Piece.weightAll, Piece.weight]
    omega
  · rw [Piece.weightAll_append, Piece.weightAll_nodes]
    simp only [Piece.weightAll, Piece.weight, size]
    omega
  · have := n.size_eq
    simp only [Piece.weightAll, Piece.weight]
    omega

/-- The template text that a forest was read from. -/
def write (nodes : List Node) : Text := writePieces (Piece.nodes nodes)

end Node

end StoreMarkup
