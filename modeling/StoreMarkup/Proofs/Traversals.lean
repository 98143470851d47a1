import StoreMarkup.Proofs.Forest
import StoreMarkup.Tree.Visitor

/-! Walking over a forest and writing it, by recursion on the tree. What waits on a stack comes out
item by item, each with all that is inside it. -/
namespace StoreMarkup

namespace Node

mutual

/-- A node and then the nodes inside it, child by child. -/
def preorder : Node → List Node
  | element e children => element e children :: preorderAll children
  | node => [node]

def preorderAll : List Node → List Node
  | [] => []
  | node :: rest => node.preorder ++ preorderAll rest

end

mutual

/-- The text of a node: the tags of an element stand around its children, and everything else is as
it was read. -/
def written : Node → Text
  | text content _ => content
  | expression opening inner closing _ | comment opening inner closing _ =>
    opening ++ inner ++ closing
  | element e children => e.openText ++ writtenAll children ++ e.closeText

def writtenAll : List Node → Text
  | [] => []
  | node :: rest => node.written ++ writtenAll rest

end

theorem preorder_eq (node : Node) : node.preorder = node :: preorderAll node.children := by
  cases node <;> simp [preorder, children, preorderAll]

theorem walk_eq_preorderAll (nodes : List Node) : walk nodes = preorderAll nodes := by
  induction nodes using forest_induction with
  | nil => simp [preorderAll]
  | cons node rest inside after => rw [walk_cons, inside, after, preorderAll, preorder_eq]

theorem writtenAll_eq_flatMap (nodes : List Node) : writtenAll nodes = nodes.flatMap written := by
  induction nodes with
  | nil => simp [writtenAll]
  | cons node rest ih => rw [writtenAll, ih, List.flatMap_cons]

theorem written_leaf {node : Node} (h : node.kind ≠ .element) : node.written = node.opening := by
  cases node with
  | element => exact (h rfl).elim
  | _ => simp [written, opening]

end Node

/-- The text of something that waits on the stack: a node with all that is inside it, or a close
tag. -/
def Piece.written : Piece → Text
  | node n => n.written
  | text t => t

theorem Piece.flatMap_nodes (nodes : List Node) :
    (Piece.nodes nodes).flatMap Piece.written = Node.writtenAll nodes := by
  rw [Piece.nodes, List.flatMap_map, Node.writtenAll_eq_flatMap]
  rfl

namespace Node

/-- However nodes and close tags are mixed on the stack, each is written in its turn. -/
theorem writePieces_eq_flatMap (stack : List Piece) :
    writePieces stack = stack.flatMap Piece.written := by
  fun_induction writePieces stack with
  | case1 => rfl
  | case2 t rest ih => rw [ih, List.flatMap_cons, Piece.written]
  | case3 e children rest ih =>
    -- The close tag waits below the children, so it comes after the text of all of them.
    rw [List.flatMap_append, Piece.flatMap_nodes, List.flatMap_cons, Piece.written] at ih
    rw [ih, List.flatMap_cons, Piece.written, written]
    simp only [List.append_assoc]
  | case4 n rest hleaf ih =>
    have hkind : n.kind ≠ .element := by
      cases n with
      | element e children => exact (hleaf e children rfl).elim
      | _ => simp [kind]
    rw [ih, List.flatMap_cons, Piece.written, written_leaf hkind]

theorem write_eq_writtenAll (nodes : List Node) : write nodes = writtenAll nodes := by
  rw [write, writePieces_eq_flatMap, Piece.flatMap_nodes]

/-- Nothing comes between the tags and leaves of a forest in its text. -/
theorem writtenAll_eq_piecesText (nodes : List Node) :
    writtenAll nodes = piecesText (piecesAll nodes) := by
  induction nodes using element_induction with
  | nil => simp [writtenAll, piecesText]
  | element e children rest inside after =>
    rw [writtenAll, written, inside, after]
    cases hc : e.closing <;> simp [piecesText, pieces, Element.closeSpan?, Element.closeText, hc]
  | leaf node rest hkind after =>
    rw [writtenAll, written_leaf hkind, after]
    cases node with
    | element => exact (hkind rfl).elim
    | _ => simp [piecesText, pieces, opening]

theorem write_eq (nodes : List Node) : write nodes = piecesText (piecesAll nodes) := by
  rw [write_eq_writtenAll, writtenAll_eq_piecesText]

/-- A node that is visited alone is written as in its forest. -/
theorem visit_writer (node : Node) : Visitor.writer.visit node = .ok node.written := by
  have halone : write [node] = node.written := by
    rw [write_eq_writtenAll, writtenAll, writtenAll, List.append_nil]
  cases node with
  | element e children =>
    rw [← halone]
    rfl
  | _ =>
    rw [written_leaf (by simp [kind])]
    rfl

theorem visitAll_writer (nodes : List Node) :
    Visitor.writer.visitAll nodes = .ok (nodes.map written) := by
  induction nodes with
  | nil => rfl
  | cons node rest ih =>
    rw [Visitor.visitAll] at ih ⊢
    rw [List.mapM_cons, visit_writer, ih]
    rfl

/-- The stacks of the walk and of the writer stand for recursion: the walk gives each node before
its children, which keep their order, and the writer puts the tags of an element around the text of
its children. So two forests are written one after the other, and so are the nodes of a forest,
visited one by one. -/
theorem traversals_recursive (xs ys : List Node) :
    walk xs = preorderAll xs ∧ write xs = writtenAll xs ∧
      write (xs ++ ys) = write xs ++ write ys ∧
      (Visitor.writer.visitAll xs).map List.flatten = .ok (write xs) := by
  refine ⟨walk_eq_preorderAll xs, write_eq_writtenAll xs, ?_, ?_⟩
  · simp only [write_eq_writtenAll, writtenAll_eq_flatMap, List.flatMap_append]
  · rw [visitAll_writer, write_eq_writtenAll, writtenAll_eq_flatMap, List.flatMap_def]
    rfl

end Node

end StoreMarkup
