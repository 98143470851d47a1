import StoreMarkup.Tree.Walk

/-! Building a forest of other values from a forest of nodes. A value has its place before its
children have theirs: it refers to a list that is filled later. -/
namespace StoreMarkup

/-- What is made of a node. -/
inductive Visit (α : Type) where
  /-- Nothing, and nothing of its children. -/
  | skip
  | leaf (value : α)
  /-- A value with what is made of the children. -/
  | branch (finish : List α → α)

/-- An entry of a list that is being filled: a value, or one that is made of another list, which is
given by its index. -/
inductive Draft (α : Type) where
  | value (value : α)
  | waiting (finish : List α → α) (children : Nat)

/-- The lists that are being filled, in the order in which they were begun. -/
abbrev Drafts (α : Type) := Array (Array (Draft α))

/-- A node whose turn has not come: its level, and the index of the list that its value goes
into. -/
structure Pending where
  node : Node
  depth : Nat
  target : Nat

namespace Draft

variable {α : Type}

/-- The value of an entry, where the last lists of `size` are finished, given last first. -/
def finished (size : Nat) (lists : Array (List α)) : Draft α → α
  | value v => v
  | waiting finish children => finish (lists.getD (size - 1 - children) [])

end Draft

namespace Drafts

variable {α : Type}

/-- Adds an entry to the list of an index. -/
def add (drafts : Drafts α) (target : Nat) (entry : Draft α) : Drafts α :=
  drafts.modify target fun list => list.push entry

/-- Adds an entry that waits for a new list, which is begun with it. -/
def addBranch (drafts : Drafts α) (target : Nat) (finish : List α → α) : Drafts α :=
  (drafts.add target (.waiting finish drafts.size)).push #[]

/-- The lists with their values, last first. Entries wait for lists that were begun later. -/
def finish (drafts : Drafts α) : Array (List α) :=
  drafts.foldr (fun list lists => lists.push (list.toList.map (Draft.finished drafts.size lists)))
    #[]

/-- The list of an index with its values. -/
def list (drafts : Drafts α) (i : Nat) : List α := drafts.finish.getD (drafts.size - 1 - i) []

end Drafts

/-- Nodes of a level whose values all go into one list. -/
def Pending.all (depth target : Nat) (nodes : List Node) : List Pending :=
  nodes.map fun node => ⟨node, depth, target⟩

namespace Node

variable {α : Type}

/-- Goes on with the nodes that are left, each of which may leave its children to be done next. -/
def foldLoop (visit : Nat → Node → Visit α) (drafts : Drafts α) (todo : List Pending) : Drafts α :=
  match todo with
  | [] => drafts
  | ⟨node, depth, target⟩ :: rest =>
    match visit depth node with
    | .skip => foldLoop visit drafts rest
    | .leaf value => foldLoop visit (drafts.add target (.value value)) rest
    | .branch finish =>
      foldLoop visit (drafts.addBranch target finish)
        (Pending.all (depth + 1) drafts.size node.children ++ rest)
termination_by sizeAll (todo.map Pending.node)
decreasing_by
  · simp only [List.map_cons, sizeAll_cons, size_eq]
    omega
  · simp only [List.map_cons, sizeAll_cons, size_eq]
    omega
  · simp only [Pending.all, List.map_append, List.map_map, List.map_cons, sizeAll_append,
      sizeAll_cons, size_eq, Function.comp_def, List.map_id_fun', id_eq]
    omega

/-- The values made of a forest, where `visit` also gets the level of a node. -/
def fold (visit : Nat → Node → Visit α) (nodes : List Node) : List α :=
  Drafts.list (foldLoop visit #[#[]] (Pending.all 1 0 nodes)) 0

mutual

/-- The same by recursion on the tree: what a node at a level is made into. -/
def foldNode (visit : Nat → Node → Visit α) (depth : Nat) (node : Node) : List α :=
  match node with
  | element e children =>
    match visit depth (element e children) with
    | .skip => []
    | .leaf value => [value]
    | .branch finish => [finish (foldForest visit (depth + 1) children)]
  | node =>
    match visit depth node with
    | .skip => []
    | .leaf value => [value]
    | .branch finish => [finish []]

def foldForest (visit : Nat → Node → Visit α) (depth : Nat) : List Node → List α
  | [] => []
  | node :: rest => foldNode visit depth node ++ foldForest visit depth rest

end

end Node

end StoreMarkup
