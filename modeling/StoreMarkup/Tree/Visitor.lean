import StoreMarkup.Tree.Export
import StoreMarkup.Tree.Source

/-! Visitors: a method for each kind of node. -/
namespace StoreMarkup

/-- What to do with the nodes of each kind. A method may be missing. -/
structure Visitor (α : Type) where
  method : NodeKind → Option (Node → α)

/-- A node of a kind without a method. -/
structure NoMethod where
  kind : NodeKind
deriving DecidableEq, Repr

def NoMethod.message (e : NoMethod) : String :=
  let label := e.kind.label
  s!"No visitor method for node kind <NodeKind.{label.toUpper}: '{label}'>"

namespace Visitor

variable {α : Type}

def visit (v : Visitor α) (node : Node) : Except NoMethod α :=
  match v.method node.kind with
  | some f => .ok (f node)
  | none => .error ⟨node.kind⟩

/-- Visits the nodes themselves, up to the first without a method. -/
def visitAll (v : Visitor α) (nodes : List Node) : Except NoMethod (List α) := nodes.mapM v.visit

/-- Visits all nodes of a forest in document order. -/
def visitTree (v : Visitor α) (nodes : List Node) : Except NoMethod (List α) :=
  v.visitAll (Node.walk nodes)

/-- The same method for every node. -/
def ofFunction (f : Node → α) : Visitor α := ⟨fun _ => some f⟩

/-- Writes each node with all that is inside it. Only an element needs a forest of its own for
that. -/
def writer : Visitor Text :=
  ofFunction fun node =>
    match node.kind with
    | .element => Node.write [node]
    | _ => node.opening

/-- Exports each node with all that is inside it. An element is the first and only value of the
forest that it is alone. -/
def exporter (spans : Bool) : Visitor Json :=
  ofFunction fun node =>
    match node.kind with
    | .element => (Node.exportAll spans [node]).headD .null
    | _ => node.toJson spans []

/-- Without methods for some kinds. -/
def without (v : Visitor α) (kinds : List NodeKind) : Visitor α :=
  ⟨fun kind => if kinds.contains kind then none else v.method kind⟩

end Visitor

end StoreMarkup
