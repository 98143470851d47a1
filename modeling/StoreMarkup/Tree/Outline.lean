import StoreMarkup.Tree.Export

/-! The elements of a tree in outline. -/
namespace StoreMarkup

/-- An element in an outline, with those inside it. -/
inductive Outline where
  | item (tag : Text) (start : Position) (selfClosing recovered : Bool) (children : List Outline)
deriving Repr

namespace Outline

/-- Whether elements of a level are within a limit, if there is one. -/
def within (limit : Option Int) (depth : Nat) : Bool := limit.all fun l => (depth : Int) ≤ l

/-- Only elements within the limit are shown, and those inside them. -/
def visit (limit : Option Int) (depth : Nat) (node : Node) : Visit Outline :=
  match node.element? with
  | none => .skip
  | some e =>
    if within limit depth then .branch (item e.tag e.span.start e.selfClosing e.recovered)
    else .skip

/-- The outline of a forest down to a level. -/
def ofNodes (limit : Option Int) (nodes : List Node) : List Outline := Node.fold (visit limit) nodes

mutual

def toJson : Outline → Json
  | item tag start selfClosing recovered children =>
    .object [("tag", .text tag), ("line", .nat start.line), ("column", .nat start.column),
      ("self_closing", .bool selfClosing), ("recovered", .bool recovered),
      ("children", .array (allToJson children))]

def allToJson : List Outline → List Json
  | [] => []
  | o :: os => o.toJson :: allToJson os

end

end Outline

end StoreMarkup
