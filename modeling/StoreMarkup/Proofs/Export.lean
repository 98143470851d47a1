import StoreMarkup.Proofs.Forest
import StoreMarkup.Tree.Visitor

/-! Exported trees: every node has one value, inside that of its parent, and places are all that an
export with them has more. -/
namespace StoreMarkup

namespace Json

mutual

/-- The value without the fields of a name, at any depth. -/
def erase (key : String) : Json → Json
  | array items => array (eraseItems key items)
  | object fields => object (eraseFields key fields)
  | j => j

def eraseItems (key : String) : List Json → List Json
  | [] => []
  | j :: js => j.erase key :: eraseItems key js

def eraseFields (key : String) : List (String × Json) → List (String × Json)
  | [] => []
  | (k, v) :: rest =>
    if k = key then eraseFields key rest else (k, v.erase key) :: eraseFields key rest

end

variable {key : String}

@[simp] theorem erase_null : null.erase key = null := rfl

@[simp] theorem erase_bool (b : Bool) : (bool b).erase key = bool b := rfl

@[simp] theorem erase_text (t : Text) : (text t).erase key = text t := rfl

@[simp] theorem erase_string (s : String) : (string s).erase key = string s := rfl

@[simp] theorem erase_array (items : List Json) :
    (array items).erase key = array (items.map (erase key)) := by
  have hitems : eraseItems key items = items.map (erase key) := by
    induction items with
    | nil => simp [eraseItems]
    | cons j js ih => simp [eraseItems, ih]
  rw [erase, hitems]

theorem eraseFields_append (fields others : List (String × Json)) :
    eraseFields key (fields ++ others) = eraseFields key fields ++ eraseFields key others := by
  induction fields with
  | nil => simp [eraseFields]
  | cons field fields ih =>
    obtain ⟨k, v⟩ := field
    simp only [List.cons_append, eraseFields, ih]
    split <;> simp

end Json

/-- The place at the end of an object is erased with everything in it. -/
theorem erase_withSpan (fields : List (String × Json)) (span : Span) :
    (withSpan true fields span).erase "span" =
      withSpan false (Json.eraseFields "span" fields) span := by
  simp [withSpan, Json.erase, Json.eraseFields_append, Json.eraseFields]

theorem Fragment.erase_toJson (f : Located Fragment) :
    (Fragment.toJson true f).erase "span" = Fragment.toJson false f := by
  obtain ⟨value, span⟩ := f
  cases value <;> simp [Fragment.toJson, erase_withSpan, Json.eraseFields]

theorem Attribute.erase_toJson (a : Attribute) :
    (a.toJson true).erase "span" = a.toJson false := by
  cases hvalue : a.value <;>
    simp [Attribute.toJson, hvalue, erase_withSpan, Json.eraseFields, Function.comp_def,
      Fragment.erase_toJson]

namespace Node

theorem erase_toJson (node : Node) (children : List Json) :
    (node.toJson true children).erase "span" =
      node.toJson false (children.map (Json.erase "span")) := by
  cases node <;>
    simp [toJson, erase_withSpan, Json.eraseFields, Function.comp_def, Attribute.erase_toJson]

/-- An export without places is one with places and these left out. -/
theorem erase_exportAll (nodes : List Node) :
    (exportAll true nodes).map (Json.erase "span") = exportAll false nodes := by
  induction nodes using forest_induction with
  | nil => simp
  | cons node rest inside after =>
    rw [exportAll_cons, List.map_cons, erase_toJson, inside, after, exportAll_cons]

mutual

/-- A node as JSON by recursion. -/
def exported (spans : Bool) : Node → Json
  | text content span =>
    withSpan spans [("type", .string "text"), ("content", .text content)] span
  | comment _ content _ span =>
    withSpan spans [("type", .string "comment"), ("content", .text content)] span
  | expression opening body _ span =>
    withSpan spans [("type", .string "expression"), ("expression", .text body),
      ("delimiter", .text opening)] span
  | element e children =>
    withSpan spans [("type", .string "element"), ("tag_name", .text e.tag),
      ("self_closing", .bool e.selfClosing),
      ("attributes", .array (e.attributes.map (Attribute.toJson spans))),
      ("children", .array (exportedAll spans children))] e.span

def exportedAll (spans : Bool) : List Node → List Json
  | [] => []
  | node :: rest => node.exported spans :: exportedAll spans rest

end

theorem exported_eq (spans : Bool) (node : Node) :
    node.exported spans = node.toJson spans (exportedAll spans node.children) := by
  cases node <;> simp [exported, toJson, children, span]

theorem exportAll_eq (spans : Bool) (nodes : List Node) :
    exportAll spans nodes = exportedAll spans nodes := by
  induction nodes using forest_induction with
  | nil => simp [exportedAll]
  | cons node rest inside after => rw [exportAll_cons, inside, after, exportedAll, exported_eq]

/-- A node that is visited alone is exported as in its forest. -/
theorem visit_exporter (spans : Bool) (node : Node) :
    (Visitor.exporter spans).visit node = .ok (node.exported spans) := by
  have halone : exportAll spans [node] = [node.exported spans] := by
    rw [exportAll_eq, exportedAll, exportedAll]
  cases node with
  | element e children => simp [Visitor.visit, Visitor.exporter, Visitor.ofFunction, kind, halone]
  | _ => simp [Visitor.visit, Visitor.exporter, Visitor.ofFunction, kind, exported_eq, children,
    exportedAll]

theorem visitAll_exporter (spans : Bool) (nodes : List Node) :
    (Visitor.exporter spans).visitAll nodes = .ok (exportedAll spans nodes) := by
  induction nodes with
  | nil => simp [Visitor.visitAll, exportedAll, pure, Except.pure]
  | cons node rest ih =>
    rw [Visitor.visitAll] at ih ⊢
    rw [List.mapM_cons, visit_exporter, ih, exportedAll]
    rfl

/-- Exporting a forest gives the values of its nodes by recursion, each with those of its children
in their order. With places left out it is the export without places, and visiting the nodes one by
one gives the same. -/
theorem export_faithful (spans : Bool) (nodes : List Node) :
    exportAll spans nodes = exportedAll spans nodes ∧
      (exportAll true nodes).map (Json.erase "span") = exportAll false nodes ∧
      (Visitor.exporter spans).visitAll nodes = .ok (exportAll spans nodes) := by
  refine ⟨exportAll_eq spans nodes, erase_exportAll nodes, ?_⟩
  rw [visitAll_exporter, exportAll_eq]

end Node

end StoreMarkup
