import StoreMarkup.Document
import StoreMarkup.Proofs.Forest

/-! The depth of a forest: how its elements are nested, on a stack, in the tree and in its
export. -/
namespace StoreMarkup

namespace Node

mutual

/-- How many elements of a tree are nested in each other. -/
def height : Node → Nat
  | element _ children => heightAll children + 1
  | _ => 0

def heightAll : List Node → Nat
  | [] => 0
  | node :: rest => max node.height (heightAll rest)

end

@[simp] theorem heightAll_nil : heightAll [] = 0 := by
  simp [heightAll]

@[simp] theorem heightAll_cons (node : Node) (rest : List Node) :
    heightAll (node :: rest) = max node.height (heightAll rest) := by
  simp [heightAll]

theorem height_eq (node : Node) :
    node.height = if node.kind = .element then heightAll node.children + 1 else 0 := by
  cases node <;> simp [height, kind, children]

/-- The deepest level of the elements on a stack and of those inside them. -/
def reach (stack : List (Node × Nat)) : Nat :=
  stack.foldr (fun x deepest => max (x.2 + heightAll x.1.children) deepest) 0

theorem reach_cons (node : Node) (level : Nat) (stack : List (Node × Nat)) :
    reach ((node, level) :: stack) = max (level + heightAll node.children) (reach stack) := rfl

theorem reach_append (xs ys : List (Node × Nat)) :
    reach (xs ++ ys) = max (reach xs) (reach ys) := by
  induction xs with
  | nil => exact (Nat.zero_max _).symm
  | cons x xs ih =>
    obtain ⟨node, level⟩ := x
    rw [List.cons_append, reach_cons, reach_cons, ih, Nat.max_assoc]

theorem stacked_cons (level : Nat) (node : Node) (nodes : List Node) :
    stacked level (node :: nodes) =
    stacked level nodes ++ if node.kind = .element then [(node, level)] else [] := by
  by_cases h : node.kind = .element <;> simp [stacked, h]

/-- The elements inside one of a level reach as many levels further as they are nested. -/
theorem max_reach_stacked (level : Nat) (nodes : List Node) :
    max level (reach (stacked (level + 1) nodes)) = level + heightAll nodes := by
  induction nodes with
  | nil => exact Nat.max_eq_left (Nat.zero_le _)
  | cons node nodes ih =>
    have hnode := height_eq node
    rw [stacked_cons, reach_append, heightAll_cons]
    by_cases h : node.kind = .element
    · rw [if_pos h] at hnode ⊢
      have halone : reach [(node, level + 1)] = level + 1 + heightAll node.children :=
        Nat.max_zero _
      omega
    · rw [if_neg h] at hnode ⊢
      have hnone : reach [] = 0 := rfl
      omega

/-- The order of the stack does not matter: each element on it reaches as deep as it would alone. -/
theorem deepestFrom_eq (deepest : Nat) (stack : List (Node × Nat)) :
    deepestFrom deepest stack = max deepest (reach stack) := by
  fun_induction deepestFrom deepest stack with
  | case1 deepest => exact (Nat.max_eq_left (Nat.zero_le _)).symm
  | case2 deepest node level rest ih =>
    have hinside := max_reach_stacked level node.children
    rw [ih, reach_append, reach_cons]
    omega

theorem maxDepth_eq (nodes : List Node) : maxDepth nodes = heightAll nodes := by
  have hinside := max_reach_stacked 0 nodes
  rw [Nat.zero_add, Nat.zero_add] at hinside
  rw [maxDepth, deepestFrom_eq, hinside]

end Node

namespace Json

/-- Whether an object with these fields stands for an element. -/
def describesElement (fields : List (String × Json)) : Bool :=
  (fields.lookup "type").any fun v => v.string? == some "element"

mutual

/-- How many objects that stand for elements are nested in each other in a value. -/
def elementDepth : Json → Nat
  | array items => elementDepthItems items
  | object fields =>
    if describesElement fields then elementDepthFields fields + 1 else elementDepthFields fields
  | _ => 0

def elementDepthItems : List Json → Nat
  | [] => 0
  | j :: js => max j.elementDepth (elementDepthItems js)

def elementDepthFields : List (String × Json) → Nat
  | [] => 0
  | (_, v) :: rest => max v.elementDepth (elementDepthFields rest)

end

@[simp] theorem elementDepth_null : null.elementDepth = 0 := by simp [elementDepth]

@[simp] theorem elementDepth_bool (b : Bool) : (bool b).elementDepth = 0 := by simp [elementDepth]

@[simp] theorem elementDepth_nat (n : Nat) : (nat n).elementDepth = 0 := by simp [elementDepth, nat]

@[simp] theorem elementDepth_text (t : Text) : (text t).elementDepth = 0 := by
  simp [elementDepth, text]

@[simp] theorem elementDepth_string (s : String) :
    (string s).elementDepth = 0 := by simp [elementDepth]

@[simp] theorem elementDepth_array (items : List Json) :
    (array items).elementDepth = elementDepthItems items := by simp [elementDepth]

theorem elementDepth_object (fields : List (String × Json)) : (object fields).elementDepth =
    if describesElement fields then elementDepthFields fields + 1
      else elementDepthFields fields := by
  simp [elementDepth]

theorem elementDepthItems_eq_zero {items : List Json} (h : ∀ j ∈ items, j.elementDepth = 0) :
    elementDepthItems items = 0 := by
  induction items with
  | nil => simp [elementDepthItems]
  | cons j js ih =>
    obtain ⟨hj, hjs⟩ := List.forall_mem_cons.mp h
    rw [elementDepthItems, hj, ih hjs]
    rfl

theorem elementDepthFields_append (fields others : List (String × Json)) :
    elementDepthFields (fields ++ others) =
      max (elementDepthFields fields) (elementDepthFields others) := by
  induction fields with
  | nil => simp [elementDepthFields]
  | cons field fields ih =>
    obtain ⟨key, value⟩ := field
    simp only [List.cons_append, elementDepthFields, ih, Nat.max_assoc]

end Json

theorem Span.elementDepth_toJson (s : Span) : s.toJson.elementDepth = 0 := by
  simp [Span.toJson, Json.elementDepth_object, Json.describesElement, Json.elementDepthFields,
    List.lookup_cons]

/-- A place at the end of an object changes neither what the object stands for nor its depth. -/
theorem elementDepth_withSpan (spans : Bool) (fields : List (String × Json)) (span : Span) :
    (withSpan spans fields span).elementDepth = (Json.object fields).elementDepth := by
  cases spans with
  | false => rfl
  | true =>
    have hkind : Json.describesElement (fields ++ [("span", span.toJson)]) =
        Json.describesElement fields := by
      simp [Json.describesElement, List.lookup_append, List.lookup_cons]
    have hdepth : Json.elementDepthFields [("span", span.toJson)] = 0 := by
      simp [Json.elementDepthFields, Span.elementDepth_toJson]
    rw [withSpan, if_pos rfl, Json.elementDepth_object, Json.elementDepth_object, hkind,
      Json.elementDepthFields_append, hdepth, Nat.max_zero]

theorem Fragment.elementDepth_toJson (spans : Bool) (f : Located Fragment) :
    (Fragment.toJson spans f).elementDepth = 0 := by
  obtain ⟨value, span⟩ := f
  cases value <;>
    simp [Fragment.toJson, elementDepth_withSpan, Json.elementDepth_object, Json.describesElement,
      Json.elementDepthFields, Json.string?]

theorem Attribute.elementDepth_toJson (spans : Bool) (a : Attribute) :
    (a.toJson spans).elementDepth = 0 := by
  have hfragments : ∀ fragments : List (Located Fragment),
      Json.elementDepthItems (fragments.map (Fragment.toJson spans)) = 0 := by
    intro fragments
    apply Json.elementDepthItems_eq_zero
    intro j hj
    obtain ⟨f, -, rfl⟩ := List.mem_map.mp hj
    exact Fragment.elementDepth_toJson spans f
  cases hvalue : a.value <;>
    simp [Attribute.toJson, hvalue, elementDepth_withSpan, Json.elementDepth_object,
      Json.describesElement, Json.elementDepthFields, hfragments, List.lookup_cons]

namespace Node

theorem elementDepth_toJson (spans : Bool) (node : Node) (children : List Json) :
    (node.toJson spans children).elementDepth =
      if node.kind = .element then Json.elementDepthItems children + 1 else 0 := by
  cases node with
  | element e inside =>
    have hattributes : Json.elementDepthItems (e.attributes.map (Attribute.toJson spans)) = 0 := by
      apply Json.elementDepthItems_eq_zero
      intro j hj
      obtain ⟨a, -, rfl⟩ := List.mem_map.mp hj
      exact Attribute.elementDepth_toJson spans a
    simp [toJson, elementDepth_withSpan, Json.elementDepth_object, Json.describesElement,
      Json.elementDepthFields, Json.string?, kind, hattributes]
  | _ =>
    simp [toJson, elementDepth_withSpan, Json.elementDepth_object, Json.describesElement,
      Json.elementDepthFields, Json.string?, kind]

/-- An export is nested as the elements of its forest are. -/
theorem elementDepth_exportAll (spans : Bool) (nodes : List Node) :
    Json.elementDepthItems (exportAll spans nodes) = heightAll nodes := by
  induction nodes using forest_induction with
  | nil => simp [Json.elementDepthItems]
  | cons node rest inside after =>
    rw [exportAll_cons, Json.elementDepthItems, elementDepth_toJson, inside, after, heightAll_cons,
      height_eq]

end Node

end StoreMarkup
