import StoreMarkup.Proofs.Depth
import StoreMarkup.Tree.Outline

/-! Outlines: a limit leaves the items down to its level and nothing else. -/
namespace StoreMarkup

namespace Outline

mutual

/-- The outline of a tree by recursion. Only elements have a place in it. -/
def ofNode : Node → List Outline
  | .element e children => [item e.tag e.span.start e.selfClosing e.recovered (ofForest children)]
  | _ => []

def ofForest : List Node → List Outline
  | [] => []
  | node :: rest => ofNode node ++ ofForest rest

end

mutual

/-- What is left of an item of a level without the items below the limit. -/
def prunedItem (limit : Int) (level : Nat) : Outline → List Outline
  | item tag start selfClosing recovered children =>
    if (level : Int) ≤ limit then
      [item tag start selfClosing recovered (pruned limit (level + 1) children)]
    else []

def pruned (limit : Int) (level : Nat) : List Outline → List Outline
  | [] => []
  | o :: os => prunedItem limit level o ++ pruned limit level os

end

/-- An outline without the items of levels above the limit. -/
def prune (limit : Int) (outline : List Outline) : List Outline := pruned limit 1 outline

mutual

/-- How many items are nested in each other. -/
def height : Outline → Nat
  | item _ _ _ _ children => heightAll children + 1

def heightAll : List Outline → Nat
  | [] => 0
  | o :: os => max o.height (heightAll os)

end

/-- An item as a line of a list: its level stands for its place in the outline. -/
structure Line where
  level : Nat
  tag : Text
  start : Position
  selfClosing : Bool
  recovered : Bool
deriving DecidableEq, Repr

mutual

/-- The lines of an item of a level and of those inside it, in their order. -/
def itemLines (level : Nat) : Outline → List Line
  | item tag start selfClosing recovered children =>
    ⟨level, tag, start, selfClosing, recovered⟩ :: lines (level + 1) children

def lines (level : Nat) : List Outline → List Line
  | [] => []
  | o :: os => itemLines level o ++ lines level os

end

/-- An outline is empty, or an item with an outline inside and one after it. -/
theorem outline_induction {P : List Outline → Prop} (nil : P [])
    (cons : ∀ tag start selfClosing recovered children rest, P children → P rest →
      P (item tag start selfClosing recovered children :: rest)) : ∀ outline, P outline
  | [] => nil
  | item _ _ _ _ children :: rest =>
    cons _ _ _ _ _ _ (outline_induction nil cons children) (outline_induction nil cons rest)

section Recursion

variable (nodes : List Node)

@[simp] theorem ofForest_nil : ofForest [] = [] := by
  simp [ofForest]

theorem ofForest_element (e : Element) (children : List Node) :
    ofForest (.element e children :: nodes) =
      item e.tag e.span.start e.selfClosing e.recovered (ofForest children) :: ofForest nodes := by
  simp [ofForest, ofNode]

theorem ofForest_leaf {node : Node} (h : node.kind ≠ .element) :
    ofForest (node :: nodes) = ofForest nodes := by
  cases node with
  | element => exact (h rfl).elim
  | _ => simp [ofForest, ofNode]

theorem foldForest_visit_element (limit : Option Int) (level : Nat) (e : Element)
    (children : List Node) :
    Node.foldForest (visit limit) level (.element e children :: nodes) =
      (if within limit level then
        [item e.tag e.span.start e.selfClosing e.recovered
          (Node.foldForest (visit limit) (level + 1) children)]
      else []) ++ Node.foldForest (visit limit) level nodes := by
  rw [Node.foldForest, Node.foldNode_eq]
  by_cases h : within limit level = true
  · simp [visit, Node.element?, Node.children, h]
  · simp [visit, Node.element?, h]

theorem foldForest_visit_leaf {node : Node} (h : node.kind ≠ .element) (limit : Option Int)
    (level : Nat) :
    Node.foldForest (visit limit) level (node :: nodes) =
      Node.foldForest (visit limit) level nodes := by
  have hvisit : visit limit level node = .skip := by rw [visit, Node.element?_leaf h]
  rw [Node.foldForest, Node.foldNode_eq, hvisit]
  rfl

theorem foldForest_visit_none (level : Nat) :
    Node.foldForest (visit none) level nodes = ofForest nodes := by
  induction nodes using Node.element_induction generalizing level with
  | nil => simp [Node.foldForest]
  | element e children rest inside after =>
    rw [foldForest_visit_element, inside, after, ofForest_element]
    rfl
  | leaf node rest h after => rw [foldForest_visit_leaf rest h, after, ofForest_leaf rest h]

theorem ofNodes_none : ofNodes none nodes = ofForest nodes := by
  rw [ofNodes, Node.fold_eq, foldForest_visit_none]

theorem heightAll_ofForest : heightAll (ofForest nodes) = Node.heightAll nodes := by
  induction nodes using Node.element_induction with
  | nil => simp [heightAll]
  | element e children rest inside after =>
    rw [ofForest_element, heightAll, height, inside, after, Node.heightAll_cons, Node.height]
  | leaf node rest h after =>
    rw [ofForest_leaf rest h, after, Node.heightAll_cons, Node.height_eq, if_neg h, Nat.zero_max]

end Recursion

section Pruning

variable {tag : Text} {start : Position} {selfClosing recovered : Bool}
  {children rest outline : List Outline}
  {d e : Int} {level : Nat}

@[simp] theorem pruned_nil : pruned d level [] = [] := by
  simp [pruned]

theorem pruned_cons_of_le (h : (level : Int) ≤ d) :
    pruned d level (item tag start selfClosing recovered children :: rest) =
      item tag start selfClosing recovered (pruned d (level + 1) children) ::
        pruned d level rest := by
  simp [pruned, prunedItem, h]

/-- An item goes with all that is inside it. -/
theorem pruned_cons_of_lt (h : d < level) :
    pruned d level (item tag start selfClosing recovered children :: rest) =
      pruned d level rest := by
  simp [pruned, prunedItem, Int.not_le.mpr h]

/-- The limit cuts off on the way what would be cut off at the end. -/
theorem foldForest_visit_some (d : Int) (level : Nat) (nodes : List Node) :
    Node.foldForest (visit (some d)) level nodes = pruned d level (ofForest nodes) := by
  induction nodes using Node.element_induction generalizing level with
  | nil => simp [Node.foldForest]
  | element f children rest inside after =>
    rw [foldForest_visit_element, inside, after, ofForest_element]
    by_cases h : (level : Int) ≤ d
    · simp [pruned_cons_of_le h, within, h]
    · simp [pruned_cons_of_lt (Int.not_le.mp h), within, h]
  | leaf node rest h after => rw [foldForest_visit_leaf rest h, after, ofForest_leaf rest h]

theorem ofNodes_some (d : Int) (nodes : List Node) :
    ofNodes (some d) nodes = prune d (ofForest nodes) := by
  rw [ofNodes, Node.fold_eq, foldForest_visit_some, prune]

/-- Pruning twice leaves what the lower limit leaves. -/
theorem pruned_pruned (d e : Int) (level : Nat) (outline : List Outline) :
    pruned e level (pruned d level outline) = pruned (min d e) level outline := by
  induction outline using outline_induction generalizing level with
  | nil => simp
  | cons tag start selfClosing recovered children rest inside after =>
    by_cases hd : (level : Int) ≤ d
    · rw [pruned_cons_of_le hd]
      by_cases he : (level : Int) ≤ e
      · rw [pruned_cons_of_le he, inside, after, pruned_cons_of_le (by omega)]
      · rw [pruned_cons_of_lt (by omega), after, pruned_cons_of_lt (by omega)]
    · rw [pruned_cons_of_lt (by omega), after, pruned_cons_of_lt (by omega)]

/-- Of the levels from `level + 1` on, those down to the limit are left. -/
theorem heightAll_pruned (d : Int) (level : Nat) (outline : List Outline) :
    heightAll (pruned d (level + 1) outline) = min (d - level).toNat (heightAll outline) := by
  induction outline using outline_induction generalizing level with
  | nil => simp [heightAll]
  | cons tag start selfClosing recovered children rest inside after =>
    have hinside := inside (level + 1)
    have hafter := after level
    by_cases h : ((level + 1 : Nat) : Int) ≤ d
    · rw [pruned_cons_of_le h, heightAll, height, heightAll, height]
      omega
    · rw [pruned_cons_of_lt (by omega), heightAll, height]
      omega

theorem level_le_of_mem_lines {x : Line} (h : x ∈ lines level outline) : level ≤ x.level := by
  induction outline using outline_induction generalizing level with
  | nil => simp [lines] at h
  | cons tag start selfClosing recovered children rest inside after =>
    rw [lines, itemLines, List.cons_append, List.mem_cons, List.mem_append] at h
    rcases h with rfl | h | h
    · exact Nat.le_refl _
    · have := inside h
      omega
    · exact after h

/-- Pruning removes the lines of the levels above the limit, and keeps the others in their order. -/
theorem lines_pruned (d : Int) (level : Nat) (outline : List Outline) :
    lines level (pruned d level outline) =
      (lines level outline).filter fun x => (x.level : Int) ≤ d := by
  induction outline using outline_induction generalizing level with
  | nil => simp [lines]
  | cons tag start selfClosing recovered children rest inside after =>
    by_cases h : (level : Int) ≤ d
    · rw [pruned_cons_of_le h, lines, itemLines, lines, itemLines, inside, after]
      simp [h]
    · have hitem : (itemLines level (item tag start selfClosing recovered children)).filter
          (fun x => (x.level : Int) ≤ d) = [] := by
        rw [List.filter_eq_nil_iff]
        intro x hx
        have hmem : x ∈ lines level [item tag start selfClosing recovered children] := by
          simpa [lines] using hx
        have := level_le_of_mem_lines hmem
        rw [decide_eq_true_eq]
        omega
      rw [pruned_cons_of_lt (by omega), lines, List.filter_append, hitem, after, List.nil_append]

end Pruning

/-- Without a limit an outline is the forest of the elements. A limit removes the items of the
levels above it and nothing else, so that of two limits the lower one counts, and the outline is as
deep as the limit and the elements allow. -/
theorem ofNodes_pruned (nodes : List Node) (d e : Int) :
    ofNodes none nodes = ofForest nodes ∧
    ofNodes (some d) nodes = prune d (ofNodes none nodes) ∧
    lines 1 (ofNodes (some d) nodes) =
      (lines 1 (ofNodes none nodes)).filter (fun x => (x.level : Int) ≤ d) ∧
    prune e (ofNodes (some d) nodes) = ofNodes (some (min d e)) nodes ∧
    heightAll (ofNodes none nodes) = Node.maxDepth nodes ∧
    (heightAll (ofNodes (some d) nodes) : Int) = min (max d 0) (Node.maxDepth nodes) := by
  simp only [ofNodes_none, ofNodes_some]
  refine ⟨trivial, trivial, ?_, ?_, ?_, ?_⟩
  · exact lines_pruned d 1 _
  · exact pruned_pruned d e 1 _
  · rw [heightAll_ofForest, Node.maxDepth_eq]
  · have hheight := heightAll_pruned d 0 (ofForest nodes)
    rw [heightAll_ofForest, ← Node.maxDepth_eq] at hheight
    rw [prune, hheight]
    omega

end Outline

end StoreMarkup
