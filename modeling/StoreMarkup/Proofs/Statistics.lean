import StoreMarkup.Proofs.Depth
import StoreMarkup.Service.Endpoint

/-! Statistics: counting on a stack agrees with the walk over the nodes, and the depth that is
counted is the one that limits the export. -/
namespace StoreMarkup

namespace Statistics

/-- The counts over nodes in document order, where elements are nested as deep as given. -/
def summary (nodes : List Node) (maxDepth : Nat) : Statistics :=
  let es := nodes.filterMap Node.element?
  { textNodes := nodes.countP fun node => node.kind == .text
    elements := es.length
    ismlTags := es.countP fun e => isIsmlTag e.tag
    expressions := nodes.countP (fun node => node.kind == .expression) +
      (es.flatMap fun e => e.attributes.flatMap (·.expressions)).length
    comments := nodes.countP fun node => node.kind == .comment
    maxDepth
    tags := ((es.map Element.tag).filter isIsmlTag).eraseDups }

variable (before : List Node) (deepest level : Nat)

/-- A name is added to those in use if it is one of ISML and new. -/
theorem eraseDups_concat (names : List Text) (name : Text) :
    (if isIsmlTag name && !names.eraseDups.contains name then names.eraseDups ++ [name]
      else names.eraseDups) = (names ++ [name].filter isIsmlTag).eraseDups := by
  by_cases hisml : isIsmlTag name = true
  · rw [List.filter_cons_of_pos hisml, List.filter_nil, List.eraseDups_append]
    by_cases hnew : name ∈ names <;> simp [hisml, hnew, List.removeAll, List.eraseDups_cons]
  · simp [hisml]

theorem add_summary_element (e : Element) (children : List Node) :
    (summary before deepest).add (.element e children) level =
      summary (before ++ [.element e children]) (max deepest level) := by
  have hes : (before ++ [Node.element e children]).filterMap Node.element? =
      before.filterMap Node.element? ++ [e] := List.filterMap_append
  have hisml : ∀ n : Nat, (if isIsmlTag e.tag then n + 1 else n) =
      n + if isIsmlTag e.tag then 1 else 0 := by
    intro n
    split <;> rfl
  have htags := eraseDups_concat
    (((before.filterMap Node.element?).map Element.tag).filter isIsmlTag) e.tag
  simp only [summary, hes, List.countP_append, List.countP_singleton, List.length_append,
    List.flatMap_append, List.map_append, List.filter_append, ← Nat.add_assoc,
    Statistics.mk.injEq, add,
    addElement]
  exact ⟨rfl, rfl, hisml _, by simp [Node.kind], rfl, trivial, htags⟩

/-- The level of a node that is no element does not count. -/
theorem add_summary_leaf {node : Node} (h : node.kind ≠ .element) :
    (summary before deepest).add node level = summary (before ++ [node]) deepest := by
  have hes : (before ++ [node]).filterMap Node.element? = before.filterMap Node.element? := by
    rw [List.filterMap_append, List.filterMap_cons_none (Node.element?_leaf h), List.filterMap_nil,
      List.append_nil]
  simp only [summary, hes, List.countP_append, List.countP_singleton]
  cases node with
  | element => exact (h rfl).elim
  | expression =>
    rw [Nat.add_right_comm]
    rfl
  | _ => rfl

/-- The forest on top of a stack is counted as a whole before the rest of the stack. -/
theorem addAll_append (nodes : List Node) (rest : List (Node × Nat)) (hlevel : level ≤ deepest) :
    addAll (summary before deepest) (nodes.map (·, level + 1) ++ rest) =
      addAll (summary (before ++ Node.walk nodes) (max deepest (level + Node.heightAll nodes)))
        rest := by
  induction nodes using Node.element_induction generalizing before deepest level rest with
  | nil =>
    rw [Node.walk_nil, List.append_nil, Node.heightAll_nil, Nat.add_zero level,
      Nat.max_eq_left hlevel]
    rfl
  | element e children nodes inside after =>
    rw [List.map_cons, List.cons_append, addAll, add_summary_element]
    have hinside : level + 1 ≤ max deepest (level + 1) := Nat.le_max_right ..
    have hafter : level ≤ max (max deepest (level + 1)) (level + 1 + Node.heightAll children) := by
      omega
    have hdepth : max (max (max deepest (level + 1)) (level + 1 + Node.heightAll children))
          (level + Node.heightAll nodes) =
        max deepest (level + max (Node.heightAll children + 1) (Node.heightAll nodes)) := by omega
    rw [Node.children, inside _ _ _ _ hinside, after _ _ _ _ hafter, hdepth, Node.walk_cons,
      Node.heightAll_cons, Node.height, Node.children]
    simp only [List.append_assoc, List.cons_append, List.nil_append]
  | leaf node nodes h after =>
    have hheight : node.height = 0 := by rw [Node.height_eq, if_neg h]
    rw [List.map_cons, List.cons_append, addAll, add_summary_leaf before deepest _ h,
      Node.children_leaf h, List.map_nil, List.nil_append, after _ _ _ _ hlevel, Node.walk_cons,
      Node.children_leaf h,
      Node.walk_nil, Node.heightAll_cons, hheight, Nat.zero_max, List.append_assoc]

/-- Counting on the stack visits the nodes of the walk. -/
theorem ofNodes_eq (nodes : List Node) :
    ofNodes nodes = summary (Node.walk nodes) (Node.heightAll nodes) := by
  have hall := addAll_append [] 0 0 nodes [] (Nat.le_refl _)
  rw [List.append_nil, addAll, List.nil_append, Nat.zero_max, Nat.zero_add (Node.heightAll nodes)]
    at hall
  exact hall

/-- Every node is of one kind. -/
theorem length_eq_counts (nodes : List Node) :
    nodes.countP (fun node => node.kind == .text) + (nodes.filterMap Node.element?).length +
      nodes.countP (fun node => node.kind == .comment) +
      nodes.countP (fun node => node.kind == .expression) = nodes.length := by
  have helement : (fun node : Node => node.element?.isSome) =
      fun node => node.kind == .element := by
    funext node
    cases node <;> rfl
  rw [List.length_filterMap_eq_countP, helement]
  induction nodes with
  | nil => rfl
  | cons node nodes ih =>
    simp only [List.countP_cons, List.length_cons]
    cases node.kind <;> simp <;> omega

end Statistics

theorem Document.elements_none (doc : Document) :
    doc.elements none = (Node.walk doc.children).filterMap Node.element? := by
  simp [elements, Node.elements]

theorem Document.elementDepth_toJson (doc : Document) (spans : Bool) :
    ∃ children, (doc.toJson spans).get? "children" = some children ∧
      children.elementDepth = doc.maxDepth := by
  refine ⟨.array (Node.exportAll spans doc.children), by simp [toJson, Json.get?, List.lookup_cons],
    ?_⟩
  rw [Json.elementDepth_array, Node.elementDepth_exportAll, maxDepth, Node.maxDepth_eq]

open Service in
/-- An export that is sent is not nested deeper than the limit says. -/
theorem Document.elementDepth_le_of_treeResponse (doc : Document) {limit : Limit} {n : Int}
    {spans : Bool} {body : Json} (hlimit : limit.bound = .ok (some n))
    (hsent : treeResponse limit spans doc = ⟨200, some body⟩) :
    ∃ children, body.get? "children" = some children ∧ (children.elementDepth : Int) ≤ n := by
  obtain ⟨children, hchildren, hdepth⟩ := doc.elementDepth_toJson spans
  by_cases hdeep : n < (doc.maxDepth : Int)
  · simp [treeResponse, hlimit, hdeep, Response.error] at hsent
  · have hbody : doc.toJson spans = body := by simpa [treeResponse, hlimit, hdeep] using hsent
    refine ⟨children, hbody ▸ hchildren, ?_⟩
    omega

open Service in
/-- The statistics of a document count what the walk over its nodes finds. The depth they give is
that of the elements, of the document and of its export, so that a limit on the one is a limit on
the other. -/
theorem Report.statistics_agree (outline : Option Int) (doc : Document) :
    (ofDocument outline doc).statistics.maxDepth = doc.maxDepth ∧
    doc.maxDepth = Node.heightAll doc.children ∧
    (∀ spans, ∃ children, (doc.toJson spans).get? "children" = some children ∧
      children.elementDepth = doc.maxDepth) ∧
    (∀ (limit : Limit) (n : Int) (spans : Bool) (body : Json), limit.bound = .ok (some n) →
      treeResponse limit spans doc = ⟨200, some body⟩ →
        ∃ children, body.get? "children" = some children ∧ (children.elementDepth : Int) ≤ n) ∧
    (ofDocument outline doc).statistics.elements = (doc.elements none).length ∧
    (ofDocument outline doc).statistics.textNodes + (ofDocument outline doc).statistics.elements +
      (ofDocument outline doc).statistics.comments +
      (Node.walk doc.children).countP (fun node => node.kind == .expression) =
        (Node.walk doc.children).length ∧
    (ofDocument outline doc).statistics.expressions =
      (Node.walk doc.children).countP (fun node => node.kind == .expression) +
        ((doc.elements none).flatMap fun e => e.attributes.flatMap (·.expressions)).length ∧
    (ofDocument outline doc).statistics.tags =
      (((doc.elements none).map Element.tag).filter isIsmlTag).eraseDups := by
  have hstatistics : (ofDocument outline doc).statistics =
      .summary (Node.walk doc.children) (Node.heightAll doc.children) := Statistics.ofNodes_eq _
  have hdepth : doc.maxDepth = Node.heightAll doc.children := Node.maxDepth_eq _
  rw [hstatistics, doc.elements_none]
  refine ⟨hdepth.symm, hdepth, doc.elementDepth_toJson, ?_, rfl, Statistics.length_eq_counts _,
    rfl, rfl⟩
  intro limit n spans body hlimit hsent
  exact doc.elementDepth_le_of_treeResponse hlimit hsent

open Service in
/-- A paragraph in a condition is within a limit of two levels. -/
theorem Report.statistics_agree_paragraph :
    (Limit.upTo 2).bound = .ok (some 2) ∧
    ∃ doc, doc = Document.parse {} none "<isif a=${b}><p>${c}</p></isif>".toList ∧
      doc.maxDepth = 2 ∧
      (ofDocument none doc).statistics.expressions = 2 ∧
      treeResponse (.upTo 2) false doc = ⟨200, some (doc.toJson false)⟩ ∧
      ∃ children, (doc.toJson false).get? "children" = some children ∧
        (children.elementDepth : Int) ≤ 2 := by
  obtain ⟨doc, hdoc⟩ :
      ∃ doc, doc = Document.parse {} none "<isif a=${b}><p>${c}</p></isif>".toList := ⟨_, rfl⟩
  have hcounts : doc.maxDepth = 2 ∧ (ofDocument none doc).statistics.expressions = 2 := by
    rw [hdoc]
    decide +kernel
  have hsent : treeResponse (.upTo 2) false doc = ⟨200, some (doc.toJson false)⟩ := by
    simp [treeResponse, Limit.bound, hcounts.1]
  exact ⟨rfl, doc, hdoc, hcounts.1, hcounts.2, hsent,
    (statistics_agree none doc).2.2.2.1 (.upTo 2) 2 false _ rfl hsent⟩

end StoreMarkup
