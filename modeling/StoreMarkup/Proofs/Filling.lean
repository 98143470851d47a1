import StoreMarkup.Tree.Fold

/-! Filling lists that other values refer to: whichever list is filled when, every value gets the
values of its own children. -/
namespace StoreMarkup

namespace Drafts

variable {α : Type} {drafts : Drafts α} {target i : Nat} {entry : Draft α}

/-- The entries of the list of an index. -/
def entries (drafts : Drafts α) (i : Nat) : List (Draft α) := (drafts.getD i #[]).toList

/-- The value of an entry. -/
def valueOf (drafts : Drafts α) : Draft α → α
  | .value v => v
  | .waiting finish children => finish (drafts.list children)

/-- Entries wait only for lists that were begun after their own. -/
def Forward (drafts : Drafts α) : Prop :=
  ∀ i finish children, .waiting finish children ∈ drafts.entries i →
    i < children ∧ children < drafts.size

@[simp] theorem size_add : (drafts.add target entry).size = drafts.size := Array.size_modify

theorem entries_add (h : target < drafts.size) : (drafts.add target entry).entries i =
    drafts.entries i ++ if i = target then [entry] else [] := by
  by_cases hi : i < drafts.size
  · by_cases htarget : target = i
    · subst htarget
      simp [entries, add, h, Array.getElem_modify_self]
    · simp [entries, add, hi, Array.getElem_modify, htarget, Ne.symm htarget]
  · have hne : i ≠ target := by omega
    simp [entries, add, hi, hne]

@[simp] theorem size_addBranch (f : List α → α) :
    (drafts.addBranch target f).size = drafts.size + 1 := by
  rw [addBranch, Array.size_push, size_add]

theorem entries_of_le (h : drafts.size ≤ i) : drafts.entries i = [] := by
  simp [entries, Nat.not_lt.mpr h]

/-- The list that is begun is empty, as if it were not there. -/
theorem entries_addBranch (h : target < drafts.size) (f : List α → α) :
    (drafts.addBranch target f).entries i =
    drafts.entries i ++ if i = target then [.waiting f drafts.size] else [] := by
  rw [← entries_add h]
  by_cases hi : i < drafts.size
  · have hi' : i < drafts.size + 1 := by omega
    simp [entries, addBranch, hi, hi', Array.getElem_push]
  · by_cases hlast : i = drafts.size
    · simp [entries, addBranch, hlast, Array.getElem_push]
    · rw [entries_of_le (by rw [size_addBranch]; omega), entries_of_le (by rw [size_add]; omega)]

theorem Forward.add_value (h : drafts.Forward) (htarget : target < drafts.size) (v : α) :
    (drafts.add target (.value v)).Forward := by
  intro i finish children hmem
  rw [entries_add htarget] at hmem
  rw [size_add]
  rcases List.mem_append.mp hmem with hmem | hmem
  · exact h i finish children hmem
  · split at hmem
    · cases List.mem_singleton.mp hmem
    · cases hmem

theorem Forward.addBranch (h : drafts.Forward) (htarget : target < drafts.size) (f : List α → α) :
    (drafts.addBranch target f).Forward := by
  intro i finish children hmem
  rw [entries_addBranch htarget] at hmem
  rw [size_addBranch]
  rcases List.mem_append.mp hmem with hmem | hmem
  · have hbounds := h i finish children hmem
    omega
  · split at hmem
    · cases List.mem_singleton.mp hmem
      omega
    · cases hmem

/-- Lists with their values, last first, where all of them were `size`. -/
def finishLast (size : Nat) (lists : List (Array (Draft α))) : Array (List α) :=
  lists.foldr (fun list done => done.push (list.toList.map (Draft.finished size done))) #[]

theorem finish_eq : drafts.finish = finishLast drafts.size drafts.toList := by
  rw [finish, finishLast, Array.foldr_toList]

@[simp] theorem size_finishLast (size : Nat) (lists : List (Array (Draft α))) :
    (finishLast size lists).size = lists.length := by
  induction lists with
  | nil => rfl
  | cons list lists ih => simpa [finishLast] using ih

/-- Lists that were finished stay as they are while those before them are finished. -/
theorem getD_finishLast_append (size : Nat) (before lists : List (Array (Draft α))) {k : Nat}
    (hk : k < lists.length) :
    (finishLast size (before ++ lists)).getD k [] = (finishLast size lists).getD k [] := by
  induction before with
  | nil => rfl
  | cons list before ih =>
    have hstep : finishLast size (list :: before ++ lists) =
        (finishLast size (before ++ lists)).push
      (list.toList.map (Draft.finished size (finishLast size (before ++ lists)))) := rfl
    have hlt : k < (finishLast size (before ++ lists)).size := by
      rw [size_finishLast, List.length_append]
      omega
    rw [hstep, ← ih, Array.getD_eq_getD_getElem?, Array.getD_eq_getD_getElem?,
      Array.getElem?_push_lt hlt, Array.getElem?_eq_getElem hlt]

/-- Every list has the values of its entries. -/
theorem list_eq (h : drafts.Forward) (hi : i < drafts.size) :
    drafts.list i = (drafts.entries i).map drafts.valueOf := by
  obtain ⟨before, list, after, hsplit, hlength⟩ :
      ∃ before list after, drafts.toList = before ++ list :: after ∧ before.length = i :=
    ⟨_, _, _, (List.take_append_drop i drafts.toList).symm.trans
      (congrArg _ (List.drop_eq_getElem_cons hi)), List.length_take_of_le (Nat.le_of_lt hi)⟩
  have hsize : drafts.size = before.length + (after.length + 1) := by
    rw [← Array.length_toList, hsplit, List.length_append, List.length_cons]
  have hentries : drafts.entries i = list.toList := by
    rw [entries, Array.getD_eq_getD_getElem?, ← Array.getElem?_toList, hsplit, ← hlength]
    simp
  have hfinish : drafts.finish = finishLast drafts.size (before ++ list :: after) := by
    rw [finish_eq, hsplit]
  have hlist : drafts.list i =
      list.toList.map (Draft.finished drafts.size (finishLast drafts.size after)) := by
    have hindex : drafts.size - 1 - i = after.length := by omega
    have hlast : finishLast drafts.size (list :: after) = (finishLast drafts.size after).push
      (list.toList.map (Draft.finished drafts.size (finishLast drafts.size after))) := rfl
    rw [Drafts.list, hfinish, hindex, getD_finishLast_append _ _ _ (by simp), hlast,
      Array.getD_eq_getD_getElem?, ← size_finishLast drafts.size after, Array.getElem?_push_size]
    rfl
  rw [hlist, hentries]
  refine List.map_congr_left ?_
  intro entry hentry
  cases entry with
  | value v => rfl
  | waiting finish children =>
    -- The list that the entry waits for stands behind its own, so it is finished by then.
    have hbounds := h i finish children (hentries ▸ hentry)
    have hindex : drafts.size - 1 - children < after.length := by omega
    have hdone := getD_finishLast_append drafts.size (before ++ [list]) after hindex
    rw [List.append_assoc, List.singleton_append, ← hfinish] at hdone
    exact (congrArg finish hdone).symm

end Drafts

namespace Node

variable {α : Type} (visit : Nat → Node → Visit α)

theorem foldNode_eq (depth : Nat) (node : Node) : foldNode visit depth node =
    match visit depth node with
    | .skip => []
    | .leaf value => [value]
    | .branch finish => [finish (foldForest visit (depth + 1) node.children)] := by
  cases node <;> rfl

/-- What nodes that are left add to the list of an index, by recursion. -/
def valuesInto (target : Nat) (todo : List Pending) : List α :=
  (todo.filter fun x => x.target == target).flatMap fun x => foldNode visit x.depth x.node

theorem valuesInto_cons (target : Nat) (x : Pending) (todo : List Pending) :
    valuesInto visit target (x :: todo) =
      (if target = x.target then foldNode visit x.depth x.node else []) ++
        valuesInto visit target todo := by
  by_cases h : target = x.target
  · simp [valuesInto, h]
  · simp [valuesInto, h, Ne.symm h]

theorem valuesInto_append (target : Nat) (xs ys : List Pending) :
    valuesInto visit target (xs ++ ys) =
      valuesInto visit target xs ++ valuesInto visit target ys := by
  simp [valuesInto]

theorem valuesInto_all (depth target : Nat) (nodes : List Node) :
    valuesInto visit target (Pending.all depth target nodes) = foldForest visit depth nodes := by
  induction nodes with
  | nil => simp [valuesInto, Pending.all, foldForest]
  | cons node nodes ih =>
    rw [foldForest, ← ih]
    simp [valuesInto, Pending.all]

theorem valuesInto_of_ne {target : Nat} {todo : List Pending} (h : ∀ x ∈ todo, x.target ≠ target) :
    valuesInto visit target todo = [] := by
  have hnone : (todo.filter fun x => x.target == target) = [] := by simpa using h
  rw [valuesInto, hnone]
  rfl

/-- Lists that go on from others: each has new entries behind the old ones, for the nodes that were
to go into it. -/
structure Fills (drafts : Drafts α) (todo : List Pending) (filled : Drafts α) : Prop where
  size_le : drafts.size ≤ filled.size
  forward : filled.Forward
  entries : ∀ i, i < drafts.size → ∃ added, filled.entries i = drafts.entries i ++ added ∧
    added.map filled.valueOf = valuesInto visit i todo

variable {visit} {drafts next filled : Drafts α} {x : Pending} {rest todo : List Pending}

/-- A list that is empty before gets what is made of its nodes. -/
theorem Fills.list_eq {i : Nat} (h : Fills visit drafts todo filled) (hi : i < drafts.size)
    (hempty : drafts.entries i = []) : filled.list i = valuesInto visit i todo := by
  obtain ⟨added, hentries, hvalues⟩ := h.entries i hi
  rw [Drafts.list_eq h.forward (Nat.lt_of_lt_of_le hi h.size_le), hentries, hempty]
  exact hvalues

/-- A node whose value goes into its list at once, as an entry that may wait for another list. -/
theorem Fills.of_entry {entry : Draft α} (h : Fills visit next todo filled)
    (hsize : drafts.size ≤ next.size)
    (hnext : ∀ i, next.entries i = drafts.entries i ++ if i = x.target then [entry] else [])
    (hvalue : foldNode visit x.depth x.node = [filled.valueOf entry])
    (htodo : ∀ i, i < drafts.size → valuesInto visit i todo = valuesInto visit i rest) :
    Fills visit drafts (x :: rest) filled := by
  refine ⟨Nat.le_trans hsize h.size_le, h.forward, ?_⟩
  intro i hi
  obtain ⟨added, hentries, hvalues⟩ := h.entries i (Nat.lt_of_lt_of_le hi hsize)
  refine ⟨(if i = x.target then [entry] else []) ++ added, ?_, ?_⟩
  · rw [hentries, hnext, List.append_assoc]
  · rw [List.map_append, hvalues, htodo i hi, valuesInto_cons, hvalue]
    split <;> rfl

/-- No node is left out, and no value goes into another list than it should. -/
theorem fills_foldLoop (hforward : drafts.Forward) (htodo : ∀ x ∈ todo, x.target < drafts.size) :
    Fills visit drafts todo (foldLoop visit drafts todo) := by
  fun_induction foldLoop visit drafts todo with
  | case1 drafts => exact ⟨Nat.le_refl _, hforward, fun i hi => ⟨[], by simp, by simp [valuesInto]⟩⟩
  | case2 drafts node depth target rest hvisit ih =>
    obtain ⟨-, hrest⟩ := List.forall_mem_cons.mp htodo
    obtain ⟨hsize, hforward', hentries⟩ := ih hforward hrest
    refine ⟨hsize, hforward', ?_⟩
    intro i hi
    have hnone : foldNode visit depth node = [] := by rw [foldNode_eq, hvisit]
    simpa [valuesInto_cons, hnone] using hentries i hi
  | case3 drafts node depth target rest value hvisit ih =>
    obtain ⟨htarget, hrest⟩ := List.forall_mem_cons.mp htodo
    have hfills := ih (hforward.add_value htarget value) (by simpa using hrest)
    refine hfills.of_entry (by simp) (fun _ => Drafts.entries_add htarget) ?_ (fun _ _ => rfl)
    rw [foldNode_eq, hvisit]
    rfl
  | case4 drafts node depth target rest finish hvisit ih =>
    obtain ⟨htarget, hrest⟩ := List.forall_mem_cons.mp htodo
    have hall : ∀ x ∈ Pending.all (depth + 1) drafts.size node.children,
        x.target = drafts.size := by
      simp [Pending.all]
    have hnew : ∀ x ∈ Pending.all (depth + 1) drafts.size node.children ++ rest,
        x.target < (drafts.addBranch target finish).size := by
      intro x hx
      rw [Drafts.size_addBranch]
      rcases List.mem_append.mp hx with hx | hx
      · have := hall x hx
        omega
      · have := hrest x hx
        omega
    have hfills := ih (hforward.addBranch htarget finish) hnew
    -- The list that is begun for the children gets what is made of them, and of nothing else.
    have hchildren := hfills.list_eq (i := drafts.size) (by simp) (by
      rw [Drafts.entries_addBranch htarget, Drafts.entries_of_le (Nat.le_refl _),
        if_neg (Nat.ne_of_gt htarget)]
      rfl)
    rw [valuesInto_append, valuesInto_all,
      valuesInto_of_ne visit fun x hx => Nat.ne_of_lt (hrest x hx), List.append_nil] at hchildren
    refine hfills.of_entry (by simp) (fun _ => Drafts.entries_addBranch htarget finish) ?_ ?_
    · rw [foldNode_eq, hvisit]
      simp only [Drafts.valueOf, hchildren]
    · intro i hi
      have hothers : ∀ x ∈ Pending.all (depth + 1) drafts.size node.children, x.target ≠ i := by
        intro x hx
        have := hall x hx
        omega
      rw [valuesInto_append, valuesInto_of_ne visit hothers, List.nil_append]

/-- The lists are filled with what recursion makes of the forest. -/
theorem fold_eq (nodes : List Node) : fold visit nodes = foldForest visit 1 nodes := by
  have hforward : Drafts.Forward (#[#[]] : Drafts α) := by
    intro i finish children hmem
    cases i <;> cases hmem
  have hfills : Fills visit _ (Pending.all 1 0 nodes) _ :=
    fills_foldLoop hforward (by simp [Pending.all])
  rw [fold, hfills.list_eq Nat.zero_lt_one rfl, valuesInto_all]

end Node

end StoreMarkup
