import StoreMarkup.Check.Templates

/-! Trees as file systems have them: the listing of a tree has the paths of its files, and each path
leads to its file. -/
namespace StoreMarkup

/-- A name that an entry of a directory can have: it is a part of a path that leads nowhere else. -/
structure ProperName (name : Text) : Prop where
  ne_nil : name ≠ []
  ne_dot : name ≠ ['.']
  ne_up : name ≠ Path.up
  noSlash : '/' ∉ name

namespace FileTree

/-- The names in each directory are distinct and can be parts of paths. -/
inductive Proper : FileTree → Prop
  | file (content : Except FileError Bytes) : Proper (.file content)
  | directory {entries : List (Text × FileTree)} : (∀ e ∈ entries, ProperName e.1) →
      (entries.map Prod.fst).Nodup → (∀ e ∈ entries, Proper e.2) → Proper (.directory entries)

/-- The path leads down to a file, and reading it gives that content. -/
inductive Holds : FileTree → List Text → Except FileError Bytes → Prop
  | file (content : Except FileError Bytes) : Holds (.file content) [] content
  | entry {entries : List (Text × FileTree)} {name : Text} {tree : FileTree} {path : List Text}
      {content : Except FileError Bytes} : (name, tree) ∈ entries → Holds tree path content →
      Holds (.directory entries) (name :: path) content

variable {tree found : FileTree} {above : List FileTree} {entries : List (Text × FileTree)}
  {base path : List Text} {content : Except FileError Bytes}

section Listing

theorem filesOf_eq (base : List Text) (entries : List (Text × FileTree)) :
    filesOf base entries = entries.flatMap fun e => files (base ++ [e.1]) e.2 := by
  induction entries with
  | nil => simp [filesOf]
  | cons e rest ih => simp [filesOf, ih]

theorem mem_files_of_holds (h : tree.Holds path content) (base : List Text) :
    base ++ path ∈ tree.files base := by
  induction h generalizing base with
  | file content => simp [files]
  | @entry entries name tree path content hentry _ ih =>
    rw [files, filesOf_eq, List.mem_flatMap]
    have hbelow := ih (base ++ [name])
    rw [List.append_assoc, List.singleton_append] at hbelow
    exact ⟨(name, tree), hentry, hbelow⟩

/-- The listing of a tree has its files and no others. -/
theorem mem_files_iff (h : tree.Proper) :
    path ∈ tree.files base ↔ ∃ parts content, path = base ++ parts ∧ tree.Holds parts content := by
  constructor
  · intro hmem
    induction h generalizing base with
    | file stored =>
      obtain rfl := List.mem_singleton.mp hmem
      exact ⟨[], stored, (List.append_nil _).symm, .file _⟩
    | @directory entries hproper hnames hbelow ih =>
      rw [files, filesOf_eq, List.mem_flatMap] at hmem
      obtain ⟨e, he, hmem⟩ := hmem
      obtain ⟨parts, content, rfl, hholds⟩ := ih e he hmem
      exact ⟨e.1 :: parts, content, by simp, .entry he hholds⟩
  · rintro ⟨parts, content, rfl, hholds⟩
    exact mem_files_of_holds hholds base

/-- No path is listed twice. -/
theorem nodup_files (h : tree.Proper) (base : List Text) : (tree.files base).Nodup := by
  induction h generalizing base with
  | file stored => simp [files]
  | @directory entries hproper hnames hbelow ih =>
    rw [files, filesOf_eq, List.Nodup, List.pairwise_flatMap]
    refine ⟨fun e he => ih e he _, (List.pairwise_map.mp hnames).imp_of_mem ?_⟩
    intro e f he hf hne p hp q hq heq
    obtain ⟨parts, -, rfl, -⟩ := (mem_files_iff (hbelow e he)).mp hp
    obtain ⟨others, -, rfl, -⟩ := (mem_files_iff (hbelow f hf)).mp hq
    -- The two paths differ in the part that follows the common base.
    simp only [List.append_assoc, List.append_cancel_left_eq, List.cons_append,
      List.cons.injEq] at heq
    exact hne heq.1

theorem properName_of_holds (h : tree.Proper) (hholds : tree.Holds path content) :
    ∀ part ∈ path, ProperName part := by
  induction hholds with
  | file content => simp
  | @entry entries name tree path content hentry _ ih =>
    cases h with
    | directory hproper hnames hbelow =>
      rw [List.forall_mem_cons]
      exact ⟨hproper (name, tree) hentry, ih (hbelow (name, tree) hentry)⟩

/-- Only below a directory is there more of a path. -/
theorem isDirectory_iff_of_holds (h : tree.Holds path content) :
    tree.isDirectory = true ↔ path ≠ [] := by
  cases h <;> simp [isDirectory]

end Listing

section Following

theorem lookup_of_mem {e : Text × FileTree} (hnames : (entries.map Prod.fst).Nodup)
    (he : e ∈ entries) : entries.lookup e.1 = some e.2 := by
  induction entries with
  | nil => cases he
  | cons first rest ih =>
    rw [List.map_cons, List.nodup_cons] at hnames
    rcases List.mem_cons.mp he with rfl | hrest
    · rw [List.lookup_cons_self]
    · have hne : (e.1 == first.1) = false := by
        rw [beq_eq_false_iff_ne]
        intro heq
        exact hnames.1 (heq ▸ List.mem_map_of_mem hrest)
      rw [List.lookup_cons, hne]
      exact ih hnames.2 hrest

theorem follow_nil (above : List FileTree) (tree : FileTree) :
    tree.follow above [] = .ok tree := rfl

/-- A path with a first part leads up from a directory, or down to one of its entries. -/
theorem follow_cons_eq_ok {name : Text} {rest : List Text} :
    tree.follow above (name :: rest) = .ok found ↔ ∃ entries, tree = directory entries ∧
      (name = Path.up ∧ (above.headD tree).follow above.tail rest = .ok found ∨
        name ≠ Path.up ∧ ∃ entry, entries.lookup name = some entry ∧
          entry.follow (tree :: above) rest = .ok found) := by
  cases tree with
  | file stored =>
    rw [follow.eq_def]
    simp
  | directory entries =>
    rw [follow.eq_def]
    by_cases hup : name = Path.up
    · simp [hup]
    · cases hentry : entries.lookup name with
      | none => simp [hup, hentry]
      | some entry => simp [hup, hentry]

/-- The path of a file leads to it. -/
theorem follow_of_holds (h : tree.Proper) (hholds : tree.Holds path content)
    (above : List FileTree) : tree.follow above path = .ok (.file content) := by
  induction hholds generalizing above with
  | file content => exact follow_nil above _
  | @entry entries name tree path content hentry _ ih =>
    cases h with
    | directory hproper hnames hbelow =>
      refine follow_cons_eq_ok.mpr ⟨entries, rfl, .inr ⟨(hproper _ hentry).ne_up, tree, ?_, ?_⟩⟩
      · exact lookup_of_mem hnames hentry
      · exact ih (hbelow _ hentry) _

theorem proper_of_lookup {name : Text} (h : (directory entries).Proper)
    (he : entries.lookup name = some found) : found.Proper := by
  cases h with
  | directory _ _ hbelow =>
    obtain ⟨before, after, rfl, -⟩ := List.lookup_eq_some_iff.mp he
    exact hbelow (name, found) (by simp)

theorem proper_of_follow {parts : List Text} (h : tree.Proper) (habove : ∀ a ∈ above, a.Proper)
    (hfollow : tree.follow above parts = .ok found) : found.Proper := by
  induction parts generalizing tree above with
  | nil =>
    rw [follow_nil] at hfollow
    cases hfollow
    exact h
  | cons name rest ih =>
    obtain ⟨entries, rfl, ⟨-, hrest⟩ | ⟨-, entry, hentry, hrest⟩⟩ := follow_cons_eq_ok.mp hfollow
    · -- The parent of the outermost directory is that directory.
      cases above with
      | nil => exact ih h habove hrest
      | cons parent before =>
        rw [List.forall_mem_cons] at habove
        exact ih habove.1 habove.2 hrest
    · refine ih (proper_of_lookup h hentry) ?_ hrest
      rw [List.forall_mem_cons]
      exact ⟨h, habove⟩

/-- Going on from what a path leads to is following the longer path. -/
theorem follow_append {parts more : List Text} {last : FileTree}
    (hfollow : tree.follow above parts = .ok found)
    (hmore : ∀ above, found.follow above more = .ok last) :
    tree.follow above (parts ++ more) = .ok last := by
  induction parts generalizing tree above with
  | nil =>
    rw [follow_nil] at hfollow
    cases hfollow
    exact hmore above
  | cons name rest ih =>
    rw [List.cons_append, follow_cons_eq_ok]
    obtain ⟨entries, hdir, ⟨hup, hrest⟩ | ⟨hup, entry, hentry, hrest⟩⟩ :=
      follow_cons_eq_ok.mp hfollow
    · exact ⟨entries, hdir, .inl ⟨hup, ih hrest⟩⟩
    · exact ⟨entries, hdir, .inr ⟨hup, entry, hentry, ih hrest⟩⟩

end Following

end FileTree

namespace Host

variable {host : Host} {dir : Path} {found : FileTree}

theorem proper_of_find (h : host.root.Proper) (hfind : host.find dir = .ok found) : found.Proper :=
  FileTree.proper_of_follow h (by simp) hfind

/-- A path from what another one leads to is found behind that one. -/
theorem find_append {parts : List Text} {last : FileTree} (hfind : host.find dir = .ok found)
    (hfollow : ∀ above, found.follow above parts = .ok last) :
    host.find (dir.append { parts }) = .ok last := by
  have hall := FileTree.follow_append hfind hfollow
  by_cases hroot : dir.root.isEmpty = true
  · simpa [find, Path.append, hroot] using hall
  · simpa [find, Path.append, hroot] using hall

end Host

section Names

variable {sep : Char} {p t : Text} {parts : List Text}

/-- A separator in front of a text starts a field of its own, and another character belongs to the
first. -/
theorem fields_cons (c : Char) (h : Text.fields sep t = p :: parts) :
    Text.fields sep (c :: t) = if c = sep then [] :: p :: parts else (c :: p) :: parts := by
  rw [Text.fields, h]

theorem fields_ne_nil (sep : Char) (t : Text) : Text.fields sep t ≠ [] := by
  induction t with
  | nil => exact List.cons_ne_nil [] []
  | cons c cs ih =>
    obtain ⟨first, rest, hfields⟩ := List.exists_cons_of_ne_nil ih
    rw [fields_cons c hfields]
    split <;> simp

theorem fields_append (hp : sep ∉ p) (t : Text) :
    Text.fields sep (p ++ sep :: t) = p :: Text.fields sep t := by
  induction p with
  | nil =>
    obtain ⟨first, rest, hfields⟩ := List.exists_cons_of_ne_nil (fields_ne_nil sep t)
    rw [List.nil_append, fields_cons sep hfields, if_pos rfl, hfields]
  | cons c cs ih =>
    rw [List.mem_cons, not_or] at hp
    rw [List.cons_append, fields_cons c (ih hp.2), if_neg (Ne.symm hp.1)]

theorem fields_self (hp : sep ∉ p) : Text.fields sep p = [p] := by
  induction p with
  | nil => rfl
  | cons c cs ih =>
    rw [List.mem_cons, not_or] at hp
    rw [fields_cons c (ih hp.2), if_neg (Ne.symm hp.1)]

theorem fields_join (hne : parts ≠ []) (h : ∀ p ∈ parts, sep ∉ p) :
    Text.fields sep (Text.join [sep] parts) = parts := by
  induction parts with
  | nil => exact (hne rfl).elim
  | cons p rest ih =>
    rw [List.forall_mem_cons] at h
    cases rest with
    | nil => simpa [Text.join] using fields_self h.1
    | cons q qs =>
      have hjoin : Text.join [sep] (p :: q :: qs) = p ++ sep :: Text.join [sep] (q :: qs) := by
        simp [Text.join]
      rw [hjoin, fields_append h.1, ih (by simp) h.2]

/-- A path that is written with slashes is read back. -/
theorem Path.ofText_join (h : ∀ p ∈ parts, ProperName p) :
    Path.ofText (Text.join ['/'] parts) = ⟨[], parts⟩ := by
  have hroot : Path.rootOf (Text.join ['/'] parts) = [] := by
    cases parts with
    | nil => rfl
    | cons p rest =>
      have hp := h p (List.mem_cons_self ..)
      obtain ⟨c, cs, rfl⟩ := List.exists_cons_of_ne_nil hp.ne_nil
      have hc : c ≠ '/' := by
        intro he
        exact hp.noSlash (he ▸ List.mem_cons_self ..)
      have hjoin : ∃ more, Text.join ['/'] ((c :: cs) :: rest) = c :: more := by
        cases rest <;> simp [Text.join]
      obtain ⟨more, hmore⟩ := hjoin
      simp [Path.rootOf, hmore, hc]
  have hfields : (Text.fields '/' (Text.join ['/'] parts)).filter
      (fun part => !part.isEmpty && part != ['.']) = parts := by
    cases parts with
    | nil => rfl
    | cons p rest =>
      rw [fields_join (by simp) (fun p hp => (h p hp).noSlash), List.filter_eq_self]
      intro part hpart
      simp [(h part hpart).ne_nil, (h part hpart).ne_dot]
  rw [Path.ofText, hroot, hfields]

end Names

namespace Template

variable {entries : List (Text × FileTree)} {t : Template}

theorem mem_files_of_mem_collect (h : t ∈ collect entries) :
    t.path ∈ (FileTree.directory entries).files [] := by
  obtain ⟨language, hlanguage, hbelow⟩ := List.mem_flatMap.mp h
  have hentry : language ∈ entries := by
    rw [languages, List.mem_mergeSort] at hlanguage
    exact (List.mem_filter.mp hlanguage).1
  rw [below, List.mem_mergeSort] at hbelow
  obtain ⟨path, hpath, rfl⟩ := List.mem_map.mp (List.mem_filter.mp hbelow).1
  rw [FileTree.files, FileTree.filesOf_eq, List.mem_flatMap]
  exact ⟨language, hentry, hpath⟩

theorem holds_of_mem_collect (h : (FileTree.directory entries).Proper) (ht : t ∈ collect entries) :
    ∃ content, (FileTree.directory entries).Holds t.path content := by
  obtain ⟨parts, content, hpath, hholds⟩ :=
    (FileTree.mem_files_iff h).mp (mem_files_of_mem_collect ht)
  rw [List.nil_append] at hpath
  exact ⟨content, hpath ▸ hholds⟩

/-- Reading a template gives what the file at its path holds. -/
theorem read_of_mem_collect {host : Host} {dir : Path} (hproper : host.root.Proper)
    (hdir : host.find dir = .ok (.directory entries)) (ht : t ∈ collect entries) :
    ∃ content, (FileTree.directory entries).Holds t.path content ∧
      host.read (dir.append { parts := t.path }) = content := by
  have hentries := Host.proper_of_find hproper hdir
  obtain ⟨content, hholds⟩ := holds_of_mem_collect hentries ht
  refine ⟨content, hholds, ?_⟩
  have hfind := Host.find_append hdir (FileTree.follow_of_holds hentries hholds)
  simp only [Host.read, hfind]

end Template

end StoreMarkup
