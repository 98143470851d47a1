import Mathlib.Data.List.Lex
import StoreMarkup.Check.Basic
import StoreMarkup.Proofs.FileTrees
import StoreMarkup.Proofs.LetterCase

/-! The templates of a source directory: which files they are, and that the listings of the language
directories one after the other are in the order of all paths. -/
namespace StoreMarkup

/-- Whether the first difference of two texts is the end of the first or a lower code point in
it. -/
def Text.Precedes (a b : Text) : Prop := List.Lex (fun c d => c.toNat < d.toNat) a b

/-- The same for the first part in which two paths differ. -/
def PartsPrecede (a b : List Text) : Prop := List.Lex Text.Precedes a b

section Order

theorem isStrictTotalOrder_lex {α : Type} (r : α → α → Prop) [IsStrictTotalOrder α r] :
    IsStrictTotalOrder (List α) (List.Lex r) where
  irrefl := List.lex_irrefl (irrefl_of r)
  trans _ _ _ := List.lex_trans (trans_of r)
  trichotomous := Std.Trichotomous.trichotomous

instance isStrictTotalOrder_toNat : IsStrictTotalOrder Char (fun c d => c.toNat < d.toNat) where
  irrefl _ := Nat.lt_irrefl _
  trans _ _ _ := Nat.lt_trans
  trichotomous c d hcd hdc := by
    apply Char.ext
    apply UInt32.toNat_inj.mp
    exact Nat.le_antisymm (Nat.not_lt.mp hdc) (Nat.not_lt.mp hcd)

instance : IsStrictTotalOrder Text Text.Precedes := isStrictTotalOrder_lex _

instance : IsStrictTotalOrder (List Text) PartsPrecede := isStrictTotalOrder_lex _

theorem before_iff (a b : Text) : Text.before a b = true ↔ a.Precedes b := by
  rw [Text.before, List.lex_eq_true_iff_lex, Text.Precedes]
  simp only [decide_eq_true_eq]

theorem Template.before_iff (a b : Template) : a.before b = true ↔ PartsPrecede a.path b.path := by
  rw [Template.before, List.lex_eq_true_iff_lex, PartsPrecede]
  simp only [StoreMarkup.before_iff]

/-- Sorting by keys that are all different leaves them strictly in order. -/
theorem pairwise_mergeSort_key {α κ : Type} (key : α → κ)
    {r : κ → κ → Prop} [IsStrictTotalOrder κ r] {before : α → α → Bool}
    (hbefore : ∀ a b, before a b = true ↔ r (key a) (key b)) {l : List α}
    (hkeys : (l.map key).Nodup) :
    (l.mergeSort fun a b => !before b a).Pairwise fun a b => r (key a) (key b) := by
  have hnot : ∀ a b, (!before b a) = true ↔ ¬ r (key b) (key a) := by
    intro a b
    rw [← hbefore, Bool.not_eq_true', Bool.not_eq_true]
  have hsorted : (l.mergeSort fun a b => !before b a).Pairwise fun a b => (!before b a) = true := by
    apply List.pairwise_mergeSort
    · intro a b c hab hbc
      rw [hnot] at hab hbc ⊢
      intro hca
      rcases trichotomous_of r (key a) (key b) with h | h | h
      · exact hbc (trans_of r hca h)
      · exact hbc (h ▸ hca)
      · exact hab h
    · intro a b
      rw [Bool.or_eq_true, hnot, hnot]
      by_cases h : r (key b) (key a)
      · exact .inr (asymm_of r h)
      · exact .inl h
  have hdistinct : (l.mergeSort fun a b => !before b a).Pairwise fun a b => key a ≠ key b := by
    have hperm := (List.mergeSort_perm l fun a b => !before b a).map key
    exact List.pairwise_map.mp (hperm.nodup_iff.mpr hkeys)
  refine (hsorted.and hdistinct).imp ?_
  rintro a b ⟨hle, hne⟩
  rcases trichotomous_of r (key a) (key b) with h | h | h
  · exact h
  · exact (hne h).elim
  · exact ((hnot a b).mp hle h).elim

end Order

/-- A name that is more than the suffix of templates, whose letters may be in any case. -/
def NamesTemplate (name : Text) : Prop :=
  ∃ stem ending, name = stem ++ ending ∧ stem ≠ [] ∧ ending.uncased = templateSuffix

theorem lowerAfter_templateSuffix (before : Text) :
    lowerAfter before templateSuffix = templateSuffix := rfl

theorem ownCase_templateSuffix : ∀ b ∈ templateSuffix, OwnCase b := by
  have hall : (templateSuffix.all fun b => OwnCase b) = true := by decide
  intro b hb
  exact of_decide_eq_true (List.all_eq_true.mp hall b hb)

theorem isTemplateName_iff {name : Text} : isTemplateName name = true ↔ NamesTemplate name := by
  rw [isTemplateName, Bool.and_eq_true, List.isSuffixOf_iff_suffix, decide_eq_true_eq]
  constructor
  · rintro ⟨⟨start, hstart⟩, hlength⟩
    obtain ⟨stem, ending, rfl, hending⟩ :=
      exists_ending_of_lowerAfter hstart.symm ownCase_templateSuffix
    refine ⟨stem, ending, rfl, ?_, hending⟩
    rintro rfl
    rw [← hending, length_uncased, List.nil_append] at hlength
    exact Nat.lt_irrefl _ hlength
  · rintro ⟨stem, ending, rfl, hstem, hending⟩
    have hlength : ending.length = templateSuffix.length := by rw [← hending, length_uncased]
    have hpos := List.length_pos_iff.mpr hstem
    refine ⟨?_, by rw [List.length_append]; omega⟩
    obtain ⟨u, hu⟩ := exists_lowerAfter_append [] stem ending
    rw [← lowerAfter_uncased ending, hending, lowerAfter_templateSuffix] at hu
    exact ⟨u, hu.symm⟩

namespace Template

variable {entries : List (Text × FileTree)} {language : Text × FileTree} {t : Template}

/-- A file with the name of a template that lies below a directory of the source directory. -/
structure Stored (entries : List (Text × FileTree)) (t : Template) : Prop where
  file : ∃ content, (FileTree.directory entries).Holds t.path content
  below : 2 ≤ t.path.length
  named : ∃ name, t.path.getLast? = some name ∧ NamesTemplate name

theorem isTemplate_iff :
    t.isTemplate = true ↔ ∃ name, t.path.getLast? = some name ∧ NamesTemplate name := by
  rw [isTemplate, Option.any_eq_true]
  simp only [isTemplateName_iff]

theorem mem_languages :
    language ∈ languages entries ↔ language ∈ entries ∧ language.2.isDirectory = true := by
  rw [languages, List.mem_mergeSort, List.mem_filter]

theorem mem_below (h : language.2.Proper) : t ∈ below language ↔
    (∃ parts content, t.path = language.1 :: parts ∧ language.2.Holds parts content) ∧
      t.isTemplate = true := by
  have hfiles : t ∈ filesBelow language ↔ t.path ∈ language.2.files [language.1] := by
    rw [filesBelow, List.mem_map]
    constructor
    · rintro ⟨path, hpath, rfl⟩
      exact hpath
    · intro hpath
      exact ⟨_, hpath, rfl⟩
  rw [below, List.mem_mergeSort, List.mem_filter, hfiles, FileTree.mem_files_iff h]
  rfl

theorem proper_of_mem (h : (FileTree.directory entries).Proper) (hmem : language ∈ entries) :
    language.2.Proper := by
  cases h with
  | directory _ _ hbelow => exact hbelow language hmem

/-- The templates are the files that are stored as such. -/
theorem mem_collect_iff (h : (FileTree.directory entries).Proper) :
    t ∈ collect entries ↔ Stored entries t := by
  rw [collect, List.mem_flatMap]
  constructor
  · rintro ⟨language, hlanguage, hbelow⟩
    obtain ⟨hentry, hdirectory⟩ := mem_languages.mp hlanguage
    obtain ⟨⟨parts, content, hpath, hholds⟩, hnamed⟩ :=
      (mem_below (proper_of_mem h hentry)).mp hbelow
    refine ⟨⟨content, hpath ▸ .entry hentry hholds⟩, ?_, isTemplate_iff.mp hnamed⟩
    have hparts := List.length_pos_iff.mpr
      ((FileTree.isDirectory_iff_of_holds hholds).mp hdirectory)
    rw [hpath, List.length_cons]
    omega
  · rintro ⟨⟨content, hfile⟩, hlength, hnamed⟩
    generalize hpath : t.path = path at hfile
    cases hfile with
    | @entry _ name tree parts _ hentry hholds =>
      have hparts : parts ≠ [] := by
        rintro rfl
        simp [hpath] at hlength
      refine ⟨(name, tree), mem_languages.mpr ⟨hentry, ?_⟩, ?_⟩
      · exact (FileTree.isDirectory_iff_of_holds hholds).mpr hparts
      · exact (mem_below (proper_of_mem h hentry)).mpr
          ⟨⟨parts, content, hpath, hholds⟩, isTemplate_iff.mpr hnamed⟩

theorem pairwise_below (h : language.2.Proper) :
    (below language).Pairwise fun a b => PartsPrecede a.path b.path := by
  apply pairwise_mergeSort_key path before_iff
  have hpaths : (filesBelow language).map path = language.2.files [language.1] := by
    rw [filesBelow, List.map_map]
    exact List.map_id _
  have hsublist : (((filesBelow language).filter isTemplate).map path).Sublist
      ((filesBelow language).map path) := List.filter_sublist.map _
  rw [hpaths] at hsublist
  exact hsublist.nodup (FileTree.nodup_files h _)

theorem pairwise_languages (h : (FileTree.directory entries).Proper) :
    (languages entries).Pairwise fun a b => a.1.Precedes b.1 := by
  apply pairwise_mergeSort_key Prod.fst fun a b => StoreMarkup.before_iff a.1 b.1
  cases h with
  | directory _ hnames _ => exact (List.filter_sublist.map _).nodup hnames

/-- The listings of the directories one after the other are in the order of all paths. -/
theorem pairwise_collect (h : (FileTree.directory entries).Proper) :
    (collect entries).Pairwise fun a b => PartsPrecede a.path b.path := by
  rw [collect, List.pairwise_flatMap]
  constructor
  · intro language hlanguage
    exact pairwise_below (proper_of_mem h (mem_languages.mp hlanguage).1)
  · refine (pairwise_languages h).imp_of_mem ?_
    intro l m hl hm hprecedes a ha b hb
    obtain ⟨⟨parts, -, hpath, -⟩, -⟩ := (mem_below (proper_of_mem h (mem_languages.mp hl).1)).mp ha
    obtain ⟨⟨others, -, hother, -⟩, -⟩ :=
      (mem_below (proper_of_mem h (mem_languages.mp hm).1)).mp hb
    rw [hpath, hother]
    exact .rel hprecedes

/-- The name of a template is its path. -/
theorem ofText_sourceName (h : (FileTree.directory entries).Proper) (ht : t ∈ collect entries) :
    Path.ofText t.sourceName.toList = ⟨[], t.path⟩ := by
  obtain ⟨content, hholds⟩ := holds_of_mem_collect h ht
  rw [sourceName, String.toList_ofList, Path.ofText_join (FileTree.properName_of_holds h hholds)]

theorem nodup_sourceNames (h : (FileTree.directory entries).Proper) :
    ((collect entries).map sourceName).Nodup := by
  rw [List.Nodup, List.pairwise_map]
  refine (pairwise_collect h).imp_of_mem ?_
  intro a b ha hb hprecedes hname
  have hpath := ofText_sourceName h ha
  rw [hname, ofText_sourceName h hb, Path.mk.injEq] at hpath
  rw [hpath.2] at hprecedes
  exact irrefl_of PartsPrecede _ hprecedes

end Template

namespace Check

variable {c : Check} {host : Host} {entries : List (Text × FileTree)}

theorem collect_eq (hdir : host.find c.sourceDir = .ok (.directory entries)) :
    c.collect host = .ok (Template.collect entries) := by
  simp only [collect, hdir]

/-- The templates of a source directory are the files that are stored as such below its directories,
each once, in the order of their paths. The name of each is its path from the source directory, and
no other has it. -/
theorem collect_exact (hproper : host.root.Proper)
    (hdir : host.find c.sourceDir = .ok (.directory entries)) :
    ∃ templates, c.collect host = .ok templates ∧
      (∀ t, t ∈ templates ↔ Template.Stored entries t) ∧
      templates.Pairwise (fun a b => PartsPrecede a.path b.path) ∧
      (templates.map Template.sourceName).Nodup ∧
      ∀ t ∈ templates, Path.ofText t.sourceName.toList = ⟨[], t.path⟩ ∧
        ∃ content, (FileTree.directory entries).Holds t.path content ∧
          host.read (c.sourceDir.append (.ofText t.sourceName.toList)) = content := by
  have hentries := Host.proper_of_find hproper hdir
  refine ⟨_, collect_eq hdir, fun t => Template.mem_collect_iff hentries,
    Template.pairwise_collect hentries, Template.nodup_sourceNames hentries, ?_⟩
  intro t ht
  have hname := Template.ofText_sourceName hentries ht
  refine ⟨hname, ?_⟩
  rw [hname]
  exact Template.read_of_mem_collect hproper hdir ht

/-- Capitals in the suffix do not matter. A file beside the directories is no template. -/
theorem collect_exact_capitals :
    ∃ host : Host, host.root.Proper ∧ host.find { root := ['/'] } = .ok host.root ∧
      ∃ templates, ({ sourceDir := { root := ['/'] } } : Check).collect host = .ok templates ∧
        ⟨["en".toList, "B.ISML".toList]⟩ ∈ templates ∧ ⟨["a.isml".toList]⟩ ∉ templates ∧
        (templates.map Template.sourceName).Nodup := by
  have hlanguage : (FileTree.directory [("B.ISML".toList, .file (.ok []))]).Proper := by
    refine .directory ?_ (by simp) ?_
    · rw [List.forall_mem_singleton]
      exact ⟨by decide, by decide, by decide, by decide⟩
    · rw [List.forall_mem_singleton]
      exact .file _
  have hproper : (FileTree.directory [("a.isml".toList, .file (.ok [])),
      ("en".toList, .directory [("B.ISML".toList, .file (.ok []))])]).Proper := by
    refine .directory ?_ (by decide) ?_
    · rw [List.forall_mem_cons, List.forall_mem_singleton]
      exact ⟨⟨by decide, by decide, by decide, by decide⟩, by decide, by decide, by decide,
        by decide⟩
    · rw [List.forall_mem_cons, List.forall_mem_singleton]
      exact ⟨.file _, hlanguage⟩
  obtain ⟨templates, hcollect, hmem, -, hnames, -⟩ :=
    @collect_exact { sourceDir := { root := ['/'] } } { root := _ } _ hproper rfl
  refine ⟨_, hproper, rfl, templates, hcollect, ?_, ?_, hnames⟩
  · refine (hmem _).mpr ⟨⟨.ok [], ?_⟩, by decide, "B.ISML".toList, rfl, "B".toList, ".ISML".toList,
      rfl, by decide, by decide⟩
    exact .entry (List.mem_cons_of_mem _ List.mem_cons_self) (.entry List.mem_cons_self (.file _))
  · intro hstored
    exact absurd ((hmem _).mp hstored).below (by decide)

end Check

end StoreMarkup
