import Mathlib.Data.List.Lex
import Mathlib.Data.List.Sort
import MiniSheet.Proofs.Registry

/-!
# What loading a package registers

The stylesheet files of a package are those below its root that have the right extension, and a file
is below a directory if names lead down to it (`FileTree.descend`). Loading lists them recursively,
in the order in which directories enumerate their entries, and then sorts them. As long as no
directory has two entries of the same name, no two files are in the same place. So the order of
their paths is strict on them, and what is sorted by a strict order is known by its members
(`Package.stylesheetFiles_spec`). That is why the enumeration does not matter.

Registering the files is a run of single registrations. What is registered after some of them is
said by `Package.Registered`, which one more registration extends (`Package.Registered.insertAt`).
-/

namespace MiniSheet

/-! ## Trees -/

namespace FileTree

mutual

/-- No directory of a tree has two entries of the same name. -/
def Distinct : FileTree → Prop
  | file _ => True
  | directory entries => (entries.map Prod.fst).Nodup ∧ DistinctEntries entries

/-- Below the entries of a directory, no directory has two entries of the same name. -/
def DistinctEntries : List (Text × FileTree) → Prop
  | [] => True
  | (_, tree) :: entries => tree.Distinct ∧ DistinctEntries entries

end

theorem distinctEntries_iff {entries : List (Text × FileTree)} :
    DistinctEntries entries ↔ ∀ entry ∈ entries, entry.2.Distinct := by
  induction entries with
  | nil => simp [DistinctEntries]
  | cons entry entries ih => rw [DistinctEntries, ih, List.forall_mem_cons]

theorem named?_cons (name : Text) (entry : Text × FileTree) (entries : List (Text × FileTree)) :
    named? name (entry :: entries) =
      if entry.1 = name then some entry.2 else named? name entries := by
  rw [named?, List.find?_cons]
  by_cases h : entry.1 = name
  · rw [if_pos h, beq_iff_eq.2 h]
    rfl
  · rw [if_neg h, beq_eq_false_iff_ne.2 h]
    rfl

/-- An entry is found by its name. -/
theorem named?_eq_some_iff {entries : List (Text × FileTree)} (h : (entries.map Prod.fst).Nodup)
    {name : Text} {tree : FileTree} : named? name entries = some tree ↔ (name, tree) ∈ entries := by
  induction entries with
  | nil => simp [named?]
  | cons entry entries ih =>
    obtain ⟨first, other⟩ := entry
    obtain ⟨hfirst, hrest⟩ := List.nodup_cons.1 h
    rw [named?_cons, List.mem_cons, ← ih hrest]
    by_cases hname : first = name
    · subst hname
      have hnone : named? first entries ≠ some tree := fun hsome =>
        hfirst (List.mem_map.2 ⟨_, (ih hrest).1 hsome, rfl⟩)
      simp [hnone, eq_comm]
    · simp [hname, Ne.symm hname]

theorem descend_cons_eq_ok_iff {entries : List (Text × FileTree)} {name : Text} {names : List Text}
    {below : FileTree} :
    (directory entries).descend (name :: names) = .ok below ↔
      ∃ tree, named? name entries = some tree ∧ tree.descend names = .ok below := by
  rw [descend]
  cases named? name entries <;> simp

/-- Names may be followed in two parts. -/
theorem descend_append {tree middle : FileTree} {front : List Text}
    (h : tree.descend front = .ok middle) (back : List Text) :
    tree.descend (front ++ back) = middle.descend back := by
  induction front generalizing tree with
  | nil =>
    obtain rfl := Except.ok.inj h
    rfl
  | cons name front ih =>
    cases tree with
    | file bytes => cases h
    | directory entries =>
      obtain ⟨tree, hnamed, hbelow⟩ := descend_cons_eq_ok_iff.1 h
      rw [List.cons_append, descend, hnamed]
      exact ih hbelow

theorem Distinct.descend {tree below : FileTree} {names : List Text} (h : tree.Distinct)
    (hdescend : tree.descend names = .ok below) : below.Distinct := by
  induction names generalizing tree with
  | nil =>
    obtain rfl := Except.ok.inj hdescend
    exact h
  | cons name names ih =>
    cases tree with
    | file bytes => cases hdescend
    | directory entries =>
      rw [Distinct] at h
      obtain ⟨tree, hnamed, hbelow⟩ := descend_cons_eq_ok_iff.1 hdescend
      exact ih (distinctEntries_iff.1 h.2 _ ((named?_eq_some_iff h.1).1 hnamed)) hbelow

/-! ## The files of a tree -/

theorem child_absolute (base : List Text) (name : Text) :
    (Location.absolute base).child name = .absolute (base ++ [name]) := by
  simp [Location.child, Location.join, Location.dropNames]

mutual

/-- The files of a tree are those that names lead down to. -/
theorem mem_files : (tree : FileTree) → ∀ base : List Text, tree.Distinct → ∀ found : File,
    found ∈ files (.absolute base) tree ↔
      ∃ below, found.location = .absolute (base ++ below) ∧
        tree.descend below = .ok (.file found.bytes)
  | .file bytes, base, _, found => by
    rw [files, List.mem_singleton]
    constructor
    · rintro rfl
      exact ⟨[], by simp, rfl⟩
    · rintro ⟨below, hlocation, hdescend⟩
      cases below with
      | nil =>
        obtain ⟨location, bytes⟩ := found
        cases hdescend
        rw [List.append_nil] at hlocation
        exact congrArg (File.mk · bytes) hlocation
      | cons name below => cases hdescend
  | .directory entries, base, h, found => by
    rw [Distinct] at h
    rw [files, mem_filesOfEntries entries base h.2 found]
    constructor
    · rintro ⟨name, tree, below, hmem, hlocation, hdescend⟩
      exact ⟨name :: below, hlocation,
        descend_cons_eq_ok_iff.2 ⟨tree, (named?_eq_some_iff h.1).2 hmem, hdescend⟩⟩
    · rintro ⟨below, hlocation, hdescend⟩
      cases below with
      | nil => cases hdescend
      | cons name below =>
        obtain ⟨tree, hnamed, hdescend⟩ := descend_cons_eq_ok_iff.1 hdescend
        exact ⟨name, tree, below, (named?_eq_some_iff h.1).1 hnamed, hlocation, hdescend⟩

/-- The files of entries are those that names lead down to from one of them. -/
theorem mem_filesOfEntries :
    (entries : List (Text × FileTree)) → ∀ base : List Text, DistinctEntries entries →
      ∀ found : File, found ∈ filesOfEntries (.absolute base) entries ↔
        ∃ name tree below, (name, tree) ∈ entries ∧
          found.location = .absolute (base ++ name :: below) ∧
          tree.descend below = .ok (.file found.bytes)
  | [], _, _, _ => by simp [filesOfEntries]
  | (name, tree) :: entries, base, h, found => by
    rw [DistinctEntries] at h
    rw [filesOfEntries, List.mem_append, child_absolute, mem_files tree (base ++ [name]) h.1 found,
      mem_filesOfEntries entries base h.2 found]
    simp only [List.append_assoc, List.singleton_append]
    constructor
    · rintro (⟨below, hlocation, hdescend⟩ | ⟨other, lower, below, hmem, hbelow⟩)
      · exact ⟨name, tree, below, List.mem_cons_self, hlocation, hdescend⟩
      · exact ⟨other, lower, below, List.mem_cons_of_mem _ hmem, hbelow⟩
    · rintro ⟨other, lower, below, hmem, hbelow⟩
      rcases List.mem_cons.1 hmem with heq | hmem
      · obtain ⟨rfl, rfl⟩ := Prod.mk.inj heq
        exact .inl ⟨below, hbelow⟩
      · exact .inr ⟨other, lower, below, hmem, hbelow⟩

end

mutual

/-- No two files of a tree are in the same place. -/
theorem nodup_files : (tree : FileTree) → ∀ base : List Text, tree.Distinct →
    ((files (.absolute base) tree).map File.location).Nodup
  | .file bytes, base, _ => by
    rw [files]
    exact List.nodup_singleton _
  | .directory entries, base, h => by
    rw [Distinct] at h
    rw [files]
    exact nodup_filesOfEntries entries base h.1 h.2

theorem nodup_filesOfEntries :
    (entries : List (Text × FileTree)) → ∀ base : List Text, (entries.map Prod.fst).Nodup →
      DistinctEntries entries → ((filesOfEntries (.absolute base) entries).map File.location).Nodup
  | [], _, _, _ => by
    rw [filesOfEntries]
    exact List.nodup_nil
  | (name, tree) :: entries, base, hnames, h => by
    rw [DistinctEntries] at h
    obtain ⟨hname, hnames⟩ := List.nodup_cons.1 hnames
    rw [filesOfEntries, child_absolute, List.map_append, List.nodup_append]
    refine ⟨nodup_files tree _ h.1, nodup_filesOfEntries entries base hnames h.2, ?_⟩
    -- paths through different entries differ in the name of the entry
    intro location hfirst other hrest heq
    obtain ⟨file, hfile, rfl⟩ := List.mem_map.1 hfirst
    obtain ⟨file', hfile', rfl⟩ := List.mem_map.1 hrest
    obtain ⟨below, hlocation, -⟩ := (mem_files tree _ h.1 file).1 hfile
    obtain ⟨name', tree', below', hmem, hlocation', -⟩ :=
      (mem_filesOfEntries entries base h.2 file').1 hfile'
    rw [hlocation, hlocation', List.append_assoc, Location.absolute.injEq,
      List.append_cancel_left_eq] at heq
    obtain ⟨rfl, -⟩ := List.cons.inj heq
    exact hname (List.mem_map.2 ⟨_, hmem, rfl⟩)

end

/-! ## Trees in another order -/

/-- A tree whose directories enumerate the same entries in another order. -/
inductive Reorders : FileTree → FileTree → Prop
  /-- all orders are the same -/
  | refl (tree : FileTree) : Reorders tree tree
  /-- the order of one directory is different -/
  | shuffle {entries shuffled : List (Text × FileTree)} : entries.Perm shuffled →
      Reorders (.directory entries) (.directory shuffled)
  /-- the orders below one entry are different -/
  | inside (front back : List (Text × FileTree)) (name : Text) {tree other : FileTree} :
      Reorders tree other →
      Reorders (.directory (front ++ (name, tree) :: back))
        (.directory (front ++ (name, other) :: back))
  /-- one is changed after the other -/
  | trans {tree other another : FileTree} : Reorders tree other → Reorders other another →
      Reorders tree another

namespace Reorders

variable {tree other : FileTree}

theorem symm (h : Reorders tree other) : Reorders other tree := by
  induction h with
  | refl tree => exact .refl tree
  | shuffle h => exact .shuffle h.symm
  | inside front back name _ ih => exact .inside front back name ih
  | trans _ _ ih ih' => exact ih'.trans ih

theorem distinct (h : Reorders tree other) (hdistinct : tree.Distinct) : other.Distinct := by
  induction h with
  | refl => exact hdistinct
  | shuffle h =>
    rw [Distinct, distinctEntries_iff] at hdistinct ⊢
    exact ⟨(h.map Prod.fst).nodup_iff.1 hdistinct.1,
      fun entry hmem => hdistinct.2 entry (h.mem_iff.2 hmem)⟩
  | inside front back name _ ih =>
    rw [Distinct, distinctEntries_iff, List.forall_mem_append, List.forall_mem_cons] at hdistinct ⊢
    obtain ⟨hnames, hfront, htree, hback⟩ := hdistinct
    refine ⟨?_, hfront, ih htree, hback⟩
    rw [List.map_append, List.map_cons] at hnames ⊢
    exact hnames
  | trans _ _ ih ih' => exact ih' (ih hdistinct)

/-- A file has no order. -/
theorem eq_file {bytes : ByteArray} (h : Reorders tree other) (htree : tree = .file bytes) :
    other = .file bytes := by
  induction h with
  | refl => exact htree
  | shuffle | inside => cases htree
  | trans _ _ ih ih' => exact ih' (ih htree)

/-- Names lead to the same trees up to the order, or fail for the same reason. -/
theorem descend (h : Reorders tree other) (hdistinct : tree.Distinct) (names : List Text) :
    (∃ fault, tree.descend names = .error fault ∧ other.descend names = .error fault) ∨
      ∃ lower lower', tree.descend names = .ok lower ∧ other.descend names = .ok lower' ∧
        Reorders lower lower' := by
  have hrefl (result : Except FileFault FileTree) :
      (∃ fault, result = .error fault ∧ result = .error fault) ∨
      ∃ lower lower', result = .ok lower ∧ result = .ok lower' ∧ Reorders lower lower' := by
    cases result with
    | error fault => exact .inl ⟨fault, rfl, rfl⟩
    | ok lower => exact .inr ⟨lower, lower, rfl, rfl, .refl lower⟩
  induction h generalizing names with
  | refl tree => exact hrefl (tree.descend names)
  | @shuffle entries shuffled h =>
    cases names with
    | nil => exact .inr ⟨_, _, rfl, rfl, .shuffle h⟩
    | cons name names =>
      rw [Distinct] at hdistinct
      have hnamed : named? name entries = named? name shuffled := by
        refine Option.ext fun lower => ?_
        rw [named?_eq_some_iff hdistinct.1,
          named?_eq_some_iff ((h.map Prod.fst).nodup_iff.1 hdistinct.1), h.mem_iff]
      rw [FileTree.descend, FileTree.descend, hnamed]
      exact hrefl _
  | @inside front back name tree other h ih =>
    cases names with
    | nil => exact .inr ⟨_, _, rfl, rfl, .inside front back name h⟩
    | cons next names =>
      have htree : tree.Distinct := by
        rw [Distinct, distinctEntries_iff] at hdistinct
        exact hdistinct.2 (name, tree) (List.mem_append_right _ List.mem_cons_self)
      rw [FileTree.descend, FileTree.descend]
      -- an entry in front of the changed one is found in both trees, and one behind it as well
      clear hdistinct
      induction front with
      | nil =>
        rw [List.nil_append, List.nil_append, named?_cons, named?_cons]
        by_cases hname : name = next
        · rw [if_pos hname, if_pos hname]
          exact ih htree names
        · rw [if_neg hname, if_neg hname]
          exact hrefl _
      | cons entry front hfront =>
        rw [List.cons_append, List.cons_append, named?_cons, named?_cons]
        by_cases hname : entry.1 = next
        · rw [if_pos hname, if_pos hname]
          exact hrefl _
        · rw [if_neg hname, if_neg hname]
          exact hfront
  | trans h _ ih ih' =>
    obtain ⟨fault, htree, hother⟩ | ⟨lower, lower', htree, hother, hlower⟩ := ih hdistinct names
    · obtain ⟨fault', hother', hanother⟩ | ⟨_, _, hother', -, -⟩ := ih' (h.distinct hdistinct) names
      · obtain rfl := Except.error.inj (hother.symm.trans hother')
        exact .inl ⟨fault, htree, hanother⟩
      · cases hother.symm.trans hother'
    · obtain ⟨_, hother', -⟩ | ⟨lower'', lower''', hother', hanother, hlower'⟩ :=
        ih' (h.distinct hdistinct) names
      · cases hother.symm.trans hother'
      · obtain rfl := Except.ok.inj (hother.symm.trans hother')
        exact .inr ⟨lower, lower''', htree, hanother, hlower.trans hlower'⟩

/-- The same files are in the same places. -/
theorem descend_eq_file (h : Reorders tree other) (hdistinct : tree.Distinct) {names : List Text}
    {bytes : ByteArray} (hfile : tree.descend names = .ok (.file bytes)) :
    other.descend names = .ok (.file bytes) := by
  obtain ⟨fault, htree, -⟩ | ⟨lower, lower', htree, hother, hlower⟩ := h.descend hdistinct names
  · cases hfile.symm.trans htree
  · rw [hother, hlower.eq_file (Except.ok.inj (htree.symm.trans hfile))]

end Reorders

end FileTree

/-! ## The order of paths -/

/-- Characters are in the order of their numbers. -/
def Text.CharBefore (c d : Char) : Prop := c.toNat < d.toNat

/-- Texts are in the order of the first characters that differ, and what a text starts with is in
front of it. -/
def Text.Before : Text → Text → Prop := List.Lex CharBefore

/-- Files are in the order of the first names on their paths that differ, and a path is behind all
that lead to it. -/
def FileTree.File.Before (a b : FileTree.File) : Prop :=
  List.Lex Text.Before a.location.names b.location.names

namespace Text

instance : Std.Asymm CharBefore := ⟨fun _ _ => Nat.lt_asymm⟩

instance : Std.Trichotomous CharBefore :=
  ⟨fun _ _ h h' => Char.toNat_inj.1 (Nat.le_antisymm (Nat.le_of_not_lt h') (Nat.le_of_not_lt h))⟩

instance : IsOrderConnected Char CharBefore where
  conn a b c h := by
    unfold CharBefore at *
    omega

instance : Std.Asymm Before := inferInstanceAs (Std.Asymm (List.Lex CharBefore))

instance : Std.Trichotomous Before := inferInstanceAs (Std.Trichotomous (List.Lex CharBefore))

instance : IsOrderConnected Text Before :=
  inferInstanceAs (IsOrderConnected (List Char) (List.Lex CharBefore))

end Text

namespace FileTree.File

instance : Std.Asymm Before :=
  ⟨fun a b => Std.Asymm.asymm (r := List.Lex Text.Before) a.location.names b.location.names⟩

end FileTree.File

namespace Package

open FileTree (File)

theorem nameBefore_iff {s t : Text} : nameBefore s t = true ↔ s.Before t := by
  rw [nameBefore, List.lex_eq_true_iff_lex]
  simp only [decide_eq_true_eq]
  rfl

theorem fileOrder_iff {a b : File} : fileOrder a b = true ↔ ¬ b.Before a := by
  rw [fileOrder, Bool.not_eq_true', ← Bool.not_eq_true, List.lex_eq_true_iff_lex]
  simp only [nameBefore_iff]
  rfl

/-- Files in different places are strictly in order once they are sorted. -/
theorem pairwise_mergeSort {files : List File}
    (habsolute : ∀ file ∈ files, ∃ names, file.location = .absolute names)
    (h : (files.map File.location).Nodup) : (files.mergeSort fileOrder).Pairwise File.Before := by
  have hconnected : IsOrderConnected (List Text) (List.Lex Text.Before) := inferInstance
  have hsorted : (files.mergeSort fileOrder).Pairwise fun a b => fileOrder a b = true := by
    refine List.pairwise_mergeSort (fun a b c hab hbc => ?_) (fun a b => ?_) files
    · rw [fileOrder_iff] at *
      intro hca
      rcases hconnected.conn _ b.location.names _ hca with hcb | hba
      · exact hbc hcb
      · exact hab hba
    · rw [Bool.or_eq_true, fileOrder_iff, fileOrder_iff]
      by_cases hab : a.Before b
      · exact .inl (Std.Asymm.asymm _ _ hab)
      · exact .inr hab
  have hperm := List.mergeSort_perm files fileOrder
  have hapart : (files.mergeSort fileOrder).Pairwise fun a b => a.location ≠ b.location :=
    List.pairwise_map.1 ((hperm.map File.location).nodup_iff.2 h)
  refine (hsorted.and hapart).imp_of_mem fun {a b} ha hb hab => ?_
  by_contra hnot
  obtain ⟨names, hnames⟩ := habsolute a (hperm.mem_iff.1 ha)
  obtain ⟨names', hnames'⟩ := habsolute b (hperm.mem_iff.1 hb)
  refine hab.2 ?_
  have heq : a.location.names = b.location.names :=
    Std.Trichotomous.trichotomous (r := List.Lex Text.Before) _ _ hnot (fileOrder_iff.1 hab.1)
  rw [hnames, hnames'] at heq ⊢
  exact congrArg Location.absolute heq

/-! ## Stylesheet files -/

variable {p q : Package} {tree other : FileTree}

/-- There is a directory at the root of the package. -/
def HasDirectory (p : Package) (tree : FileTree) : Prop :=
  ∃ base entries, p.root = .absolute base ∧ tree.descend base = .ok (.directory entries)

/-- A file that names lead down to from the root of the package, with the extension of
stylesheets. -/
def IsStylesheetFile (p : Package) (tree : FileTree) (file : File) : Prop :=
  (∃ base below, p.root = .absolute base ∧ file.location = .absolute (base ++ below) ∧
    tree.descend (base ++ below) = .ok (.file file.bytes)) ∧
  file.location.extension? = some p.options.extension

/-- **The files to be registered are the stylesheet files, strictly in order.** -/
theorem stylesheetFiles_spec (h : tree.Distinct) (hdirectory : p.HasDirectory tree) :
    ∃ files, p.stylesheetFiles tree = .ok files ∧ files.Pairwise File.Before ∧
      ∀ file, file ∈ files ↔ p.IsStylesheetFile tree file := by
  obtain ⟨base, entries, hroot, hdescend⟩ := hdirectory
  have hentries := h.descend hdescend
  have hmem (file : File) : file ∈ FileTree.filesOfEntries (.absolute base) entries ↔
      ∃ below, file.location = .absolute (base ++ below) ∧
        tree.descend (base ++ below) = .ok (.file file.bytes) := by
    rw [← FileTree.files, FileTree.mem_files _ base hentries file]
    simp only [FileTree.descend_append hdescend]
  have hlist : tree.list p.root = .ok (FileTree.filesOfEntries (.absolute base) entries) := by
    rw [hroot, FileTree.list, hdescend]
  rw [stylesheetFiles, hlist]
  refine ⟨_, rfl, pairwise_mergeSort (fun file hfile => ?_) ?_, fun file => ?_⟩
  · obtain ⟨below, hlocation, -⟩ := (hmem file).1 (List.mem_of_mem_filter hfile)
    exact ⟨_, hlocation⟩
  · have hnodup := FileTree.nodup_files _ base hentries
    rw [FileTree.files] at hnodup
    exact hnodup.sublist (List.filter_sublist.map _)
  · rw [List.mem_mergeSort, List.mem_filter, hmem, beq_iff_eq, IsStylesheetFile]
    refine and_congr_left fun _ => ?_
    constructor
    · rintro ⟨below, hbelow⟩
      exact ⟨base, below, hroot, hbelow⟩
    · rintro ⟨base', below, hroot', hbelow⟩
      obtain rfl := Location.absolute.inj (hroot.symm.trans hroot')
      exact ⟨below, hbelow⟩

/-- Without a directory there are none. -/
theorem stylesheetFiles_of_not_hasDirectory (h : ¬ p.HasDirectory tree) :
    ∃ fault, p.stylesheetFiles tree = .error ⟨p.root, fault⟩ := by
  have hlist : ∃ fault, tree.list p.root = .error fault := by
    cases hroot : p.root with
    | relative ups names => exact ⟨_, rfl⟩
    | absolute base =>
      rw [FileTree.list]
      rcases hdescend : tree.descend base with fault | bytes | entries
      · exact ⟨_, rfl⟩
      · exact ⟨_, rfl⟩
      · exact absurd ⟨base, entries, hroot, hdescend⟩ h
  obtain ⟨fault, hlist⟩ := hlist
  rw [stylesheetFiles, hlist]
  exact ⟨fault, rfl⟩

theorem IsStylesheetFile.reorder {file : File} (hfile : p.IsStylesheetFile tree file)
    (h : tree.Reorders other) (hdistinct : tree.Distinct) : p.IsStylesheetFile other file := by
  obtain ⟨⟨base, below, hroot, hlocation, hdescend⟩, hextension⟩ := hfile
  exact ⟨⟨base, below, hroot, hlocation, h.descend_eq_file hdistinct hdescend⟩, hextension⟩

/-- The order in which directories enumerate their entries does not matter. -/
theorem stylesheetFiles_reorder (h : tree.Reorders other) (hdistinct : tree.Distinct) :
    p.stylesheetFiles other = p.stylesheetFiles tree := by
  cases hroot : p.root with
  | relative ups names => rw [stylesheetFiles, stylesheetFiles, hroot]; rfl
  | absolute base =>
    obtain ⟨fault, htree, hother⟩ | ⟨lower, lower', htree, hother, hlower⟩ :=
      h.descend hdistinct base
    · rw [stylesheetFiles, stylesheetFiles, hroot, FileTree.list, FileTree.list, htree, hother]
    · cases lower with
      | file bytes =>
        rw [hlower.eq_file rfl] at hother
        rw [stylesheetFiles, stylesheetFiles, hroot, FileTree.list, FileTree.list, htree, hother]
      | directory entries =>
        cases lower' with
        | file bytes => cases hlower.symm.eq_file rfl
        | directory entries' =>
          -- both are strictly sorted and have the same members
          have hdistinct' := h.distinct hdistinct
          obtain ⟨files, hfiles, hsorted, hmem⟩ :=
            stylesheetFiles_spec hdistinct ⟨base, entries, hroot, htree⟩
          obtain ⟨files', hfiles', hsorted', hmem'⟩ :=
            stylesheetFiles_spec hdistinct' ⟨base, entries', hroot, hother⟩
          rw [hfiles, hfiles']
          refine congrArg Except.ok (hsorted'.eq_of_mem_iff hsorted fun file => ?_)
          rw [hmem, hmem']
          exact ⟨fun hfile => hfile.reorder h.symm hdistinct',
            fun hfile => hfile.reorder h hdistinct⟩

/-! ## Registering files -/

/-- What became of a package in which files were registered, each with its text. -/
structure Registered (p : Package) (files : List File) (q : Package) : Prop where
  /-- it lies where it lay -/
  root : q.root = p.root
  /-- its settings are the same -/
  options : q.options = p.options
  /-- and so are its transforms -/
  transforms : q.transforms = p.transforms
  /-- locations keep their places, and new ones are behind them in the order of the files -/
  locations : q.sheets.map Sheet.location = p.sheets.map Sheet.location ++
    (files.map File.location).filter fun location => decide (location ∉ p.sheets.map Sheet.location)
  /-- at the location of a file there is a new stylesheet with its text -/
  sheet : ∀ file ∈ files, q.find? file.location = some
    { location := file.location, source := file.text?, isEntry := file.location == p.entryLocation
      compiled := {}, importers := [], isIndependent := false }
  /-- everything else is as it was -/
  others : ∀ location, location ∉ files.map File.location → q.find? location = p.find? location

theorem registered_nil (p : Package) : p.Registered [] p :=
  ⟨rfl, rfl, rfl, (List.append_nil _).symm, nofun, fun _ _ => rfl⟩

/-- One more file is registered. -/
theorem Registered.insertAt {files : List File} (h : p.Registered files q) {file : File}
    (habsolute : ∃ names, file.location = .absolute names)
    (hnew : file.location ∉ files.map File.location) :
    p.Registered (files ++ [file]) (q.insertAt file.location file.text?) := by
  obtain ⟨names, hnames⟩ := habsolute
  have hlocation : q.root.join file.location = file.location := by
    rw [hnames, Location.join_absolute]
  have hentry : q.entryLocation = p.entryLocation := by
    rw [entryLocation, entryLocation, locate, locate, h.root, h.options]
  have hsheets : (q.insertAt file.location file.text?).sheets = register q.sheets
      { location := file.location, source := file.text?,
        isEntry := file.location == p.entryLocation } := by
    rw [Package.insertAt]
    dsimp only
    rw [hlocation, hentry]
  have hfind (location : Location) : (q.insertAt file.location file.text?).find? location =
      if file.location = location then some
        { location := file.location, source := file.text?,
          isEntry := file.location == p.entryLocation }
      else q.find? location := by
    rw [find?, hsheets, find?_register]
    rfl
  refine ⟨h.root, h.options, h.transforms, ?_, fun other hmem => ?_, fun location hnot => ?_⟩
  · rw [hsheets, map_location_register, h.locations, List.map_append, List.filter_append]
    by_cases hold : file.location ∈ p.sheets.map Sheet.location
    · rw [if_pos (List.mem_append_left _ hold), List.map_singleton,
        List.filter_cons_of_neg (by simpa using hold), List.filter_nil, List.append_nil]
    · have hnot : file.location ∉ p.sheets.map Sheet.location ++
          (files.map File.location).filter
            fun location => decide (location ∉ p.sheets.map Sheet.location) := fun hmem =>
        (List.mem_append.1 hmem).elim hold fun hmem => hnew (List.mem_of_mem_filter hmem)
      rw [if_neg hnot, List.map_singleton, List.filter_cons_of_pos (by simpa using hold),
        List.append_assoc]
      rfl
  · rcases List.mem_append.1 hmem with hmem | hmem
    · have hne : file.location ≠ other.location := fun heq => hnew (heq ▸ List.mem_map_of_mem hmem)
      rw [hfind, if_neg hne]
      exact h.sheet other hmem
    · obtain rfl := List.mem_singleton.1 hmem
      rw [hfind, if_pos rfl]
  · rw [List.map_append, List.mem_append, not_or] at hnot
    have hne : file.location ≠ location := fun heq => hnot.2 (List.mem_singleton.2 heq.symm)
    rw [hfind, if_neg hne]
    exact h.others location hnot.1

/-- Files in front that are texts are registered before the others. -/
theorem loadFiles_append {done front : List File} (h : p.Registered done q)
    (habsolute : ∀ file ∈ front, ∃ names, file.location = .absolute names)
    (hnodup : ((done ++ front).map File.location).Nodup)
    (htext : ∀ file ∈ front, file.text?.isSome = true) (rest : List File) :
    ∃ r, q.loadFiles (front ++ rest) = r.loadFiles rest ∧ p.Registered (done ++ front) r := by
  induction front generalizing done q with
  | nil =>
    rw [List.append_nil]
    exact ⟨q, rfl, h⟩
  | cons file front ih =>
    rw [List.forall_mem_cons] at habsolute htext
    obtain ⟨source, hsource⟩ := Option.isSome_iff_exists.1 htext.1
    have hnew : file.location ∉ done.map File.location := by
      intro hmem
      rw [List.map_append, List.nodup_append] at hnodup
      exact hnodup.2.2 _ hmem _ List.mem_cons_self rfl
    have hnext := h.insertAt habsolute.1 hnew
    rw [List.append_cons] at hnodup ⊢
    obtain ⟨r, hload, hregistered⟩ := ih hnext habsolute.2 hnodup htext.2
    refine ⟨r, ?_, hregistered⟩
    rw [List.cons_append, loadFiles, hsource]
    rw [hsource] at hload
    exact hload

/-- All files are registered, or those in front of the first that is no text. -/
theorem load_of_stylesheetFiles {files : List File} (h : p.stylesheetFiles tree = .ok files)
    (habsolute : ∀ file ∈ files, ∃ names, file.location = .absolute names)
    (hnodup : (files.map File.location).Nodup) :
    (∀ file ∈ files, file.text?.isSome = true) ∧
      (p.load tree).value.2 = .ok files.length ∧ p.Registered files (p.load tree).value.1 ∨
    ∃ front bad back, files = front ++ bad :: back ∧ (∀ file ∈ front, file.text?.isSome = true) ∧
      bad.text? = none ∧ (p.load tree).value.2 = .error ⟨bad.location, .notText⟩ ∧
      p.Registered front (p.load tree).value.1 := by
  by_cases htext : ∀ file ∈ files, file.text?.isSome = true
  · obtain ⟨q, hload, hregistered⟩ := loadFiles_append (registered_nil p) habsolute hnodup htext []
    rw [List.append_nil] at hload
    rw [load, h]
    dsimp only
    rw [hload]
    exact .inl ⟨htext, rfl, hregistered⟩
  · have hbad : (files.find? fun file => file.text?.isNone).isSome = true := by
      rw [List.find?_isSome]
      simpa using htext
    obtain ⟨bad, hfind⟩ := Option.isSome_iff_exists.1 hbad
    obtain ⟨hnone, front, back, rfl, hfront⟩ := List.find?_eq_some_iff_append.1 hfind
    have hnone : bad.text? = none := Option.isNone_iff_eq_none.1 hnone
    have hfront : ∀ file ∈ front, file.text?.isSome = true := fun file hmem => by
      simpa using hfront file hmem
    rw [List.map_append] at hnodup
    obtain ⟨q, hload, hregistered⟩ := loadFiles_append (registered_nil p)
      (fun file hmem => habsolute file (List.mem_append_left _ hmem)) (List.nodup_append.1 hnodup).1
        hfront (bad :: back)
    rw [load, h]
    dsimp only
    rw [hload, loadFiles, hnone]
    exact .inr ⟨front, bad, back, rfl, hfront, hnone, rfl, hregistered⟩

/-- **Loading registers the stylesheet files of a package**, in whatever state the package is. It
does not matter in which order directories enumerate their entries, as long as their entries have
different names.

If there is no directory at the root of the package, nothing is registered. Otherwise the stylesheet
files are taken in the order of their paths, name by name. If all of them are texts, they are
registered and counted. If not, the error names the first that is none, and those in front of it are
registered. What is registered replaces what was at the same location, or else goes behind all
others; the rest of the package is left alone. -/
theorem load_is_exact (root : Text) (options : Options) (transforms : Transforms)
    (operations : List Operation) (tree : FileTree) (h : tree.Distinct) :
    let p := (Package.empty root options transforms).performAll operations
    let outcome := (p.load tree).value
    (∀ other, tree.Reorders other → p.load other = p.load tree) ∧
    (outcome.1.sheets.map Sheet.location).Nodup ∧
    outcome.1.index = (outcome.1.sheets.map Sheet.location).zipIdx ∧
    (¬ p.HasDirectory tree → ∃ fault, outcome = (p, .error ⟨p.root, fault⟩)) ∧
    (p.HasDirectory tree → ∃ files : List File,
      files.Pairwise File.Before ∧ (∀ file, file ∈ files ↔ p.IsStylesheetFile tree file) ∧
      ((∀ file ∈ files, file.text?.isSome = true) ∧ outcome.2 = .ok files.length ∧
          p.Registered files outcome.1 ∨
        ∃ front bad back, files = front ++ bad :: back ∧
          (∀ file ∈ front, file.text?.isSome = true) ∧ bad.text? = none ∧
          outcome.2 = .error ⟨bad.location, .notText⟩ ∧ p.Registered front outcome.1)) := by
  intro p outcome
  have hhistory : outcome.1 =
      (Package.empty root options transforms).performAll (operations ++ [.load tree]) := by
    rw [performAll, List.foldl_append]
    rfl
  refine ⟨fun other hother => ?_, ?_, ?_, fun hnone => ?_, fun hdirectory => ?_⟩
  · rw [load, load, stylesheetFiles_reorder hother h]
  · rw [hhistory]
    exact Package.distinct _
  · rw [hhistory]
    exact ((recorded_empty root options transforms).performAll _).index
  · obtain ⟨fault, hfault⟩ := stylesheetFiles_of_not_hasDirectory hnone
    refine ⟨fault, ?_⟩
    change (p.load tree).value = _
    rw [load, hfault]
    rfl
  · obtain ⟨files, hfiles, hsorted, hmem⟩ := stylesheetFiles_spec h hdirectory
    refine ⟨files, hsorted, hmem, load_of_stylesheetFiles hfiles (fun file hfile => ?_) ?_⟩
    · obtain ⟨⟨base, below, -, hlocation, -⟩, -⟩ := (hmem file).1 hfile
      exact ⟨_, hlocation⟩
    · refine List.pairwise_map.2 (hsorted.imp fun {a b} hbefore heq => ?_)
      rw [File.Before, heq] at hbefore
      exact Std.Irrefl.irrefl _ hbefore

/-- Entries of a directory: a directory with a stylesheet in it, other stylesheets, a file that is
none, and one that is no text. -/
def attic : List (Text × FileTree) :=
  [("a".toList, .directory [("z.wxss".toList, .file ".z\x7b\x7d".toUTF8)]),
    ("a.wxss".toList, .file ".a\x7b\x7d".toUTF8), ("b.wxss".toList, .file ⟨#[0xff]⟩),
    ("c.txt".toList, .file ⟨#[0xff]⟩), ("d.wxss".toList, .file ".d\x7b\x7d".toUTF8)]

/-- A tree with that directory. -/
def archive (entries : List (Text × FileTree)) : FileTree :=
  .directory [("p".toList, .directory entries)]

/-- However the directory is enumerated, the file `a/z.wxss` comes before `a.wxss`, which keeps its
place, and the file that is no text ends it. -/
theorem load_is_exact_attic :
    let p := (Package.empty ['p'] {} .standard).performAll [.insert "a.wxss".toList none]
    let outcome := (p.load (archive attic.reverse)).value
    (archive attic).Distinct ∧ (archive attic).Reorders (archive attic.reverse) ∧
      outcome.2 = .error ⟨.absolute ["p".toList, "b.wxss".toList], .notText⟩ ∧
      outcome.1.sheets.map Sheet.location =
        [.absolute ["p".toList, "a.wxss".toList],
          .absolute ["p".toList, "a".toList, "z.wxss".toList]] := by
  intro p outcome
  have hdistinct : (archive attic).Distinct := by
    simp only [archive, attic, FileTree.Distinct, FileTree.DistinctEntries]
    decide
  have hreorders : (archive attic).Reorders (archive attic.reverse) :=
    .inside [] [] "p".toList (.shuffle attic.reverse_perm.symm)
  obtain ⟨hsame, -⟩ :=
    load_is_exact ['p'] {} .standard [.insert "a.wxss".toList none] (archive attic) hdistinct
  have hfiles : p.stylesheetFiles (archive attic) =
      .ok [⟨.absolute ["p".toList, "a".toList, "z.wxss".toList], ".z\x7b\x7d".toUTF8⟩,
        ⟨.absolute ["p".toList, "a.wxss".toList], ".a\x7b\x7d".toUTF8⟩,
        ⟨.absolute ["p".toList, "b.wxss".toList], ⟨#[0xff]⟩⟩,
        ⟨.absolute ["p".toList, "d.wxss".toList], ".d\x7b\x7d".toUTF8⟩] :=
    congrArg Except.ok (List.mergeSort_of_pairwise (by decide +kernel))
  have houtcome : outcome = (p.load (archive attic)).value :=
    congrArg Logged.value (hsame _ hreorders)
  refine ⟨hdistinct, hreorders, ?_, ?_⟩
  · rw [houtcome, load, hfiles]
    decide +kernel
  · rw [houtcome, load, hfiles]
    decide +kernel

end Package

end MiniSheet
