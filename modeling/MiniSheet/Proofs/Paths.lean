import MiniSheet.FileTree

/-!
# Written paths and the locations they stand for

There are many ways to write a location, and one of them is its written form. It can be read: the
written form of a location stands for that location (`Location.ofText_toText`), provided that no
name in it would be taken for something else (`Text.IsName`). Whatever is read from a path has only
such names, and so has every file of a tree whose entries are named like that.

Reading goes segment by segment, so the proof does too. Steps up and names are the segments of the
written form, and following them from any place is joining the location to it.
-/

namespace MiniSheet

namespace Text

/-- A text that names an entry of a directory: as a segment of a path it stands for itself. -/
def IsName (t : Text) : Prop := t ≠ [] ∧ t ≠ ['.'] ∧ t ≠ ['.', '.'] ∧ '/' ∉ t

instance (t : Text) : Decidable t.IsName :=
  inferInstanceAs (Decidable (t ≠ [] ∧ t ≠ ['.'] ∧ t ≠ ['.', '.'] ∧ '/' ∉ t))

theorem pieces_eq_splitOn (separator : Char) (t : Text) :
    pieces separator t = t.splitOn separator := by
  induction t with
  | nil => rfl
  | cons c t ih =>
    rw [pieces, ih, List.splitOn_cons_eq_if_modifyHead]
    split
    · rfl
    · obtain ⟨piece, rest, hpieces⟩ := List.exists_cons_of_ne_nil (List.splitOn_ne_nil separator t)
      rw [hpieces]
      rfl

theorem join_eq_intercalate (separator : Text) (texts : List Text) :
    join separator texts = separator.intercalate texts := by
  induction texts with
  | nil => rfl
  | cons t texts ih =>
    cases texts with
    | nil => simp [join]
    | cons next rest =>
      rw [join, ih]
      simp [List.intercalate]

/-- Texts without the separating character are the pieces of what they are joined to. -/
theorem pieces_join {separator : Char} {texts : List Text} (h : ∀ t ∈ texts, separator ∉ t)
    (hne : texts ≠ []) : pieces separator (join [separator] texts) = texts := by
  rw [pieces_eq_splitOn, join_eq_intercalate]
  exact List.splitOn_intercalate separator h hne

/-- Pieces do not hold the separating character. -/
theorem notMem_of_mem_pieces {separator : Char} {t piece : Text} (h : piece ∈ pieces separator t) :
    separator ∉ piece := by
  induction t generalizing piece with
  | nil =>
    obtain rfl := List.mem_singleton.1 h
    exact List.not_mem_nil
  | cons c t ih =>
    rw [pieces] at h
    split at h
    · rcases List.mem_cons.1 h with rfl | h
      · exact List.not_mem_nil
      · exact ih h
    · rename_i hc
      have hne : separator ≠ c := fun heq => hc (beq_iff_eq.2 heq.symm)
      cases hpieces : pieces separator t with
      | nil =>
        rw [hpieces] at h
        obtain rfl := List.mem_singleton.1 h
        simpa using hne
      | cons first rest =>
        rw [hpieces] at h ih
        rcases List.mem_cons.1 h with rfl | h
        · exact List.not_mem_cons_of_ne_of_not_mem hne (ih List.mem_cons_self)
        · exact ih (List.mem_cons_of_mem _ h)

theorem head?_join_ne {separator : Char} {texts : List Text}
    (h : ∀ t ∈ texts, t ≠ [] ∧ separator ∉ t) :
    (join [separator] texts).head? ≠ some separator := by
  cases texts with
  | nil => nofun
  | cons t texts =>
    obtain ⟨hne, hnot⟩ := h t List.mem_cons_self
    obtain ⟨c, t, rfl⟩ := List.exists_cons_of_ne_nil hne
    have hhead : (join [separator] ((c :: t) :: texts)).head? = some c := by cases texts <;> rfl
    rw [hhead]
    rintro ⟨⟩
    exact hnot List.mem_cons_self

end Text

namespace Location

open Text

/-- A location all of whose names can be written. -/
def Proper (location : Location) : Prop := ∀ name ∈ location.names, name.IsName

theorem proper_here : here.Proper := nofun

theorem proper_root : root.Proper := nofun

theorem Proper.join {a b : Location} (ha : a.Proper) (hb : b.Proper) : (a.join b).Proper := by
  have hdrop {names : List Text} (count : Nat) (h : ∀ name ∈ names, name.IsName) :
      ∀ name ∈ dropNames count names, name.IsName :=
        fun name hmem => h name (List.mem_of_mem_take hmem)
  cases b with
  | absolute names =>
    rw [join_absolute]
    exact hb
  | relative ups names =>
    cases a with
    | absolute base | relative _ base =>
      intro name hmem
      rcases List.mem_append.1 hmem with hmem | hmem
      · exact hdrop ups ha name hmem
      · exact hb name hmem

/-! ## Reading -/

theorem ofSegment_of_isName {name : Text} (h : name.IsName) :
    ofSegment name = relative 0 [name] := by
  obtain ⟨hne, hdot, hdots, -⟩ := h
  rw [ofSegment, if_neg (by simp [hne, hdot]), if_neg (by simpa using hdots)]

theorem proper_ofSegment {segment : Text} (h : '/' ∉ segment) : (ofSegment segment).Proper := by
  rw [ofSegment]
  split
  · exact proper_here
  · rename_i hempty
    split
    · nofun
    · rename_i hdots
      rintro name hmem
      obtain rfl := List.mem_singleton.1 hmem
      simp only [Bool.or_eq_true, List.isEmpty_iff, beq_iff_eq, not_or] at hempty
      exact ⟨hempty.1, hempty.2, fun heq => hdots (beq_iff_eq.2 heq), h⟩

/-- What is read from a path can be written. -/
theorem proper_ofText (path : Text) : (ofText path).Proper := by
  have hfollow (segments : List Text) (start : Location) (hstart : start.Proper)
      (hsegments : ∀ segment ∈ segments, '/' ∉ segment) :
      (segments.foldl (fun location segment => location.join (ofSegment segment))
        start).Proper := by
    induction segments generalizing start with
    | nil => exact hstart
    | cons segment segments ih =>
      exact ih _ (hstart.join (proper_ofSegment (hsegments segment List.mem_cons_self)))
        fun other hmem => hsegments other (List.mem_cons_of_mem _ hmem)
  refine hfollow _ _ ?_ fun _ => notMem_of_mem_pieces
  split
  · exact proper_root
  · exact proper_here

/-- Following names is joining them. -/
theorem foldl_names (start : Location) {names : List Text} (h : ∀ name ∈ names, name.IsName) :
    names.foldl (fun location segment => location.join (ofSegment segment)) start =
      start.join (relative 0 names) := by
  induction names generalizing start with
  | nil => exact (join_here start).symm
  | cons name names ih =>
    rw [List.foldl_cons, ih _ fun other hmem => h other (List.mem_cons_of_mem _ hmem),
      ofSegment_of_isName (h name List.mem_cons_self), join_assoc]
    simp [join, dropNames]

/-- Following steps up is joining them. -/
theorem foldl_ups (start : Location) (ups : Nat) :
    (List.replicate ups "..".toList).foldl
        (fun location segment => location.join (ofSegment segment)) start =
      start.join (relative ups []) := by
  induction ups generalizing start with
  | zero => exact (join_here start).symm
  | succ ups ih =>
    have hup : ofSegment "..".toList = relative 1 [] := by decide
    rw [List.replicate_succ, List.foldl_cons, ih, hup, join_assoc]
    simp [join, dropNames, Nat.add_comm]

/-- What a relative location is written with are segments. -/
theorem segments_of_isName (ups : Nat) {names : List Text} (h : ∀ name ∈ names, name.IsName) :
    ∀ segment ∈ List.replicate ups "..".toList ++ names, segment ≠ [] ∧ '/' ∉ segment := by
  intro segment hmem
  rcases List.mem_append.1 hmem with hmem | hmem
  · rw [List.eq_of_mem_replicate hmem]
    decide
  · exact ⟨(h segment hmem).1, (h segment hmem).2.2.2⟩

/-- **The written form of a location stands for it.** -/
theorem ofText_toText {location : Location} (h : location.Proper) :
    ofText location.toText = location := by
  cases location with
  | absolute names =>
    have hnames : ∀ name ∈ names, name.IsName := h
    have hstart : (root.join (ofSegment [])) = root := by decide
    have hpieces :
        pieces '/' ('/' :: Text.join ['/'] names) = [] :: pieces '/' (Text.join ['/'] names) := by
      rw [pieces, if_pos BEq.rfl]
    rw [toText, ofText, List.head?_cons, if_pos BEq.rfl, hpieces, List.foldl_cons, hstart]
    by_cases hne : names = []
    · subst hne
      exact hstart
    · rw [pieces_join (fun name hmem => (hnames name hmem).2.2.2) hne, foldl_names root hnames]
      simp [root, Location.join, dropNames]
  | relative ups names =>
    have hnames : ∀ name ∈ names, name.IsName := h
    have hsegments := segments_of_isName ups hnames
    rw [toText, ofText, if_neg (by simpa using head?_join_ne hsegments)]
    by_cases hne : List.replicate ups "..".toList ++ names = []
    · obtain ⟨hups, rfl⟩ := List.append_eq_nil_iff.1 hne
      obtain rfl := (List.replicate_eq_nil_iff _).1 hups
      rfl
    · rw [pieces_join (fun segment hmem => (hsegments segment hmem).2) hne,
        List.foldl_append, foldl_ups, foldl_names _ hnames, here_join]
      simp [Location.join, dropNames]

end Location

/-! ## Files -/

namespace FileTree

mutual

/-- All entries of a tree have names. -/
def WellNamed : FileTree → Prop
  | file _ => True
  | directory entries => WellNamedEntries entries

/-- The entries of a directory have names, and so have all entries below them. -/
def WellNamedEntries : List (Text × FileTree) → Prop
  | [] => True
  | (name, tree) :: entries => name.IsName ∧ tree.WellNamed ∧ WellNamedEntries entries

end

theorem wellNamed_of_named? {name : Text} {entries : List (Text × FileTree)} {tree : FileTree}
    (h : WellNamedEntries entries) (hnamed : named? name entries = some tree) : tree.WellNamed := by
  induction entries with
  | nil => cases hnamed
  | cons entry entries ih =>
    obtain ⟨other, first⟩ := entry
    rw [WellNamedEntries] at h
    rw [named?, List.find?_cons] at hnamed
    split at hnamed
    · obtain rfl := Option.some.inj hnamed
      exact h.2.1
    · exact ih h.2.2 hnamed

theorem wellNamed_of_descend {tree below : FileTree} {names : List Text} (h : tree.WellNamed)
    (hdescend : tree.descend names = .ok below) : below.WellNamed := by
  induction names generalizing tree with
  | nil =>
    obtain rfl := Except.ok.inj hdescend
    exact h
  | cons name names ih =>
    cases tree with
    | file bytes => cases hdescend
    | directory entries =>
      rw [WellNamed] at h
      rw [descend] at hdescend
      split at hdescend
      · cases hdescend
      · rename_i entry hentry
        exact ih (wellNamed_of_named? h hentry) hdescend

mutual

theorem proper_of_mem_files :
    (tree : FileTree) → ∀ location : Location, tree.WellNamed → location.Proper →
      ∀ file ∈ files location tree, file.location.Proper
  | .file bytes, location, _, hlocation => by
    intro file hmem
    rw [files] at hmem
    obtain rfl := List.mem_singleton.1 hmem
    exact hlocation
  | .directory entries, location, h, hlocation => by
    rw [WellNamed] at h
    rw [files]
    exact proper_of_mem_filesOfEntries entries location h hlocation

theorem proper_of_mem_filesOfEntries : (entries : List (Text × FileTree)) → ∀ location : Location,
    WellNamedEntries entries → location.Proper → ∀ file ∈ filesOfEntries location entries,
      file.location.Proper
  | [], _, _, _ => by
    rw [filesOfEntries]
    nofun
  | (name, tree) :: entries, location, h, hlocation => by
    rw [WellNamedEntries] at h
    intro file hmem
    rw [filesOfEntries] at hmem
    have hchild : (location.child name).Proper :=
      hlocation.join fun other hother => List.mem_singleton.1 hother ▸ h.1
    rcases List.mem_append.1 hmem with hmem | hmem
    · exact proper_of_mem_files tree _ h.2.1 hchild file hmem
    · exact proper_of_mem_filesOfEntries entries location h.2.2 hlocation file hmem

end

/-- The files of a tree lie where they can be written, if the entries of the tree have names. -/
theorem proper_of_mem_list {tree : FileTree} {location : Location} {files : List File}
    (h : tree.WellNamed) (hlocation : location.Proper) (hlist : tree.list location = .ok files) :
    ∀ file ∈ files, file.location.Proper := by
  cases location with
  | relative ups names => cases hlist
  | absolute names =>
    rw [list] at hlist
    split at hlist
    · cases hlist
    · cases hlist
    · rename_i entries hdescend
      obtain rfl := Except.ok.inj hlist
      have hentries := wellNamed_of_descend h hdescend
      rw [WellNamed] at hentries
      exact proper_of_mem_filesOfEntries entries _ hentries hlocation

end FileTree

end MiniSheet
