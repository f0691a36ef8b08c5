import MiniSheet.Proofs.Registry

/-!
# Canonical paths

A path is put into normal form by reading it and writing down the location (`Path.normalize`). What
a path means is said here without locations: it has components, and following them leads from one
directory to another. Two paths have the same normal form if and only if they lead to the same place
from everywhere (`Path.normalize_eq_iff`).

Paths are joined as they are written, with a slash between them where one is needed. Reading turns
that into joining locations (`Location.ofText_join`), which is associative, so it does not matter
whether the front of a joined path is put into normal form beforehand.
-/

namespace MiniSheet

/-! ## Paths as they are written -/

namespace Path

/-- Whether a path is taken from the root. -/
def isAbsolute (path : Text) : Bool := path.head? == some '/'

/-- A path, taken from the directory that another path leads to. -/
def join (base path : Text) : Text :=
  if isAbsolute path || base.isEmpty then path
  else if base.getLast? == some '/' then base ++ path
  else base ++ '/' :: path

/-- The written form of the location of a path. -/
def normalize (path : Text) : Text := (Location.ofText path).toText

/-- One step of a path. -/
inductive Component where
  /-- to the root -/
  | root
  /-- nowhere else, written `.` -/
  | current
  /-- to the directory above, written `..` -/
  | parent
  /-- to the entry of that name -/
  | name (text : Text)
  deriving DecidableEq

/-- The step that a segment stands for. An empty one stands for none. -/
def component? (segment : Text) : Option Component :=
  if segment = [] then none
  else if segment = ['.'] then some .current
  else if segment = ['.', '.'] then some .parent
  else some (.name segment)

/-- The steps of a path. -/
def components (path : Text) : List Component :=
  (if isAbsolute path then [.root] else []) ++ (Text.pieces '/' path).filterMap component?

/-- Where a step leads to from a directory, which is given by the names that lead to it from the
root. There is nothing above the root. -/
def follow (directory : List Text) : Component → List Text
  | .root => []
  | .current => directory
  | .parent => directory.dropLast
  | .name text => directory ++ [text]

/-- Where a path leads to from a directory. -/
def destination (directory : List Text) (path : Text) : List Text :=
  (components path).foldl follow directory

end Path

/-! ## Reading joined paths -/

theorem Text.pieces_append (separator : Char) (front back : Text) :
    pieces separator (front ++ separator :: back) =
      pieces separator front ++ pieces separator back := by
  induction front with
  | nil =>
    rw [List.nil_append]
    exact if_pos BEq.rfl
  | cons c front ih =>
    rw [List.cons_append, pieces, pieces, ih]
    split
    · rfl
    · have hne : pieces separator front ≠ [] :=
        pieces_eq_splitOn separator front ▸ List.splitOn_ne_nil separator front
      obtain ⟨piece, rest, hpieces⟩ := List.exists_cons_of_ne_nil hne
      rw [hpieces]
      rfl

namespace Location

open Text

/-- Where segments lead to from here. -/
def ofSegments (segments : List Text) : Location :=
  segments.foldl (fun location segment => location.join (ofSegment segment)) here

/-- Following segments is joining where they lead to from here. -/
theorem foldl_segments (start : Location) (segments : List Text) :
    segments.foldl (fun location segment => location.join (ofSegment segment)) start =
      start.join (ofSegments segments) := by
  rw [ofSegments]
  induction segments generalizing start with
  | nil => exact (join_here start).symm
  | cons segment segments ih =>
    rw [List.foldl_cons, List.foldl_cons, ih, ih (here.join _), here_join, join_assoc]

theorem ofSegments_append (front back : List Text) :
    ofSegments (front ++ back) = (ofSegments front).join (ofSegments back) := by
  rw [ofSegments, List.foldl_append, foldl_segments]
  rfl

theorem ofSegments_cons (segment : Text) (segments : List Text) :
    ofSegments (segment :: segments) = (ofSegment segment).join (ofSegments segments) := by
  rw [ofSegments, List.foldl_cons, here_join, foldl_segments]

theorem ofText_eq (path : Text) :
    ofText path =
      (if Path.isAbsolute path then root else here).join (ofSegments (pieces '/' path)) :=
  foldl_segments _ _

/-- Without a slash in front a path starts here. -/
theorem ofText_of_not_isAbsolute {path : Text} (h : Path.isAbsolute path = false) :
    ofText path = ofSegments (pieces '/' path) := by
  rw [ofText_eq, h, if_neg Bool.false_ne_true, here_join]

/-- No segment leads to the root by itself. -/
theorem exists_ofSegments (segments : List Text) :
    ∃ ups names, ofSegments segments = relative ups names := by
  induction segments with
  | nil => exact ⟨0, [], rfl⟩
  | cons segment segments ih =>
    obtain ⟨ups, names, hsegments⟩ := ih
    rw [ofSegments_cons, hsegments, ofSegment]
    split
    · exact ⟨_, _, rfl⟩
    · split <;> exact ⟨_, _, rfl⟩

/-- A path with a slash in front leads from the root. -/
theorem exists_absolute {path : Text} (h : Path.isAbsolute path = true) :
    ∃ names, ofText path = absolute names := by
  obtain ⟨ups, names, hsegments⟩ := exists_ofSegments (pieces '/' path)
  rw [ofText_eq, if_pos h, hsegments]
  exact ⟨_, rfl⟩

/-- Any other path does not. -/
theorem exists_relative {path : Text} (h : Path.isAbsolute path = false) :
    ∃ ups names, ofText path = relative ups names :=
  ofText_of_not_isAbsolute h ▸ exists_ofSegments _

/-- A slash between two paths joins them, if there is something in front of it. -/
theorem ofText_append {base path : Text} (hbase : base ≠ [])
    (hpath : Path.isAbsolute path = false) :
    ofText (base ++ '/' :: path) = (ofText base).join (ofText path) := by
  have habsolute : Path.isAbsolute (base ++ '/' :: path) = Path.isAbsolute base := by
    obtain ⟨c, base, rfl⟩ := List.exists_cons_of_ne_nil hbase
    rfl
  rw [ofText_eq, habsolute, pieces_append, ofSegments_append, ← join_assoc, ← ofText_eq,
    ← ofText_of_not_isAbsolute hpath]

/-- A slash at the end of a path does not matter. -/
theorem ofText_append_slash {base : Text} (hbase : base ≠ []) :
    ofText (base ++ ['/']) = ofText base := by
  rw [ofText_append hbase rfl]
  exact join_here _

/-- **Joining paths is joining locations.** -/
theorem ofText_join (base path : Text) :
    ofText (Path.join base path) = (ofText base).join (ofText path) := by
  rw [Path.join]
  by_cases habsolute : Path.isAbsolute path = true
  · obtain ⟨names, hpath⟩ := exists_absolute habsolute
    rw [if_pos (Bool.or_eq_true_iff.2 (.inl habsolute)), hpath, join_absolute]
  · rw [Bool.not_eq_true] at habsolute
    by_cases hbase : base = []
    · subst hbase
      rw [if_pos (by simp)]
      exact (here_join _).symm
    · rw [if_neg (by simp [habsolute, hbase])]
      split
      · rename_i hlast
        obtain ⟨front, rfl⟩ := List.getLast?_eq_some_iff.1 (beq_iff_eq.1 hlast)
        rw [List.append_assoc, List.singleton_append]
        -- the root is the one path that is empty in front of its last slash
        by_cases hfront : front = []
        · subst hfront
          rw [List.nil_append, List.nil_append, ofText_eq,
            if_pos (c := Path.isAbsolute _ = true) rfl, pieces, if_pos BEq.rfl, ofSegments_cons,
            ← ofText_of_not_isAbsolute habsolute]
          exact congrArg root.join (here_join _)
        · rw [ofText_append hfront habsolute, ofText_append_slash hfront]
      · exact ofText_append hbase habsolute

/-! ## What a path means -/

theorem names_join_relative (directory : List Text) (ups : Nat) (names : List Text) :
    ((absolute directory).join (relative ups names)).names = dropNames ups directory ++ names := rfl

/-- A relative location does not lead to the same place from everywhere. -/
theorem exists_names_join_ne (ups : Nat) (names others : List Text) :
    ∃ directory, ((absolute directory).join (relative ups names)).names ≠ others := by
  by_contra h
  simp only [ne_eq, not_exists, not_not] at h
  have hroot := congrArg List.length (h [])
  have hbelow := congrArg List.length (h (List.replicate (ups + 1) []))
  rw [names_join_relative, List.length_append, length_dropNames] at hroot hbelow
  rw [List.length_nil] at hroot
  rw [List.length_replicate] at hbelow
  omega

/-- A location is known by where it leads to from the directories. -/
theorem eq_of_names_join {a b : Location}
    (h : ∀ directory, ((absolute directory).join a).names = ((absolute directory).join b).names) :
    a = b := by
  cases a with
  | absolute names =>
    cases b with
    | absolute others => exact congrArg absolute (h [])
    | relative ups others =>
      obtain ⟨directory, hne⟩ := exists_names_join_ne ups others names
      exact absurd (h directory).symm hne
  | relative ups names =>
    cases b with
    | absolute others =>
      obtain ⟨directory, hne⟩ := exists_names_join_ne ups names others
      exact absurd (h directory) hne
    | relative ups' others =>
      -- from the root only the names show, and from far enough below it the steps up
      obtain rfl : names = others := by simpa [names_join_relative, dropNames] using h []
      have hbelow := congrArg List.length (h (List.replicate (ups + ups') []))
      rw [names_join_relative, names_join_relative, List.length_append, List.length_append,
        length_dropNames, length_dropNames, List.length_replicate] at hbelow
      obtain rfl : ups = ups' := by omega
      rfl

/-- The step of a segment leads to where the segment does. -/
theorem absolute_follow (directory : List Text) (segment : Text) :
    absolute ((Path.component? segment).elim directory (Path.follow directory)) =
      (absolute directory).join (ofSegment segment) := by
  rw [Path.component?, ofSegment]
  split
  · rename_i hempty
    rw [if_pos (by simp [hempty]), join_here]
    rfl
  · rename_i hempty
    split
    · rename_i hdot
      rw [if_pos (by simp [hdot]), join_here]
      rfl
    · rename_i hdot
      have hsegment : ¬ (segment.isEmpty || segment == ".".toList) = true := by simp [hempty, hdot]
      rw [if_neg hsegment]
      split
      · rename_i hdots
        rw [if_pos (by simp [hdots]), join, dropNames, List.append_nil, ← List.dropLast_eq_take]
        rfl
      · rename_i hdots
        rw [if_neg (by simpa using hdots), join, dropNames, Nat.sub_zero, List.take_length]
        rfl

/-- The steps of segments lead to where the segments do. -/
theorem absolute_foldl_follow (directory : List Text) (segments : List Text) :
    absolute ((segments.filterMap Path.component?).foldl Path.follow directory) =
      (absolute directory).join (ofSegments segments) := by
  induction segments generalizing directory with
  | nil => exact (join_here _).symm
  | cons segment segments ih =>
    rw [ofSegments_cons, ← join_assoc, ← absolute_follow, ← ih, List.filterMap_cons]
    cases Path.component? segment <;> rfl

/-- Where a path leads to is read off its location. -/
theorem destination_eq (directory : List Text) (path : Text) :
    Path.destination directory path = ((absolute directory).join (ofText path)).names := by
  rw [Path.destination, Path.components, List.foldl_append, ofText_eq]
  split
  · rw [join_root_join]
    exact congrArg Location.names (absolute_foldl_follow [] _)
  · rw [here_join]
    exact congrArg Location.names (absolute_foldl_follow directory _)

/-! ## Normal forms -/

/-- The steps of a location. -/
def components : Location → List Path.Component
  | absolute names => .root :: names.map .name
  | relative ups names => List.replicate ups .parent ++ names.map .name

theorem filterMap_names {names : List Text} (h : ∀ name ∈ names, name.IsName) :
    names.filterMap Path.component? = names.map .name := by
  rw [← List.filterMap_eq_map]
  refine List.filterMap_congr fun name hmem => ?_
  obtain ⟨hne, hdot, hdots, -⟩ := h name hmem
  rw [Path.component?, if_neg hne, if_neg hdot, if_neg hdots]
  rfl

/-- The segments of a joined text are the texts, up to empty ones. -/
theorem filterMap_pieces_join {segments : List Text} (h : ∀ segment ∈ segments, '/' ∉ segment) :
    (pieces '/' (Text.join ['/'] segments)).filterMap Path.component? =
      segments.filterMap Path.component? := by
  by_cases hne : segments = []
  · subst hne
    rfl
  · rw [pieces_join h hne]

/-- The written form of a location has the steps of the location. -/
theorem components_toText {location : Location} (h : location.Proper) :
    Path.components location.toText = location.components := by
  cases location with
  | absolute names =>
    have hnames : ∀ name ∈ names, name.IsName := h
    have habsolute : Path.isAbsolute ('/' :: Text.join ['/'] names) = true := rfl
    rw [toText, Path.components, if_pos habsolute, pieces, if_pos BEq.rfl, List.filterMap_cons,
      filterMap_pieces_join fun name hmem => (hnames name hmem).2.2.2, filterMap_names hnames]
    rfl
  | relative ups names =>
    have hnames : ∀ name ∈ names, name.IsName := h
    have hsegments := segments_of_isName ups hnames
    have hrelative :
        ¬ Path.isAbsolute (Text.join ['/'] (List.replicate ups "..".toList ++ names)) = true := by
      simpa [Path.isAbsolute] using head?_join_ne hsegments
    rw [toText, Path.components, if_neg hrelative, List.nil_append,
      filterMap_pieces_join fun segment hmem => (hsegments segment hmem).2, List.filterMap_append,
      filterMap_names hnames, List.filterMap_replicate]
    rfl

/-- Written forms of different locations are different. -/
theorem toText_inj {a b : Location} (ha : a.Proper) (hb : b.Proper) : a.toText = b.toText ↔ a = b :=
  ⟨fun h => by rw [← ofText_toText ha, h, ofText_toText hb], congrArg toText⟩

/-- The directory of a named entry is where it was entered from. -/
theorem directory_child (location : Location) (name : Text) :
    (location.child name).directory = location := by
  have hne (names : List Text) : names ++ [name] ≠ [] :=
    List.append_ne_nil_of_right_ne_nil _ (List.cons_ne_nil _ _)
  cases location with
  | absolute names =>
    rw [child, join, dropNames, Nat.sub_zero, List.take_length, directory, List.dropLast_concat]
    exact hne names
  | relative ups names =>
    rw [child, join, dropNames, Nat.sub_zero, List.take_length, Nat.zero_sub,
      Nat.add_zero, directory, List.dropLast_concat]
    exact hne names

end Location

namespace Path

open Location

/-- The normal form of a path stands for the same location. -/
theorem ofText_normalize (path : Text) : ofText (normalize path) = ofText path :=
  ofText_toText (proper_ofText path)

/-- Paths of the same location have the same normal form, and no others. -/
theorem normalize_inj {a b : Text} : normalize a = normalize b ↔ ofText a = ofText b :=
  toText_inj (proper_ofText a) (proper_ofText b)

/-- **Paths have the same normal form if and only if they lead to the same place from
everywhere.** -/
theorem normalize_eq_iff {a b : Text} :
    normalize a = normalize b ↔ ∀ directory, destination directory a = destination directory b := by
  rw [normalize_inj]
  constructor
  · intro h directory
    rw [destination_eq, destination_eq, h]
  · intro h
    refine eq_of_names_join fun directory => ?_
    rw [← destination_eq, ← destination_eq, h]

theorem components_normalize (path : Text) :
    components (normalize path) = (ofText path).components :=
  components_toText (proper_ofText path)

theorem isAbsolute_iff (path : Text) : isAbsolute path = true ↔ .root ∈ components path := by
  have hnot : .root ∉ (Text.pieces '/' path).filterMap component? := by
    rw [List.mem_filterMap]
    rintro ⟨segment, -, h⟩
    rw [component?] at h
    split at h
    · cases h
    · split at h
      · cases h
      · split at h <;> cases h
  rw [components, List.mem_append]
  cases isAbsolute path <;> simp [hnot]

/-- In normal form, steps up come first, and only if the path is not taken from the root. -/
theorem components_cases (path : Text) :
    isAbsolute path = true ∧
    (∃ names, components (normalize path) = .root :: List.map .name names) ∨
    isAbsolute path = false ∧
      ∃ ups names, components (normalize path) =
        List.replicate ups .parent ++ List.map .name names := by
  rw [components_normalize]
  cases h : isAbsolute path with
  | true =>
    obtain ⟨names, hpath⟩ := exists_absolute h
    exact .inl ⟨rfl, names, congrArg Location.components hpath⟩
  | false =>
    obtain ⟨ups, names, hpath⟩ := exists_relative h
    exact .inr ⟨rfl, ups, names, congrArg Location.components hpath⟩

/-- The normal form of a path is taken from the root if the path is. -/
theorem isAbsolute_normalize (path : Text) : isAbsolute (normalize path) = isAbsolute path := by
  rw [Bool.eq_iff_iff, isAbsolute_iff (normalize path)]
  obtain ⟨h, names, hnames⟩ | ⟨h, ups, names, hnames⟩ := components_cases path <;> simp [h, hnames]

/-- The front of a joined path may be in normal form already. -/
theorem normalize_join (a b : Text) : normalize (join (normalize a) b) = normalize (join a b) := by
  rw [normalize_inj, ofText_join, ofText_join, ofText_normalize]

/-- An import is looked up where its path leads to from the directory of the stylesheet. -/
theorem resolveImport_join {c : Compiler} {directory name params target : Text} (span : Span)
    (hname : name.IsName) (hsheet : c.sheet = ofText (join directory name))
    (htarget : Import.quotedPath? params = some target) : c.resolveImport params span =
      (c.lookup (ofText (join directory target))).elim
        (.error (.importTarget c.sheet (ofText (join directory target)) span.start))
        fun found => .ok ⟨c.sheet, found, span⟩ := by
  have hslash : isAbsolute name = false := by
    obtain ⟨hne, -, -, hslash⟩ := hname
    obtain ⟨c, name, rfl⟩ := List.exists_cons_of_ne_nil hne
    have hc : c ≠ '/' := fun h => hslash (h ▸ List.mem_cons_self)
    simp [isAbsolute, hc]
  have hlast : ofText name = relative 0 [name] := by
    have hpieces : Text.pieces '/' (Text.join ['/'] [name]) = [name] :=
      Text.pieces_join (fun t hmem => List.mem_singleton.1 hmem ▸ hname.2.2.2)
        (List.cons_ne_nil _ _)
    rw [ofText_of_not_isAbsolute hslash]
    refine (congrArg ofSegments hpieces).trans ?_
    rw [ofSegments_cons, ofSegment_of_isName hname]
    rfl
  have hdirectory : c.sheet.directory = ofText directory := by
    rw [hsheet, ofText_join, hlast]
    exact directory_child _ _
  rw [Compiler.resolveImport, htarget]
  dsimp only
  rw [hdirectory, ← ofText_join]
  cases c.lookup (ofText (join directory target)) <;> rfl

/-- **The normal form of a path is canonical.** It is its own normal form, it has no `.` in it, it
is taken from the root if and only if the path is, and then it has no `..` either; otherwise those
are all in front. Paths share it if and only if they lead to the same place from everywhere. It may
take the place of a path in front of another one.

So the paths of a package, whatever was done with it, are located at the normal form of the path to
it joined with them, and locating them once more leads to the same place. The target of an import is
found from the directory part of the path of the stylesheet, and it is the same for all paths of the
stylesheet. -/
theorem normalize_is_canonical :
    (∀ path,
      normalize (normalize path) = normalize path ∧
      .current ∉ components (normalize path) ∧
      isAbsolute (normalize path) = isAbsolute path ∧
      (isAbsolute path = true → .parent ∉ components (normalize path)) ∧
      (isAbsolute path = false →
        ∃ ups names, components (normalize path) =
          List.replicate ups .parent ++ List.map .name names)) ∧
    (∀ a b, normalize a = normalize b ↔
      ∀ directory, destination directory a = destination directory b) ∧
    (∀ a b, normalize (join (normalize a) b) = normalize (join a b)) ∧
    (∀ root options transforms operations,
      let p := (Package.empty root options transforms).performAll operations
      ∀ path, (p.locate path).toText = normalize (join p.root.toText path) ∧
        p.locate (p.locate path).toText = p.locate path) ∧
    (∀ (c : Compiler) directory name params target span, name.IsName →
      c.sheet = ofText (join directory name) → Import.quotedPath? params = some target →
      c.resolveImport params span =
        (c.lookup (ofText (join directory target))).elim
          (.error (.importTarget c.sheet (ofText (join directory target)) span.start))
          fun found => .ok ⟨c.sheet, found, span⟩) ∧
    ∀ (c : Compiler) sheet spelling params span, normalize sheet = normalize spelling →
      { c with sheet := ofText sheet }.resolveImport params span =
        { c with sheet := ofText spelling }.resolveImport params span := by
  refine ⟨fun path => ⟨?_, ?_, isAbsolute_normalize path, ?_, ?_⟩, fun a b => normalize_eq_iff,
    normalize_join, ?_, ?_, ?_⟩
  · rw [normalize_inj, ofText_normalize]
  · obtain ⟨-, names, hnames⟩ | ⟨-, ups, names, hnames⟩ := components_cases path <;> simp [hnames]
  · obtain ⟨-, names, hnames⟩ | ⟨h, -⟩ := components_cases path
    · simp [hnames]
    · simp [h]
  · obtain ⟨h, -⟩ | ⟨-, hform⟩ := components_cases path
    · simp [h]
    · exact fun _ => hform
  · intro root options transforms operations p path
    have hroot : p.root.Proper := by
      rw [((Package.recorded_empty root options transforms).performAll operations).root]
      exact Package.proper_root_empty root options transforms
    constructor
    · rw [normalize, ofText_join, ofText_toText hroot]
      rfl
    · exact (Package.addressable_join hroot (proper_ofText path)).locate_toText
  · intro c directory name params target span hname hsheet htarget
    exact resolveImport_join span hname hsheet htarget
  · intro c sheet spelling params span h
    rw [normalize_inj.1 h]

/-- Detours on the way to a directory. -/
def winding : Text := "./pages//home/../".toList

/-- An import from that directory. -/
def fromWinding : Compiler := ⟨ofText (join winding "index.wxss".toList), some, .standard⟩

/-- The import leads out of it. -/
theorem normalize_is_canonical_winding :
    isAbsolute "/../a/./..".toList = true ∧ .parent ∉ components (normalize "/../a/./..".toList) ∧
    isAbsolute winding = false ∧
    (∃ ups names, components (normalize winding) =
      List.replicate ups .parent ++ List.map .name names) ∧
    Import.quotedPath? "'../app.wxss'".toList = some "../app.wxss".toList ∧
    fromWinding.resolveImport "'../app.wxss'".toList ⟨.start, .start⟩ =
      .ok ⟨ofText "pages/index.wxss".toList, ofText "app.wxss".toList, ⟨.start, .start⟩⟩ ∧
    normalize (join winding "index.wxss".toList) = normalize "pages/index.wxss".toList ∧
    fromWinding.resolveImport "'../app.wxss'".toList ⟨.start, .start⟩ =
      { fromWinding with sheet := ofText "pages/index.wxss".toList }.resolveImport
        "'../app.wxss'".toList
        ⟨.start, .start⟩ := by
  obtain ⟨hform, -, -, -, himport, hspelling⟩ := normalize_is_canonical
  have hpath : Import.quotedPath? "'../app.wxss'".toList = some "../app.wxss".toList := by
    decide +kernel
  have hsame : normalize (join winding "index.wxss".toList) =
      normalize "pages/index.wxss".toList := by decide +kernel
  refine ⟨by decide +kernel, (hform _).2.2.2.1 (by decide +kernel), by decide +kernel,
    (hform _).2.2.2.2 (by decide +kernel), hpath, ?_, hsame, hspelling fromWinding _ _ _ _ hsame⟩
  rw [himport fromWinding winding "index.wxss".toList _ _ _ (by decide +kernel) rfl hpath]
  decide +kernel

end Path

end MiniSheet
