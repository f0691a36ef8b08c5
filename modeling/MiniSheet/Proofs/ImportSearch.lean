import Mathlib.Data.List.Chain
import Mathlib.Data.List.Nodup
import Mathlib.Logic.Relation
import MiniSheet.Package.Process
import MiniSheet.Proofs.Outcome

/-!
# The search for import cycles is exact

A list of stylesheets is a directed graph: a stylesheet leads to each listed stylesheet that it
imports. The search of `ImportGraph` fails on such a graph exactly if it has a cycle, and the
failure names one.

The search carries two lists, and each has an invariant:

* what it is **done with** is `Settled`: closed under imports and on no cycle. A stylesheet is done
  once all its imports are, so a cycle through it would have to come back to it from something that
  was done before it, and what is done leads only to what is done.
* the **path** is a trail (`Trail`): without repetition, each stylesheet imported by the one before
  it. So coming back to a stylesheet of the path closes a genuine cycle.

Neither invariant asks where the search starts, so neither does the result: the starts only have to
cover the list. In particular the importers that a stylesheet records play no part in it.
-/

namespace MiniSheet

open Relation

/-! ## The graph of imports -/

namespace Sheets

/-- No two stylesheets lie at the same location. -/
def Distinct (sheets : List Sheet) : Prop := (sheets.map Sheet.location).Nodup

instance (sheets : List Sheet) : Decidable (Distinct sheets) :=
  inferInstanceAs (Decidable (sheets.map Sheet.location).Nodup)

/-- A stylesheet of the list imports another one of the list. -/
def Imports (sheets : List Sheet) (a b : Location) : Prop :=
  ∃ source ∈ sheets, ∃ target ∈ sheets, source.location = a ∧ target.location = b ∧
    ∃ edge ∈ source.compiled.imports, edge.target = b

instance (sheets : List Sheet) (a b : Location) : Decidable (Imports sheets a b) :=
  inferInstanceAs
    (Decidable (∃ source ∈ sheets, ∃ target ∈ sheets, source.location = a ∧ target.location = b ∧
      ∃ edge ∈ source.compiled.imports, edge.target = b))

/-- Imports lead from some stylesheet back to it. -/
def HasCycle (sheets : List Sheet) : Prop := ∃ a, TransGen (Imports sheets) a a

variable {sheets : List Sheet} {a b location : Location} {sheet : Sheet}

theorem find?_eq_none_iff :
    find? sheets location = none ↔ ∀ sheet ∈ sheets, sheet.location ≠ location := by
  simp [find?]

theorem exists_find?_of_mem (hmem : sheet ∈ sheets) :
    ∃ found, find? sheets sheet.location = some found := by
  rcases hfind : find? sheets sheet.location with _ | found
  · exact absurd rfl (find?_eq_none_iff.1 hfind sheet hmem)
  · exact ⟨found, rfl⟩

/-- Among distinct stylesheets, looking up a location gives the only one that lies there. -/
theorem find?_of_mem (hd : Distinct sheets) (hmem : sheet ∈ sheets) :
    find? sheets sheet.location = some sheet := by
  obtain ⟨found, hfound⟩ := exists_find?_of_mem hmem
  have heq : found = sheet :=
    List.inj_on_of_nodup_map hd (mem_of_find? hfound) hmem (location_of_find? hfound)
  rw [hfound, heq]

/-- A stylesheet that was looked up imports what its edges name, if that is in the list. -/
theorem imports_of_find? (hfind : find? sheets a = some sheet)
    (hedge : b ∈ sheet.compiled.imports.map (·.target)) {target : Sheet}
    (htarget : find? sheets b = some target) : Imports sheets a b := by
  obtain ⟨edge, hmem, hb⟩ := List.mem_map.1 hedge
  exact ⟨sheet, mem_of_find? hfind, target, mem_of_find? htarget, location_of_find? hfind,
    location_of_find? htarget, edge, hmem, hb⟩

theorem Imports.exists_find? (h : Imports sheets a b) : ∃ target, find? sheets b = some target := by
  obtain ⟨-, -, target, hmem, -, rfl, -⟩ := h
  exact exists_find?_of_mem hmem

/-- Conversely the edges of a stylesheet that was looked up are all its imports. -/
theorem Imports.mem_targets (hd : Distinct sheets) (h : Imports sheets a b)
    (hfind : find? sheets a = some sheet) : b ∈ sheet.compiled.imports.map (·.target) := by
  obtain ⟨source, hmem, -, -, rfl, -, edge, hedge, htarget⟩ := h
  rw [find?_of_mem hd hmem] at hfind
  obtain rfl := Option.some.inj hfind
  exact List.mem_map.2 ⟨edge, hedge, htarget⟩

/-- There is no cycle if all imports lead downwards. -/
theorem not_hasCycle_of_rank (rank : Location → Nat)
    (h : ∀ sheet ∈ sheets, ∀ edge ∈ sheet.compiled.imports, rank edge.target <
      rank sheet.location) :
    ¬ HasCycle sheets := by
  have hdown (a b : Location) (himports : Imports sheets a b) : rank b < rank a := by
    obtain ⟨source, hsource, -, -, rfl, -, edge, hedge, rfl⟩ := himports
    exact h source hsource edge hedge
  rintro ⟨a, hcycle⟩
  have hlt : rank a < rank a := by
    refine TransGen.trans_induction_on (motive := fun {x y} _ => rank y < rank x) hcycle
      (hdown _ _) ?_
    exact fun _ _ hfirst hsecond => hsecond.trans hfirst
  exact Nat.lt_irrefl _ hlt

end Sheets

/-! ## Genuine cycles -/

/-- The chain of a cycle really is one: it starts where the cycle does, repeats nothing, each
stylesheet imports the next one, and the last one imports the first. -/
structure ImportCycle.Genuine (sheets : List Sheet) (cycle : ImportCycle) : Prop where
  /-- there is something in the chain -/
  nonempty : cycle.chain ≠ []
  /-- the chain starts at the stylesheet that was reached twice -/
  head : cycle.chain.head? = some cycle.start
  /-- the chain repeats nothing -/
  nodup : cycle.chain.Nodup
  /-- each stylesheet imports the next one -/
  follows : cycle.chain.IsChain (Sheets.Imports sheets)
  /-- the last stylesheet imports the first one -/
  closes : ∀ last ∈ cycle.chain.getLast?, Sheets.Imports sheets last cycle.start

/-- A genuine cycle is a cycle of the graph. -/
theorem ImportCycle.Genuine.hasCycle {sheets : List Sheet} {cycle : ImportCycle}
    (h : cycle.Genuine sheets) : Sheets.HasCycle sheets := by
  have hlast := h.closes _ (List.getLast_mem_getLast? h.nonempty)
  have hhead : cycle.chain.head h.nonempty = cycle.start :=
    Option.some.inj ((List.head?_eq_some_head h.nonempty).symm.trans h.head)
  have hreach := List.relationReflTransGen_of_exists_isChain _ h.follows h.nonempty
  rw [hhead] at hreach
  exact ⟨cycle.start, TransGen.tail' hreach hlast⟩

namespace ImportGraph

open Sheets

/-! ### Equation lemmas

`visit` and `visitAll` are defined by well-founded recursion; these are the equations proofs work
with. -/

variable {sheets : List Sheet} {path visited visited' : List Location} {location : Location}
  {sheet : Sheet}
  {locations : List Location} {cycle : ImportCycle}

theorem visit_of_mem_visited (hvisited : location ∈ visited) :
    visit sheets path visited location = .ok visited := by
  rw [visit, if_pos (List.contains_iff_mem.2 hvisited)]

theorem visit_of_mem_path (hvisited : location ∉ visited) (hpath : location ∈ path) :
    visit sheets path visited location = .error (.closing path location) := by
  rw [visit, if_neg (mt List.contains_iff_mem.1 hvisited), dif_pos (List.contains_iff_mem.2 hpath)]

theorem visit_of_find?_eq_none (hvisited : location ∉ visited) (hpath : location ∉ path)
    (hfind : find? sheets location = none) : visit sheets path visited location = .ok visited := by
  rw [visit, if_neg (mt List.contains_iff_mem.1 hvisited),
    dif_neg (mt List.contains_iff_mem.1 hpath)]
  split
  · rfl
  · rename_i hsome
    rw [hfind] at hsome
    cases hsome

theorem visit_of_find?_eq_some (hvisited : location ∉ visited) (hpath : location ∉ path)
    (hfind : find? sheets location = some sheet) :
    visit sheets path visited location =
      (visitAll sheets (location :: path) visited (sheet.compiled.imports.map (·.target))).map
        (location :: ·) := by
  rw [visit, if_neg (mt List.contains_iff_mem.1 hvisited),
    dif_neg (mt List.contains_iff_mem.1 hpath)]
  split
  · rename_i hnone
    rw [hfind] at hnone
    cases hnone
  · rename_i found hsome
    rw [hfind] at hsome
    obtain rfl := Option.some.inj hsome
    cases visitAll sheets (location :: path) visited (sheet.compiled.imports.map (·.target)) <;> rfl

@[simp] theorem visitAll_nil : visitAll sheets path visited [] = .ok visited := by
  rw [visitAll]

theorem visitAll_cons : visitAll sheets path visited (location :: locations) =
    visit sheets path visited location >>=
      fun between => visitAll sheets path between locations := by
  rw [visitAll]

/-- **Induction along a search**: the search is done with a location, or comes back to it, or finds
nothing there, or goes on to what is imported there; several locations are searched one after the
other. -/
theorem visit_induction (sheets : List Sheet) {P : List Location → List Location → Location → Prop}
    {Q : List Location → List Location → List Location → Prop}
    (done : ∀ path visited location, location ∈ visited → P path visited location)
    (closing : ∀ path visited location, location ∉ visited → location ∈ path →
      P path visited location)
    (nowhere : ∀ path visited location, location ∉ visited → location ∉ path →
      find? sheets location = none → P path visited location)
    (enter : ∀ path visited location sheet, location ∉ visited → location ∉ path →
      find? sheets location = some sheet →
      Q (location :: path) visited (sheet.compiled.imports.map (·.target)) →
      P path visited location)
    (nil : ∀ path visited, Q path visited [])
    (cons : ∀ path visited location locations, P path visited location →
      (∀ between, Q path between locations) → Q path visited (location :: locations)) :
    (∀ path visited location, P path visited location) ∧
    ∀ path visited locations, Q path visited locations := by
  refine visit.mutual_induct sheets P Q ?_ ?_ ?_ ?_ nil cons
  · intro path visited location hvisited
    exact done path visited location (List.contains_iff_mem.1 hvisited)
  · intro path visited location hvisited hpath
    exact closing path visited location (mt List.contains_iff_mem.2 hvisited)
      (List.contains_iff_mem.1 hpath)
  · intro path visited location hvisited hpath hfind
    exact nowhere path visited location (mt List.contains_iff_mem.2 hvisited)
      (mt List.contains_iff_mem.2 hpath) hfind
  · intro path visited location hvisited hpath sheet hfind ih
    exact enter path visited location sheet (mt List.contains_iff_mem.2 hvisited)
      (mt List.contains_iff_mem.2 hpath)
      hfind ih

/-! ## What the search is done with -/

/-- The search may be done with these: they import only each other, and none is on a cycle. -/
structure Settled (sheets : List Sheet) (visited : List Location) : Prop where
  /-- what they import is among them -/
  closed : ∀ a ∈ visited, ∀ b, Imports sheets a b → b ∈ visited
  /-- none of them is on a cycle -/
  acyclic : ∀ a ∈ visited, ¬ TransGen (Imports sheets) a a

theorem settled_nil : Settled sheets [] :=
  ⟨fun _ ha => absurd ha List.not_mem_nil, fun _ ha => absurd ha List.not_mem_nil⟩

/-- What is settled leads only to what is settled. -/
theorem Settled.mem_of_reflTransGen (h : Settled sheets visited) {a b : Location} (ha : a ∈ visited)
    (hreach : ReflTransGen (Imports sheets) a b) : b ∈ visited := by
  induction hreach with
  | refl => exact ha
  | tail _ hlast ih => exact h.closed _ ih _ hlast

/-- A stylesheet settles once all its imports have. -/
theorem Settled.cons (h : Settled sheets visited) (hnew : location ∉ visited)
    (himports : ∀ b, Imports sheets location b → b ∈ visited) :
    Settled sheets (location :: visited) := by
  refine ⟨fun a ha b hab => ?_, fun a ha hcycle => ?_⟩
  · rcases List.mem_cons.1 ha with rfl | ha
    · exact List.mem_cons_of_mem _ (himports b hab)
    · exact List.mem_cons_of_mem _ (h.closed a ha b hab)
  · rcases List.mem_cons.1 ha with rfl | ha
    · -- a cycle through the new stylesheet would come back to it from a settled one
      obtain ⟨b, hab, hback⟩ := TransGen.head'_iff.1 hcycle
      exact hnew (h.mem_of_reflTransGen (himports b hab) hback)
    · exact h.acyclic a ha hcycle

/-- What a search that succeeds does to the list of what it is done with. -/
structure Advance (sheets : List Sheet) (path visited visited' : List Location) : Prop where
  /-- nothing is forgotten -/
  grows : visited ⊆ visited'
  /-- the list stays settled -/
  settled : Settled sheets visited'
  /-- the search is not done with its own path -/
  apart : ∀ a ∈ path, a ∉ visited'

theorem Advance.refl (hsettled : Settled sheets visited) (hapart : ∀ a ∈ path, a ∉ visited) :
    Advance sheets path visited visited :=
  ⟨List.Subset.refl _, hsettled, hapart⟩

/-- A search from one location that succeeds advances, and is done with the location. -/
def VisitAdvances (sheets : List Sheet) (path visited : List Location)
    (location : Location) : Prop :=
  ∀ visited', Settled sheets visited → (∀ a ∈ path, a ∉ visited) →
    visit sheets path visited location = .ok visited' →
    Advance sheets path visited visited' ∧
      ∀ sheet, find? sheets location = some sheet → location ∈ visited'

/-- A search from several locations that succeeds advances, and is done with all of them. -/
def VisitAllAdvances (sheets : List Sheet) (path visited : List Location)
    (locations : List Location) : Prop :=
  ∀ visited', Settled sheets visited → (∀ a ∈ path, a ∉ visited) →
    visitAll sheets path visited locations = .ok visited' →
    Advance sheets path visited visited' ∧
      ∀ location ∈ locations, ∀ sheet, find? sheets location = some sheet → location ∈ visited'

/-- Entering a stylesheet: once the search is done with what it imports, it is done with it. -/
theorem VisitAllAdvances.enter (hd : Distinct sheets) (hvisited : location ∉ visited)
    (hpath : location ∉ path) (hfind : find? sheets location = some sheet)
    (h : VisitAllAdvances sheets (location :: path) visited
      (sheet.compiled.imports.map (·.target))) :
    VisitAdvances sheets path visited location := by
  intro visited' hsettled hapart hvisit
  rw [visit_of_find?_eq_some hvisited hpath hfind] at hvisit
  obtain ⟨inner, hall, rfl⟩ := Outcome.map_eq_ok hvisit
  have hapart' : ∀ a ∈ location :: path, a ∉ visited := by
    intro a ha
    rcases List.mem_cons.1 ha with rfl | ha
    · exact hvisited
    · exact hapart a ha
  obtain ⟨hadvance, hdone⟩ := h inner hsettled hapart' hall
  -- the stylesheet was on the path all the while, so it is not among what was done
  have hnew : location ∉ inner := hadvance.apart location List.mem_cons_self
  refine ⟨⟨?_, ?_, ?_⟩, fun _ _ => List.mem_cons_self⟩
  · exact fun a ha => List.mem_cons_of_mem _ (hadvance.grows ha)
  · refine hadvance.settled.cons hnew fun b hb => ?_
    obtain ⟨target, htarget⟩ := hb.exists_find?
    exact hdone b (hb.mem_targets hd hfind) target htarget
  · intro a ha hmem
    rcases List.mem_cons.1 hmem with rfl | hmem
    · exact hpath ha
    · exact hadvance.apart a (List.mem_cons_of_mem _ ha) hmem

/-- **Success**: every search that succeeds keeps what it is done with settled. -/
theorem visit_advances (hd : Distinct sheets) :
    (∀ path visited location, VisitAdvances sheets path visited location) ∧
      ∀ path visited locations, VisitAllAdvances sheets path visited locations := by
  refine visit_induction sheets ?done ?closing ?nowhere ?enter ?nil ?cons
  case done =>
    intro path visited location hmem visited' hsettled hapart hvisit
    rw [visit_of_mem_visited hmem] at hvisit
    obtain rfl := Except.ok.inj hvisit
    exact ⟨.refl hsettled hapart, fun _ _ => hmem⟩
  case closing =>
    intro path visited location hvisited hpath visited' _ _ hvisit
    rw [visit_of_mem_path hvisited hpath] at hvisit
    cases hvisit
  case nowhere =>
    intro path visited location hvisited hpath hfind visited' hsettled hapart hvisit
    rw [visit_of_find?_eq_none hvisited hpath hfind] at hvisit
    obtain rfl := Except.ok.inj hvisit
    refine ⟨.refl hsettled hapart, fun sheet hsome => ?_⟩
    rw [hfind] at hsome
    cases hsome
  case enter =>
    intro path visited location sheet hvisited hpath hfind ih
    exact ih.enter hd hvisited hpath hfind
  case nil =>
    intro path visited visited' hsettled hapart hvisit
    rw [visitAll_nil] at hvisit
    obtain rfl := Except.ok.inj hvisit
    exact ⟨.refl hsettled hapart, fun _ hmem => absurd hmem List.not_mem_nil⟩
  case cons =>
    intro path visited location locations ihfirst ihrest visited' hsettled hapart hvisit
    rw [visitAll_cons] at hvisit
    obtain ⟨between, hfirst, hrest⟩ := Outcome.bind_eq_ok hvisit
    -- the invariants behind the first location are the ones in front of the rest
    obtain ⟨hadvance₁, hdone₁⟩ := ihfirst between hsettled hapart hfirst
    obtain ⟨hadvance₂, hdone₂⟩ := ihrest between visited' hadvance₁.settled hadvance₁.apart hrest
    refine ⟨⟨fun a ha => hadvance₂.grows (hadvance₁.grows ha), hadvance₂.settled, hadvance₂.apart⟩,
      ?_⟩
    intro other hmem sheet hfind
    rcases List.mem_cons.1 hmem with rfl | hmem
    · exact hadvance₂.grows (hdone₁ sheet hfind)
    · exact hdone₂ other hmem sheet hfind

/-! ## The path of the search -/

/-- The path of the search, given from its end: stylesheets of the list without repetition, each
imported by the one that comes behind it here. -/
structure Trail (sheets : List Sheet) (path : List Location) : Prop where
  /-- the path repeats nothing -/
  nodup : path.Nodup
  /-- each stylesheet is imported by the one before it on the way -/
  follows : path.IsChain fun b a => Imports sheets a b
  /-- all of them are in the list -/
  known : ∀ a ∈ path, ∃ sheet, find? sheets a = some sheet

theorem trail_nil : Trail sheets [] :=
  ⟨List.nodup_nil, List.isChain_nil, fun _ ha => absurd ha List.not_mem_nil⟩

/-- The end of the path imports a location, if there is a stylesheet there. -/
def LeadsTo (sheets : List Sheet) (path : List Location) (location : Location) : Prop :=
  ∀ last ∈ path.head?, ∀ sheet, find? sheets location = some sheet → Imports sheets last location

/-- The path goes on to a stylesheet that it leads to. -/
theorem Trail.cons (h : Trail sheets path) (hpath : location ∉ path)
    (hfind : find? sheets location = some sheet) (hleads : LeadsTo sheets path location) :
    Trail sheets (location :: path) := by
  refine ⟨List.nodup_cons.2 ⟨hpath, h.nodup⟩,
    h.follows.cons fun last hlast => hleads last hlast sheet hfind, ?_⟩
  intro a ha
  rcases List.mem_cons.1 ha with rfl | ha
  · exact ⟨sheet, hfind⟩
  · exact h.known a ha

/-- A path with a location on it closes, from the first place of that location on. -/
theorem chain_closing {front back : List Location}
    (hpath : path.reverse = front ++ location :: back) (hfront : location ∉ front) :
    (ImportCycle.closing path location).chain = location :: back := by
  have hidx : (front ++ location :: back).findIdx? (· == location) = some front.length := by
    rw [List.findIdx?_append, List.findIdx?_eq_none_iff.2 fun a ha => ?_]
    · simp [List.findIdx?_cons]
    · exact beq_false_of_ne fun heq => hfront (heq ▸ ha)
  rw [ImportCycle.closing, hpath]
  simp only [hidx, Option.getD_some, List.drop_left]

/-- Coming to a location of the path closes a genuine cycle. -/
theorem Trail.genuine_closing (h : Trail sheets path) (hpath : location ∈ path)
    (hleads : LeadsTo sheets path location) :
    (ImportCycle.closing path location).Genuine sheets := by
  obtain ⟨front, back, hsplit, hfront⟩ := List.eq_append_cons_of_mem (List.mem_reverse.2 hpath)
  have hchain := chain_closing hsplit hfront
  have hsuffix : location :: back <:+ path.reverse := ⟨front, hsplit.symm⟩
  refine ⟨?_, ?_, ?_, ?_, fun last hlast => ?_⟩
  · rw [hchain]
    exact List.cons_ne_nil _ _
  · rw [hchain]
    rfl
  · rw [hchain]
    exact (List.nodup_reverse.2 h.nodup).sublist hsuffix.sublist
  · rw [hchain]
    exact (List.isChain_reverse.2 h.follows).suffix hsuffix
  · -- the chain ends where the path does
    obtain ⟨sheet, hfind⟩ := h.known location hpath
    refine hleads last ?_ sheet hfind
    rw [hchain, List.getLast?_cons, Option.mem_some_iff] at hlast
    rw [← List.getLast?_reverse, hsplit, List.getLast?_append, List.getLast?_cons, ← hlast]
    rfl

/-- A search from one location that fails, on a trail that leads there, names a genuine cycle. -/
def VisitFindsCycle (sheets : List Sheet) (path visited : List Location)
    (location : Location) : Prop :=
  ∀ cycle, Trail sheets path → LeadsTo sheets path location →
    visit sheets path visited location = .error cycle → cycle.Genuine sheets

/-- A search from several locations that fails, on a trail that leads to each, names a genuine
cycle. -/
def VisitAllFindsCycle (sheets : List Sheet) (path visited : List Location)
    (locations : List Location) : Prop :=
  ∀ cycle, Trail sheets path → (∀ location ∈ locations, LeadsTo sheets path location) →
    visitAll sheets path visited locations = .error cycle → cycle.Genuine sheets

/-- **Failure**: every search that fails names a genuine cycle. -/
theorem visit_finds_cycle :
    (∀ path visited location, VisitFindsCycle sheets path visited location) ∧
      ∀ path visited locations, VisitAllFindsCycle sheets path visited locations := by
  refine visit_induction sheets ?done ?closing ?nowhere ?enter ?nil ?cons
  case done =>
    intro path visited location hmem cycle _ _ hvisit
    rw [visit_of_mem_visited hmem] at hvisit
    cases hvisit
  case closing =>
    intro path visited location hvisited hpath cycle htrail hleads hvisit
    rw [visit_of_mem_path hvisited hpath] at hvisit
    obtain rfl := Except.error.inj hvisit
    exact htrail.genuine_closing hpath hleads
  case nowhere =>
    intro path visited location hvisited hpath hfind cycle _ _ hvisit
    rw [visit_of_find?_eq_none hvisited hpath hfind] at hvisit
    cases hvisit
  case enter =>
    intro path visited location sheet hvisited hpath hfind ih cycle htrail hleads hvisit
    rw [visit_of_find?_eq_some hvisited hpath hfind] at hvisit
    refine ih cycle (htrail.cons hpath hfind hleads)
      (fun target htarget last hlast found hfound => ?_) ?_
    · -- the end of the longer path is the stylesheet that was entered
      obtain rfl := Option.some.inj hlast
      exact imports_of_find? hfind htarget hfound
    · exact Outcome.map_eq_error hvisit
  case nil =>
    intro path visited cycle _ _ hvisit
    rw [visitAll_nil] at hvisit
    cases hvisit
  case cons =>
    intro path visited location locations ihfirst ihrest cycle htrail hleads hvisit
    rw [visitAll_cons] at hvisit
    rcases Outcome.bind_eq_error hvisit with hfirst | ⟨between, -, hrest⟩
    · exact ihfirst cycle htrail (hleads location List.mem_cons_self) hfirst
    · exact ihrest between cycle htrail
        (fun other hmem => hleads other (List.mem_cons_of_mem _ hmem)) hrest

/-! ## The whole search -/

theorem mem_starts (hmem : sheet ∈ sheets) : sheet.location ∈ starts sheets :=
  List.mem_map_of_mem (List.mem_append_right _ hmem)

/-- A list that passes the check has no cycle. -/
theorem not_hasCycle_of_check (hd : Distinct sheets) (h : check sheets = .ok ()) :
    ¬ HasCycle sheets := by
  rintro ⟨a, hcycle⟩
  obtain ⟨visited, hall, -⟩ := Outcome.bind_eq_ok h
  -- the search starts with nothing done and an empty path, so both invariants hold
  obtain ⟨hadvance, hdone⟩ := (visit_advances hd).2 [] [] (starts sheets) visited settled_nil
    (fun _ ha => absurd ha List.not_mem_nil) hall
  obtain ⟨b, ⟨source, hmem, -, -, rfl, -⟩, -⟩ := TransGen.head'_iff.1 hcycle
  obtain ⟨found, hfound⟩ := exists_find?_of_mem hmem
  exact hadvance.settled.acyclic _ (hdone _ (mem_starts hmem) found hfound) hcycle

/-- A list that does not pass the check has the cycle that is named. -/
theorem genuine_of_check (h : check sheets = .error cycle) : cycle.Genuine sheets := by
  rcases Outcome.bind_eq_error h with hall | ⟨visited, -, hpure⟩
  · exact visit_finds_cycle.2 [] [] (starts sheets) cycle trail_nil
      (fun _ _ _ hlast => absurd hlast (Option.not_mem_none _)) hall
  · cases hpure

/-- **The check is exact**: it passes if and only if there is no cycle. -/
theorem check_eq_ok_iff (hd : Distinct sheets) : check sheets = .ok () ↔ ¬ HasCycle sheets := by
  refine ⟨not_hasCycle_of_check hd, fun h => ?_⟩
  rcases hcheck : check sheets with cycle | ⟨⟩
  · exact absurd (genuine_of_check hcheck).hasCycle h
  · rfl

end ImportGraph

/-! ## Resolving the graph of a package -/

/-- A stylesheet without its mark. -/
def Sheet.unmarked (sheet : Sheet) : Sheet := { sheet with isIndependent := false }

namespace Package

/-! ### Packages of distinct stylesheets -/

/-- The places of distinct locations make an index. -/
theorem indexes_zipIdx {locations : List Location} (h : locations.Nodup) :
    Indexes locations.zipIdx locations := by
  induction locations using List.reverseRecOn with
  | nil => exact indexes_nil
  | append_singleton locations location ih =>
    obtain ⟨hfront, hnew⟩ : locations.Nodup ∧ location ∉ locations := by
      rw [← List.concat_eq_append, List.nodup_concat] at h
      exact h.symm
    rw [List.zipIdx_append, Nat.zero_add]
    refine (ih hfront).concat ?_
    rcases hplace : locations.zipIdx.lookup location with _ | place
    · rfl
    · exact absurd (List.mem_of_getElem? ((ih hfront _ _).1 hplace)) hnew

/-- A package with the given stylesheets. -/
def ofSheets (sheets : List Sheet) (hd : Sheets.Distinct sheets) : Package where
  root := .root
  root_join_root := rfl
  options := {}
  transforms := .standard
  sheets
  index := (sheets.map Sheet.location).zipIdx
  indexed := indexes_zipIdx hd

/-- No two stylesheets of a package lie at the same location, since the index has one place for
it. -/
theorem distinct (p : Package) : Sheets.Distinct p.sheets := by
  refine List.nodup_iff_getElem?_ne_getElem?.2 fun i j hlt hj heq => ?_
  obtain ⟨location, hlocation⟩ : ∃ location, (p.sheets.map Sheet.location)[j]? = some location :=
    ⟨_, List.getElem?_eq_getElem hj⟩
  have hi := (p.indexed location i).2 (heq.trans hlocation)
  have hj := (p.indexed location j).2 hlocation
  exact hlt.ne (Option.some.inj (hi.symm.trans hj))

/-! ### Checking a package -/

/-- A package without the marks of its stylesheets. -/
def unmarked (p : Package) : Package := p.revise Sheet.unmarked fun _ => rfl

variable {p : Package} {cycle : ImportCycle}

theorem resolveGraph_of_check_eq_ok (h : ImportGraph.check p.sheets = .ok ()) :
    p.resolveGraph.value =
      (p.revise (fun sheet => { sheet with isIndependent := standsAlone sheet })
        fun _ => rfl, none) := by
  rw [resolveGraph, h]
  rfl

theorem resolveGraph_of_check_eq_error (h : ImportGraph.check p.sheets = .error cycle) :
    p.resolveGraph.value = (p.unmarked, some cycle) := by
  rw [resolveGraph, h]
  rfl

/-- Whatever the outcome, only marks change. -/
theorem unmarked_resolveGraph (p : Package) : p.resolveGraph.value.1.unmarked = p.unmarked := by
  rcases hcheck : ImportGraph.check p.sheets with cycle | ⟨⟩
  · rw [resolveGraph_of_check_eq_error hcheck]
    exact Package.ext rfl rfl rfl List.map_map rfl
  · rw [resolveGraph_of_check_eq_ok hcheck]
    exact Package.ext rfl rfl rfl List.map_map rfl

/-- The cycle that is reported is the one that the check names. -/
theorem check_of_resolveGraph (h : p.resolveGraph.value.2 = some cycle) :
    ImportGraph.check p.sheets = .error cycle := by
  rcases hcheck : ImportGraph.check p.sheets with cycle' | ⟨⟩
  · rw [resolveGraph_of_check_eq_error hcheck] at h
    rw [Option.some.inj h]
  · rw [resolveGraph_of_check_eq_ok hcheck] at h
    cases h

theorem resolveGraph_eq_none_iff_check :
    p.resolveGraph.value.2 = none ↔ ImportGraph.check p.sheets = .ok () := by
  rcases hcheck : ImportGraph.check p.sheets with cycle | ⟨⟩
  · simp [resolveGraph_of_check_eq_error hcheck]
  · simp [resolveGraph_of_check_eq_ok hcheck]

/-- The check passes if all imports lead downwards. -/
theorem resolveGraph_eq_none_of_rank (rank : Location → Nat)
    (h : ∀ sheet ∈ p.sheets, ∀ edge ∈ sheet.compiled.imports, rank edge.target <
      rank sheet.location) :
    p.resolveGraph.value.2 = none :=
  resolveGraph_eq_none_iff_check.2
    ((ImportGraph.check_eq_ok_iff p.distinct).2 (Sheets.not_hasCycle_of_rank rank h))

/-- After a failure no stylesheet stands alone. -/
theorem isIndependent_of_resolveGraph_eq_some (h : p.resolveGraph.value.2 = some cycle)
    {sheet : Sheet} (hmem : sheet ∈ p.resolveGraph.value.1.sheets) :
    sheet.isIndependent = false := by
  rw [resolveGraph_of_check_eq_error (check_of_resolveGraph h)] at hmem
  obtain ⟨before, -, rfl⟩ := List.mem_map.1 hmem
  rfl

/-- **Cycle detection is sound and complete.** Resolving the graph of a package succeeds if and only
if there is no cycle of imports between its stylesheets; a failure names a genuine cycle and leaves
no stylesheet marked; and nothing but marks ever changes. The stylesheets of a package can be any at
distinct locations (`Package.ofSheets`), whatever they import and whoever is said to import them. -/
theorem resolveGraph_detects_cycles (p : Package) :
    (p.resolveGraph.value.2 = none ↔ ¬ Sheets.HasCycle p.sheets) ∧
      (∀ cycle, p.resolveGraph.value.2 = some cycle → cycle.Genuine p.sheets ∧
        ∀ sheet ∈ p.resolveGraph.value.1.sheets, sheet.isIndependent = false) ∧
      p.resolveGraph.value.1.unmarked = p.unmarked := by
  refine ⟨?_, fun cycle hcycle => ⟨?_, fun sheet hmem => ?_⟩, unmarked_resolveGraph p⟩
  · rw [resolveGraph_eq_none_iff_check, ImportGraph.check_eq_ok_iff p.distinct]
  · exact ImportGraph.genuine_of_check (check_of_resolveGraph hcycle)
  · exact isIndependent_of_resolveGraph_eq_some hcycle hmem

/-- Two stylesheets `b` and `c` that import each other below a third one, `a`, which imports `b`
twice and something that is not there. Nothing records who imports whom. -/
def tangle : Package :=
  let place (name : Char) : Location := .absolute [[name]]
  let sheet (name : Char) (targets : List Char) : Sheet :=
    { location := place name
      source := none
      compiled :=
        { imports := targets.map fun target => ⟨place name, place target, ⟨.start, .start⟩⟩ } }
  .ofSheets [sheet 'a' ['b', 'x', 'b'], sheet 'b' ['c'], sheet 'c' ['b']] (by decide)

theorem hasCycle_tangle : Sheets.HasCycle tangle.sheets := by
  have hbc : Sheets.Imports tangle.sheets (.absolute [['b']]) (.absolute [['c']]) := by
    decide
  have hcb : Sheets.Imports tangle.sheets (.absolute [['c']]) (.absolute [['b']]) := by
    decide
  exact ⟨_, (TransGen.single hbc).tail hcb⟩

/-- The cycle below `a` is found. -/
theorem resolveGraph_detects_cycles_tangle :
    Sheets.Distinct tangle.sheets ∧
      ∃ cycle, tangle.resolveGraph.value.2 = some cycle ∧ cycle.Genuine tangle.sheets := by
  obtain ⟨hiff, hgenuine, -⟩ := resolveGraph_detects_cycles tangle
  rcases hcycle : tangle.resolveGraph.value.2 with _ | cycle
  · exact absurd hasCycle_tangle (hiff.1 hcycle)
  · exact ⟨tangle.distinct, cycle, rfl, (hgenuine cycle hcycle).1⟩

end Package

end MiniSheet
