import MiniSheet.Proofs.Classification
import MiniSheet.Proofs.Registry

/-!
# References and edges along a history

A stylesheet carries two records of what it imports. The references among its chunks are what
rendering follows, the edges are what the check for circles follows. Both are made in one walk,
thrown away when a source is registered, and made again whenever the package is compiled. They never
drift apart (`Package.edges_follow_references`).

The argument is that a stylesheet is in one of two states, whatever was done with its package.
Either its source was compiled with success at some time since it was registered
(`Package.CompiledSince`), and then it carries what it would compile to now; or it was not, and then
it carries nothing (`Package.Current`). The first state lasts because a package only grows: a
compiler that finds more stylesheets compiles the same source to the same
(`Compiler.Extends.compile`).
-/

namespace MiniSheet

/-! ## Finding more stylesheets -/

namespace Compiler

variable {c c' : Compiler}

/-- The second compiler is the first one, except that it may find more stylesheets. -/
structure Extends (c c' : Compiler) : Prop where
  /-- it compiles the same stylesheet -/
  sheet : c'.sheet = c.sheet
  /-- it applies the same transforms -/
  transforms : c'.transforms = c.transforms
  /-- it finds what the first one finds -/
  lookup : ∀ place target, c.lookup place = some target → c'.lookup place = some target

theorem Extends.resolveImport (h : c.Extends c') {params : Text} {span : Span} {edge : ImportEdge}
    (hedge : c.resolveImport params span = .ok edge) : c'.resolveImport params span = .ok edge := by
  rw [Compiler.resolveImport] at hedge ⊢
  split at hedge
  · cases hedge
  · dsimp only at hedge ⊢
    split at hedge
    · cases hedge
    · rename_i target hlookup
      rw [h.sheet, h.lookup _ target hlookup]
      exact hedge

theorem Resolved.exists_edge {sites : List ImportSite} {edges : List ImportEdge}
    (h : c.Resolved sites edges) :
    ∀ site ∈ sites, ∃ edge, c.resolveImport site.params site.span = .ok edge := by
  induction h with
  | nil => exact fun site hmem => absurd hmem List.not_mem_nil
  | cons hfirst _ ih =>
    intro site hmem
    rcases List.mem_cons.1 hmem with rfl | hmem
    · exact ⟨_, hfirst⟩
    · exact ih site hmem

/-- Where each site stands. -/
theorem Resolved.map_span {sites : List ImportSite} {edges : List ImportEdge}
    (h : c.Resolved sites edges) : edges.map (·.span) = sites.map (·.span) := by
  induction h with
  | nil => rfl
  | cons hfirst _ ih => rw [List.map_cons, List.map_cons, ih, (source_of_resolveImport hfirst).2]

/-- Selectors and declarations are written without looking anything up. -/
theorem Extends.produceSelector (h : c.Extends c') (context : Context) (selector : Text) :
    c'.produceSelector context selector = c.produceSelector context selector := by
  rw [Compiler.produceSelector, Compiler.produceSelector, h.sheet, h.transforms]

theorem Extends.produceDeclaration (h : c.Extends c') (context : Context)
    (declaration : Declaration) :
    c'.produceDeclaration context declaration = c.produceDeclaration context declaration := by
  rw [Compiler.produceDeclaration, Compiler.produceDeclaration, produceValue, produceValue, h.sheet,
    h.transforms]

mutual

/-- If both make the same of the imports of a node, both make the same of the node. -/
theorem Extends.produceNode (h : c.Extends c') (context : Context) : (node : Node) →
    (∀ site ∈ node.sites, c'.produceImport site.params site.span =
      c.produceImport site.params site.span) →
    c'.produceNode context node = c.produceNode context node
  | .leaf (.comment _) _, _ => by rw [Compiler.produceNode, Compiler.produceNode]
  | .leaf (.declaration declaration) _, _ => by
    rw [Compiler.produceNode, Compiler.produceNode, h.produceDeclaration]
  | .leaf (.atRule name params) span, hsites => by
    rw [Node.sites] at hsites
    rw [Compiler.produceNode, Compiler.produceNode]
    split
    · rename_i hname
      rw [if_pos hname] at hsites
      exact hsites _ List.mem_cons_self
    · rfl
  | .block (.rule selector) children _, hsites => by
    rw [Node.sites] at hsites
    rw [Compiler.produceNode, Compiler.produceNode, h.produceSelector,
      h.produceNodes context children hsites]
  | .block (.atRule name params) children span, hsites => by
    rw [Node.sites] at hsites
    rw [Compiler.produceNode, Compiler.produceNode]
    split
    · rename_i hname
      rw [if_pos hname] at hsites
      exact hsites _ List.mem_cons_self
    · rename_i hname
      rw [if_neg hname] at hsites
      dsimp only
      rw [h.produceNodes (Context.inside name) children hsites]

/-- The same for nodes, one behind the other. -/
theorem Extends.produceNodes (h : c.Extends c') (context : Context) : (nodes : List Node) →
    (∀ site ∈ Node.sitesAll nodes, c'.produceImport site.params site.span =
      c.produceImport site.params site.span) →
    c'.produceNodes context nodes = c.produceNodes context nodes
  | [], _ => by rw [Compiler.produceNodes, Compiler.produceNodes]
  | node :: nodes, hsites => by
    rw [Node.sitesAll] at hsites
    rw [Compiler.produceNodes, Compiler.produceNodes,
      h.produceNode context node fun site hmem => hsites site (List.mem_append_left _ hmem),
      h.produceNodes context nodes fun site hmem => hsites site (List.mem_append_right _ hmem)]

end

/-- **A compiler that finds more compiles the same**: a source that compiles goes on compiling to
the same. -/
theorem Extends.compile (h : c.Extends c') {source : Text} {compiled : Compiled}
    (hcompiled : (c.compile source).value = .ok compiled) :
    (c'.compile source).value = .ok compiled := by
  obtain ⟨document, hparse, hresolved⟩ := resolved_of_compile hcompiled
  have hproduce : c'.produce source = c.produce source := by
    rw [produce, produce, hparse]
    refine h.produceNodes .root document.nodes fun site hsite => ?_
    obtain ⟨edge, hedge⟩ := hresolved.exists_edge site hsite
    rw [produceImport, produceImport, hedge, h.resolveImport hedge]
  rw [Compiler.compile] at hcompiled ⊢
  dsimp only at hcompiled ⊢
  rw [hproduce]
  split at hcompiled
  · cases hcompiled
  · exact hcompiled

end Compiler

namespace Package

variable {start p p' : Package} {compiled : Location → Prop}

/-- The second package is the first one, except that more locations may be taken. -/
structure Grows (p p' : Package) : Prop where
  /-- paths are taken from the same root -/
  root : p'.root = p.root
  /-- the same transforms apply -/
  transforms : p'.transforms = p.transforms
  /-- the same locations are taken, and possibly more -/
  locations : ∀ location ∈ p.sheets.map Sheet.location, location ∈ p'.sheets.map Sheet.location

theorem grows_insertAt (p : Package) (location : Location) (source : Option Text) :
    p.Grows (p.insertAt location source) :=
  ⟨rfl, rfl, fun _ htaken => mem_map_location_register htaken _⟩

/-- A package that grows finds what it found before. -/
theorem Grows.compiler (h : p.Grows p') (sheet : Sheet) :
    (p.compiler sheet).Extends (p'.compiler sheet) where
  sheet := rfl
  transforms := h.transforms
  lookup place target hlookup := by
    obtain ⟨rfl, htaken⟩ := lookup_eq_some_iff.1 hlookup
    exact lookup_eq_some_iff.2 ⟨by rw [h.root], h.locations _ htaken⟩

/-- What is registered when files are loaded depends on the root of the package alone. -/
theorem loaded_congr (hroot : p'.root = p.root) (files : List FileTree.File) :
    p'.loaded files = p.loaded files := by
  induction files with
  | nil => rfl
  | cons file files ih => rw [loaded, loaded, hroot, ih]

/-! ## Compiled or empty -/

/-- The stylesheets at the given locations carry what they compile to now, and all others carry
nothing. -/
structure Current (compiled : Location → Prop) (p : Package) : Prop where
  /-- a stylesheet at one of the locations compiles to what it carries -/
  compiles : ∀ sheet ∈ p.sheets, compiled sheet.location →
    (p.compileSheet sheet).value = .ok sheet.compiled
  /-- any other stylesheet carries nothing -/
  empty : ∀ sheet ∈ p.sheets, ¬ compiled sheet.location → sheet.compiled = {}

/-- The package has a stylesheet at the location, and it compiles. -/
def Compiles (p : Package) (location : Location) : Prop :=
  ∃ sheet output, p.find? location = some sheet ∧ (p.compileSheet sheet).value = .ok output

theorem compiles_iff {location : Location} :
    (p.find? location).any (fun sheet => (p.compileSheet sheet).value.isOk) = true ↔
      p.Compiles location := by
  rw [Option.any_eq_true]
  constructor
  · rintro ⟨sheet, hsheet, hok⟩
    obtain ⟨output, houtput⟩ := Outcome.exists_of_isOk hok
    exact ⟨sheet, output, hsheet, houtput⟩
  · rintro ⟨sheet, output, hsheet, houtput⟩
    exact ⟨sheet, hsheet, by rw [houtput]; rfl⟩

instance (p : Package) (location : Location) : Decidable (p.Compiles location) :=
  decidable_of_iff _ compiles_iff

namespace Current

theorem congr {compiled' : Location → Prop} (h : Current compiled p)
    (hiff : ∀ location, compiled location ↔ compiled' location) : Current compiled' p := by
  obtain rfl : compiled = compiled' := funext fun location => propext (hiff location)
  exact h

/-- A stylesheet that is registered carries nothing, and the others carry what they carried. -/
theorem insertAt (h : Current compiled p) (location : Location) (source : Option Text) :
    Current (fun other => compiled other ∧ other ≠ p.root.join location)
      (p.insertAt location source) := by
  -- a stylesheet of the package is the new one, or lies elsewhere and was there before
  have hcases (sheet : Sheet) (hsheet : sheet ∈ (p.insertAt location source).sheets) :
      (sheet.location = p.root.join location ∧ sheet.compiled = {}) ∨
        (sheet.location ≠ p.root.join location ∧ sheet ∈ p.sheets) := by
    have hfind :=
      (find?_register _ _ _).symm.trans
        (Sheets.find?_of_mem (p.insertAt location source).distinct hsheet)
    dsimp only at hfind
    split at hfind
    · obtain rfl := Option.some.inj hfind
      exact .inl ⟨rfl, rfl⟩
    · rename_i hne
      exact .inr ⟨Ne.symm hne, Sheets.mem_of_find? hfind⟩
  refine ⟨fun sheet hsheet hcompiled => ?_, fun sheet hsheet hcompiled => ?_⟩
  · rcases hcases sheet hsheet with ⟨heq, -⟩ | ⟨-, hmem⟩
    · exact absurd heq hcompiled.2
    · exact ((p.grows_insertAt location source).compiler sheet).compile
        (h.compiles sheet hmem hcompiled.1)
  · rcases hcases sheet hsheet with ⟨-, hempty⟩ | ⟨hne, hmem⟩
    · exact hempty
    · exact h.empty sheet hmem fun hold => hcompiled ⟨hold, hne⟩

/-- Marks make no difference. -/
theorem mark (h : Current compiled p) {f : Sheet → Sheet} (hf : p.Revises f)
    (hkept : ∀ sheet, (f sheet).compiled = sheet.compiled) :
    Current compiled (p.revise f hf.location) := by
  refine ⟨fun sheet hsheet hcompiled => ?_, fun sheet hsheet hcompiled => ?_⟩
  · obtain ⟨before, hbefore, rfl⟩ := List.mem_map.1 hsheet
    rw [hf.location] at hcompiled
    rw [compileSheet_congr (p.sameSurroundings_revise _) (hf.location before) (hf.source before),
      hkept]
    exact h.compiles before hbefore hcompiled
  · obtain ⟨before, hbefore, rfl⟩ := List.mem_map.1 hsheet
    rw [hf.location] at hcompiled
    rw [hkept]
    exact h.empty before hbefore hcompiled

theorem setEntry (h : Current compiled p) (location : Location) (isEntry : Bool) :
    Current compiled (p.setEntry location isEntry) := by
  refine h.mark ⟨fun sheet => ?_, fun sheet => ?_, fun sheet => .inl ?_⟩ fun sheet => ?_
  all_goals split <;> rfl

theorem resolveGraph (h : Current compiled p) : Current compiled p.resolveGraph.value.1 := by
  rcases hcheck : ImportGraph.check p.sheets with cycle | ⟨⟩
  · rw [resolveGraph_of_check_eq_error hcheck]
    exact h.mark (p.revises_mark fun _ => false) fun _ => rfl
  · rw [resolveGraph_of_check_eq_ok hcheck]
    exact h.mark (p.revises_mark standsAlone) fun _ => rfl

/-- After compiling, the stylesheets that compile carry what they compile to. Those that did before
are among them. -/
theorem compileAll (h : Current compiled p) :
    Current (fun location => compiled location ∨ p.Compiles location) p.compileAll.value.1 := by
  refine ⟨fun sheet hsheet hcompiled => ?_, fun sheet hsheet hcompiled => ?_⟩
  · rw [sheets_compileAll] at hsheet
    obtain ⟨before, hbefore, rfl⟩ := List.mem_map.1 hsheet
    obtain ⟨output, houtput⟩ : ∃ output, (p.compileSheet before).value = .ok output := by
      rcases hcompiled with hold | ⟨found, output, hfound, houtput⟩
      · exact ⟨_, h.compiles before hbefore hold⟩
      · obtain rfl := Option.some.inj ((Sheets.find?_of_mem p.distinct hbefore).symm.trans hfound)
        exact ⟨output, houtput⟩
    have hcarried : (p.recompiled before).compiled = output := by
      rw [recompiled, compiledOf, houtput]
      rfl
    rw [compileSheet_recompiled, houtput, hcarried]
  · rw [sheets_compileAll] at hsheet
    obtain ⟨before, hbefore, rfl⟩ := List.mem_map.1 hsheet
    rcases houtput : (p.compileSheet before).value with error | output
    · exact compiledOf_of_fails (fails_of_error houtput)
    · exact absurd (.inr ⟨before, output, Sheets.find?_of_mem p.distinct hbefore, houtput⟩)
        hcompiled

theorem process (h : Current compiled p) :
    Current (fun location => compiled location ∨ p.Compiles location) p.process.value.1 := by
  rcases p.process_cases with ⟨-, hprocess⟩ | ⟨-, hprocess⟩
  · rw [hprocess]
    exact h.compileAll
  · rw [hprocess]
    exact h.compileAll.resolveGraph

theorem loadFiles (h : Current compiled p) (files : List FileTree.File) :
    Current (fun location => compiled location ∧ location ∉ (p.loaded files).map Prod.fst)
      (p.loadFiles files).1 := by
  induction files generalizing p compiled with
  | nil => exact h.congr fun location => by simp [loaded]
  | cons file files ih =>
    rw [loaded, Package.loadFiles]
    rcases file.text? with _ | source
    · exact h.congr fun location => by simp
    · have hloaded : (p.insertAt file.location (some source)).loaded files = p.loaded files :=
        loaded_congr (p.grows_insertAt _ _).root files
      refine (ih (h.insertAt file.location (some source))).congr fun location => ?_
      rw [List.map_cons, List.mem_cons, not_or, and_assoc, hloaded]

theorem load (h : Current compiled p) (tree : FileTree) :
    Current
      (fun location =>
        compiled location ∧ location ∉ (p.registrations (.load tree)).map Prod.fst)
      (p.load tree).value.1 := by
  rw [registrations, Package.load]
  rcases p.stylesheetFiles tree with error | files
  · exact h.congr fun location => by simp
  · have hfiles := h.loadFiles files
    dsimp only
    split
    · rename_i hload
      rw [hload] at hfiles
      exact hfiles
    · rename_i hload
      rw [hload] at hfiles
      exact hfiles

end Current

/-! ## Compiled since -/

/-- Whether an operation compiles the stylesheets. -/
def Operation.compiles : Operation → Bool
  | .compileAll | .process => true
  | .insert _ _ | .load _ | .setEntry _ _ | .resolveGraph => false

/-- The present source of the stylesheet at a location was compiled with success: at some time in
the history the package was compiled, the stylesheet compiled with it, and nothing was registered at
the location after that. -/
def CompiledSince (start : Package) (operations : List Operation) (location : Location) : Prop :=
  ∃ before operation after, operations = before ++ operation :: after ∧ operation.compiles = true ∧
    (start.performAll before).Compiles location ∧
    location ∉ (after.flatMap start.registrations).map Prod.fst

/-- The last operation compiled the stylesheet, or it did not register anything there. -/
theorem compiledSince_concat {operations : List Operation} {operation : Operation}
    {location : Location} :
    CompiledSince start (operations ++ [operation]) location ↔
      (CompiledSince start operations location ∧
        location ∉ (start.registrations operation).map Prod.fst) ∨
        (operation.compiles = true ∧ (start.performAll operations).Compiles location) := by
  constructor
  · rintro ⟨before, last, after, hoperations, hlast, hcompiles, hafter⟩
    rcases after.eq_nil_or_concat with rfl | ⟨front, other, rfl⟩
    · obtain ⟨rfl, heq⟩ := List.append_inj' hoperations rfl
      obtain rfl := List.singleton_inj.1 heq
      exact .inr ⟨hlast, hcompiles⟩
    · rw [List.concat_eq_append, ← List.cons_append, ← List.append_assoc] at hoperations
      obtain ⟨rfl, heq⟩ := List.append_inj' hoperations rfl
      obtain rfl := List.singleton_inj.1 heq
      rw [List.concat_eq_append, List.flatMap_append, List.map_append, List.mem_append, not_or,
        List.flatMap_singleton] at hafter
      exact .inl ⟨⟨before, last, front, rfl, hlast, hcompiles, hafter.1⟩, hafter.2⟩
  · rintro (⟨⟨before, last, after, rfl, hlast, hcompiles, hafter⟩, hnew⟩ | ⟨hlast, hcompiles⟩)
    · refine ⟨before, last, after ++ [operation], by simp, hlast, hcompiles, ?_⟩
      rw [List.flatMap_append, List.map_append, List.mem_append, not_or, List.flatMap_singleton]
      exact ⟨hafter, hnew⟩
    · exact ⟨operations, operation, [], rfl, hlast, hcompiles, List.not_mem_nil⟩

/-- What an operation registers depends on the root and the settings of the package alone. -/
theorem registrations_congr (hroot : p.root = start.root) (hoptions : p.options = start.options)
    (operation : Operation) : p.registrations operation = start.registrations operation := by
  cases operation with
  | insert path source => rw [registrations, registrations, locate, locate, hroot]
  | load tree =>
    rw [registrations, registrations, stylesheetFiles, stylesheetFiles, hroot, hoptions]
    simp only [loaded_congr hroot]
  | setEntry | compileAll | resolveGraph | process => rfl

/-- **One operation**: what it registers carries nothing afterwards, and what it compiles carries
what it compiles to. -/
theorem Current.perform (h : Current compiled p) (operation : Operation) :
    Current
      (fun location => (compiled location ∧ location ∉ (p.registrations operation).map Prod.fst) ∨
        (operation.compiles = true ∧ p.Compiles location))
      (p.perform operation) := by
  cases operation with
  | insert path source =>
    refine (h.insertAt (.ofText path) source).congr fun location => ?_
    simp [registrations, Operation.compiles, locate]
  | load tree => exact (h.load tree).congr fun location => by simp [Operation.compiles]
  | setEntry location isEntry =>
    exact (h.setEntry location isEntry).congr fun _ => by simp [registrations, Operation.compiles]
  | compileAll => exact h.compileAll.congr fun _ => by simp [registrations, Operation.compiles]
  | resolveGraph => exact h.resolveGraph.congr fun _ => by simp [registrations, Operation.compiles]
  | process => exact h.process.congr fun _ => by simp [registrations, Operation.compiles]

/-- **Every stylesheet is compiled or empty**, whatever was done with its package since that was
empty. -/
theorem current_performAll (path : Text) (options : Options) (transforms : Transforms)
    (operations : List Operation) :
    let start := Package.empty path options transforms
    Current (CompiledSince start operations) (start.performAll operations) := by
  intro start
  induction operations using List.reverseRecOn with
  | nil =>
      exact ⟨fun _ hmem => absurd hmem List.not_mem_nil, fun _ hmem => absurd hmem List.not_mem_nil⟩
  | append_singleton operations operation ih =>
    have hrecorded := (recorded_empty path options transforms).performAll operations
    rw [performAll, List.foldl_append, ← performAll]
    refine (ih.perform operation).congr fun location => ?_
    rw [registrations_congr hrecorded.root hrecorded.options, compiledSince_concat]

/-! ## Edges -/

/-- **References and edges never drift apart**, whatever was done with a package since it was empty,
as long as the transforms write no references of their own. The references of every stylesheet are
the targets of its edges, in the same order; its edges start at the stylesheet and lead to
stylesheets of the package. If its present source was compiled with success, the edges stand where
the imports of the source stand, at any depth, in the order they are written; if it was not, there
are neither references nor edges. -/
theorem edges_follow_references {transforms : Transforms} (hplain : transforms.Plain) (path : Text)
    (options : Options) (operations : List Operation) :
    let start := Package.empty path options transforms
    let p := start.performAll operations
    ∀ sheet ∈ p.sheets,
      Chunk.targets sheet.compiled.chunks = sheet.compiled.imports.map (·.target) ∧
      (∀ edge ∈ sheet.compiled.imports, edge.source = sheet.location ∧
        edge.target ∈ p.sheets.map Sheet.location) ∧
      (CompiledSince start operations sheet.location →
        ∃ document, Document.parse (sheet.source.getD []) = .ok document ∧
          sheet.compiled.imports.map (·.span) = (Node.sitesAll document.nodes).map (·.span)) ∧
      (¬ CompiledSince start operations sheet.location →
        sheet.compiled.chunks = [] ∧ sheet.compiled.imports = []) := by
  intro start p sheet hsheet
  have hcurrent : Current (CompiledSince start operations) p :=
    current_performAll path options transforms operations
  have hfaithful : sheet.compiled.Faithful (· ∈ p.sheets.map Sheet.location) :=
    (consistent_performAll hplain path options operations).faithful sheet hsheet
  have hempty (hnot : ¬ CompiledSince start operations sheet.location) :
      sheet.compiled.chunks = [] ∧ sheet.compiled.imports = [] := by
    rw [hcurrent.empty sheet hsheet hnot]
    exact ⟨rfl, rfl⟩
  refine ⟨hfaithful.targets_eq, fun edge hedge => ⟨?_, hfaithful.known_target edge hedge⟩,
    fun hcompiled => ?_, hempty⟩
  · by_cases hcompiled : CompiledSince start operations sheet.location
    · exact Compiler.source_of_compile (hcurrent.compiles sheet hsheet hcompiled) edge hedge
    · rw [(hempty hcompiled).2] at hedge
      cases hedge
  · obtain ⟨document, hparse, hresolved⟩ :=
      Compiler.resolved_of_compile (hcurrent.compiles sheet hsheet hcompiled)
    exact ⟨document, hparse, hresolved.map_span⟩

/-- A stylesheet imports another one twice, the second time inside two blocks and with a block of
its own. It is compiled. Then the other one gets a source that does not parse, and one more is
registered. -/
def drifting : List Operation :=
  [.insert ['a'] (some "@import 'b';@m\x7b.x\x7b@import \"b\"\x7b@import 'c';\x7d\x7d\x7d".toList),
    .insert ['b'] none, .compileAll, .insert ['b'] (some ".b\x7b".toList),
    .insert ['c'] (some "@import 'a';".toList)]

/-- The stylesheet still has its two edges, and the new one has none yet. -/
theorem edges_follow_references_drifting :
    let start := Package.empty ['/'] {} .standard
    let p := start.performAll drifting
    let b : Location := .absolute [['b']]
    Transforms.standard.Plain ∧ CompiledSince start drifting (.absolute [['a']]) ∧
      (∃ sheet document, p.get? ['a'] = some sheet ∧
        Document.parse (sheet.source.getD []) = .ok document ∧
        Chunk.targets sheet.compiled.chunks = [b, b] ∧
        sheet.compiled.imports.map (·.span) = (Node.sitesAll document.nodes).map (·.span) ∧
        sheet.compiled.imports.map (·.span.start) = [⟨1, 1⟩, ⟨1, 19⟩]) ∧
      ∃ sheet, p.get? ['c'] = some sheet ∧ sheet.compiled.imports = [] := by
  intro start p b
  have hplain : Transforms.standard.Plain := Transforms.plain_of_stock (.inl rfl) rfl
  have hcompiled : CompiledSince start drifting (.absolute [['a']]) :=
    ⟨drifting.take 2, .compileAll, drifting.drop 3, rfl, rfl, by decide +kernel, by decide +kernel⟩
  obtain ⟨sheet, hsheet⟩ : ∃ sheet, p.get? ['a'] = some sheet :=
    Option.isSome_iff_exists.1 (by decide +kernel)
  obtain ⟨htargets, -, hspans, -⟩ :=
    edges_follow_references hplain ['/'] {} drifting sheet (mem_of_at? hsheet)
  have hlocation : sheet.location = .absolute [['a']] := location_of_at? hsheet
  obtain ⟨document, hparse, hspan⟩ := hspans (hlocation ▸ hcompiled)
  have hread {α : Type} (f : Sheet → α) (a : α) (h : (p.get? ['a']).map f = some a) :
      f sheet = a := by
    rw [hsheet] at h
    exact Option.some.inj h
  refine ⟨hplain, hcompiled, ⟨sheet, document, hsheet, hparse, ?_, hspan, ?_⟩, ?_⟩
  · rw [htargets]
    exact hread (·.compiled.imports.map (·.target)) [b, b] (by decide +kernel)
  · exact hread (·.compiled.imports.map (·.span.start)) [⟨1, 1⟩, ⟨1, 19⟩] (by decide +kernel)
  · have hnone : (p.get? ['c']).map (·.compiled.imports) = some [] := by decide +kernel
    exact Option.map_eq_some_iff.1 hnone

end Package

end MiniSheet
