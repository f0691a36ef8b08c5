import MiniSheet.Journal
import MiniSheet.Output.Compiled
import MiniSheet.Output.Transform
import MiniSheet.Source.Document

/-!
# Compiling a stylesheet

Compiling walks the tree of a stylesheet from left to right. Each node *produces* events: things
that are written, imports that are made, and records for the journal. The first failure ends the
walk; what was produced before it still counts for the journal. The chunks and the imports of a
stylesheet are read off the events of a walk without failure.

An import is written as a reference to the imported stylesheet, which has to be known to the package
but need not be compiled. Comments produce nothing.
-/

namespace MiniSheet

/-! ## Failures -/

/-- Why a stylesheet does not compile. Each failure names the stylesheet. -/
inductive CompileError where
  /-- its source is no stylesheet -/
  | parse (sheet : Location) (error : ParseError)
  /-- an import does not consist of a single quoted path -/
  | importForm (sheet : Location) (params : Text) (position : Position)
  /-- an import names a stylesheet that the package does not have -/
  | importTarget (sheet target : Location) (position : Position)
  /-- a transform failed -/
  | transform (sheet : Location) (reason : String)
  deriving Repr, DecidableEq

namespace CompileError

/-- The stylesheet that does not compile. -/
def sheet : CompileError → Location
  | parse sheet _ => sheet
  | importForm sheet _ _ => sheet
  | importTarget sheet _ _ => sheet
  | transform sheet _ => sheet

/-- Where in the stylesheet the failure is, if that is known. -/
def position? : CompileError → Option Position
  | parse _ error => some error.position
  | importForm _ _ position => some position
  | importTarget _ _ position => some position
  | transform _ _ => none

/-- The failure in words. -/
def message : CompileError → String
  | parse sheet error => s!"{sheet.display}: {error.message}"
  | importForm sheet params position =>
    s!"{sheet.display}:{position.display}: @import expects a single quoted path, found " ++
      "`" ++ String.ofList params ++ "`"
  | importTarget sheet target position =>
    s!"{sheet.display}:{position.display}: imported stylesheet {target.display} not found"
  | transform sheet reason => s!"{sheet.display}: transform failed: {reason}"

end CompileError

/-- What a stylesheet is compiled with. -/
structure Compiler where
  /-- the stylesheet -/
  sheet : Location
  /-- the stylesheet that the package has for a location, if any -/
  lookup : Location → Option Location
  /-- the transforms -/
  transforms : Transforms

/-! ## Imports -/

namespace Import

/-- The path of an import: the text between two equal quotes, if there is any. -/
def quotedPath? (params : Text) : Option Text :=
  match Text.trim params with
  | [] => none
  | quote :: rest =>
    if Zone.isQuote quote && rest.getLast? == some quote && !rest.dropLast.isEmpty then
      some rest.dropLast
    else none

end Import

namespace Compiler

/-- The edge of an import. Its path is taken from the directory of the stylesheet. -/
def resolveImport (c : Compiler) (params : Text) (span : Span) : Except CompileError ImportEdge :=
  match Import.quotedPath? params with
  | none => .error (.importForm c.sheet (Text.trim params) span.start)
  | some path =>
    let target := c.sheet.directory.join (.ofText path)
    match c.lookup target with
    | none => .error (.importTarget c.sheet target span.start)
    | some target => .ok ⟨c.sheet, target, span⟩

end Compiler

/-! ## Productions -/

/-- Something that the walk produces. -/
inductive Event where
  /-- something is written -/
  | emit (emission : Emission Location)
  /-- an import is made -/
  | imported (edge : ImportEdge)
  /-- something is recorded -/
  | note (record : Record)
  deriving Repr

namespace Event

/-- What an event writes. An import writes a reference to the imported stylesheet. -/
def emission? : Event → Option (Emission Location)
  | emit emission => some emission
  | imported edge => some (.chunk (.nested edge.target))
  | note _ => none

/-- The import that an event makes. -/
def edge? : Event → Option ImportEdge
  | imported edge => some edge
  | _ => none

/-- The record of an event. -/
def record? : Event → Option Record
  | emit _ => none
  | imported edge =>
    some ⟨.debug,
      s!"IMPORT: {edge.source.display} -> {edge.target.display} at {edge.span.start.display}"⟩
  | note record => some record

end Event

/-- What a part of the walk produces, up to its first failure. -/
structure Production where
  /-- the events, in order -/
  events : List Event
  /-- the failure that ended it -/
  failure : Option CompileError := none
  deriving Repr

namespace Production

/-- One production behind the other. Nothing comes behind a failure. -/
protected def append (first second : Production) : Production :=
  match first.failure with
  | none => ⟨first.events ++ second.events, second.failure⟩
  | some _ => first

instance : Append Production := ⟨Production.append⟩

/-- Nothing. -/
def empty : Production := { events := [] }

/-- A text is written. -/
def text (content : Text) : Production := { events := [.emit (.text content)] }

/-- Emissions are written. -/
def emissions (list : List (Emission Location)) : Production := { events := list.map Event.emit }

/-- Something is recorded. -/
def note (level : Level) (message : String) : Production := { events := [.note ⟨level, message⟩] }

/-- The walk fails. -/
def fail (error : CompileError) : Production := { events := [], failure := some error }

/-- The chunks that were written. -/
def chunks (p : Production) : List (Chunk Location) :=
  (Accumulator.empty.emitAll (p.events.filterMap Event.emission?)).toChunks

/-- The imports that were made. -/
def imports (p : Production) : List ImportEdge := p.events.filterMap Event.edge?

/-- What was recorded. -/
def records (p : Production) : List Record := p.events.filterMap Event.record?

end Production

/-! ## The walk -/

namespace Compiler

/-- An import. -/
def produceImport (c : Compiler) (params : Text) (span : Span) : Production :=
  match c.resolveImport params span with
  | .ok edge => { events := [.imported edge] }
  | .error error => .fail error

/-- The selector of a rule. -/
def produceSelector (c : Compiler) (context : Context) (selector : Text) : Production :=
  match c.transforms.selector context selector with
  | .ok emissions => .emissions emissions
  | .error reason => .fail (.transform c.sheet reason)

/-- The value of a declaration. -/
def produceValue (c : Compiler) (context : Context) (declaration : Declaration) : Production :=
  match c.transforms.declaration context declaration with
  | .ok written =>
    .emissions written.emissions ++
      if written.isDeferred then
        .note .trace
          ("COMPILE: " ++ String.ofList declaration.property ++ " deferred `" ++
            String.ofList declaration.value ++ "` in " ++ c.sheet.display)
      else .empty
  | .error reason => .fail (.transform c.sheet reason)

/-- A declaration: its property and separator, its value, its marker, its semicolon. -/
def produceDeclaration (c : Compiler) (context : Context) (declaration : Declaration) :
    Production :=
  .text declaration.property ++ .text declaration.writtenSeparator ++
    c.produceValue context declaration ++ .text (declaration.marker.elim [] (' ' :: ·)) ++
      .text (if declaration.terminated then [';'] else [])

/-- The name and the parameters of an at-rule. -/
def atRuleHead (name params : Text) : Text :=
  '@' :: name ++ if params.isEmpty then [] else ' ' :: params

/-- The name of the at-rule that imports. -/
def importName : Text := "import".toList

mutual

/-- What a node produces. An at-rule that imports is an import even if it has a block. -/
def produceNode (c : Compiler) (context : Context) : Node → Production
  | .leaf (.comment _) _ => .empty
  | .leaf (.declaration declaration) _ => c.produceDeclaration context declaration
  | .leaf (.atRule name params) span =>
    if name == importName then c.produceImport params span
    else .text (atRuleHead name params ++ [';'])
  | .block (.rule selector) children _ =>
    c.produceSelector context selector ++ .text ['{'] ++
      c.produceNodes context children ++ .text ['}']
  | .block (.atRule name params) children span =>
    if name == importName then c.produceImport params span
    else
      let inner := Context.inside name
      .text (atRuleHead name params) ++
        .note .trace
          ("COMPILE: entering @" ++ String.ofList name ++ " as `" ++
            String.ofList inner.name ++ "`") ++
        .text ['{'] ++ c.produceNodes inner children ++ .text ['}']

/-- What nodes produce, one behind the other. -/
def produceNodes (c : Compiler) (context : Context) : List Node → Production
  | [] => .empty
  | node :: nodes => c.produceNode context node ++ c.produceNodes context nodes

end

/-- What the walk of a whole source produces. -/
def produce (c : Compiler) (source : Text) : Production :=
  match Document.parse source with
  | .ok document => c.produceNodes .root document.nodes
  | .error error => .fail (.parse c.sheet error)

/-- Compile a source. -/
def compile (c : Compiler) (source : Text) : Logged (Except CompileError Compiled) :=
  let production := c.produce source
  match production.failure with
  | some error => ⟨.error error, production.records⟩
  | none =>
    let compiled : Compiled := ⟨production.chunks, production.imports⟩
    let summary :=
      s!"COMPILE: {c.sheet.display} -> {compiled.chunks.length} chunks, " ++
        s!"{compiled.imports.length} imports"
    ⟨.ok compiled, production.records ++ [⟨.debug, summary⟩]⟩

end Compiler

end MiniSheet
