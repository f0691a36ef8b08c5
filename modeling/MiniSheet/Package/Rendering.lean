import MiniSheet.Number.Shortest
import MiniSheet.Number.Whole
import MiniSheet.Package.Basic

/-!
# Rendering

Rendering a stylesheet for a device fills the holes of its chunks: lengths become whole pixels, and
a reference becomes the rendered output of the stylesheet it names. A stylesheet whose imports lead
back to it cannot be rendered.
-/

namespace MiniSheet

/-- Why a stylesheet cannot be rendered. -/
inductive RenderError where
  /-- the package has no stylesheet there -/
  | unknown (location : Location)
  /-- the stylesheet imports itself -/
  | cyclic (location : Location)
  deriving Repr, DecidableEq

namespace RenderError

/-- The location that the error is about. -/
def location : RenderError → Location
  | unknown location => location
  | cyclic location => location

/-- The error in words. -/
def message : RenderError → String
  | unknown location => s!"stylesheet {location.display} is not part of the package"
  | cyclic location => s!"stylesheet {location.display} imports itself while rendering"

end RenderError

namespace Package

/-- A length in pixels. -/
def renderPixels (p : Package) (profile : Profile) (raw : Float) : Text :=
  Decimal.ofInt (profile.resolve p.options.referenceWidth raw) ++ ['p', 'x']

mutual

/-- Render the stylesheet at a location, inside the stylesheets that are being rendered already. The
location is taken from the root of the package. -/
def renderIn (p : Package) (profile : Profile) (active : List Location) (location : Location) :
    Except RenderError Text :=
  match _hfind : p.at? location with
  | none => .error (.unknown (p.root.join location))
  | some sheet =>
    if _hactive : active.contains sheet.location then .error (.cyclic sheet.location)
    else p.renderChunks profile (sheet.location :: active) sheet.compiled.chunks
termination_by (Sheets.idle p.sheets active, 0)
decreasing_by
  exact Prod.Lex.left _ _ (Sheets.idle_cons_lt (mem_of_at? _hfind) (Bool.eq_false_iff.2 _hactive))

/-- Render chunks one behind the other. -/
def renderChunks (p : Package) (profile : Profile) (active : List Location) :
    List (Chunk Location) → Except RenderError Text
  | [] => .ok []
  | .text content :: chunks => do
    let rest ← p.renderChunks profile active chunks
    return content ++ rest
  | .pixel raw :: chunks => do
    let rest ← p.renderChunks profile active chunks
    return p.renderPixels profile raw ++ rest
  | .suffix _ :: chunks => p.renderChunks profile active chunks
  | .nested target :: chunks => do
    let front ← p.renderIn profile active target
    let rest ← p.renderChunks profile active chunks
    return front ++ rest
termination_by chunks => (Sheets.idle p.sheets active, chunks.length + 1)

end

/-- Render the stylesheet at a location. -/
def renderAt (p : Package) (profile : Profile) (location : Location) : Except RenderError Text :=
  p.renderIn profile [] location

/-- Render the stylesheet at a location, and record under the given name how long the output is. -/
def renderNamed (p : Package) (profile : Profile) (name : Text) (location : Location) :
    Logged (Except RenderError Text) :=
  match p.renderAt profile location with
  | .error error => pure (.error error)
  | .ok css => do
    Logged.record .trace
      ("RENDER: " ++ String.ofList name ++ s!" -> {Text.byteSize css} byte(s) at width " ++
        String.ofList (Decimal.ofFloat profile.width))
    return .ok css

/-- Render the stylesheet at a path. -/
def render (p : Package) (profile : Profile) (path : Text) : Logged (Except RenderError Text) :=
  p.renderNamed profile path (.ofText path)

end Package

end MiniSheet
