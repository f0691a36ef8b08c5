import MiniSheet.Package.Rendering

/-!
# The style engine

An engine renders the stylesheets of a package for the device it runs on and keeps every text it has
rendered. A stylesheet may be kept in several variants, told apart by a suffix. Besides the texts
the engine keeps a list of how to make each of them again. When the device changes, the list is gone
through in the order the texts were first asked for; then the listeners are told of each. A listener
may ask the engine for further texts; those are kept as well, but nobody is told of them before the
next change.
-/

namespace MiniSheet

/-- What a kept text is kept under. -/
structure CacheKey where
  /-- the stylesheet -/
  location : Location
  /-- the variant -/
  suffix : Text
  deriving Repr, DecidableEq

/-- The key in words. -/
def CacheKey.display (key : CacheKey) : String :=
  key.location.display ++ "-" ++ String.ofList key.suffix

/-- Something that an engine is asked to render. -/
structure Request where
  /-- the path of the stylesheet -/
  path : Text
  /-- the variant -/
  suffix : Text
  deriving Repr, DecidableEq

/-- Something that an engine was asked to render, and what it answered. -/
structure Answer where
  /-- what it was asked -/
  request : Request
  /-- the text, or why there is none -/
  outcome : Except RenderError Text

/-- What someone asks of an engine, one request at a time: each answer decides how it goes on. -/
inductive Inquiry where
  /-- nothing more is asked -/
  | done
  /-- something is asked -/
  | ask (request : Request) (further : Except RenderError Text → Inquiry)

/-- Someone who is told of new texts. -/
structure Listener where
  /-- what is asked of the engine on being told of a text -/
  told : CacheKey → Text → Inquiry

/-- A listener that was told of a text. -/
structure Notification where
  /-- the number of the listener -/
  listener : Nat
  /-- what the text is kept under -/
  key : CacheKey
  /-- the text -/
  css : Text
  /-- what the listener asked of the engine -/
  answers : List Answer

/-- How a kept text is made again. -/
structure Recalculation where
  /-- what the text is kept under -/
  key : CacheKey
  /-- the stylesheet that is rendered -/
  renderer : Location
  deriving Repr, DecidableEq

/-- An engine. -/
structure Engine where
  /-- the package that it renders -/
  package : Package
  /-- the device that it renders for -/
  profile : Profile
  /-- the stylesheets that rendering was tried for -/
  renderers : List Location := []
  /-- the kept texts -/
  cache : List (CacheKey × Text) := []
  /-- how the kept texts are made again, in the order they were first asked for -/
  recalculations : List Recalculation := []
  /-- the listeners, in the order they came -/
  listeners : List Listener := []

namespace Engine

/-! ## Kept texts -/

/-- The text that is kept under a key. -/
def kept? (cache : List (CacheKey × Text)) (key : CacheKey) : Option Text :=
  (cache.find? fun entry => entry.1 == key).map Prod.snd

/-- Keep a text under a key, in the place of the one before if there is one. -/
def keep (cache : List (CacheKey × Text)) (key : CacheKey) (css : Text) : List (CacheKey × Text) :=
  match cache with
  | [] => [(key, css)]
  | entry :: rest => if entry.1 == key then (key, css) :: rest else entry :: keep rest key css

/-- The text that is kept for a variant of the stylesheet at a path. -/
def cached? (e : Engine) (path suffix : Text) : Option Text :=
  kept? e.cache ⟨e.package.locate path, suffix⟩

/-- The stylesheet at a path, if rendering it was tried. -/
def renderer? (e : Engine) (path : Text) : Option Location :=
  e.renderers.find? (· == e.package.locate path)

/-! ## Rendering -/

/-- Remember that rendering a stylesheet was tried. -/
def withRenderer (e : Engine) (location : Location) : Engine :=
  if e.renderers.contains location then e else { e with renderers := e.renderers ++ [location] }

/-- Keep a text. The first time, remember how to make it again. -/
def register (e : Engine) (key : CacheKey) (renderer : Location) (css : Text) : Logged Engine :=
  let registered := { e with cache := keep e.cache key css }
  if (kept? e.cache key).isNone then do
    Logged.record .debug ("RENDER: registered recalculation for " ++ key.display)
    return { registered with recalculations := e.recalculations ++ [⟨key, renderer⟩] }
  else return registered

/-- Render a variant of the stylesheet at a path and keep it. -/
def render (e : Engine) (path suffix : Text) : Logged (Engine × Except RenderError Text) :=
  match e.package.get? path with
  | none => pure (e, .error (.unknown (e.package.locate path)))
  | some sheet => do
    let e := e.withRenderer sheet.location
    match ← e.package.renderNamed e.profile sheet.location.toText sheet.location with
    | .error error => return (e, .error error)
    | .ok css =>
      let e ← e.register ⟨sheet.location, suffix⟩ sheet.location css
      return (e, .ok css)

/-- Answer what someone asks. -/
def answer (e : Engine) : Inquiry → Logged (Engine × List Answer)
  | .done => pure (e, [])
  | .ask request further => do
    let (e, outcome) ← e.render request.path request.suffix
    let (e, answers) ← e.answer (further outcome)
    return (e, ⟨request, outcome⟩ :: answers)

/-! ## Changing the device -/

/-- Add a listener. -/
def subscribe (e : Engine) (listener : Listener) : Engine :=
  { e with listeners := e.listeners ++ [listener] }

/-- Make kept texts again, up to the first failure. The result are the new texts. -/
def recalculate (e : Engine) :
    List Recalculation → Logged (Engine × Except RenderError (List (CacheKey × Text)))
  | [] => pure (e, .ok [])
  | recalculation :: recalculations => do
    let renderer := recalculation.renderer
    match ← e.package.renderNamed e.profile renderer.toText renderer with
    | .error error => return (e, .error error)
    | .ok css =>
      let e := { e with cache := keep e.cache recalculation.key css }
      let (e, updated) ← e.recalculate recalculations
      return (e, updated.map ((recalculation.key, css) :: ·))

/-- Go over to another device, without telling anyone. -/
def switch (e : Engine) (profile : Profile) :
    Logged (Engine × Except RenderError (List (CacheKey × Text))) :=
  { e with profile }.recalculate e.recalculations

/-- Tell listeners of texts, one after the other. -/
def tellAll (e : Engine) :
    List (Nat × Listener × CacheKey × Text) → Logged (Engine × List Notification)
  | [] => pure (e, [])
  | (index, listener, key, css) :: calls => do
    let (e, answers) ← e.answer (listener.told key css)
    let (e, notifications) ← e.tellAll calls
    return (e, ⟨index, key, css, answers⟩ :: notifications)

/-- Who is told of what: every listener of the first text, then every listener of the second. -/
def calls (listeners : List Listener) (updated : List (CacheKey × Text)) :
    List (Nat × Listener × CacheKey × Text) :=
  updated.flatMap fun (key, css) => listeners.zipIdx.map
    fun (listener, index) => (index, listener, key, css)

/-- Go over to another device and tell the listeners. -/
def apply (e : Engine) (profile : Profile) :
    Logged (Engine × Except RenderError (List Notification)) := do
  let (e, updated) ← e.switch profile
  match updated with
  | .error error => return (e, .error error)
  | .ok updated =>
    Logged.record .info
      ("RENDER: applied profile " ++ String.ofList (Decimal.ofFloat profile.width) ++ "x" ++
        String.ofList (Decimal.ofFloat profile.height) ++ "@" ++
        String.ofList (Decimal.ofFloat profile.pixelRatio) ++
          s!", {updated.length} entr(ies) updated")
    let (e, notifications) ← e.tellAll (calls e.listeners updated)
    return (e, .ok notifications)

/-! ## Following a device -/

/-- Follow readings that came in since the last look: only the latest counts. -/
def follow (e : Engine) (readings : List Metrics) : Logged (Engine × List Notification) :=
  match readings.getLast? with
  | none => pure (e, [])
  | some metrics => do
    match ← e.apply (.ofMetrics metrics) with
    | (e, .ok notifications) => return (e, notifications)
    | (e, .error error) =>
      Logged.record .warn ("DEVICE: " ++ error.message)
      return (e, [])

/-- The end of all readings. -/
def followed : Logged Unit := Logged.record .debug "DEVICE: metrics sender dropped, watch finished"

end Engine

end MiniSheet
