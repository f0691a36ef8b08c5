import MiniSheet.Engine
import MiniSheet.Proofs.RenderOutcome

/-!
# The texts of an engine are never stale

An engine keeps texts and a list of how to make them again. A session is an engine with the answers
it has given, and its steps are what can be done to an engine: ask it for a text, add a listener,
change the device. In every session, however long, the two go together: each kept text is what
rendering gives for the present device, and the list holds the keys of the kept texts, in the order
they were first asked for with success (`Session.Coherent`).

A change of the device puts this at risk, since it renders the texts one after the other and stops
at the first failure. It never fails: a key is on the list only because it was rendered once, and
what renders for one device renders for all.

Listeners are called after such a change. What a listener does, for all that the engine sees of it,
is to ask for texts. `Step.switch` is a change up to the first call; behind it, any steps whatever
may stand for what listeners do, so the states between the calls are states of sessions too.
-/

namespace MiniSheet

/-! ## Keeping texts -/

namespace Engine

variable {cache : List (CacheKey × Text)} {key other : CacheKey} {css : Text}

theorem kept?_cons (entry : CacheKey × Text) (cache : List (CacheKey × Text)) (key : CacheKey) :
    kept? (entry :: cache) key = if entry.1 = key then some entry.2 else kept? cache key := by
  by_cases h : entry.1 = key
  · rw [kept?, List.find?_cons_of_pos (by simp [h]), if_pos h]
    rfl
  · rw [kept?, List.find?_cons_of_neg (by simp [h]), if_neg h]
    rfl

/-- The last text kept under a key is found under it, and the others stay where they are. -/
theorem kept?_keep (cache : List (CacheKey × Text)) (key other : CacheKey) (css : Text) :
    kept? (keep cache key css) other = if key = other then some css else kept? cache other := by
  induction cache with
  | nil => rw [keep, kept?_cons]
  | cons entry cache ih =>
    rw [keep]
    by_cases h : entry.1 = key
    · rw [if_pos (beq_iff_eq.2 h), kept?_cons, kept?_cons, h]
      by_cases hkey : key = other
      · rw [if_pos hkey, if_pos hkey]
      · rw [if_neg hkey, if_neg hkey, if_neg hkey]
    · rw [if_neg (mt beq_iff_eq.1 h), kept?_cons, kept?_cons, ih]
      by_cases hentry : entry.1 = other
      · rw [if_pos hentry, if_pos hentry, if_neg fun hkey => h (hentry.trans hkey.symm)]
      · rw [if_neg hentry, if_neg hentry]

/-! ## What each operation does -/

@[simp] theorem package_withRenderer (e : Engine) (location : Location) :
    (e.withRenderer location).package = e.package := by
  unfold withRenderer
  split <;> rfl

@[simp] theorem profile_withRenderer (e : Engine) (location : Location) :
    (e.withRenderer location).profile = e.profile := by
  unfold withRenderer
  split <;> rfl

@[simp] theorem cache_withRenderer (e : Engine) (location : Location) :
    (e.withRenderer location).cache = e.cache := by
  unfold withRenderer
  split <;> rfl

@[simp] theorem recalculations_withRenderer (e : Engine) (location : Location) :
    (e.withRenderer location).recalculations = e.recalculations := by
  unfold withRenderer
  split <;> rfl

@[simp] theorem listeners_withRenderer (e : Engine) (location : Location) :
    (e.withRenderer location).listeners = e.listeners := by
  unfold withRenderer
  split <;> rfl

/-- What registering a text comes to. -/
theorem value_register (e : Engine) (key : CacheKey) (renderer : Location) (css : Text) :
    (e.register key renderer css).value =
      { e with
        cache := keep e.cache key css
        recalculations :=
          if (kept? e.cache key).isNone then e.recalculations ++ [⟨key, renderer⟩]
            else e.recalculations } := by
  unfold register
  split <;> rfl

/-- Two engines hold the same texts for the same device. -/
structure SameTexts (e e' : Engine) : Prop where
  /-- the same package -/
  package : e'.package = e.package
  /-- the same device -/
  profile : e'.profile = e.profile
  /-- the same texts -/
  cache : e'.cache = e.cache
  /-- the same list -/
  recalculations : e'.recalculations = e.recalculations

/-- An engine has come to keep one more text, or the same text anew. -/
structure Keeps (e e' : Engine) (key : CacheKey) (css : Text) : Prop where
  /-- the text is that of the stylesheet, for the present device -/
  rendered : e.package.renderAt e.profile key.location = .ok css
  /-- the same package -/
  package : e'.package = e.package
  /-- the same device -/
  profile : e'.profile = e.profile
  /-- the text is kept -/
  cache : e'.cache = keep e.cache key css
  /-- how to make it again is remembered if that is new -/
  recalculations : e'.recalculations =
    if (kept? e.cache key).isNone then e.recalculations ++ [⟨key, key.location⟩]
    else e.recalculations

/-- **What a request does**: it fails and changes no text, or it succeeds and keeps the text. -/
theorem render_cases (e : Engine) (path suffix : Text) :
    (∃ error, (e.render path suffix).value.2 = .error error ∧
      SameTexts e (e.render path suffix).value.1) ∨
      ∃ css, (e.render path suffix).value.2 = .ok css ∧
        Keeps e (e.render path suffix).value.1 ⟨e.package.locate path, suffix⟩ css := by
  rcases hget : e.package.get? path with _ | sheet
  · rw [render, hget]
    exact Or.inl ⟨_, rfl, rfl, rfl, rfl, rfl⟩
  · have hlocation : sheet.location = e.package.locate path := Package.location_of_at? hget
    rw [← hlocation]
    rcases hrender : e.package.renderAt e.profile sheet.location with error | css
    · left
      simp only [render, hget, Logged.value_bind, Package.value_renderNamed, package_withRenderer,
        profile_withRenderer, hrender]
      exact ⟨error, rfl, by simp, by simp, by simp, by simp⟩
    · right
      simp only [render, hget, Logged.value_bind, Package.value_renderNamed, package_withRenderer,
        profile_withRenderer, hrender]
      refine ⟨css, rfl, hrender, ?_, ?_, ?_, ?_⟩ <;> simp [value_register]

/-- An engine has made the texts of a list again. -/
structure Recalculated (e e' : Engine) (list : List Recalculation) : Prop where
  /-- the same package -/
  package : e'.package = e.package
  /-- the same device -/
  profile : e'.profile = e.profile
  /-- the same list -/
  recalculations : e'.recalculations = e.recalculations
  /-- a text was made again for the present device, or is the one from before -/
  kept : ∀ key css, kept? e'.cache key = some css →
    (∃ r ∈ list, r.key = key ∧ e.package.renderAt e.profile r.renderer = .ok css) ∨
      (key ∉ list.map (·.key) ∧ kept? e.cache key = some css)
  /-- no key is lost, and none is added but those of the list -/
  keys : ∀ key, (kept? e'.cache key).isSome ↔ key ∈ list.map (·.key) ∨ (kept? e.cache key).isSome

/-- **What making texts again does**, if all of them can be made. -/
theorem recalculate_succeeds (e : Engine) (list : List Recalculation)
    (h : ∀ r ∈ list, ∃ css, e.package.renderAt e.profile r.renderer = .ok css) :
    ∃ updated, (e.recalculate list).value.2 = .ok updated ∧
      Recalculated e (e.recalculate list).value.1 list := by
  induction list generalizing e with
  | nil =>
      exact ⟨[], rfl, rfl, rfl, rfl,
        fun key css hkept => Or.inr ⟨List.not_mem_nil, hkept⟩, by simp [recalculate]⟩
  | cons r rest ih =>
    obtain ⟨css, hcss⟩ := h r List.mem_cons_self
    -- the rest is made again by an engine that keeps the first text already
    obtain ⟨updated, hupdated, hrest⟩ :=
      ih { e with cache := keep e.cache r.key css }
        fun r' hmem => h r' (List.mem_cons_of_mem _ hmem)
    simp only [recalculate, Logged.value_bind, Package.value_renderNamed, hcss,
      Logged.value_pure, hupdated]
    refine ⟨_, rfl, hrest.package, hrest.profile, hrest.recalculations, fun key css' hkept => ?_,
      fun key => ?_⟩
    · rcases hrest.kept key css' hkept with ⟨r', hmem, hr'⟩ | ⟨hnew, hkept'⟩
      · exact Or.inl ⟨r', List.mem_cons_of_mem _ hmem, hr'⟩
      · rw [kept?_keep] at hkept'
        by_cases hkey : r.key = key
        · rw [if_pos hkey] at hkept'
          obtain rfl := Option.some.inj hkept'
          exact Or.inl ⟨r, List.mem_cons_self, hkey, hcss⟩
        · rw [if_neg hkey] at hkept'
          refine Or.inr ⟨fun hmem => ?_, hkept'⟩
          rcases List.mem_cons.1 hmem with rfl | hmem
          · exact hkey rfl
          · exact hnew hmem
    · rw [hrest.keys key, kept?_keep, List.map_cons, List.mem_cons]
      by_cases hkey : r.key = key
      · simp [hkey]
      · simp [hkey, Ne.symm hkey]

end Engine

/-! ## Sessions -/

/-- What an answer with a text is kept under. -/
def Answer.key? (p : Package) (answer : Answer) : Option CacheKey :=
  match answer.outcome with
  | .ok _ => some ⟨p.locate answer.request.path, answer.request.suffix⟩
  | .error _ => none

@[simp] theorem Answer.key?_ok (p : Package) (request : Request) (css : Text) :
    Answer.key? p ⟨request, .ok css⟩ = some ⟨p.locate request.path, request.suffix⟩ := rfl

@[simp] theorem Answer.key?_error (p : Package) (request : Request) (error : RenderError) :
    Answer.key? p ⟨request, .error error⟩ = none := rfl

/-- Something that is done to an engine. -/
inductive Step where
  /-- it is asked for a text -/
  | render (request : Request)
  /-- someone wants to be told of new texts -/
  | subscribe (listener : Listener)
  /-- it goes over to another device, and its listeners are told -/
  | apply (profile : Profile)
  /-- it follows the readings of a device -/
  | follow (readings : List Metrics)
  /-- it goes over to another device, and its listeners are about to be told -/
  | switch (profile : Profile)

/-- An engine, and all answers that it has given. -/
structure Session where
  /-- the engine -/
  engine : Engine
  /-- what it answered, to listeners as well, in order -/
  answers : List Answer

namespace Session

/-- A new engine. -/
def start (p : Package) (profile : Profile) : Session := ⟨{ package := p, profile }, []⟩

/-- The session behind one more step. -/
def step (s : Session) : Step → Session
  | .render request =>
    let (engine, outcome) := (s.engine.render request.path request.suffix).value
    ⟨engine, s.answers ++ [⟨request, outcome⟩]⟩
  | .subscribe listener => { s with engine := s.engine.subscribe listener }
  | .apply profile =>
    match (s.engine.apply profile).value with
    | (engine, .ok notifications) =>
      ⟨engine, s.answers ++ notifications.flatMap Notification.answers⟩
    | (engine, .error _) => { s with engine }
  | .follow readings =>
    let (engine, notifications) := (s.engine.follow readings).value
    ⟨engine, s.answers ++ notifications.flatMap Notification.answers⟩
  | .switch profile => { s with engine := (s.engine.switch profile).value.1 }

/-- The session behind steps. -/
def run (s : Session) (steps : List Step) : Session := steps.foldl step s

/-- The keys of the answers with a text, in the order in which they came first. -/
def keys (s : Session) : List CacheKey :=
  (s.answers.filterMap (Answer.key? s.engine.package)).eraseDups

/-- **The invariant**: no text is stale, and the list is that of the kept texts. -/
structure Coherent (p : Package) (s : Session) : Prop where
  /-- the package is the one it started with -/
  package : s.engine.package = p
  /-- each text is what rendering gives for the present device -/
  fresh : ∀ key css, Engine.kept? s.engine.cache key = some css →
    s.engine.package.renderAt s.engine.profile key.location = .ok css
  /-- the kept texts are those of the list -/
  listed : ∀ key, (Engine.kept? s.engine.cache key).isSome ↔
    key ∈ s.engine.recalculations.map (·.key)
  /-- the list is in the order of the first answers -/
  order : s.engine.recalculations.map (·.key) = s.keys
  /-- nothing is on the list twice -/
  nodup : (s.engine.recalculations.map (·.key)).Nodup
  /-- each text is made again from its own stylesheet -/
  renderer : ∀ r ∈ s.engine.recalculations, r.renderer = r.key.location

variable {p : Package} {s : Session} {e e' : Engine} {answers : List Answer}

theorem coherent_start (p : Package) (profile : Profile) : Coherent p (start p profile) := by
  refine ⟨rfl, fun key css hkept => ?_, fun key => ?_, rfl, List.nodup_nil,
    fun r hmem => absurd hmem List.not_mem_nil⟩
  · cases hkept
  · simp [start, Engine.kept?]

/-! ### What a request preserves -/

theorem eraseDups_concat (list : List CacheKey) (key : CacheKey) :
    (list ++ [key]).eraseDups = if key ∈ list then list.eraseDups else list.eraseDups ++ [key] := by
  rw [List.eraseDups_append]
  by_cases h : key ∈ list
  · simp [h, List.removeAll]
  · simp [h, List.removeAll, List.eraseDups_cons]

/-- An answer without a text leaves everything coherent. -/
theorem Coherent.of_sameTexts (h : Coherent p ⟨e, answers⟩) (hsame : e.SameTexts e')
    (request : Request) (error : RenderError) :
    Coherent p ⟨e', answers ++ [⟨request, .error error⟩]⟩ := by
  have hkeys : keys ⟨e', answers ++ [⟨request, .error error⟩]⟩ = keys ⟨e, answers⟩ := by
    simp [keys, hsame.package, List.filterMap_cons]
  refine ⟨hsame.package.trans h.package, ?_, ?_, ?_, ?_, ?_⟩
  · rw [hsame.package, hsame.profile, hsame.cache]
    exact h.fresh
  · rw [hsame.cache, hsame.recalculations]
    exact h.listed
  · rw [hsame.recalculations, hkeys]
    exact h.order
  · rw [hsame.recalculations]
    exact h.nodup
  · rw [hsame.recalculations]
    exact h.renderer

/-- What is kept behind a request is as fresh as what was kept in front of it. -/
theorem Coherent.fresh_of_keeps (h : Coherent p ⟨e, answers⟩) {key : CacheKey} {css : Text}
    (hkeeps : e.Keeps e' key css) (other : CacheKey) (css' : Text)
    (hkept : Engine.kept? e'.cache other = some css') :
    e'.package.renderAt e'.profile other.location = .ok css' := by
  rw [hkeeps.cache, Engine.kept?_keep] at hkept
  rw [hkeeps.package, hkeeps.profile]
  by_cases heq : key = other
  · rw [if_pos heq] at hkept
    obtain rfl := Option.some.inj hkept
    rw [← heq]
    exact hkeeps.rendered
  · rw [if_neg heq] at hkept
    exact h.fresh other css' hkept

/-- The keys behind an answer with a text: its own comes last if it is new. -/
theorem Coherent.keys_concat (h : Coherent p ⟨e, answers⟩) (hpackage : e'.package = e.package)
    (request : Request) (css : Text) : keys ⟨e', answers ++ [⟨request, .ok css⟩]⟩ =
      if (Engine.kept? e.cache ⟨e.package.locate request.path, request.suffix⟩).isSome then
        keys ⟨e, answers⟩
      else keys ⟨e, answers⟩ ++ [⟨e.package.locate request.path, request.suffix⟩] := by
  -- a key was given out before exactly if it is on the list, and so exactly if its text is kept
  have hmem : (Engine.kept? e.cache ⟨e.package.locate request.path, request.suffix⟩).isSome ↔
      ⟨e.package.locate request.path, request.suffix⟩ ∈
        answers.filterMap (Answer.key? e.package) := by
    rw [h.listed, h.order, keys, List.mem_eraseDups]
  simp only [hmem, keys, hpackage, List.filterMap_append]
  exact eraseDups_concat _ _

/-- Keeping a text that was asked for leaves everything coherent. -/
theorem Coherent.of_keeps (h : Coherent p ⟨e, answers⟩) (request : Request) {css : Text}
    (hkeeps : e.Keeps e' ⟨e.package.locate request.path, request.suffix⟩ css) :
    Coherent p ⟨e', answers ++ [⟨request, .ok css⟩]⟩ := by
  have hkeys := h.keys_concat hkeeps.package request css
  have hfresh := h.fresh_of_keeps hkeeps
  obtain ⟨-, hpackage, -, hcache, hrecalculations⟩ := hkeeps
  generalize (⟨e.package.locate request.path, request.suffix⟩ : CacheKey) = key at *
  by_cases hold : (Engine.kept? e.cache key).isSome
  · -- the key is on the list already, so only its text is replaced
    have hlist : e'.recalculations = e.recalculations := by
      rw [hrecalculations, if_neg (by simp [Option.isSome_iff_ne_none.1 hold])]
    refine ⟨hpackage.trans h.package, hfresh, fun other => ?_, ?_, ?_, ?_⟩
    · rw [hlist, hcache, Engine.kept?_keep, ← h.listed]
      by_cases heq : key = other
      · simp [← heq, hold]
      · simp [heq]
    · rw [hlist, hkeys, if_pos hold]
      exact h.order
    · rw [hlist]
      exact h.nodup
    · rw [hlist]
      exact h.renderer
  · -- the key is new, so it comes behind all others
    have hnone : Engine.kept? e.cache key = none := Option.not_isSome_iff_eq_none.1 hold
    have hlist : e'.recalculations = e.recalculations ++ [⟨key, key.location⟩] := by
      rw [hrecalculations, if_pos (by simp [hnone])]
    refine ⟨hpackage.trans h.package, hfresh, fun other => ?_, ?_, ?_, fun r hr => ?_⟩
    · rw [hlist, hcache, Engine.kept?_keep, List.map_append, List.mem_append, ← h.listed]
      by_cases heq : key = other
      · simp [heq]
      · simp [heq, Ne.symm heq]
    · rw [hlist, hkeys, if_neg hold, List.map_append, h.order]
      rfl
    · rw [hlist, List.map_append]
      refine List.nodup_append.2 ⟨h.nodup, by simp, fun a ha b hb => ?_⟩
      rw [List.mem_singleton.1 hb]
      rintro rfl
      exact hold ((h.listed a).2 ha)
    · rw [hlist] at hr
      rcases List.mem_append.1 hr with hr | hr
      · exact h.renderer r hr
      · rw [List.mem_singleton.1 hr]

/-- **A request leaves everything coherent**, whatever is asked. -/
theorem Coherent.render (h : Coherent p ⟨e, answers⟩) (request : Request) :
    Coherent p ⟨(e.render request.path request.suffix).value.1,
      answers ++ [⟨request, (e.render request.path request.suffix).value.2⟩]⟩ := by
  rcases e.render_cases request.path request.suffix with
    ⟨error, herror, hsame⟩ | ⟨css, hcss, hkeeps⟩
  · rw [herror]
    exact h.of_sameTexts hsame request error
  · rw [hcss]
    exact h.of_keeps request hkeeps

/-- What someone asks, one request after the other, leaves everything coherent. -/
theorem Coherent.answer (h : Coherent p ⟨e, answers⟩) (inquiry : Inquiry) :
    Coherent p ⟨(e.answer inquiry).value.1, answers ++ (e.answer inquiry).value.2⟩ := by
  induction inquiry generalizing e answers with
  | done =>
    rw [Engine.answer, Logged.value_pure, List.append_nil]
    exact h
  | ask request further ih =>
    have hrest := ih (e.render request.path request.suffix).value.2 (h.render request)
    rw [List.append_assoc] at hrest
    exact hrest

/-- Telling listeners leaves everything coherent, whatever they ask. -/
theorem Coherent.tellAll (h : Coherent p ⟨e, answers⟩)
    (calls : List (Nat × Listener × CacheKey × Text)) :
    Coherent p ⟨(e.tellAll calls).value.1,
      answers ++ (e.tellAll calls).value.2.flatMap Notification.answers⟩ := by
  induction calls generalizing e answers with
  | nil =>
    rw [Engine.tellAll, Logged.value_pure, List.flatMap_nil, List.append_nil]
    exact h
  | cons call calls ih =>
    obtain ⟨index, listener, key, css⟩ := call
    -- whatever the listener asks, the next one is told by a coherent engine
    have hrest := ih (h.answer (listener.told key css))
    rw [List.append_assoc] at hrest
    exact hrest

/-! ### What a change of the device preserves -/

/-- **A change of the device never fails** on a coherent session, and leaves it coherent. -/
theorem Coherent.switch (h : Coherent p ⟨e, answers⟩) (profile : Profile) :
    ∃ updated, (e.switch profile).value.2 = .ok updated ∧
      Coherent p ⟨(e.switch profile).value.1, answers⟩ := by
  -- what is on the list was rendered for the device so far, and so renders for any other
  have hrenders : ∀ r ∈ e.recalculations, ∃ css, e.package.renderAt profile r.renderer =
      .ok css := by
    intro r hr
    obtain ⟨css, hkept⟩ := Option.isSome_iff_exists.1 ((h.listed r.key).2 (List.mem_map_of_mem hr))
    rw [h.renderer r hr]
    exact Package.renderAt_succeeds_for_all (h.fresh r.key css hkept) profile
  obtain ⟨updated, hupdated, hdone⟩ :=
    Engine.recalculate_succeeds { e with profile } e.recalculations hrenders
  refine ⟨updated, hupdated, hdone.package.trans h.package, fun key css hkept => ?_,
    fun key => ?_, ?_, ?_, ?_⟩
  · rw [Engine.switch] at hkept ⊢
    rw [hdone.package, hdone.profile]
    rcases hdone.kept key css hkept with ⟨r, hr, rfl, hcss⟩ | ⟨hout, hold⟩
    · rw [← h.renderer r hr]
      exact hcss
    · -- every key that is kept is on the list, so no text is left as it was
      exact absurd ((h.listed key).1 (Option.isSome_iff_exists.2 ⟨css, hold⟩)) hout
  · rw [Engine.switch, hdone.keys, hdone.recalculations]
    exact ⟨fun hkey => hkey.elim id (h.listed key).1, Or.inl⟩
  · rw [Engine.switch, hdone.recalculations, keys, hdone.package]
    exact h.order
  · rw [Engine.switch, hdone.recalculations]
    exact h.nodup
  · rw [Engine.switch, hdone.recalculations]
    exact h.renderer

/-- The same with listeners. -/
theorem Coherent.apply (h : Coherent p ⟨e, answers⟩) (profile : Profile) :
    ∃ notifications, (e.apply profile).value.2 = .ok notifications ∧
      Coherent p ⟨(e.apply profile).value.1,
        answers ++ notifications.flatMap Notification.answers⟩ := by
  obtain ⟨updated, hupdated, hswitch⟩ := h.switch profile
  simp only [Engine.apply, Logged.value_bind, hupdated, Logged.value_pure]
  exact ⟨_, rfl, hswitch.tellAll _⟩

/-- The same when the device is followed. -/
theorem Coherent.follow (h : Coherent p ⟨e, answers⟩) (readings : List Metrics) :
    Coherent p ⟨(e.follow readings).value.1,
      answers ++ (e.follow readings).value.2.flatMap Notification.answers⟩ := by
  rw [Engine.follow]
  cases readings.getLast? with
  | none =>
    rw [Logged.value_pure, List.flatMap_nil, List.append_nil]
    exact h
  | some metrics =>
    obtain ⟨notifications, hok, happly⟩ := h.apply (.ofMetrics metrics)
    simp only [Logged.value_bind]
    rw [show (e.apply (.ofMetrics metrics)).value =
      ((e.apply (.ofMetrics metrics)).value.1, .ok notifications) from Prod.ext rfl hok]
    exact happly

/-- **Every step leaves a session coherent.** -/
theorem Coherent.step (h : Coherent p s) (step : Step) : Coherent p (s.step step) := by
  cases step with
  | render request => exact h.render request
  | subscribe listener => exact ⟨h.package, h.fresh, h.listed, h.order, h.nodup, h.renderer⟩
  | apply profile =>
    obtain ⟨notifications, hok, happly⟩ := h.apply profile
    rw [Session.step, show (s.engine.apply profile).value =
      ((s.engine.apply profile).value.1, .ok notifications) from Prod.ext rfl hok]
    exact happly
  | follow readings => exact h.follow readings
  | switch profile =>
    obtain ⟨-, -, hswitch⟩ := h.switch profile
    exact hswitch

/-- **Every session is coherent.** -/
theorem coherent_run (p : Package) (profile : Profile) (steps : List Step) :
    Coherent p ((start p profile).run steps) := by
  suffices h : ∀ s, Coherent p s → Coherent p (s.run steps) from h _ (coherent_start p profile)
  induction steps with
  | nil => exact fun s h => h
  | cons step steps ih => exact fun s h => ih (s.step step) (h.step step)

/-! ### What coherence means for the users of an engine -/

/-- A text that is kept for a path is what rendering that path gives, however the path is
spelled. -/
theorem Coherent.render_of_cached? (h : Coherent p s) {path suffix css : Text}
    (hcached : s.engine.cached? path suffix = some css) :
    (p.render s.engine.profile path).value = .ok css := by
  have hfresh := h.fresh _ css hcached
  rw [h.package] at hfresh
  rw [Package.render, Package.value_renderNamed, ← Package.renderAt_root_join]
  exact hfresh

/-- A text is kept for a path if and only if one was asked for, with success, under the same
location. -/
theorem Coherent.cached?_isSome_iff (h : Coherent p s) (path suffix : Text) :
    (s.engine.cached? path suffix).isSome ↔
      ∃ answer ∈ s.answers, (∃ css, answer.outcome = .ok css) ∧
        p.locate answer.request.path = p.locate path ∧ answer.request.suffix = suffix := by
  rw [Engine.cached?, h.listed, h.order, keys, List.mem_eraseDups, List.mem_filterMap, h.package]
  refine exists_congr fun answer => and_congr_right fun _ => ?_
  obtain ⟨request, outcome⟩ := answer
  cases outcome with
  | error error => simp
  | ok css => simp

/-- **The texts of an engine are never stale.** Whatever steps were taken, with whatever listeners:
every kept text is what rendering its stylesheet gives for the present device; the list of what is
made again holds each key once, these are the keys of the kept texts, and they stand in the order of
the first answers; the next change of the device does not fail; a request that fails changes no
text, no key and no device; and a text is kept for a path exactly if one was given out for its
location. -/
theorem texts_never_stale (p : Package) (profile : Profile) (steps : List Step) :
    let s := (start p profile).run steps
    (∀ key css, Engine.kept? s.engine.cache key = some css →
      p.renderAt s.engine.profile key.location = .ok css) ∧
      (∀ path suffix css, s.engine.cached? path suffix = some css →
        (p.render s.engine.profile path).value = .ok css) ∧
      (s.engine.recalculations.map (·.key)).Nodup ∧
      (∀ key, key ∈ s.engine.recalculations.map (·.key) ↔
        (Engine.kept? s.engine.cache key).isSome) ∧
      s.engine.recalculations.map (·.key) = (s.answers.filterMap (Answer.key? p)).eraseDups ∧
      (∀ profile', ∃ notifications, (s.engine.apply profile').value.2 = .ok notifications) ∧
      (∀ path suffix error, (s.engine.render path suffix).value.2 = .error error →
        s.engine.SameTexts (s.engine.render path suffix).value.1) ∧
      ∀ path suffix, (s.engine.cached? path suffix).isSome ↔
        ∃ answer ∈ s.answers, (∃ css, answer.outcome = .ok css) ∧
          p.locate answer.request.path = p.locate path ∧ answer.request.suffix = suffix := by
  intro s
  have h : Coherent p s := coherent_run p profile steps
  refine ⟨fun key css hkept => ?_, fun _ _ _ => h.render_of_cached?, h.nodup,
    fun key => (h.listed key).symm, ?_, fun profile' => ?_, fun path suffix error herror => ?_,
    h.cached?_isSome_iff⟩
  · rw [← h.package]
    exact h.fresh key css hkept
  · rw [← h.package]
    exact h.order
  · obtain ⟨notifications, hok, -⟩ := h.apply profile'
    exact ⟨notifications, hok⟩
  · rcases s.engine.render_cases path suffix with ⟨_, _, hsame⟩ | ⟨css, hcss, _⟩
    · exact hsame
    · rw [hcss] at herror
      cases herror

end Session

end MiniSheet
