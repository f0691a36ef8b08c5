import MiniSheet.Proofs.EngineCoherence

/-!
# Who is told of what

A change of the device is followed by a round of calls: every listener is told of every text that
was made again. A listener may ask the engine for texts while the round is going on, which changes
the very cache and list that the round was made from. The calls do not depend on that
(`Session.round_is_exact`): they were laid down when the texts were made again, and all that a
request can do is to add texts for the same device, behind those that are there (`Engine.Grows`).

For all that the engine sees of it, a round is a list of requests (`Engine.ask`), those of the first
call, then those of the second, and so on. So what holds after any requests holds in front of each
call, during it and after the round, whatever the listeners do in between.
-/

namespace MiniSheet

namespace Engine

variable {e : Engine}

/-! ## Requests one after the other -/

/-- Ask for texts, one after the other. -/
def ask (e : Engine) (requests : List Request) : Engine :=
  requests.foldl (fun e request => (e.render request.path request.suffix).value.1) e

theorem ask_append (e : Engine) (first second : List Request) :
    e.ask (first ++ second) = (e.ask first).ask second :=
  List.foldl_append

/-- An inquiry is a list of requests, once the answers are known. -/
theorem answer_eq_ask (e : Engine) (inquiry : Inquiry) :
    (e.answer inquiry).value.1 = e.ask ((e.answer inquiry).value.2.map Answer.request) := by
  induction inquiry generalizing e with
  | done => rfl
  | ask request further ih => exact ih (e.render request.path request.suffix).value.2 _

/-- And so is a round of calls. -/
theorem tellAll_eq_ask (e : Engine) (calls : List (Nat × Listener × CacheKey × Text)) :
    (e.tellAll calls).value.1 =
      e.ask (((e.tellAll calls).value.2.flatMap Notification.answers).map Answer.request) := by
  induction calls generalizing e with
  | nil => rfl
  | cons call calls ih =>
    obtain ⟨index, listener, key, css⟩ := call
    simp only [tellAll, Logged.value_bind, Logged.value_pure, List.flatMap_cons,
      List.map_append, ask_append, ← answer_eq_ask]
    exact ih _

/-- All that requests can do: they add texts, for the same device. -/
structure Grows (e e' : Engine) : Prop where
  /-- the same package -/
  package : e'.package = e.package
  /-- the same device -/
  profile : e'.profile = e.profile
  /-- the list goes on where it ended -/
  recalculations : e.recalculations <+: e'.recalculations
  /-- the same listeners -/
  listeners : e'.listeners = e.listeners

theorem Grows.trans {e' e'' : Engine} (h : e.Grows e') (h' : e'.Grows e'') : e.Grows e'' :=
  ⟨h'.package.trans h.package, h'.profile.trans h.profile, h.recalculations.trans h'.recalculations,
    h'.listeners.trans h.listeners⟩

theorem listeners_render (e : Engine) (path suffix : Text) :
    (e.render path suffix).value.1.listeners = e.listeners := by
  rcases hget : e.package.get? path with _ | sheet
  · rw [render, hget]
    rfl
  · simp only [render, hget, Logged.value_bind, Package.value_renderNamed, package_withRenderer,
      profile_withRenderer]
    rcases e.package.renderAt e.profile sheet.location with error | css
    · exact listeners_withRenderer _ _
    · simp [value_register]

theorem grows_render (e : Engine) (path suffix : Text) :
    e.Grows (e.render path suffix).value.1 := by
  rcases e.render_cases path suffix with ⟨_, _, hsame⟩ | ⟨css, _, hkeeps⟩
  · exact ⟨hsame.package, hsame.profile, hsame.recalculations ▸ List.prefix_rfl,
      e.listeners_render path suffix⟩
  · refine ⟨hkeeps.package, hkeeps.profile, ?_, e.listeners_render path suffix⟩
    rw [hkeeps.recalculations]
    split
    · exact List.prefix_append _ _
    · exact List.prefix_rfl

theorem grows_ask (e : Engine) (requests : List Request) : e.Grows (e.ask requests) := by
  induction requests generalizing e with
  | nil => exact ⟨rfl, rfl, List.prefix_rfl, rfl⟩
  | cons request requests ih => exact (e.grows_render request.path request.suffix).trans (ih _)

/-! ## Calls -/

/-- Making texts again changes texts and nothing else. -/
theorem exists_cache_of_recalculate (e : Engine) (list : List Recalculation) :
    ∃ cache, (e.recalculate list).value.1 = { e with cache } := by
  induction list generalizing e with
  | nil => exact ⟨e.cache, rfl⟩
  | cons r list ih =>
    simp only [recalculate, Logged.value_bind, Package.value_renderNamed]
    rcases e.package.renderAt e.profile r.renderer with error | css
    · exact ⟨e.cache, rfl⟩
    · obtain ⟨cache, hcache⟩ := ih { e with cache := keep e.cache r.key css }
      exact ⟨cache, hcache⟩

/-- The new texts are those of the list, in its order, for the present device. -/
theorem texts_of_recalculate {list : List Recalculation} {texts : List (CacheKey × Text)}
    (h : (e.recalculate list).value.2 = .ok texts) :
    texts.map Prod.fst = list.map (·.key) ∧ ∀ entry ∈ texts, ∃ r ∈ list, r.key = entry.1 ∧
      e.package.renderAt e.profile r.renderer = .ok entry.2 := by
  induction list generalizing e texts with
  | nil =>
    obtain rfl := Except.ok.inj h
    exact ⟨rfl, fun entry hmem => absurd hmem List.not_mem_nil⟩
  | cons r list ih =>
    simp only [recalculate, Logged.value_bind, Package.value_renderNamed] at h
    rcases hrender : e.package.renderAt e.profile r.renderer with error | css
    · rw [hrender] at h
      cases h
    · rw [hrender] at h
      obtain ⟨rest, hrest, rfl⟩ := Outcome.map_eq_ok h
      obtain ⟨hkeys, htexts⟩ := ih hrest
      refine ⟨by rw [List.map_cons, List.map_cons, hkeys], fun entry hmem => ?_⟩
      rcases List.mem_cons.1 hmem with rfl | hmem
      · exact ⟨r, List.mem_cons_self, rfl, hrender⟩
      · obtain ⟨other, hother, hentry⟩ := htexts entry hmem
        exact ⟨other, List.mem_cons_of_mem _ hother, hentry⟩

/-- Every call is made: there is one notification for each, in the same order. -/
theorem map_tellAll (e : Engine) (calls : List (Nat × Listener × CacheKey × Text)) :
    (e.tellAll calls).value.2.map (fun note => (note.key, note.css, note.listener)) =
      calls.map fun call => (call.2.2.1, call.2.2.2, call.1) := by
  induction calls generalizing e with
  | nil => rfl
  | cons call calls ih => exact congrArg (List.cons _) (ih _)

/-- A call is made when those in front of it are over, and what it notes down is what its listener
asked then. -/
theorem exists_call_of_tellAll {calls : List (Nat × Listener × CacheKey × Text)}
    {done rest : List Notification} {note : Notification}
    (h : (e.tellAll calls).value.2 = done ++ note :: rest) :
    ∃ listener, (note.listener, listener, note.key, note.css) ∈ calls ∧
      note.answers = ((e.ask ((done.flatMap Notification.answers).map Answer.request)).answer
        (listener.told note.key note.css)).value.2 := by
  induction done generalizing e calls with
  | nil =>
    obtain _ | ⟨⟨index, listener, key, css⟩, calls⟩ := calls
    · cases h
    · obtain ⟨rfl, -⟩ := List.cons.inj h
      exact ⟨listener, List.mem_cons_self, rfl⟩
  | cons first done ih =>
    obtain _ | ⟨⟨index, listener, key, css⟩, calls⟩ := calls
    · cases h
    · obtain ⟨rfl, hrest⟩ := List.cons.inj h
      obtain ⟨other, hmem, hanswers⟩ := ih hrest
      refine ⟨other, List.mem_cons_of_mem _ hmem, ?_⟩
      rw [hanswers, List.flatMap_cons, List.map_append, ask_append, ← answer_eq_ask]

theorem mem_calls {listeners : List Listener} {texts : List (CacheKey × Text)} {index : Nat}
    {listener : Listener} {key : CacheKey} {css : Text} :
    (index, listener, key, css) ∈ calls listeners texts ↔
      (key, css) ∈ texts ∧ listeners[index]? = some listener := by
  simp only [calls, List.mem_flatMap, List.mem_map, Prod.mk.injEq, Prod.exists,
    List.mk_mem_zipIdx_iff_getElem?]
  constructor
  · rintro ⟨_, _, hmem, _, _, hget, rfl, rfl, rfl, rfl⟩
    exact ⟨hmem, hget⟩
  · rintro ⟨hmem, hget⟩
    exact ⟨key, css, hmem, listener, index, hget, rfl, rfl, rfl, rfl⟩

/-- The first text goes to every listener, then the second, and so on. -/
theorem map_calls (listeners : List Listener) (texts : List (CacheKey × Text)) :
    ((calls listeners texts).map fun call => (call.2.2.1, call.2.2.2, call.1)) =
      texts.flatMap fun entry =>
        (List.range listeners.length).map fun index => (entry.1, entry.2, index) := by
  rw [calls, List.map_flatMap, List.range_eq_range', ← List.zipIdx_map_snd]
  refine congrArg (List.flatMap · texts) (funext fun entry => ?_)
  rw [List.map_map, List.map_map]
  rfl

/-- What a round of calls tells: the first text to every listener, then the second, and so on. -/
theorem map_round (e : Engine) (listeners : List Listener) (texts : List (CacheKey × Text)) :
    (e.tellAll (calls listeners texts)).value.2.map
        (fun note => (note.key, note.css, note.listener)) =
      texts.flatMap fun entry =>
        (List.range listeners.length).map fun index => (entry.1, entry.2, index) :=
  (map_tellAll _ _).trans (map_calls _ _)

theorem length_round (e : Engine) (listeners : List Listener) (texts : List (CacheKey × Text)) :
    (e.tellAll (calls listeners texts)).value.2.length = texts.length * listeners.length := by
  rw [← List.length_map, e.map_round listeners texts]
  induction texts with
  | nil => exact (Nat.zero_mul _).symm
  | cons entry texts ih =>
    rw [List.flatMap_cons, List.length_append, ih, List.length_map, List.length_range,
      List.length_cons, Nat.succ_mul, Nat.add_comm]

/-- No other text is told. -/
theorem mem_texts_of_round {listeners : List Listener} {texts : List (CacheKey × Text)}
    {note : Notification} (h : note ∈ (e.tellAll (calls listeners texts)).value.2) :
    (note.key, note.css) ∈ texts := by
  obtain ⟨done, rest, hsplit⟩ := List.append_of_mem h
  obtain ⟨listener, hcall, -⟩ := exists_call_of_tellAll hsplit
  exact (mem_calls.1 hcall).1

theorem listeners_switch (e : Engine) (profile : Profile) :
    (e.switch profile).value.1.listeners = e.listeners := by
  obtain ⟨cache, hcache⟩ := exists_cache_of_recalculate { e with profile } e.recalculations
  rw [switch, hcache]

/-- A change of the device is a switch and a round of calls. -/
theorem apply_of_switch {profile : Profile} {texts : List (CacheKey × Text)}
    (h : (e.switch profile).value.2 = .ok texts) :
    (e.apply profile).value =
      (((e.switch profile).value.1.tellAll (calls e.listeners texts)).value.1,
        .ok ((e.switch profile).value.1.tellAll (calls e.listeners texts)).value.2) := by
  simp only [apply, Logged.value_bind, h, Logged.value_pure, listeners_switch]

/-- A round of calls leaves the listeners as they are. -/
theorem listeners_apply (e : Engine) (profile : Profile) :
    (e.apply profile).value.1.listeners = e.listeners := by
  rcases hswitch : (e.switch profile).value.2 with error | texts
  · simp only [apply, Logged.value_bind, hswitch, Logged.value_pure, listeners_switch]
  · rw [apply_of_switch hswitch, tellAll_eq_ask, (grows_ask _ _).listeners, listeners_switch]

theorem listeners_follow (e : Engine) (readings : List Metrics) :
    (e.follow readings).value.1.listeners = e.listeners := by
  rw [follow]
  cases readings.getLast? with
  | none => rfl
  | some metrics =>
    have hlisteners := e.listeners_apply (.ofMetrics metrics)
    simp only [Logged.value_bind]
    generalize (e.apply (.ofMetrics metrics)).value = outcome at hlisteners ⊢
    obtain ⟨after, error | notifications⟩ := outcome
    · exact hlisteners
    · exact hlisteners

end Engine

/-- Who comes to listen in a step. -/
def Step.listener? : Step → Option Listener
  | .subscribe listener => some listener
  | .render _ | .apply _ | .follow _ | .switch _ => none

namespace Session

variable {p : Package} {s : Session} {e : Engine} {answers : List Answer}

/-! ## Texts stay -/

/-- Requests leave everything coherent. -/
theorem Coherent.ask (h : Coherent p ⟨e, answers⟩) (requests : List Request) :
    ∃ answers', Coherent p ⟨e.ask requests, answers'⟩ := by
  induction requests generalizing e answers with
  | nil => exact ⟨answers, h⟩
  | cons request requests ih => exact ih (h.render request)

/-- A text that is on the list is kept, and it is the one for the present device. -/
theorem Coherent.kept?_of_mem (h : Coherent p ⟨e, answers⟩) {key : CacheKey} {css : Text}
    (hmem : key ∈ e.recalculations.map (·.key))
    (hcss : p.renderAt e.profile key.location = .ok css) : Engine.kept? e.cache key = some css := by
  obtain ⟨css', hkept⟩ := Option.isSome_iff_exists.1 ((h.listed key).2 hmem)
  have hfresh := h.fresh key css' hkept
  rw [h.package, hcss] at hfresh
  rw [hkept, Except.ok.inj hfresh]

/-- It is the same after any requests, by whatever path it is looked up. -/
theorem Coherent.cached?_ask (h : Coherent p ⟨e, answers⟩) {key : CacheKey} {css path : Text}
    (hmem : key ∈ e.recalculations.map (·.key)) (hcss : p.renderAt e.profile key.location = .ok css)
    (requests : List Request) (hpath : p.locate path = key.location) :
    (e.ask requests).cached? path key.suffix = some css := by
  obtain ⟨answers', hask⟩ := h.ask requests
  have hgrows := e.grows_ask requests
  have hpackage : (e.ask requests).package = p := hask.package
  rw [Engine.cached?, hpackage, hpath]
  refine hask.kept?_of_mem ((hgrows.recalculations.map _).subset hmem) ?_
  rw [hgrows.profile]
  exact hcss

/-- What a switch of the device makes: the texts of the list, for the new device. They stay through
all requests. -/
theorem Coherent.texts_of_switch (h : Coherent p ⟨e, answers⟩) (profile : Profile) :
    ∃ texts, (e.switch profile).value.2 = .ok texts ∧
      texts.map Prod.fst = e.recalculations.map (·.key) ∧
      (∀ entry ∈ texts, p.renderAt profile entry.1.location = .ok entry.2) ∧ ∀ entry ∈ texts,
        ∀ requests path, p.locate path = entry.1.location →
          ((e.switch profile).value.1.ask requests).cached? path entry.1.suffix = some entry.2 := by
  obtain ⟨texts, htexts, hswitch⟩ := h.switch profile
  obtain ⟨hkeys, hrendered⟩ := Engine.texts_of_recalculate htexts
  have hpackage : e.package = p := h.package
  have hnew (entry : CacheKey × Text) (hmem : entry ∈ texts) :
      p.renderAt profile entry.1.location = .ok entry.2 := by
    obtain ⟨r, hr, hkey, hcss⟩ := hrendered entry hmem
    rw [h.renderer r hr, hkey] at hcss
    rw [← hpackage]
    exact hcss
  refine ⟨texts, htexts, hkeys, hnew, fun entry hmem requests path hpath => ?_⟩
  obtain ⟨cache, hcache⟩ := Engine.exists_cache_of_recalculate { e with profile } e.recalculations
  have hlist : (e.switch profile).value.1.recalculations = e.recalculations := by
    rw [Engine.switch, hcache]
  have hprofile : (e.switch profile).value.1.profile = profile := by rw [Engine.switch, hcache]
  refine hswitch.cached?_ask ?_ ?_ requests hpath
  · rw [hlist, ← hkeys]
    exact List.mem_map_of_mem hmem
  · rw [hprofile]
    exact hnew entry hmem

/-! ## Keys stay -/

theorem answers_step (s : Session) (step : Step) : s.answers <+: (s.step step).answers := by
  cases step with
  | render request => exact List.prefix_append _ _
  | subscribe listener => exact List.prefix_rfl
  | apply profile =>
    rw [Session.step]
    split
    · exact List.prefix_append _ _
    · exact List.prefix_rfl
  | follow readings => exact List.prefix_append _ _
  | switch profile => exact List.prefix_rfl

theorem answers_run (s : Session) (steps : List Step) : s.answers <+: (s.run steps).answers := by
  induction steps generalizing s with
  | nil => exact List.prefix_rfl
  | cons step steps ih => exact (s.answers_step step).trans (ih (s.step step))

theorem Coherent.run (h : Coherent p s) (steps : List Step) : Coherent p (s.run steps) := by
  induction steps generalizing s with
  | nil => exact h
  | cons step steps ih => exact ih (h.step step)

/-- What is on the list stays there. -/
theorem Coherent.mem_run (h : Coherent p s) {key : CacheKey}
    (hmem : key ∈ s.engine.recalculations.map (·.key)) (steps : List Step) :
    key ∈ (s.run steps).engine.recalculations.map (·.key) := by
  have hrun := h.run steps
  rw [h.order, keys, List.mem_eraseDups, h.package] at hmem
  rw [hrun.order, keys, List.mem_eraseDups, hrun.package]
  exact ((s.answers_run steps).filterMap _).subset hmem

/-- The keys that requests add, in the order in which they were first given a text. -/
def newKeys (p : Package) (keys : List CacheKey) (answers : List Answer) : List CacheKey :=
  ((answers.filterMap (Answer.key? p)).filter fun key => !keys.contains key).eraseDups

theorem notMem_of_mem_newKeys {keys : List CacheKey} {key : CacheKey}
    (h : key ∈ newKeys p keys answers) : key ∉ keys := by
  have hfilter := (List.mem_filter.1 (List.mem_eraseDups.1 h)).2
  simpa using hfilter

theorem engine_step_apply (s : Session) (profile : Profile) :
    (s.step (.apply profile)).engine = (s.engine.apply profile).value.1 := by
  rw [Session.step]
  split <;> rename_i happly <;> rw [happly]

/-! ## Listeners stay -/

/-- A step adds at most the listener that comes with it. -/
theorem listeners_step (s : Session) (step : Step) :
    (s.step step).engine.listeners = s.engine.listeners ++ step.listener?.toList := by
  cases step with
  | subscribe listener => rfl
  | render request => exact (s.engine.listeners_render _ _).trans (List.append_nil _).symm
  | apply profile =>
    rw [engine_step_apply, Engine.listeners_apply]
    exact (List.append_nil _).symm
  | follow readings => exact (s.engine.listeners_follow readings).trans (List.append_nil _).symm
  | switch profile => exact (s.engine.listeners_switch profile).trans (List.append_nil _).symm

/-- The listeners are those that came, in order. -/
theorem listeners_run (s : Session) (steps : List Step) :
    (s.run steps).engine.listeners = s.engine.listeners ++ steps.filterMap Step.listener? := by
  induction steps generalizing s with
  | nil => exact (List.append_nil _).symm
  | cons step steps ih =>
    refine (ih (s.step step)).trans ?_
    rw [listeners_step, List.append_assoc]
    refine congrArg (s.engine.listeners ++ ·) ?_
    rcases hlistener : step.listener? with _ | listener
    · rw [List.filterMap_cons_none hlistener]
      rfl
    · rw [List.filterMap_cons_some hlistener]
      rfl

/-! ## New keys -/

/-- After further answers the list holds what it held, and then the new keys. -/
theorem Coherent.map_key_append {answers' : List Answer} {e' : Engine} (h : Coherent p ⟨e, answers⟩)
    (h' : Coherent p ⟨e', answers ++ answers'⟩) : e'.recalculations.map (·.key) =
      e.recalculations.map (·.key) ++ newKeys p (e.recalculations.map (·.key)) answers' := by
  have horder : e.recalculations.map (·.key) = (answers.filterMap (Answer.key? p)).eraseDups := by
    rw [h.order, keys, h.package]
  rw [h'.order, keys, h'.package, List.filterMap_append, List.eraseDups_append, horder, newKeys,
    List.removeAll]
  refine congrArg (_ ++ List.eraseDups ·) (List.filter_congr fun key _ => ?_)
  rw [List.elem_eq_contains, Bool.eq_iff_iff]
  simp [List.mem_eraseDups]

/-! ## Rounds -/

/-- A round tells every listener of every text. -/
theorem Coherent.told_of_mem (h : Coherent p s) (profile : Profile) :
    ∃ notifications, (s.engine.apply profile).value.2 = .ok notifications ∧
      ∀ key ∈ s.engine.recalculations.map (·.key), ∀ index < s.engine.listeners.length,
        ∃ note ∈ notifications, note.key = key ∧ note.listener = index ∧
          p.renderAt profile key.location = .ok note.css := by
  obtain ⟨texts, htexts, hkeys, hrendered, -⟩ := h.texts_of_switch profile
  rw [Engine.apply_of_switch htexts]
  refine ⟨_, rfl, fun key hkey index hindex => ?_⟩
  rw [← hkeys] at hkey
  obtain ⟨entry, hentry, rfl⟩ := List.mem_map.1 hkey
  have hcall : (entry.1, entry.2, index) ∈
      ((s.engine.switch profile).value.1.tellAll
        (Engine.calls s.engine.listeners texts)).value.2.map
        fun note => (note.key, note.css, note.listener) := by
    rw [Engine.map_round]
    exact List.mem_flatMap.2 ⟨entry, hentry, List.mem_map_of_mem (List.mem_range.2 hindex)⟩
  obtain ⟨note, hnote, heq⟩ := List.mem_map.1 hcall
  obtain ⟨hkey, hcss, hlistener⟩ : note.key = entry.1 ∧ note.css = entry.2 ∧
      note.listener = index := by
    simpa using heq
  exact ⟨note, hnote, hkey, hlistener, hcss ▸ hrendered entry hentry⟩

/-- **A round is exact.** In every session, with whatever listeners, a change of the device tells
each listener once of each text that is on the list: all listeners of the first text, then all of
the second, and so on. The listeners are those that came in the session up to then, in the order
they came. The text is the one for the new device. It is what looking it up gives during the call,
whatever was asked for in the round up to then, and it is still that after the round. What listeners
ask for first in a round comes behind all that is on the list; nobody is told of it in this round,
and every listener in every later one. -/
theorem round_is_exact (p : Package) (profile : Profile) (steps : List Step) (profile' : Profile) :
    let s := (start p profile).run steps
    let keys := s.engine.recalculations.map (·.key)
    let switched := (s.engine.switch profile').value.1
    let after := (s.engine.apply profile').value.1
    s.engine.listeners = steps.filterMap Step.listener? ∧
    ∃ (texts : List (CacheKey × Text)) (notifications : List Notification),
      (s.engine.apply profile').value.2 = .ok notifications ∧
      texts.map Prod.fst = keys ∧
      (∀ entry ∈ texts, p.renderAt profile' entry.1.location = .ok entry.2) ∧
      notifications.length = keys.length * s.engine.listeners.length ∧
      notifications.map (fun note => (note.key, note.css, note.listener)) =
        texts.flatMap (fun entry =>
          (List.range s.engine.listeners.length).map fun index => (entry.1, entry.2, index)) ∧
      (∀ done note rest, notifications = done ++ note :: rest →
        let front := switched.ask ((done.flatMap Notification.answers).map Answer.request)
        (∃ listener, s.engine.listeners[note.listener]? = some listener ∧
          note.answers = (front.answer (listener.told note.key note.css)).value.2) ∧
        ∀ requests path, p.locate path = note.key.location →
          (front.ask requests).cached? path note.key.suffix = some note.css) ∧
      after = switched.ask ((notifications.flatMap Notification.answers).map Answer.request) ∧
      (∀ entry ∈ texts, ∀ path, p.locate path = entry.1.location →
        after.cached? path entry.1.suffix = some entry.2) ∧
      let new := newKeys p keys (notifications.flatMap Notification.answers)
      after.recalculations.map (·.key) = keys ++ new ∧
      (∀ key ∈ new, ∀ note ∈ notifications, note.key ≠ key) ∧
      ∀ steps' profile'',
        let later := ((s.step (.apply profile')).run steps').engine
        ∃ notifications', (later.apply profile'').value.2 = .ok notifications' ∧
          ∀ key ∈ new, ∀ index < later.listeners.length, ∃ note ∈ notifications', note.key = key ∧
            note.listener = index ∧ p.renderAt profile'' key.location = .ok note.css := by
  intro s
  have h : Coherent p s := coherent_run p profile steps
  have hlisteners : s.engine.listeners = steps.filterMap Step.listener? :=
    (start p profile).listeners_run steps
  clear_value s
  intro keys switched after
  obtain ⟨texts, htexts, hkeys, hrendered, hcached⟩ := h.texts_of_switch profile'
  have hkeys : texts.map Prod.fst = keys := hkeys
  obtain ⟨notifications, hnotifications⟩ :
      ∃ notifications, (switched.tellAll (Engine.calls s.engine.listeners texts)).value.2 =
        notifications := ⟨_, rfl⟩
  have happly := Engine.apply_of_switch htexts
  have hok : (s.engine.apply profile').value.2 = .ok notifications := by
    rw [happly, ← hnotifications]
  have hafter : after =
      switched.ask ((notifications.flatMap Notification.answers).map Answer.request) := by
    rw [← hnotifications, ← Engine.tellAll_eq_ask]
    exact congrArg Prod.fst happly
  have hlisted (note : Notification) (hnote : note ∈ notifications) :
      (note.key, note.css) ∈ texts := by
    rw [← hnotifications] at hnote
    exact Engine.mem_texts_of_round hnote
  have hnew : after.recalculations.map (·.key) =
      keys ++ newKeys p keys (notifications.flatMap Notification.answers) := by
    obtain ⟨notifications', hok', hcoherent⟩ := h.apply profile'
    obtain rfl := Except.ok.inj (hok.symm.trans hok')
    exact h.map_key_append hcoherent
  refine ⟨hlisteners, texts, notifications, hok, hkeys, hrendered, ?_, ?_,
    fun done note rest hsplit => ⟨?_, ?_⟩, hafter, ?_, hnew, fun key hkey note hnote heq => ?_,
    fun steps' profile'' => ?_⟩
  · rw [← hnotifications, Engine.length_round, ← hkeys, List.length_map]
  · rw [← hnotifications, Engine.map_round]
  · obtain ⟨listener, hcall, hanswers⟩ :=
      Engine.exists_call_of_tellAll (hnotifications.trans hsplit)
    exact ⟨listener, (Engine.mem_calls.1 hcall).2, hanswers⟩
  · intro requests path hpath
    rw [← Engine.ask_append]
    exact hcached _ (hlisted note (hsplit ▸ List.mem_append_right _ List.mem_cons_self))
      _ path hpath
  · intro entry hentry path hpath
    rw [hafter]
    exact hcached entry hentry _ path hpath
  · refine notMem_of_mem_newKeys hkey ?_
    rw [← heq, ← hkeys]
    exact List.mem_map_of_mem (hlisted note hnote)
  · have hstep : Coherent p (s.step (.apply profile')) := h.step (.apply profile')
    obtain ⟨notifications', hok', htold⟩ := (hstep.run steps').told_of_mem profile''
    refine ⟨notifications', hok', fun key hkey => htold key (hstep.mem_run ?_ steps')⟩
    rw [engine_step_apply, hnew]
    exact List.mem_append_right _ hkey

end Session

end MiniSheet
