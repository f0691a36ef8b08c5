import MiniSheet.Proofs.Seams

/-!
# Reading from another place

Places do not decide anything: they are carried along while reading and end up in tokens, nodes and
faults. So a text that is read from another place is read in the same way, with all places moved
(`Token.readAll_moved`), and the tree that is built from moved tokens is the moved tree
(`Document.Builder.foldlM_moved`).

A move only has to go along with reading (`Position.Carries`): moving a place and then reading a
text leads to the same place as reading the text first. The move that is needed takes the start of a
source to a place inside another one (`Position.shift`). It counts lines on from there, and columns
only as long as no line has ended.
-/

namespace MiniSheet

/-! ## Moves -/

namespace Position

variable {f : Position → Position} {p : Position}

/-- A move goes along with reading from a place on. -/
def Carries (f : Position → Position) (p : Position) : Prop :=
  ∀ t, f (p.advance t) = (f p).advance t

theorem Carries.advance (h : Carries f p) (t : Text) : Carries f (p.advance t) := by
  intro u
  rw [← advance_append, h, h, advance_append]

theorem Carries.step (h : Carries f p) (c : Char) : f (p.step c) = (f p).step c := h [c]

/-- The place in a source of a place in a text that starts at the given origin. -/
def shift (origin p : Position) : Position :=
  if p.line = 1 then ⟨origin.line, origin.column + p.column - 1⟩
    else ⟨origin.line + p.line - 1, p.column⟩

@[simp] theorem shift_start (origin : Position) : shift origin start = origin := rfl

theorem shift_step (origin : Position) {p : Position} (hline : 0 < p.line) (hcolumn : 0 < p.column)
    (c : Char) : shift origin (p.step c) = (shift origin p).step c := by
  by_cases hfirst : p.line = 1
  · by_cases hbreak : c = '\n'
    · simp [shift, step, hfirst, hbreak]
    · simp [shift, step, hfirst, hbreak]
      omega
  · by_cases hbreak : c = '\n'
    · have hcount : origin.line + (p.line + 1) - 1 = origin.line + p.line - 1 + 1 := by omega
      simp [shift, step, hfirst, hbreak, hcount, Nat.ne_of_gt hline]
    · simp [shift, step, hfirst, hbreak]

/-- Lines and columns count from one, and stay so. -/
theorem shift_advance (origin : Position) (hline : 0 < p.line) (hcolumn : 0 < p.column) (t : Text) :
    shift origin (p.advance t) = (shift origin p).advance t := by
  induction t generalizing p with
  | nil => rfl
  | cons c t ih =>
    rw [advance_cons, advance_cons, ← shift_step origin hline hcolumn]
    refine ih ?_ ?_
    · rw [step]
      split
      · exact Nat.succ_pos _
      · exact hline
    · rw [step]
      split
      · exact Nat.succ_pos _
      · exact Nat.succ_pos _

/-- A shift goes along with reading a source from its start. -/
theorem carries_shift (origin : Position) : Carries (shift origin) start :=
  fun t => shift_advance origin (p := start) Nat.one_pos Nat.one_pos t

end Position

open Position

/-- A span with its places moved. -/
def Span.moved (f : Position → Position) (span : Span) : Span := ⟨f span.start, f span.stop⟩

/-- An error with its place moved. -/
def ParseError.moved (f : Position → Position) (e : ParseError) : ParseError :=
  ⟨e.fault, f e.position⟩

/-- An outcome with its error, if it is one, moved, and its result changed accordingly. -/
def Outcome.moved {α β : Type} (f : Position → Position) (g : α → β) :
    Except ParseError α → Except ParseError β
  | .error e => .error (e.moved f)
  | .ok a => .ok (g a)

namespace Outcome

variable {α β γ δ : Type} {f : Position → Position}

@[simp] theorem moved_ok (g : α → β) (a : α) : moved f g (.ok a) = .ok (g a) := rfl

/-- A chain is moved link by link. -/
theorem moved_bind {g : α → β} {g' : γ → δ} {x : Except ParseError α} {k : α → Except ParseError γ}
    {k' : β → Except ParseError δ} (h : ∀ a, k' (g a) = moved f g' (k a)) :
    (moved f g x >>= k') = moved f g' (x >>= k) := by
  cases x with
  | error e => rfl
  | ok a => exact h a

end Outcome

/-! ## Scanning -/

/-- An open bracket with its place moved. -/
def Bracket.moved (f : Position → Position) (b : Bracket) : Bracket := ⟨b.closer, f b.opened⟩

namespace Scanner

/-- A scanner with all its places moved. -/
def moved (f : Position → Position) (s : Scanner) : Scanner :=
  ⟨f s.here, s.zone, f s.since, s.brackets.map (Bracket.moved f)⟩

variable {f : Position → Position} {s : Scanner}

theorem nest_moved (f : Position → Position) (here : Position) (opened : List Bracket) (c : Char) :
    Bracket.nest (f here) (opened.map (Bracket.moved f)) c =
      (Bracket.nest here opened c).map (Bracket.moved f) := by
  rw [Bracket.nest.eq_def, Bracket.nest.eq_def]
  cases Bracket.closer? c with
  | some closer => rfl
  | none =>
    cases opened with
    | nil => rfl
    | cons innermost outer =>
      by_cases hcloses : (innermost.closer == c) = true
      · simp [Bracket.moved, hcloses]
      · simp [Bracket.moved, hcloses]

theorem step_moved (h : Carries f s.here) (c : Char) : (s.moved f).step c = (s.step c).moved f := by
  have hsince : (if s.zone.isCode && (Zone.isQuote c || c == '/') then f s.here else f s.since) =
      f (if s.zone.isCode && (Zone.isQuote c || c == '/') then s.here else s.since) :=
    (apply_ite f ..).symm
  have hbrackets :
      (if s.zone.isCode then Bracket.nest (f s.here) (s.brackets.map (Bracket.moved f)) c
        else s.brackets.map (Bracket.moved f)) =
      (if s.zone.isCode then Bracket.nest s.here s.brackets c else s.brackets).map
        (Bracket.moved f) := by
    rw [nest_moved, apply_ite (List.map (Bracket.moved f))]
  rw [step, step, moved, moved]
  dsimp only
  rw [hsince, hbrackets, h.step]

theorem finish_moved (f : Position → Position) (s : Scanner) :
    (s.moved f).finish = Outcome.moved f id s.finish := by
  rw [finish, finish, moved]
  cases s.zone <;> cases s.brackets <;> rfl

/-- Scanning from another place comes to the same, with the place of a fault moved. -/
theorem scan_moved (h : Carries f s.here) (t : Text) :
    (s.moved f).scan t = Outcome.moved f id (s.scan t) := by
  induction t generalizing s with
  | nil =>
    rw [scan, scan, finish_moved]
    cases s.finish <;> rfl
  | cons c t ih =>
    have hstops : (s.moved f).stopsAt c = s.stopsAt c := by
      rw [stopsAt, stopsAt, moved, List.isEmpty_map]
    have hnext : Carries f (s.step c).here := h.advance [c]
    rw [scan, scan, hstops, step_moved h, ih hnext]
    split
    · rfl
    · cases (s.step c).scan t <;> rfl

theorem scan_start_moved {here : Position} (h : Carries f here) (t : Text) :
    (start (f here)).scan t = Outcome.moved f id ((start here).scan t) :=
  scan_moved (s := start here) h t

end Scanner

/-! ## Tokens -/

namespace Token

/-- A token with all its places moved. -/
def moved (f : Position → Position) : Token → Token
  | leaf content span => leaf content (span.moved f)
  | opening head start => opening head (f start)
  | closing place => closing (f place)

/-- A step with all its places moved. -/
def Step.moved (f : Position → Position) : Step → Step
  | done stop => done (f stop)
  | token content here rest => token (content.moved f) (f here) rest

/-- A reading with all its places moved. -/
def Reading.moved (f : Position → Position) (r : Reading) : Reading :=
  ⟨r.tokens.map (Token.moved f), Outcome.moved f f r.ending⟩

variable {f : Position → Position} {start here there : Position} {t rest : Text} {token : Token}

theorem readComment_moved (h : Carries f start) (t : Text) :
    readComment (f start) t = Outcome.moved f (Step.moved f) (readComment start t) := by
  rw [readComment, readComment]
  split
  · rfl
  · dsimp only
    rw [← h]
    rfl

theorem readAtRule_moved (h : Carries f start) (t : Text) :
    readAtRule (f start) t = Outcome.moved f (Step.moved f) (readAtRule start t) := by
  rw [readAtRule, readAtRule]
  dsimp only
  split
  · rfl
  · have hhere := h.advance ('@' :: t.takeWhile Text.isNameChar)
    rw [← h, Scanner.scan_start_moved hhere]
    refine Outcome.moved_bind ?_
    rintro ⟨params, rest⟩
    have hstop := hhere.advance params
    dsimp only [id]
    rw [← hhere]
    split
    · rw [← hstop.step]
      rfl
    · rw [← hstop.step]
      rfl
    · rfl

theorem readDeclaration_moved (h : Carries f start) (statement : Text) (terminated : Bool) :
    readDeclaration (f start) statement terminated =
      Outcome.moved f (Token.moved f) (readDeclaration start statement terminated) := by
  rw [readDeclaration, readDeclaration]
  split
  · rw [← h]
    rfl
  · rfl

theorem readStatement_moved (h : Carries f start) (t : Text) :
    readStatement (f start) t = Outcome.moved f (Step.moved f) (readStatement start t) := by
  rw [readStatement, readStatement, Scanner.scan_start_moved h]
  refine Outcome.moved_bind ?_
  rintro ⟨statement, rest⟩
  have hstop := h.advance statement
  dsimp only [id]
  rw [← h]
  split
  · split
    · rfl
    · rw [← hstop.step]
      rfl
  · rw [← hstop.step, readDeclaration_moved h]
    exact Outcome.moved_bind fun _ => rfl
  · rw [readDeclaration_moved h]
    exact Outcome.moved_bind fun _ => rfl

/-- **The next token is the same from another place**, moved. -/
theorem next_moved (h : Carries f here) (t : Text) :
    next (f here) t = Outcome.moved f (Step.moved f) (next here t) := by
  have hskip := h.advance (t.takeWhile isFiller)
  rw [next, next, ← h]
  split
  · rfl
  · rw [← hskip.step]
    rfl
  · exact readComment_moved hskip _
  · exact readAtRule_moved hskip _
  · exact readStatement_moved hskip _

/-- **The tokens are the same from another place**, moved. -/
theorem readAll_moved (h : Carries f here) (t : Text) :
    readAll (f here) t = (readAll here t).moved f := by
  induction here, t using readAll.induct with
  | case1 here t error hnext =>
    have hmoved := next_moved h t
    rw [hnext] at hmoved
    rw [readAll_of_error hnext, readAll_of_error hmoved]
    rfl
  | case2 here t stop hnext =>
    have hmoved := next_moved h t
    rw [hnext] at hmoved
    rw [readAll_of_done hnext, readAll_of_done hmoved]
    rfl
  | case3 here t token there rest hnext ih =>
    have hmoved := next_moved h t
    rw [hnext] at hmoved
    obtain ⟨taken, htaken⟩ := taken_of_next hnext
    have hthere : Carries f there := htaken.place ▸ h.advance taken
    rw [readAll_of_token hnext, readAll_of_token hmoved, ih hthere]
    rfl

/-- The move goes along with reading from every closing brace on. -/
theorem carries_of_closing {place : Position} (h : Carries f here)
    (hmem : .closing place ∈ (readAll here t).tokens) : Carries f place := by
  obtain ⟨front, back, htokens⟩ := List.append_of_mem hmem
  obtain ⟨s, rest, rfl, hread, -⟩ := readAll_of_closing htokens
  obtain ⟨rfl, -⟩ := readAll_append hread (.inr Text.fenced_nil)
  exact h.advance s

end Token

/-! ## Trees -/

namespace Node

mutual

/-- A node with all its places moved. -/
def moved (f : Position → Position) : Node → Node
  | leaf content span => leaf content (span.moved f)
  | block head children span => block head (movedAll f children) (span.moved f)

/-- Nodes with all their places moved. -/
def movedAll (f : Position → Position) : List Node → List Node
  | [] => []
  | node :: nodes => node.moved f :: movedAll f nodes

end

theorem movedAll_eq_map (f : Position → Position) (nodes : List Node) :
    movedAll f nodes = nodes.map (moved f) := by
  induction nodes with
  | nil => rw [movedAll, List.map_nil]
  | cons node nodes ih => rw [movedAll, List.map_cons, ih]

theorem movedAll_reverse (f : Position → Position) (nodes : List Node) :
    movedAll f nodes.reverse = (movedAll f nodes).reverse := by
  rw [movedAll_eq_map, movedAll_eq_map, List.map_reverse]

end Node

namespace Document

open Node

/-- An open block with all its places moved. -/
def Frame.moved (f : Position → Position) (frame : Frame) : Frame :=
  ⟨frame.head, f frame.start, movedAll f frame.before⟩

namespace Builder

/-- A tree under construction with all its places moved. -/
def moved (f : Position → Position) (b : Builder) : Builder :=
  ⟨b.frames.map (Frame.moved f), movedAll f b.nodes⟩

variable {f : Position → Position} {token : Token} {tokens : List Token}

theorem step_moved (b : Builder) (h : ∀ place, token = .closing place → Carries f place) :
    (b.moved f).step (token.moved f) = Outcome.moved f (moved f) (b.step token) := by
  cases token with
  | leaf content span =>
    simp only [step, Token.moved, moved, Outcome.moved_ok, movedAll, Node.moved]
  | opening head start =>
    simp only [step, Token.moved, moved, Outcome.moved_ok, movedAll, List.map_cons, Frame.moved]
  | closing place =>
    obtain ⟨frames, nodes⟩ := b
    cases frames with
    | nil => rfl
    | cons frame frames =>
      simp only [step, Token.moved, moved, Outcome.moved_ok, movedAll, List.map_cons,
        Frame.moved, Node.moved, movedAll_reverse, Span.moved, (h place rfl).step]

/-- **The tree of moved tokens** is the moved tree. -/
theorem foldlM_moved (b : Builder) (h : ∀ place, .closing place ∈ tokens → Carries f place) :
    (tokens.map (Token.moved f)).foldlM step (b.moved f) =
      Outcome.moved f (moved f) (tokens.foldlM step b) := by
  induction tokens generalizing b with
  | nil => rfl
  | cons token tokens ih =>
    rw [List.map_cons, List.foldlM_cons, List.foldlM_cons,
      step_moved b fun place hplace => h place (by rw [hplace]; simp)]
    exact Outcome.moved_bind fun b' => ih b' fun place hmem => h place (List.mem_cons_of_mem _ hmem)

theorem finish_moved (f : Position → Position) (b : Builder) :
    (b.moved f).finish = Outcome.moved f (movedAll f) b.finish := by
  obtain ⟨frames, nodes⟩ := b
  cases frames with
  | nil =>
    rw [finish, finish, Outcome.moved_ok, movedAll_reverse]
    rfl
  | cons frame frames => rfl

end Builder

end Document

end MiniSheet
