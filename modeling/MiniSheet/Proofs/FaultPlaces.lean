import Mathlib.Order.Bounds.Basic
import MiniSheet.Proofs.Braces
import MiniSheet.Proofs.Items
import MiniSheet.Proofs.Spans

/-!
# Where faults are reported

Every fault is reported at a place of the source, and what is wrong can be seen there
(`Fault.Shows`): the quote that no other quote answers, the `@` without a name, the word that is not
known. Reading finds all of these, and it finds them in the text that it has not read yet, so they
are shown from token to token (`Token.shows_of_readAll`).

Only a block that is never closed cannot be seen at its place alone. It is the innermost one of the
blocks that are open at the end of the source. These are known from the document that the source
becomes with some closing braces behind it: they are the blocks that reach beyond the source
(`Document.openStarts`), and the innermost one starts last. The builder has them on its stack, one
behind the other (`Document.Builder.Orderly`).
-/

namespace MiniSheet

open Text

/-- What stands at the place where a fault is reported, if `t` is the text from there on. A block
that is never closed cannot be told from that. -/
def Fault.Shows (t : Text) : Fault → Prop
  | unclosedString => ∃ quote rest, t = quote :: rest ∧ Zone.isQuote quote = true ∧
      ∀ body behind, StringBody quote body → rest ≠ body ++ quote :: behind
  | unclosedComment => ∃ rest, t = '/' :: '*' :: rest ∧ ¬ ['*', '/'] <:+: rest
  | unclosedBracket => ∃ rest, t = '(' :: rest ∨ t = '[' :: rest
  | unexpectedClose => ∃ rest, t = '}' :: rest
  | unknownWord word => word ≠ [] ∧ if word.all isBlank then word <+: t else word <+: trimStart t
  | missingName => ∃ rest, t = '@' :: rest ∧ ∀ c ∈ rest.head?, isNameChar c = false
  | missingSelector => (trimStart t).head? = some '{'
  | unclosedBlock => False

/-- A fault shows somewhere in the text, at the given place. -/
def ShowsIn (here : Position) (t : Text) (e : ParseError) : Prop :=
  ∃ front rest, t = front ++ rest ∧ e.position = here.advance front ∧ e.fault.Shows rest

theorem ShowsIn.append {here : Position} {s t : Text} {e : ParseError}
    (h : ShowsIn (here.advance s) t e) : ShowsIn here (s ++ t) e := by
  obtain ⟨front, rest, rfl, hplace, hshows⟩ := h
  exact ⟨s ++ front, rest, (List.append_assoc ..).symm, by rw [hplace, Position.advance_append],
    hshows⟩

/-! ## Faults of a token -/

namespace Token

variable {here : Position} {s t rest : Text} {e : ParseError}

theorem shows_of_unfinished {fault : Fault} (h : Unfinished fault t) : fault.Shows t := by
  cases h with
  | string hquote hopen => exact ⟨_, _, rfl, hquote, hopen⟩
  | comment hopen => exact ⟨_, rfl, hopen⟩
  | @bracket opener closer t hopener ht =>
    refine ⟨t, ?_⟩
    rw [Bracket.closer?.eq_def] at hopener
    split at hopener
    · exact .inl rfl
    · exact .inr rfl
    · cases hopener

theorem shows_of_scan (h : (Scanner.start here).scan t = .error e) : ShowsIn here t e := by
  obtain ⟨front, construct, rfl, -, hbroken, hplace⟩ := Scanner.scan_eq_error_iff.1 h
  exact ⟨front, construct, rfl, hplace, shows_of_unfinished hbroken⟩

theorem not_infix_of_closeComment? (h : closeComment? t = none) : ¬ ['*', '/'] <:+: t := by
  induction t using closeComment?.induct with
  | case1 rest => cases h
  | case2 c t hne ih =>
    rw [closeComment?] at h
    · rintro hinfix
      rcases List.infix_cons_iff.1 hinfix with ⟨behind, hfront⟩ | hbehind
      · obtain ⟨rfl, rfl⟩ := List.cons.inj hfront
        exact hne behind rfl rfl
      · exact ih (Option.map_eq_none_iff.1 h) hbehind
    · exact hne
  | case3 => simp

theorem shows_of_readComment (h : readComment here t = .error e) :
    ShowsIn here ('/' :: '*' :: t) e := by
  rw [readComment] at h
  split at h
  · rename_i hclose
    cases h
    exact ⟨[], _, rfl, rfl, t, rfl, not_infix_of_closeComment? hclose⟩
  · cases h

theorem shows_of_readAtRule (h : readAtRule here t = .error e) : ShowsIn here ('@' :: t) e := by
  have htext : '@' :: t = '@' :: t.takeWhile isNameChar ++ t.dropWhile isNameChar :=
    congrArg ('@' :: ·) List.takeWhile_append_dropWhile.symm
  rw [readAtRule] at h
  split at h
  · rename_i hname
    cases h
    rw [List.isEmpty_iff.1 hname, List.singleton_append] at htext
    refine ⟨[], _, rfl, rfl, t, rfl, ?_⟩
    rw [(List.cons.inj htext).2]
    exact head_dropWhile
  · rcases Outcome.bind_eq_error h with hscan | ⟨⟨params, rest⟩, -, hread⟩
    · rw [htext]
      exact ShowsIn.append (shows_of_scan hscan)
    · dsimp only at hread
      split at hread <;> cases hread

/-- A text of which trimming leaves nothing is blank. -/
theorem isBlank_of_trimStart (h : trimStart s = []) : ∀ c ∈ s, isBlank c = true := by
  obtain ⟨front, hs, hfront⟩ := exists_append_trimStart s
  rw [h, List.append_nil] at hs
  rwa [hs]

theorem isBlank_of_trim (h : trim s = []) : ∀ c ∈ s, isBlank c = true := by
  refine isBlank_of_trimStart ?_
  obtain ⟨back, hs, hback⟩ := exists_trimEnd_append (trimStart s)
  rw [← trim, h, List.nil_append] at hs
  rcases hstart : trimStart s with _ | ⟨c, t⟩
  · rfl
  · have hblank : isBlank c = true := hback c (by rw [← hs, hstart]; exact List.mem_cons_self)
    have hc : isBlank c = false := head_dropWhile c (by rw [← trimStart, hstart]; rfl)
    rw [hblank] at hc
    cases hc

theorem trimStart_append (h : trimStart s ≠ []) (rest : Text) :
    trimStart (s ++ rest) = trimStart s ++ rest := by
  rw [trimStart, List.dropWhile_append]
  exact if_neg fun hempty => h (List.isEmpty_iff.1 hempty)

/-- The first word of a statement stands in front of it, behind blanks. If there is no word, the
blanks do. -/
theorem shows_unknownWord (hne : s ≠ []) (rest : Text) :
    (Fault.unknownWord ((firstWord? s).getD s)).Shows (s ++ rest) := by
  rw [firstWord?]
  split
  · rename_i hword
    -- what trimming leaves would start with a word
    have hblank : trimStart s = [] := by
      rcases hs : trimStart s with _ | ⟨c, t⟩
      · rfl
      · have hc : isBlank c = false := head_dropWhile c (by rw [← trimStart, hs]; rfl)
        rw [hs, List.takeWhile_cons_of_pos (by rw [hc]; rfl)] at hword
        cases hword
    refine ⟨hne, ?_⟩
    rw [Option.getD_none, if_pos (List.all_eq_true.2 (isBlank_of_trimStart hblank))]
    exact List.prefix_append ..
  · rename_i word hword
    obtain ⟨c, t, hs⟩ := List.exists_cons_of_ne_nil hword
    have hsome : trimStart s ≠ [] := by
      intro hblank
      rw [hblank] at hs
      cases hs
    have hc : isBlank c = false := by
      have hmem : c ∈ (trimStart s).takeWhile fun c => !isBlank c := by
        rw [hs]
        exact List.mem_cons_self
      simpa using List.mem_takeWhile_imp hmem
    refine ⟨hword, ?_⟩
    rw [Option.getD_some, if_neg, trimStart_append hsome]
    · exact (List.takeWhile_prefix _).trans (List.prefix_append ..)
    · rw [hs, List.all_cons, hc]
      exact Bool.false_ne_true

theorem shows_of_readDeclaration {terminated : Bool} (hne : s ≠ [])
    (h : readDeclaration here s terminated = .error e) (rest : Text) :
    ShowsIn here (s ++ rest) e := by
  rw [readDeclaration] at h
  split at h
  · cases h
  · cases h
    exact ⟨[], _, rfl, rfl, shows_unknownWord hne rest⟩

theorem shows_of_readStatement (hbegins : Begins t) (hclosing : ¬ ['}'] <+: t)
    (h : readStatement here t = .error e) : ShowsIn here t e := by
  rcases Outcome.bind_eq_error h with hscan | ⟨⟨statement, rest⟩, hscan, hread⟩
  · exact shows_of_scan hscan
  obtain ⟨rfl, hrest⟩ := Scanner.scan_append hscan
  dsimp only at hread
  split at hread
  · rename_i behind
    split at hread
    · rename_i hselector
      cases hread
      have hstart : trimStart (statement ++ '{' :: behind) = '{' :: behind := by
        refine dropWhile_append_of_head (isBlank_of_trim (List.isEmpty_iff.1 hselector)) ?_
        rintro c ⟨⟩
        decide
      exact ⟨[], _, rfl, rfl, congrArg List.head? hstart⟩
    · cases hread
  · rename_i behind
    rcases Outcome.bind_eq_error hread with hread | ⟨token, -, hread⟩
    · refine shows_of_readDeclaration ?_ hread _
      rintro rfl
      cases hbegins.filler ';' rfl
    · cases hread
  · rename_i hopening hsemicolon
    rcases Outcome.bind_eq_error hread with hread | ⟨token, -, hread⟩
    · refine shows_of_readDeclaration ?_ hread _
      rintro rfl
      -- a statement with nothing in it would end where it starts
      obtain ⟨c, behind, rfl⟩ := List.exists_cons_of_ne_nil hbegins.ne_nil
      have hc := hrest c rfl
      simp only [Scanner.isTerminator, Bool.or_eq_true, beq_iff_eq] at hc
      rcases hc with (rfl | rfl) | rfl
      · exact hopening behind rfl
      · exact hsemicolon behind rfl
      · exact hclosing ⟨behind, rfl⟩
    · cases hread

theorem shows_of_next (h : next here t = .error e) : ShowsIn here t e := by
  obtain ⟨fillers, behind, rfl, hfillers, hbehind⟩ := exists_fillers t
  rw [next_append_fillers hfillers] at h
  refine ShowsIn.append ?_
  rcases cases_of_head hbehind with rfl | ⟨after, rfl⟩ | ⟨after, rfl⟩ | ⟨hbegins, hclosing⟩
  · cases h
  · rw [next_closing] at h
    cases h
  · rw [next_comment] at h
    exact shows_of_readComment h
  · rcases next_of_begins hbegins hclosing (here.advance fillers) with
      ⟨after, rfl, hnext⟩ | ⟨-, hnext⟩
    · rw [hnext] at h
      exact shows_of_readAtRule h
    · rw [hnext] at h
      exact shows_of_readStatement hbegins hclosing h

/-- **Whatever reading finds fault with shows** in the text that is left. -/
theorem shows_of_readAll (h : (readAll here t).ending = .error e) : ShowsIn here t e := by
  induction here, t using readAll.induct with
  | case1 here t error hnext =>
    rw [readAll_of_error hnext] at h
    cases h
    exact shows_of_next hnext
  | case2 here t stop hnext =>
    rw [readAll_of_done hnext] at h
    cases h
  | case3 here t token there rest hnext ih =>
    rw [readAll_of_token hnext] at h
    obtain ⟨taken, htaken⟩ := taken_of_next hnext
    have hrest := ih h
    rw [htaken.place] at hrest
    rw [htaken.text]
    exact ShowsIn.append hrest

end Token

/-! ## Open blocks -/

/-- The nodes have a block of this span, at whatever depth. -/
inductive Node.HasBlock : List Node → Span → Prop where
  /-- among the nodes themselves -/
  | here {nodes children : List Node} {head : Head} {span : Span}
    (hmem : .block head children span ∈ nodes) :
    HasBlock nodes span
  /-- among the children of one of them -/
  | inside {nodes children : List Node} {head : Head} {span inner : Span}
    (hmem : .block head children span ∈ nodes)
    (h : HasBlock children inner) : HasBlock nodes inner

namespace Node

variable {nodes children : List Node} {content : Leaf} {head : Head} {span inner : Span}

theorem HasBlock.mono {nodes' : List Node} (h : HasBlock nodes span)
    (hsub : ∀ node ∈ nodes, node ∈ nodes') : HasBlock nodes' span := by
  cases h with
  | here hmem => exact .here (hsub _ hmem)
  | inside hmem h => exact .inside (hsub _ hmem) h

theorem not_hasBlock_nil : ¬ HasBlock [] span := by
  intro h
  cases h with
  | here hmem => cases hmem
  | inside hmem => cases hmem

theorem HasBlock.of_leaf (h : HasBlock (.leaf content inner :: nodes) span) :
    HasBlock nodes span := by
  cases h with
  | here hmem =>
    rcases List.mem_cons.1 hmem with heq | hmem
    · cases heq
    · exact .here hmem
  | inside hmem h =>
    rcases List.mem_cons.1 hmem with heq | hmem
    · cases heq
    · exact .inside hmem h

theorem HasBlock.of_block (h : HasBlock (.block head children inner :: nodes) span) :
    span = inner ∨ HasBlock children span ∨ HasBlock nodes span := by
  cases h with
  | here hmem =>
    rcases List.mem_cons.1 hmem with heq | hmem
    · cases heq
      exact .inl rfl
    · exact .inr (.inr (.here hmem))
  | inside hmem h =>
    rcases List.mem_cons.1 hmem with heq | hmem
    · cases heq
      exact .inr (.inl h)
    · exact .inr (.inr (.inside hmem h))

end Node

namespace Document

/-- Where the blocks of a document start that reach beyond a place. -/
def openStarts (document : Document) (place : Position) : Set Position :=
  {start | ∃ stop, Node.HasBlock document.nodes ⟨start, stop⟩ ∧ place < stop}

namespace Builder

open Node

variable {source front t rest : Text} {here there stop : Position} {b b' : Builder} {token : Token}

/-- What is known of a tree under construction when the source has been read up to a place. -/
structure Orderly (source : Text) (here : Position) (b : Builder) : Prop where
  /-- every open block starts somewhere in the source -/
  starts : ∀ frame ∈ b.frames, ∃ front rest, source = front ++ rest ∧ rest ≠ [] ∧
    frame.start = Position.start.advance front
  /-- and has been read already -/
  read : ∀ frame ∈ b.frames, frame.start ≤ here
  /-- inner blocks start behind outer ones -/
  nested : b.frames.Pairwise fun inner outer => outer.start ≤ inner.start
  /-- all blocks among the nodes are closed -/
  nodes : ∀ span, HasBlock b.nodes span → span.stop ≤ here
  /-- and so are those in front of open blocks -/
  before : ∀ frame ∈ b.frames, ∀ span, HasBlock frame.before span → span.stop ≤ here

theorem orderly_empty (source : Text) (here : Position) : Orderly source here .empty where
  starts _ hmem := absurd hmem List.not_mem_nil
  read _ hmem := absurd hmem List.not_mem_nil
  nested := .nil
  nodes _ h := absurd h not_hasBlock_nil
  before _ hmem := absurd hmem List.not_mem_nil

theorem Orderly.advance (h : b.Orderly source here) (hle : here ≤ there) :
    b.Orderly source there where
  starts := h.starts
  read frame hmem := (h.read frame hmem).trans hle
  nested := h.nested
  nodes span hspan := (h.nodes span hspan).trans hle
  before frame hmem span hspan := (h.before frame hmem span hspan).trans hle

/-- The next open block starts behind the others. -/
theorem Orderly.opening (h : b.Orderly source here) {start : Position} (hle : here ≤ start)
    (head : Head)
    (hstart : ∃ front rest, source = front ++ rest ∧ rest ≠ [] ∧
      start = Position.start.advance front) :
    Orderly source start ⟨⟨head, start, b.nodes⟩ :: b.frames, []⟩ where
  starts := List.forall_mem_cons.2 ⟨hstart, h.starts⟩
  read := List.forall_mem_cons.2 ⟨le_rfl, fun frame hmem => (h.read frame hmem).trans hle⟩
  nested := .cons (fun frame hmem => (h.read frame hmem).trans hle) h.nested
  nodes _ hspan := absurd hspan not_hasBlock_nil
  before := List.forall_mem_cons.2
    ⟨fun span hspan => (h.nodes span hspan).trans hle,
      fun frame hmem span hspan => (h.before frame hmem span hspan).trans hle⟩

/-- Reading one more token keeps the order. -/
theorem Orderly.step (h : b.Orderly source (Position.start.advance front))
    (hsource : source = front ++ t)
    (hnext : Token.next (Position.start.advance front) t = .ok (.token token there rest))
    (hstep : b.step token = .ok b') : b'.Orderly source there := by
  obtain ⟨taken, htaken⟩ := Token.taken_of_next hnext
  have hle : Position.start.advance front ≤ there := by
    rw [htaken.place]
    exact Position.le_advance ..
  cases token with
  | leaf content span =>
    obtain rfl := Except.ok.inj hstep
    have hlater := h.advance hle
    exact ⟨hlater.starts, hlater.read, hlater.nested,
      fun span hspan => hlater.nodes span hspan.of_leaf, hlater.before⟩
  | opening head start =>
    obtain rfl := Except.ok.inj hstep
    obtain ⟨fillers, behind, rfl, hfillers, hbehind⟩ := Token.exists_fillers t
    rw [Token.next_append_fillers hfillers, ← Position.advance_append] at hnext
    obtain rfl := Token.start_of_next hbehind hnext
    obtain ⟨own, hown⟩ := Token.taken_of_next hnext
    have hthere : Position.start.advance (front ++ fillers) ≤ there := by
      rw [hown.place]
      exact Position.le_advance ..
    refine (h.opening ?_ head ⟨front ++ fillers, behind, ?_, ?_, rfl⟩).advance hthere
    · exact Position.advance_le_advance _ (List.prefix_append ..)
    · rw [hsource, List.append_assoc]
    · rw [hown.text]
      exact List.append_ne_nil_of_left_ne_nil hown.ne_nil _
  | closing place =>
    obtain ⟨fillers, -, -, -, rfl⟩ := Token.fillers_of_closing hnext
    obtain ⟨frames, nodes⟩ := b
    cases frames with
    | nil => cases hstep
    | cons frame frames =>
      obtain rfl := Except.ok.inj hstep
      have hlater := h.advance hle
      obtain ⟨-, hstarts⟩ := List.forall_mem_cons.1 hlater.starts
      obtain ⟨-, hread⟩ := List.forall_mem_cons.1 hlater.read
      obtain ⟨hfront, hbefore⟩ := List.forall_mem_cons.1 hlater.before
      refine ⟨hstarts, hread, (List.pairwise_cons.1 hlater.nested).2, fun span hspan => ?_, hbefore⟩
      rcases hspan.of_block with rfl | hspan | hspan
      · exact le_rfl
      · exact hlater.nodes span (hspan.mono fun node hmem => List.mem_reverse.1 hmem)
      · exact hfront span hspan

/-- And so does reading all of them. -/
theorem Orderly.readAll {tokens : List Token} (h : b.Orderly source here)
    (hhere : here = Position.start.advance front) (hsource : source = front ++ t)
    (hread : Token.readAll here t = ⟨tokens, .ok stop⟩)
    (hbuild : tokens.foldlM Builder.step b = .ok b') : b'.Orderly source stop := by
  induction here, t using Token.readAll.induct generalizing front tokens b with
  | case1 here t error hnext =>
    rw [Token.readAll_of_error hnext] at hread
    cases hread
  | case2 here t stop hnext =>
    rw [Token.readAll_of_done hnext] at hread
    cases hread
    obtain rfl := Except.ok.inj hbuild
    obtain ⟨-, rfl⟩ := Token.fillers_of_done hnext
    exact h.advance (Position.le_advance ..)
  | case3 here t token there rest hnext ih =>
    rw [Token.readAll_of_token hnext] at hread
    obtain ⟨rfl, hending⟩ := Token.Reading.mk.inj hread
    obtain ⟨between, hstep, hbuild⟩ := Outcome.bind_eq_ok hbuild
    obtain ⟨taken, htaken⟩ := Token.taken_of_next hnext
    subst hhere
    have hplace : there = Position.start.advance (front ++ taken) := by
      rw [htaken.place, Position.advance_append]
    have hrest : source = front ++ taken ++ rest := by rw [hsource, htaken.text, List.append_assoc]
    exact ih (h.step hsource hnext hstep) hplace hrest (by rw [← hending]) hbuild

/-! ### Closing all blocks -/

/-- As many closing braces as there are open blocks leave no block open. What was open reaches
beyond the place then, and nothing else is new. -/
theorem exists_closed (b : Builder) (here : Position) : ∃ tokens stop nodes,
    Token.readAll here (List.replicate b.frames.length '}') = ⟨tokens, .ok stop⟩ ∧
      tokens.foldlM Builder.step b = .ok ⟨[], nodes⟩ ∧
      (∀ span, HasBlock b.nodes span → HasBlock nodes span) ∧
      (∀ frame ∈ b.frames, ∃ stop, HasBlock nodes ⟨frame.start, stop⟩ ∧ here < stop) ∧ ∀ span,
        HasBlock nodes span → HasBlock b.nodes span ∨ ∃ frame ∈ b.frames,
          HasBlock frame.before span ∨ span.start = frame.start := by
  obtain ⟨frames, nodes⟩ := b
  induction frames generalizing here nodes with
  | nil => exact ⟨[], here, nodes, Token.readAll_nil, rfl, fun _ => id, by simp, fun _ => .inl⟩
  | cons frame frames ih =>
    obtain ⟨tokens, stop, closed, hread, hbuild, hkept, hopened, hnew⟩ :=
      ih (here.step '}')
        (.block frame.head nodes.reverse ⟨frame.start, here.step '}'⟩ :: frame.before)
    have hlater : here < here.step '}' := Position.lt_step ..
    refine ⟨.closing here :: tokens, stop, closed, ?_, hbuild, fun span hspan => ?_, ?_,
      fun span hspan => ?_⟩
    · rw [List.length_cons, List.replicate_succ, Token.readAll_of_token Token.next_closing, hread]
    · exact hkept span
        (.inside List.mem_cons_self (hspan.mono fun node hmem => List.mem_reverse.2 hmem))
    · refine List.forall_mem_cons.2 ⟨⟨_, hkept _ (.here List.mem_cons_self), hlater⟩,
        fun other hmem => ?_⟩
      obtain ⟨stop, hspan, hstop⟩ := hopened other hmem
      exact ⟨stop, hspan, hlater.trans hstop⟩
    · rcases hnew span hspan with hspan | ⟨other, hmem, hspan⟩
      · rcases hspan.of_block with rfl | hspan | hspan
        · exact .inr ⟨frame, List.mem_cons_self, .inr rfl⟩
        · exact .inl (hspan.mono fun node hmem => List.mem_reverse.1 hmem)
        · exact .inr ⟨frame, List.mem_cons_self, .inl hspan⟩
      · exact .inr ⟨other, List.mem_cons_of_mem _ hmem, hspan⟩

end Builder

variable {source : Text} {place : Position}

/-- **An unclosed block is the innermost one** of those that are open at the end of the source. -/
theorem isGreatest_of_unclosedBlock (h : parse source = .error ⟨.unclosedBlock, place⟩) :
    (∃ front rest, source = front ++ rest ∧ rest ≠ [] ∧ place = Position.start.advance front) ∧
      ∃ k document, parse (source ++ List.replicate k '}') = .ok document ∧
        IsGreatest (document.openStarts (Position.start.advance source)) place := by
  obtain ⟨k, hk, tokens, stop, ⟨frames, nodes⟩, hread, hbuild, rfl⟩ :=
    unclosedBlock_iff.1 ⟨place, h⟩
  obtain ⟨frame, frames, rfl⟩ := List.exists_cons_of_ne_nil (List.length_pos_iff.1 hk)
  obtain rfl : frame.start = place := by
    rw [parse, hread] at h
    dsimp only at h
    rw [hbuild] at h
    exact (ParseError.mk.inj (Except.error.inj h)).2
  have horderly :=
    (Builder.orderly_empty source .start).readAll rfl (List.nil_append source).symm hread hbuild
  obtain rfl := Token.stop_of_readAll hread
  refine ⟨horderly.starts frame List.mem_cons_self, ?_⟩
  obtain ⟨braces, last, closed, hbraces, hclosed, -, hopened, hnew⟩ :=
    Builder.exists_closed ⟨frame :: frames, nodes⟩ (Position.start.advance source)
  refine ⟨(frame :: frames).length, ⟨closed.reverse, ⟨.start, last⟩⟩, ?_, ?_, ?_⟩
  · have hfenced : Fenced (List.replicate (frame :: frames).length '}') := by
      rintro c ⟨⟩
      rfl
    obtain ⟨-, hwhole⟩ := Token.readAll_append hread (.inr hfenced)
    rw [hbraces] at hwhole
    rw [parse, hwhole]
    dsimp only
    rw [List.foldlM_append, hbuild]
    change (braces.foldlM Builder.step _ >>= _) = _
    rw [hclosed]
    rfl
  · obtain ⟨stop, hspan, hstop⟩ := hopened frame List.mem_cons_self
    exact ⟨stop, hspan.mono fun node hmem => List.mem_reverse.2 hmem, hstop⟩
  · rintro start ⟨stop, hspan, hstop⟩
    rcases hnew _ (hspan.mono fun node hmem => List.mem_reverse.1 hmem) with
      hspan | ⟨other, hmem, hspan | hstart⟩
    · exact absurd hstop (horderly.nodes _ hspan).not_gt
    · exact absurd hstop (horderly.before other hmem _ hspan).not_gt
    · rw [show start = other.start from hstart]
      rcases List.mem_cons.1 hmem with rfl | hmem
      · exact le_rfl
      · exact (List.pairwise_cons.1 horderly.nested).1 other hmem

end Document

/-! ## All faults -/

/-- What a fault says of a place in the source, given by how many characters stand in front of it. A
block that is never closed is told by the document that the source becomes with some closing braces
behind it: of all blocks that reach beyond the source, it is the one that starts last. All other
faults show at their place. -/
def Fault.PointsAt (source : Text) (offset : Nat) : Fault → Prop
  | unclosedBlock => ∃ k document, Document.parse (source ++ List.replicate k '}') = .ok document ∧
      IsGreatest (document.openStarts (Position.start.advance source))
        (Position.start.advance (source.take offset))
  | fault => fault.Shows (source.drop offset)

namespace Fault

variable {fault : Fault} {t source : Text} {offset : Nat}

/-- Nothing shows at the end of a text. -/
theorem Shows.ne_nil (h : fault.Shows t) : t ≠ [] := by
  rintro rfl
  cases fault with
  | unclosedBlock => exact h
  | unclosedString =>
    obtain ⟨quote, rest, hnil, -⟩ := h
    cases hnil
  | unclosedComment | unexpectedClose | missingName =>
    obtain ⟨rest, hnil⟩ := h
    simp at hnil
  | unclosedBracket =>
    obtain ⟨rest, hnil | hnil⟩ := h <;> cases hnil
  | unknownWord word =>
    obtain ⟨hne, hword⟩ := h
    split at hword
    · exact hne (List.prefix_nil.1 hword)
    · exact hne (List.prefix_nil.1 hword)
  | missingSelector => cases h

theorem pointsAt_of_shows (h : fault.Shows (source.drop offset)) :
    fault.PointsAt source offset := by
  cases fault with
  | unclosedBlock => exact h.elim
  | unclosedString | unclosedComment | unclosedBracket | unexpectedClose | unknownWord
  | missingName | missingSelector =>
    exact h

end Fault

/-- What stands in front of something ends at one of the characters. -/
theorem exists_offset (front : Text) {rest : Text} (hne : rest ≠ []) :
    ∃ offset, offset < (front ++ rest).length ∧ (front ++ rest).take offset = front ∧
      (front ++ rest).drop offset = rest := by
  refine ⟨front.length, ?_, List.take_left, List.drop_left⟩
  rw [List.length_append]
  exact Nat.lt_add_of_pos_right (List.length_pos_iff.2 hne)

/-- A fault that shows somewhere points there. -/
theorem ShowsIn.exists_pointsAt {source : Text} {e : ParseError} (h : ShowsIn .start source e) :
    ∃ offset, offset < source.length ∧ e.position = Position.start.advance (source.take offset) ∧
      e.fault.PointsAt source offset := by
  obtain ⟨front, rest, rfl, hplace, hshows⟩ := h
  obtain ⟨offset, hlt, htake, hdrop⟩ := exists_offset front hshows.ne_nil
  exact ⟨offset, hlt, by rw [htake, hplace], Fault.pointsAt_of_shows (by rwa [hdrop])⟩

namespace Document

/-- **Every fault points at what is wrong.** If a source is no stylesheet, the place that is
reported is that of one of its characters. A string that is reported there starts with a quote that
no other one answers, a comment with a `/*` that no `*/` follows, a bracket is a bracket and a brace
is a brace. Where a name is missing there is an `@` without one, where a selector is missing there
are blanks and then an opening brace, and an unknown word stands behind blanks. A block that is
reported to be open is the innermost one that is open at the end. -/
theorem faults_point_at_constructs (source : Text) (e : ParseError) (h : parse source = .error e) :
    ∃ offset, offset < source.length ∧ e.position = Position.start.advance (source.take offset) ∧
      e.fault.PointsAt source offset := by
  have hparse := h
  rcases Outcome.bind_eq_error h with hbuild | ⟨⟨frames, nodes⟩, -, h⟩
  · obtain ⟨front, token, back, ⟨frames, nodes⟩, -, -, hstep⟩ := Outcome.foldlM_eq_error hbuild
    cases token with
    | leaf content span => cases hstep
    | opening head start => cases hstep
    | closing place =>
      cases frames with
      | cons frame frames => cases hstep
      | nil =>
        cases hstep
        obtain ⟨front, rest, rfl, hplace, -⟩ := unexpectedClose_iff.1 hparse
        exact ShowsIn.exists_pointsAt ⟨front, _, rfl, hplace, rest, rfl⟩
  rcases Outcome.bind_eq_error h with hending | ⟨stop, -, h⟩
  · exact (Token.shows_of_readAll hending).exists_pointsAt
  rcases Outcome.bind_eq_error h with hfinish | ⟨nodes, -, h⟩
  · cases frames with
    | nil => cases hfinish
    | cons frame frames =>
      cases hfinish
      obtain ⟨⟨front, rest, rfl, hne, hplace⟩, hinnermost⟩ := isGreatest_of_unclosedBlock hparse
      obtain ⟨offset, hlt, htake, -⟩ := exists_offset front hne
      refine ⟨offset, hlt, by rw [htake, hplace], ?_⟩
      rw [Fault.PointsAt, htake, ← hplace]
      exact hinnermost
  · cases h

/-- Blocks over several lines, two of which are still open at the end. -/
def unfenced : Text := "@media é \x7b\n  a\x7bb:c\x7d\n  .d > e \x7b f:g; @h \x7b\x7d".toList

/-- The inner one of these is reported, and not the block that was opened last. -/
theorem faults_point_at_constructs_unfenced : parse unfenced = .error ⟨.unclosedBlock, ⟨3, 3⟩⟩ ∧
    ∃ offset, offset < unfenced.length ∧
      (⟨3, 3⟩ : Position) = Position.start.advance (unfenced.take offset) ∧
      Fault.unclosedBlock.PointsAt unfenced offset := by
  have htokens : (Token.readAll .start unfenced).tokens =
      [.opening (.atRule "media".toList ['é']) ⟨1, 1⟩, .opening (.rule ['a']) ⟨2, 3⟩,
        .leaf (.declaration ⟨['b'], [':'], ['c'], none, false⟩) ⟨⟨2, 5⟩, ⟨2, 8⟩⟩, .closing ⟨2, 8⟩,
        .opening (.rule ".d > e".toList) ⟨3, 3⟩,
        .leaf (.declaration ⟨['f'], [':'], ['g'], none, true⟩) ⟨⟨3, 12⟩, ⟨3, 15⟩⟩,
        .opening (.atRule ['h'] []) ⟨3, 17⟩, .closing ⟨3, 21⟩] := by
    decide +kernel
  have hending : (Token.readAll .start unfenced).ending = .ok ⟨3, 22⟩ := by decide +kernel
  have hparse : parse unfenced = .error ⟨.unclosedBlock, ⟨3, 3⟩⟩ := by
    rw [parse, htokens, hending]
    rfl
  exact ⟨hparse, faults_point_at_constructs unfenced _ hparse⟩

end Document

end MiniSheet
