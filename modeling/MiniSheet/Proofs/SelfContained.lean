import MiniSheet.Proofs.Moving

/-!
# Texts that are read on their own

Some texts are read in the same way wherever they stand and whatever follows: either there is a
fault in them, or their tokens are read and reading goes on behind them (`Token.Reads`). Texts of
this kind can be put one behind the other (`Token.Reads.append`).

A statement with its ending is such a text (`Token.reads_statement`), and so is the head of a block,
although a head that was written may start with a comment, which is then read as a token of its own
(`Token.reads_head`). A source that can be read is such a text as well, as long as a statement that
is loose at its end is followed by a closing brace or by nothing (`Token.reads_of_parse`).
-/

namespace MiniSheet

open Text

/-! ## Comments inside statements -/

namespace Depth

variable {zone : Zone} {t content rest : Text}

/-- Inside a comment only a star matters, because a slash may follow it. -/
theorem run_comment_cons {c : Char} (hzone : zone = .comment ∨ zone = .star ∧ c ≠ '/') :
    (Depth.mk zone []).run (c :: t) =
      (Depth.mk (if c == '*' then .star else .comment) []).run t := by
  rcases hzone with rfl | ⟨rfl, hc⟩
  · simp [run_cons, isFree, Zone.isCode, step, Zone.step]
  · simp [run_cons, isFree, Zone.isCode, step, Zone.step, hc]

/-- A star that does not end the comment is not followed by a slash. -/
theorem zone_of_ne {c : Char} (hne : ∀ rest, c = '*' → t = '/' :: rest → False) :
    (if c == '*' then Zone.star else .comment) = .comment ∨
      (if c == '*' then Zone.star else .comment) = .star ∧ ∀ next ∈ t.head?, next ≠ '/' := by
  by_cases hc : c = '*'
  · refine .inr ⟨by simp [hc], fun next hnext hslash => ?_⟩
    obtain ⟨rest, rfl⟩ := List.head?_eq_some_iff.1 hnext
    exact hne rest hc (by rw [hslash])
  · exact .inl (by simp [hc])

/-- Behind the end of a comment everything is as in front of it. -/
theorem run_of_closeComment? (hzone : zone = .comment ∨ zone = .star ∧ ∀ c ∈ t.head?, c ≠ '/')
    (h : Token.closeComment? t = some (content, rest)) :
    (Depth.mk zone []).run t = start.run rest := by
  induction t using Token.closeComment?.induct generalizing zone content with
  | case1 behind =>
    obtain ⟨-, rfl⟩ := Prod.mk.inj (Option.some.inj h)
    rcases hzone with rfl | ⟨rfl, -⟩ <;> rfl
  | case2 c t hne ih =>
    rw [Token.closeComment?] at h
    · obtain ⟨⟨inner, behind⟩, hclose, hpair⟩ := Option.map_eq_some_iff.1 h
      obtain ⟨-, rfl⟩ := Prod.mk.inj hpair
      rw [run_comment_cons (hzone.imp_right fun hstar => ⟨hstar.1, hstar.2 c rfl⟩)]
      exact ih (zone_of_ne hne) hclose
    · exact hne
  | case3 => cases h

/-- A comment that does not end stays open. -/
theorem run_of_closeComment?_eq_none
    (hzone : zone = .comment ∨ zone = .star ∧ ∀ c ∈ t.head?, c ≠ '/')
    (h : Token.closeComment? t = none) :
    ∃ d, (Depth.mk zone []).run t = some d ∧ d.isFree = false := by
  induction t using Token.closeComment?.induct generalizing zone with
  | case1 behind => cases h
  | case2 c t hne ih =>
    rw [Token.closeComment?] at h
    · rw [run_comment_cons (hzone.imp_right fun hstar => ⟨hstar.1, hstar.2 c rfl⟩)]
      exact ih (zone_of_ne hne) (Option.map_eq_none_iff.1 h)
    · exact hne
  | case3 =>
    rcases hzone with rfl | ⟨rfl, -⟩
    · exact ⟨_, rfl, rfl⟩
    · exact ⟨_, rfl, rfl⟩

end Depth

/-- A comment in front of a sealed text ends inside it, and what is behind it is sealed. -/
theorem Sealed.comment {t : Text} (h : Sealed ('/' :: '*' :: t)) :
    ∃ content rest, Token.closeComment? t = some (content, rest) ∧ Sealed rest := by
  obtain ⟨d, hrun, hfree⟩ := h
  change (Depth.mk .comment []).run t = some d at hrun
  rcases hclose : Token.closeComment? t with _ | ⟨content, rest⟩
  · obtain ⟨d', hrun', hopen⟩ := Depth.run_of_closeComment?_eq_none (.inl rfl) hclose
    obtain rfl := Option.some.inj (hrun.symm.trans hrun')
    rw [hfree] at hopen
    cases hopen
  · exact ⟨content, rest, rfl, d, by rw [← hrun, Depth.run_of_closeComment? (.inl rfl) hclose],
      hfree⟩

namespace Token

/-! ## Reading on -/

variable {A B : Text → Prop} {Q Q' Q'' : List Token → Prop} {here : Position} {s t u : Text}
  {tokens : List Token}

/-- There is a fault in the text, whatever follows. -/
def Breaks (A : Text → Prop) (here : Position) (t : Text) : Prop :=
  ∀ rest, A rest → ∃ e, (readAll here (t ++ rest)).ending = .error e

/-- The given tokens are read from the text, and reading goes on behind it. -/
def Continues (A : Text → Prop) (here : Position) (t : Text) (tokens : List Token) : Prop :=
  ∀ rest, A rest → readAll here (t ++ rest) =
    ⟨tokens ++ (readAll (here.advance t) rest).tokens, (readAll (here.advance t) rest).ending⟩

/-- The text is read in the same way whatever follows, out of what is allowed to follow: there is a
fault in it, or tokens of the given kind are read. -/
def Reads (A : Text → Prop) (Q : List Token → Prop) (t : Text) : Prop :=
  ∀ here, Breaks A here t ∨ ∃ tokens, Q tokens ∧ Continues A here t tokens

/-- Anything may follow. -/
def Anything (_ : Text) : Prop := True

theorem Reads.mono (h : Reads A Q t) (hA : ∀ rest, B rest → A rest)
    (hQ : ∀ tokens, Q tokens → Q' tokens) : Reads B Q' t := by
  intro here
  rcases h here with hbreaks | ⟨tokens, htokens, hcontinues⟩
  · exact .inl fun rest hrest => hbreaks rest (hA rest hrest)
  · exact .inr ⟨tokens, hQ tokens htokens, fun rest hrest => hcontinues rest (hA rest hrest)⟩

/-- **One text behind the other.** The second one and what follows it has to be allowed to follow
the first. -/
theorem Reads.append (hs : Reads A Q s) (ht : Reads B Q' t) (hseam : ∀ rest, B rest → A (t ++ rest))
    (hQ : ∀ front back, Q front → Q' back → Q'' (front ++ back)) : Reads B Q'' (s ++ t) := by
  intro here
  rcases hs here with hbreaks | ⟨front, hfront, hcontinues⟩
  · refine .inl fun rest hrest => ?_
    rw [List.append_assoc]
    exact hbreaks _ (hseam rest hrest)
  rcases ht (here.advance s) with hbreaks | ⟨back, hback, hcontinues'⟩
  · refine .inl fun rest hrest => ?_
    rw [List.append_assoc, hcontinues _ (hseam rest hrest)]
    exact hbreaks rest hrest
  · refine .inr ⟨front ++ back, hQ front back hfront hback, fun rest hrest => ?_⟩
    rw [List.append_assoc, hcontinues _ (hseam rest hrest), hcontinues' rest hrest,
      List.append_assoc, Position.advance_append]

theorem reads_nil : Reads Anything (· = []) [] := fun _ => .inr ⟨[], rfl, fun _ _ => rfl⟩

theorem reads_brace : Reads Anything (fun tokens => tokens.map piece = [.closing]) ['}'] := by
  intro here
  refine .inr ⟨[.closing here], rfl, fun rest _ => ?_⟩
  rw [List.singleton_append, readAll_of_token next_closing]
  rfl

/-- A token that is read whatever follows. -/
theorem continues_of_next {token : Token}
    (h : ∀ rest, A rest → next here (t ++ rest) = .ok (.token token (here.advance t) rest)) :
    Continues A here t [token] := by
  intro rest hrest
  rw [readAll_of_token (h rest hrest)]
  rfl

/-- A statement with its ending is read on its own. -/
theorem reads_statement (h : Sealed t) (hbegins : Begins t) (ending : Ending) :
    Reads ending.Admits (fun tokens => ∃ token, tokens = [token] ∧ ending.Makes token)
      (t ++ ending.text) := by
  intro here
  obtain ⟨result, hmakes, hread⟩ := next_of_sealed h hbegins here ending
  cases result with
  | error e =>
    refine .inl fun rest hrest => ⟨e, ?_⟩
    rw [List.append_assoc, readAll_of_error (hread rest hrest)]
  | ok token =>
    refine .inr ⟨[token], ⟨token, rfl, hmakes token rfl⟩, continues_of_next fun rest hrest => ?_⟩
    rw [List.append_assoc]
    exact hread rest hrest

/-- The tokens of a head: comments, and then the head of a block. -/
def IsHead (tokens : List Token) : Prop :=
  ∃ (comments : List Leaf) (head : Head), tokens.map piece =
    comments.map Piece.leaf ++ [.opening head]

/-- Gaps in front of a text change nothing. -/
theorem Reads.append_gaps (h : Reads A Q t) (hs : ∀ c ∈ s, isGap c = true) :
    Reads A Q (s ++ t) := by
  have hfillers : ∀ c ∈ s, isFiller c = true := fun c hc => by rw [isFiller, hs c hc, Bool.true_or]
  intro here
  rcases h (here.advance s) with hbreaks | ⟨tokens, htokens, hcontinues⟩
  · refine .inl fun rest hrest => ?_
    rw [List.append_assoc, readAll_append_fillers hfillers]
    exact hbreaks rest hrest
  · refine .inr ⟨tokens, htokens, fun rest hrest => ?_⟩
    rw [List.append_assoc, readAll_append_fillers hfillers, hcontinues rest hrest,
      Position.advance_append]

/-- A comment is read on its own. -/
theorem reads_comment {content : Text} (h : closeComment? t = some (content, s)) :
    Reads Anything (fun tokens => ∃ comment, tokens.map piece = [.leaf comment])
      ('/' :: '*' :: (content ++ ['*', '/'])) := by
  intro here
  refine .inr
    ⟨[.leaf (.comment (trim content)) ⟨here, here.advance ('/' :: '*' :: (content ++ ['*', '/']))⟩],
      ⟨.comment (trim content), rfl⟩, continues_of_next fun rest _ => next_comment_again h rest⟩

/-- A block needs a selector. -/
theorem next_missing (here : Position) (rest : Text) :
    next here ('{' :: rest) = .error ⟨.missingSelector, here⟩ := by
  rw [next_statement (by decide) (by decide) (by decide) (by simp), readStatement]
  have hscan := sealed_nil.scan here ('{' :: rest) (by simp [Scanner.isTerminator])
  rw [List.nil_append] at hscan
  rw [hscan]
  rfl

/-- **A head is read on its own**, after the comments that it starts with. -/
theorem reads_head (h : Sealed t) : Reads Anything IsHead (t ++ ['{']) := by
  induction hlength : t.length using Nat.strongRecOn generalizing t with
  | ind length ih =>
    obtain ⟨gaps, behind, rfl, hgaps, hbehind⟩ : ∃ gaps behind, t = gaps ++ behind ∧
        (∀ c ∈ gaps, isGap c = true) ∧ ∀ c ∈ behind.head?, isGap c = false :=
      ⟨t.takeWhile isGap, t.dropWhile isGap, List.takeWhile_append_dropWhile.symm,
        fun _ => List.mem_takeWhile_imp, head_dropWhile⟩
    have hsealed : Sealed behind :=
      (sealed_append_iff fun c hc => .inl (isPlain_of_isGap (hgaps c hc))).1 h
    have hhead : ∀ c ∈ behind.head?, isFiller c = false := by
      intro c hc
      obtain ⟨rest, rfl⟩ := List.head?_eq_some_iff.1 hc
      have hterminator := hsealed.isTerminator_head
      simp only [Scanner.isTerminator, Bool.or_eq_false_iff] at hterminator
      rw [isFiller, hbehind c rfl, hterminator.1.2]
      rfl
    rw [List.append_assoc]
    refine Reads.append_gaps ?_ hgaps
    rcases cases_of_head hhead with rfl | ⟨rest, rfl⟩ | ⟨rest, rfl⟩ | ⟨hbegins, -⟩
    · intro here
      refine .inl fun rest _ => ⟨⟨.missingSelector, here⟩, ?_⟩
      rw [List.nil_append, List.singleton_append, readAll_of_error (next_missing here rest)]
    · cases hsealed.isTerminator_head
    · -- the comment is read, and then the head behind it
      obtain ⟨content, after, hclose, hafter⟩ := hsealed.comment
      have htext : '/' :: '*' :: rest ++ ['{'] = '/' :: '*' :: (content ++ ['*', '/']) ++
          (after ++ ['{']) := by
        rw [closeComment?_append hclose]
        simp
      have hshorter : after.length < length := by
        have hrest := congrArg List.length (closeComment?_append hclose)
        simp only [List.length_append, List.length_cons] at hrest hlength
        omega
      rw [htext]
      refine (reads_comment hclose).append (ih _ hshorter hafter rfl) (fun _ _ => trivial) ?_
      rintro front back ⟨comment, hfront⟩ ⟨comments, head, hback⟩
      exact ⟨comment :: comments, head, by rw [List.map_append, hfront, hback]; rfl⟩
    · refine (reads_statement hsealed hbegins .block).mono (fun _ _ => trivial) ?_
      rintro tokens ⟨token, rfl, head, hhead⟩
      exact ⟨[], head, by rw [List.map_singleton, hhead]; rfl⟩

/-! ## Whole sources -/

@[simp] theorem piece_moved (f : Position → Position) (token : Token) :
    (token.moved f).piece = token.piece := by
  cases token with
  | leaf content span | opening head start | closing place => rfl

theorem map_piece_moved (f : Position → Position) (tokens : List Token) :
    (tokens.map (Token.moved f)).map piece = tokens.map piece := by
  rw [List.map_map]
  exact List.map_congr_left fun token _ => piece_moved f token

/-- A source that can be read is read on its own, unless something runs into a loose statement at
its end. -/
theorem reads_of_parse {document : Document} (h : Document.parse t = .ok document)
    (hA : ∀ rest, A rest → Ended t ∨ Fenced rest) :
    Reads A (fun tokens => tokens.map piece = Node.piecesAll document.nodes) t := by
  intro here
  obtain ⟨⟨stop, hstop⟩, hpieces⟩ := Document.pieces_of_parse h
  have hread : readAll here t = ⟨(readAll .start t).tokens.map (Token.moved (Position.shift here)),
      .ok (Position.shift here stop)⟩ := by
    have hmoved := readAll_moved (Position.carries_shift here) t
    rw [Position.shift_start] at hmoved
    rw [hmoved, Reading.moved, hstop]
    rfl
  refine .inr ⟨(readAll .start t).tokens.map (Token.moved (Position.shift here)),
    (map_piece_moved _ _).trans hpieces, fun rest hrest => ?_⟩
  obtain ⟨hplace, happend⟩ := readAll_append hread (hA rest hrest)
  rw [happend, hplace]

/-- Conversely a text that is read somewhere without a fault, as the pieces of a tree, is a
document. -/
theorem parse_of_continues {nodes : List Node} (h : Continues A here t tokens) (hA : A [])
    (hpieces : tokens.map piece = Node.piecesAll nodes) :
    ∃ document, Document.parse t = .ok document ∧
      Node.unplacedAll document.nodes = Node.unplacedAll nodes := by
  have hmoved := readAll_moved (Position.carries_shift here) t
  have hread := h [] hA
  rw [Position.shift_start] at hmoved
  rw [List.append_nil, readAll_nil, List.append_nil, hmoved] at hread
  obtain ⟨htokens, hending⟩ := Reading.mk.inj hread
  rw [← htokens, map_piece_moved] at hpieces
  rcases hstart : (readAll .start t).ending with e | stop
  · rw [hstart] at hending
    cases hending
  · have hread : readAll .start t = ⟨(readAll .start t).tokens, .ok stop⟩ := by rw [← hstart]
    exact Document.parse_of_pieces hread hpieces

end Token

end MiniSheet
