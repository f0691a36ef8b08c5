import MiniSheet.Proofs.Writing

/-!
# Where a source can be cut

How far a token reaches is decided by the token itself, with one exception: a statement that is not
ended by a brace or a semicolon of its own goes on up to a closing brace or the end of the source.
So a token that was read is read again whatever stands behind it, as long as such a *loose*
statement is still followed by a closing brace or by nothing (`Token.Taken`).

From one token to the next this gives what happens at a seam: if the first of two texts ends with a
semicolon or a closing brace, or the second one starts with a closing brace, then the tokens of both
together are those of the first and then those of the second, read from where the first one ends
(`Token.readAll_append`). A source can also be cut in front of any closing brace that was read as
one (`Token.readAll_of_closing`).
-/

namespace MiniSheet

open Text

namespace Text

/-- The text is empty or starts with a closing brace, so that no statement runs into it. -/
def Fenced (t : Text) : Prop := ∀ c ∈ t.head?, c = '}'

/-- The text is empty or ends with a semicolon or a closing brace, so that no statement runs out of
it. -/
def Ended (t : Text) : Prop := ∀ c ∈ t.getLast?, c = ';' ∨ c = '}'

instance (t : Text) : Decidable t.Ended :=
  decidable_of_iff ((t.getLast?.all fun c => c == ';' || c == '}') = true)
    (by simp [Ended, Option.all_eq_true])

variable {s t : Text}

theorem fenced_nil : Fenced [] := fun _ h => by cases h

theorem Fenced.append (hs : Fenced s) (ht : Fenced t) : Fenced (s ++ t) := by
  cases s with
  | nil => exact ht
  | cons c s => exact hs

theorem Fenced.of_append (h : Fenced (s ++ t)) : Fenced s := by
  cases s with
  | nil => exact fenced_nil
  | cons c s => exact h

theorem Ended.of_append (h : Ended (s ++ t)) : Ended t := by
  intro c hc
  refine h c ?_
  rw [List.getLast?_append, hc]
  rfl

end Text

/-! ## One token -/

namespace Token

variable {here there stop : Position} {s t rest : Text} {token : Token} {tokens : List Token}
  {step : Step}

/-! ### Fillers -/

/-- Fillers are skipped. -/
theorem next_append_fillers (hs : ∀ c ∈ s, isFiller c = true) :
    next here (s ++ t) = next (here.advance s) t := by
  rw [next, next, List.takeWhile_append_of_pos hs, List.dropWhile_append_of_pos hs,
    Position.advance_append]

theorem readAll_append_fillers (hs : ∀ c ∈ s, isFiller c = true) :
    readAll here (s ++ t) = readAll (here.advance s) t := by
  have hnext : next here (s ++ t) = next (here.advance s) t := next_append_fillers hs
  rcases hstep : next (here.advance s) t with error | _ | ⟨token, there, rest⟩
  · rw [readAll_of_error hstep, readAll_of_error (hnext.trans hstep)]
  · rw [readAll_of_done hstep, readAll_of_done (hnext.trans hstep)]
  · rw [readAll_of_token hstep, readAll_of_token (hnext.trans hstep)]

theorem exists_fillers (t : Text) :
    ∃ fillers behind, t = fillers ++ behind ∧ (∀ c ∈ fillers, isFiller c = true) ∧
      ∀ c ∈ behind.head?, isFiller c = false :=
  ⟨t.takeWhile isFiller, t.dropWhile isFiller, List.takeWhile_append_dropWhile.symm,
    fun _ => List.mem_takeWhile_imp, head_dropWhile⟩

/-! ### Statements -/

/-- How a statement ends: it opens a block, a semicolon ends it, or something behind it does. -/
inductive Ending where
  /-- an opening brace -/
  | block
  /-- a semicolon -/
  | semicolon
  /-- nothing of its own -/
  | loose
  deriving DecidableEq

namespace Ending

/-- What an ending takes from the source. -/
def text : Ending → Text
  | block => ['{']
  | semicolon => [';']
  | loose => []

/-- What may stand behind an ending. -/
def Admits : Ending → Text → Prop
  | loose, rest => Fenced rest
  | _, _ => True

/-- The token of a statement: a head if a block opens, and a leaf otherwise. -/
def Makes : Ending → Token → Prop
  | block, token => ∃ head, token.piece = .opening head
  | _, token => ∃ content, token.piece = .leaf content

/-- The token of an at-rule. -/
def atRule (name params : Text) (span : Span) : Ending → Token
  | block => .opening (.atRule name params) span.start
  | _ => .leaf (.atRule name params) span

variable {ending : Ending}

theorem makes_atRule (ending : Ending) (name params : Text) (span : Span) :
    ending.Makes (ending.atRule name params span) := by
  cases ending with
  | block | semicolon | loose => exact ⟨_, rfl⟩

theorem isTerminator_of_admits (h : ending.Admits rest) :
    ∀ c ∈ (ending.text ++ rest).head?, Scanner.isTerminator c = true := by
  cases ending with
  | block | semicolon =>
    intro c hc
    obtain rfl := Option.some.inj hc
    rfl
  | loose =>
    intro c hc
    rw [h c hc]
    rfl

theorem exists_of_isTerminator (h : ∀ c ∈ t.head?, Scanner.isTerminator c = true) :
    ∃ ending rest, t = Ending.text ending ++ rest ∧ ending.Admits rest := by
  cases t with
  | nil => exact ⟨loose, [], rfl, fenced_nil⟩
  | cons c t =>
    have hc := h c rfl
    simp only [Scanner.isTerminator, Bool.or_eq_true, beq_iff_eq] at hc
    rcases hc with (rfl | rfl) | rfl
    · exact ⟨block, t, rfl, trivial⟩
    · exact ⟨semicolon, t, rfl, trivial⟩
    · exact ⟨loose, '}' :: t, rfl, fun c hc => (Option.some.inj hc).symm⟩

end Ending

/-- What at-rules, rules and declarations start like: there is something, and it is neither a filler
nor a comment. -/
structure Begins (t : Text) : Prop where
  /-- there is something -/
  ne_nil : t ≠ []
  /-- it is not skipped -/
  filler : ∀ c ∈ t.head?, isFiller c = false
  /-- it is no comment -/
  comment : ¬ ['/', '*'] <+: t

theorem Begins.of_append (h : Begins (s ++ t)) (hs : s ≠ []) : Begins s where
  ne_nil := hs
  filler c hc := h.filler c (by rw [List.head?_append, hc]; rfl)
  comment hcomment := h.comment (hcomment.trans (List.prefix_append s t))

theorem isNameChar_of_isTerminator {c : Char} (h : Scanner.isTerminator c = true) :
    isNameChar c = false := by
  simp only [Scanner.isTerminator, Bool.or_eq_true, beq_iff_eq] at h
  rcases h with (rfl | rfl) | rfl <;> decide +kernel

/-- An at-rule with a given ending does not depend on what stands behind it. -/
theorem readAtRule_of_sealed (h : Sealed ('@' :: t)) (here : Position) (ending : Ending) :
    ∃ result : Except ParseError Token, (∀ token, result = .ok token → ending.Makes token) ∧
      ∀ rest, ending.Admits rest → readAtRule here (t ++ (ending.text ++ rest)) =
        result.map fun token => .token token (here.advance ('@' :: t ++ ending.text)) rest := by
  have hbehind : Sealed (t.dropWhile isNameChar) := by
    refine (sealed_append_iff (s := '@' :: t.takeWhile isNameChar) fun c hc => .inl ?_).1 ?_
    · rcases List.mem_cons.1 hc with rfl | hc
      · rfl
      · exact isPlain_of_isNameChar (List.mem_takeWhile_imp hc)
    · rwa [List.cons_append, List.takeWhile_append_dropWhile]
  have hplace : (here.advance ('@' :: t.takeWhile isNameChar)).advance (t.dropWhile isNameChar) =
      here.advance ('@' :: t) := by
    rw [← Position.advance_append, List.cons_append, List.takeWhile_append_dropWhile]
  have hread (rest : Text) (hrest : ending.Admits rest) :
      readAtRule here (t ++ (ending.text ++ rest)) =
        if (t.takeWhile isNameChar).isEmpty then .error ⟨.missingName, here⟩
      else .ok (.token (ending.atRule (t.takeWhile isNameChar) (trim (t.dropWhile isNameChar))
        ⟨here, here.advance ('@' :: t ++ ending.text)⟩)
          (here.advance ('@' :: t ++ ending.text)) rest) := by
    have hterminator := Ending.isTerminator_of_admits hrest
    have hhead : ∀ c ∈ (ending.text ++ rest).head?, isNameChar c = false :=
      fun c hc => isNameChar_of_isTerminator (hterminator c hc)
    rw [readAtRule, takeWhile_append_left t hhead, dropWhile_append_left t hhead,
      Position.advance_append, ← hplace]
    dsimp only
    rw [hbehind.scan _ _ hterminator]
    cases ending with
    | block | semicolon => rfl
    | loose =>
      cases rest with
      | nil => rfl
      | cons c rest =>
        obtain rfl := hrest c rfl
        rfl
  by_cases hname : (t.takeWhile isNameChar).isEmpty = true
  · refine ⟨.error ⟨.missingName, here⟩, fun token htoken => ?_, fun rest hrest => ?_⟩
    · cases htoken
    · rw [hread rest hrest, if_pos hname]
      rfl
  · refine ⟨.ok (ending.atRule (t.takeWhile isNameChar) (trim (t.dropWhile isNameChar))
      ⟨here, here.advance ('@' :: t ++ ending.text)⟩), fun token htoken => ?_, fun rest hrest => ?_⟩
    · obtain rfl := Except.ok.inj htoken
      exact Ending.makes_atRule ..
    · rw [hread rest hrest, if_neg hname]
      rfl

theorem readDeclaration_makes {terminated : Bool}
    (h : readDeclaration here s terminated = .ok token) :
    ∃ content, token.piece = .leaf content := by
  rw [readDeclaration] at h
  split at h
  · obtain rfl := Except.ok.inj h
    exact ⟨_, rfl⟩
  · cases h

/-- Nor does a rule or a declaration. -/
theorem readStatement_of_sealed (h : Sealed t) (here : Position) (ending : Ending) :
    ∃ result : Except ParseError Token, (∀ token, result = .ok token → ending.Makes token) ∧
      ∀ rest, ending.Admits rest → readStatement here (t ++ (ending.text ++ rest)) =
        result.map fun token => .token token (here.advance (t ++ ending.text)) rest := by
  have hscan (rest : Text) (hrest : ending.Admits rest) :=
    h.scan here _ (Ending.isTerminator_of_admits hrest)
  cases ending with
  | block =>
    by_cases hselector : (trim t).isEmpty = true
    · refine ⟨.error ⟨.missingSelector, here⟩, nofun, fun rest hrest => ?_⟩
      rw [readStatement, hscan rest hrest]
      exact if_pos hselector
    · refine ⟨.ok (.opening (.rule (trim t)) here), fun _ h => ?_, fun rest hrest => ?_⟩
      · obtain rfl := Except.ok.inj h
        exact ⟨_, rfl⟩
      · rw [readStatement, hscan rest hrest, Position.advance_append]
        exact if_neg hselector
  | semicolon =>
    refine ⟨readDeclaration here t true, fun _ => readDeclaration_makes, fun rest hrest => ?_⟩
    rw [readStatement_of_semicolon (hscan rest hrest), Position.advance_append]
    rfl
  | loose =>
    refine ⟨readDeclaration here t false, fun _ => readDeclaration_makes, fun rest hrest => ?_⟩
    rw [readStatement_of_end (hscan rest hrest) hrest, Position.advance_append]
    rfl

/-- What is read of a sealed text with a given ending, be it a token or a fault, does not depend on
what stands behind it. -/
theorem next_of_sealed (h : Sealed t) (hbegins : Begins t) (here : Position) (ending : Ending) :
    ∃ result : Except ParseError Token, (∀ token, result = .ok token → ending.Makes token) ∧
      ∀ rest, ending.Admits rest → next here (t ++ (ending.text ++ rest)) =
        result.map fun token => .token token (here.advance (t ++ ending.text)) rest := by
  obtain ⟨c, t, rfl⟩ := List.exists_cons_of_ne_nil hbegins.ne_nil
  by_cases hat : c = '@'
  · subst hat
    obtain ⟨result, hmakes, hread⟩ := readAtRule_of_sealed h here ending
    refine ⟨result, hmakes, fun rest hrest => ?_⟩
    rw [List.cons_append, next_atRule, hread rest hrest]
  · obtain ⟨result, hmakes, hread⟩ := readStatement_of_sealed h here ending
    refine ⟨result, hmakes, fun rest hrest => ?_⟩
    have hclosing : c ≠ '}' := by
      rintro rfl
      cases h.isTerminator_head
    have hcomment (behind : Text) : c :: (t ++ (ending.text ++ rest)) ≠ '/' :: '*' :: behind := by
      intro heq
      obtain ⟨rfl, htext⟩ := List.cons.inj heq
      cases t with
      | nil =>
        have hterminator :=
          Ending.isTerminator_of_admits hrest '*'
            (by rw [← List.nil_append (_ ++ rest), htext]; rfl)
        cases hterminator
      | cons second t =>
        obtain ⟨rfl, -⟩ := List.cons.inj htext
        exact hbegins.comment ⟨t, rfl⟩
    rw [List.cons_append, next_statement (hbegins.filler c rfl) hclosing hat hcomment,
      ← List.cons_append, hread rest hrest]

/-- Wherever something other than a closing brace or a comment is read, there is a sealed text and
an ending. -/
theorem exists_sealed_of_next (hbegins : Begins t) (hclosing : ¬ ['}'] <+: t)
    (h : next here t = .ok step) :
    ∃ s ending rest, t = s ++ (Ending.text ending ++ rest) ∧ Sealed s ∧ Begins s ∧
      ending.Admits rest := by
  obtain ⟨c, behind, rfl⟩ := List.exists_cons_of_ne_nil hbegins.ne_nil
  by_cases hat : c = '@'
  · subst hat
    rw [next_atRule, readAtRule] at h
    split at h
    · cases h
    · obtain ⟨⟨params, r⟩, hscan, -⟩ := Outcome.bind_eq_ok h
      obtain ⟨hsealed, hterminator⟩ := sealed_of_scan hscan
      obtain ⟨ending, rest, rfl, hadmits⟩ := Ending.exists_of_isTerminator hterminator
      have htext : '@' :: behind = '@' :: (behind.takeWhile isNameChar ++ params) ++
          (ending.text ++ rest) := by
        rw [List.cons_append, List.append_assoc, ← (Scanner.scan_append hscan).1,
          List.takeWhile_append_dropWhile]
      refine ⟨_, ending, rest, htext, ?_, (htext ▸ hbegins).of_append (List.cons_ne_nil _ _),
        hadmits⟩
      refine (sealed_append_iff (s := '@' :: behind.takeWhile isNameChar) fun c hc => .inl ?_).2
        hsealed
      rcases List.mem_cons.1 hc with rfl | hc
      · rfl
      · exact isPlain_of_isNameChar (List.mem_takeWhile_imp hc)
  · have hbrace : c ≠ '}' := by
      rintro rfl
      exact hclosing ⟨behind, rfl⟩
    have hcomment (rest : Text) : c :: behind ≠ '/' :: '*' :: rest := by
      intro heq
      exact hbegins.comment ⟨rest, heq.symm⟩
    rw [next_statement (hbegins.filler c rfl) hbrace hat hcomment] at h
    obtain ⟨⟨statement, r⟩, hscan, hread⟩ := Outcome.bind_eq_ok h
    obtain ⟨hsealed, hterminator⟩ := sealed_of_scan hscan
    have htext := (Scanner.scan_append hscan).1
    obtain ⟨ending, rest, rfl, hadmits⟩ := Ending.exists_of_isTerminator hterminator
    refine ⟨statement, ending, rest, htext, hsealed, (htext ▸ hbegins).of_append ?_, hadmits⟩
    -- an empty statement would end where it starts, with a brace, and a head needs a selector
    rintro rfl
    have hc := hterminator c (by rw [← List.nil_append (_ ++ _), ← htext]; rfl)
    simp only [Scanner.isTerminator, Bool.or_eq_true, beq_iff_eq] at hc
    rcases hc with (rfl | rfl) | rfl
    · rw [List.nil_append] at htext
      rw [← htext] at hread
      cases hread
    · cases hbegins.filler ';' rfl
    · exact hbrace rfl

/-! ### What a token takes -/

/-- What is known of the text that a token was read from. -/
structure Taken (here : Position) (t : Text) (token : Token) (there : Position)
    (rest taken : Text) : Prop where
  /-- it stands in front of the rest -/
  text : t = taken ++ rest
  /-- there is something in it -/
  ne_nil : taken ≠ []
  /-- the place behind the token is the one behind the text -/
  place : there = here.advance taken
  /-- the token is read again whatever follows, if it is still fenced off where only that ended
  it -/
  again : ∀ rest', (Fenced rest → Fenced rest' ∨ Ended taken) →
    next here (taken ++ rest') = .ok (.token token there rest')
  /-- only a closing brace ends with a closing brace -/
  brace : taken.getLast? = some '}' → ∃ place, token = .closing place

/-- Fillers in front of what a token takes are taken as well. -/
theorem Taken.append_fillers {taken : Text} (hs : ∀ c ∈ s, isFiller c = true)
    (h : Taken (here.advance s) t token there rest taken) :
    Taken here (s ++ t) token there rest (s ++ taken) where
  text := by rw [h.text, List.append_assoc]
  ne_nil hnil := h.ne_nil (List.append_eq_nil_iff.1 hnil).2
  place := by rw [h.place, Position.advance_append]
  again rest' hrest' := by
    rw [List.append_assoc, next_append_fillers hs]
    exact h.again rest' fun hfenced => (hrest' hfenced).imp_right Ended.of_append
  brace hlast := by
    obtain ⟨last, htaken⟩ := Option.isSome_iff_exists.1 (List.getLast?_isSome.2 h.ne_nil)
    rw [List.getLast?_append, htaken] at hlast
    exact h.brace (htaken.trans hlast)

theorem taken_closing (here : Position) (rest : Text) :
    Taken here ('}' :: rest) (.closing here) (here.step '}') rest ['}'] where
  text := rfl
  ne_nil := List.cons_ne_nil _ _
  place := rfl
  again _ _ := next_closing
  brace _ := ⟨here, rfl⟩

theorem closeComment?_again {content : Text} (h : closeComment? t = some (content, rest))
    (rest' : Text) : closeComment? (content ++ '*' :: '/' :: rest') = some (content, rest') := by
  induction t using closeComment?.induct generalizing content with
  | case1 behind =>
    obtain ⟨rfl, -⟩ := Prod.mk.inj (Option.some.inj h)
    rfl
  | case2 c t hne ih =>
    rw [closeComment?] at h
    · obtain ⟨⟨inner, behind⟩, hclose, hpair⟩ := Option.map_eq_some_iff.1 h
      obtain ⟨rfl, rfl⟩ := Prod.mk.inj hpair
      rw [List.cons_append, closeComment?, ih hclose]
      · rfl
      · -- the second character is the same as before, and the comment did not end here
        intro after hc hafter
        cases inner with
        | nil => cases hafter
        | cons d inner =>
          obtain ⟨rfl, -⟩ := List.cons.inj hafter
          exact hne _ hc (closeComment?_append hclose)
    · exact hne
  | case3 => cases h

theorem next_comment : next here ('/' :: '*' :: t) = readComment here t := by
  rw [next, takeWhile_of_head (by simp; decide), dropWhile_of_head (by simp; decide)]
  rfl

/-- A comment is read again whatever follows. -/
theorem next_comment_again {content : Text} (h : closeComment? t = some (content, rest))
    (rest' : Text) :
    let stop := here.advance ('/' :: '*' :: (content ++ ['*', '/']))
    next here ('/' :: '*' :: (content ++ ['*', '/']) ++ rest') =
      .ok (.token (.leaf (.comment (trim content)) ⟨here, stop⟩) stop rest') := by
  have htext : '/' :: '*' :: (content ++ ['*', '/']) ++ rest' =
      '/' :: '*' :: (content ++ '*' :: '/' :: rest') := by simp
  rw [htext, next_comment, readComment, closeComment?_again h]

theorem taken_comment (h : readComment here t = .ok (.token token there rest)) :
    ∃ taken, Taken here ('/' :: '*' :: t) token there rest taken := by
  rw [readComment] at h
  split at h
  · cases h
  · rename_i content behind hclose
    cases h
    refine ⟨'/' :: '*' :: (content ++ ['*', '/']), ?_, List.cons_ne_nil _ _, rfl,
      fun rest' _ => next_comment_again hclose rest', fun hlast => ?_⟩
    · rw [closeComment?_append hclose]
      simp
    · rw [← List.cons_append, ← List.cons_append, List.getLast?_append] at hlast
      cases hlast

theorem taken_statement (hbegins : Begins t) (hclosing : ¬ ['}'] <+: t)
    (h : next here t = .ok (.token token there rest)) :
    ∃ taken, Taken here t token there rest taken := by
  obtain ⟨s, ending, behind, rfl, hsealed, hstart, hadmits⟩ :=
    exists_sealed_of_next hbegins hclosing h
  obtain ⟨result, hmakes, hread⟩ := next_of_sealed hsealed hstart here ending
  rw [hread behind hadmits] at h
  obtain ⟨token, rfl, hstep⟩ := Outcome.map_eq_ok h
  cases hstep
  have hlast := hsealed.isTerminator_last
  have hne : s ++ ending.text ≠ [] := fun hnil => hstart.ne_nil (List.append_eq_nil_iff.1 hnil).1
  refine ⟨s ++ ending.text, by rw [List.append_assoc], hne, rfl, fun rest' hrest' => ?_,
    fun hbrace => ?_⟩
  · have hadmits' : ending.Admits rest' := by
      cases ending with
      | block | semicolon => trivial
      | loose =>
        refine (hrest' hadmits).resolve_right fun hended => ?_
        rw [Ending.text, List.append_nil] at hended
        obtain ⟨last, hlast'⟩ := Option.isSome_iff_exists.1 (List.getLast?_isSome.2 hstart.ne_nil)
        rcases hended last hlast' with rfl | rfl <;> cases hlast _ hlast'
    rw [List.append_assoc, hread rest' hadmits']
    rfl
  · cases ending with
    | block | semicolon =>
      rw [Ending.text, List.getLast?_append] at hbrace
      cases hbrace
    | loose =>
      rw [Ending.text, List.append_nil] at hbrace
      cases hlast _ hbrace

/-- What can stand behind fillers. -/
theorem cases_of_head (h : ∀ c ∈ t.head?, isFiller c = false) :
    t = [] ∨ (∃ rest, t = '}' :: rest) ∨ (∃ rest, t = '/' :: '*' :: rest) ∨
      Begins t ∧ ¬ ['}'] <+: t := by
  by_cases hne : t = []
  · exact .inl hne
  by_cases hclosing : ['}'] <+: t
  · obtain ⟨rest, rfl⟩ := hclosing
    exact .inr (.inl ⟨rest, rfl⟩)
  by_cases hcomment : ['/', '*'] <+: t
  · obtain ⟨rest, rfl⟩ := hcomment
    exact .inr (.inr (.inl ⟨rest, rfl⟩))
  · exact .inr (.inr (.inr ⟨⟨hne, h, hcomment⟩, hclosing⟩))

/-- **How far a token reaches** is decided by the text that it takes. -/
theorem taken_of_next (h : next here t = .ok (.token token there rest)) :
    ∃ taken, Taken here t token there rest taken := by
  obtain ⟨fillers, behind, rfl, hfillers, hbehind⟩ := exists_fillers t
  rw [next_append_fillers hfillers] at h
  suffices hbare : ∃ taken, Taken (here.advance fillers) behind token there rest taken by
    obtain ⟨taken, htaken⟩ := hbare
    exact ⟨fillers ++ taken, htaken.append_fillers hfillers⟩
  rcases cases_of_head hbehind with rfl | ⟨after, rfl⟩ | ⟨after, rfl⟩ | ⟨hbegins, hclosing⟩
  · cases h
  · rw [next_closing] at h
    cases h
    exact ⟨['}'], taken_closing _ _⟩
  · rw [next_comment] at h
    exact taken_comment h
  · exact taken_statement hbegins hclosing h

/-- At-rules, rules and declarations are never closing braces, nor the end of the source. -/
theorem makes_of_next (hbegins : Begins t) (hclosing : ¬ ['}'] <+: t) (h : next here t = .ok step) :
    ∃ token there rest ending, step = .token token there rest ∧ Ending.Makes ending token := by
  obtain ⟨s, ending, rest, rfl, hsealed, hstart, hadmits⟩ :=
    exists_sealed_of_next hbegins hclosing h
  obtain ⟨result, hmakes, hread⟩ := next_of_sealed hsealed hstart here ending
  rw [hread rest hadmits] at h
  obtain ⟨token, hresult, rfl⟩ := Outcome.map_eq_ok h
  exact ⟨token, _, rest, ending, rfl, hmakes token hresult⟩

/-- Where no token is left there are only fillers. -/
theorem fillers_of_done (h : next here t = .ok (.done stop)) :
    (∀ c ∈ t, isFiller c = true) ∧ stop = here.advance t := by
  obtain ⟨fillers, behind, rfl, hfillers, hbehind⟩ := exists_fillers t
  rw [next_append_fillers hfillers] at h
  rcases cases_of_head hbehind with rfl | ⟨after, rfl⟩ | ⟨after, rfl⟩ | ⟨hbegins, hclosing⟩
  · cases h
    rw [List.append_nil]
    exact ⟨hfillers, rfl⟩
  · rw [next_closing] at h
    cases h
  · rw [next_comment, readComment] at h
    split at h <;> cases h
  · obtain ⟨token, there, rest, ending, hstep, -⟩ := makes_of_next hbegins hclosing h
    cases hstep

/-- In front of a closing brace there are only fillers. -/
theorem fillers_of_closing {place : Position}
    (h : next here t = .ok (.token (.closing place) there rest)) :
    ∃ fillers, (∀ c ∈ fillers, isFiller c = true) ∧ t = fillers ++ '}' :: rest ∧
      place = here.advance fillers ∧ there = place.step '}' := by
  obtain ⟨fillers, behind, rfl, hfillers, hbehind⟩ := exists_fillers t
  rw [next_append_fillers hfillers] at h
  refine ⟨fillers, hfillers, ?_⟩
  rcases cases_of_head hbehind with rfl | ⟨after, rfl⟩ | ⟨after, rfl⟩ | ⟨hbegins, hclosing⟩
  · cases h
  · rw [next_closing] at h
    cases h
    exact ⟨rfl, rfl, rfl⟩
  · rw [next_comment, readComment] at h
    split at h <;> cases h
  · obtain ⟨token, there, rest, ending, hstep, hmakes⟩ := makes_of_next hbegins hclosing h
    cases hstep
    cases ending with
    | block | semicolon | loose =>
      obtain ⟨_, hpiece⟩ := hmakes
      cases hpiece

/-! ## All tokens -/

theorem readAll_nil : readAll here [] = ⟨[], .ok here⟩ := readAll_of_done next_nil

theorem readAll_fillers (h : ∀ c ∈ t, isFiller c = true) :
    readAll here t = ⟨[], .ok (here.advance t)⟩ := by
  have hread : readAll here (t ++ []) = readAll (here.advance t) [] := readAll_append_fillers h
  rwa [List.append_nil, readAll_nil] at hread

/-- **At a seam reading goes on** with the second text where the first one ends, if a semicolon or a
brace stands there. -/
theorem readAll_append (hread : readAll here s = ⟨tokens, .ok stop⟩) (hseam : Ended s ∨ Fenced t) :
    stop = here.advance s ∧
      readAll here (s ++ t) = ⟨tokens ++ (readAll stop t).tokens, (readAll stop t).ending⟩ := by
  induction here, s using readAll.induct generalizing tokens with
  | case1 here s error hnext =>
    rw [readAll_of_error hnext] at hread
    cases hread
  | case2 here s stop hnext =>
    rw [readAll_of_done hnext] at hread
    cases hread
    obtain ⟨hfillers, rfl⟩ := fillers_of_done hnext
    exact ⟨rfl, readAll_append_fillers hfillers⟩
  | case3 here s token there rest hnext ih =>
    rw [readAll_of_token hnext] at hread
    obtain ⟨taken, htaken⟩ := taken_of_next hnext
    obtain ⟨rfl, hending⟩ := Reading.mk.inj hread
    have hrest : Ended rest ∨ Fenced t := by
      rw [htaken.text] at hseam
      exact hseam.imp_left Ended.of_append
    have hread' : readAll there rest = ⟨(readAll there rest).tokens, .ok stop⟩ := by rw [← hending]
    obtain ⟨hstop, happend⟩ := ih hread' hrest
    -- what follows the token is fenced off as before, or else nothing followed it
    have hagain : Fenced rest → Fenced (rest ++ t) ∨ Ended taken := by
      intro hfenced
      rcases hseam with hended | hfence
      · cases rest with
        | nil =>
          rw [htaken.text, List.append_nil] at hended
          exact .inr hended
        | cons c rest => exact .inl hfenced
      · exact .inl (hfenced.append hfence)
    constructor
    · rw [hstop, htaken.place, htaken.text, Position.advance_append]
    · rw [htaken.text, List.append_assoc, readAll_of_token (htaken.again _ hagain), happend]
      rfl

/-- A source can be cut in front of a closing brace that was read as one. -/
theorem readAll_of_closing {front back : List Token} {place : Position}
    (h : (readAll here t).tokens = front ++ .closing place :: back) :
    ∃ s rest, t = s ++ '}' :: rest ∧ readAll here s = ⟨front, .ok place⟩ ∧
      (readAll (place.step '}') rest).tokens = back ∧
      (readAll (place.step '}') rest).ending = (readAll here t).ending := by
  induction here, t using readAll.induct generalizing front with
  | case1 here t error hnext =>
    rw [readAll_of_error hnext] at h
    cases front <;> cases h
  | case2 here t stop hnext =>
    rw [readAll_of_done hnext] at h
    cases front <;> cases h
  | case3 here t token there rest hnext ih =>
    rw [readAll_of_token hnext] at h ⊢
    cases front with
    | nil =>
      obtain ⟨rfl, hback⟩ := List.cons.inj h
      obtain ⟨fillers, hfillers, rfl, rfl, rfl⟩ := fillers_of_closing hnext
      exact ⟨fillers, rest, rfl, readAll_fillers hfillers, hback, rfl⟩
    | cons first front =>
      obtain ⟨rfl, hfront⟩ := List.cons.inj h
      obtain ⟨s, behind, rfl, hs, hback, hending⟩ := ih hfront
      obtain ⟨taken, htaken⟩ := taken_of_next hnext
      have hagain : Fenced (s ++ '}' :: behind) → Fenced s ∨ Ended taken :=
        fun hfenced => .inl hfenced.of_append
      refine ⟨taken ++ s, behind, ?_, ?_, hback, hending⟩
      · rw [htaken.text, List.append_assoc]
      · rw [readAll_of_token (htaken.again s hagain), hs]

/-- A closing brace behind a text is read as one. -/
theorem readAll_append_brace (hread : readAll here s = ⟨tokens, .ok stop⟩) (rest : Text) :
    readAll here (s ++ '}' :: rest) =
      ⟨tokens ++ .closing stop :: (readAll (stop.step '}') rest).tokens,
        (readAll (stop.step '}') rest).ending⟩ := by
  obtain ⟨-, happend⟩ :=
    readAll_append (t := '}' :: rest) hread (.inr fun c hc => (Option.some.inj hc).symm)
  rw [happend, readAll_of_token next_closing]

/-- What cannot be read without a closing brace at its end cannot be read with it. -/
theorem readAll_of_append_brace (h : (readAll here (t ++ ['}'])).ending = .ok stop) :
    ∃ tokens place, readAll here t = ⟨tokens, .ok place⟩ := by
  generalize htext : t ++ ['}'] = text at h
  induction here, text using readAll.induct generalizing t with
  | case1 here text error hnext =>
    rw [readAll_of_error hnext] at h
    cases h
  | case2 here text stop hnext =>
    obtain ⟨hfillers, -⟩ := fillers_of_done hnext
    cases hfillers '}' (by rw [← htext]; simp)
  | case3 here text token there rest hnext ih =>
    rw [readAll_of_token hnext] at h
    obtain ⟨taken, htaken⟩ := taken_of_next hnext
    rcases List.eq_nil_or_concat rest with rfl | ⟨before, last, hrest⟩
    · -- the brace is the end of this token
      have hlast : taken.getLast? = some '}' := by
        rw [← List.append_nil taken, ← htaken.text, ← htext]
        simp
      obtain ⟨place, rfl⟩ := htaken.brace hlast
      obtain ⟨fillers, hfillers, hwhole, -⟩ := fillers_of_closing hnext
      obtain rfl := List.append_cancel_right (htext.trans hwhole)
      exact ⟨[], _, readAll_fillers hfillers⟩
    · rw [List.concat_eq_append] at hrest
      subst hrest
      have hwhole : t ++ ['}'] = (taken ++ before) ++ [last] := by
        rw [htext, htaken.text, List.append_assoc]
      obtain ⟨rfl, hlast⟩ := List.append_inj' hwhole rfl
      obtain ⟨tokens, place, hread⟩ := ih (t := before) (by rw [hlast]) h
      have hagain : Fenced (before ++ [last]) → Fenced before ∨ Ended taken :=
        fun hfenced => .inl hfenced.of_append
      exact ⟨token :: tokens, place, by rw [readAll_of_token (htaken.again before hagain), hread]⟩

end Token

end MiniSheet
