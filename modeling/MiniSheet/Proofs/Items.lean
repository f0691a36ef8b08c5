import Mathlib.Logic.Basic
import MiniSheet.Proofs.Zones

/-!
# Statements as sequences of items

The scanner walks through a statement with a stack of open brackets. What it finds can be said by
recursion: a statement is a sequence of items (`Text.Items`), and an item is a string, a comment, a
pair of brackets with items between them, or any other character. What is ordinary depends on where
it stands: a sequence is ended by a terminator if it stands in no brackets, and by the closing
bracket alone if it stands between brackets.

Every text is such a sequence, or a sequence and a character that ends it, or the beginning of one
with something in it that runs to the end of the text (`Text.exists_course`). The scanner goes
through each of them in its own way, and thus by the grammar (`Scanner.scan_follows_items`).
-/

namespace MiniSheet

namespace Text

/-- Whether a character ends a sequence of items: a terminator in a statement, the closing bracket
between brackets. -/
def endsItems : Option Char → Char → Bool
  | none, c => Scanner.isTerminator c
  | some closer, c => c == closer

/-- A sequence of items, in a statement or in front of the given closing bracket. -/
inductive Items : Option Char → Text → Prop where
  /-- no items -/
  | nil {level : Option Char} : Items level []
  /-- a character that opens nothing and does not end the sequence -/
  | char {level : Option Char} {c : Char} {t : Text} (hquote : Zone.isQuote c = false)
    (hbracket : Bracket.closer? c = none) (hcomment : c = '/' → t.head? ≠ some '*')
    (hends : endsItems level c = false) (ht : Items level t) : Items level (c :: t)
  /-- a string -/
  | string {level : Option Char} {quote : Char} {body t : Text} (hquote : Zone.isQuote quote = true)
    (hbody : StringBody quote body) (ht : Items level t) :
      Items level (quote :: (body ++ quote :: t))
  /-- a comment -/
  | comment {level : Option Char} {body t : Text} (hbody : CommentBody body) (ht : Items level t) :
    Items level ('/' :: '*' :: (body ++ '*' :: '/' :: t))
  /-- a pair of brackets, and items between them -/
  | group {level : Option Char} {opener closer : Char} {inner t : Text}
    (hopener : Bracket.closer? opener = some closer)
    (hinner : Items (some closer) inner) (ht : Items level t) :
      Items level (opener :: (inner ++ closer :: t))

/-- The beginning of a sequence of items, in which brackets may still be open. -/
inductive Begun : Option Char → Text → Prop where
  /-- no bracket is open -/
  | items {level : Option Char} {t : Text} (h : Items level t) : Begun level t
  /-- a bracket is open, and perhaps others behind it -/
  | enter {level : Option Char} {opener closer : Char} {s t : Text} (hs : Items level s)
    (hopener : Bracket.closer? opener = some closer) (ht : Begun (some closer) t) :
      Begun level (s ++ opener :: t)

/-- Something that runs to the end of the text, and the fault that this is. -/
inductive Unfinished : Fault → Text → Prop where
  /-- a string that no quote behind its first one ends -/
  | string {quote : Char} {t : Text} (hquote : Zone.isQuote quote = true)
    (hopen : ∀ body rest, StringBody quote body → t ≠ body ++ quote :: rest) :
      Unfinished .unclosedString (quote :: t)
  /-- a comment that no `*/` ends -/
  | comment {t : Text} (hopen : ¬ ['*', '/'] <:+: t) : Unfinished .unclosedComment ('/' :: '*' :: t)
  /-- a bracket with nothing but items behind it, none of which closes it -/
  | bracket {opener closer : Char} {t : Text} (hopener : Bracket.closer? opener = some closer)
    (ht : Items (some closer) t) : Unfinished .unclosedBracket (opener :: t)

/-! ## Every text is of one of three kinds -/

/-- How a sequence of items may go on. -/
inductive Course (level : Option Char) : Text → Prop where
  /-- with the text -/
  | items {t : Text} (h : Items level t) : Course level t
  /-- in front of a character that ends it -/
  | stop {s rest : Text} {c : Char} (hs : Items level s) (hc : endsItems level c = true) :
    Course level (s ++ c :: rest)
  /-- inside of something that runs to the end of the text -/
  | broken {front construct : Text} {fault : Fault} (hfront : Begun level front)
    (h : Unfinished fault construct) :
    Course level (front ++ construct)

variable {level : Option Char} {s t : Text}

/-- Pieces that can be put in front of items can be put in front of every text. -/
theorem Course.append (h : Course level t) (piece : Text)
    (hpiece : ∀ s, s <+: t → Items level s → Items level (piece ++ s)) :
    Course level (piece ++ t) := by
  cases h with
  | items h => exact .items (hpiece t List.prefix_rfl h)
  | stop hs hc =>
    rw [← List.append_assoc]
    exact .stop (hpiece _ (List.prefix_append ..) hs) hc
  | broken hfront h =>
    rw [← List.append_assoc]
    refine .broken ?_ h
    cases hfront with
    | items hfront => exact .items (hpiece _ (List.prefix_append ..) hfront)
    | enter hs hopener ht =>
      rw [← List.append_assoc]
      refine .enter (hpiece _ ?_ hs) hopener ht
      rw [List.append_assoc]
      exact List.prefix_append ..

/-- What does not close a comment may stand in it. -/
theorem exists_commentBody_of_infix (h : ['*', '/'] <:+: t) :
    ∃ body rest, t = body ++ '*' :: '/' :: rest ∧ CommentBody body := by
  induction t with
  | nil => cases List.infix_nil.1 h
  | cons c t ih =>
    by_cases hclose : c = '*' ∧ t.head? = some '/'
    · obtain ⟨rfl, hslash⟩ := hclose
      obtain ⟨rest, rfl⟩ := List.head?_eq_some_iff.1 hslash
      exact ⟨[], rest, rfl, .nil⟩
    · have hbehind : ['*', '/'] <:+: t := by
        rcases List.infix_cons_iff.1 h with hfront | hbehind
        · obtain ⟨rest, heq⟩ := hfront
          obtain ⟨rfl, rfl⟩ := List.cons.inj heq
          exact absurd ⟨rfl, rfl⟩ hclose
        · exact hbehind
      obtain ⟨body, rest, rfl, hbody⟩ := ih hbehind
      refine ⟨c :: body, rest, rfl, .char (fun hstar hslash => hclose ⟨hstar, ?_⟩) hbody⟩
      rw [List.head?_append, hslash]
      rfl

/-- **The grammar leaves no text out.** -/
theorem exists_course (level : Option Char) (t : Text) : Course level t := by
  -- whole items are taken off the front
  induction hlength : t.length using Nat.strongRecOn generalizing level t with
  | ind length ih =>
    rcases t with _ | ⟨c, t⟩
    · exact .items .nil
    by_cases hquote : Zone.isQuote c = true
    · by_cases hclosed : ∃ body rest, StringBody c body ∧ t = body ++ c :: rest
      · obtain ⟨body, rest, hbody, rfl⟩ := hclosed
        have hrest :=
          ih rest.length (by simp only [← hlength, List.length_cons, List.length_append]; omega)
            level rest rfl
        have happend := hrest.append (c :: (body ++ [c])) fun s _ hs => by
          simpa using Items.string hquote hbody hs
        simpa using happend
      · refine .broken (.items .nil)
          (.string hquote fun body rest hbody heq => hclosed ⟨body, rest, hbody, heq⟩)
    have hquote : Zone.isQuote c = false := Bool.eq_false_iff.2 hquote
    rcases hbracket : Bracket.closer? c with _ | closer
    · by_cases hcomment : c = '/' ∧ t.head? = some '*'
      · obtain ⟨rfl, hstar⟩ := hcomment
        obtain ⟨t, rfl⟩ := List.head?_eq_some_iff.1 hstar
        by_cases hclosed : ['*', '/'] <:+: t
        · obtain ⟨body, rest, rfl, hbody⟩ := exists_commentBody_of_infix hclosed
          have hrest :=
            ih rest.length (by simp only [← hlength, List.length_cons, List.length_append]; omega)
              level rest rfl
          have happend := hrest.append ('/' :: '*' :: (body ++ ['*', '/'])) fun s _ hs => by
            simpa using Items.comment hbody hs
          simpa using happend
        · exact .broken (.items .nil) (.comment hclosed)
      · by_cases hends : endsItems level c = true
        · exact .stop (s := []) .nil hends
        · have hrest := ih t.length (by simp [← hlength]) level t rfl
          refine hrest.append [c] fun s hs hitems => .char hquote hbracket (fun hslash hstar => ?_)
            (Bool.eq_false_iff.2 hends) hitems
          obtain ⟨behind, rfl⟩ := hs
          refine hcomment ⟨hslash, ?_⟩
          have hstar : s.head? = some '*' := hstar
          rw [List.head?_append, hstar]
          rfl
    · -- first the items between the brackets, then those behind them
      have hinner := ih t.length (by simp [← hlength]) (some closer) t rfl
      cases hinner with
      | items hinner => exact .broken (.items .nil) (.bracket hbracket hinner)
      | @stop inner rest found hinner hfound =>
        obtain rfl := beq_iff_eq.1 hfound
        have hrest :=
          ih rest.length (by simp only [← hlength, List.length_cons, List.length_append]; omega)
            level rest rfl
        have happend := hrest.append (c :: (inner ++ [found])) fun s _ hs => by
          simpa using Items.group hbracket hinner hs
        simpa using happend
      | @broken front construct fault hfront h =>
        exact .broken (.enter (s := []) .nil hbracket hfront) h

end Text

open Text

/-! ## Scanning items -/

namespace Scanner

variable {here since : Position} {brackets : List Bracket} {level : Option Char}
  {fault : Fault} {c : Char}
  {s t rest front construct : Text}

/-- The scanner in front of an item, with the given brackets open. -/
def between (here : Position) (brackets : List Bracket) : Scanner := ⟨here, .code, here, brackets⟩

/-- What a scan finds behind a text that it went through. -/
def behind (front : Text) (result : Except ParseError (Text × Text)) :
    Except ParseError (Text × Text) :=
  result.map fun (statement, rest) => (front ++ statement, rest)

theorem behind_append (s t : Text) (result : Except ParseError (Text × Text)) :
    behind (s ++ t) result = behind s (behind t result) := by
  cases result with
  | error e => rfl
  | ok split => exact congrArg Except.ok (Prod.ext (List.append_assoc ..) rfl)

theorem scan_cons {s : Scanner} (h : s.stopsAt c = false) (t : Text) :
    s.scan (c :: t) = behind [c] ((s.step c).scan t) := by
  rw [scan, if_neg (Bool.eq_false_iff.1 h)]
  rfl

theorem stopsAt_of_zone {s : Scanner} (h : s.zone.isCode = false) (c : Char) :
    s.stopsAt c = false := by
  rw [stopsAt, h, Bool.and_false, Bool.false_and]

/-- In code it does not matter where the last string or comment was opened. -/
theorem scan_code (since : Position) (t : Text) :
    (Scanner.mk here .code since brackets).scan t = (between here brackets).scan t := by
  induction t generalizing here since brackets with
  | nil => rfl
  | cons c t ih =>
    rw [scan, scan]
    refine if_congr Iff.rfl rfl (congrArg _ ?_)
    by_cases hopens : (Zone.isQuote c || c == '/') = true
    · simp only [step, between, Zone.isCode, hopens]
      rfl
    · have hzone : Zone.code.step c = .code := by
        simp only [Bool.or_eq_true, not_or] at hopens
        rw [Zone.step, Zone.enter, if_neg hopens.1, if_neg hopens.2]
      simp only [step, between, Zone.isCode, hopens, hzone]
      exact (ih since).trans (ih here).symm

/-- A slash matters only in front of a star. -/
theorem scan_slash (h : t.head? ≠ some '*') :
    (Scanner.mk here .slash since brackets).scan t = (between here brackets).scan t := by
  refine Eq.trans ?_ (scan_code since t)
  cases t with
  | nil => rfl
  | cons c t =>
    have hzone : Zone.slash.step c = Zone.code.step c := if_neg (by simpa using h)
    rw [scan, scan]
    refine if_congr Iff.rfl rfl (congrArg _ ?_)
    rw [step, hzone]
    rfl

/-! ### Strings and comments -/

theorem scan_stringBody {quote : Char} {body : Text} (hquote : Zone.isQuote quote = true)
    (h : StringBody quote body) (t : Text) :
    (Scanner.mk here (.quoted quote) since brackets).scan (body ++ quote :: t) =
      behind (body ++ [quote]) ((between (here.advance (body ++ [quote])) brackets).scan t) := by
  induction h generalizing here with
  | nil =>
    rw [List.nil_append, scan_cons (stopsAt_of_zone rfl _), step, Zone.step_quoted hquote]
    exact congrArg _ (scan_code _ t)
  | @char c body hne hescape hbody ih =>
    have hzone : (Zone.quoted quote).step c = .quoted quote := by
      rw [Zone.step, if_neg (by simpa using hescape), if_neg (by simpa using hne)]
    rw [List.cons_append, scan_cons (stopsAt_of_zone rfl _), step, hzone]
    refine (congrArg _ ih).trans ?_
    exact (behind_append [c] (body ++ [quote]) _).symm
  | @escape c body hbody ih =>
    rw [List.cons_append, scan_cons (stopsAt_of_zone rfl _), List.cons_append,
      scan_cons (stopsAt_of_zone rfl _)]
    refine (congrArg _ (congrArg _ ih)).trans ?_
    rw [← behind_append, ← behind_append]
    rfl

/-- In a comment, a star matters only in front of a slash. -/
theorem scan_star (h : t.head? ≠ some '/') :
    (Scanner.mk here .star since brackets).scan t =
      (Scanner.mk here .comment since brackets).scan t := by
  cases t with
  | nil => rfl
  | cons c t =>
    have hzone : Zone.star.step c = Zone.comment.step c := if_neg (by simpa using h)
    rw [scan_cons (stopsAt_of_zone rfl c), scan_cons (stopsAt_of_zone rfl c), step, hzone]
    rfl

theorem scan_commentBody {body : Text} (h : CommentBody body) (t : Text) :
    (Scanner.mk here .comment since brackets).scan (body ++ '*' :: '/' :: t) =
      behind (body ++ ['*', '/'])
        ((between (here.advance (body ++ ['*', '/'])) brackets).scan t) := by
  induction h generalizing here with
  | nil =>
    rw [List.nil_append, scan_cons (stopsAt_of_zone rfl _), scan_cons (stopsAt_of_zone rfl _),
      ← behind_append]
    exact congrArg _ (scan_code _ t)
  | @char c body hclose hbody ih =>
    have hgo : ((Scanner.mk here .comment since brackets).step c).scan (body ++ '*' :: '/' :: t) =
        (Scanner.mk (here.step c) .comment since brackets).scan (body ++ '*' :: '/' :: t) := by
      by_cases hstar : c = '*'
      · subst hstar
        refine scan_star ?_
        cases body with
        | nil => simp
        | cons next body => exact hclose rfl
      · have hzone : Zone.comment.step c = .comment := if_neg (by simpa using hstar)
        rw [step, hzone]
        rfl
    rw [List.cons_append, scan_cons (stopsAt_of_zone rfl c), hgo, ih, ← behind_append]
    rfl

/-- The zones inside of a construct, and the fault if the text ends there. -/
def unfinished? : Zone → Option Fault
  | .quoted _ | .escaped _ => some .unclosedString
  | .comment | .star => some .unclosedComment
  | .code | .slash => none

/-- What is never left is reported where it was opened. -/
theorem scan_of_zone {s : Scanner} (hzone : unfinished? s.zone = some fault)
    (h : ∀ u, u <+: t → (s.zone.after u).isCode = false) : s.scan t = .error ⟨fault, s.since⟩ := by
  induction t generalizing s with
  | nil =>
    rw [scan, finish]
    cases hs : s.zone <;> rw [hs] at hzone <;> cases hzone <;> rfl
  | cons c t ih =>
    have hcode : s.zone.isCode = false := h [] List.nil_prefix
    have hnext : (s.zone.step c).isCode = false := h [c] ⟨t, rfl⟩
    have hsince : (s.step c).since = s.since := by
      rw [step, hcode]
      rfl
    have hfault : unfinished? (s.step c).zone = some fault := by
      change unfinished? (s.zone.step c) = _
      rw [← hzone]
      cases hs : s.zone <;> rw [hs] at hcode hnext <;> grind [Zone.step, Zone.isCode, unfinished?]
    rw [scan_cons (stopsAt_of_zone hcode c),
      ih hfault fun u hu => h (c :: u) (List.cons_prefix_cons.2 ⟨rfl, hu⟩), hsince]
    rfl

/-! ### Items -/

/-- The brackets that are open where items stand: the innermost one has to be closed behind them. -/
inductive Encloses : Option Char → List Bracket → Prop where
  /-- in a statement no bracket is open -/
  | statement : Encloses none []
  /-- the innermost bracket, and any others -/
  | bracket {opener closer : Char} (hopener : Bracket.closer? opener = some closer)
    (place : Position) (outer : List Bracket) : Encloses (some closer) (⟨closer, place⟩ :: outer)

theorem step_between (here : Position) (brackets : List Bracket) (c : Char) :
    (between here brackets).step c =
      ⟨here.step c, Zone.enter c, here, Bracket.nest here brackets c⟩ := by
  rw [step, between, ite_self]
  rfl

/-- Brackets stay as they are until one is opened or the innermost one is closed. -/
theorem nest_of_encloses (h : Encloses level brackets) (hbracket : Bracket.closer? c = none)
    (hcloser : level ≠ some c) : Bracket.nest here brackets c = brackets := by
  rw [Bracket.nest.eq_def, hbracket]
  cases h with
  | statement => rfl
  | bracket hopener => exact if_neg fun hc => hcloser (congrArg some (beq_iff_eq.1 hc))

/-- What opens a string or a comment closes no bracket. -/
theorem nest_of_notMem (h : Encloses level brackets) (hc : c ∉ ['(', ')', '[', ']']) :
    Bracket.nest here brackets c = brackets := by
  refine nest_of_encloses h (Depth.closer?_of_notMem hc) ?_
  cases h with
  | statement => rintro ⟨⟩
  | bracket hopener =>
    exact fun hcloser =>
      Depth.closer_ne_of_notMem (Depth.eq_of_closer? hopener) hc (Option.some.inj hcloser)

/-- Only the character that ends it can end a sequence of items. -/
theorem stopsAt_between (hlevel : Encloses level brackets) (hends : endsItems level c = false) :
    (between here brackets).stopsAt c = false := by
  cases hlevel with
  | statement =>
    rw [stopsAt, show isTerminator c = false from hends]
    rfl
  | bracket => rw [stopsAt, between, List.isEmpty_cons, Bool.and_false]

theorem stopsAt_of_isTerminator {s : Scanner} (h : isTerminator c = false) :
    s.stopsAt c = false := by
  rw [stopsAt, h, Bool.false_and, Bool.false_and]

theorem scan_quote (hlevel : Encloses level brackets) (hquote : Zone.isQuote c = true) (t : Text) :
    (between here brackets).scan (c :: t) =
      behind [c] ((Scanner.mk (here.step c) (.quoted c) here brackets).scan t) := by
  have hclass : isTerminator c = false ∧ c ∉ ['(', ')', '[', ']'] := by
    simp only [Zone.isQuote, Bool.or_eq_true, beq_iff_eq] at hquote
    rcases hquote with rfl | rfl <;> decide
  rw [scan_cons (stopsAt_of_isTerminator hclass.1), step_between, Zone.enter, if_pos hquote,
    nest_of_notMem hlevel hclass.2]

theorem scan_commentOpener (hlevel : Encloses level brackets) (t : Text) :
    (between here brackets).scan ('/' :: '*' :: t) =
      behind ['/', '*'] ((Scanner.mk (here.advance ['/', '*']) .comment here brackets).scan t) := by
  rw [scan_cons (stopsAt_of_isTerminator rfl), scan_cons (stopsAt_of_isTerminator rfl),
    step_between, nest_of_notMem hlevel (by decide), ← behind_append, step]
  have hnest : Bracket.nest (here.step '/') brackets '*' = brackets :=
    nest_of_notMem hlevel (by decide)
  change behind _ (scan ⟨_, .comment, here, Bracket.nest (here.step '/') brackets '*'⟩ t) = _
  rw [hnest]
  rfl

/-- A bracket is open behind the character that opens it. -/
theorem scan_opener {closer : Char} (hopener : Bracket.closer? c = some closer) (t : Text) :
    (between here brackets).scan (c :: t) =
      behind [c] ((between (here.step c) (⟨closer, here⟩ :: brackets)).scan t) := by
  have hclass : isTerminator c = false ∧ Zone.enter c = .code := by
    rw [Bracket.closer?.eq_def] at hopener
    split at hopener
    · exact ⟨rfl, rfl⟩
    · exact ⟨rfl, rfl⟩
    · cases hopener
  have hnest : Bracket.nest here brackets c = ⟨closer, here⟩ :: brackets := by
    rw [Bracket.nest.eq_def, hopener]
  rw [scan_cons (stopsAt_of_isTerminator hclass.1), step_between, hclass.2, hnest, scan_code]

/-- Behind the closing bracket it is open no more. -/
theorem scan_closer {place : Position} {opener : Char} (hopener : Bracket.closer? opener = some c)
    (t : Text) :
    (between here (⟨c, place⟩ :: brackets)).scan (c :: t) =
      behind [c] ((between (here.step c) brackets).scan t) := by
  have hclass : isTerminator c = false ∧ Zone.enter c = .code ∧ Bracket.closer? c = none := by
    rcases Depth.eq_of_closer? hopener with rfl | rfl <;> exact ⟨rfl, rfl, rfl⟩
  have hnest : Bracket.nest here (⟨c, place⟩ :: brackets) c = brackets := by
    rw [Bracket.nest.eq_def, hclass.2.2]
    exact if_pos (beq_self_eq_true c)
  rw [scan_cons (stopsAt_of_isTerminator hclass.1), step_between, hclass.2.1, hnest, scan_code]

/-- **A scan goes through items**, and finds the same brackets open behind them as in front. -/
theorem scan_items (h : Items level t) (hlevel : Encloses level brackets)
    (hrest : rest.head? ≠ some '*') :
    (between here brackets).scan (t ++ rest) =
      behind t ((between (here.advance t) brackets).scan rest) := by
  induction h generalizing here brackets rest with
  | nil =>
    rw [List.nil_append, Position.advance_nil]
    cases (between here brackets).scan rest <;> rfl
  | @char level c t hquote hbracket hcomment hends ht ih =>
    have hcloser : level ≠ some c := by
      rintro rfl
      exact Bool.false_ne_true (hends.symm.trans (beq_self_eq_true c))
    rw [List.cons_append, scan_cons (stopsAt_between hlevel hends), step_between,
      nest_of_encloses hlevel hbracket hcloser, Zone.enter, if_neg (Bool.eq_false_iff.1 hquote)]
    have hgo :
        (Scanner.mk (here.step c) (if c == '/' then .slash else .code) here brackets).scan
            (t ++ rest) =
          (between (here.step c) brackets).scan (t ++ rest) := by
      split
      · rename_i hslash
        refine scan_slash ?_
        cases t with
        | nil => exact hrest
        | cons next t => exact hcomment (beq_iff_eq.1 hslash)
      · exact scan_code _ _
    rw [hgo, ih hlevel hrest, ← behind_append]
    rfl
  | @string level quote body t hquote hbody ht ih =>
    rw [List.cons_append, List.append_assoc, List.cons_append, scan_quote hlevel hquote,
      scan_stringBody hquote hbody, ih hlevel hrest, ← behind_append, ← behind_append]
    simp
  | @comment level body t hbody ht ih =>
    rw [List.cons_append, List.cons_append, List.append_assoc, List.cons_append, List.cons_append,
      scan_commentOpener hlevel, scan_commentBody hbody, ih hlevel hrest, ← behind_append,
      ← behind_append]
    simp
  | @group level opener closer inner t hopener hinner ht ihinner ih =>
    have hstar : (closer :: (t ++ rest)).head? ≠ some '*' := by
      rcases Depth.eq_of_closer? hopener with rfl | rfl <;> simp
    rw [List.cons_append, List.append_assoc, List.cons_append, scan_opener hopener,
      ihinner (.bracket hopener here brackets) hstar, scan_closer hopener, ih hlevel hrest,
      ← behind_append, ← behind_append, ← behind_append]
    simp

/-! ### What runs to the end -/

theorem head_of_unfinished (h : Unfinished fault construct) : construct.head? ≠ some '*' := by
  cases h with
  | string hquote =>
    rintro ⟨⟩
    cases hquote
  | comment => simp
  | bracket hopener =>
    rintro ⟨⟩
    cases hopener

/-- Through the beginning of a sequence a scan goes as well, and more brackets may be open behind
it. -/
theorem scan_begun (h : Begun level t) (hlevel : Encloses level brackets) :
    ∃ inner brackets', Encloses inner brackets' ∧ ∀ rest : Text, rest.head? ≠ some '*' →
      (between here brackets).scan (t ++ rest) =
        behind t ((between (here.advance t) brackets').scan rest) := by
  induction h generalizing here brackets with
  | items h => exact ⟨_, brackets, hlevel, fun rest hrest => scan_items h hlevel hrest⟩
  | @enter level opener closer s t hs hopener ht ih =>
    obtain ⟨inner, brackets', hinner, hscan⟩ := ih (.bracket hopener (here.advance s) brackets)
    refine ⟨inner, brackets', hinner, fun rest hrest => ?_⟩
    have hstar : (opener :: (t ++ rest)).head? ≠ some '*' := by
      rintro ⟨⟩
      cases hopener
    rw [List.append_assoc, List.cons_append, scan_items hs hlevel hstar, scan_opener hopener,
      hscan rest hrest, ← behind_append, ← behind_append]
    simp

/-- What runs to the end is reported where it starts. -/
theorem scan_unfinished (h : Unfinished fault construct) (hlevel : Encloses level brackets) :
    (between here brackets).scan construct = .error ⟨fault, here⟩ := by
  cases h with
  | @string quote t hquote hopen =>
    have hinside : ∀ u, u <+: t → ((Zone.quoted quote).after u).isCode = false := by
      intro u hu
      rw [Bool.eq_false_iff]
      intro hcode
      obtain ⟨body, rest, rfl, hbody, -⟩ := Zone.exists_stringBody hcode
      obtain ⟨back, rfl⟩ := hu
      exact hopen body (rest ++ back) hbody (by simp)
    rw [scan_quote hlevel hquote, scan_of_zone rfl hinside]
    rfl
  | @comment t hopen =>
    have hinside : ∀ u, u <+: t → (Zone.comment.after u).isCode = false := by
      intro u hu
      rw [Bool.eq_false_iff]
      intro hcode
      obtain ⟨body, rest, rfl, -, -⟩ := Zone.exists_commentBody hcode
      obtain ⟨back, rfl⟩ := hu
      exact hopen ⟨body, rest ++ back, by simp⟩
    rw [scan_commentOpener hlevel, scan_of_zone rfl hinside]
    rfl
  | @bracket opener closer t hopener ht =>
    rw [scan_opener hopener, ← List.append_nil t,
      scan_items ht (.bracket hopener here brackets) (by simp)]
    rfl

/-! ### The three kinds of texts -/

theorem scan_of_items (h : Items none s) (hrest : ∀ c ∈ rest.head?, isTerminator c = true) :
    (start here).scan (s ++ rest) = .ok (s, rest) := by
  have hstar : rest.head? ≠ some '*' := by
    intro hstar
    cases hrest '*' hstar
  refine (scan_items h .statement hstar).trans ?_
  cases rest with
  | nil => exact congrArg (fun t => Except.ok (t, [])) (List.append_nil s)
  | cons c rest =>
    have hstop : (between (here.advance s) []).stopsAt c = true := by
      rw [stopsAt, hrest c rfl]
      rfl
    rw [scan, if_pos hstop]
    exact congrArg (fun t => Except.ok (t, c :: rest)) (List.append_nil s)

theorem scan_of_unfinished (hfront : Begun none front) (h : Unfinished fault construct) :
    (start here).scan (front ++ construct) = .error ⟨fault, here.advance front⟩ := by
  obtain ⟨level, brackets, hlevel, hscan⟩ := scan_begun hfront .statement
  refine (hscan construct (head_of_unfinished h)).trans ?_
  rw [scan_unfinished h hlevel]
  rfl

/-- What a scan comes to, for each kind of text. -/
theorem scan_cases (here : Position) (t : Text) :
    (Items none t ∧ (start here).scan t = .ok (t, [])) ∨
      (∃ s c rest, t = s ++ c :: rest ∧ Items none s ∧ isTerminator c = true ∧
        (start here).scan t = .ok (s, c :: rest)) ∨
      ∃ front construct fault, t = front ++ construct ∧ Begun none front ∧
        Unfinished fault construct ∧ (start here).scan t = .error ⟨fault, here.advance front⟩ := by
  cases exists_course none t with
  | items hitems =>
    refine .inl ⟨hitems, ?_⟩
    rw [← scan_of_items hitems (by simp), List.append_nil]
  | @stop s rest c hs hc =>
    have hrest : ∀ other ∈ (c :: rest).head?, isTerminator other = true := by
      rintro other ⟨⟩
      exact hc
    exact .inr (.inl ⟨s, c, rest, rfl, hs, hc, scan_of_items hs hrest⟩)
  | broken hfront hbroken =>
    exact .inr (.inr ⟨_, _, _, rfl, hfront, hbroken, scan_of_unfinished hfront hbroken⟩)

theorem scan_eq_stop_iff : (start here).scan t = .ok (s, c :: rest) ↔
    t = s ++ c :: rest ∧ Items none s ∧ isTerminator c = true := by
  constructor
  · intro h
    rcases scan_cases here t with
      ⟨-, hscan⟩ | ⟨s', c', rest', rfl, hs, hc, hscan⟩ | ⟨front, construct, fault, -, -, -, hscan⟩
    · cases h.symm.trans hscan
    · cases h.symm.trans hscan
      exact ⟨rfl, hs, hc⟩
    · cases h.symm.trans hscan
  · rintro ⟨rfl, hs, hc⟩
    exact scan_of_items hs (by simpa using hc)

theorem scan_eq_end_iff : (start here).scan t = .ok (s, []) ↔ s = t ∧ Items none t := by
  constructor
  · intro h
    rcases scan_cases here t with
      ⟨hitems, hscan⟩ | ⟨s', c', rest', -, -, -, hscan⟩ | ⟨front, construct, fault, -, -, -, hscan⟩
    · cases h.symm.trans hscan
      exact ⟨rfl, hitems⟩
    · cases h.symm.trans hscan
    · cases h.symm.trans hscan
  · rintro ⟨rfl, hitems⟩
    rw [← scan_of_items hitems (by simp), List.append_nil]

theorem scan_eq_error_iff {place : Position} : (start here).scan t = .error ⟨fault, place⟩ ↔
    ∃ front construct, t = front ++ construct ∧ Begun none front ∧ Unfinished fault construct ∧
      place = here.advance front := by
  constructor
  · intro h
    rcases scan_cases here t with ⟨-, hscan⟩ | ⟨s', c', rest', -, -, -, hscan⟩ |
      ⟨front, construct, fault, rfl, hfront, hbroken, hscan⟩
    · cases h.symm.trans hscan
    · cases h.symm.trans hscan
    · cases h.symm.trans hscan
      exact ⟨front, construct, rfl, hfront, hbroken, rfl⟩
  · rintro ⟨front, construct, rfl, hfront, hbroken, rfl⟩
    exact scan_of_unfinished hfront hbroken

/-- **The scanner goes by the grammar.** From any place on, for every text:

1. a scan stops in front of a character exactly if this is a terminator and there are items in front
   of it;
2. it goes up to the end of the text exactly if there are items and nothing else;
3. it fails exactly if something in it runs to the end, be it a string, a comment, or the innermost
   bracket that is open where neither of those is, and it says so at the place where that starts;
4. where it stops does not depend on what stands behind the terminator. -/
theorem scan_follows_items (here : Position) (t : Text) :
    (∀ statement c rest, (start here).scan t = .ok (statement, c :: rest) ↔
      t = statement ++ c :: rest ∧ Items none statement ∧ isTerminator c = true) ∧
    (∀ statement, (start here).scan t = .ok (statement, []) ↔ statement = t ∧ Items none t) ∧
    (∀ fault place, (start here).scan t = .error ⟨fault, place⟩ ↔
      ∃ front construct, t = front ++ construct ∧ Begun none front ∧ Unfinished fault construct ∧
        place = here.advance front) ∧
    ∀ statement c rest rest',
      (start here).scan (statement ++ c :: rest) = .ok (statement, c :: rest) ↔
        (start here).scan (statement ++ c :: rest') = .ok (statement, c :: rest') := by
  refine ⟨fun _ _ _ => scan_eq_stop_iff, fun _ => scan_eq_end_iff, fun _ _ => scan_eq_error_iff, ?_⟩
  intro statement c rest rest'
  rw [scan_eq_stop_iff, scan_eq_stop_iff]
  exact and_congr (iff_of_true rfl rfl) Iff.rfl

end Scanner

end MiniSheet
