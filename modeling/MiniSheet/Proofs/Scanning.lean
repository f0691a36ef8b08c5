import MiniSheet.Proofs.Outcome
import MiniSheet.Source.Scanner
import MiniSheet.Text.Name

/-!
# Where a statement ends

The scanner keeps track of places, but where a statement ends does not depend on them: all that
matters is the zone and which brackets are open, the *depth* (`Depth`). So there is a description of
scanning without places: a scan splits a text into a statement and a rest exactly if no statement
ends inside the first part, nothing is open behind it, and the second part is empty or starts with a
terminator (`Scanner.scan_eq_ok_iff`).

A text that nothing ends and that leaves nothing open is `Sealed`. Most characters never open or
close anything (`Text.isPlain`): blanks, the characters of names, digits. They can be put around a
sealed text, or taken away from its ends, and it stays sealed; so trimming does no harm
(`Sealed.trim`).
-/

namespace MiniSheet

/-! ## Depth -/

/-- What decides whether a statement ends at a place. -/
structure Depth where
  /-- whether the place lies in code, a string or a comment -/
  zone : Zone
  /-- the characters that close the open brackets, innermost first -/
  closers : List Char
  deriving Repr, DecidableEq

namespace Depth

/-- In front of a statement nothing is open. -/
def start : Depth := ⟨.code, []⟩

/-- The open brackets behind a character of code. -/
def nest (closers : List Char) (c : Char) : List Char :=
  match Bracket.closer? c with
  | some closer => closer :: closers
  | none => if closers.head? == some c then closers.tail else closers

/-- The depth behind one more character. -/
def step (d : Depth) (c : Char) : Depth where
  zone := d.zone.step c
  closers := if d.zone.isCode then nest d.closers c else d.closers

/-- Whether nothing is open. -/
def isFree (d : Depth) : Bool := d.zone.isCode && d.closers.isEmpty

/-- The depth behind a text, unless a statement ends inside it. -/
def run (d : Depth) : Text → Option Depth
  | [] => some d
  | c :: t => if Scanner.isTerminator c && d.isFree then none else (d.step c).run t

variable {d d' : Depth} {c : Char} {s t : Text}

theorem run_cons :
    d.run (c :: t) = if Scanner.isTerminator c && d.isFree then none else (d.step c).run t := rfl

@[simp] theorem run_append : d.run (s ++ t) = (d.run s).bind fun between => between.run t := by
  induction s generalizing d with
  | nil => rfl
  | cons c s ih =>
    rw [List.cons_append, run_cons, run_cons]
    split
    · rfl
    · exact ih

end Depth

namespace Scanner

/-- The depth at the place of a scanner. -/
def depth (s : Scanner) : Depth := ⟨s.zone, s.brackets.map Bracket.closer⟩

variable {s : Scanner} {t statement rest : Text}

theorem map_closer_nest (here : Position) (brackets : List Bracket) (c : Char) :
    (Bracket.nest here brackets c).map Bracket.closer =
      Depth.nest (brackets.map Bracket.closer) c := by
  rw [Bracket.nest.eq_def, Depth.nest]
  cases Bracket.closer? c with
  | some closer => rfl
  | none =>
    cases brackets with
    | nil => rfl
    | cons innermost outer => exact apply_ite (List.map Bracket.closer) ..

theorem depth_step (s : Scanner) (c : Char) : (s.step c).depth = s.depth.step c := by
  have hbrackets : (s.step c).brackets.map Bracket.closer =
      if s.zone.isCode then Depth.nest (s.brackets.map Bracket.closer) c
        else s.brackets.map Bracket.closer := by
    rw [step, apply_ite (List.map Bracket.closer), map_closer_nest]
  rw [depth, hbrackets]
  rfl

theorem stopsAt_eq (s : Scanner) (c : Char) : s.stopsAt c = (isTerminator c && s.depth.isFree) := by
  rw [stopsAt, Depth.isFree, depth, List.isEmpty_map, Bool.and_assoc]

theorem finish_of_isFree (h : s.depth.isFree = true) : s.finish = .ok () := by
  rw [Depth.isFree, depth] at h
  rw [finish]
  cases hzone : s.zone <;> cases hbrackets : s.brackets <;> simp_all [Zone.isCode]

theorem isFree_of_finish (h : s.finish = .ok ()) : s.depth.isFree = true := by
  rw [finish] at h
  rw [Depth.isFree, depth]
  cases hzone : s.zone <;> cases hbrackets : s.brackets <;> simp_all [Zone.isCode]

/-- A scan goes on to the first place where a statement may end. -/
theorem scan_of_run {d : Depth} (hrun : s.depth.run statement = some d) (hfree : d.isFree = true)
    (hrest : ∀ c ∈ rest.head?, isTerminator c = true) :
    s.scan (statement ++ rest) = .ok (statement, rest) := by
  induction statement generalizing s with
  | nil =>
    obtain rfl := Option.some.inj hrun
    cases rest with
    | nil =>
      rw [List.append_nil, scan, finish_of_isFree hfree]
      rfl
    | cons c rest =>
      rw [List.nil_append, scan, stopsAt_eq, hrest c rfl, hfree, Bool.and_self, if_pos rfl]
  | cons c statement ih =>
    rw [Depth.run_cons] at hrun
    split at hrun
    · cases hrun
    · rename_i hgo
      rw [← depth_step] at hrun
      rw [List.cons_append, scan, stopsAt_eq, if_neg hgo, ih hrun]
      rfl

/-- Where a scan stops nothing is open, and no statement ends before. -/
theorem run_of_scan (h : s.scan t = .ok (statement, rest)) :
    ∃ d, s.depth.run statement = some d ∧ d.isFree = true := by
  induction t generalizing s statement with
  | nil =>
    rw [scan] at h
    obtain ⟨⟨⟩, hfinish, hpair⟩ := Outcome.map_eq_ok h
    obtain ⟨rfl, -⟩ := Prod.mk.inj hpair
    exact ⟨_, rfl, isFree_of_finish hfinish⟩
  | cons c t ih =>
    rw [scan, stopsAt_eq] at h
    split at h
    · rename_i hstop
      obtain ⟨rfl, -⟩ := Prod.mk.inj (Except.ok.inj h)
      exact ⟨_, rfl, (Bool.and_eq_true_iff.1 hstop).2⟩
    · rename_i hgo
      obtain ⟨⟨front, back⟩, hscan, hpair⟩ := Outcome.map_eq_ok h
      obtain ⟨rfl, rfl⟩ := Prod.mk.inj hpair
      rw [Depth.run_cons, if_neg hgo, ← depth_step]
      exact ih hscan

/-- **Scanning without places.** A scan splits a text into a statement and the rest exactly if
nothing ends or stays open in the statement and the rest is empty or starts with a terminator. -/
theorem scan_eq_ok_iff : s.scan t = .ok (statement, rest) ↔
    t = statement ++ rest ∧ (∃ d, s.depth.run statement = some d ∧ d.isFree = true) ∧
      ∀ c ∈ rest.head?, isTerminator c = true := by
  constructor
  · intro h
    obtain ⟨ht, hrest⟩ := scan_append h
    exact ⟨ht, run_of_scan h, hrest⟩
  · rintro ⟨rfl, ⟨d, hrun, hfree⟩, hrest⟩
    exact scan_of_run hrun hfree hrest

end Scanner

/-! ## Plain characters -/

namespace Text

/-- The characters that open or close something, or end a statement. -/
def special : Text := ['"', '\'', '/', '*', '(', ')', '[', ']', '{', ';', '}']

/-- A character that never opens or closes anything and ends no statement. -/
def isPlain (c : Char) : Bool := !special.contains c

/-- A class of characters is plain if none of the special characters belongs to it. -/
theorem isPlain_of_class {p : Char → Bool} (hp : (special.all fun c => !p c) = true) {c : Char}
    (h : p c = true) : isPlain c = true := by
  rw [isPlain, Bool.not_eq_true', Bool.eq_false_iff]
  intro hspecial
  have hnot := List.all_eq_true.1 hp c (List.contains_iff_mem.1 hspecial)
  rw [h] at hnot
  cases hnot

theorem isPlain_of_isBlank {c : Char} (h : isBlank c = true) : isPlain c = true :=
  isPlain_of_class (by decide +kernel) h

theorem isPlain_of_isGap {c : Char} (h : isGap c = true) : isPlain c = true :=
  isPlain_of_isBlank (isBlank_of_isGap h)

theorem isPlain_of_isNameChar {c : Char} (h : isNameChar c = true) : isPlain c = true :=
  isPlain_of_class (by decide +kernel) h

/-- A star may open a comment, but only behind a slash. -/
theorem isPlain_or_eq_star_of_isPropertyChar {c : Char} (h : isPropertyChar c = true) :
    isPlain c = true ∨ c = '*' := by
  simp only [isPropertyChar, Bool.or_eq_true, beq_iff_eq] at h
  rcases h with (hname | rfl) | rfl
  · exact .inl (isPlain_of_isNameChar hname)
  · exact .inr rfl
  · exact .inl rfl

theorem ne_of_isPlain {c other : Char} (h : isPlain c = true) (hother : isPlain other = false) :
    c ≠ other := by
  rintro rfl
  rw [h] at hother
  cases hother

theorem isTerminator_of_isPlain {c : Char} (h : isPlain c = true) :
    Scanner.isTerminator c = false := by
  have hopening : c ≠ '{' := ne_of_isPlain h rfl
  have hsemicolon : c ≠ ';' := ne_of_isPlain h rfl
  have hclosing : c ≠ '}' := ne_of_isPlain h rfl
  simp [Scanner.isTerminator, hopening, hsemicolon, hclosing]

theorem isQuote_of_isPlain {c : Char} (h : isPlain c = true) : Zone.isQuote c = false := by
  have hdouble : c ≠ '"' := ne_of_isPlain h rfl
  have hsingle : c ≠ '\'' := ne_of_isPlain h rfl
  simp [Zone.isQuote, hdouble, hsingle]

end Text

open Text

namespace Zone

variable {zone : Zone} {c : Char}

/-- Behind a plain character of code there is code. -/
theorem step_of_isPlain (hcode : zone.isCode = true) (hc : isPlain c = true) :
    zone.step c = .code := by
  have hslash : c ≠ '/' := ne_of_isPlain hc rfl
  have hstar : c ≠ '*' := ne_of_isPlain hc rfl
  have henter : enter c = .code := by simp [enter, isQuote_of_isPlain hc, hslash]
  cases zone with
  | code => exact henter
  | slash => rw [step, if_neg (by simpa using hstar), henter]
  | quoted | escaped | comment | star => cases hcode

/-- Where code starts behind a character there was code in front of it, unless the character closes
a string or a comment: strings are closed by quotes and comments by slashes. -/
theorem isCode_of_step (hquote : ∀ q, zone = .quoted q → isQuote q = true) (hc : isQuote c = false)
    (hslash : c ≠ '/') (hcode : (zone.step c).isCode = true) : zone.isCode = true := by
  cases zone with
  | code | slash => rfl
  | quoted q =>
    have hne : c ≠ q := by
      rintro rfl
      exact Bool.false_ne_true (hc.symm.trans (hquote c rfl))
    have hclose : ¬ (c == q) = true := by simpa using hne
    rw [step, if_neg hclose] at hcode
    split at hcode <;> cases hcode
  | escaped q => cases hcode
  | comment =>
    rw [step] at hcode
    split at hcode <;> cases hcode
  | star =>
    rw [step, if_neg (by simpa using hslash)] at hcode
    split at hcode <;> cases hcode

end Zone

namespace Depth

variable {d d' : Depth} {c : Char} {s t : Text}

/-- What all depths have in common that are reached from the start of a statement. -/
structure Proper (d : Depth) : Prop where
  /-- strings are open only with a quote -/
  quoted : ∀ q, d.zone = .quoted q → Zone.isQuote q = true
  /-- also behind a backslash -/
  escaped : ∀ q, d.zone = .escaped q → Zone.isQuote q = true
  /-- brackets are open only with a bracket -/
  closer : ∀ c ∈ d.closers, c = ')' ∨ c = ']'

theorem proper_start : start.Proper where
  quoted q h := by cases h
  escaped q h := by cases h
  closer c h := absurd h List.not_mem_nil

theorem eq_of_closer? {closer : Char} (h : Bracket.closer? c = some closer) :
    closer = ')' ∨ closer = ']' := by
  rw [Bracket.closer?.eq_def] at h
  split at h <;> cases h <;> simp

/-- What is no bracket opens none. -/
theorem closer?_of_notMem (hc : c ∉ ['(', ')', '[', ']']) : Bracket.closer? c = none := by
  rw [Bracket.closer?.eq_def]
  split <;> first | rfl | simp at hc

/-- What is no bracket closes none. -/
theorem closer_ne_of_notMem {closer : Char} (hcloser : closer = ')' ∨ closer = ']')
    (hc : c ∉ ['(', ')', '[', ']']) : closer ≠ c := by
  rintro rfl
  rcases hcloser with rfl | rfl <;> simp at hc

theorem Proper.step (h : d.Proper) (c : Char) : (d.step c).Proper where
  quoted q hq := by
    change d.zone.step c = _ at hq
    have hquoted := h.quoted q
    have hescaped := h.escaped q
    rcases hzone : d.zone <;> grind [Zone.step, Zone.enter]
  escaped q hq := by
    change d.zone.step c = _ at hq
    have hquoted := h.quoted q
    rcases hzone : d.zone <;> grind [Zone.step, Zone.enter]
  closer other hother := by
    change other ∈ (if d.zone.isCode then nest d.closers c else d.closers) at hother
    split at hother
    · rw [nest] at hother
      split at hother
      · rename_i closer hcloser
        rcases List.mem_cons.1 hother with rfl | hmem
        · exact eq_of_closer? hcloser
        · exact h.closer other hmem
      · split at hother
        · exact h.closer other (List.mem_of_mem_tail hother)
        · exact h.closer other hother
    · exact h.closer other hother

theorem Proper.run (h : d.Proper) (hrun : d.run t = some d') : d'.Proper := by
  induction t generalizing d with
  | nil =>
    obtain rfl := Option.some.inj hrun
    exact h
  | cons c t ih =>
    rw [run_cons] at hrun
    split at hrun
    · cases hrun
    · exact ih (h.step c) hrun

/-- Only brackets open and close brackets. -/
theorem nest_of_notMem (h : d.Proper) (hc : c ∉ ['(', ')', '[', ']']) :
    nest d.closers c = d.closers := by
  rw [nest, closer?_of_notMem hc]
  refine if_neg fun hhead => ?_
  have hcloser := h.closer c (List.mem_of_mem_head? (beq_iff_eq.1 hhead))
  exact closer_ne_of_notMem hcloser hc rfl

/-- A plain character opens and closes no brackets. -/
theorem nest_of_isPlain (h : d.Proper) (hc : isPlain c = true) : nest d.closers c = d.closers := by
  refine nest_of_notMem h fun hmem => ?_
  have hspecial : isPlain c = false := by
    simp only [List.mem_cons, List.not_mem_nil, or_false] at hmem
    rcases hmem with rfl | rfl | rfl | rfl <;> rfl
  rw [hc] at hspecial
  cases hspecial

/-- Behind a plain character of code there is code, and the same brackets are open. -/
theorem step_of_isPlain (h : d.Proper) (hcode : d.zone.isCode = true) (hc : isPlain c = true) :
    d.step c = ⟨.code, d.closers⟩ := by
  rw [step, Zone.step_of_isPlain hcode hc, if_pos hcode, nest_of_isPlain h hc]

/-- Conversely a plain character closes nothing. -/
theorem isFree_of_step (h : d.Proper) (hc : isPlain c = true) (hfree : (d.step c).isFree = true) :
    d.isFree = true := by
  obtain ⟨hcode, hclosers⟩ := Bool.and_eq_true_iff.1 hfree
  have hbefore := Zone.isCode_of_step h.quoted (isQuote_of_isPlain hc) (ne_of_isPlain hc rfl) hcode
  rw [step_of_isPlain h hbefore hc] at hclosers
  exact Bool.and_eq_true_iff.2 ⟨hbefore, hclosers⟩

/-- Nor does a terminator close anything. -/
theorem isFree_of_step_terminator (h : d.Proper) (hc : Scanner.isTerminator c = true)
    (hfree : (d.step c).isFree = true) : d.isFree = true := by
  have hclass : Zone.isQuote c = false ∧ c ≠ '/' ∧ c ∉ ['(', ')', '[', ']'] := by
    simp only [Scanner.isTerminator, Bool.or_eq_true, beq_iff_eq] at hc
    rcases hc with (rfl | rfl) | rfl <;> decide
  obtain ⟨hquote, hslash, hbracket⟩ := hclass
  obtain ⟨hcode, hclosers⟩ := Bool.and_eq_true_iff.1 hfree
  have hbefore := Zone.isCode_of_step h.quoted hquote hslash hcode
  rw [step, if_pos hbefore, nest_of_notMem h hbracket] at hclosers
  exact Bool.and_eq_true_iff.2 ⟨hbefore, hclosers⟩

/-- Behind plain text in code there is code, and the same brackets are open. -/
theorem run_of_isPlain (h : d.Proper) (hcode : d.zone.isCode = true)
    (ht : ∀ c ∈ t, isPlain c = true) (hne : t ≠ []) : d.run t = some ⟨.code, d.closers⟩ := by
  induction t generalizing d with
  | nil => exact absurd rfl hne
  | cons c t ih =>
    have hc := ht c List.mem_cons_self
    have hstep := step_of_isPlain h hcode hc
    have hgo : ¬ (Scanner.isTerminator c && d.isFree) = true := by
      rw [isTerminator_of_isPlain hc]
      exact Bool.false_ne_true
    rw [run_cons, if_neg hgo]
    rcases t with _ | ⟨next, t⟩
    · rw [hstep]
      rfl
    · rw [ih (h.step c) (by rw [hstep]; rfl)
        (fun other hmem => ht other (List.mem_cons_of_mem _ hmem)) (List.cons_ne_nil _ _), hstep]

/-- Nothing is open behind plain text in front of a statement, even if there are stars in it. -/
theorem run_start (ht : ∀ c ∈ t, isPlain c = true ∨ c = '*') : start.run t = some start := by
  induction t with
  | nil => rfl
  | cons c t ih =>
    have hrest := ih fun other hmem => ht other (List.mem_cons_of_mem _ hmem)
    rcases ht c List.mem_cons_self with hc | rfl
    · rw [run_cons, isTerminator_of_isPlain hc, step_of_isPlain proper_start rfl hc]
      exact hrest
    · exact hrest

/-- Conversely plain text closes nothing. -/
theorem isFree_of_run (h : d.Proper) (ht : ∀ c ∈ t, isPlain c = true) (hrun : d.run t = some d')
    (hfree : d'.isFree = true) : d.isFree = true := by
  induction t generalizing d with
  | nil =>
    obtain rfl := Option.some.inj hrun
    exact hfree
  | cons c t ih =>
    rw [run_cons] at hrun
    split at hrun
    · cases hrun
    · exact isFree_of_step h (ht c List.mem_cons_self)
        (ih (h.step c) (fun other hmem => ht other (List.mem_cons_of_mem _ hmem)) hrun)

end Depth

/-! ## Sealed texts -/

/-- No statement ends inside the text, and nothing is open behind it. -/
def Sealed (t : Text) : Prop := ∃ d, Depth.start.run t = some d ∧ d.isFree = true

namespace Sealed

variable {c : Char} {s t : Text}

/-- A sealed text is a statement wherever one may end behind it. -/
theorem scan (h : Sealed t) (here : Position) (rest : Text)
    (hrest : ∀ c ∈ rest.head?, Scanner.isTerminator c = true) :
    (Scanner.start here).scan (t ++ rest) = .ok (t, rest) :=
  Scanner.scan_eq_ok_iff.2 ⟨rfl, h, hrest⟩

/-- No terminator stands in front of a sealed text. -/
theorem isTerminator_head (h : Sealed (c :: t)) : Scanner.isTerminator c = false := by
  obtain ⟨d, hrun, -⟩ := h
  rw [Depth.run_cons] at hrun
  split at hrun
  · cases hrun
  · rename_i hgo
    simpa [Depth.isFree, Depth.start, Zone.isCode] using hgo

/-- No terminator stands at the end of a sealed text: it would be open in front of the terminator,
and the terminator closes nothing. -/
theorem isTerminator_last (h : Sealed t) : ∀ c ∈ t.getLast?, Scanner.isTerminator c = false := by
  intro c hc
  obtain ⟨front, rfl⟩ := List.getLast?_eq_some_iff.1 hc
  obtain ⟨d, hrun, hfree⟩ := h
  rw [Depth.run_append] at hrun
  obtain ⟨between, hbetween, hrun⟩ := Option.bind_eq_some_iff.1 hrun
  rw [Bool.eq_false_iff]
  intro hterminator
  rw [Depth.run_cons] at hrun
  split at hrun
  · cases hrun
  · rename_i hgo
    obtain rfl := Option.some.inj hrun
    have hproper := Depth.proper_start.run hbetween
    exact hgo
      (Bool.and_eq_true_iff.2 ⟨hterminator,
        Depth.isFree_of_step_terminator hproper hterminator hfree⟩)

/-- Plain text behind a sealed text leaves it sealed. -/
theorem append_plain (h : Sealed t) (hs : ∀ c ∈ s, isPlain c = true) : Sealed (t ++ s) := by
  obtain ⟨d, hrun, hfree⟩ := h
  by_cases hne : s = []
  · rw [hne, List.append_nil]
    exact ⟨d, hrun, hfree⟩
  · obtain ⟨hcode, hclosers⟩ := Bool.and_eq_true_iff.1 hfree
    refine ⟨⟨.code, d.closers⟩, ?_, hclosers⟩
    rw [Depth.run_append, hrun]
    exact Depth.run_of_isPlain (Depth.proper_start.run hrun) hcode hs hne

/-- Plain text behind a sealed text can be taken away. -/
theorem of_append_plain (h : Sealed (t ++ s)) (hs : ∀ c ∈ s, isPlain c = true) : Sealed t := by
  obtain ⟨d, hrun, hfree⟩ := h
  rw [Depth.run_append] at hrun
  obtain ⟨between, hbetween, hrun⟩ := Option.bind_eq_some_iff.1 hrun
  exact ⟨between, hbetween, Depth.isFree_of_run (Depth.proper_start.run hbetween) hs hrun hfree⟩

end Sealed

/-- Plain text in front of a text makes no difference. -/
theorem sealed_append_iff {s t : Text} (hs : ∀ c ∈ s, isPlain c = true ∨ c = '*') :
    Sealed (s ++ t) ↔ Sealed t := by
  rw [Sealed, Depth.run_append, Depth.run_start hs]
  rfl

theorem sealed_nil : Sealed [] := ⟨_, rfl, rfl⟩

theorem Sealed.trimEnd {t : Text} (h : Sealed t) : Sealed (trimEnd t) := by
  obtain ⟨back, ht, hback⟩ := exists_trimEnd_append t
  rw [ht] at h
  exact h.of_append_plain fun c hc => isPlain_of_isBlank (hback c hc)

/-- Trimming leaves a sealed text sealed. -/
theorem Sealed.trim {t : Text} (h : Sealed t) : Sealed (trim t) := by
  obtain ⟨front, ht, hfront⟩ := exists_append_trimStart t
  rw [ht] at h
  exact ((sealed_append_iff fun c hc => .inl (isPlain_of_isBlank (hfront c hc))).1 h).trimEnd

end MiniSheet
