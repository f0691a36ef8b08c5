import MiniSheet.Proofs.RoundTrip
import MiniSheet.Proofs.Shielded
import MiniSheet.Proofs.Tagging

/-!
# Where selectors are misread

The scanner that finds the end of a selector and the tagger that goes through it again have each
their own idea of strings, comments and brackets. While they are in step (`Selector.InStep`), the
tagger copies what is shielded. They get out of step in three ways, and then the tagger takes the
inside of a shielded part for a selector (`Selector.slips`):

* the tagger knows no comments;
* in square brackets it knows no strings, no comments and no further square brackets, so the first
  `]` ends them;
* in an argument that it copies it knows round brackets only, so a `)` in a string, a comment or in
  square brackets may end the argument.

A selector without such a place keeps its shielded parts, and where there is such a place, what is
read so far can go on such that a tag gets into a string, a comment or an attribute
(`Selector.keepsShielded_unless_slips`).
-/

namespace MiniSheet

open Text

namespace Selector

variable {mode : Mode} {d : Depth} {c q : Char} {tag selector front s t : Text}

/-! ## Two readings side by side -/

/-- Whether the tagger takes a character for something that it is not: the star of a comment for a
part of the selector, or a bracket inside of a shielded part for the end of what it copies. -/
def slips (mode : Mode) (d : Depth) (c : Char) : Bool :=
  match mode with
  | .boundary | .compound | .pseudo _ => d.zone == .slash && c == '*'
  | .bracketed => c == ']' && (d.step c).isShielded
  | .argument 0 => c == ')' && (d.step c).isShielded
  | _ => false

/-- Whether the tagger and the scanner agree along a text. -/
def keepsStep (mode : Mode) (d : Depth) : Text → Bool
  | [] => true
  | c :: t => !slips mode d c && keepsStep (mode.step c) (d.step c) t

theorem keepsStep_iff : keepsStep mode d t = true ↔
    ∀ front c back, t = front ++ c :: back →
      slips (mode.after front) (d.after front) c = false := by
  induction t generalizing mode d with
  | nil => simp [keepsStep]
  | cons c t ih =>
    rw [keepsStep, Bool.and_eq_true_iff, Bool.not_eq_true', ih]
    constructor
    · rintro ⟨hc, ht⟩ front other back heq
      rcases front with _ | ⟨first, front⟩
      · obtain ⟨rfl, -⟩ := List.cons.inj heq
        exact hc
      · obtain ⟨rfl, hrest⟩ := List.cons.inj heq
        exact ht front other back hrest
    · intro h
      exact ⟨h [] c t rfl, fun front other back heq => h (c :: front) other back (heq ▸ rfl)⟩

/-- What holds at a place while the two are in step: nothing is shielded where the tagger reads, and
where it is in a string, the scanner is in the same string and not in an attribute. Nothing is known
of attributes and arguments. -/
def InStep : Mode → Depth → Prop
  | .boundary, d | .compound, d | .pseudo _, d => d.isShielded = false
  | .quoted q, d => d.zone = .quoted q ∧ ']' ∉ d.closers
  | .escaped q, d => d.zone = .escaped q ∧ ']' ∉ d.closers
  | .bracketed, _ | .argument _, _ => True

theorem inStep_iff_of_isReading (h : mode.isReading = true) :
    InStep mode d ↔ d.isShielded = false := by
  cases mode with
  | boundary | compound | pseudo => exact Iff.rfl
  | bracketed | argument | quoted | escaped => cases h

theorem slips_of_isReading (h : mode.isReading = true) :
    slips mode d c = (d.zone == .slash && c == '*') := by
  cases mode with
  | boundary | compound | pseudo => rfl
  | bracketed | argument | quoted | escaped => cases h

/-- What a character does where the tagger reads. -/
theorem Mode.step_cases (h : mode.isReading = true) (c : Char) :
    (Zone.isQuote c = true ∧ mode.step c = .quoted c) ∨ (c = '[' ∧ mode.step c = .bracketed) ∨
      (c = '(' ∧ mode.step c = .argument 0) ∨
      (Zone.isQuote c = false ∧ c ≠ '[' ∧ (mode.step c).isReading = true) := by
  have hplain : (Zone.isQuote c = true ∧ plain c = .quoted c) ∨ (c = '[' ∧ plain c = .bracketed) ∨
      (c = '(' ∧ plain c = .argument 0) ∨
      (Zone.isQuote c = false ∧ c ≠ '[' ∧ (plain c).isReading = true) := by
    rw [plain]
    grind [isReading]
  cases mode with
  | boundary | compound => exact hplain
  | pseudo name =>
    rw [step]
    split
    · rename_i hname
      have hc := isPlain_of_isPseudoChar hname
      exact .inr (.inr (.inr ⟨isQuote_of_isPlain hc, ne_of_isPlain hc rfl, rfl⟩))
    · split
      · rename_i hopen
        rw [beq_iff_eq.1 (Bool.and_eq_true_iff.1 hopen).1]
        exact .inr (.inr (.inr ⟨rfl, by decide, rfl⟩))
      · exact hplain
  | bracketed | argument | quoted | escaped => cases h

/-- Without a slip the tagger and the scanner stay in step. -/
theorem InStep.step (h : InStep mode d) (hslip : slips mode d c = false) :
    InStep (mode.step c) (d.step c) := by
  by_cases hreading : mode.isReading = true
  · have hshield := (inStep_iff_of_isReading hreading).1 h
    obtain ⟨hcode, hclosers⟩ := Depth.isShielded_eq_false_iff.1 hshield
    rcases Mode.step_cases hreading c with
      ⟨hc, hmode⟩ | ⟨-, hmode⟩ | ⟨-, hmode⟩ | ⟨hc, hsquare, hmode⟩
    · rw [hmode]
      refine ⟨Zone.step_of_isQuote hcode hc, ?_⟩
      rw [Depth.step, if_pos hcode]
      refine Depth.notMem_nest hclosers ?_
      rintro rfl
      cases hc
    · rw [hmode]
      trivial
    · rw [hmode]
      trivial
    · rw [slips_of_isReading hreading] at hslip
      exact (inStep_iff_of_isReading hmode).2 (Depth.isShielded_step hshield hc hsquare hslip)
  cases mode with
  | boundary | compound | pseudo => exact absurd rfl hreading
  | bracketed =>
    rw [Mode.step]
    split
    · rename_i hclose
      rw [slips, hclose] at hslip
      exact hslip
    · trivial
  | argument depth =>
    rw [Mode.step.eq_def]
    dsimp only
    split
    · trivial
    split
    · rename_i hclose
      cases depth with
      | zero =>
        rw [slips, hclose] at hslip
        exact hslip
      | succ depth => trivial
    · trivial
  | quoted q =>
    obtain ⟨hzone, hclosers⟩ := h
    have hstep : d.step c = ⟨(Zone.quoted q).step c, d.closers⟩ := by
      rw [Depth.step, hzone]
      rfl
    rw [hstep, Mode.step, Zone.step]
    split
    · exact ⟨rfl, hclosers⟩
    split
    · exact Depth.isShielded_eq_false_iff.2 ⟨rfl, hclosers⟩
    · exact ⟨rfl, hclosers⟩
  | escaped q =>
    obtain ⟨hzone, hclosers⟩ := h
    have hstep : d.step c = ⟨.quoted q, d.closers⟩ := by
      rw [Depth.step, hzone]
      rfl
    rw [hstep]
    exact ⟨rfl, hclosers⟩

theorem inStep_start : InStep .boundary .start := rfl

theorem InStep.after (h : InStep mode d) (ht : keepsStep mode d t = true) :
    InStep (mode.after t) (d.after t) := by
  induction t generalizing mode d with
  | nil => exact h
  | cons c t ih =>
    rw [keepsStep, Bool.and_eq_true_iff, Bool.not_eq_true'] at ht
    exact ih (h.step ht.1) ht.2

/-! ## Tags inside of shielded parts -/

/-- All strings, comments and attributes of a selector are copied. -/
def KeepsShielded (selector : Text) : Prop :=
  ∀ front part back, selector = front ++ (part ++ back) → Shielded front part → ∀ tag,
    tagTypes tag selector =
      tagTypes tag front ++ (part ++ tagFrom tag (Mode.boundary.after (front ++ part)) back)

theorem isNameStart_of_shielded {part : Text} (h : Shielded front part) :
    ∀ c ∈ part.head?, isNameStart c = false := by
  intro c hc
  cases h with
  | @string quote body hfront hquote hbody =>
    obtain rfl := Option.some.inj hc
    rcases Bool.or_eq_true_iff.1 hquote with hdouble | hsingle
    · rw [beq_iff_eq.1 hdouble]
      decide +kernel
    · rw [beq_iff_eq.1 hsingle]
      decide +kernel
  | comment hfront hbody =>
    obtain rfl := Option.some.inj hc
    decide +kernel
  | group hfront hopen hfree =>
    obtain rfl := Option.some.inj hc
    decide +kernel

theorem tagTypes_split (tag front part back : Text) :
    tagTypes tag (front ++ (part ++ back)) =
      tagTypes tag front ++ (tagFrom tag (Mode.boundary.after front) part ++
        tagFrom tag (Mode.boundary.after (front ++ part)) back) := by
  rw [tagTypes, marked, ← tagFrom, tagFrom_append, tagFrom_append, Mode.after_append]
  rfl

/-- A selector keeps its shielded parts if no type selector starts at a shielded place. -/
theorem keepsShielded_of_untagged (h : ∀ front c back, selector = front ++ c :: back →
    (Depth.start.after front).isShielded = true →
    (Mode.boundary.after front).startsType c = false) : KeepsShielded selector := by
  rintro front part back rfl hpart tag
  have hcopied : tagFrom tag (Mode.boundary.after front) part = part := by
    refine tagFrom_eq_self fun s c t heq => ?_
    by_cases hs : s = []
    · subst hs
      exact startsType_eq_false (isNameStart_of_shielded hpart c (heq ▸ rfl))
    by_cases hc : c = '*'
    · subst hc
      exact startsType_eq_false (by decide +kernel)
    · rw [← Mode.after_append]
      exact h (front ++ s) c (t ++ back) (by simp [heq]) (hpart.isShielded heq hs hc)
  rw [tagTypes_split, hcopied]

theorem length_le_length_tagFrom (tag : Text) (mode : Mode) (t : Text) :
    t.length ≤ (tagFrom tag mode t).length := by
  induction t generalizing mode with
  | nil => exact Nat.le_refl 0
  | cons c t ih =>
    rw [tagFrom_cons, List.length_append, List.length_cons, List.length_cons]
    exact Nat.le_add_left_of_le (Nat.succ_le_succ (ih _))

/-- Conversely, a tag at a shielded place lies inside of a shielded part. -/
theorem not_keepsShielded {back : Text}
    (hfree : (Depth.start.after (front ++ c :: back)).isFree = true)
    (hshield : (Depth.start.after front).isShielded = true)
    (htype : (Mode.boundary.after front).startsType c = true) :
    ¬ KeepsShielded (front ++ c :: back) := by
  intro h
  obtain ⟨before, s, t, behind, rfl, hback, -, ht, hpart⟩ := exists_shielded hshield hfree
  obtain ⟨first, t, rfl⟩ := List.exists_cons_of_ne_nil ht
  rw [List.cons_append] at hback
  obtain ⟨rfl, rfl⟩ := List.cons.inj hback
  have hsplit : before ++ s ++ c :: (t ++ behind) = before ++ ((s ++ c :: t) ++ behind) := by simp
  have hkept := h before (s ++ c :: t) behind hsplit hpart ['x']
  rw [hsplit, tagTypes_split] at hkept
  have hpart : tagFrom ['x'] (Mode.boundary.after before) (s ++ c :: t) = s ++ c :: t :=
    List.append_cancel_right (List.append_cancel_left hkept)
  rw [Mode.after_append] at htype
  have hlength := congrArg List.length hpart
  rw [tagFrom_append, tagFrom_cons, if_pos htype] at hlength
  have hs := length_le_length_tagFrom ['x'] (Mode.boundary.after before) s
  have ht := length_le_length_tagFrom ['x'] (((Mode.boundary.after before).after s).step c) t
  simp only [List.length_append, List.length_cons, List.length_nil] at hlength
  omega

/-- **While the tagger is in step, it copies what is shielded.** -/
theorem keepsShielded_of_keepsStep (h : keepsStep .boundary .start selector = true) :
    KeepsShielded selector := by
  refine keepsShielded_of_untagged fun front c back heq hshield => startsType_of_ne_boundary
    fun hmode => ?_
  have hfront : keepsStep .boundary .start front = true :=
    keepsStep_iff.2 fun s d t ht => keepsStep_iff.1 h s d (t ++ c :: back) (by simp [heq, ht])
  have hstep := inStep_start.after hfront
  rw [hmode] at hstep
  exact Bool.false_ne_true (hstep.symm.trans hshield)

/-! ## Selectors of sources -/

/-- A selector that a source has. -/
def Occurs (selector : Text) : Prop :=
  ∃ source document, Document.parse source = .ok document ∧
    .opening (.rule selector) ∈ Node.piecesAll document.nodes

/-- Selectors have no form but that they are not empty, are trimmed and leave nothing open. -/
theorem occurs_iff : Occurs selector ↔ Rule.WellFormed selector := by
  constructor
  · rintro ⟨source, document, hparse, hmem⟩
    exact (Document.wellFormed_of_parse hparse).1 _ hmem
  · intro h
    -- a blank that is no gap keeps what follows from being taken for an at-rule or a comment
    have hsealed : Sealed ('\u00A0' :: selector) := by
      refine (sealed_append_iff (s := ['\u00A0']) fun c hc => .inl ?_).2 h.sealed
      rw [List.mem_singleton.1 hc]
      decide +kernel
    have htrim : trim ('\u00A0' :: selector) = selector := by
      rw [trim_cons_blank (by decide +kernel), h.trimmed.trim_eq]
    have hscan := hsealed.scan .start ['{', '}'] (by simp [Scanner.isTerminator])
    have hread : Token.readStatement .start ('\u00A0' :: (selector ++ ['{', '}'])) =
        .ok (.token (.opening (.rule selector) .start)
          ((Position.start.advance ('\u00A0' :: selector)).step '{') ['}']) := by
      rw [← List.cons_append, Token.readStatement, hscan]
      change (if (trim ('\u00A0' :: selector)).isEmpty then Except.error _
        else Except.ok
          (Token.Step.token (.opening (.rule (trim ('\u00A0' :: selector))) .start) _ _)) = _
      rw [htrim, if_neg (by simpa using h.ne_nil)]
    have hnext :=
      (Token.next_statement (by decide +kernel) (by decide) (by decide) (by simp)).trans hread
    have htokens := Token.readAll_of_token hnext
    rw [Token.readAll_of_token Token.next_closing, Token.readAll_of_done Token.next_nil] at htokens
    obtain ⟨document, hparse, -⟩ := Document.parse_of_pieces htokens
      (show _ = Node.piecesAll [.block (.rule selector) [] ⟨.start, .start⟩] by
        simp [Node.piecesAll, Node.pieces, Token.piece])
    have hpieces := (Document.pieces_of_parse hparse).2
    rw [htokens] at hpieces
    exact ⟨_, document, hparse, hpieces ▸ List.mem_cons_self⟩

theorem occurs_of_trim (htrim : trim selector = selector) (hne : selector ≠ [])
    (hsealed : Sealed selector) : Occurs selector :=
  occurs_iff.2 ⟨hne, htrim ▸ trimmed_trim selector, hsealed⟩

/-- Behind a slip, the tagger reads on inside of a shielded part. -/
theorem slips_spec (h : slips mode d c = true) :
    mode.step c = .compound ∧ (d.step c).isShielded = true := by
  have hcomment (hslip : (d.zone == .slash && c == '*') = true) : c = '*' ∧
      (d.step c).isShielded = true := by
    obtain ⟨hzone, hc⟩ := Bool.and_eq_true_iff.1 hslip
    obtain rfl := beq_iff_eq.1 hc
    refine ⟨rfl, Depth.isShielded_of_zone ?_⟩
    rw [Depth.step, beq_iff_eq.1 hzone]
    rfl
  cases mode with
  | boundary | compound =>
    obtain ⟨rfl, hshield⟩ := hcomment h
    exact ⟨rfl, hshield⟩
  | pseudo name =>
    obtain ⟨rfl, hshield⟩ := hcomment h
    refine ⟨?_, hshield⟩
    rw [Mode.step, if_neg (by decide +kernel)]
    rfl
  | bracketed =>
    obtain ⟨hc, hshield⟩ := Bool.and_eq_true_iff.1 h
    exact ⟨if_pos hc, hshield⟩
  | argument depth =>
    cases depth with
    | zero =>
      obtain ⟨hc, hshield⟩ := Bool.and_eq_true_iff.1 h
      obtain rfl := beq_iff_eq.1 hc
      exact ⟨rfl, hshield⟩
    | succ depth => cases h
  | quoted | escaped => cases h

/-- The start of a selector can be completed. -/
theorem wellFormed_complete {back : Text} (h : Rule.WellFormed (front ++ c :: back))
    (ht : ∀ c ∈ t, Scanner.isTerminator c = false)
    (hshield : (Depth.start.after (front ++ c :: t)).isShielded = true) :
    Rule.WellFormed (front ++ c :: (t ++ (Depth.start.after (front ++ c :: t)).closing)) := by
  have hproper := Depth.proper_start.after (front ++ c :: t)
  have hclosing := Depth.closing_spec hproper
  refine ⟨by simp, ⟨?_, ?_⟩, ?_⟩
  · have hhead := h.trimmed.head
    rcases front with _ | ⟨first, front⟩ <;> exact hhead
  · intro last hlast
    rw [← List.cons_append, ← List.append_assoc,
      List.getLast?_append_of_ne_nil _ (Depth.closing_ne_nil hshield)] at hlast
    exact (hclosing last (List.mem_of_mem_getLast? hlast)).1
  · obtain ⟨d, hrun, -⟩ := h.sealed
    rw [List.append_cons, Depth.run_append] at hrun
    obtain ⟨between, hbetween, -⟩ := Option.bind_eq_some_iff.1 hrun
    have hrest : ∀ other ∈ t ++ (Depth.start.after (front ++ c :: t)).closing,
        Scanner.isTerminator other = false := by
      intro other hother
      rcases List.mem_append.1 hother with hother | hother
      · exact ht other hother
      · exact (hclosing other hother).2
    refine ⟨_, ?_, Depth.isFree_after_closing hproper⟩
    rw [List.append_cons, Depth.run_append, hbetween, Option.bind_some,
      Depth.run_of_isTerminator hrest, ← Depth.after_of_run hbetween, ← Depth.after_append,
      ← List.append_assoc, ← List.append_cons, Depth.after_append]

/-- **Strings, comments and attributes are copied, unless the tagger slips.** -/
theorem keepsShielded_unless_slips (selector : Text) (h : Occurs selector) :
    (keepsStep .boundary .start selector = true → KeepsShielded selector) ∧
      ∀ front c back, selector = front ++ c :: back →
        slips (Mode.boundary.after front) (Depth.start.after front) c = true →
          ∃ other, Occurs (front ++ c :: other) ∧ ¬ KeepsShielded (front ++ c :: other) := by
  refine ⟨keepsShielded_of_keepsStep, ?_⟩
  rintro front c back rfl hslip
  obtain ⟨hmode, hshield⟩ := slips_spec hslip
  have hproper := Depth.proper_start.after front
  -- a blank makes a boundary, and behind it the name `b` is tagged
  have hblank : (Depth.start.after (front ++ [c, ' '])).isShielded = true := by
    rw [Depth.after_append]
    exact Depth.isShielded_step_of_isPlain (hproper.step c) hshield (by decide)
  have hname : (Depth.start.after (front ++ c :: [' ', 'b'])).isShielded = true := by
    rw [Depth.after_append] at hblank ⊢
    exact Depth.isShielded_step_of_isPlain ((hproper.step c).step ' ') hblank (by decide)
  have htype : (Mode.boundary.after (front ++ [c, ' '])).startsType 'b' = true := by
    rw [Mode.after_append, Mode.after_cons, hmode]
    decide +kernel
  have hform := wellFormed_complete (occurs_iff.1 h) (by simp [Scanner.isTerminator]) hname
  refine ⟨_, occurs_iff.2 hform, ?_⟩
  have hfree := Depth.isFree_after_of_sealed hform.sealed
  have hsplit (closing : Text) : front ++ c :: ([' ', 'b'] ++ closing) =
      (front ++ [c, ' ']) ++ 'b' :: closing := by
    simp
  rw [hsplit] at hfree ⊢
  exact not_keepsShielded hfree hblank htype

/-- A selector with a string in an attribute and a string in an argument. -/
def varied : Text := "a[b=\"c d\"] > e:lang('f g'):not(h)".toList

/-- A selector with a square bracket inside of a string in an attribute. -/
def bracketInString : Text := "a[b=\"] c\"]".toList

/-- The tagger does not slip in `a[b="c d"] > e:lang('f g'):not(h)`. -/
theorem keepsShielded_unless_slips_varied :
    Occurs varied ∧ keepsStep .boundary .start varied = true ∧ KeepsShielded varied := by
  have hoccurs : Occurs varied := occurs_of_trim (by decide +kernel) (by decide) ⟨_, rfl, rfl⟩
  have hstep : keepsStep .boundary .start varied = true := by decide +kernel
  exact ⟨hoccurs, hstep, (keepsShielded_unless_slips varied hoccurs).1 hstep⟩

/-- In `a[b="] c"]` the tagger slips at the first `]`, and the string `"] c"` gets a tag. -/
theorem tag_in_string :
    Occurs bracketInString ∧ bracketInString = "a[b=".toList ++ ("\"] c\"".toList ++ "]".toList) ∧
      Shielded "a[b=".toList "\"] c\"".toList ∧
      tagTypes "wx-".toList bracketInString = "wx-a[b=\"] wx-c\"]".toList ∧
      tagTypes "wx-".toList "a[b=".toList = "wx-a[b=".toList := by
  refine ⟨occurs_of_trim (by decide +kernel) (by decide) ⟨_, rfl, rfl⟩, by decide,
    ?_, by decide +kernel, by decide +kernel⟩
  have hbody : StringBody '"' [']', ' ', 'c'] :=
    .char (by decide) (by decide)
      (.char (by decide) (by decide) (.char (by decide) (by decide) .nil))
  exact .string (outside_iff.2 (by decide)) rfl hbody

end Selector

end MiniSheet
