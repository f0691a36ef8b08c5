import Mathlib.Data.List.Induction
import Mathlib.Data.List.TakeWhile
import MiniSheet.Proofs.Scanning
import MiniSheet.Selector

/-!
# Tagging selectors part by part

A selector is tagged from left to right, so a text behind another one is tagged from the mode that
the first one leaves (`Selector.tagFrom_append`). What is written for the second text on its own is
what is written for it behind the first one if the first one leaves a boundary.

The argument of `:not` and its kind is meant to be such a place. It is one exactly if no other
pseudo-class stands directly in front (`Selector.tagTypes_argument_iff`): behind `:hover` the name
goes on over the colon of `:not`, and `hover:not` takes no selector. Then the argument is copied,
and its type selectors stay without a tag.
-/

namespace MiniSheet

namespace Selector

open Text

variable {mode : Mode} {tag name s t : Text} {c : Char}

/-! ## Modes along a text -/

namespace Mode

/-- The mode behind a text. -/
def after (mode : Mode) (t : Text) : Mode := t.foldl step mode

@[simp] theorem after_nil (mode : Mode) : mode.after [] = mode := rfl

@[simp] theorem after_cons (mode : Mode) (c : Char) (t : Text) :
    mode.after (c :: t) = (mode.step c).after t := rfl

@[simp] theorem after_append (mode : Mode) (s t : Text) :
    mode.after (s ++ t) = (mode.after s).after t :=
  List.foldl_append ..

/-- Whether the place lies outside of everything that is copied to its end: strings, attributes and
arguments that are no selectors. -/
def isReading : Mode → Bool
  | boundary | compound | pseudo _ => true
  | _ => false

end Mode

/-! ## Tagging from a mode on -/

/-- The text of a selector with tags, where the text in front has left a mode. -/
def tagFrom (tag : Text) (mode : Mode) (t : Text) : Text :=
  (markedFrom mode t).flatMap (writeMarked tag)

theorem tagFrom_cons (tag : Text) (mode : Mode) (c : Char) (t : Text) :
    tagFrom tag mode (c :: t) = (if mode.startsType c then tag else []) ++
      c :: tagFrom tag (mode.step c) t := by
  rw [tagFrom, markedFrom, List.flatMap_cons, ← tagFrom]
  cases mode.startsType c with
  | true => exact List.append_cons .. ▸ rfl
  | false => rfl

theorem tagFrom_append (tag : Text) (mode : Mode) (s t : Text) :
    tagFrom tag mode (s ++ t) = tagFrom tag mode s ++ tagFrom tag (mode.after s) t := by
  induction s generalizing mode with
  | nil => rfl
  | cons c s ih =>
    rw [List.cons_append, tagFrom_cons, tagFrom_cons, ih, List.append_assoc, List.cons_append,
      Mode.after_cons]

/-- A text is copied if no type selector starts in it. -/
theorem tagFrom_eq_self (h : ∀ front c back, t = front ++ c :: back →
    (mode.after front).startsType c = false) : tagFrom tag mode t = t := by
  induction t generalizing mode with
  | nil => rfl
  | cons c t ih =>
    have hc : mode.startsType c = false := h [] c t rfl
    have ht : tagFrom tag (mode.step c) t = t :=
      ih fun front d back heq => h (c :: front) d back (heq ▸ rfl)
    rw [tagFrom_cons, hc, ht]
    rfl

theorem startsType_eq_false (h : isNameStart c = false) : mode.startsType c = false := by
  cases mode with
  | boundary => exact h
  | _ => rfl

theorem startsType_of_ne_boundary (h : mode ≠ .boundary) : mode.startsType c = false := by
  cases mode with
  | boundary => exact absurd rfl h
  | _ => rfl

/-! ## Names of pseudo-classes -/

/-- The characters that the name of a pseudo-class runs over. -/
def isPseudoChar (c : Char) : Bool := isNameChar c || c == ':'

theorem isPlain_of_isPseudoChar (h : isPseudoChar c = true) : isPlain c = true := by
  rcases Bool.or_eq_true_iff.1 h with hname | hcolon
  · exact isPlain_of_isNameChar hname
  · rw [beq_iff_eq.1 hcolon]
    rfl

namespace Mode

theorem plain_eq_pseudo (h : plain c = pseudo name) : c = ':' ∧ name = [] := by
  rw [plain] at h
  split at h
  · cases h
  split at h
  · cases h
  split at h
  · cases h
  split at h
  · rename_i hcolon
    exact ⟨beq_iff_eq.1 hcolon, (pseudo.inj h).symm⟩
  split at h
  · cases h
  · cases h

/-- A name starts behind a colon and goes on with each of its characters. -/
theorem step_eq_pseudo (h : mode.step c = pseudo name) :
    (mode.isReading = true ∧ c = ':' ∧ name = []) ∨
      ∃ front, mode = pseudo front ∧ isPseudoChar c = true ∧ name = front ++ [c] := by
  cases mode with
  | boundary | compound => exact .inl ⟨rfl, plain_eq_pseudo h⟩
  | pseudo front =>
    rw [step] at h
    split at h
    · rename_i hc
      exact .inr ⟨front, rfl, hc, (pseudo.inj h).symm⟩
    split at h
    · cases h
    · exact .inl ⟨rfl, plain_eq_pseudo h⟩
  | bracketed =>
    rw [step] at h
    split at h <;> cases h
  | argument depth =>
    rw [step.eq_def] at h
    dsimp only at h
    split at h
    · cases h
    split at h
    · cases depth <;> cases h
    · cases h
  | quoted quote =>
    rw [step] at h
    split at h
    · cases h
    split at h <;> cases h
  | escaped quote => cases h

theorem step_pseudo (h : isPseudoChar c = true) : (pseudo name).step c = pseudo (name ++ [c]) :=
  if_pos h

theorem after_pseudo (h : ∀ c ∈ t, isPseudoChar c = true) :
    (pseudo name).after t = pseudo (name ++ t) := by
  induction t generalizing name with
  | nil => rw [after_nil, List.append_nil]
  | cons c t ih =>
    rw [after_cons, step_pseudo (h c List.mem_cons_self),
      ih fun d hd => h d (List.mem_cons_of_mem _ hd), List.append_assoc]
    rfl

/-- A colon starts a name or goes on with one. -/
theorem step_colon (h : mode.isReading = true) : ∃ name, mode.step ':' = pseudo name := by
  cases mode with
  | boundary | compound => exact ⟨[], rfl⟩
  | pseudo name => exact ⟨name ++ [':'], step_pseudo (by decide +kernel)⟩
  | _ => cases h

/-- The name that a text ends with stands behind a colon. -/
theorem exists_of_after_eq_pseudo (h : boundary.after s = pseudo name) :
    ∃ front, s = front ++ ':' :: name ∧ (boundary.after front).isReading = true ∧
      ∀ c ∈ name, isPseudoChar c = true := by
  induction s using List.reverseRecOn generalizing name with
  | nil => cases h
  | append_singleton s c ih =>
    rw [after_append] at h
    rcases step_eq_pseudo h with ⟨hreading, rfl, rfl⟩ | ⟨before, hbefore, hc, rfl⟩
    · exact ⟨s, rfl, hreading, by simp⟩
    · obtain ⟨front, rfl, hreading, hname⟩ := ih hbefore
      refine ⟨front, List.append_assoc .., hreading, fun d hd => ?_⟩
      rcases List.mem_append.1 hd with hd | hd
      · exact hname d hd
      · exact List.mem_singleton.1 hd ▸ hc

end Mode

/-- A text whose end is read as the name of a pseudo-class, such as `a:hover` or `a:hover:`, but not
`a:` or `a::`. -/
def EndsInName (s : Text) : Prop :=
  ∃ front name, s = front ++ ':' :: name ∧ (Mode.boundary.after front).isReading = true ∧
    (∀ c ∈ name, isPseudoChar c = true) ∧ ∃ c ∈ name, c ≠ ':'

theorem endsInName_iff :
    EndsInName s ↔ ∃ name, Mode.boundary.after s = .pseudo name ∧ ∃ c ∈ name, c ≠ ':' := by
  constructor
  · rintro ⟨front, name, rfl, hreading, hname, c, hc, hne⟩
    obtain ⟨before, hcolon⟩ := Mode.step_colon hreading
    refine ⟨before ++ name, ?_, c, List.mem_append_right _ hc, hne⟩
    rw [Mode.after_append, Mode.after_cons, hcolon, Mode.after_pseudo hname]
  · rintro ⟨name, hafter, hne⟩
    obtain ⟨front, rfl, hreading, hname⟩ := Mode.exists_of_after_eq_pseudo hafter
    exact ⟨front, name, rfl, hreading, hname, hne⟩

/-- Behind a text that does not end in a name, a colon stands behind nothing but colons. -/
theorem forall_eq_colon (h : ¬ EndsInName s)
    (hcolon : (Mode.boundary.after s).step ':' = .pseudo name) : ∀ c ∈ name, c = ':' := by
  rcases Mode.step_eq_pseudo hcolon with ⟨-, -, rfl⟩ | ⟨front, hfront, -, rfl⟩
  · simp
  · intro c hc
    rcases List.mem_append.1 hc with hc | hc
    · by_contra hne
      exact h (endsInName_iff.2 ⟨front, hfront, c, hc, hne⟩)
    · exact List.mem_singleton.1 hc

/-! ## Which names take a selector -/

theorem takesSelector_append (h : ∀ c ∈ s, c = ':') : takesSelector (s ++ t) = takesSelector t := by
  have hdrop : (s ++ t).dropWhile (· == ':') = t.dropWhile (· == ':') :=
    List.dropWhile_append_of_pos fun c hc => beq_iff_eq.2 (h c hc)
  rw [takesSelector, hdrop, ← takesSelector]

/-- No name with a colon inside takes a selector. -/
theorem takesSelector_eq_false (h : ∃ c ∈ s, c ≠ ':') : takesSelector (s ++ ':' :: t) = false := by
  have hfront : (s.dropWhile (· == ':')).isEmpty = false := by
    rw [List.isEmpty_eq_false_iff, Ne, List.dropWhile_eq_nil_iff]
    obtain ⟨c, hc, hne⟩ := h
    exact fun hall => hne (beq_iff_eq.1 (hall c hc))
  have hcolon : ':' ∈ ((s ++ ':' :: t).dropWhile (· == ':')).map Char.toLower := by
    rw [List.dropWhile_append, hfront]
    exact List.mem_map.2 ⟨':', by simp, rfl⟩
  have hnone : (selectorPseudos.all fun word => !word.contains ':') = true := by decide
  rw [takesSelector, Bool.eq_false_iff, Ne, List.contains_iff_mem]
  intro hmem
  have hnot := List.all_eq_true.1 hnone _ hmem
  rw [List.contains_iff_mem.2 hcolon] at hnot
  cases hnot

theorem isNameChar_of_toLower (h : isNameChar c.toLower = true) : isNameChar c = true := by
  have hupper : ((List.range' 65 26).all fun n => isNameChar (Char.ofNat n)) = true := by
    decide +kernel
  by_cases hc : c.val ≥ 'A'.val ∧ c.val ≤ 'Z'.val
  · have hrange : c.toNat ∈ List.range' 65 26 := List.mem_range'_1.2 ⟨hc.1, Nat.lt_succ_of_le hc.2⟩
    rw [← Char.ofNat_toNat c]
    exact List.all_eq_true.1 hupper _ hrange
  · have hlower : c.toLower = c := dif_neg hc
    rwa [hlower] at h

/-- The names that take a selector are names in either case. -/
theorem isPseudoChar_of_mem (h : name.map Char.toLower ∈ selectorPseudos) :
    ∀ c ∈ name, isPseudoChar c = true := by
  have hall : (selectorPseudos.all fun word => word.all isNameChar) = true := by decide +kernel
  intro c hc
  have hlower := List.all_eq_true.1 (List.all_eq_true.1 hall _ h) _ (List.mem_map_of_mem hc)
  rw [isPseudoChar, isNameChar_of_toLower hlower, Bool.true_or]

theorem takesSelector_of_mem (h : name.map Char.toLower ∈ selectorPseudos) :
    takesSelector name = true := by
  have hall : (selectorPseudos.all fun word => word.all (· != ':')) = true := by decide
  have hdrop : name.dropWhile (· == ':') = name := by
    cases name with
    | nil => rfl
    | cons c name =>
      have hc := List.all_eq_true.1 (List.all_eq_true.1 hall _ h) _ List.mem_cons_self
      refine List.dropWhile_cons_of_neg ?_
      intro hcolon
      rw [beq_iff_eq.1 hcolon] at hc
      cases hc
  rw [takesSelector, hdrop]
  exact List.contains_iff_mem.2 h

/-! ## Arguments -/

/-- Up to the opening bracket of its argument, a pseudo-class is copied. -/
theorem tagTypes_opening (hs : (Mode.boundary.after s).isReading = true)
    (hname : ∀ c ∈ name, isPseudoChar c = true) :
    ∃ before, (Mode.boundary.after s).step ':' = .pseudo before ∧ ∀ tag t,
      tagTypes tag (s ++ ':' :: (name ++ '(' :: t)) =
        tagTypes tag s ++
          ':' :: (name ++ '(' :: tagFrom tag ((Mode.pseudo (before ++ name)).step '(') t) := by
  obtain ⟨before, hcolon⟩ := Mode.step_colon hs
  have hcopied : ∀ tag, tagFrom tag (.pseudo before) name = name := by
    intro tag
    refine tagFrom_eq_self fun front c back heq => startsType_of_ne_boundary ?_
    rw [Mode.after_pseudo fun d hd => hname d (heq ▸ List.mem_append_left _ hd)]
    exact Mode.noConfusion
  refine ⟨before, hcolon, fun tag t => ?_⟩
  calc tagTypes tag (s ++ ':' :: (name ++ '(' :: t))
      = tagTypes tag s ++ tagFrom tag (Mode.boundary.after s) (':' :: (name ++ '(' :: t)) :=
        tagFrom_append ..
    _ = tagTypes tag s ++ ':' :: tagFrom tag (.pseudo before) (name ++ '(' :: t) := by
        rw [tagFrom_cons, startsType_eq_false (by decide +kernel), hcolon]
        rfl
    _ = tagTypes tag s ++
          ':' :: (name ++ '(' :: tagFrom tag ((Mode.pseudo (before ++ name)).step '(') t) := by
        rw [tagFrom_append, hcopied, Mode.after_pseudo hname, tagFrom_cons,
          startsType_eq_false (by decide +kernel)]
        rfl

/-- Behind another pseudo-class the argument of `:not` is copied. -/
theorem step_round_of_endsInName (h : EndsInName s)
    (hcolon : (Mode.boundary.after s).step ':' = .pseudo t) (name : Text) :
    (Mode.pseudo (t ++ name)).step '(' = .argument 0 := by
  obtain ⟨front, hfront, hne⟩ := endsInName_iff.1 h
  rw [hfront, Mode.step_pseudo (by decide +kernel)] at hcolon
  obtain rfl := Mode.pseudo.inj hcolon
  rw [List.append_assoc, Mode.step, if_neg (by decide +kernel), List.singleton_append,
    takesSelector_eq_false hne]
  rfl

/-- Anywhere else it starts like a selector. -/
theorem step_round_of_not_endsInName (h : ¬ EndsInName s)
    (hcolon : (Mode.boundary.after s).step ':' = .pseudo t)
    (hname : name.map Char.toLower ∈ selectorPseudos) :
    (Mode.pseudo (t ++ name)).step '(' = .boundary := by
  rw [Mode.step, if_neg (by decide +kernel), takesSelector_append (forall_eq_colon h hcolon),
    takesSelector_of_mem hname]
  rfl

theorem tagFrom_concat_round (tag : Text) (mode : Mode) (t : Text) :
    tagFrom tag mode (t ++ [')']) = tagFrom tag mode t ++ [')'] := by
  rw [tagFrom_append, tagFrom_cons, startsType_eq_false (by decide +kernel)]
  rfl

/-- A text in which no bracket is closed before it is opened. -/
def Balanced (t : Text) : Prop := ∀ front, front <+: t → front.count ')' ≤ front.count '('

theorem after_argument (h : Balanced t) :
    (Mode.argument 0).after t = .argument (t.count '(' - t.count ')') := by
  induction t using List.reverseRecOn with
  | nil => rfl
  | append_singleton t c ih =>
    have hfront : Balanced t := fun front hle => h front (hle.trans (List.prefix_append ..))
    have hbefore : t.count ')' ≤ t.count '(' := hfront t List.prefix_rfl
    have hcount : (t ++ [c]).count ')' ≤ (t ++ [c]).count '(' := h (t ++ [c]) List.prefix_rfl
    rw [Mode.after_append, ih hfront, Mode.after_cons, Mode.after_nil, Mode.step.eq_def]
    rw [List.count_append, List.count_append] at hcount ⊢
    dsimp only
    split
    · rename_i hopen
      obtain rfl := beq_iff_eq.1 hopen
      exact congrArg Mode.argument (Nat.sub_add_comm hbefore).symm
    split
    · rename_i hclose
      obtain rfl := beq_iff_eq.1 hclose
      obtain ⟨depth, hdepth⟩ : ∃ depth, t.count '(' - t.count ')' = depth + 1 :=
        Nat.exists_eq_succ_of_ne_zero (Nat.sub_ne_zero_of_lt hcount)
      rw [hdepth]
      have hleft : depth = t.count '(' - (t.count ')' + 1) := by omega
      exact congrArg Mode.argument hleft
    · rename_i hopen hclose
      rw [List.count_singleton, List.count_singleton, if_neg hopen, if_neg hclose]
      rfl

/-- A balanced argument that is no selector is copied. -/
theorem tagFrom_argument (h : Balanced t) : tagFrom tag (.argument 0) t = t := by
  refine tagFrom_eq_self fun front c back heq => startsType_of_ne_boundary ?_
  have hfront : Balanced front := fun other hle => h other (hle.trans ⟨c :: back, heq.symm⟩)
  rw [after_argument hfront]
  exact Mode.noConfusion

/-- **The argument of `:not` is a selector, unless a pseudo-class stands in front.** -/
theorem tagTypes_argument_iff (s name : Text) (hs : (Mode.boundary.after s).isReading = true)
    (hname : name.map Char.toLower ∈ selectorPseudos) :
    ((∀ argument tag, tagTypes tag (s ++ ':' :: (name ++ '(' :: (argument ++ [')']))) =
          tagTypes tag s ++ ':' :: (name ++ '(' :: (tagTypes tag argument ++ [')']))) ↔
        ¬ EndsInName s) ∧
      (EndsInName s → ∀ argument tag,
        tagTypes tag (s ++ ':' :: (name ++ '(' :: (argument ++ [')']))) =
          tagTypes tag s ++ ':' :: (name ++ '(' :: (tagFrom tag (.argument 0) argument ++ [')'])) ∧
        (Balanced argument → tagFrom tag (.argument 0) argument = argument)) := by
  obtain ⟨before, hcolon, hopening⟩ := tagTypes_opening hs (isPseudoChar_of_mem hname)
  have hcopied (hends : EndsInName s) (argument tag : Text) :
      tagTypes tag (s ++ ':' :: (name ++ '(' :: (argument ++ [')']))) =
        tagTypes tag s ++
          ':' :: (name ++ '(' :: (tagFrom tag (.argument 0) argument ++ [')'])) := by
    rw [hopening, step_round_of_endsInName hends hcolon, tagFrom_concat_round]
  refine ⟨⟨fun hlaw hends => ?_, fun hends argument tag => ?_⟩, fun hends argument tag =>
    ⟨hcopied hends argument tag, tagFrom_argument⟩⟩
  · -- the law fails where the argument is one type selector
    have hboth := (hcopied hends ['b'] ['b']).symm.trans (hlaw ['b'] ['b'])
    have htwo : tagTypes ['b'] ['b'] = ['b', 'b'] := by decide +kernel
    have hone : tagFrom ['b'] (.argument 0) ['b'] = ['b'] := rfl
    rw [htwo, hone] at hboth
    simp at hboth
  · rw [hopening, step_round_of_not_endsInName hends hcolon hname, tagFrom_concat_round]
    rfl

/-- Behind a type selector the argument is a selector, though a pseudo-class stands further in
front. -/
theorem tagTypes_argument_iff_type :
    ¬ EndsInName ".a:hover b".toList ∧ tagTypes "wx-".toList ".a:hover b:Not(c > d)".toList =
      tagTypes "wx-".toList ".a:hover b".toList ++ ':' :: ("Not".toList ++ '(' ::
        (tagTypes "wx-".toList "c > d".toList ++ [')'])) := by
  have hafter : Mode.boundary.after ".a:hover b".toList = .compound := by decide +kernel
  have hends : ¬ EndsInName ".a:hover b".toList := by
    rw [endsInName_iff, hafter]
    rintro ⟨name, h, -⟩
    cases h
  have hreading : (Mode.boundary.after ".a:hover b".toList).isReading = true :=
    congrArg Mode.isReading hafter
  exact ⟨hends,
    (tagTypes_argument_iff ".a:hover b".toList "Not".toList hreading (by decide)).1.2 hends
      "c > d".toList "wx-".toList⟩

/-- In `a:hover:not(b)` the type selector `b` stays without a tag, and in `a:not(b)` it gets one. -/
theorem chained_argument :
    (Mode.boundary.after "a:hover".toList).isReading = true ∧ "not".toList ∈ selectorPseudos ∧
      tagTypes "wx-".toList "a:hover:not(b)".toList = "wx-a:hover:not(b)".toList ∧
      tagTypes "wx-".toList "a:hover".toList ++ ':' :: ("not".toList ++ '(' ::
        (tagTypes "wx-".toList "b".toList ++ [')'])) = "wx-a:hover:not(wx-b)".toList ∧
      tagTypes "wx-".toList "a:not(b)".toList = "wx-a:not(wx-b)".toList := by
  decide +kernel

end Selector

end MiniSheet
