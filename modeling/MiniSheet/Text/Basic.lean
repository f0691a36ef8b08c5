import MiniSheet.Text.Blank

/-!
# Text

Sources, names and outputs are lists of characters, so that every reader is a recursion on its input
and every writer a concatenation. Strings appear only where a message is put together.
-/

namespace MiniSheet

/-- The characters of a source, a name or an output, in order. -/
abbrev Text : Type := List Char

namespace Text

/-- The number of bytes of the UTF-8 form. -/
def byteSize (t : Text) : Nat := t.foldr (fun c size => c.utf8Size + size) 0

@[simp] theorem byteSize_nil : byteSize [] = 0 := rfl

@[simp] theorem byteSize_cons (c : Char) (t : Text) :
    byteSize (c :: t) = c.utf8Size + byteSize t := rfl

@[simp] theorem byteSize_append (s t : Text) : byteSize (s ++ t) = byteSize s + byteSize t := by
  induction s with
  | nil => rw [List.nil_append, byteSize_nil, Nat.zero_add]
  | cons c s ih => rw [List.cons_append, byteSize_cons, byteSize_cons, ih, Nat.add_assoc]

/-! ## Trimming -/

/-- The text without the blanks in front. -/
def trimStart (t : Text) : Text := t.dropWhile isBlank

/-- The text without the blanks behind. -/
def trimEnd (t : Text) : Text := (t.reverse.dropWhile isBlank).reverse

/-- The text without the blanks on either side. -/
def trim (t : Text) : Text := trimEnd (trimStart t)

/-- What `trimStart` removes is blank. -/
theorem exists_append_trimStart (t : Text) :
    ∃ front : Text, t = front ++ trimStart t ∧ ∀ c ∈ front, isBlank c = true :=
  ⟨t.takeWhile isBlank, by simp [trimStart], List.all_eq_true.1 List.all_takeWhile⟩

/-- What `trimEnd` removes is blank. -/
theorem exists_trimEnd_append (t : Text) :
    ∃ back : Text, t = trimEnd t ++ back ∧ ∀ c ∈ back, isBlank c = true := by
  refine ⟨(t.reverse.takeWhile isBlank).reverse, ?_, fun c hc => ?_⟩
  · rw [trimEnd, ← List.reverse_append, List.takeWhile_append_dropWhile, List.reverse_reverse]
  · exact List.all_eq_true.1 List.all_takeWhile c (List.mem_reverse.1 hc)

/-! ## Words -/

/-- The first run of characters that are not blank. -/
def firstWord? (t : Text) : Option Text :=
  match (trimStart t).takeWhile fun c => !isBlank c with
  | [] => none
  | word => some word

/-- Equality up to the case of the letters of the Latin alphabet. -/
def sameWord (s t : Text) : Bool := s.map Char.toLower == t.map Char.toLower

/-! ## Pieces -/

/-- The pieces of a text between the occurrences of a separating character. There is always at least
one piece. -/
def pieces (separator : Char) : Text → List Text
  | [] => [[]]
  | c :: t =>
    if c == separator then [] :: pieces separator t
    else
      match pieces separator t with
      | [] => [[c]]
      | piece :: rest => (c :: piece) :: rest

/-- Pieces joined by a separating text. -/
def join (separator : Text) : List Text → Text
  | [] => []
  | [piece] => piece
  | piece :: next :: rest => piece ++ separator ++ join separator (next :: rest)

/-- The text in front of the first occurrence of a character and the text behind it. -/
def splitFirst? (separator : Char) : Text → Option (Text × Text)
  | [] => none
  | c :: t =>
    if c == separator then some ([], t)
    else (splitFirst? separator t).map fun (front, back) => (c :: front, back)

/-- The text in front of the last occurrence of a character and the text behind it. -/
def splitLast? (separator : Char) : Text → Option (Text × Text)
  | [] => none
  | c :: t =>
    match splitLast? separator t with
    | some (front, back) => some (c :: front, back)
    | none => if c == separator then some ([], t) else none

/-- A split at the last occurrence leaves out exactly that character. -/
theorem eq_of_splitLast? {separator : Char} {t front back : Text}
    (h : splitLast? separator t = some (front, back)) : t = front ++ separator :: back := by
  induction t generalizing front back with
  | nil => simp [splitLast?] at h
  | cons c t ih =>
    rw [splitLast?] at h
    split at h
    · rename_i f b hf
      simp only [Option.some.injEq, Prod.mk.injEq] at h
      obtain ⟨rfl, rfl⟩ := h
      rw [ih hf]; rfl
    · split at h
      · rename_i hc
        simp only [Option.some.injEq, Prod.mk.injEq] at h
        obtain ⟨rfl, rfl⟩ := h
        rw [beq_iff_eq.1 hc]; rfl
      · cases h

end Text

end MiniSheet
