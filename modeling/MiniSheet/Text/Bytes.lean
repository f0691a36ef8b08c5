import MiniSheet.Text.Basic

/-!
# Texts by their bytes

Offsets into a text count the bytes of its UTF-8 form. A text can be cut at an offset if no
character is cut by that (`Text.splitBytes?_eq_some_iff`), and a part of it is what lies between two
such offsets (`Text.slice?_eq_some_iff`).
-/

namespace MiniSheet

namespace Text

/-- The UTF-8 form. -/
def bytes (t : Text) : List UInt8 := t.flatMap String.utf8EncodeChar

/-- Split a text behind a number of bytes. There must be as many, and no character may be cut. -/
def splitBytes? : Nat → Text → Option (Text × Text)
  | 0, t => some ([], t)
  | _ + 1, [] => none
  | n + 1, c :: t =>
    if c.utf8Size ≤ n + 1 then
      (splitBytes? (n + 1 - c.utf8Size) t).map fun (front, back) => (c :: front, back)
    else none

/-- The part of a text from one offset to another. -/
def slice? (t : Text) (start stop : Nat) : Option Text := do
  let (front, _) ← splitBytes? stop t
  let (_, part) ← splitBytes? start front
  return part

variable {t front back part : Text} {n start stop : Nat}

theorem byteSize_eq_zero_iff : byteSize t = 0 ↔ t = [] := by
  cases t with
  | nil => simp
  | cons c t => simp [byteSize_cons, Nat.pos_iff_ne_zero.1 c.utf8Size_pos]

/-- A text is cut where it has that many bytes in front, and nowhere else. -/
theorem splitBytes?_eq_some_iff :
    splitBytes? n t = some (front, back) ↔ t = front ++ back ∧ byteSize front = n := by
  induction n, t using splitBytes?.induct generalizing front with
  | case1 t =>
    rw [splitBytes?, byteSize_eq_zero_iff]
    constructor
    · rintro ⟨⟩
      exact ⟨rfl, rfl⟩
    · rintro ⟨rfl, rfl⟩
      rfl
  | case2 n =>
    rw [splitBytes?]
    constructor
    · rintro ⟨⟩
    · rintro ⟨hnil, hsize⟩
      rw [(List.append_eq_nil_iff.1 hnil.symm).1] at hsize
      cases hsize
  | case3 n c t hle ih =>
    rw [splitBytes?, if_pos hle]
    constructor
    · intro h
      obtain ⟨⟨front', back'⟩, hsplit, heq⟩ := Option.map_eq_some_iff.1 h
      obtain ⟨rfl, rfl⟩ := Prod.mk.inj heq
      obtain ⟨rfl, hsize⟩ := ih.1 hsplit
      exact ⟨rfl, by rw [byteSize_cons, hsize]; omega⟩
    · rintro ⟨htext, hsize⟩
      rcases front with _ | ⟨c', front⟩
      · cases hsize
      · obtain ⟨rfl, rfl⟩ := List.cons.inj htext
        rw [byteSize_cons] at hsize
        rw [ih.2 ⟨rfl, by omega⟩]
        rfl
  | case4 n c t hlt =>
    rw [splitBytes?, if_neg hlt]
    constructor
    · rintro ⟨⟩
    · rintro ⟨htext, hsize⟩
      rcases front with _ | ⟨c', front⟩
      · cases hsize
      · obtain ⟨rfl, -⟩ := List.cons.inj htext
        rw [byteSize_cons] at hsize
        omega

/-- A part can be taken out of a text if it starts and ends between two characters. -/
theorem slice?_eq_some_iff : slice? t start stop = some part ↔ ∃ front back,
    t = front ++ part ++ back ∧ byteSize front = start ∧ byteSize (front ++ part) = stop := by
  rw [slice?]
  constructor
  · intro h
    obtain ⟨⟨whole, back⟩, hstop, h⟩ := Option.bind_eq_some_iff.1 h
    obtain ⟨⟨front, part'⟩, hstart, h⟩ := Option.bind_eq_some_iff.1 h
    obtain rfl := Option.some.inj h
    obtain ⟨rfl, rfl⟩ := splitBytes?_eq_some_iff.1 hstop
    obtain ⟨rfl, rfl⟩ := splitBytes?_eq_some_iff.1 hstart
    exact ⟨front, back, rfl, rfl, rfl⟩
  · rintro ⟨front, back, rfl, rfl, rfl⟩
    rw [splitBytes?_eq_some_iff.2 ⟨rfl, rfl⟩]
    exact congrArg (·.bind fun split => some split.2) (splitBytes?_eq_some_iff.2 ⟨rfl, rfl⟩)

theorem slice?_append (front part back : Text) :
    slice? (front ++ part ++ back) (byteSize front) (byteSize (front ++ part)) = some part :=
  slice?_eq_some_iff.2 ⟨front, back, rfl, rfl, rfl⟩

end Text

end MiniSheet
