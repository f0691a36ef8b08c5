import Mathlib.Data.List.DropRight
import MiniSheet.Proofs.Places
import MiniSheet.Source.LineTable

/-!
# Looking positions up

A position counts: its line counts the line feeds in front of a place, and its column the characters
behind the last one of them (`Position.advance_start`). Looking it up in a line table comes to the
same, at every place between two characters and at no other offset
(`LineTable.position?_eq_some_iff`).

Two things are to be seen for that. Searching finds the last line that does not start behind the
offset (`LineTable.exists_line`), because the starts of lines increase and the first one is zero.
And as many lines start up to a place as there are line feeds in front of it
(`LineTable.getElem?_count`). The table is made from bytes, but a byte is a line feed only if it is
the whole of a character (`LineTable.lineFeed_mem_iff`).
-/

namespace MiniSheet

open Text

/-! ## Positions, counted -/

/-- **Positions count.** The line is one more than the line feeds in front, the column one more than
the characters behind the last of them. -/
theorem Position.advance_start (t : Text) :
    start.advance t = ⟨1 + t.count '\n', 1 + (t.rtakeWhile (· != '\n')).length⟩ := by
  induction t using List.reverseRecOn with
  | nil => rfl
  | append_singleton t c ih =>
    rw [advance_append, ih, advance_cons, advance_nil, step, List.count_append,
      List.count_singleton]
    by_cases hc : c = '\n'
    · rw [if_pos (beq_iff_eq.2 hc), if_pos (beq_iff_eq.2 hc),
        List.rtakeWhile_concat_neg _ _ _ (by simp [hc])]
      rfl
    · rw [if_neg (by simpa using hc), if_neg (by simpa using hc),
        List.rtakeWhile_concat_pos _ _ _ (by simp [hc]), List.length_append]
      rfl

/-! ## Places by their offsets -/

/-- Of two places of a text, the one with fewer bytes in front comes first. -/
theorem Text.prefix_of_byteSize_le {front back front' back' : Text}
    (h : front ++ back = front' ++ back') (hle : byteSize front ≤ byteSize front') :
    front <+: front' := by
  rcases List.append_eq_append_iff.1 h with ⟨more, hfront, -⟩ | ⟨more, hfront, -⟩
  · exact ⟨more, hfront.symm⟩
  · rw [hfront, byteSize_append] at hle
    obtain rfl := byteSize_eq_zero_iff.1 (show byteSize more = 0 by omega)
    exact ⟨[], by rw [hfront, List.append_nil, List.append_nil]⟩

/-- Places of a text come in the order of the bytes in front of them. -/
theorem Position.advance_lt_advance_iff {front back front' back' : Text}
    (h : front ++ back = front' ++ back') :
    start.advance front < start.advance front' ↔ byteSize front < byteSize front' := by
  constructor
  · intro hlt
    by_contra hle
    have hfront := prefix_of_byteSize_le h.symm (Nat.le_of_not_lt hle)
    exact (advance_le_advance start hfront).not_gt hlt
  · intro hlt
    obtain ⟨more, rfl⟩ := prefix_of_byteSize_le h hlt.le
    rw [advance_append]
    refine lt_advance ?_
    rintro rfl
    rw [List.append_nil] at hlt
    exact Nat.lt_irrefl _ hlt

namespace LineTable

variable {table : LineTable} {source front back : Text} {offset low high i j s s' : Nat} {c : Char}
  {p : Position}

/-! ## Where lines start -/

/-- A line feed has a byte of its own, and no other character has it among its bytes. -/
theorem lineFeed_mem_iff : lineFeed ∈ String.utf8EncodeChar c ↔ c = '\n' := by
  constructor
  · intro h
    have hbyte {n : Nat} (hn : n < 256) (h : lineFeed = UInt8.ofNat n) : n = 10 := by
      have hcode := congrArg UInt8.toNat h
      rw [UInt8.toNat_ofNat', Nat.mod_eq_of_lt hn] at hcode
      exact hcode.symm
    -- the bytes of longer characters all start at 128
    have hlong {n d base : Nat} (hd : d + base ≤ 256) (hbase : 128 ≤ base) (hpos : 0 < d) :
        lineFeed ≠ UInt8.ofNat (n % d + base) := by
      intro h
      have hlt := Nat.mod_lt n hpos
      have hcode := hbyte (by omega) h
      omega
    rw [String.utf8EncodeChar] at h
    split at h
    · have hcode : c.val.toNat = 10 := hbyte (by omega) (List.mem_singleton.1 h)
      exact Char.toNat_inj.1 hcode
    · split at h
      · simp only [List.mem_cons, List.not_mem_nil, or_false] at h
        rcases h with h | h <;> exact absurd h (hlong (by decide) (by decide) (by decide))
      · split at h
        · simp only [List.mem_cons, List.not_mem_nil, or_false] at h
          rcases h with h | h | h <;> exact absurd h (hlong (by decide) (by decide) (by decide))
        · simp only [List.mem_cons, List.not_mem_nil, or_false] at h
          rcases h with h | h | h | h <;> exact absurd h (hlong (by decide) (by decide) (by decide))
  · rintro rfl
    decide

/-- The starts of the lines behind the first one, in a text that stands at the given offset. -/
def startsFrom (offset : Nat) : Text → List Nat
  | [] => []
  | c :: t => (if c = '\n' then [offset + c.utf8Size] else []) ++ startsFrom (offset + c.utf8Size) t

/-- A character starts a line behind it if it is a line feed. -/
theorem feeds_char (c : Char) (offset : Nat) :
    (((String.utf8EncodeChar c).zipIdx offset).filter (·.1 == lineFeed)).map (·.2 + 1) =
      if c = '\n' then [offset + c.utf8Size] else [] := by
  split
  · rename_i hc
    subst hc
    rfl
  · rename_i hc
    rw [List.map_eq_nil_iff, List.filter_eq_nil_iff]
    intro feed hmem hfeed
    have hbyte : feed.1 ∈ String.utf8EncodeChar c := List.fst_mem_of_mem_zipIdx hmem
    rw [beq_iff_eq.1 hfeed] at hbyte
    exact hc (lineFeed_mem_iff.1 hbyte)

theorem feeds_bytes (t : Text) (offset : Nat) :
    ((t.bytes.zipIdx offset).filter (·.1 == lineFeed)).map (·.2 + 1) = startsFrom offset t := by
  induction t generalizing offset with
  | nil => rfl
  | cons c t ih =>
    rw [bytes, List.flatMap_cons, ← bytes, List.zipIdx_append, List.filter_append,
      List.map_append, feeds_char, String.length_utf8EncodeChar, ih]
    rfl

theorem starts_ofText (source : Text) :
    (ofText source).starts = (0 :: startsFrom 0 source).toArray := by
  rw [ofText, feeds_bytes]

theorem startsFrom_append (offset : Nat) (s t : Text) :
    startsFrom offset (s ++ t) = startsFrom offset s ++ startsFrom (offset + byteSize s) t := by
  induction s generalizing offset with
  | nil => rfl
  | cons c s ih =>
    rw [List.cons_append, startsFrom, startsFrom, ih, byteSize_cons, List.append_assoc,
      Nat.add_assoc]

theorem length_startsFrom (offset : Nat) (t : Text) :
    (startsFrom offset t).length = t.count '\n' := by
  induction t generalizing offset with
  | nil => rfl
  | cons c t ih =>
    rw [startsFrom, List.length_append, ih, List.count_cons, Nat.add_comm]
    by_cases hc : c = '\n' <;> simp [hc]

/-- With the first one, there is one line more than there are line feeds. -/
theorem length_cons_startsFrom (t : Text) : (0 :: startsFrom 0 t).length = t.count '\n' + 1 :=
  congrArg (· + 1) (length_startsFrom 0 t)

/-- Lines start behind the place where the text stands. -/
theorem lt_of_mem_startsFrom {t : Text} (h : s ∈ startsFrom offset t) : offset < s := by
  induction t generalizing offset with
  | nil => cases h
  | cons c t ih =>
    have hc := c.utf8Size_pos
    rw [startsFrom] at h
    rcases List.mem_append.1 h with h | h
    · split at h
      · rw [List.mem_singleton.1 h]
        omega
      · cases h
    · have hlater := ih h
      omega

/-- Later lines start later. -/
theorem pairwise_startsFrom (offset : Nat) (t : Text) : (startsFrom offset t).Pairwise (· < ·) := by
  induction t generalizing offset with
  | nil => exact .nil
  | cons c t ih =>
    rw [startsFrom]
    split
    · exact .cons (fun s hs => lt_of_mem_startsFrom hs) (ih _)
    · exact ih _

/-- The last line that starts in a text starts behind its last line feed. -/
theorem getElem?_startsFrom (t : Text) :
    (0 :: startsFrom 0 t)[t.count '\n']? = some (byteSize (t.rdropWhile (· != '\n'))) := by
  induction t using List.reverseRecOn with
  | nil => rfl
  | append_singleton t c ih =>
    rw [startsFrom_append, Nat.zero_add, List.count_append, List.count_singleton,
      startsFrom, startsFrom, List.append_nil, ← List.cons_append]
    -- a line feed starts a new last line, and any other character goes on with the last one
    by_cases hc : c = '\n'
    · rw [if_pos hc, if_pos (beq_iff_eq.2 hc), List.rdropWhile_concat_neg _ _ _ (by simp [hc]),
        ← length_cons_startsFrom, List.getElem?_concat_length, byteSize_append, byteSize_cons,
        byteSize_nil, Nat.add_zero]
    · rw [if_neg hc, if_neg (by simpa using hc), List.rdropWhile_concat_pos _ _ _ (by simp [hc]),
        List.append_nil, Nat.add_zero, ih]

/-- The lines that start up to a place, and those that start behind it. -/
theorem getElem?_starts (h : source = front ++ back) (i : Nat) :
    (ofText source).starts[i]? =
      (0 :: startsFrom 0 front ++ startsFrom (byteSize front) back)[i]? := by
  rw [starts_ofText, List.getElem?_toArray, h, startsFrom_append, Nat.zero_add, List.cons_append]

/-- **As many lines start up to a place as there are line feeds in front of it**, and the last one
of them starts behind the last line feed. -/
theorem getElem?_count (h : source = front ++ back) :
    (ofText source).starts[front.count '\n']? = some (byteSize (front.rdropWhile (· != '\n'))) := by
  have hlength := length_cons_startsFrom front
  rw [getElem?_starts h, List.getElem?_append_left (by omega), getElem?_startsFrom]

/-- All other lines start behind the place. -/
theorem lt_of_count_lt (h : source = front ++ back) (hi : (ofText source).starts[i]? = some s)
    (hlt : front.count '\n' < i) : byteSize front < s := by
  have hlength := length_cons_startsFrom front
  rw [getElem?_starts h, List.getElem?_append_right (by omega)] at hi
  exact lt_of_mem_startsFrom (List.mem_of_getElem? hi)

/-! ## Searching -/

/-- The starts of lines increase. -/
def Increasing (table : LineTable) : Prop := table.starts.toList.Pairwise (· < ·)

theorem increasing_ofText (source : Text) : (ofText source).Increasing := by
  rw [Increasing, starts_ofText]
  exact .cons (fun s hs => lt_of_mem_startsFrom hs) (pairwise_startsFrom 0 source)

theorem Increasing.lt (h : table.Increasing) (hi : table.starts[i]? = some s)
    (hj : table.starts[j]? = some s') (hlt : i < j) : s < s' := by
  obtain ⟨hi', rfl⟩ := Array.getElem?_eq_some_iff.1 hi
  obtain ⟨hj', rfl⟩ := Array.getElem?_eq_some_iff.1 hj
  exact List.pairwise_iff_getElem.1 h i j hi' hj' hlt

/-- What a search is to find: the line that starts at the offset, or the place between the lines in
front of the offset and those behind it. -/
def Hit.Fits (table : LineTable) (offset : Nat) : Hit → Prop
  | exact line => table.starts[line]? = some offset
  | before next => next ≤ table.starts.size ∧
      ∀ i s, table.starts[i]? = some s → (i < next → s < offset) ∧ (next ≤ i → offset < s)

/-- **Halving finds it**, as long as all lines that are left out lie on their side of the offset. -/
theorem fits_searchBetween (h : table.Increasing) (hhigh : high ≤ table.starts.size)
    (hle : low ≤ high) (hleft : ∀ i s, table.starts[i]? = some s → i < low → s < offset)
    (hright : ∀ i s, table.starts[i]? = some s → high ≤ i → offset < s) :
    (table.searchBetween offset low high hhigh).Fits table offset := by
  fun_induction searchBetween table offset low high hhigh with
  | case1 low high hhigh hlow hmiddle start heq => exact Array.getElem?_eq_some_iff.2 ⟨hmiddle, heq⟩
  | case2 low high hhigh hlow hmiddle start hne hlt ih =>
    have hstart : table.starts[(low + high) / 2]? = some start := Array.getElem?_eq_getElem hmiddle
    refine ih (by omega) (fun i s hi hlow' => ?_) hright
    rcases Nat.lt_or_eq_of_le (Nat.le_of_lt_succ hlow') with hbefore | rfl
    · exact (h.lt hi hstart hbefore).trans hlt
    · rwa [← Option.some.inj (hstart.symm.trans hi)]
  | case3 low high hhigh hlow hmiddle start hne hge ih =>
    have hstart : table.starts[(low + high) / 2]? = some start := Array.getElem?_eq_getElem hmiddle
    have hlt : offset < start := by omega
    refine ih (by omega) hleft (fun i s hi hhigh' => ?_)
    rcases Nat.lt_or_eq_of_le hhigh' with hbehind | rfl
    · exact hlt.trans (h.lt hstart hi hbehind)
    · rwa [← Option.some.inj (hstart.symm.trans hi)]
  | case4 low high hhigh hlow =>
    obtain rfl : low = high := by omega
    exact ⟨hhigh, fun i s hi => ⟨hleft i s hi, hright i s hi⟩⟩

/-- **Every offset lies in a line of the table**, the last one that does not start behind it. -/
theorem exists_line (source : Text) (offset : Nat) :
    ∃ line start, (ofText source).line? offset = some line ∧
      (ofText source).starts[line]? = some start ∧ start ≤ offset ∧
      ∀ i s, (ofText source).starts[i]? = some s → line < i → offset < s := by
  have hincreasing := increasing_ofText source
  have hfits : ((ofText source).search offset).Fits (ofText source) offset := by
    refine fits_searchBetween hincreasing (Nat.le_refl _) (Nat.zero_le _) (fun i s hi hlt => ?_)
      (fun i s hi hle => ?_)
    · cases hlt
    · exact absurd (Array.getElem?_eq_some_iff.1 hi).1 hle.not_gt
  rw [line?]
  generalize (ofText source).search offset = hit at hfits ⊢
  cases hit with
  | exact line =>
      exact ⟨line, offset, rfl, hfits, Nat.le_refl _, fun i s hi hlt => hincreasing.lt hfits hi hlt⟩
  | before next =>
    obtain ⟨hnext, hlines⟩ := hfits
    cases next with
    | zero =>
      -- the first line starts at zero, which is behind no offset
      have hfirst : (ofText source).starts[0]? = some 0 := by
        rw [starts_ofText]
        rfl
      exact absurd ((hlines 0 0 hfirst).2 (Nat.zero_le _)) (Nat.not_lt_zero _)
    | succ line =>
      have hline : (ofText source).starts[line]? = some (ofText source).starts[line] :=
        Array.getElem?_eq_getElem hnext
      have hlt : (ofText source).starts[line] < offset :=
        (hlines line _ hline).1 (Nat.lt_succ_self _)
      exact ⟨line, _, rfl, hline, hlt.le, fun i s hi => (hlines i s hi).2⟩

/-- A place lies in the line that its position counts. -/
theorem line?_byteSize (h : source = front ++ back) :
    (ofText source).line? (byteSize front) = some (front.count '\n') := by
  obtain ⟨line, start, hline, hstart, hle, hlater⟩ := exists_line source (byteSize front)
  have hpassed : byteSize (front.rdropWhile (· != '\n')) ≤ byteSize front := by
    conv_rhs => rw [← List.rdropWhile_append_rtakeWhile (p := (· != '\n')) (l := front),
      byteSize_append]
    exact Nat.le_add_right ..
  rw [hline]
  -- a line in front of this one would not be the last that starts up to the place, and one behind
  -- it starts too late
  rcases Nat.lt_trichotomy line (front.count '\n') with hlt | rfl | hlt
  · exact absurd (hlater _ _ (getElem?_count h) hlt) hpassed.not_gt
  · rfl
  · exact absurd (lt_of_count_lt h hstart hlt) hle.not_gt

/-! ## Positions -/

/-- **What is looked up is what a reader carries along**, at every place between two characters and
at no other offset. -/
theorem position?_eq_some_iff : (ofText source).position? source offset = some p ↔
    ∃ front back, source = front ++ back ∧ byteSize front = offset ∧
      p = Position.start.advance front := by
  have hplace {front back : Text} (h : source = front ++ back) :
      (ofText source).position? source (byteSize front) = some (Position.start.advance front) := by
    have hfront := List.rdropWhile_append_rtakeWhile (p := (· != '\n')) (l := front)
    have hpassed : source.slice? (byteSize (front.rdropWhile (· != '\n'))) (byteSize front) =
        some (front.rtakeWhile (· != '\n')) := by
      refine slice?_eq_some_iff.2 ⟨_, back, ?_, rfl, by rw [hfront]⟩
      rw [hfront, h]
    rw [position?, line?_byteSize h, Position.advance_start]
    dsimp only [Option.bind_eq_bind, Option.bind_some]
    rw [getElem?_count h]
    dsimp only [Option.bind_some]
    rw [hpassed, Nat.add_comm 1, Nat.add_comm 1]
    rfl
  constructor
  · intro h
    obtain ⟨line, -, hrest⟩ := Option.bind_eq_some_iff.1 h
    obtain ⟨start, -, hrest⟩ := Option.bind_eq_some_iff.1 hrest
    obtain ⟨passed, hpassed, -⟩ := Option.bind_eq_some_iff.1 hrest
    obtain ⟨front, back, hsource, -, rfl⟩ := slice?_eq_some_iff.1 hpassed
    rw [hplace hsource] at h
    exact ⟨front ++ passed, back, hsource, rfl, (Option.some.inj h).symm⟩
  · rintro ⟨front, back, hsource, rfl, rfl⟩
    exact hplace hsource

/-- **Positions are exact, and they go forward.** An offset has a position exactly if it lies
between two characters, at the start or at the end. It is the position that a reader carries along:
its line is one more than the line feeds in front, its column one more than the characters behind
the last of them. Of two offsets the greater one has the later position, so no two offsets share
one. Searching finds a line of the table whatever the offset is. And from what a reader has left of
the source, the places ahead are looked up as they are carried along. -/
theorem positions_are_exact (source : Text) :
    (∀ offset p, (ofText source).position? source offset = some p ↔
      ∃ front back, source = front ++ back ∧ byteSize front = offset ∧
        p = Position.start.advance front ∧ p.line = 1 + front.count '\n' ∧
        p.column = 1 + (front.rtakeWhile (· != '\n')).length) ∧
      (∀ offset offset' p p', (ofText source).position? source offset = some p →
        (ofText source).position? source offset' = some p' → (offset < offset' ↔ p < p')) ∧
      (∀ offset, ∃ line, (ofText source).line? offset = some line ∧
        line < (ofText source).starts.size) ∧
      ∀ front ahead back, source = front ++ (ahead ++ back) →
        (ofText source).positionAfter? source (ahead ++ back) (byteSize ahead) =
          some ((Position.start.advance front).advance ahead) := by
  refine ⟨fun offset p => ?_, fun offset offset' p p' h h' => ?_, fun offset => ?_,
    fun front ahead back h => ?_⟩
  · rw [position?_eq_some_iff]
    constructor
    · rintro ⟨front, back, hsource, hoffset, rfl⟩
      exact ⟨front, back, hsource, hoffset,
        rfl, by rw [Position.advance_start], by rw [Position.advance_start]⟩
    · rintro ⟨front, back, hsource, hoffset, hp, -, -⟩
      exact ⟨front, back, hsource, hoffset, hp⟩
  · obtain ⟨front, back, rfl, rfl, rfl⟩ := position?_eq_some_iff.1 h
    obtain ⟨front', back', hsource, rfl, rfl⟩ := position?_eq_some_iff.1 h'
    exact (Position.advance_lt_advance_iff hsource).symm
  · obtain ⟨line, start, hline, hstart, -⟩ := exists_line source offset
    exact ⟨line, hline, (Array.getElem?_eq_some_iff.1 hstart).1⟩
  · rw [positionAfter?, ← Position.advance_append]
    refine position?_eq_some_iff.2 ⟨front ++ ahead, back, by rw [h, List.append_assoc], ?_, rfl⟩
    rw [h, byteSize_append, byteSize_append, Nat.add_sub_cancel_right]

end LineTable

end MiniSheet
