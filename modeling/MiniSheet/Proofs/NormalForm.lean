import Mathlib.Data.List.Chain
import MiniSheet.Output.Production

/-!
# The normal form of output

Output is written in pieces, but what is written is a sequence of symbols: characters, and holes
that are filled once the output is rendered (`Symbol`). Chunks put such a sequence down, and there
are many ways to do it. They are in normal form if no text is empty and no two texts stand side by
side (`Chunk.Normal`).

* A sequence of symbols has at most one normal form, which can be computed
  (`Chunk.Normal.assemble_flatten`).
* The accumulator writes down what it is told and nothing else (`Accumulator.symbols_performAll`),
  and its chunks are in normal form after every step (`Accumulator.normal_performAll`).

So the chunks depend on the symbols alone, and not on when the pending text is flushed
(`Accumulator.toChunks_unique`).
-/

namespace MiniSheet

variable {ρ : Type}

/-- The smallest piece of output. -/
inductive Symbol (ρ : Type) where
  /-- a character -/
  | char (c : Char)
  /-- a length that is written in pixels once the device is known -/
  | pixel (raw : Float)
  /-- a value that is kept and never written -/
  | suffix (raw : Float)
  /-- the whole output of another stylesheet -/
  | nested (target : ρ)
  deriving Repr, DecidableEq

deriving instance DecidableEq for Chunk

namespace Chunk

/-- The symbols of a chunk. -/
def symbols : Chunk ρ → List (Symbol ρ)
  | text content => content.map .char
  | pixel raw => [.pixel raw]
  | suffix raw => [.suffix raw]
  | nested target => [.nested target]

/-- The symbols of chunks: texts one behind the other, all else in its place. -/
def flatten (chunks : List (Chunk ρ)) : List (Symbol ρ) := chunks.flatMap symbols

/-- Whether a chunk is a text. -/
def isText : Chunk ρ → Bool
  | text _ => true
  | _ => false

/-- No text is empty, and no two texts stand side by side. -/
structure Normal (chunks : List (Chunk ρ)) : Prop where
  /-- no text is empty -/
  nonempty : text [] ∉ chunks
  /-- no two texts stand side by side -/
  apart : chunks.IsChain fun first second => (first.isText && second.isText) = false

variable {chunk : Chunk ρ} {chunks : List (Chunk ρ)}

@[simp] theorem flatten_nil : flatten ([] : List (Chunk ρ)) = [] := rfl

@[simp] theorem flatten_cons (chunk : Chunk ρ) (chunks : List (Chunk ρ)) :
    flatten (chunk :: chunks) = chunk.symbols ++ flatten chunks := rfl

@[simp] theorem flatten_append (front back : List (Chunk ρ)) :
    flatten (front ++ back) = flatten front ++ flatten back :=
  List.flatMap_append

theorem normal_nil : Normal ([] : List (Chunk ρ)) := ⟨List.not_mem_nil, .nil⟩

theorem normal_cons : Normal (chunk :: chunks) ↔
    chunk ≠ text [] ∧ (∀ next ∈ chunks.head?, (chunk.isText && next.isText) = false) ∧
    Normal chunks := by
  constructor
  · rintro ⟨hnonempty, hapart⟩
    rw [List.mem_cons, not_or] at hnonempty
    rw [List.isChain_cons] at hapart
    exact ⟨Ne.symm hnonempty.1, hapart.1, hnonempty.2, hapart.2⟩
  · rintro ⟨hchunk, hnext, hnonempty, hapart⟩
    refine ⟨?_, List.isChain_cons.2 ⟨hnext, hapart⟩⟩
    rw [List.mem_cons, not_or]
    exact ⟨Ne.symm hchunk, hnonempty⟩

theorem normal_concat : Normal (chunks ++ [chunk]) ↔
    Normal chunks ∧ chunk ≠ text [] ∧
    ∀ last ∈ chunks.getLast?, (last.isText && chunk.isText) = false := by
  constructor
  · rintro ⟨hnonempty, hapart⟩
    rw [List.mem_append, List.mem_singleton, not_or] at hnonempty
    obtain ⟨hchunks, -, hlast⟩ := List.isChain_append.1 hapart
    exact ⟨⟨hnonempty.1, hchunks⟩, Ne.symm hnonempty.2, fun last hmem => hlast last hmem chunk rfl⟩
  · rintro ⟨hchunks, hchunk, hlast⟩
    refine ⟨?_, List.isChain_append.2 ⟨hchunks.apart, .singleton chunk, ?_⟩⟩
    · rw [List.mem_append, List.mem_singleton, not_or]
      exact ⟨hchunks.nonempty, Ne.symm hchunk⟩
    · rintro last hmem _ ⟨⟩
      exact hlast last hmem

/-! ## Adding a chunk -/

/-- **What adding a chunk comes to**: it changes nothing, or the last text goes on, or the chunk
comes behind the others. -/
theorem push_cases (chunks : List (Chunk ρ)) (chunk : Chunk ρ) :
    (chunk = text [] ∧ push chunks chunk = chunks) ∨
    (∃ before front content, chunk = text content ∧ content ≠ [] ∧ chunks = before ++ [text front] ∧
      push chunks chunk = before ++ [text (front ++ content)]) ∨
    (chunk ≠ text [] ∧ (∀ last ∈ chunks.getLast?, (last.isText && chunk.isText) = false) ∧
      push chunks chunk = chunks ++ [chunk]) := by
  cases chunk with
  | pixel raw | suffix raw | nested target => exact .inr (.inr ⟨by simp, by simp [isText], rfl⟩)
  | text content =>
    rcases content with _ | ⟨c, content⟩
    · exact .inl ⟨rfl, rfl⟩
    · refine .inr ?_
      rw [push.eq_def]
      dsimp only
      split
      · rename_i front hlast
        obtain ⟨before, rfl⟩ := List.getLast?_eq_some_iff.1 hlast
        exact .inl ⟨before, front, _, rfl, List.cons_ne_nil _ _, rfl, by rw [List.dropLast_concat]⟩
      · rename_i hlast
        refine .inr ⟨by simp, fun last hmem => ?_, rfl⟩
        cases last with
        | text front => exact absurd hmem (hlast front)
        | pixel raw | suffix raw | nested target => rfl

/-- Adding a chunk adds its symbols, whether or not its text goes on with the text in front of
it. -/
@[simp] theorem flatten_push (chunks : List (Chunk ρ)) (chunk : Chunk ρ) :
    flatten (push chunks chunk) = flatten chunks ++ chunk.symbols := by
  rcases push_cases chunks chunk with
    ⟨rfl, hpush⟩ | ⟨before, front, content, rfl, -, rfl, hpush⟩ | ⟨-, -, hpush⟩
  · rw [hpush]
    exact (List.append_nil _).symm
  · simp [hpush, symbols]
  · simp [hpush]

/-- Adding a chunk keeps chunks in normal form. -/
theorem Normal.push (h : Normal chunks) (chunk : Chunk ρ) : Normal (push chunks chunk) := by
  rcases push_cases chunks chunk with
    ⟨-, hpush⟩ | ⟨before, front, content, -, hne, rfl, hpush⟩ | ⟨hchunk, hlast, hpush⟩
  · rwa [hpush]
  · rw [hpush]
    obtain ⟨hbefore, -, hlast⟩ := normal_concat.1 h
    -- the last text is longer, but it was a text before
    exact normal_concat.2 ⟨hbefore, by simp [hne], hlast⟩
  · rw [hpush]
    exact normal_concat.2 ⟨h, hchunk, hlast⟩

/-! ## There is only one normal form -/

/-- Put a character in front of chunks. -/
def prepend (c : Char) : List (Chunk ρ) → List (Chunk ρ)
  | text content :: chunks => text (c :: content) :: chunks
  | chunks => text [c] :: chunks

/-- The normal form of symbols. -/
def assemble : List (Symbol ρ) → List (Chunk ρ)
  | [] => []
  | .char c :: symbols => prepend c (assemble symbols)
  | .pixel raw :: symbols => pixel raw :: assemble symbols
  | .suffix raw :: symbols => suffix raw :: assemble symbols
  | .nested target :: symbols => nested target :: assemble symbols

theorem assemble_map_char {content : Text} (hne : content ≠ []) {symbols : List (Symbol ρ)}
    (hnext : ∀ next ∈ (assemble symbols).head?, next.isText = false) :
    assemble (content.map .char ++ symbols) = text content :: assemble symbols := by
  induction content with
  | nil => exact absurd rfl hne
  | cons c content ih =>
    rw [List.map_cons, List.cons_append, assemble]
    rcases content with _ | ⟨d, content⟩
    · -- the last character starts a text of its own
      change prepend c (assemble symbols) = text [c] :: assemble symbols
      rcases hchunks : assemble symbols with _ | ⟨next, chunks⟩
      · rfl
      · rw [hchunks] at hnext
        cases next with
        | text other => exact absurd (hnext _ rfl) Bool.noConfusion
        | pixel raw | suffix raw | nested target => rfl
    · rw [ih (List.cons_ne_nil _ _)]
      rfl

/-- **Chunks in normal form can be told from their symbols.** -/
theorem Normal.assemble_flatten (h : Normal chunks) : assemble (flatten chunks) = chunks := by
  induction chunks with
  | nil => rfl
  | cons chunk chunks ih =>
    obtain ⟨hchunk, hnext, hchunks⟩ := normal_cons.1 h
    have hrest := ih hchunks
    rw [flatten_cons]
    cases chunk with
    | text content =>
      rw [symbols, assemble_map_char (by simpa using hchunk) (by rw [hrest]; exact hnext), hrest]
    | pixel raw | suffix raw | nested target => exact congrArg (List.cons _) hrest

end Chunk

/-! ## The accumulator -/

namespace Accumulator

/-- What an accumulator is told to do. -/
inductive Operation (ρ : Type) where
  /-- write text -/
  | append (content : Text)
  /-- end the pending text, and add a chunk if there is one -/
  | flush (extra : Option (Chunk ρ))
  /-- end the pending text -/
  | finish
  deriving Repr

/-- The symbols that are written. -/
def Operation.symbols : Operation ρ → List (Symbol ρ)
  | append content => content.map .char
  | flush extra => extra.elim [] Chunk.symbols
  | finish => []

/-- Do one thing. -/
def perform (a : Accumulator ρ) : Operation ρ → Accumulator ρ
  | .append content => a.append content
  | .flush extra => a.flush extra
  | .finish => a.finish

/-- Do one thing after the other. -/
def performAll (a : Accumulator ρ) (operations : List (Operation ρ)) : Accumulator ρ :=
  operations.foldl perform a

/-- The symbols that were written so far. -/
def symbols (a : Accumulator ρ) : List (Symbol ρ) := Chunk.flatten a.chunks ++ a.pending.map .char

variable {a : Accumulator ρ}

@[simp] theorem symbols_empty : (empty : Accumulator ρ).symbols = [] := rfl

@[simp] theorem symbols_append (a : Accumulator ρ) (content : Text) :
    (a.append content).symbols = a.symbols ++ content.map .char := by
  simp [symbols, append]

@[simp] theorem symbols_flush (a : Accumulator ρ) (extra : Option (Chunk ρ)) :
    (a.flush extra).symbols = a.symbols ++ extra.elim [] Chunk.symbols := by
  cases extra <;> simp [symbols, flush, Chunk.symbols]

theorem symbols_perform (a : Accumulator ρ) (operation : Operation ρ) :
    (a.perform operation).symbols = a.symbols ++ operation.symbols := by
  cases operation with
  | append content => exact symbols_append a content
  | flush extra => exact symbols_flush a extra
  | finish => exact symbols_flush a none

/-- **All that is written is put down, in order.** -/
theorem symbols_performAll (a : Accumulator ρ) (operations : List (Operation ρ)) :
    (a.performAll operations).symbols = a.symbols ++ operations.flatMap Operation.symbols := by
  induction operations generalizing a with
  | nil => exact (List.append_nil _).symm
  | cons operation operations ih =>
    rw [performAll, List.foldl_cons, ← performAll, ih, symbols_perform, List.append_assoc,
      List.flatMap_cons]

theorem flatten_toChunks (a : Accumulator ρ) : Chunk.flatten a.toChunks = a.symbols := by
  have hfinish : a.finish.symbols = a.symbols := (symbols_flush a none).trans (List.append_nil _)
  rw [← hfinish]
  exact (List.append_nil _).symm

theorem normal_flush (h : Chunk.Normal a.chunks) (extra : Option (Chunk ρ)) :
    Chunk.Normal (a.flush extra).chunks := by
  cases extra with
  | none => exact h.push _
  | some chunk => exact (h.push _).push chunk

theorem normal_perform (h : Chunk.Normal a.chunks) (operation : Operation ρ) :
    Chunk.Normal (a.perform operation).chunks := by
  cases operation with
  | append content => exact h
  | flush extra => exact normal_flush h extra
  | finish => exact normal_flush h none

/-- **The chunks stay in normal form.** -/
theorem normal_performAll (h : Chunk.Normal a.chunks) (operations : List (Operation ρ)) :
    Chunk.Normal (a.performAll operations).chunks := by
  induction operations generalizing a with
  | nil => exact h
  | cons operation operations ih => exact ih (normal_perform h operation)

/-- **The chunks are the normal form of what was written**: no text among them is empty, no two
texts stand side by side, and they are the only chunks of that kind with these symbols. So whoever
writes the same symbols in the same order gets the same chunks, wherever the pending text is
flushed. -/
theorem toChunks_unique (operations : List (Operation ρ)) :
    let chunks := (empty.performAll operations).toChunks
    Chunk.Normal chunks ∧ Chunk.flatten chunks = operations.flatMap Operation.symbols ∧
      (∀ other, Chunk.Normal other → Chunk.flatten other = operations.flatMap Operation.symbols →
        other = chunks) ∧
      ∀ operations' : List (Operation ρ),
        operations'.flatMap Operation.symbols = operations.flatMap Operation.symbols →
          (empty.performAll operations').toChunks = chunks := by
  have hnormal (operations : List (Operation ρ)) :
      Chunk.Normal (empty.performAll operations).toChunks :=
    normal_flush (normal_performAll Chunk.normal_nil operations) none
  have hflatten (operations : List (Operation ρ)) :
      Chunk.flatten (empty.performAll operations).toChunks =
        operations.flatMap Operation.symbols := by
    rw [flatten_toChunks, symbols_performAll, symbols_empty, List.nil_append]
  intro chunks
  have hunique (other : List (Chunk ρ)) (hother : Chunk.Normal other)
      (hsame : Chunk.flatten other = operations.flatMap Operation.symbols) : other = chunks :=
    calc other
      _ = Chunk.assemble (Chunk.flatten other) := hother.assemble_flatten.symm
      _ = Chunk.assemble (Chunk.flatten chunks) := by rw [hsame, hflatten]
      _ = chunks := (hnormal operations).assemble_flatten
  refine ⟨hnormal operations, hflatten operations, hunique, fun operations' hsame => ?_⟩
  exact hunique _ (hnormal operations') ((hflatten operations').trans hsame)

/-- Text that reaches the chunks on every way there is: out of the pending text, as a chunk, and
behind other text. -/
def scattered : List (Operation ℕ) :=
  [.append ['a'], .finish, .append ['b'], .flush (some (.text ['c'])),
    .flush (some (.text [])), .finish, .flush (some (.pixel 1)), .flush (some (.nested 7)),
    .flush none, .flush (some (.text ['d'])), .append ['e']]

/-- The same in a few strokes. -/
def gathered : List (Operation ℕ) :=
  [.append ['a', 'b', 'c'], .flush (some (.pixel 1)), .flush (some (.nested 7)), .append ['d', 'e']]

theorem toChunks_unique_scattered :
    scattered.flatMap Operation.symbols = gathered.flatMap Operation.symbols ∧
      (empty.performAll scattered).toChunks = (empty.performAll gathered).toChunks ∧
      [.text ['a', 'b', 'c'], .pixel 1, .nested 7, .text ['d', 'e']] =
        (empty.performAll gathered).toChunks := by
  have hsame : scattered.flatMap Operation.symbols = gathered.flatMap Operation.symbols := rfl
  obtain ⟨-, -, hunique, hflushes⟩ := toChunks_unique gathered
  refine ⟨hsame, hflushes scattered hsame, hunique _ ⟨by simp, ?_⟩ rfl⟩
  simp [Chunk.isText]

/-! ## Emissions -/

end Accumulator

/-- An emission, as the accumulator is told of it. -/
def Emission.operation : Emission ρ → Accumulator.Operation ρ
  | text content => .append content
  | chunk content => .flush (some content)

/-- The symbols of an emission. -/
def Emission.symbols (emission : Emission ρ) : List (Symbol ρ) := emission.operation.symbols

namespace Accumulator

theorem emitAll_eq_performAll (a : Accumulator ρ) (emissions : List (Emission ρ)) :
    a.emitAll emissions = a.performAll (emissions.map Emission.operation) := by
  have hemit (a : Accumulator ρ) (emission : Emission ρ) : a.emit emission =
      a.perform emission.operation := by
    cases emission <;> rfl
  rw [performAll, List.foldl_map, emitAll]
  exact congrArg (fun f => emissions.foldl f a)
    (funext fun a => funext fun emission => hemit a emission)

/-- What is emitted is put down, in order. -/
theorem symbols_emitAll (a : Accumulator ρ) (emissions : List (Emission ρ)) :
    (a.emitAll emissions).symbols = a.symbols ++ emissions.flatMap Emission.symbols := by
  rw [emitAll_eq_performAll, symbols_performAll, List.flatMap_map]
  rfl

end Accumulator

/-! ## Values and productions -/

namespace Rpx

/-- What is written for an atom. -/
def Atom.symbol : Atom → Symbol Location
  | char c => .char c
  | literal n => .pixel n.value

theorem symbols_emission (list : List Atom) :
    (list.map Atom.emission).flatMap Emission.symbols = list.map Atom.symbol := by
  rw [List.flatMap_map, List.map_eq_flatMap]
  congr 1
  funext atom
  cases atom <;> rfl

end Rpx

/-- The chunks of a production have the symbols that it writes. -/
theorem Production.flatten_chunks (p : Production) :
    Chunk.flatten p.chunks = (p.events.filterMap Event.emission?).flatMap Emission.symbols := by
  rw [chunks, Accumulator.flatten_toChunks, Accumulator.symbols_emitAll]
  rfl

end MiniSheet
