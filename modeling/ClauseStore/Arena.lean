import ClauseStore.Arena.Header
import ClauseStore.Arithmetic
import ClauseStore.Reference
import ClauseStore.Clause
import ClauseStore.Error

/-!
The arena: one growing array of words that holds the records of all long clauses, back to back. A
record is a header followed by one word a literal, and starts at an even offset. A clause shortened
in place has the sentinel word zero in the last place of its first literals, so the span of a record
is found from the record alone and the arena can be walked from any record to the next.
-/

namespace ClauseStore

/-- The count of words at whose multiples records start. -/
def alignment : Nat := 2

/-- The count of bytes of a word. -/
def wordBytes : Nat := 4

/-- The word behind the literals of a shortened clause. -/
def sentinel : UInt32 := 0

/-- The least multiple of the alignment that is not below a count of words. -/
def aligned (n : Nat) : Nat := (n + 1) / 2 * 2

/-- The same for machine counts; near the greatest count it wraps. -/
def alignedCount (n : UInt64) : UInt64 := (n + 1) &&& ~~~1

/-- The machine count of words that a clause of some size takes. -/
def wordsOfClause (size : UInt64) : UInt64 := alignedCount (8 + size)

/-- The least multiple of the alignment as some machine counts it: the alignment is added before one is
taken off. -/
def alignedCount? (m : Arithmetic) (n : UInt64) : Option UInt64 :=
  (m.add? n 2).map fun sum => (sum - 1) &&& ~~~1

/-- The words that a clause of some size takes, as some machine counts them. -/
def wordsOfClause? (m : Arithmetic) (size : UInt64) : Option UInt64 :=
  (m.add? 8 size).bind (alignedCount? m)

/-- The words of all records. -/
structure Arena where
  words : Array UInt32 := #[]
  deriving DecidableEq

/-- What a record holds, read off the arena: its header, its literals, and the words it spans. -/
structure Record where
  header : Header
  literals : Clause
  span : Nat
  deriving DecidableEq

namespace Arena

/-- The count of words. -/
def size (a : Arena) : Nat := a.words.size

/-- The count of bytes. -/
def bytes (a : Arena) : Nat := a.size * wordBytes

/-- The reference behind the last record. -/
def limit (a : Arena) : Reference := Reference.ofOffset a.size

/-- The word at a place, or zero behind the end. -/
def word (a : Arena) (i : Nat) : UInt32 := a.words.getD i 0

/-- Whether the header of a record fits at an offset. -/
def resolves (a : Arena) (offset : Nat) : Bool :=
  offset % alignment == 0 && decide (offset + Header.wordCount ≤ a.size)

/-- The offset that a reference stands for, if a header fits there. -/
def resolve? (a : Arena) (r : Reference) : Option Nat :=
  if r.isValid && a.resolves r.offset then some r.offset else none

/-- The offset that a reference stands for, or the arena's failure. -/
def resolve (a : Arena) (r : Reference) : Except ArenaError Nat :=
  match a.resolve? r with
  | some offset => .ok offset
  | none => .error .invalidReference

/-- The header at an offset. -/
def header (a : Arena) (offset : Nat) : Header := Header.ofWords fun i => a.word (offset + i)

/-- Writes words from an offset on, as far as the arena reaches. -/
def write (a : Arena) (offset : Nat) : List UInt32 → Arena
  | [] => a
  | w :: ws => write ⟨a.words.setIfInBounds offset w⟩ (offset + 1) ws

/-- Replaces the header at an offset. -/
def setHeader (a : Arena) (offset : Nat) (h : Header) : Arena := a.write offset h.words

theorem size_write (a : Arena) (offset : Nat) (ws : List UInt32) :
    (a.write offset ws).size = a.size := by
  induction ws generalizing a offset with
  | nil => rfl
  | cons w ws ih => rw [write, ih]; exact Array.size_setIfInBounds

/-- What was written is read as far as the arena reaches, and no other word changes. -/
theorem word_write (a : Arena) (offset i : Nat) (ws : List UInt32) :
    (a.write offset ws).word i =
      if offset ≤ i ∧ i < offset + ws.length ∧ i < a.size then ws.getD (i - offset) 0
      else a.word i := by
  induction ws generalizing a offset with
  | nil => simp [write]; omega
  | cons w ws ih =>
    have hs : (⟨a.words.setIfInBounds offset w⟩ : Arena).size = a.size := Array.size_setIfInBounds
    rw [write, ih, hs]
    simp only [word, size, List.length_cons, Array.getD_eq_getD_getElem?,
      Array.getElem?_setIfInBounds]
    grind

theorem header_setHeader (a : Arena) (offset : Nat) (h : Header)
    (fits : offset + Header.wordCount ≤ a.size) : (a.setHeader offset h).header offset = h := by
  refine (Header.ofWords_congr fun i hi => ?_).trans h.ofWords_words
  rw [setHeader, word_write, if_pos ⟨Nat.le_add_right .., Nat.add_lt_add_left hi _, by omega⟩,
    Nat.add_sub_cancel_left]

/-- Revises the header at an offset. -/
def revise (a : Arena) (offset : Nat) (f : Header → Header) : Arena :=
  a.setHeader offset (f (a.header offset))

/-- The words of the literals of the record at an offset. -/
def literalWords (a : Arena) (offset : Nat) : Array UInt32 :=
  let first := offset + Header.wordCount
  a.words.extract first (first + (a.header offset).size.toNat)

/-- The literals of the record at an offset. -/
def literals (a : Arena) (offset : Nat) : Clause := (a.literalWords offset).toList.map Literal.ofWord

/-- How many words from a place on differ from the sentinel. -/
def runLength (a : Arena) (i : Nat) : Nat :=
  if h : i < a.words.size then
    if a.words[i] = sentinel then 0 else runLength a (i + 1) + 1
  else 0
termination_by a.words.size - i

/-- The count of words from the record at an offset to the next record. -/
def span (a : Arena) (offset : Nat) : Nat :=
  let h := a.header offset
  let used := Header.wordCount + h.size.toNat
  if h.flags.shrunken then aligned (used + a.runLength (offset + used) + 1) else aligned used

/-- The record at an offset. -/
def record (a : Arena) (offset : Nat) : Record :=
  ⟨a.header offset, a.literals offset, a.span offset⟩

/-- Appends a record of some zero words. The record is refused if it would end at an offset that no
reference can hold. -/
def reserve (a : Arena) (words : UInt64) : Except ArenaError (Reference × Arena) :=
  if a.size + words.toNat < Reference.invalid.offset then
    .ok (Reference.ofOffset a.size, ⟨a.words ++ Array.replicate words.toNat 0⟩)
  else .error .exhausted

/-- Appends a record of zero words with room for some literals, if the machine does not stop where it
counts the words. -/
def allocate (m : Arithmetic) (a : Arena) (size : UInt64) :
    Option (Except ArenaError (Reference × Arena)) :=
  (wordsOfClause? m size).map a.reserve

/-- Writes the literals of the record at an offset, and its size. -/
def writeLiterals (a : Arena) (offset : Nat) (c : Clause) : Arena :=
  (a.revise offset fun h => { h with size := UInt32.ofNat c.length }).write
    (offset + Header.wordCount) (c.map Literal.word)

/-- Exchanges two literals of the record at an offset. -/
def swapLiterals (a : Arena) (offset i j : Nat) : Arena :=
  let first := offset + Header.wordCount
  ⟨a.words.swapIfInBounds (first + i) (first + j)⟩

/-- Shortens the clause at an offset to its first literals. The first time, the sentinel takes the
place of the last literal. -/
def shrink (a : Arena) (offset : Nat) (size : UInt32) : Arena :=
  let h := a.header offset
  let marked :=
    if h.flags.shrunken then a
    else a.write (offset + Header.wordCount + h.size.toNat - 1) [sentinel]
  marked.revise offset fun h => { h.withFlag .shrunken true with size := size }

theorem wordCount_le_span (a : Arena) (offset : Nat) : Header.wordCount ≤ a.span offset := by
  simp only [span, aligned, Header.wordCount]
  split <;> omega

/-- The offsets of the records from an offset on, and whether the walk came to the end of the arena;
otherwise it stopped where no header fits. -/
def walkFrom (a : Arena) (offset : Nat) : List Nat × Bool :=
  if offset < a.size then
    if a.resolves offset then
      let rest := walkFrom a (offset + a.span offset)
      (offset :: rest.1, rest.2)
    else ([], false)
  else ([], true)
termination_by a.size - offset
decreasing_by
  have := a.wordCount_le_span offset
  simp only [Header.wordCount] at this
  omega

/-- Where a walk from an offset on over some records came to. -/
def walkEnd (a : Arena) (offset : Nat) (records : List Nat) : Nat :=
  match records.getLast? with
  | none => offset
  | some last => last + a.span last

/-- The references of the records from a reference on. -/
def walk (a : Arena) (r : Reference) : List Reference :=
  (a.walkFrom r.offset).1.map Reference.ofOffset

/-- The reference behind the record at a reference. -/
def next (a : Arena) (r : Reference) : Except ArenaError Reference :=
  (a.resolve r).map fun offset => Reference.ofOffset (offset + a.span offset)

/-- The references of the clauses that are not garbage, in the order of the arena. -/
def liveClauses (a : Arena) : List Reference :=
  ((a.walkFrom 0).1.filter fun offset => !(a.header offset).flags.garbage).map Reference.ofOffset

end Arena

/-- The text of a record: identity, flags, fields and literals. -/
def Record.text (r : Record) : String :=
  let h := r.header
  "#" ++ toString h.identity.toNat ++
    " [" ++ h.flags.letters [.garbage, .keep, .reason, .redundant, .shrunken] ++ "]" ++
    " glue " ++ toString h.glue.toNat ++
    " used " ++ toString h.grace.toNat ++
    " props " ++ toString h.props.toNat ++
    " uip " ++ toString h.uips.toNat ++
    " touched " ++ toString h.touched.toNat ++
    " side " ++ (match h.row? with
      | none => "None"
      | some index => "Some(" ++ toString index ++ ")") ++
    ":" ++ r.literals.spaced

end ClauseStore
