/-!
White space, lines and words. A blank is one of the 25 characters with the Unicode property
White_Space; a line ends at a line feed, with or without a carriage return ahead of it, and at nothing
else; a word is a longest run without blanks.
-/

namespace ClauseStore.Text

/-- The code points of the blanks, as closed ranges, ascending and apart. -/
def blankRanges : List (Nat × Nat) :=
  [(0x09, 0x0D), (0x20, 0x20), (0x85, 0x85), (0xA0, 0xA0), (0x1680, 0x1680), (0x2000, 0x200A),
    (0x2028, 0x2029), (0x202F, 0x202F), (0x205F, 0x205F), (0x3000, 0x3000)]

/-- Whether a code point lies in one of some closed ranges. -/
def inRanges (ranges : List (Nat × Nat)) (n : Nat) : Bool :=
  ranges.any fun r => decide (r.1 ≤ n) && decide (n ≤ r.2)

/-- Whether a character is white space. -/
def isBlank (c : Char) : Bool := inRanges blankRanges c.toNat

/-- The lines of a text, without their ends; what stands behind the last end is a line if it is not
empty. -/
def lines : List Char → List (List Char)
  | [] => []
  | '\n' :: cs => [] :: lines cs
  | '\r' :: '\n' :: cs => [] :: lines cs
  | c :: cs =>
    match lines cs with
    | [] => [[c]]
    | line :: rest => (c :: line) :: rest

/-- The words of a text. -/
def words (cs : List Char) : List (List Char) :=
  (cs.splitOnP isBlank).filter fun piece => !piece.isEmpty

@[simp] theorem words_nil : words [] = [] := by
  simp [words, List.splitOnP_nil]

/-- A blank parts the words ahead of it from those behind it. -/
theorem words_append_blank {c : Char} (blank : isBlank c = true) (xs ys : List Char) :
    words (xs ++ c :: ys) = words xs ++ words ys := by
  rw [words, List.splitOnP_append_cons xs ys blank, List.filter_append]
  rfl

theorem words_blank {c : Char} (blank : isBlank c = true) (cs : List Char) :
    words (c :: cs) = words cs := by
  simpa using words_append_blank blank [] cs

/-- Characters that are no blanks make one word. -/
theorem words_of_plain {w : List Char} (nonempty : w ≠ []) (plain : ∀ c ∈ w, isBlank c = false) :
    words w = [w] := by
  simp [words, List.splitOnP_eq_singleton plain, nonempty]

theorem words_singleton {c : Char} (plain : isBlank c = false) : words [c] = [[c]] :=
  words_of_plain (List.cons_ne_nil c []) fun _ hd => List.mem_singleton.1 hd ▸ plain

end ClauseStore.Text
