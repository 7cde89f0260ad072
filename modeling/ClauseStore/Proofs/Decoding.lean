import ClauseStore.Text.Blank
import ClauseStore.Proofs.Transcription

/-!
Clauses and steps of proofs can be read back from their text. A reader takes the words of a text: the
letter d opens a deletion, a zero closes a step, and any other word is the decimal integer of a literal.
Each literal is one word in both forms of text, as the lead of a column is its sign or a blank. That
word is read as the literal again, and is not the closing zero, as long as no literal is zero; so a step
ends, for the reader, where it was ended by the writer.
-/

namespace ClauseStore

open Text (isBlank words words_nil words_append_blank words_blank words_of_plain
  words_singleton)

/-! ### A reader -/

/-- Reads a word as a decimal number. -/
def readDigits? (w : List Char) : Option Nat :=
  if !w.isEmpty && w.all Char.isDigit then some (Nat.ofDigitChars 10 w 0) else none

/-- Reads a word as a decimal integer. -/
def readInt? : List Char → Option Int
  | '-' :: w => (readDigits? w).map fun n => -(n : Int)
  | w => (readDigits? w).map fun n => (n : Int)

/-- The literal of an integer, if there is one. -/
def Literal.ofInt? (n : Int) : Option Literal :=
  if (Int32.ofInt n).toInt = n then some ⟨Int32.ofInt n⟩ else none

/-- Reads a word as a literal. -/
def readLiteral? (w : List Char) : Option Literal := (readInt? w).bind Literal.ofInt?

/-- Reads the words of a text as literals. -/
def readClause? (text : String) : Option Clause := (words text.toList).mapM readLiteral?

namespace ProofStep

/-- The clause added or deleted. -/
def clause : ProofStep → Clause
  | .addition c => c
  | .deletion c => c

/-- The step with further literals. -/
def extend : ProofStep → Clause → ProofStep
  | .addition c, lits => .addition (c ++ lits)
  | .deletion c, lits => .deletion (c ++ lits)

/-- Reads some words as steps, the first of which has been read up to a point. Nothing of it has been
read if it is the addition of no literals. -/
def readFrom? (current : ProofStep) : List (List Char) → Option (List ProofStep)
  | [] => if current = .addition [] then some [] else none
  | w :: ws =>
    if w = ['d'] ∧ current = .addition [] then readFrom? (.deletion []) ws
    else if w = ['0'] then (readFrom? (.addition []) ws).map (current :: ·)
    else (readLiteral? w).bind fun l => readFrom? (current.extend [l]) ws

/-- Reads the words of a text as steps. -/
def read? (text : String) : Option (List ProofStep) := readFrom? (.addition []) (words text.toList)

end ProofStep

/-- No literal of a clause is zero. -/
def Clause.Nonzero (c : Clause) : Prop := ∀ l ∈ c, l.toInt ≠ 0

instance (c : Clause) : Decidable (Clause.Nonzero c) :=
  List.decidableBAll (fun l : Literal => l.toInt ≠ 0) c

/-- The words of the literals of a clause. -/
def Clause.texts (c : Clause) : List (List Char) := c.map fun l => l.text.toList

variable {l : Literal} {c : Clause} {step : ProofStep}

/-! ### Literals -/

theorem readDigits_toDigits (n : Nat) : readDigits? (Nat.toDigits 10 n) = some n := by
  have digits : (Nat.toDigits 10 n).all Char.isDigit = true := by
    rw [List.all_eq_true]
    exact fun d digit => Nat.isDigit_of_mem_toDigits (by decide) (by decide) digit
  rw [readDigits?, if_pos (by simp [digits, Nat.toDigits_ne_nil]),
    Nat.ofDigitChars_toDigits (by decide) (by decide)]

theorem readInt_toDigits (n : Nat) : readInt? (Nat.toDigits 10 n) = some (n : Int) := by
  rw [readInt?, readDigits_toDigits]
  · rfl
  · intro w sign
    have digit : '-' ∈ Nat.toDigits 10 n := by simp [sign]
    exact absurd (Nat.isDigit_of_mem_toDigits (by decide) (by decide) digit) (by decide)

theorem isBlank_of_isDigit {d : Char} (digit : d.isDigit = true) : isBlank d = false := by
  obtain ⟨least, most⟩ := Char.isDigit_iff_toNat.1 digit
  change 48 ≤ d.toNat at least
  change d.toNat ≤ 57 at most
  simp [isBlank, Text.inRanges, Text.blankRanges]
  omega

namespace Literal

theorem ofInt_toInt (l : Literal) : ofInt? l.toInt = some l := by
  rw [ofInt?, toInt, Int32.ofInt_toInt, if_pos rfl]

/-- The text of a literal is its sign, if it has one, and the digits of its atom. -/
theorem toList_text (l : Literal) :
    l.text.toList = (if l.toInt < 0 then ['-'] else []) ++ Nat.toDigits 10 l.atom := by
  rw [text, Int.toString_eq_repr, Int.repr_eq_if, atom]
  by_cases negative : l.toInt < 0
  · have atom_eq : (-l.toInt).toNat = l.toInt.natAbs := by omega
    rw [if_pos negative, if_neg (by omega), String.toList_append, Nat.toList_repr, atom_eq]
    rfl
  · have atom_eq : l.toInt.toNat = l.toInt.natAbs := by omega
    rw [if_neg negative, if_pos (by omega), Nat.toList_repr, atom_eq]
    rfl

/-- A literal is read from its text, the least one as well. -/
theorem read_text (l : Literal) : readLiteral? l.text.toList = some l := by
  have read : readInt? l.text.toList = some l.toInt := by
    rw [toList_text]
    by_cases negative : l.toInt < 0
    · rw [if_pos negative, List.singleton_append, readInt?, readDigits_toDigits]
      have minus : -(l.atom : Int) = l.toInt := by
        rw [atom]
        omega
      exact congrArg some minus
    · rw [if_neg negative, List.nil_append, readInt_toDigits]
      have plus : (l.atom : Int) = l.toInt := by
        rw [atom]
        omega
      rw [plus]
  rw [readLiteral?, read]
  exact ofInt_toInt l

/-- The text of a literal is one word. -/
theorem words_text (l : Literal) : words l.text.toList = [l.text.toList] := by
  rw [toList_text]
  refine words_of_plain (by simp [Nat.toDigits_ne_nil]) ?_
  intro d hd
  rcases List.mem_append.1 hd with sign | digit
  · split at sign
    · obtain rfl : d = '-' := by simpa using sign
      decide
    · simp at sign
  · exact isBlank_of_isDigit (Nat.isDigit_of_mem_toDigits (by decide) (by decide) digit)

/-- The word of a literal opens no deletion, and closes a step only if the literal is zero. -/
theorem text_ne (nonzero : l.toInt ≠ 0) : l.text.toList ≠ ['d'] ∧ l.text.toList ≠ ['0'] := by
  have read := l.read_text
  constructor
  · intro letter
    have none : readLiteral? ['d'] = none := by decide
    rw [letter, none] at read
    cases read
  · intro zero
    have some_zero : readLiteral? ['0'] = some ⟨0⟩ := by decide
    rw [zero, some_zero] at read
    cases read
    exact nonzero rfl

/-- A column is the text of the literal behind a blank or not, and a blank. -/
theorem toList_column (nonzero : l.toInt ≠ 0) :
    l.column.toList = (if l.toInt < 0 then [] else [' ']) ++ l.text.toList ++ [' '] := by
  rw [toList_text, column, String.toList_append, String.toList_append, Nat.toString_eq_repr,
    Nat.toList_repr]
  rcases Int.lt_or_gt_of_ne nonzero with negative | positive
  · rw [if_neg (by simp [Literal.positive]; omega), if_pos negative, if_pos negative]
    rfl
  · rw [if_pos (by simpa [Literal.positive] using positive), if_neg (by omega), if_neg (by omega)]
    rfl

theorem words_column (nonzero : l.toInt ≠ 0) (cs : List Char) :
    words (l.column.toList ++ cs) = l.text.toList :: words cs := by
  have body : words (l.text.toList ++ ' ' :: cs) = l.text.toList :: words cs := by
    rw [words_append_blank (by decide), words_text]
    rfl
  rw [toList_column nonzero]
  split
  · simpa using body
  · simpa [words_blank (by decide : isBlank ' ' = true)] using body

end Literal

/-! ### Clauses -/

namespace Clause

theorem Nonzero.head (nonzero : Nonzero (l :: c)) : l.toInt ≠ 0 := nonzero l List.mem_cons_self

theorem Nonzero.tail (nonzero : Nonzero (l :: c)) : Nonzero c :=
  fun l' hl' => nonzero l' (List.mem_cons_of_mem l hl')

theorem texts_cons (l : Literal) (c : Clause) : texts (l :: c) = l.text.toList :: texts c := rfl

theorem mapM_texts (c : Clause) : (texts c).mapM readLiteral? = some c := by
  induction c with
  | nil => rfl
  | cons l c ih => simp [texts_cons, List.mapM_cons, l.read_text, ih]

theorem words_columns (nonzero : Nonzero c) (cs : List Char) :
    words ((columns c).toList ++ cs) = texts c ++ words cs := by
  induction c with
  | nil => rfl
  | cons l c ih =>
    have front : (columns (l :: c)).toList ++ cs = l.column.toList ++ ((columns c).toList ++ cs) := by
      simp [columns]
    rw [front, Literal.words_column nonzero.head, ih nonzero.tail]
    rfl

/-- The blank that the open column text lacks parts no words. -/
theorem words_dropLast (nonzero : Nonzero c) :
    words (columns c).toList.dropLast = words (columns c).toList := by
  rcases List.eq_nil_or_concat c with rfl | ⟨front, l, rfl⟩
  · rfl
  · rw [List.concat_eq_append] at nonzero ⊢
    obtain ⟨cs, last⟩ : ∃ cs, l.column.toList = cs ++ [' '] :=
      ⟨_, Literal.toList_column (nonzero l (by simp))⟩
    have columns_eq : (columns (front ++ [l])).toList = ((columns front).toList ++ cs) ++ [' '] := by
      simp [columns, last]
    rw [columns_eq, List.dropLast_concat, words_append_blank (by decide), words_nil, List.append_nil]

theorem words_stepBody (c : Clause) (cs : List Char) :
    words ((stepBody c).toList ++ cs) = texts c ++ ['0'] :: words cs := by
  induction c with
  | nil =>
    show words (['0'] ++ '\n' :: cs) = _
    rw [words_append_blank (by decide), words_singleton (by decide)]
    rfl
  | cons l c ih =>
    have front : (stepBody (l :: c)).toList ++ cs =
        l.text.toList ++ ' ' :: ((stepBody c).toList ++ cs) := by
      simp [stepBody]
    rw [front, words_append_blank (by decide), l.words_text, ih]
    rfl

end Clause

/-! ### Steps -/

namespace ProofStep

theorem extend_nil : step.extend [] = step := by
  cases step <;> simp [extend]

theorem extend_extend (lits more : Clause) :
    (step.extend lits).extend more = step.extend (lits ++ more) := by
  cases step <;> simp [extend]

/-- Literals are read one after the other, into the step that is open. -/
theorem readFrom_texts (nonzero : Clause.Nonzero c) (ws : List (List Char)) :
    readFrom? step (Clause.texts c ++ ws) = readFrom? (step.extend c) ws := by
  -- for any open step, as each literal goes into it
  induction c generalizing step with
  | nil =>
    rw [extend_nil]
    rfl
  | cons l c ih =>
    obtain ⟨no_letter, no_zero⟩ := Literal.text_ne nonzero.head
    rw [Clause.texts_cons, List.cons_append, readFrom?, if_neg (fun opens => no_letter opens.1),
      if_neg no_zero, l.read_text]
    show readFrom? (step.extend [l]) (Clause.texts c ++ ws) = _
    rw [ih nonzero.tail, extend_extend]
    rfl

/-- A step is read where it was opened and is closed. -/
theorem readFrom_body (nonzero : Clause.Nonzero c) (cs : List Char) :
    readFrom? step (words ((stepBody c).toList ++ cs)) =
      (readFrom? (.addition []) (words cs)).map (step.extend c :: ·) := by
  rw [Clause.words_stepBody, readFrom_texts nonzero, readFrom?, if_neg (by simp), if_pos rfl]

/-- A step is read off the front of a text. -/
theorem read_line (nonzero : Clause.Nonzero step.clause) (cs : List Char) :
    readFrom? (.addition []) (words (step.line.toList ++ cs)) =
      (readFrom? (.addition []) (words cs)).map (step :: ·) := by
  cases step with
  | addition c => exact readFrom_body nonzero cs
  | deletion c =>
    have front : (deletionStep c).toList ++ cs = ['d'] ++ ' ' :: ((stepBody c).toList ++ cs) := by
      simp [deletionStep]
    rw [line, front, words_append_blank (by decide), words_singleton (by decide),
      List.singleton_append, readFrom?, if_pos ⟨rfl, rfl⟩]
    exact readFrom_body nonzero cs

theorem read_text {steps : List ProofStep} (nonzero : ∀ step ∈ steps, Clause.Nonzero step.clause) :
    read? (text steps) = some steps := by
  rw [read?]
  induction steps with
  | nil => rfl
  | cons step steps ih =>
    rw [text_cons, String.toList_append, read_line (nonzero step List.mem_cons_self),
      ih fun s hs => nonzero s (List.mem_cons_of_mem _ hs)]
    rfl

end ProofStep

namespace Clause

theorem read_closed (nonzero : Nonzero c) : ProofStep.read? (dimacs c true) = some [.addition c] := by
  rw [dimacs, if_pos rfl, ProofStep.read?, String.toList_append, words_columns nonzero,
    ProofStep.readFrom_texts nonzero]
  rfl

theorem read_open (nonzero : Nonzero c) : readClause? (dimacs c false) = some c := by
  have words_eq : words (columns c).toList = texts c := by
    simpa using words_columns nonzero []
  rw [dimacs, if_neg (by decide), readClause?, String.toList_ofList, words_dropLast nonzero, words_eq,
    mapM_texts]

end Clause

/-! ### Texts -/

namespace Transcript

variable {σ : Type} {t : Transcript σ}

theorem buffer_notes (t : Transcript σ) (steps : List ProofStep) :
    (steps.foldl note t).buffer = t.buffer ++ steps.map ProofStep.line := by
  induction steps generalizing t with
  | nil => exact (List.append_nil _).symm
  | cons step steps ih => simp [ih]

/-- Steps and clauses without a zero among their literals can be read from what is written of them, so
no two of them are written alike. -/
theorem texts_decode (fresh : t.buffer = []) :
    (∀ steps : List ProofStep, (∀ step ∈ steps, Clause.Nonzero step.clause) →
      ProofStep.read? (String.join (steps.foldl note t).buffer) = some steps) ∧
    (∀ steps steps' : List ProofStep, (∀ step ∈ steps, Clause.Nonzero step.clause) →
      (∀ step ∈ steps', Clause.Nonzero step.clause) →
      String.join (steps.foldl note t).buffer = String.join (steps'.foldl note t).buffer →
      steps = steps') ∧
    ∀ c : Clause, Clause.Nonzero c → ProofStep.read? (Clause.dimacs c true) = some [.addition c] ∧
      readClause? (Clause.dimacs c false) = some c := by
  have reads : ∀ steps : List ProofStep, (∀ step ∈ steps, Clause.Nonzero step.clause) →
      ProofStep.read? (String.join (steps.foldl note t).buffer) = some steps := by
    intro steps nonzero
    rw [buffer_notes, fresh, List.nil_append]
    exact ProofStep.read_text nonzero
  refine ⟨reads, fun steps steps' nonzero nonzero' same => ?_, fun c nonzero => ⟨?_, ?_⟩⟩
  · have read := reads steps nonzero
    rw [same, reads steps' nonzero'] at read
    exact (Option.some.inj read).symm
  · exact Clause.read_closed nonzero
  · exact Clause.read_open nonzero

/-- The least and the greatest literal, and clauses without literals. -/
def edgeSteps : List ProofStep :=
  [.addition [], .deletion [⟨-2147483648⟩, ⟨2147483647⟩], .deletion [], .addition [⟨-1⟩, ⟨1⟩]]

theorem texts_decode_edgeSteps : (⟨(), []⟩ : Transcript Unit).buffer = [] ∧
    (∀ step ∈ edgeSteps, Clause.Nonzero step.clause) ∧
    String.join (edgeSteps.foldl note (⟨(), []⟩ : Transcript Unit)).buffer =
      "0\nd -2147483648 2147483647 0\nd 0\n-1 1 0\n" ∧
    ProofStep.read? "0\nd -2147483648 2147483647 0\nd 0\n-1 1 0\n" = some edgeSteps ∧
    Clause.dimacs [⟨-2147483648⟩, ⟨7⟩] true = "-2147483648  7 0" ∧
    ProofStep.read? "-2147483648  7 0" = some [.addition [⟨-2147483648⟩, ⟨7⟩]] ∧
    Clause.dimacs [⟨-2147483648⟩, ⟨7⟩] false = "-2147483648  7" ∧
    readClause? "-2147483648  7" = some [⟨-2147483648⟩, ⟨7⟩] := by
  obtain ⟨steps, -, clauses⟩ := texts_decode (rfl : (⟨(), []⟩ : Transcript Unit).buffer = [])
  have nonzero : ∀ step ∈ edgeSteps, Clause.Nonzero step.clause := by decide
  have noted : String.join (edgeSteps.foldl note (⟨(), []⟩ : Transcript Unit)).buffer =
      "0\nd -2147483648 2147483647 0\nd 0\n-1 1 0\n" := by decide +kernel
  have closed : Clause.dimacs [⟨-2147483648⟩, ⟨7⟩] true = "-2147483648  7 0" := by decide +kernel
  have cut : Clause.dimacs [⟨-2147483648⟩, ⟨7⟩] false = "-2147483648  7" := by decide +kernel
  have read := steps edgeSteps nonzero
  have read' := clauses [⟨-2147483648⟩, ⟨7⟩] (by decide)
  rw [noted] at read
  rw [closed, cut] at read'
  exact ⟨rfl, nonzero, noted, read, closed, read'.1, cut, read'.2⟩

end Transcript

end ClauseStore
