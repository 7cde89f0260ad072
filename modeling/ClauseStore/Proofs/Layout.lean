import ClauseStore.Predictor.Model
import Mathlib.Data.List.TakeWhile

/-!
The layout of a model text. A text is laid out from words: a word stands between blanks, comments and
the ends of the text, and a comment goes from a number sign up to a line feed, or to the end of the
text. A comment may touch the word ahead of it, and it is not ended by a carriage return that stands
alone or by another character that parts lines elsewhere. Reading a text splits it into lines, cuts the
comments off, and splits what is left at the blanks; whatever the layout, this gives the words back, and
so what is read depends on nothing else.
-/

namespace ClauseStore

namespace Model

open Text

/-- What can be a word of a model text. -/
structure IsWord (w : List Char) : Prop where
  nonempty : w ≠ []
  plain : ∀ c ∈ w, isBlank c = false
  uncommented : '#' ∉ w

/-- A text that writes some words, in order. -/
inductive Layout : List (List Char) → List Char → Prop
  | nil : Layout [] []
  | blank {ws : List (List Char)} {c : Char} {cs : List Char} (blank : isBlank c = true)
    (rest : Layout ws cs) : Layout ws (c :: cs)
  /-- a comment, up to the next line feed or to the end of the text -/
  | comment {ws : List (List Char)} {note cs : List Char} (within : '\n' ∉ note)
    (ends : ∀ c ∈ cs.head?, c = '\n') (rest : Layout ws cs) : Layout ws ('#' :: note ++ cs)
  | word {ws : List (List Char)} {w cs : List Char} (word : IsWord w)
    (ends : ∀ c ∈ cs.head?, isBlank c = true ∨ c = '#') (rest : Layout ws cs) :
    Layout (w :: ws) (w ++ cs)

/-- The words of a text, line by line. -/
def wordsOf (cs : List Char) : List (List Char) :=
  (lines cs).flatMap fun line => Text.words (Model.uncommented line)

/-- What some words come to, as a model or as the wording of a fault. -/
inductive Reads (ws : List (List Char)) : Except String Model → Prop
  /-- the first word that is no number is the fault, however many words there are -/
  | notANumber {before behind : List (List Char)} {w : List Char} (words_eq : ws = before ++ w :: behind)
    (numbers : ∀ v ∈ before, Binary64.read? v ≠ none) (fault : Binary64.read? w = none) :
    Reads ws (.error ("Not a number: " ++ String.ofList w))
  | wrongCount {xs : List Binary64} (numbers : ws.map Binary64.read? = xs.map some)
    (other : xs.length ≠ 13) :
    Reads ws (.error ("Expected 13 values, found " ++ toString xs.length))
  /-- twelve weights, and the bias -/
  | model {weights : List Binary64} {bias : Binary64} (length_eq : weights.length = 12)
    (numbers : ws.map Binary64.read? = (weights ++ [bias]).map some) : Reads ws (.ok ⟨weights, bias⟩)

variable {ws before behind : List (List Char)} {cs note w : List Char} {c : Char}

/-! ### Lines -/

/-- A first character is a line feed, or a carriage return ahead of one, or part of the first line. -/
theorem lines_cons (c : Char) (cs : List Char) :
    (c = '\n' ∧ lines (c :: cs) = [] :: lines cs) ∨
      (c = '\r' ∧ cs.head? = some '\n' ∧ lines (c :: cs) = lines cs) ∨
      lines (c :: cs) = (c :: (lines cs).headD []) :: (lines cs).tail := by
  by_cases feed : c = '\n'
  · subst feed
    exact .inl ⟨rfl, rfl⟩
  by_cases carriage : c = '\r' ∧ ∃ xs, cs = '\n' :: xs
  · obtain ⟨rfl, xs, rfl⟩ := carriage
    exact .inr (.inl ⟨rfl, rfl, rfl⟩)
  · refine .inr (.inr ?_)
    rw [lines]
    · cases lines cs <;> rfl
    · exact feed
    · exact fun xs hc hcs => carriage ⟨hc, xs, hcs⟩

/-- A character that is no part of a line end goes to the front of the first line. -/
theorem lines_cons_plain (plain : isBlank c = false) (cs : List Char) :
    lines (c :: cs) = (c :: (lines cs).headD []) :: (lines cs).tail := by
  rcases lines_cons c cs with ⟨rfl, -⟩ | ⟨rfl, -, -⟩ | front
  · exact absurd plain (by decide)
  · exact absurd plain (by decide)
  · exact front

/-- The first line of a text is empty or begins as the text does. -/
theorem head_lines (c : Char) (cs : List Char) :
    (lines (c :: cs)).headD [] = [] ∨ ∃ line, (lines (c :: cs)).headD [] = c :: line := by
  rcases lines_cons c cs with ⟨-, feed⟩ | ⟨-, next, carriage⟩ | front
  · exact .inl (by rw [feed]; rfl)
  · obtain ⟨cs, rfl⟩ := List.head?_eq_some_iff.1 next
    exact .inl (by rw [carriage]; rfl)
  · exact .inr ⟨_, by rw [front]; rfl⟩

/-- What stands ahead of the next line feed is within the first line. -/
theorem tail_lines_append (within : '\n' ∉ note) (cs : List Char) :
    (lines (note ++ cs)).tail = (lines cs).tail := by
  induction note with
  | nil => rfl
  | cons c note ih =>
    rw [List.mem_cons, not_or] at within
    rw [← ih within.2, List.cons_append]
    rcases lines_cons c (note ++ cs) with ⟨rfl, -⟩ | ⟨-, -, carriage⟩ | front
    · exact absurd rfl within.1
    · rw [carriage]
    · rw [front, List.tail_cons]

/-- A word goes to the front of the first line behind it. -/
theorem lines_append (word : IsWord w) (cs : List Char) :
    lines (w ++ cs) = (w ++ (lines cs).headD []) :: (lines cs).tail := by
  obtain ⟨nonempty, plain, -⟩ := word
  induction w with
  | nil => exact absurd rfl nonempty
  | cons c w ih =>
    rw [List.cons_append, lines_cons_plain (plain c List.mem_cons_self)]
    cases w with
    | nil => rfl
    | cons d w =>
      rw [ih (by simp) fun x hx => plain x (List.mem_cons_of_mem _ hx)]
      rfl

/-! ### Words -/

theorem wordsOf_eq (cs : List Char) :
    wordsOf cs = Text.words (Model.uncommented ((lines cs).headD [])) ++
      (lines cs).tail.flatMap fun line => Text.words (Model.uncommented line) := by
  rw [wordsOf]
  cases lines cs <;> rfl

theorem uncommented_blank (blank : isBlank c = true) (line : List Char) :
    Model.uncommented (c :: line) = c :: Model.uncommented line := by
  rw [Model.uncommented, List.takeWhile_cons_of_pos]
  · rfl
  · rw [bne_iff_ne]
    rintro rfl
    exact absurd blank (by decide)

theorem wordsOf_blank (blank : isBlank c = true) (cs : List Char) : wordsOf (c :: cs) = wordsOf cs := by
  rcases lines_cons c cs with ⟨-, feed⟩ | ⟨-, -, carriage⟩ | front
  · rw [wordsOf, feed]
    rfl
  · rw [wordsOf, carriage]
    rfl
  · rw [wordsOf_eq, wordsOf_eq cs, front, List.headD_cons, List.tail_cons, uncommented_blank blank,
      words_blank blank]

theorem wordsOf_comment (within : '\n' ∉ note) (ends : ∀ c ∈ cs.head?, c = '\n') :
    wordsOf ('#' :: note ++ cs) = wordsOf cs := by
  have first : (lines cs).headD [] = [] := by
    cases cs with
    | nil => rfl
    | cons c cs =>
      cases ends c rfl
      rfl
  rw [wordsOf_eq, wordsOf_eq cs, first, List.cons_append, lines_cons_plain (by decide), List.headD_cons,
    List.tail_cons, tail_lines_append within]
  rfl

/-- A word that a blank, a comment or the end of the text comes after is the first word of its line. -/
theorem wordsOf_word (word : IsWord w) (ends : ∀ c ∈ cs.head?, isBlank c = true ∨ c = '#') :
    wordsOf (w ++ cs) = w :: wordsOf cs := by
  have kept : ∀ line, Model.uncommented (w ++ line) = w ++ Model.uncommented line := by
    intro line
    refine List.takeWhile_append_of_pos fun c hc => bne_iff_ne.2 ?_
    rintro rfl
    exact word.uncommented hc
  have front : Text.words (w ++ Model.uncommented ((lines cs).headD [])) =
      w :: Text.words (Model.uncommented ((lines cs).headD [])) := by
    have alone := words_of_plain word.nonempty word.plain
    cases cs with
    | nil => simpa [lines, Model.uncommented] using alone
    | cons c cs =>
      rcases head_lines c cs with empty | ⟨line, head_eq⟩
      · rw [empty]
        simpa [Model.uncommented] using alone
      · rw [head_eq]
        rcases ends c rfl with blank | rfl
        · rw [uncommented_blank blank, words_append_blank blank, words_blank blank, alone]
          rfl
        · simpa [Model.uncommented] using alone
  rw [wordsOf_eq, wordsOf_eq cs, lines_append word, List.headD_cons, List.tail_cons, kept, front,
    List.cons_append]

/-- Reading a text gives the words back that it was laid out from. -/
theorem Layout.wordsOf_eq (h : Layout ws cs) : wordsOf cs = ws := by
  induction h with
  | nil => rfl
  | blank blank _ ih => rw [wordsOf_blank blank, ih]
  | comment within ends _ ih => rw [wordsOf_comment within ends, ih]
  | word word ends _ ih => rw [wordsOf_word word ends, ih]

/-- The longest front of a text whose characters have a property, and what comes behind it. -/
theorem exists_front (p : Char → Bool) (cs : List Char) :
    ∃ front rest, cs = front ++ rest ∧ (∀ c ∈ front, p c = true) ∧ ∀ c ∈ rest.head?, p c = false := by
  refine ⟨cs.takeWhile p, cs.dropWhile p, List.takeWhile_append_dropWhile.symm,
    fun c hc => List.mem_takeWhile_imp hc, fun c hc => ?_⟩
  have stopped := List.head?_dropWhile_not p cs
  rw [Option.mem_def.1 hc] at stopped
  exact stopped

theorem Layout.words_eq {text : String} (h : Layout ws text.toList) : Model.words text = ws := h.wordsOf_eq

/-- Every text is laid out from some words. -/
theorem exists_layout (cs : List Char) : ∃ ws, Layout ws cs := by
  -- by the length, as words and comments are taken off the front whole
  induction h : cs.length using Nat.strongRecOn generalizing cs with
  | _ n ih =>
  subst h
  cases cs with
  | nil => exact ⟨[], .nil⟩
  | cons c cs =>
    by_cases blank : isBlank c = true
    · obtain ⟨ws, rest⟩ := ih _ (Nat.lt_succ_self _) cs rfl
      exact ⟨ws, .blank blank rest⟩
    by_cases sign : c = '#'
    · subst sign
      obtain ⟨note, rest, rfl, within, ends⟩ := exists_front (· != '\n') cs
      obtain ⟨ws, layout⟩ := ih _ (by simp only [List.length_cons, List.length_append]; omega) rest rfl
      exact ⟨ws, .comment (fun feed => by simpa using within _ feed) (by simpa using ends) layout⟩
    · obtain ⟨w, rest, rfl, plain, ends⟩ := exists_front (fun c => !isBlank c && c != '#') cs
      obtain ⟨ws, layout⟩ := ih _ (by simp only [List.length_cons, List.length_append]; omega) rest rfl
      have word : IsWord (c :: w) := by
        refine ⟨by simp, ?_, ?_⟩
        · rintro d (_ | ⟨_, hd⟩)
          · simpa using blank
          · exact (by simpa using plain d hd : isBlank d = false ∧ _).1
        · rw [List.mem_cons, not_or]
          exact ⟨Ne.symm sign, fun hd => by simpa using plain _ hd⟩
      exact ⟨_, .word word (fun d hd => by simpa [Classical.or_iff_not_imp_left] using ends d hd) layout⟩

/-- Every text is laid out from the words that are read off it, and from no others. -/
theorem layout_iff : Layout ws cs ↔ wordsOf cs = ws := by
  refine ⟨Layout.wordsOf_eq, ?_⟩
  rintro rfl
  obtain ⟨ws, layout⟩ := exists_layout cs
  rwa [layout.wordsOf_eq]

/-! ### Numbers -/

theorem numbers_eq_ok {xs : List Binary64} (h : ws.map Binary64.read? = xs.map some) :
    numbers ws = .ok xs := by
  induction ws generalizing xs with
  | nil =>
    cases xs with
    | nil => rfl
    | cons x xs => simp at h
  | cons w ws ih =>
    cases xs with
    | nil => simp at h
    | cons x xs =>
      rw [List.map_cons, List.map_cons, List.cons.injEq] at h
      rw [numbers, h.1, ih h.2]
      rfl

theorem numbers_eq_error (h : ∀ v ∈ before, Binary64.read? v ≠ none) (fault : Binary64.read? w = none) :
    numbers (before ++ w :: behind) = .error (.notANumber (String.ofList w)) := by
  induction before with
  | nil => rw [List.nil_append, numbers, fault]
  | cons v before ih =>
    obtain ⟨x, number⟩ := Option.ne_none_iff_exists'.1 (h v List.mem_cons_self)
    rw [List.cons_append, numbers, number, ih fun u hu => h u (List.mem_cons_of_mem _ hu)]
    rfl

/-- Either all words are numbers, or there is a first one that is none. -/
theorem numbers_or_fault (ws : List (List Char)) :
    (∃ xs : List Binary64, ws.map Binary64.read? = xs.map some) ∨
      ∃ before w behind, ws = before ++ w :: behind ∧ (∀ v ∈ before, Binary64.read? v ≠ none) ∧
        Binary64.read? w = none := by
  induction ws with
  | nil => exact .inl ⟨[], rfl⟩
  | cons w ws ih =>
    cases number : Binary64.read? w with
    | none => exact .inr ⟨[], w, ws, rfl, by simp, number⟩
    | some x =>
      rcases ih with ⟨xs, all⟩ | ⟨before, v, behind, rfl, numbers, fault⟩
      · exact .inl ⟨x :: xs, by rw [List.map_cons, List.map_cons, number, all]⟩
      · refine .inr ⟨w :: before, v, behind, rfl, ?_, fault⟩
        simpa [number] using numbers

/-! ### Models -/

theorem parse_eq_ok {text : String} {weights : List Binary64} {bias : Binary64}
    (layout : Layout ws text.toList) (length_eq : weights.length = 12)
    (h : ws.map Binary64.read? = (weights ++ [bias]).map some) : parse text = .ok ⟨weights, bias⟩ := by
  have count : (weights ++ [bias]).length = columns + 1 := by simp [length_eq, columns]
  rw [parse, layout.words_eq, numbers_eq_ok h]
  show ofNumbers (weights ++ [bias]) = _
  rw [ofNumbers, if_pos count]
  simp [columns, ← length_eq]

theorem parse_eq_wrongCount {text : String} {xs : List Binary64} (layout : Layout ws text.toList)
    (h : ws.map Binary64.read? = xs.map some) (other : xs.length ≠ 13) :
    parse text = .error (.wrongCount 13 xs.length) := by
  rw [parse, layout.words_eq, numbers_eq_ok h]
  exact if_neg other

theorem parse_eq_notANumber {text : String} (layout : Layout (before ++ w :: behind) text.toList)
    (h : ∀ v ∈ before, Binary64.read? v ≠ none) (fault : Binary64.read? w = none) :
    parse text = .error (.notANumber (String.ofList w)) := by
  rw [parse, layout.words_eq, numbers_eq_error h fault]
  rfl

/-- What some words come to is what any text comes to that is laid out from them. -/
theorem Reads.parse_eq {text : String} {r : Except String Model} (h : Reads ws r)
    (layout : Layout ws text.toList) : (parse text).mapError ModelFault.text = r := by
  cases h with
  | notANumber words_eq numbers fault =>
    subst words_eq
    rw [parse_eq_notANumber layout numbers fault]
    rfl
  | wrongCount numbers other =>
    rw [parse_eq_wrongCount layout numbers other]
    rfl
  | model length_eq numbers =>
    rw [parse_eq_ok layout length_eq numbers]
    rfl

theorem exists_reads (ws : List (List Char)) : ∃ r, Reads ws r := by
  rcases numbers_or_fault ws with ⟨xs, numbers⟩ | ⟨before, w, behind, words_eq, numbers, fault⟩
  · by_cases count : xs.length = 13
    · have some_last : xs ≠ [] := by
        rintro rfl
        simp at count
      rw [← List.dropLast_concat_getLast some_last] at numbers
      exact ⟨_, .model (by simp [count]) numbers⟩
    · exact ⟨_, .wrongCount numbers count⟩
  · exact ⟨_, .notANumber words_eq numbers fault⟩

/-- What a text is read as, or the wording of its fault, is decided by the words that it is laid out
from: the first word that is no number is the fault; otherwise there must be thirteen numbers, which
are the weights, in order, and the bias. -/
theorem parse_iff_reads {ws : List (List Char)} {text : String} (layout : Layout ws text.toList)
    (r : Except String Model) : (parse text).mapError ModelFault.text = r ↔ Reads ws r := by
  refine ⟨fun parsed => ?_, fun reads => reads.parse_eq layout⟩
  obtain ⟨r', reads⟩ := exists_reads ws
  rwa [← parsed, reads.parse_eq layout]

/-- A text with comments at the front, against a word and without a line end. A carriage return and a
line separator stand within the first comment; an ideographic blank, a tab and a line of its own part
words. -/
def annotated : String :=
  "# -1\r-1\u2028-1 # -1\n1\t2\u30003#4\r\n4\r5\n\n6 7 8 9 1e1 +11.\x0b.25#\n-13# 14"

/-- The comments are left out, and the thirteen numbers are read in order. -/
theorem parse_iff_reads_annotated :
    Layout (["1", "2", "3", "4", "5", "6", "7", "8", "9", "1e1", "+11.", ".25", "-13"].map String.toList)
        annotated.toList ∧
      (parse annotated).mapError ModelFault.text =
        .ok ⟨[⟨0x3FF0000000000000⟩, ⟨0x4000000000000000⟩, ⟨0x4008000000000000⟩, ⟨0x4010000000000000⟩,
          ⟨0x4014000000000000⟩, ⟨0x4018000000000000⟩, ⟨0x401C000000000000⟩, ⟨0x4020000000000000⟩,
          ⟨0x4022000000000000⟩, ⟨0x4024000000000000⟩, ⟨0x4026000000000000⟩, ⟨0x3FD0000000000000⟩],
          ⟨0xC02A000000000000⟩⟩ := by
  have layout : Layout (["1", "2", "3", "4", "5", "6", "7", "8", "9", "1e1", "+11.", ".25", "-13"].map
      String.toList) annotated.toList := layout_iff.2 (by decide +kernel)
  exact ⟨layout, (parse_iff_reads layout _).2 (.model rfl (by decide +kernel))⟩

end Model

end ClauseStore
