import ClauseStore.Transcript
import ClauseStore.Proofs.Outcome

/-!
What becomes of the steps of a proof when its sink may fail. A run is a list of calls, each of which
notes a step or flushes. An account of a run divides its log into rounds, one for each flush: a round is
the steps noted since the flush before it, first those that the flush has written, then those that it
has lost. The text in the sink is that of the steps written, round after round, and what has been noted
since the last flush is what is buffered. Further calls add rounds and leave the old ones as they are, so
a step has one chance to be written, and takes it in its order.
-/

namespace ClauseStore

/-- A step of a proof. -/
inductive ProofStep where
  | addition (clause : Clause)
  | deletion (clause : Clause)
  deriving DecidableEq

namespace ProofStep

/-- The line of a step. -/
def line : ProofStep → String
  | .addition c => additionStep c
  | .deletion c => deletionStep c

/-- The lines of some steps, one after the other. -/
def text (steps : List ProofStep) : String := String.join (steps.map line)

theorem text_nil : text [] = "" := rfl

theorem text_cons (step : ProofStep) (steps : List ProofStep) :
    text (step :: steps) = step.line ++ text steps := by
  simp [text]

theorem text_append (steps more : List ProofStep) : text (steps ++ more) = text steps ++ text more := by
  simp [text]

end ProofStep

open ProofStep (text)

/-- A sink holds a text: a write that succeeds appends to it, and nothing else changes it. -/
structure Sink.Holds {σ : Type} [Sink σ] (held : σ → String) : Prop where
  write_ok : ∀ {s s' : σ} {line : String},
    outcome (Sink.write line) s = (.ok (), s') → held s' = held s ++ line
  write_error : ∀ {s s' : σ} {line : String} {e : StreamFault},
    outcome (Sink.write line) s = (.error e, s') → held s' = held s
  flush : ∀ s : σ, held (outcome Sink.flush s).2 = held s

namespace Transcript

/-- A call of a transcript. -/
inductive Call where
  | note (step : ProofStep)
  | flush
  deriving DecidableEq

/-- A call with what came of it. -/
inductive Entry where
  | noted (step : ProofStep)
  | flushed (result : Except StreamFault Unit)
  deriving DecidableEq

/-- The step noted, if one is. -/
def Call.step? : Call → Option ProofStep
  | .note step => some step
  | .flush => none

/-- The steps that some calls note, in order. -/
def noted (calls : List Call) : List ProofStep := calls.filterMap Call.step?

/-- The step noted, if one was. -/
def Entry.step? : Entry → Option ProofStep
  | .noted step => some step
  | .flushed _ => none

variable {σ : Type}

/-- Notes a step. -/
def note (t : Transcript σ) : ProofStep → Transcript σ
  | .addition c => t.addition c
  | .deletion c => t.deletion c

@[simp] theorem buffer_note (t : Transcript σ) (step : ProofStep) :
    (t.note step).buffer = t.buffer ++ [step.line] := by
  cases step <;> rfl

@[simp] theorem sink_note (t : Transcript σ) (step : ProofStep) : (t.note step).sink = t.sink := by
  cases step <;> rfl

variable [Sink σ]

/-- Makes a call. -/
def call (t : Transcript σ) : Call → Entry × Transcript σ
  | .note step => (.noted step, t.note step)
  | .flush => (.flushed t.flush.1, t.flush.2)

/-- The transcript behind some calls. -/
def after (t : Transcript σ) (calls : List Call) : Transcript σ :=
  calls.foldl (fun t c => (t.call c).2) t

/-- What came of some calls. -/
def log (t : Transcript σ) : List Call → List Entry
  | [] => []
  | c :: calls => (t.call c).1 :: log (t.call c).2 calls

/-- A flush: the steps that it has written, those that it has lost, and its result. Steps are lost only
by a flush that fails. -/
structure Round where
  written : List ProofStep
  lost : List ProofStep
  result : Except StreamFault Unit
  complete : result = .ok () → lost = []

/-- What a round leaves in the log: the steps noted for it, and the flush. -/
def Round.entries (r : Round) : List Entry := (r.written ++ r.lost).map .noted ++ [.flushed r.result]

/-- The steps that some rounds have written, in order. -/
def written (rounds : List Round) : List ProofStep := rounds.flatMap Round.written

/-- An account of a transcript that has some entries in its log, and had an empty buffer and some text
in its sink at first. -/
structure Account (held : σ → String) (base : String) (entries : List Entry) (t : Transcript σ)
    (rounds : List Round) (waiting : List ProofStep) : Prop where
  entries_eq : entries = rounds.flatMap Round.entries ++ waiting.map .noted
  held_eq : held t.sink = base ++ text (written rounds)
  buffer_eq : t.buffer = waiting.map ProofStep.line

variable {held : σ → String} {base : String} {entries : List Entry} {t : Transcript σ}
  {rounds : List Round} {waiting : List ProofStep}

/-! ### What a flush does -/

theorem writeAll_cons (line : String) (lines : List String) (s : σ) :
    outcome (writeAll (line :: lines)) s =
      match outcome (Sink.write line) s with
      | (.ok _, s') => outcome (writeAll lines) s'
      | (.error e, s') => (.error e, s') := by
  rw [writeAll, outcome_bind]
  rcases outcome (Sink.write line) s with ⟨_ | _, _⟩ <;> rfl

/-- Steps are written up to the first that fails. -/
theorem exists_written (holds : Sink.Holds held) (steps : List ProofStep) (s : σ) :
    ∃ before behind, steps = before ++ behind ∧
      held (outcome (writeAll (steps.map ProofStep.line)) s).2 = held s ++ text before ∧
      ((outcome (writeAll (steps.map ProofStep.line)) s).1 = .ok () → behind = []) := by
  induction steps generalizing s with
  | nil =>
    refine ⟨[], [], rfl, ?_, fun _ => rfl⟩
    rw [ProofStep.text_nil, String.append_empty]
    rfl
  | cons step steps ih =>
    rw [List.map_cons, writeAll_cons]
    rcases wrote : outcome (Sink.write step.line) s with ⟨_ | _, s'⟩
    · -- nothing of this step is held, and none behind it is tried
      refine ⟨[], step :: steps, rfl, ?_, nofun⟩
      rw [ProofStep.text_nil, String.append_empty]
      exact holds.write_error wrote
    · obtain ⟨before, behind, rfl, held_eq, all⟩ := ih s'
      refine ⟨step :: before, behind, rfl, ?_, all⟩
      rw [ProofStep.text_cons, ← String.append_assoc, ← holds.write_ok wrote]
      exact held_eq

/-- A flush writes steps and then flushes the sink. -/
theorem outcome_flush (t : Transcript σ) : t.flush =
    match outcome (writeAll t.buffer) t.sink with
    | (.ok _, s) => ((outcome Sink.flush s).1, ⟨(outcome Sink.flush s).2, []⟩)
    | (.error e, s) => (.error e, ⟨s, []⟩) := by
  show ((outcome (writeAll t.buffer >>= fun _ => Sink.flush) t.sink).1,
    (⟨(outcome (writeAll t.buffer >>= fun _ => Sink.flush) t.sink).2, []⟩ : Transcript σ)) = _
  rw [outcome_bind]
  rcases outcome (writeAll t.buffer) t.sink with ⟨_ | _, s⟩ <;> rfl

/-- A flush is a round of the steps that waited for it, also where the flush of the sink fails. -/
theorem exists_round (holds : Sink.Holds held) (buffer_eq : t.buffer = waiting.map ProofStep.line) :
    ∃ r : Round, r.written ++ r.lost = waiting ∧ r.result = t.flush.1 ∧
      held t.flush.2.sink = held t.sink ++ text r.written := by
  obtain ⟨before, behind, waiting_eq, held_eq, all⟩ := exists_written holds waiting t.sink
  rw [outcome_flush, buffer_eq]
  rcases wrote : outcome (writeAll (waiting.map ProofStep.line)) t.sink with ⟨_ | _, s⟩
  · rw [wrote] at held_eq
    exact ⟨⟨before, behind, .error _, nofun⟩, waiting_eq.symm, rfl, held_eq⟩
  · rw [wrote] at held_eq all
    refine ⟨⟨before, behind, _, fun _ => all rfl⟩, waiting_eq.symm, rfl, ?_⟩
    rw [← held_eq]
    exact holds.flush s

/-! ### What calls come to -/

theorem written_append (rounds later : List Round) :
    written (rounds ++ later) = written rounds ++ written later :=
  List.flatMap_append

/-- A call goes on with an account. -/
theorem Account.call (holds : Sink.Holds held) (account : Account held base entries t rounds waiting)
    (c : Call) : ∃ later waiting',
      Account held base (entries ++ [(t.call c).1]) (t.call c).2 (rounds ++ later) waiting' := by
  obtain ⟨entries_eq, held_eq, buffer_eq⟩ := account
  cases c with
  | note step =>
    refine ⟨[], waiting ++ [step], ?_⟩
    rw [List.append_nil]
    exact ⟨by simp [entries_eq, Transcript.call], by simpa [Transcript.call] using held_eq,
      by simp [buffer_eq, Transcript.call]⟩
  | flush =>
    obtain ⟨r, waiting_eq, result_eq, held_eq'⟩ := exists_round holds buffer_eq
    refine ⟨[r], [], ?_, ?_, rfl⟩
    · simp [entries_eq, Round.entries, waiting_eq, result_eq, Transcript.call]
    · rw [written_append, ProofStep.text_append, ← String.append_assoc, ← held_eq]
      simpa [written, Transcript.call] using held_eq'

/-- Calls go on with an account. -/
theorem Account.run (holds : Sink.Holds held) (account : Account held base entries t rounds waiting)
    (calls : List Call) : ∃ later waiting',
      Account held base (entries ++ t.log calls) (t.after calls) (rounds ++ later) waiting' := by
  -- from the front, so that a call meets whatever is accounted for before it
  induction calls generalizing entries t rounds waiting with
  | nil => exact ⟨[], waiting, by simpa [log, after] using account⟩
  | cons c calls ih =>
    obtain ⟨later, waiting', account'⟩ := account.call holds c
    obtain ⟨later', waiting'', account''⟩ := ih account'
    refine ⟨later ++ later', waiting'', ?_⟩
    rw [← List.append_assoc, log, List.append_cons]
    exact account''

theorem after_append (t : Transcript σ) (calls more : List Call) :
    t.after (calls ++ more) = (t.after calls).after more :=
  List.foldl_append

theorem log_append (t : Transcript σ) (calls more : List Call) :
    t.log (calls ++ more) = t.log calls ++ (t.after calls).log more := by
  induction calls generalizing t with
  | nil => rfl
  | cons c calls ih =>
    rw [List.cons_append, log, ih]
    rfl

/-- The log has the steps that were noted. -/
theorem filterMap_log (t : Transcript σ) (calls : List Call) :
    (t.log calls).filterMap Entry.step? = noted calls := by
  induction calls generalizing t with
  | nil => rfl
  | cons c calls ih =>
    rw [log, List.filterMap_cons, ih]
    cases c <;> rfl

theorem filterMap_entries (r : Round) : r.entries.filterMap Entry.step? = r.written ++ r.lost := by
  rw [Round.entries, List.filterMap_append, List.filterMap_map]
  show (r.written ++ r.lost).filterMap some ++ [] = _
  rw [List.filterMap_some, List.append_nil]

/-- What was noted has been written or lost, in some round, or waits. -/
theorem Account.noted_eq {calls : List Call} {t' : Transcript σ}
    (account : Account held base (t.log calls) t' rounds waiting) :
    noted calls = rounds.flatMap (fun r => r.written ++ r.lost) ++ waiting := by
  rw [← filterMap_log t, account.entries_eq, List.filterMap_append, List.filterMap_flatMap,
    List.filterMap_map]
  simp only [filterMap_entries]
  exact congrArg _ List.filterMap_some

theorem written_sublist (rounds : List Round) :
    (written rounds).Sublist (rounds.flatMap fun r => r.written ++ r.lost) := by
  induction rounds with
  | nil => exact List.Sublist.refl []
  | cons r rounds ih => exact (List.sublist_append_left r.written r.lost).append ih

/-- What can be relied on behind some calls, on the account of rounds and of steps that wait. -/
structure Accounted (held : σ → String) (t : Transcript σ) (calls : List Call) (rounds : List Round)
    (waiting : List ProofStep) : Prop where
  account : Account held (held t.sink) (t.log calls) (t.after calls) rounds waiting
  noted_eq : noted calls = rounds.flatMap (fun r => r.written ++ r.lost) ++ waiting
  /-- at any time, also when a flush has come to its `n`-th step, the sink holds steps in their order,
  none of them twice -/
  in_order : ∀ n, ∃ steps : List ProofStep, steps.Sublist (noted calls) ∧
    held (outcome (writeAll ((t.after calls).buffer.take n)) (t.after calls).sink).2 =
      held t.sink ++ text steps
  /-- no call changes what has become of the steps of a round -/
  settled : ∀ more, ∃ later waiting', Account held (held t.sink) (t.log (calls ++ more))
    (t.after (calls ++ more)) (rounds ++ later) waiting'
  emptied : (t.after calls).flush.2.buffer = []
  /-- a flush that succeeds has written all that waited -/
  flush_ok : ∀ t', (t.after calls).flush = (.ok (), t') →
    held t'.sink = held t.sink ++ text (written rounds ++ waiting)
  /-- a transcript is closed by a flush, and gives its sink away if that succeeds -/
  close_ok : ∀ s, (t.after calls).close = .ok s →
    (t.after calls).flush = (.ok (), t.after (calls ++ [.flush])) ∧ s = (t.after (calls ++ [.flush])).sink
  close_error : ∀ e, (t.after calls).close = .error e →
    (t.after calls).flush = (.error e, t.after (calls ++ [.flush]))

/-- Where all that waits is written, the sink holds it behind what it held before. -/
theorem Account.flush_ok (holds : Sink.Holds held)
    (account : Account held base entries t rounds waiting) {t' : Transcript σ}
    (flushed : t.flush = (.ok (), t')) : held t'.sink = base ++ text (written rounds ++ waiting) := by
  obtain ⟨r, waiting_eq, result_eq, held_eq⟩ := exists_round holds account.buffer_eq
  rw [flushed] at result_eq held_eq
  rw [r.complete result_eq, List.append_nil] at waiting_eq
  rw [held_eq, account.held_eq, waiting_eq, ProofStep.text_append, String.append_assoc]

/-- Steps in order are held at rest, and also when some of what waits has been tried. -/
theorem Account.in_order (holds : Sink.Holds held) {calls : List Call} {t' : Transcript σ}
    (account : Account held base (t.log calls) t' rounds waiting) (n : Nat) :
    ∃ steps : List ProofStep, steps.Sublist (noted calls) ∧
      held (outcome (writeAll (t'.buffer.take n)) t'.sink).2 = base ++ text steps := by
  obtain ⟨before, behind, taken, held_eq, -⟩ := exists_written holds (waiting.take n) t'.sink
  refine ⟨written rounds ++ before, ?_, ?_⟩
  · have front : before.Sublist waiting := by
      refine List.Sublist.trans ?_ (List.take_sublist n waiting)
      rw [taken]
      exact List.sublist_append_left before behind
    rw [account.noted_eq]
    exact (written_sublist rounds).append front
  · rw [account.buffer_eq, ← List.map_take, held_eq, account.held_eq, ProofStep.text_append,
      String.append_assoc]

theorem flush_after (t : Transcript σ) (calls : List Call) :
    (t.after calls).flush = ((t.after calls).flush.1, t.after (calls ++ [.flush])) := by
  rw [after_append]
  rfl

theorem close_eq_ok {s : σ} : t.close = .ok s ↔ t.flush.1 = .ok () ∧ t.flush.2.sink = s := by
  rw [close]
  cases t.flush.1 <;> simp [Except.map]

theorem close_eq_error {e : StreamFault} : t.close = .error e ↔ t.flush.1 = .error e := by
  rw [close]
  cases t.flush.1 <;> simp [Except.map]

/-- Whatever a sink that holds what is written to it refuses, and when, the steps are accounted for: each
is written by the first flush after it was noted, or lost by it. -/
theorem exists_accounted (holds : Sink.Holds held) (fresh : t.buffer = []) (calls : List Call) :
    ∃ rounds waiting, Accounted held t calls rounds waiting := by
  have first : Account held (held t.sink) [] t [] [] := ⟨rfl, (String.append_empty).symm, fresh⟩
  obtain ⟨rounds, waiting, account⟩ := first.run holds calls
  rw [List.nil_append, List.nil_append] at account
  refine ⟨rounds, waiting, ?_⟩
  constructor
  case account => exact account
  case noted_eq => exact account.noted_eq
  case in_order => exact account.in_order holds
  case settled =>
    intro more
    rw [log_append, after_append]
    exact account.run holds more
  case emptied => rfl
  case flush_ok => exact fun _ => account.flush_ok holds
  case close_ok =>
    intro s closed
    obtain ⟨ok, rfl⟩ := close_eq_ok.1 closed
    have flushed := flush_after t calls
    rw [ok] at flushed
    exact ⟨flushed, by rw [flushed]⟩
  case close_error =>
    intro e closed
    rw [flush_after, close_eq_error.1 closed]

/-- A sink that keeps what it takes. At each write and each flush it may meet a fault, as given. -/
structure Faltering where
  text : String
  faults : List (Option StreamFault)

/-- Goes on to the next fault, and does something if there is none. -/
def Faltering.attempt (act : Faltering → Faltering) : ExceptT StreamFault (StateM Faltering) Unit :=
  fun s =>
    match s.faults with
    | [] => (.ok (), act s)
    | none :: faults => (.ok (), act { s with faults })
    | some e :: faults => (.error e, { s with faults })

instance : Sink Faltering where
  write line := Faltering.attempt fun s => { s with text := s.text ++ line }
  flush := Faltering.attempt id

theorem Faltering.outcome_attempt (act : Faltering → Faltering) (s : Faltering) :
    (∃ faults, outcome (attempt act) s = (.ok (), act { s with faults })) ∨
      ∃ e faults, outcome (attempt act) s = (.error e, { s with faults }) := by
  rcases s with ⟨text, _ | ⟨_ | e, faults⟩⟩
  · exact .inl ⟨[], rfl⟩
  · exact .inl ⟨faults, rfl⟩
  · exact .inr ⟨e, faults, rfl⟩

theorem holds_faltering : Sink.Holds Faltering.text where
  write_ok {s s' line} wrote := by
    rcases Faltering.outcome_attempt (fun s => { s with text := s.text ++ line }) s with
      ⟨_, ok⟩ | ⟨_, _, error⟩
    · cases ok.symm.trans wrote
      rfl
    · cases error.symm.trans wrote
  write_error {s s' line _} refused := by
    rcases Faltering.outcome_attempt (fun s => { s with text := s.text ++ line }) s with
      ⟨_, ok⟩ | ⟨_, _, error⟩
    · cases ok.symm.trans refused
    · cases error.symm.trans refused
      rfl
  flush s := by
    rcases Faltering.outcome_attempt id s with ⟨_, ok⟩ | ⟨_, _, error⟩
    · exact congrArg (fun r => r.2.text) ok
    · exact congrArg (fun r => r.2.text) error

/-- Two flushes fail, one at the second of its three steps, and one behind its only step; the third
succeeds, and a step is left. The unit clause of the first atom is added twice, and deleted. -/
def falteringCalls : List Call :=
  let unit : Clause := [⟨1⟩]
  let pair : Clause := [⟨-2⟩, ⟨1⟩]
  [.note (.addition unit), .note (.addition pair), .note (.addition unit), .flush, .note (.deletion unit),
    .flush, .note (.addition pair), .note (.addition unit), .flush, .note (.deletion pair)]

/-- Where writes and flushes fail. -/
def faltering : Faltering :=
  ⟨"c proof\n", [none, some .storageFull, none, some .brokenPipe, none, none, none]⟩

theorem exists_accounted_faltering : Sink.Holds Faltering.text ∧
    (∃ rounds waiting, Accounted Faltering.text ⟨faltering, []⟩ falteringCalls rounds waiting) ∧
    (after ⟨faltering, []⟩ falteringCalls).sink.text = "c proof\n1 0\nd 1 0\n-2 1 0\n1 0\n" ∧
    (after ⟨faltering, []⟩ falteringCalls).buffer = ["d -2 1 0\n"] :=
  ⟨holds_faltering, exists_accounted holds_faltering rfl falteringCalls, by decide +kernel,
    by decide +kernel⟩

end Transcript

end ClauseStore
