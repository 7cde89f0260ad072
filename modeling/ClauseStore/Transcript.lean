import ClauseStore.Clause
import ClauseStore.Error

/-!
Proof transcripts: the additions and deletions of clauses as lines of text. An addition is its
literals, each followed by a blank, and a closing zero; a deletion the same behind the letter d. Steps
wait in a buffer until they are flushed to a sink. A flush empties the buffer: a step that cannot be
written, and those behind it, are lost.
-/

namespace ClauseStore

/-- What a type of sink states offers; a sink keeps its state also where a write or a flush fails. -/
class Sink (σ : Type) where
  /-- appends a text, all or nothing -/
  write : String → ExceptT StreamFault (StateM σ) Unit
  /-- makes sure of what was written -/
  flush : ExceptT StreamFault (StateM σ) Unit

/-- A sink and the steps not yet written to it. -/
structure Transcript (σ : Type) where
  sink : σ
  buffer : List String := []

/-- The literals of a step, closed by a zero. -/
def stepBody (c : Clause) : String := String.join (c.map fun l => l.text ++ " ") ++ "0\n"

/-- The line of an addition. -/
def additionStep (c : Clause) : String := stepBody c

/-- The line of a deletion. -/
def deletionStep (c : Clause) : String := "d " ++ stepBody c

namespace Transcript

variable {σ : Type}

/-- Notes the addition of a clause. -/
def addition (t : Transcript σ) (c : Clause) : Transcript σ :=
  { t with buffer := t.buffer ++ [additionStep c] }

/-- Notes the deletion of a clause. -/
def deletion (t : Transcript σ) (c : Clause) : Transcript σ :=
  { t with buffer := t.buffer ++ [deletionStep c] }

/-- Writes steps to a sink, up to the first that fails. -/
def writeAll [Sink σ] : List String → ExceptT StreamFault (StateM σ) Unit
  | [] => pure ()
  | step :: steps => do
    Sink.write step
    writeAll steps

/-- Writes the buffered steps and flushes the sink; the buffer is empty afterwards in any case. -/
def flush [Sink σ] (t : Transcript σ) : Except StreamFault Unit × Transcript σ :=
  let work : ExceptT StreamFault (StateM σ) Unit := do
    writeAll t.buffer
    Sink.flush
  let done := work.run t.sink
  (done.1, { sink := done.2, buffer := [] })

/-- The sink, after a flush that succeeds. -/
def close [Sink σ] (t : Transcript σ) : Except StreamFault σ :=
  t.flush.1.map fun _ => t.flush.2.sink

end Transcript

end ClauseStore
