import ClauseStore.Event
import ClauseStore.Transcript

/-!
Listeners to events. Additions and deletions go nowhere, into a journal, or into a proof transcript
that is flushed after each step; original clauses and features go nowhere or into the journal.
-/

namespace ClauseStore

/-- Where an event goes. -/
inductive Hearing where
  | nowhere
  | journal
  | transcript
  deriving DecidableEq

/-- The listeners of a context. -/
structure Listeners (σ : Type) where
  originals : Bool := false
  additions : Hearing := .nowhere
  deletions : Hearing := .nowhere
  features : Bool := false
  journal : List Event := []
  transcript : Transcript σ

namespace Listeners

variable {σ : Type}

/-- Where an event goes. -/
def hearing (l : Listeners σ) : Event → Hearing
  | .original .. => if l.originals then .journal else .nowhere
  | .addition .. => l.additions
  | .deletion .. => l.deletions
  | .features .. => if l.features then .journal else .nowhere

/-- The transcript with the step of an event; originals and features are no steps. -/
def transcribe (t : Transcript σ) : Event → Transcript σ
  | .addition _ c _ => t.addition c
  | .deletion _ c => t.deletion c
  | _ => t

/-- Hears one event. -/
def hear [Sink σ] (l : Listeners σ) (e : Event) : Listeners σ :=
  match l.hearing e with
  | .nowhere => l
  | .journal => { l with journal := l.journal ++ [e] }
  | .transcript => { l with transcript := (transcribe l.transcript e).flush.2 }

/-- Hears events in order. -/
def hearAll [Sink σ] (l : Listeners σ) (es : List Event) : Listeners σ := es.foldl hear l

/-- Sends additions and deletions into the transcript. -/
def toTranscript (l : Listeners σ) : Listeners σ :=
  { l with additions := .transcript, deletions := .transcript }

end Listeners

end ClauseStore
