import ClauseStore.Arena.Header
import ClauseStore.Phase
import ClauseStore.Predictor

/-!
Configuration. A setting is a value with its bounds, its name, and the last phase in which it may be
changed; a checked change outside the bounds is refused. `Config.knobs` lists the settings by name,
each with the way to read it off a configuration and to write it back.
-/

namespace ClauseStore

/-- A value with its bounds. -/
structure Setting (α : Type) where
  name : String
  least : α
  greatest : α
  value : α
  lastPhase : Phase := .configuration

/-- Changes the value of a setting, and tells whether the new value is within the bounds. -/
def Setting.set {α : Type} [LE α] [DecidableLE α] (s : Setting α) (value : α) : Bool × Setting α :=
  if s.least ≤ value ∧ value ≤ s.greatest then (true, { s with value }) else (false, s)

/-- Which redundant clauses are kept or granted grace, by their glue. -/
structure Retention where
  /-- redundant clauses with at most this glue are kept when they are stored -/
  tier1 : Setting UInt32 := ⟨"tier1", 0, 4194303, 2, .configuration⟩
  /-- used redundant clauses with at most this glue are granted grace -/
  tier2 : Setting UInt32 := ⟨"tier2", 0, 4194303, 6, .configuration⟩

/-- When and how much is reduced by rank. -/
structure Reducing where
  enabled : Setting Bool := ⟨"reduce", false, true, true, .configuration⟩
  /-- the percentage of the candidates that a reduction by rank removes -/
  fraction : Setting UInt32 := ⟨"reducefraction", 10, 100, 75, .configuration⟩
  /-- the conflicts before the first reduction -/
  initial : Setting UInt64 := ⟨"reduceinit", 0, 100000, 1000, .configuration⟩
  /-- the conflicts between reductions, scaled by the root of the count of reductions -/
  interval : Setting UInt64 := ⟨"reduceint", 10, 100000, 1000, .configuration⟩
  /-- whether the whole arena is compacted when many variables are inactive -/
  compact : Setting Bool := ⟨"compact", false, true, true, .configuration⟩
  /-- the percentage of inactive variables above which the whole arena is compacted -/
  compactLimit : Setting UInt32 := ⟨"compactlim", 0, 100, 10, .configuration⟩

/-- Statistics, and reduction by the scores of a predictor. -/
structure Predicting where
  /-- reduce by scores; then no redundant clause is kept when it is stored -/
  byScore : Setting Bool := ⟨"usemldata", false, true, false, .configuration⟩
  /-- collect and export features while reducing by rank -/
  generating : Setting Bool := ⟨"genmldata", false, true, false, .configuration⟩
  /-- the count of redundant clauses that a reduction by scores retains -/
  retain : Setting UInt64 := ⟨"mlsize", 0, 18446744073709551615, 10000, .configuration⟩
  /-- the conflicts between reductions by scores -/
  interval : Setting UInt64 := ⟨"mlreduceint", 1, 18446744073709551615, 10000, .configuration⟩
  /-- the conflicts for which a clause is observed before scores may remove it -/
  leastAge : Setting UInt64 := ⟨"mlminage", 0, 18446744073709551615, 5000, .configuration⟩
  /-- the scoring context -/
  context : Setting UInt64 := ⟨"mlcontext", 0, 2, 0, .configuration⟩

/-- The configuration of a context. -/
structure Config where
  retention : Retention := {}
  reducing : Reducing := {}
  predicting : Predicting := {}
  verbose : Setting Bool := ⟨"verbose", false, true, false, .configuration⟩

/-- Whether statistics of redundant clauses are collected. -/
def Config.collecting (c : Config) : Bool :=
  c.predicting.byScore.value || c.predicting.generating.value

/-- The way to a setting within a configuration. -/
structure Knob (α : Type) where
  read : Config → Setting α
  write : Setting α → Config → Config

/-- The way to a setting of one of the three kinds of value. -/
inductive AnyKnob where
  | flag (knob : Knob Bool)
  | word (knob : Knob UInt32)
  | count (knob : Knob UInt64)

/-- Every setting, in the order in which they are listed. -/
def Config.knobs : List AnyKnob :=
  [.word ⟨fun c => c.retention.tier1, fun s c => { c with retention.tier1 := s }⟩,
    .word ⟨fun c => c.retention.tier2, fun s c => { c with retention.tier2 := s }⟩,
    .flag ⟨fun c => c.reducing.enabled, fun s c => { c with reducing.enabled := s }⟩,
    .word ⟨fun c => c.reducing.fraction, fun s c => { c with reducing.fraction := s }⟩,
    .count ⟨fun c => c.reducing.initial, fun s c => { c with reducing.initial := s }⟩,
    .count ⟨fun c => c.reducing.interval, fun s c => { c with reducing.interval := s }⟩,
    .flag ⟨fun c => c.reducing.compact, fun s c => { c with reducing.compact := s }⟩,
    .word ⟨fun c => c.reducing.compactLimit, fun s c => { c with reducing.compactLimit := s }⟩,
    .flag ⟨fun c => c.predicting.byScore, fun s c => { c with predicting.byScore := s }⟩,
    .flag ⟨fun c => c.predicting.generating, fun s c => { c with predicting.generating := s }⟩,
    .count ⟨fun c => c.predicting.retain, fun s c => { c with predicting.retain := s }⟩,
    .count ⟨fun c => c.predicting.interval, fun s c => { c with predicting.interval := s }⟩,
    .count ⟨fun c => c.predicting.leastAge, fun s c => { c with predicting.leastAge := s }⟩,
    .count ⟨fun c => c.predicting.context, fun s c => { c with predicting.context := s }⟩,
    .flag ⟨fun c => c.verbose, fun s c => { c with verbose := s }⟩]

/-- The name of the setting that a knob leads to. -/
def AnyKnob.name : AnyKnob → Config → String
  | .flag k, c => (k.read c).name
  | .word k, c => (k.read c).name
  | .count k, c => (k.read c).name

/-- The knob of the setting with a name. -/
def Config.knob? (c : Config) (name : String) : Option AnyKnob :=
  Config.knobs.find? fun k => k.name c == name

end ClauseStore
