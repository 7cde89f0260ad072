import ClauseStore.Binary64.Printer
import ClauseStore.Reference

/-!
Usage statistics of one redundant clause over its life: sums and discounted averages of its use,
rates, ranks among all rows, and the last two scores of a predictor. A row is revised once a
reduction by the use of the clause since the one before; the row with the clause's glue and the
present count of conflicts gives the twelve features that a predictor scores.
-/

namespace ClauseStore

/-- The difference of two counts, or zero where it would be negative. -/
def elapsed (now before : UInt64) : UInt64 := if before ≤ now then now - before else 0

/-- The share of the past in the fast average, and of the present in the slow one: `0.7`. -/
def discountRate : Binary64 := ⟨0x3FE6666666666666⟩

/-- A fast and a slow discounted average. -/
structure Averages where
  fast : Binary64 := .zero
  slow : Binary64 := .zero
  deriving DecidableEq

/-- The two averages after a period: the old ones weighted by the share `past` of the life, the new
value by the share `now`. -/
def Averages.fold (a : Averages) (value past now : Binary64) : Averages where
  fast := a.fast * discountRate * past + value * (.one - discountRate) * now
  slow := a.slow * (.one - discountRate) * past + value * discountRate * now

/-- The ranks of a row, each a fraction below one with zero the best. -/
structure Ranks where
  /-- by the fast average of propagations -/
  prop : Binary64 := .zero
  /-- by the fast average of uses as a first reason -/
  uip : Binary64 := .zero
  /-- by the sum of propagations -/
  props : Binary64 := .zero
  /-- by the sum of uses as a first reason -/
  uips : Binary64 := .zero
  deriving DecidableEq

/-- The statistics of one clause. -/
structure Row where
  identity : UInt32
  clause : Reference
  /-- the clause is garbage or no longer redundant -/
  garbage : Bool := false
  /-- the present scan met the clause -/
  seen : Bool := false
  /-- the count of conflicts when the row was made -/
  born : UInt64
  averageProps : Averages := {}
  averageUips : Averages := {}
  sumProps : UInt64 := 0
  sumUips : UInt64 := 0
  propsPerConflict : Binary64 := .zero
  uipsPerConflict : Binary64 := .zero
  propsPerTime : Binary64 := .zero
  uipsPerTime : Binary64 := .zero
  /-- the count of conflicts at the last use of the clause -/
  touched : UInt64
  ranks : Ranks := {}
  /-- the last score of a predictor -/
  latest : Binary64 := .zero
  /-- the score before the last one -/
  previous : Binary64 := .zero
  deriving DecidableEq

/-- The use of a clause since the last reduction. -/
structure Usage where
  props : UInt32
  uips : UInt32
  touched : UInt64
  deriving DecidableEq

namespace Row

/-- The row of a clause that a scan meets for the first time. -/
def fresh (identity : UInt32) (clause : Reference) (conflicts : UInt64) : Row :=
  { identity, clause, born := conflicts, touched := conflicts }

/-- Adds a use to the sums, and marks the row as seen. -/
def noteUse (row : Row) (use : Usage) : Row :=
  { row with
    sumProps := row.sumProps + use.props.toUInt64
    sumUips := row.sumUips + use.uips.toUInt64
    touched := use.touched
    seen := true }

/-- Clears averages and rates, which a row without a life cannot have. -/
def withoutRates (row : Row) : Row :=
  { row with
    averageProps := {}, averageUips := {}
    propsPerConflict := .zero, uipsPerConflict := .zero
    propsPerTime := .zero, uipsPerTime := .zero }

/-- Computes averages and rates after a use, for a life of `lifetime` conflicts of which the last
`period` belong to the use. -/
def withRates (row : Row) (use : Usage) (lifetime period : UInt64) : Row :=
  let life := Binary64.ofCount lifetime
  let past := Binary64.ofCount (lifetime - period) / life
  let now := Binary64.ofCount period / life
  let props := Binary64.ofCount use.props.toUInt64
  let uips := Binary64.ofCount use.uips.toUInt64
  { row with
    averageProps := row.averageProps.fold props past now
    averageUips := row.averageUips.fold uips past now
    propsPerConflict := if period = 0 then .zero else props / .ofCount period
    uipsPerConflict := if period = 0 then .zero else uips / .ofCount period
    propsPerTime := Binary64.ofCount row.sumProps / life
    uipsPerTime := Binary64.ofCount row.sumUips / life }

/-- Folds the use of the last period into a row. The period is the time since the last reduction,
or the whole life of the row if that is shorter. -/
def update (row : Row) (use : Usage) (conflicts lastReduction : UInt64) : Row :=
  let lifetime := elapsed conflicts row.born
  let row := row.noteUse use
  if lifetime = 0 then row.withoutRates
  else row.withRates use lifetime (min (elapsed conflicts lastReduction) lifetime)

/-- Takes in a new score; the last one becomes the one before. -/
def score (row : Row) (x : Binary64) : Row := { row with latest := x, previous := row.latest }

/-- The features of a row, for a clause with some glue, after some conflicts. -/
def features (row : Row) (glue : UInt32) (conflicts : UInt64) : List Binary64 :=
  [row.ranks.prop, row.ranks.uip, row.ranks.props, row.ranks.uips,
    .ofCount row.sumProps, .ofCount row.sumUips,
    row.averageProps.fast, row.averageProps.slow,
    row.averageUips.fast, row.averageUips.slow,
    .ofCount glue.toUInt64, .ofCount (elapsed conflicts row.touched)]

/-- The text of a row. -/
def text (row : Row) : String :=
  "#" ++ toString row.identity.toNat ++ " " ++ row.clause.text ++
    " born " ++ toString row.born.toNat ++
    " props " ++ Binary64.pairText row.averageProps.fast row.averageProps.slow ++
    "/" ++ toString row.sumProps.toNat ++
    " uips " ++ Binary64.pairText row.averageUips.fast row.averageUips.slow ++
    "/" ++ toString row.sumUips.toNat ++
    " ranks " ++ row.ranks.prop.fixedText 3 ++ " " ++ row.ranks.uip.fixedText 3 ++
    " " ++ row.ranks.props.fixedText 3 ++ " " ++ row.ranks.uips.fixedText 3 ++
    " prediction " ++ Binary64.pairText row.latest row.previous ++
    (if row.garbage then " garbage" else "")

end Row

end ClauseStore
