import ClauseStore.Proofs.Exactness
import ClauseStore.Proofs.Fields

/-!
The arena refines a list of clauses. A ledger lists the long clauses that were stored and that no
compaction has reclaimed, and is kept along a run from the calls, their answers and the deletions that
were told alone. Behind every lawful run the arena, walked from record to record, holds what the ledger
lists, and the span of each record is what its clause had room for when it was stored or last moved.
-/

namespace ClauseStore

open Cell Database

/-- A long clause in a ledger. -/
structure Entry where
  identity : UInt32
  literals : Clause
  /-- its size when it was stored, or when a compaction last came past it -/
  room : Nat
  glue : Nat
  redundant : Bool
  garbage : Bool
  deriving DecidableEq

/-- The long clauses that were stored and not reclaimed, in order. -/
abbrev Ledger := List Entry

namespace Entry

/-- The words of the record of a clause. -/
def words (e : Entry) : Nat := (wordsOfClause (UInt64.ofNat e.room)).toNat

/-- A clause as it is stored. -/
def stored (identity : UInt32) (source : Source) (glue : UInt32) (clause : Clause) : Entry where
  identity := identity
  literals := clause.filed source
  room := (clause.filed source).length
  glue := if source = .redundant then min glue.toNat maxGlue else 0
  redundant := source == .redundant
  garbage := false

/-- A clause cut to its first literals. -/
def cut (n : Nat) (e : Entry) : Entry := { e with literals := e.literals.take n }

/-- A clause that is garbage. -/
def buried (e : Entry) : Entry := { e with garbage := true }

/-- A clause made irredundant. -/
def raised (e : Entry) : Entry := { e with redundant := false }

/-- A clause that a compaction came past. -/
def settled (e : Entry) : Entry := { e with room := e.literals.length }

end Entry

namespace Ledger

/-- Revises the clause whose record starts at an offset, where the first record starts at another and
the records stand behind one another. -/
def revise (k : Nat) (f : Entry → Entry) : Nat → Ledger → Ledger
  | _, [] => []
  | o, e :: l => (if o = k then f e else e) :: revise k f (o + e.words) l

/-- Reclaims the garbage from an offset on. -/
def reclaim (k : Nat) : Nat → Ledger → Ledger
  | _, [] => []
  | o, e :: l =>
    if o < k then e :: reclaim k (o + e.words) l
    else if e.garbage then reclaim k (o + e.words) l
    else e.settled :: reclaim k (o + e.words) l

/-- Whether some events tell the deletion of a clause. -/
def tellsEnd (es : List Event) (identity : UInt32) : Bool :=
  es.any fun
    | .deletion i _ => i == identity
    | _ => false

/-- Buries the clauses whose deletion is told. -/
def bury (es : List Event) (l : Ledger) : Ledger :=
  l.map fun e => if tellsEnd es e.identity then e.buried else e

variable {π : Type}

/-- Keeps the ledger through one call, from its answer and what it told. The context is asked only
where a reduction starts. -/
def record (c : Context π) (op : Operation) (answer : Except Error Answer) (told : List Event)
    (l : Ledger) : Ledger :=
  match op, answer with
  | .create source glue clause, .ok (.placed (.long _ identity)) =>
    l ++ [Entry.stored identity source glue clause]
  | .shrink r size, .ok _ => l.revise r.offset (Entry.cut size.toNat) 0
  | .markGarbage r, .ok _ => l.revise r.offset Entry.buried 0
  | .makeIrredundant r, .ok _ => l.revise r.offset Entry.raised 0
  | .collect start, .ok _ => l.reclaim start.offset 0
  | .reduce search, .ok (.reported (.reduced _) _) =>
    (l.bury told).reclaim (c.scanStart (c.whole search)).offset 0
  | .reduce search, .ok (.reported .nothingToReduce _) =>
    if c.whole search then l.reclaim 0 0 else l
  | _, _ => l

/-- Keeps the ledger along a run. -/
def keep [Predictor π] (c : Context π) : List Operation → Ledger → Ledger
  | [], l => l
  | op :: ops, l => keep (op.after c) ops (record c op (op.answer c) (op.told c) l)

end Ledger

namespace Arena

/-- Going from record to record, from a reference up to the end of the arena. -/
inductive Trail (a : Arena) : Reference → List Reference → Prop where
  | stop : Trail a a.limit []
  | step {r next : Reference} {rs : List Reference} (moved : a.next r = .ok next)
    (rest : Trail a next rs) : Trail a r (r :: rs)

/-- The arena holds the clauses of a ledger. -/
structure Lists (a : Arena) (l : Ledger) : Prop where
  /-- a walk from record to record comes to the end of the arena -/
  trail : a.Trail .start ((a.walkFrom 0).1.map Reference.ofOffset)
  ends : (a.walkFrom 0).2 = true ∧ a.walkEnd 0 (a.walkFrom 0).1 = a.size
  /-- the records are the clauses of the ledger, in order -/
  records_eq : ((a.walkFrom 0).1.map fun o => ((a.header o).identity, a.literals o,
      (a.header o).glue.toNat, (a.header o).flags.redundant, (a.header o).flags.garbage, a.span o)) =
    l.map fun e => (e.identity, e.literals, e.glue, e.redundant, e.garbage, e.words)
  ascending : (l.map fun e => e.identity.toNat).Pairwise (· < ·)

end Arena

/-- What a ledger knows of a cell. -/
def Cell.entry (c : Cell) : Entry where
  identity := c.header.identity
  literals := c.literals
  room := c.room
  glue := c.header.glue.toNat
  redundant := c.header.flags.redundant
  garbage := c.header.flags.garbage

/-! ### The arena holds what its cells say -/

namespace Arena.Tiled

variable {a : Arena} {cs : List Cell}

/-- The walk goes from the start of a cell to the start of the next. -/
theorem trail (xs : List Cell) {ys : List Cell} (h : a.Tiled (xs ++ ys))
    (fits : a.size < Reference.invalid.offset) :
    a.Trail (.ofOffset (extents xs)) ((offsets (extents xs) ys).map Reference.ofOffset) := by
  induction ys generalizing xs with
  | nil =>
    have limit_eq : Reference.ofOffset (extents xs) = a.limit := by
      rw [limit, h.size_eq, List.append_nil]
    rw [limit_eq]
    exact .stop
  | cons c cs ih =>
    have rest := ih (xs ++ [c]) (by simpa using h)
    rw [extents_append, extents_cons, extents_nil, Nat.add_zero] at rest
    have hc : At 0 (xs ++ c :: cs) (extents xs) c := ⟨xs, cs, rfl, by simp⟩
    have bounds := hc.bounds.2
    have size_eq := h.size_eq
    have limit_eq : Reference.invalid.offset = 4294967295 := rfl
    have start_eq : (Reference.ofOffset (extents xs)).offset = extents xs := toNat_ofOffset (by omega)
    have resolved : a.resolve? (.ofOffset (extents xs)) = some (extents xs) := by
      rw [h.resolve?_eq fits (by rwa [start_eq]), start_eq]
    refine .step ?_ rest
    rw [next, resolve, resolved, ← h.span_eq hc]
    rfl

/-- The walk through a row ends where the arena ends. -/
theorem walkEnd_eq (h : a.Tiled cs) : a.walkEnd 0 (offsets 0 cs) = a.size := by
  rcases List.eq_nil_or_concat cs with rfl | ⟨xs, c, rfl⟩
  · rw [h.size_eq]
    rfl
  · rw [List.concat_eq_append] at h ⊢
    have hc : At 0 (xs ++ [c]) (extents xs) c := ⟨xs, [], rfl, by simp⟩
    rw [walkEnd, offsets_append, Nat.zero_add]
    simp only [offsets_cons, offsets_nil, List.getLast?_append, List.getLast?_singleton,
      Option.some_or]
    rw [h.span_eq hc, h.size_eq, extents_append, extents_cons, extents_nil, Nat.add_zero]

end Arena.Tiled

namespace Database.Holds

variable {db : Database} {cs : List Cell}

/-- The words of a clause are those of its cell. -/
theorem words_entry (h : db.Holds cs) : ∀ c ∈ cs, c.entry.words = c.extent := by
  intro c hc
  obtain ⟨k, hk⟩ := exists_at 0 hc
  have fits := h.fits'
  have bounds := hk.bounds.2
  have extent_eq := (h.sound c hc).extent_eq
  have room_lt : c.room < 4294967296 := by
    simp only [aligned, Header.wordCount] at extent_eq
    omega
  rw [extent_eq, ← Arena.toNat_wordsOfClause room_lt]
  rfl

/-- The arena of a database holds what a ledger knows of its cells. -/
theorem lists (h : db.Holds cs) : db.arena.Lists (cs.map entry) := by
  have tiled := h.tiled
  have size_eq := tiled.size_eq
  constructor
  case trail =>
    rw [tiled.walkFrom_zero]
    exact Arena.Tiled.trail [] tiled (by rw [size_eq]; exact h.fits)
  case ends =>
    rw [tiled.walkFrom_zero]
    exact ⟨rfl, tiled.walkEnd_eq⟩
  case records_eq =>
    rw [tiled.walkFrom_zero, List.map_map]
    refine map_offsets fun k c hc => ?_
    rw [tiled.header_eq hc, tiled.literals_eq hc, tiled.span_eq hc, ← h.words_entry c hc.mem]
    rfl
  case ascending =>
    rw [List.map_map]
    exact h.ascending

end Database.Holds

/-! ### The ledger follows the cells -/

namespace Cell

variable {c d : Cell} {cs ds xs ys : List Cell}

theorem room_eq_of_core (h : d.core = c.core) : d.room = c.room := by
  obtain ⟨hp, hl, hr⟩ := revised_eq_iff.1 h
  simp only [Header.core, Header.mk.injEq, Flags.mk.injEq] at hp
  have hf : d.header.flags.shrunken = c.header.flags.shrunken := by simp [hp]
  rw [room, room, hl, hf, hr]

theorem entry_eq_of_core (h : d.core = c.core) : d.entry = c.entry := by
  have room_eq := room_eq_of_core h
  obtain ⟨hp, hl, hr⟩ := revised_eq_iff.1 h
  simp only [Header.core, Header.mk.injEq, Flags.mk.injEq] at hp
  simp only [entry, room_eq, hl, hp]

theorem map_entry_of_core (h : ds.map core = cs.map core) : ds.map entry = cs.map entry :=
  map_eq_of_core entry_eq_of_core h

/-- Behind an offset nothing is revised there. -/
theorem revise_of_lt {k o : Nat} (f : Entry → Entry) {l : Ledger} (hk : k < o) :
    Ledger.revise k f o l = l := by
  induction l generalizing o with
  | nil => rfl
  | cons e l ih => rw [Ledger.revise, if_neg (by omega), ih (by omega)]

/-- A revision of one cell is one of the ledger. -/
theorem revise_map_entry {f : Entry → Entry} {o k : Nat}
    (words_eq : ∀ e ∈ xs ++ c :: ys, e.entry.words = e.extent) (place : k = o + extents xs)
    (hd : d.entry = f c.entry) :
    (xs ++ d :: ys).map entry = Ledger.revise k f o ((xs ++ c :: ys).map entry) := by
  induction xs generalizing o with
  | nil =>
    have extent_pos := c.extent_pos
    have here : o = k := place.symm
    have next : k < o + c.entry.words := by
      rw [words_eq c (by simp)]
      omega
    simp only [List.nil_append, List.map_cons, Ledger.revise]
    rw [revise_of_lt f next, hd, if_pos here]
  | cons e es ih =>
    have extent_pos := e.extent_pos
    rw [extents_cons] at place
    have rest := @ih (o + e.extent) (fun e' he' => words_eq e' (List.mem_cons_of_mem e he')) (by omega)
    simp only [List.cons_append, List.map_cons, Ledger.revise]
    rw [if_neg (by omega), words_eq e (by simp), rest]

/-- What settles of the cells behind an offset is what is left of the ledger there. -/
theorem map_entry_settle (fill : Nat → UInt32) (n : Nat) {o k : Nat} (reached : k ≤ o) :
    (settle fill n ys).map entry = Ledger.reclaim k o (ys.map entry) := by
  induction ys generalizing n o with
  | nil => rfl
  | cons c cs ih =>
    have rest := fun n => ih n (Nat.le_trans reached (Nat.le_add_right o c.entry.words))
    have garbage_eq : c.entry.garbage = c.isGarbage := rfl
    rw [settle, List.map_cons, Ledger.reclaim, if_neg (show ¬ o < k by omega), garbage_eq]
    split
    · exact rest _
    · rw [List.map_cons, rest]
      rfl

/-- What a compaction leaves of a row is what it leaves of the ledger. -/
theorem reclaim_map_entry (fill : Nat → UInt32) (n : Nat) {o k : Nat}
    (words_eq : ∀ e ∈ xs ++ ys, e.entry.words = e.extent) (place : k = o + extents xs) :
    (xs ++ settle fill n ys).map entry = Ledger.reclaim k o ((xs ++ ys).map entry) := by
  induction xs generalizing o with
  | nil => exact map_entry_settle fill n (Nat.le_of_eq place)
  | cons e es ih =>
    have extent_pos := e.extent_pos
    rw [extents_cons] at place
    have rest := @ih (o + e.extent) (fun e' he' => words_eq e' (List.mem_cons_of_mem e he')) (by omega)
    simp only [List.cons_append, List.map_cons, Ledger.reclaim]
    rw [if_pos (by omega), words_eq e (by simp), rest]

end Cell

namespace Database

variable {db : Database} {cs : List Cell} {ms : List Placed} {es : List Event}

theorem tellsEnd_append (es es' : List Event) (identity : UInt32) :
    Ledger.tellsEnd (es ++ es') identity =
      (Ledger.tellsEnd es identity || Ledger.tellsEnd es' identity) :=
  List.any_append

/-- Features tell no end. -/
theorem tellsEnd_features (features : ∀ e ∈ es, e.isFeatures = true) (identity : UInt32) :
    Ledger.tellsEnd es identity = false := by
  rw [Ledger.tellsEnd, List.any_eq_false]
  intro e he
  have := features e he
  cases e <;> simp_all [Event.isFeatures]

theorem tellsEnd_deletions (ms : List Placed) (identity : UInt32) :
    Ledger.tellsEnd (deletions ms) identity = true ↔ ∃ m ∈ ms, m.2.header.identity = identity := by
  simp only [Ledger.tellsEnd, deletions, List.any_map, List.any_eq_true, Function.comp_apply,
    beq_iff_eq]

/-- The cells that are marked are those whose end is told. -/
theorem Holds.map_entry_markAll (h : db.Holds cs) (placed : ∀ m ∈ ms, At 0 cs m.1 m.2)
    (features : ∀ e ∈ es, e.isFeatures = true) :
    (markAll ms cs).map entry = Ledger.bury (es ++ deletions ms) (cs.map entry) := by
  have told : ∀ k c, At 0 cs k c →
      (Ledger.tellsEnd (es ++ deletions ms) c.header.identity = true ↔ k ∈ ms.map Prod.fst) := by
    intro k c hc
    rw [tellsEnd_append, tellsEnd_features features, Bool.false_or, tellsEnd_deletions, List.mem_map]
    constructor
    · rintro ⟨m, hm, same⟩
      exact ⟨m, hm, (eq_of_identity h.ascending (placed m hm) hc (congrArg UInt32.toNat same)).1⟩
    · rintro ⟨m, hm, rfl⟩
      exact ⟨m, hm, by rw [(placed m hm).unique hc]⟩
  rw [markAll_eq, Ledger.bury, List.map_map]
  refine map_mapAt fun k c hc => ?_
  show _ = if Ledger.tellsEnd (es ++ deletions ms) c.header.identity = true then c.entry.buried else c.entry
  by_cases hk : k ∈ ms.map Prod.fst
  · rw [if_pos ((told k c hc).2 hk), revised, if_pos hk]
    rfl
  · rw [if_neg fun tells => hk ((told k c hc).1 tells), revised, if_neg hk]

end Database

namespace Eviction

variable {plan : ScanPlan} {fraction : UInt32} {xs ys cs : List Cell} {db db' : Database}

/-- An eviction that fails marks nothing. -/
theorem core_of_error {e : Error} (h : Eviction plan fraction xs ys db (.error e) db' cs) :
    cs.map core = (xs ++ ys).map core := by
  cases h with
  | failed pass => exact core_of_lasting (Settlement.lasting_pass pass)
  | unscored settled => exact core_of_lasting settled.lasting

/-- An eviction without a candidate marks nothing. -/
theorem core_of_none (h : Eviction plan fraction xs ys db (.ok none) db' cs) :
    cs.map core = (xs ++ ys).map core := by
  cases h with
  | idle pass => exact core_of_lasting (Settlement.lasting_pass pass)

/-- What an eviction marks is what it tells. -/
theorem map_entry_of_some {n : Nat} (h : Eviction plan fraction xs ys db (.ok (some n)) db' cs)
    (holds : db.Holds (xs ++ ys)) : cs.map entry =
      Ledger.bury (db'.events.toList.drop db.events.size) ((xs ++ ys).map entry) := by
  cases h with
  | @removed p cs t t' es ms n settled keys_eq told markable =>
    have behind := holds.behind settled.lasting settled.place t' es
    have told_eq : ((db.settledBehind cs t' p.first es).evicted ms cs n).events.toList.drop
        db.events.size = es ++ deletions ms := by
      have events_eq := (markedAll_frame ms cs (db.settledBehind cs t' p.first es)).2.2.2
      show ((db.settledBehind cs t' p.first es).markedAll ms cs).events.toList.drop _ = _
      rw [events_eq]
      simp [settledBehind, telling, placed]
    rw [told_eq, behind.map_entry_markAll markable.placed (told ▸ plan.isFeatures_exports _ _ _),
      map_entry_of_core (core_of_lasting settled.lasting)]

end Eviction

namespace Reduction

variable {π : Type} {c : Context π} {search : Snapshot} {cs ds : List Cell}
  {r : Except Error (Report × Snapshot)} {db : Database}

/-- A reduction does to the cells what it tells, and what the compaction does that it ends with. -/
theorem map_entry (h : Reduction c.readied search cs r db ds) (holds : c.database.Holds cs) :
    ds.map entry = Ledger.record c (.reduce search) (r.map fun result => .reported result.1 result.2)
      (db.events.toList.drop c.database.events.size) (cs.map entry) := by
  have flags : (c.database.laid (flagged true (c.readied.protects search) cs)).Holds _ :=
    holds.of_core (core_flagged ..)
  have flags_eq := map_entry_of_core (core_flagged true (c.readied.protects search) cs)
  cases h with
  | unstarted nowhere =>
    have part : c.whole search = false := by
      cases whole : c.whole search with
      | false => rfl
      | true =>
        have : (c.readied.scanStart (c.whole search)).isValid = false := nowhere
        rw [whole] at this
        cases this
    show _ = if c.whole search then _ else _
    rw [if_neg (by simp [part])]
  | unsatisfiable => rfl
  | barred => exact map_entry_of_core (core_flagged ..)
  | failed split start eviction =>
    rw [split] at flags_eq
    rw [map_entry_of_core (core_flagged ..), map_entry_of_core eviction.core_of_error, flags_eq]
    rfl
  | idle part split start eviction =>
    rw [split] at flags_eq
    have part : c.whole search = false := part
    rw [map_entry_of_core (core_flagged ..), map_entry_of_core eviction.core_of_none, flags_eq]
    show _ = if c.whole search then _ else _
    rw [if_neg (by simp [part])]
  | @compacted xs ys ds xs' ys' found db first last asked split start eviction resplit restart first_at =>
    rw [split] at flags_eq flags
    have clears_eq := map_entry_of_core (core_flagged false (c.readied.protects search) ds)
    have left : (db.laid (flagged false (c.readied.protects search) ds)).Holds _ :=
      (eviction.holds flags).of_core (core_flagged ..)
    rw [resplit] at clears_eq left
    rw [reclaim_map_entry _ _ left.words_entry (Nat.zero_add _).symm, clears_eq, restart, ← start]
    cases found with
    | some n =>
      rw [eviction.map_entry_of_some flags, flags_eq]
      rfl
    | none =>
      have whole : c.whole search = true := asked rfl
      have start_eq : c.readied.scanStart (c.readied.whole search) = .start := by
        show c.readied.scanStart (c.whole search) = _
        rw [whole]
        rfl
      rw [map_entry_of_core eviction.core_of_none, flags_eq, start_eq]
      show _ = if c.whole search then _ else _
      rw [if_pos whole]
      rfl

end Reduction

/-- A clause is stored in the arena as in the ledger. -/
theorem Cell.map_entry_stored {a b : Literal} {rest clause : Clause} {source : Source}
    (literals_eq : clause.filed source = a :: b :: rest) (identity : UInt32) (glue : UInt32) (keep : Bool)
    (conflicts : UInt64) (cs : List Cell) :
    (cs ++ [Cell.stored identity source glue keep conflicts (a :: b :: rest)]).map entry =
      cs.map entry ++ [Entry.stored identity source glue clause] := by
  have capped := Header.toNat_glue_cut
  rw [List.map_append, Entry.stored, literals_eq]
  congr 2
  cases source <;> simp [Cell.stored, fresh, freshHeader, Header.withGlue, entry, room, capped]

namespace Effect

variable {π : Type} {c c' : Context π} {cs ds : List Cell} {op : Operation} {r : Except Error Answer}

/-- Every effect on the cells is the one on the ledger. -/
theorem map_entry (h : Effect c cs op r c' ds) (holds : c.database.Holds cs) : ds.map entry =
    Ledger.record c op r (c'.database.events.toList.drop c.database.events.size) (cs.map entry) := by
  cases h with
  | configured => rfl
  | beside aside => cases op <;> first | rfl | cases aside
  | stored storage =>
    cases storage with
    | refused => rfl
    | binary => rfl
    | @long a b rest literals_eq => exact map_entry_stored literals_eq _ _ _ _ _
  | @noted op r d f note found =>
    have kept := core_mapAt_only (Operation.core_of_note note) r.offset cs
    rw [map_entry_of_core kept]
    cases op <;> first | rfl | cases note
  | refused single => cases op <;> rfl
  | @marked r d found live free =>
    obtain ⟨xs, ys, rfl, start⟩ := found
    rw [start, Nat.zero_add, markAt_append,
      revise_map_entry (f := Entry.buried) holds.words_entry start rfl]
    rfl
  | @promoted r d found live redundant =>
    obtain ⟨xs, ys, rfl, start⟩ := found
    rw [start, Nat.zero_add, promoteAt_append,
      revise_map_entry (f := Entry.raised) holds.words_entry start rfl]
    rfl
  | @shortened r size xs ys d split start free =>
    subst split
    have sound := holds.sound d (by simp)
    obtain ⟨-, -, shorter⟩ := Database.barsShrink_eq_false sound free
    have entry_eq : (d.shrunk size.toNat).entry = d.entry.cut size.toNat := by
      have room_eq := sound.room_shrunk (n := size.toNat) (by omega)
      simp only [entry, room_eq, Entry.cut]
      rfl
    exact revise_map_entry holds.words_entry (start.trans (Nat.zero_add _).symm) entry_eq
  | @collected start xs ys first last split start_eq first_at =>
    subst split
    have offset_eq : start.offset = 0 + extents xs := by rw [start_eq, holds.start_eq, Nat.zero_add]
    exact reclaim_map_entry _ _ holds.words_entry offset_eq
  | reduced reduction => exact reduction.map_entry holds

end Effect

namespace Context

variable {π : Type} [Predictor π]

/-- The ledger and the cells stay together along a lawful run. -/
theorem exists_kept {c : Context π} {cs : List Cell} {ops : List Operation} (h : c.database.Holds cs)
    (follows : c.Follows ops) : ∃ ds, (c.run ops).database.Holds ds ∧
      ds.map entry = Ledger.keep c ops (cs.map entry) := by
  induction ops generalizing c cs with
  | nil => exact ⟨cs, h, rfl⟩
  | cons op ops ih =>
    obtain ⟨lawful, rest⟩ := follows
    obtain ⟨c', ds, ms, after_eq, effect⟩ := exists_effect h lawful
    rw [Ledger.keep, told_eq_drop after_eq, ← effect.map_entry h]
    exact ih (holds_after after_eq (effect.holds h)) rest

/-- Behind every lawful run of an empty context the arena holds the clauses of the ledger. -/
theorem arena_lists_ledger (config : Config) (predictor : π) (ops : List Operation)
    (follows : (ofConfig config predictor).Follows ops) :
    ((ofConfig config predictor).run ops).database.arena.Lists
      (Ledger.keep (ofConfig config predictor) ops []) := by
  have start : (ofConfig config predictor).database.Holds [] := holds_nil
  obtain ⟨cs, h, kept⟩ := exists_kept start follows
  rw [List.map_nil] at kept
  rw [← kept]
  exact h.lists

theorem arena_lists_ledger_sampleRun :
    (ofConfig {} ({} : Linear)).Follows (sampleRun ++ [.collect .start]) ∧
      ((ofConfig {} ({} : Linear)).run (sampleRun ++ [.collect .start])).database.arena.Lists
        (Ledger.keep (ofConfig {} ({} : Linear)) (sampleRun ++ [.collect .start]) []) := by
  have follows : (ofConfig {} ({} : Linear)).Follows (sampleRun ++ [.collect .start]) := by
    decide +kernel
  exact ⟨follows, arena_lists_ledger ({} : Config) ({} : Linear) _ follows⟩

/-- The garbage is reclaimed, and the room of a shortened clause with it. -/
example : Ledger.keep (ofConfig {} ({} : Linear)) (sampleRun ++ [.collect .start]) [] =
    [⟨2, [⟨-1⟩, ⟨2⟩, ⟨4⟩], 3, 5, true, false⟩, ⟨3, [⟨3⟩, ⟨-4⟩, ⟨6⟩], 3, 7, true, false⟩] := by
  decide +kernel

end Context

end ClauseStore
