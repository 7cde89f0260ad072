import ClauseStore.Database.Storing
import ClauseStore.Proofs.Revision

/-!
Storing, as a change of the row of cells. A stored clause of two literals leaves the row alone, and a
longer one puts a fresh cell behind the others. A clause that is refused leaves at most a gap between
two identities.
-/

namespace ClauseStore

open Cell

/-- The literals of a clause as they are stored: those of an original clause are sorted. -/
def Clause.filed (source : Source) (c : Clause) : Clause :=
  if source = .original then c.sortedByIndex else c

theorem Literal.word_ne_sentinel {l : Literal} (h : l.atom ≠ 0) : l.word ≠ sentinel := by
  intro hw
  have : l = ofWord 0 := by rw [← l.ofWord_word, hw]; rfl
  exact h (this ▸ rfl)

/-- What is accepted has a size that a record can count, and no literal whose word is zero. -/
theorem Clause.accepted {c : Clause} (h : c.fault? = none) (source : Source) :
    1 < (c.filed source).length ∧ (c.filed source).length < 4294967296 ∧
      ∀ l ∈ c.filed source, l.word ≠ sentinel := by
  have perm : (c.filed source).Perm c := by
    rw [filed]
    split
    · exact stableSort_perm ..
    · exact .refl c
  rw [fault?] at h
  split at h
  · cases h
  split at h
  · cases h
  split at h
  · cases h
  next none one fits =>
    rw [literalFault?] at h
    split at h
    · cases h
    next nonzero =>
      have length_eq := perm.length_eq
      simp only [maxSize] at fits
      refine ⟨by omega, by omega, fun l hl => Literal.word_ne_sentinel fun zero => nonzero ?_⟩
      exact List.any_eq_true.2 ⟨l, perm.mem_iff.1 hl, by simp [zero]⟩

/-! ### Distinct literals -/

/-- Different literals have different indices. -/
theorem Literal.index_injective {l m : Literal} (h : l.index = m.index) : l = m := by
  have same : l.toInt = m.toInt := by
    simp only [index, atom, positive] at h
    by_cases hl : 0 < l.toInt <;> by_cases hm : 0 < m.toInt <;>
      simp only [hl, hm, decide_true, decide_false, Bool.toNat_true, Bool.toNat_false] at h <;> omega
  cases l
  cases m
  exact congrArg Literal.mk (Int32.toInt_inj.1 same)

/-- Where no neighbours clash, sorted indices ascend. -/
theorem Clause.ascending_of_clash? {c : Clause} (free : clash? c = none)
    (sorted : c.Pairwise fun a b => a.index ≤ b.index) :
    c.Pairwise fun a b => a.index < b.index := by
  induction c with
  | nil => exact .nil
  | cons a rest ih =>
    obtain ⟨first, behind⟩ := List.pairwise_cons.1 sorted
    cases rest with
    | nil => exact List.pairwise_singleton ..
    | cons b rest =>
      rw [clash?] at free
      split at free
      · cases free
      next ne =>
        split at free
        · cases free
        have ascends := ih free behind
        refine List.pairwise_cons.2 ⟨fun d hd => ?_, ascends⟩
        have least := first b (List.mem_cons_self ..)
        have apart : a.index ≠ b.index := fun same => ne (Literal.index_injective same)
        rcases List.mem_cons.1 hd with rfl | hd
        · omega
        · have := (List.pairwise_cons.1 ascends).1 d hd
          omega

/-- Sorting by the indices puts the literals in the order of their indices. -/
theorem Clause.pairwise_sortedByIndex (c : Clause) :
    c.sortedByIndex.Pairwise fun a b => a.index ≤ b.index := by
  have comparing : Comparing fun a b : Literal => decide (a.index ≤ b.index) :=
    ⟨fun a b => by simpa using Nat.le_total a.index b.index,
      fun ab bc => by simpa using Nat.le_trans (by simpa using ab) (by simpa using bc)⟩
  have anyhow : c.Pairwise fun _ _ => True := List.pairwise_of_forall fun _ _ => trivial
  exact (comparing.pairwise_stableSort c anyhow).imp fun precedes => by simpa using precedes.1

/-- No literal occurs twice in what is accepted. -/
theorem Clause.nodup_filed {c : Clause} (h : c.fault? = none) (source : Source) :
    (c.filed source).Nodup := by
  have free : clash? c.sortedByIndex = none := by
    simp only [fault?, literalFault?] at h
    split at h
    · cases h
    split at h
    · cases h
    split at h
    · cases h
    split at h
    · cases h
    exact h
  have apart : c.sortedByIndex.Nodup :=
    (ascending_of_clash? free (pairwise_sortedByIndex c)).imp fun less same =>
      Nat.ne_of_lt less (congrArg _ same)
  rw [filed]
  split
  · exact apart
  · exact (stableSort_perm ..).nodup_iff.1 apart

namespace Cell

/-- The cell of a clause that is stored. -/
def stored (identity : UInt32) (source : Source) (glue : UInt32) (keep : Bool) (conflicts : UInt64)
    (ls : Clause) : Cell :=
  let redundant := source == .redundant
  fresh (Database.freshHeader identity redundant keep (if redundant then glue else 0) conflicts) ls

end Cell

namespace Database

variable {db : Database} {cs : List Cell}

/-- A database after a clause of two literals is stored. -/
def storedBinary (a b : Literal) (source : Source) (db : Database) : Database :=
  let redundant := source == .redundant
  { db with
    watches := db.watches.watchBinary a b redundant db.nextIdentity
    occurrences := if redundant then db.occurrences else db.occurrences.add [a, b]
    counts := db.counts.stored source
    nextIdentity := db.nextIdentity + 1
    events := db.events.push (birth db.nextIdentity [a, b] source) }

/-- A database after a longer clause is stored behind a row of cells. -/
def storedLong (a b : Literal) (rest : Clause) (source : Source) (glue : UInt32) (keep : Bool)
    (conflicts : UInt64) (cs : List Cell) (db : Database) : Database :=
  let redundant := source == .redundant
  let r := Reference.ofOffset (extents cs)
  let ls := a :: b :: rest
  { db with
    arena := .ofCells (cs ++ [Cell.stored db.nextIdentity source glue keep conflicts ls])
    watches := attach r a b db.watches
    firstReducible :=
      if redundant && !keep && !db.firstReducible.isValid then r else db.firstReducible
    lastIrredundant := if redundant then db.lastIrredundant else r
    occurrences := if redundant then db.occurrences else db.occurrences.add ls
    counts := db.counts.stored source
    nextIdentity := db.nextIdentity + 1
    events := db.events.push (birth db.nextIdentity ls source) }

theorem yields_freshIdentity (h : db.nextIdentity ≠ 4294967295) :
    Yields freshIdentity db (.ok db.nextIdentity)
      { db with nextIdentity := db.nextIdentity + 1 } := by
  refine Yields.get_bind (fun _ => rfl) ?_
  have free : (db.nextIdentity == 4294967295) = false := by simpa using h
  have step : Yields _ db _ _ :=
    yields_failIf (db.nextIdentity == 4294967295) (.clause .storageExhausted)
  dsimp only
  rw [free] at step ⊢
  exact step.bind ((yields_modify fun _ => rfl).bind (yields_pure _ _))

theorem yields_freshIdentity_refused (h : db.nextIdentity = 4294967295) :
    Yields freshIdentity db (.error (.clause .storageExhausted)) db := by
  refine Yields.get_bind (fun _ => rfl) ?_
  have step : Yields _ db _ _ :=
    yields_failIf (db.nextIdentity == 4294967295) (.clause .storageExhausted)
  rw [h] at step ⊢
  exact step.bind_error

theorem yields_storeBinary (a b : Literal) (source : Source) (h : db.nextIdentity ≠ 4294967295) :
    Yields (storeBinary a b source) db (.ok (.binary db.nextIdentity))
      (db.storedBinary a b source) := by
  refine (yields_freshIdentity h).bind ((yields_modify fun _ => rfl).bind ?_)
  refine (yields_recount _).bind ((yields_log _).bind ((yields_announce _).bind ?_))
  exact yields_pure _ _

theorem yields_allocate {size : Nat} {r : Reference} {a : Arena}
    (h : db.arena.reserve (wordsOfClause (UInt64.ofNat size)) = .ok (r, a)) :
    Yields (allocate size) db (.ok r) { db with arena := a } := by
  intro ms
  refine ⟨ms, ?_⟩
  have here : (Logged.withMessages ms db).arena.reserve (wordsOfClause (UInt64.ofNat size)) =
    .ok (r, a) := h
  rw [allocate, outcome_bind, outcome_get]
  dsimp only
  rw [here]
  rfl

theorem yields_allocate_refused {size : Nat} {e : ArenaError}
    (h : db.arena.reserve (wordsOfClause (UInt64.ofNat size)) = .error e) :
    Yields (allocate size) db (.error (asClauseError e)) db := by
  intro ms
  have refused : Yields (refuse _ _ : Action Reference) db _ _ :=
    yields_refuse (.arenaExhausted db.arena.size) (asClauseError e)
  obtain ⟨ms', h'⟩ := refused ms
  refine ⟨ms', ?_⟩
  have here : (Logged.withMessages ms db).arena.reserve (wordsOfClause (UInt64.ofNat size)) =
    .error e := h
  rw [allocate, outcome_bind, outcome_get]
  dsimp only
  rw [here]
  exact h'

/-- Room is made for a record that ends at an offset that a reference can hold. -/
theorem Holds.reserve_eq (h : db.Holds cs) {size : Nat} (hlen : size < 4294967296) :
    db.arena.reserve (wordsOfClause (UInt64.ofNat size)) =
      if extents cs + aligned (Header.wordCount + size) < Reference.invalid.offset then
        .ok (.ofOffset (extents cs), ⟨db.arena.words ++
          Array.replicate (aligned (Header.wordCount + size)) 0⟩)
      else .error .exhausted := by
  simp only [Arena.reserve, Arena.toNat_wordsOfClause hlen, h.tiled.size_eq]

theorem yields_storeLong (h : db.Holds cs) {a b : Literal} {rest : Clause} (source : Source)
    (glue : UInt32) (keep : Bool) (conflicts : UInt64) (hnext : db.nextIdentity ≠ 4294967295)
    (hlen : (a :: b :: rest).length < 4294967296)
    (room : extents cs + aligned (Header.wordCount + (a :: b :: rest).length) <
      Reference.invalid.offset) :
    Yields (storeLong a b rest source glue keep conflicts) db
      (.ok (.long (.ofOffset (extents cs)) db.nextIdentity))
      (db.storedLong a b rest source glue keep conflicts cs) := by
  have offset_eq : (Reference.ofOffset (extents cs)).offset = extents cs :=
    toNat_ofOffset h.fits_word
  have arena_eq := Arena.append_ofCells cs (freshHeader db.nextIdentity (source == .redundant) keep
    (if source == .redundant then glue else 0) conflicts) (a :: b :: rest)
  rw [← h.arena_eq] at arena_eq
  have reserve_eq := h.reserve_eq hlen
  rw [if_pos room] at reserve_eq
  refine (yields_freshIdentity hnext).bind ?_
  dsimp only
  have allocated : Yields (allocate (a :: b :: rest).length)
      { db with nextIdentity := db.nextIdentity + 1 } _ _ := yields_allocate reserve_eq
  refine allocated.bind ?_
  refine (yields_modify fun _ => by dsimp only [Logged.withMessages]).bind ?_
  refine (yields_recount _).bind ((yields_log _).bind ((yields_announce _).bind ?_))
  dsimp only
  rw [offset_eq, arena_eq]
  exact yields_pure _ _

/-! ### What storing comes to -/

/-- The ways in which an attempt to store a clause ends: its answer, the database afterwards, and the
row of cells that it holds then. -/
inductive Storage (config : Config) (source : Source) (glue : UInt32) (conflicts : UInt64)
    (c : Clause) (cs : List Cell) (db : Database) :
    Except Error Placement → Database → List Cell → Prop where
  /-- the clause is refused; an identity may have been drawn -/
  | refused (e : Error) (next : UInt32) (drawn : db.nextIdentity.toNat ≤ next.toNat) :
    Storage config source glue conflicts c cs db (.error e) { db with nextIdentity := next } cs
  /-- two literals are stored in the watch lists only -/
  | binary {a b : Literal} (literals_eq : c.filed source = [a, b])
    (fresh : db.nextIdentity ≠ 4294967295) (accepted : c.fault? = none) :
    Storage config source glue conflicts c cs db (.ok (.binary db.nextIdentity))
      (db.storedBinary a b source) cs
  /-- more literals are stored in a cell behind the others -/
  | long {a b : Literal} {rest : Clause} (literals_eq : c.filed source = a :: b :: rest)
    (long : rest ≠ []) (accepted : c.fault? = none) (fresh : db.nextIdentity ≠ 4294967295)
    (room : extents cs + aligned (Header.wordCount + (a :: b :: rest).length) <
      Reference.invalid.offset) :
    Storage config source glue conflicts c cs db
      (.ok (.long (.ofOffset (extents cs)) db.nextIdentity))
      (db.storedLong a b rest source glue (keeps config source glue) conflicts cs)
      (cs ++ [Cell.stored db.nextIdentity source glue (keeps config source glue) conflicts
        (a :: b :: rest)])

theorem toNat_succ {n : UInt32} (h : n ≠ 4294967295) : (n + 1).toNat = n.toNat + 1 := by
  have := n.toNat_lt
  have : n.toNat ≠ 4294967295 := fun he => h (UInt32.toNat_inj.1 he)
  rw [UInt32.toNat_add, UInt32.toNat_one]
  omega

theorem beside_storedBinary (a b : Literal) (source : Source) (h : db.nextIdentity ≠ 4294967295) :
    Beside db (db.storedBinary a b source) := by
  unfold storedBinary
  refine ⟨rfl, rfl, rfl, ?_, ?_⟩
  · cases source <;> rfl
  · rw [toNat_succ h]
    exact Nat.le_succ _

theorem yields_store (h : db.Holds cs) (config : Config) (source : Source) (glue : UInt32)
    (conflicts : UInt64) (c : Clause) : ∃ r db' cs',
      Yields (store config source glue conflicts c) db r db' ∧
        Storage config source glue conflicts c cs db r db' cs' := by
  have refuse : ∀ e, Storage config source glue conflicts c cs db (.error e) db cs :=
    fun e => .refused e db.nextIdentity (Nat.le_refl _)
  unfold store
  cases accepted : c.fault? with
  | some fault => exact ⟨_, _, _, yields_throw _ _, refuse _⟩
  | none =>
    have facts := Clause.accepted accepted source
    have filed_eq : (if source = .original then c.sortedByIndex else c) = c.filed source := rfl
    simp only [filed_eq]
    rcases literals_eq : c.filed source with _ | ⟨a, _ | ⟨b, _ | ⟨l, rest⟩⟩⟩
    · exact ⟨_, _, _, yields_throw _ _, refuse _⟩
    · exact ⟨_, _, _, yields_throw _ _, refuse _⟩
    · by_cases fresh : db.nextIdentity = 4294967295
      · exact ⟨_, _, _, (yields_freshIdentity_refused fresh).bind_error, refuse _⟩
      · exact ⟨_, _, _, yields_storeBinary a b source fresh,
          .binary literals_eq fresh accepted⟩
    · rw [literals_eq] at facts
      by_cases fresh : db.nextIdentity = 4294967295
      · exact ⟨_, _, _, (yields_freshIdentity_refused fresh).bind_error, refuse _⟩
      by_cases room : extents cs + aligned (Header.wordCount + (a :: b :: l :: rest).length) <
          Reference.invalid.offset
      · exact ⟨_, _, _, yields_storeLong h source glue (keeps config source glue) conflicts fresh
          facts.2.1 room, .long literals_eq (List.cons_ne_nil _ _) accepted fresh room⟩
      · have reserve_eq := h.reserve_eq facts.2.1
        rw [if_neg room] at reserve_eq
        have refused : Yields (allocate (a :: b :: l :: rest).length)
            { db with nextIdentity := db.nextIdentity + 1 } _ _ := yields_allocate_refused reserve_eq
        refine ⟨_, _, _, (yields_freshIdentity fresh).bind refused.bind_error, .refused _ _ ?_⟩
        rw [toNat_succ fresh]
        exact Nat.le_succ _

namespace Storage

variable {config : Config} {source : Source} {glue : UInt32} {conflicts : UInt64} {c : Clause}
  {r : Except Error Placement} {db' : Database} {cs' : List Cell}

/-- Storing keeps what a database holds. -/
theorem holds (hst : Storage config source glue conflicts c cs db r db' cs') (h : db.Holds cs) :
    db'.Holds cs' := by
  cases hst with
  | refused e next drawn => exact h.beside ⟨rfl, rfl, rfl, rfl, drawn⟩
  | @binary a b literals_eq fresh => exact h.beside (beside_storedBinary a b source fresh)
  | @long a b rest literals_eq long accepted fresh room =>
    have facts := Clause.accepted accepted source
    rw [literals_eq] at facts
    have hlong : 2 < (a :: b :: rest).length := by
      cases rest with
      | nil => exact absurd rfl long
      | cons l rest => simp
    have sound : (Cell.stored db.nextIdentity source glue (keeps config source glue) conflicts
        (a :: b :: rest)).Sound := fresh_sound _ hlong facts.2.1 facts.2.2 rfl
    have identity_eq : (Cell.stored db.nextIdentity source glue (keeps config source glue) conflicts
        (a :: b :: rest)).identity = db.nextIdentity.toNat := rfl
    have live : (Cell.stored db.nextIdentity source glue (keeps config source glue) conflicts
        (a :: b :: rest)).isGarbage = false := rfl
    have extent_eq : (Cell.stored db.nextIdentity source glue (keeps config source glue) conflicts
        (a :: b :: rest)).extent = aligned (Header.wordCount + (a :: b :: rest).length) := by
      rw [sound.extent_eq]
      rfl
    have start_eq : (Reference.ofOffset (extents cs)).offset = extents cs :=
      toNat_ofOffset h.fits_word
    constructor
    case arena_eq => rfl
    case sound =>
      intro d hd
      rcases List.mem_append.1 hd with hd | hd
      · exact h.sound d hd
      · rw [List.mem_singleton.1 hd]
        exact sound
    case fits =>
      rw [extents_append, extents_cons, extents_nil, extent_eq, Nat.add_zero]
      exact room
    case ascending =>
      rw [List.map_append, List.pairwise_append]
      refine ⟨h.ascending, List.pairwise_singleton .., fun i hi j hj => ?_⟩
      obtain ⟨d, hd, rfl⟩ := List.mem_map.1 hi
      rw [List.map_singleton, List.mem_singleton] at hj
      rw [hj, identity_eq]
      exact h.below d hd
    case below =>
      intro d hd
      rw [storedLong, toNat_succ fresh]
      rcases List.mem_append.1 hd with hd | hd
      · exact Nat.lt_succ_of_lt (h.below d hd)
      · rw [List.mem_singleton.1 hd, identity_eq]
        exact Nat.lt_succ_self _
    case garbage_eq =>
      have arenaGarbage_eq : (db.counts.stored source).arenaGarbage = db.counts.arenaGarbage := by
        cases source <;> rfl
      rw [storedLong, arenaGarbage_eq, h.garbage_eq, garbageOf, garbageOf, List.filter_append,
        List.filter_cons, live]
      simp
    case first_eq =>
      simp only [storedLong]
      split
      · intro _
        rw [start_eq]
        exact ⟨_, at_append.2 (.inr (at_cons.2 (.inl ⟨by omega, rfl⟩)))⟩
      · intro valid
        obtain ⟨d, hd⟩ := h.first_eq valid
        exact ⟨d, at_append.2 (.inl hd)⟩

end Storage

/-! ### Binary clauses and watches -/

theorem sparing_retire (redundant : Bool) (ls : Clause) : Sparing (retire redundant ls) := by
  unfold retire
  split
  · exact sparing_recount fun _ => rfl
  · refine Sparing.bind (sparing_modify (fun _ _ => rfl) fun _ => ?_) fun _ => ?_
    · exact ⟨rfl, rfl, rfl, rfl, Nat.le_refl _⟩
    · exact sparing_recount fun _ => rfl

/-- The deletion of a binary clause concerns no long clause. -/
theorem sparing_deleteBinary (a b : Literal) (redundant : Bool) (identity : UInt32) :
    Sparing (deleteBinary a b redundant identity) := by
  refine Sparing.get_bind (fun _ _ => rfl) fun db => ?_
  dsimp only
  refine Sparing.bind (sparing_modify (fun _ _ => rfl) fun _ => ?_) fun _ => ?_
  · exact ⟨rfl, rfl, rfl, rfl, Nat.le_refl _⟩
  split
  · exact (sparing_log _).bind fun _ => sparing_throw _
  · refine (sparing_log _).bind fun _ => (sparing_retire redundant [a, b]).bind fun _ => ?_
    exact Sparing.bind (sparing_recount fun _ => rfl) fun _ => sparing_announce _

/-- Watching a long clause changes the watch lists at most. -/
theorem sparing_connect (r : Reference) : Sparing (connect r) := by
  refine (sparing_offsetOf _ r).bind fun o => (sparing_recordAt o).bind fun record => ?_
  split
  · exact sparing_pure ()
  · split
    · exact sparing_modify (fun _ _ => rfl) fun _ => ⟨rfl, rfl, rfl, rfl, Nat.le_refl _⟩
    · exact sparing_throw _

/-- Watching the queued clauses changes the watch lists at most. -/
theorem sparing_connectPending : Sparing connectPending := by
  refine Sparing.get_bind (fun _ _ => rfl) fun db => ?_
  dsimp only
  refine Sparing.bind (sparing_modify (fun _ _ => rfl) fun _ => ?_) fun _ => ?_
  · exact ⟨rfl, rfl, rfl, rfl, Nat.le_refl _⟩
  refine (sparing_log _).bind fun _ => (sparing_forM sparing_connect _).bind fun _ => ?_
  refine (sparing_log _).bind fun _ => ?_
  exact sparing_modify (fun _ _ => rfl) fun _ => ⟨rfl, rfl, rfl, rfl, Nat.le_refl _⟩

end Database

end ClauseStore
