import Mathlib.Data.List.Basic
import ClauseStore.Proofs.Storing

/-!
Which clauses are stored, and why the others are refused. A clause is acceptable where it has two
literals or more, none of them zero, and no two of one atom. The store decides this by looking at
neighbours in the order of the indices, where the two literals of an atom are neighbours and the
negative one comes first. So the clash that it finds is the one of the least atom that occurs more
than once, and whether that clash is a tautology can be told from the clause as it was given: the
negative literal occurs exactly once. Where identities and offsets are left, no other rule decides
what is stored, and the order of the literals has no say in it.
-/

namespace ClauseStore

namespace Clause

/-- What a clause must be to be stored. -/
structure Acceptable (c : Clause) : Prop where
  long : 2 ≤ c.length
  nonzero : 0 ∉ c.map Literal.toInt
  apart : (c.map Literal.atom).Nodup

/-- The least atom that occurs more than once. -/
structure Repeats (c : Clause) (m : Nat) : Prop where
  twice : 1 < (c.map Literal.atom).count m
  least : ∀ n, 1 < (c.map Literal.atom).count n → m ≤ n

/-- Why a clause is refused. -/
inductive Refused (c : Clause) : ClauseError → Prop where
  | empty (none : c.length = 0) : Refused c .emptyClause
  | unit (single : c.length = 1) : Refused c .unitClause
  | zero (long : 2 ≤ c.length) (zero : 0 ∈ c.map Literal.toInt) : Refused c .zeroLiteral
  /-- the negative literal of the least repeated atom occurs exactly once -/
  | tautology {m : Nat} (long : 2 ≤ c.length) (nonzero : 0 ∉ c.map Literal.toInt)
    (repeats : c.Repeats m) (once : (c.map Literal.toInt).count (-(m : Int)) = 1) : Refused c .tautology
  | duplicate {m : Nat} (long : 2 ≤ c.length) (nonzero : 0 ∉ c.map Literal.toInt)
    (repeats : c.Repeats m) (other : (c.map Literal.toInt).count (-(m : Int)) ≠ 1) :
    Refused c .duplicateLiteral

variable {c d : Clause} {e e' : ClauseError} {m n : Nat}

/-! ### The rules exclude each other -/

theorem Repeats.unique (h : c.Repeats m) (h' : c.Repeats n) : m = n :=
  Nat.le_antisymm (h.least n h'.twice) (h'.least m h.twice)

theorem Acceptable.not_repeats (h : c.Acceptable) : ¬ c.Repeats m := fun repeats =>
  absurd repeats.twice (Nat.not_lt.2 (List.nodup_iff_count.1 h.apart m))

theorem Acceptable.not_refused (h : c.Acceptable) : ¬ c.Refused e := by
  have long := h.long
  rintro (none | single | ⟨-, zero⟩ | ⟨-, -, repeats, -⟩ | ⟨-, -, repeats, -⟩)
  · omega
  · omega
  · exact h.nonzero zero
  · exact h.not_repeats repeats
  · exact h.not_repeats repeats

/-- There is one reason at most. -/
theorem Refused.unique (h : c.Refused e) (h' : c.Refused e') : e = e' := by
  rcases h with none | single | ⟨long, zero⟩ | ⟨long, nonzero, repeats, count⟩ |
      ⟨long, nonzero, repeats, count⟩ <;>
    rcases h' with none' | single' | ⟨long', zero'⟩ | ⟨long', nonzero', repeats', count'⟩ |
      ⟨long', nonzero', repeats', count'⟩ <;>
    first
    | rfl
    | omega
    | contradiction
    | (cases repeats.unique repeats'; contradiction)

/-! ### The rules do not look at the order -/

theorem Acceptable.perm (h : c.Acceptable) (hperm : c.Perm d) : d.Acceptable where
  long := hperm.length_eq ▸ h.long
  nonzero := fun zero => h.nonzero ((hperm.map _).mem_iff.2 zero)
  apart := (hperm.map _).nodup_iff.1 h.apart

theorem Repeats.perm (h : c.Repeats m) (hperm : c.Perm d) : d.Repeats m where
  twice := (hperm.map Literal.atom).count_eq m ▸ h.twice
  least := fun n twice => h.least n ((hperm.map Literal.atom).count_eq n ▸ twice)

theorem Refused.perm (h : c.Refused e) (hperm : c.Perm d) : d.Refused e := by
  have length_eq := hperm.length_eq
  have mem_iff := (hperm.map Literal.toInt).mem_iff (a := 0)
  have count_eq := fun z => (hperm.map Literal.toInt).count_eq z
  rcases h with none | single | ⟨long, zero⟩ | ⟨long, nonzero, repeats, once⟩ |
    ⟨long, nonzero, repeats, other⟩
  · exact .empty (by omega)
  · exact .unit (by omega)
  · exact .zero (by omega) (mem_iff.1 zero)
  · exact .tautology (by omega) (mt mem_iff.2 nonzero) (repeats.perm hperm) (count_eq _ ▸ once)
  · exact .duplicate (by omega) (mt mem_iff.2 nonzero) (repeats.perm hperm) (count_eq _ ▸ other)

/-! ### Neighbours in the order of the indices -/

theorem atom_le_of_index_le {a b : Literal} (h : a.index ≤ b.index) : a.atom ≤ b.atom := by
  have := a.positive.toNat_le
  have := b.positive.toNat_le
  simp only [Literal.index] at h
  omega

/-- A literal with the index of a positive one, or a greater one, is not the negative literal of
the same atom. -/
theorem ne_neg_atom {a b : Literal} (positive : 0 < a.toInt) (h : a.index ≤ b.index) :
    b.toInt ≠ -(a.atom : Int) := by
  intro negative
  have atom_eq : b.atom = a.atom := by rw [Literal.atom, negative, Int.natAbs_neg, Int.natAbs_natCast]
  simp only [Literal.index, Literal.positive, atom_eq] at h
  simp only [Literal.atom] at negative
  rw [decide_eq_true positive, decide_eq_false (by omega)] at h
  exact absurd h (Nat.not_succ_le_self _)

/-- What a search for a clash of neighbours in the order of the indices tells. -/
def Clashes (c : Clause) : Option ClauseError → Prop
  | none => (c.map Literal.atom).Nodup
  | some e => ∃ m, c.Repeats m ∧
      e = if (c.map Literal.toInt).count (-(m : Int)) = 1 then .tautology else .duplicateLiteral

/-- The first literal stands twice. -/
theorem clashes_duplicate {a : Literal} {rest : Clause}
    (least : ∀ b ∈ a :: rest, a.index ≤ b.index) :
    Clashes (a :: a :: rest) (some .duplicateLiteral) := by
  refine ⟨a.atom, ⟨by simp, fun n twice => ?_⟩, (if_neg ?_).symm⟩
  · obtain ⟨b, hb, rfl⟩ := List.mem_map.1 (List.count_pos_iff.1 (Nat.zero_lt_of_lt twice))
    exact atom_le_of_index_le (least b (by simpa using hb))
  · by_cases positive : 0 < a.toInt
    · have absent : -(a.atom : Int) ∉ (a :: a :: rest).map Literal.toInt := by
        intro among
        obtain ⟨b, hb, negative⟩ := List.mem_map.1 among
        exact ne_neg_atom positive (least b (by simpa using hb)) negative
      simp only [List.map_cons] at absent ⊢
      rw [List.count_eq_zero.2 absent]
      exact Nat.zero_ne_one
    · have negative : a.toInt = -(a.atom : Int) := by simp only [Literal.atom]; omega
      simp [← negative]

/-- The first two literals differ in the polarity only. -/
theorem clashes_tautology {a b : Literal} {rest : Clause} (ne : a ≠ b) (same : a.atom = b.atom)
    (least : a.index ≤ b.index) (behind : ∀ l ∈ rest, b.index ≤ l.index) :
    Clashes (a :: b :: rest) (some .tautology) := by
  have apart : a.index ≠ b.index := fun h => ne (Literal.index_injective h)
  have signs : a.toInt = -(b.atom : Int) ∧ 0 < b.toInt := by
    simp only [Literal.index, Literal.positive, same] at apart least
    simp only [Literal.atom] at same ⊢
    by_cases ha : 0 < a.toInt <;> by_cases hb : 0 < b.toInt <;>
      simp only [ha, hb, decide_true, decide_false, Bool.toNat_true, Bool.toNat_false] at apart least <;>
      omega
  have absent : -(b.atom : Int) ∉ (b :: rest).map Literal.toInt := by
    intro among
    obtain ⟨l, hl, negative⟩ := List.mem_map.1 among
    refine ne_neg_atom signs.2 ?_ negative
    rcases List.mem_cons.1 hl with rfl | hl
    · exact Nat.le_refl _
    · exact behind l hl
  refine ⟨b.atom, ⟨by simp [same], fun n twice => ?_⟩, (if_pos ?_).symm⟩
  · obtain ⟨l, hl, rfl⟩ := List.mem_map.1 (List.count_pos_iff.1 (Nat.zero_lt_of_lt twice))
    simp only [List.mem_cons] at hl
    rcases hl with rfl | rfl | hl
    · exact Nat.le_of_eq same.symm
    · exact Nat.le_refl _
    · exact atom_le_of_index_le (behind l hl)
  · rw [List.map_cons, signs.1, List.count_cons_self, List.count_eq_zero.2 absent]

/-- A literal whose atom is less than all others has no part in a clash. -/
theorem Clashes.cons {a : Literal} {rest : Clause} {fault : Option ClauseError}
    (h : Clashes rest fault) (less : ∀ b ∈ rest, a.atom < b.atom) :
    Clashes (a :: rest) fault := by
  have absent : a.atom ∉ rest.map Literal.atom := by
    intro among
    obtain ⟨b, hb, same⟩ := List.mem_map.1 among
    exact absurd (less b hb) (by omega)
  cases fault with
  | none => exact List.nodup_cons.2 ⟨absent, h⟩
  | some e =>
    obtain ⟨m, ⟨twice, least⟩, rfl⟩ := h
    have among : m ∈ rest.map Literal.atom := List.count_pos_iff.1 (Nat.zero_lt_of_lt twice)
    have other : a.atom ≠ m := fun same => absent (same ▸ among)
    have literal_ne : a.toInt ≠ -(m : Int) := fun same => other (by simp [Literal.atom, same])
    refine ⟨m, ⟨by simpa [other] using twice, fun n more => ?_⟩, by simp [literal_ne]⟩
    by_cases same : a.atom = n
    · simp [← same, List.count_eq_zero.2 absent] at more
    · exact least n (by simpa [same] using more)

/-- Where indices do not descend, the first clash of neighbours is the clash of the least atom that
occurs more than once. -/
theorem clashes_clash? (sorted : c.Pairwise fun a b => a.index ≤ b.index) :
    c.Clashes (clash? c) := by
  induction c with
  | nil => exact .nil
  | cons a rest ih =>
    obtain ⟨first, behind⟩ := List.pairwise_cons.1 sorted
    cases rest with
    | nil => exact List.pairwise_singleton ..
    | cons b rest =>
      obtain ⟨second, -⟩ := List.pairwise_cons.1 behind
      have least := first b (List.mem_cons_self ..)
      rw [clash?]
      split
      next same =>
        subst same
        exact clashes_duplicate first
      next ne =>
        split
        next same => exact clashes_tautology ne same least second
        next apart =>
          have less : a.atom < b.atom := Nat.lt_of_le_of_ne (atom_le_of_index_le least) apart
          refine (ih behind).cons fun l hl => ?_
          rcases List.mem_cons.1 hl with rfl | hl
          · exact less
          · exact Nat.lt_of_lt_of_le less (atom_le_of_index_le (second l hl))

theorem Clashes.perm {fault : Option ClauseError} (h : c.Clashes fault) (hperm : c.Perm d) :
    d.Clashes fault := by
  cases fault with
  | none => exact (hperm.map _).nodup_iff.1 h
  | some e =>
    obtain ⟨m, repeats, rfl⟩ := h
    exact ⟨m, repeats.perm hperm, by rw [(hperm.map Literal.toInt).count_eq]⟩

/-! ### The rules decide -/

theorem zero_mem_iff : (c.any fun l => l.atom == 0) = true ↔ 0 ∈ c.map Literal.toInt := by
  simp [Literal.atom]

/-- What the rules say of a clause that a fault is found in, or none. -/
def Judged (c : Clause) : Option ClauseError → Prop
  | none => c.Acceptable
  | some e => c.Refused e

/-- A clause that a record can count is judged by the rules. -/
theorem judged_fault? (fits : c.length ≤ maxSize) : c.Judged c.fault? := by
  have clashes := (clashes_clash? (pairwise_sortedByIndex c)).perm (stableSort_perm ..)
  rw [fault?]
  split
  next none => exact Refused.empty none
  next none =>
    split
    next single => exact Refused.unit single
    next single =>
      have long : 2 ≤ c.length := by omega
      rw [if_neg (Nat.not_lt.2 fits), literalFault?]
      split
      next zero => exact Refused.zero long (zero_mem_iff.1 zero)
      next nonzero =>
        have nonzero := mt zero_mem_iff.2 nonzero
        revert clashes
        cases clash? c.sortedByIndex with
        | none => exact fun apart => ⟨long, nonzero, apart⟩
        | some e =>
          rintro ⟨m, repeats, rfl⟩
          split
          next once => exact .tautology long nonzero repeats once
          next other => exact .duplicate long nonzero repeats other

end Clause

/-! ### Storing where there is room -/

namespace Database

variable {db : Database}

/-- Where an identity and room for a record are left, a clause of more than two literals is stored
behind the arena. -/
theorem exists_yields_storeLong {a b : Literal} {rest : Clause} (source : Source) (glue : UInt32)
    (keep : Bool) (conflicts : UInt64) (identity : db.nextIdentity ≠ 4294967295)
    (room : db.arena.size + aligned (Header.wordCount + (a :: b :: rest).length) <
      Reference.invalid.offset) :
    ∃ db', Yields (storeLong a b rest source glue keep conflicts) db
      (.ok (.long (.ofOffset db.arena.size) db.nextIdentity)) db' := by
  have fits : (a :: b :: rest).length < 4294967296 := by
    have : Reference.invalid.offset = 4294967295 := rfl
    simp only [aligned] at room
    omega
  have allocated : db.arena.reserve (wordsOfClause (UInt64.ofNat (a :: b :: rest).length)) =
      .ok (.ofOffset db.arena.size, ⟨db.arena.words ++
        Array.replicate (aligned (Header.wordCount + (a :: b :: rest).length)) 0⟩) := by
    simp only [Arena.reserve, Arena.toNat_wordsOfClause fits, if_pos room]
  have placed : Yields (allocate (a :: b :: rest).length)
      { db with nextIdentity := db.nextIdentity + 1 } _ _ := yields_allocate allocated
  refine (yields_freshIdentity identity).exists_bind (placed.exists_bind ?_)
  refine (yields_modify fun _ => by dsimp only [Logged.withMessages]).exists_bind ?_
  refine (yields_recount _).exists_bind ((yields_log _).exists_bind ?_)
  exact (yields_announce _).exists_bind ⟨_, yields_pure _ _⟩

end Database

namespace Context

variable {π : Type} {c : Context π}

/-- Whether identities are left, and room in the arena for a clause of some size: a clause of two
literals takes none. -/
structure Spare (size : Nat) (c : Context π) : Prop where
  identity : c.database.nextIdentity ≠ 4294967295
  room : 2 < size →
    c.database.arena.size + aligned (Header.wordCount + size) < Reference.invalid.offset

/-- Where a clause of some size is placed. -/
def berth (size : Nat) (c : Context π) : Placement :=
  if size = 2 then .binary c.database.nextIdentity
  else .long (.ofOffset c.database.arena.size) c.database.nextIdentity

/-- What the store answers. -/
def reply (source : Source) (glue : UInt32) (clause : Clause) (c : Context π) :
    Except Error Placement :=
  (outcome (create source glue clause) c).1

/-- The answer is that of the store of the database. -/
theorem reply_eq {source : Source} {glue : UInt32} {clause : Clause} {r : Except Error Placement}
    {db : Database} (h : Yields (Database.store c.config source glue c.counters.conflicts clause)
      c.database r db) : c.reply source glue clause = r := by
  have created : Yields (create source glue clause) c r { c with
      phase := if c.phase = .configuration then .input else c.phase, database := db } :=
    Yields.bind (yields_modify fun _ => rfl)
      (Yields.get_bind (fun _ => rfl) (yields_onDatabase h))
  obtain ⟨ms, hms⟩ := created.outcome_eq
  exact congrArg Prod.fst hms

/-- The store answers with a placement for what it does not refuse. -/
theorem reply_of_accepted {source : Source} {glue : UInt32} {clause : Clause}
    (spare : c.Spare clause.length) (accepted : clause.fault? = none) :
    c.reply source glue clause = .ok (c.berth clause.length) := by
  have facts := Clause.accepted accepted source
  have length_eq : (clause.filed source).length = clause.length := by
    rw [Clause.filed]
    split
    · exact (stableSort_perm ..).length_eq
    · rfl
  have stored : ∃ db, Yields (Database.store c.config source glue c.counters.conflicts clause)
      c.database (.ok (c.berth clause.length)) db := by
    have filed_eq : (if source = .original then clause.sortedByIndex else clause) =
      clause.filed source := rfl
    simp only [Database.store, accepted, filed_eq]
    rw [← length_eq] at spare ⊢
    generalize clause.filed source = ls at facts spare
    rcases ls with _ | ⟨a, _ | ⟨b, _ | ⟨l, rest⟩⟩⟩
    · exact absurd facts.1 (by simp)
    · exact absurd facts.1 (by simp)
    · exact ⟨_, Database.yields_storeBinary a b source spare.identity⟩
    · have room := spare.room (by simp)
      exact Database.exists_yields_storeLong source glue _ _ spare.identity room
  obtain ⟨db, h⟩ := stored
  exact reply_eq h

theorem reply_of_fault {source : Source} {glue : UInt32} {clause : Clause} {fault : ClauseError}
    (refused : clause.fault? = some fault) :
    c.reply source glue clause = .error (.clause fault) := by
  have thrown : Yields (Database.store c.config source glue c.counters.conflicts clause)
      c.database (.error (.clause fault)) c.database := by
    simp only [Database.store, refused]
    exact yields_throw _ _
  exact reply_eq thrown

/-- A clause that there is room for can be counted by a record. -/
theorem Spare.fits {clause : Clause} (h : c.Spare clause.length) :
    clause.length ≤ Clause.maxSize := by
  have room := h.room
  have : Reference.invalid.offset = 4294967295 := rfl
  simp only [Clause.maxSize, aligned, Header.wordCount] at room ⊢
  omega

/-- The answer for a clause that there is room for, by the rules. -/
theorem reply_cases (source : Source) (glue : UInt32) {clause : Clause}
    (spare : c.Spare clause.length) :
    (clause.Acceptable ∧ c.reply source glue clause = .ok (c.berth clause.length)) ∨
      ∃ fault, clause.Refused fault ∧ c.reply source glue clause = .error (.clause fault) := by
  have judged := Clause.judged_fault? spare.fits
  cases accepted : clause.fault? with
  | none =>
    rw [accepted] at judged
    exact .inl ⟨judged, reply_of_accepted spare accepted⟩
  | some fault =>
    rw [accepted] at judged
    exact .inr ⟨fault, judged, reply_of_fault accepted⟩

/-- Where identities and room are left, exactly the acceptable clauses are stored, those of two
literals as binary clauses; the others are refused for the reason that the rules give, and the order
of the literals does not matter. -/
theorem create_accepts (source : Source) (glue : UInt32) {clause : Clause}
    (spare : c.Spare clause.length) :
    (∀ placement, c.reply source glue clause = .ok placement ↔
      clause.Acceptable ∧ placement = c.berth clause.length) ∧
    (∀ e, c.reply source glue clause = .error e ↔ ∃ fault, clause.Refused fault ∧
      e = .clause fault) ∧
    ∀ order : Clause, order.Perm clause →
      c.reply source glue order = c.reply source glue clause := by
  refine ⟨fun placement => ?_, fun e => ?_, fun order hperm => ?_⟩
  · rcases c.reply_cases source glue spare with ⟨acceptable, h⟩ | ⟨fault, refused, h⟩
    · simp [h, acceptable, eq_comm]
    · simp only [h, reduceCtorEq, false_iff]
      exact fun ⟨acceptable, _⟩ => acceptable.not_refused refused
  · rcases c.reply_cases source glue spare with ⟨acceptable, h⟩ | ⟨fault, refused, h⟩
    · simp only [h, reduceCtorEq, false_iff]
      exact fun ⟨_, refused, _⟩ => acceptable.not_refused refused
    · rw [h]
      constructor
      · rintro ⟨⟩
        exact ⟨fault, refused, rfl⟩
      · rintro ⟨fault', refused', rfl⟩
        rw [refused.unique refused']
  · have length_eq := hperm.length_eq
    rcases c.reply_cases source glue spare with ⟨acceptable, h⟩ | ⟨fault, refused, h⟩ <;>
      rcases c.reply_cases source glue (length_eq ▸ spare) with ⟨acceptable', h'⟩ |
        ⟨fault', refused', h'⟩
    · rw [h, h', length_eq]
    · exact absurd refused' (acceptable.perm hperm.symm).not_refused
    · exact absurd (refused.perm hperm.symm) acceptable'.not_refused
    · rw [h, h', refused'.unique (refused.perm hperm.symm)]

/-- A clause with an atom three times and, of a lesser atom, both literals; one literal has no
negation. -/
def tangled : Clause := [9, -4, 9, 4, -2147483648, 9].map Literal.mk

/-- The same atoms, each of them once. -/
def combed : Clause := [9, -4, -2147483648].map Literal.mk

/-- In whatever order the literals are given, the lesser of the two atoms decides why the one clause is
refused, and the other clause is stored at the start of the arena. -/
theorem create_accepts_tangled :
    (ofConfig {} () : Context Unit).Spare tangled.length ∧
      (∀ order : Clause, order.Perm tangled →
        (ofConfig {} () : Context Unit).reply .redundant 3 order =
          .error (.clause .tautology)) ∧
      (ofConfig {} () : Context Unit).Spare combed.length ∧
      ∀ order : Clause, order.Perm combed →
        (ofConfig {} () : Context Unit).reply .redundant 3 order = .ok (.long (.ofOffset 0) 1) := by
  have spare : (ofConfig {} () : Context Unit).Spare tangled.length := ⟨by decide, by decide⟩
  obtain ⟨-, refuses, unordered⟩ := create_accepts .redundant 3 spare
  have repeats : tangled.Repeats 4 := by
    refine ⟨by decide, fun n twice => ?_⟩
    have among : n ∈ tangled.map Literal.atom := List.count_pos_iff.1 (Nat.zero_lt_of_lt twice)
    have atoms : ∀ n ∈ tangled.map Literal.atom, 4 ≤ n := by decide
    exact atoms n among
  have refused : tangled.Refused .tautology :=
    .tautology (by decide) (by decide) repeats (by decide)
  have roomy : (ofConfig {} () : Context Unit).Spare combed.length := ⟨by decide, by decide⟩
  obtain ⟨accepts, -, unsorted⟩ := create_accepts .redundant 3 roomy
  have acceptable : combed.Acceptable := ⟨by decide, by decide, by decide⟩
  refine ⟨spare, fun order hperm => ?_, roomy, fun order hperm => ?_⟩
  · rw [unordered order hperm]
    exact (refuses _).2 ⟨_, refused, rfl⟩
  · rw [unsorted order hperm]
    exact (accepts _).2 ⟨acceptable, rfl⟩

end Context

end ClauseStore
