import ClauseStore.Proofs.Compaction

/-!
What a database holds. The long clauses of a database are a row of sound cells with ascending
identities, below the next one; the bytes of garbage are those of its garbage cells, and the cached
reference to the first reducible clause is one to a cell. Each step on stored clauses is read as a
change of the row, and keeps all this.
-/

namespace ClauseStore

namespace Cell

/-- The identity of the clause of a cell. -/
def identity (c : Cell) : Nat := c.header.identity.toNat

/-- The garbage cells of a row. -/
def garbageOf (cs : List Cell) : List Cell := cs.filter isGarbage

/-- Where identities ascend, two cells of one identity are one. -/
theorem eq_of_identity {cs : List Cell} (ascending : (cs.map identity).Pairwise (· < ·)) {c d : Cell}
    {j k : Nat} (hc : At 0 cs k c) (hd : At 0 cs j d) (heq : c.identity = d.identity) :
    k = j ∧ c = d := by
  obtain ⟨xs, ys, rfl, rfl⟩ := hc
  rw [List.map_append, List.map_cons, List.pairwise_append, List.pairwise_cons] at ascending
  obtain ⟨-, ⟨after, -⟩, before⟩ := ascending
  rcases at_append.1 hd with hd | hd
  · have := before _ (List.mem_map_of_mem hd.mem) _ (List.mem_cons_self ..)
    omega
  · rcases at_cons.1 hd with ⟨hj, rfl⟩ | hd
    · exact ⟨hj.symm, rfl⟩
    · have := after _ (List.mem_map_of_mem hd.mem)
      omega

theorem identity_eq_of_core {c d : Cell} (h : d.core = c.core) : d.identity = c.identity := by
  obtain ⟨hp, -⟩ := revised_eq_iff.1 h
  simp only [Header.core, Header.mk.injEq] at hp
  simp only [identity, hp]

theorem isGarbage_eq_of_core {c d : Cell} (h : d.core = c.core) : d.isGarbage = c.isGarbage := by
  obtain ⟨hp, -⟩ := revised_eq_iff.1 h
  simp only [Header.core, Header.mk.injEq, Flags.mk.injEq] at hp
  simp only [isGarbage, hp]

/-- What is a matter of the core of a cell agrees on rows that agree up to it. -/
theorem map_eq_of_core {β : Type} {view : Cell → β}
    (hview : ∀ {c d : Cell}, d.core = c.core → view d = view c) {cs ds : List Cell}
    (h : ds.map core = cs.map core) : ds.map view = cs.map view := by
  induction cs generalizing ds with
  | nil => rw [List.map_eq_nil_iff.1 h]
  | cons c cs ih =>
    obtain ⟨d, ds, rfl, hd, hds⟩ := List.map_eq_cons_iff.1 h
    rw [List.map_cons, List.map_cons, hview hd, ih hds]

theorem garbageOf_eq_of_core {cs ds : List Cell} (h : ds.map core = cs.map core) :
    (garbageOf ds).map core = (garbageOf cs).map core := by
  induction cs generalizing ds with
  | nil => rw [List.map_eq_nil_iff.1 h]
  | cons c cs ih =>
    obtain ⟨d, ds, rfl, hd, hds⟩ := List.map_eq_cons_iff.1 h
    have := ih hds
    simp only [garbageOf] at this ⊢
    rw [List.filter_cons, List.filter_cons, isGarbage_eq_of_core hd]
    split
    · rw [List.map_cons, List.map_cons, hd, this]
    · exact this

theorem sound_of_core {cs ds : List Cell} (h : ds.map core = cs.map core)
    (sound : ∀ c ∈ cs, c.Sound) : ∀ d ∈ ds, d.Sound := by
  intro d hd
  have : d.core ∈ cs.map core := h ▸ List.mem_map_of_mem hd
  obtain ⟨c, hc, hcore⟩ := List.mem_map.1 this
  exact (sound c hc).of_core hcore.symm

end Cell

open Cell

namespace Database

/-- The long clauses of a database are those of a row of cells. -/
structure Holds (db : Database) (cs : List Cell) : Prop where
  arena_eq : db.arena = .ofCells cs
  sound : ∀ c ∈ cs, c.Sound
  fits : extents cs < Reference.invalid.offset
  ascending : (cs.map identity).Pairwise (· < ·)
  below : ∀ c ∈ cs, c.identity < db.nextIdentity.toNat
  garbage_eq : db.counts.arenaGarbage = extents (garbageOf cs) * wordBytes
  first_eq : db.firstReducible.isValid = true → ∃ c, At 0 cs db.firstReducible.offset c

theorem holds_nil : Holds {} [] :=
  ⟨rfl, by simp, by decide, .nil, by simp, rfl, fun h => absurd h (by decide)⟩

/-- A step beside the long clauses: it changes none of them, and no row of statistics. -/
structure Beside (db db' : Database) : Prop where
  arena_eq : db'.arena = db.arena
  table_eq : db'.table = db.table
  first_eq : db'.firstReducible = db.firstReducible
  garbage_eq : db'.counts.arenaGarbage = db.counts.arenaGarbage
  next_le : db.nextIdentity.toNat ≤ db'.nextIdentity.toNat

namespace Beside

variable {db db₁ db₂ : Database}

theorem refl (db : Database) : Beside db db := ⟨rfl, rfl, rfl, rfl, Nat.le_refl _⟩

theorem trans (h₁ : Beside db db₁) (h₂ : Beside db₁ db₂) : Beside db db₂ :=
  ⟨h₂.arena_eq.trans h₁.arena_eq, h₂.table_eq.trans h₁.table_eq, h₂.first_eq.trans h₁.first_eq,
    h₂.garbage_eq.trans h₁.garbage_eq, Nat.le_trans h₁.next_le h₂.next_le⟩

end Beside

/-- Whatever an action comes to, it is a step beside the long clauses. -/
def Sparing {α : Type} (act : Action α) : Prop :=
  ∀ db, ∃ r db', Yields act db r db' ∧ Beside db db'

section Sparing

variable {α β : Type} {act : Action α} {f : α → Action β}

theorem sparing_pure (a : α) : Sparing (pure a) := fun db => ⟨_, db, yields_pure a db, .refl db⟩

theorem sparing_throw (e : Error) : Sparing (throw e : Action α) :=
  fun db => ⟨_, db, yields_throw e db, .refl db⟩

theorem sparing_log (m : Message) : Sparing (log m) := fun db => ⟨_, db, yields_log m, .refl db⟩

theorem sparing_recordAt (offset : Nat) : Sparing (recordAt offset) :=
  fun db => ⟨_, db, yields_recordAt offset, .refl db⟩

theorem sparing_offsetOf (wrap : ArenaError → Error) (r : Reference) : Sparing (offsetOf wrap r) := by
  intro db
  cases resolved : db.arena.resolve? r with
  | none => exact ⟨_, db, yields_offsetOf_none resolved wrap, .refl db⟩
  | some o => exact ⟨_, db, yields_offsetOf resolved wrap, .refl db⟩

theorem sparing_announce (e : Event) : Sparing (announce e) :=
  fun _ => ⟨_, _, yields_announce e, ⟨rfl, rfl, rfl, rfl, Nat.le_refl _⟩⟩

theorem sparing_recount {g : Counts → Counts} (h : ∀ n, (g n).arenaGarbage = n.arenaGarbage) :
    Sparing (recount g) :=
  fun _ => ⟨_, _, yields_recount g, ⟨rfl, rfl, rfl, h _, Nat.le_refl _⟩⟩

theorem sparing_modify {g : Database → Database}
    (blind : ∀ db ms, g (Logged.withMessages ms db) = Logged.withMessages ms (g db))
    (h : ∀ db, Beside db (g db)) : Sparing (modify g) :=
  fun db => ⟨_, _, yields_modify (blind db), h db⟩

theorem Sparing.bind (h : Sparing act) (k : ∀ a, Sparing (f a)) : Sparing (act >>= f) := by
  intro db
  obtain ⟨r, db₁, h₁, hb₁⟩ := h db
  cases r with
  | error e => exact ⟨_, db₁, h₁.bind_error, hb₁⟩
  | ok a =>
    obtain ⟨r, db₂, h₂, hb₂⟩ := k a db₁
    exact ⟨r, db₂, h₁.bind h₂, hb₁.trans hb₂⟩

theorem Sparing.get_bind {g : Database → Action α}
    (blind : ∀ db ms, g (Logged.withMessages ms db) = g db) (h : ∀ db, Sparing (g db)) :
    Sparing (get >>= g) := by
  intro db
  obtain ⟨r, db', h', hb⟩ := h db db
  exact ⟨r, db', Yields.get_bind (blind db) h', hb⟩

theorem sparing_forM {g : α → Action PUnit} (h : ∀ a, Sparing (g a)) (xs : List α) :
    Sparing (xs.forM g) := by
  induction xs with
  | nil => exact sparing_pure _
  | cons x xs ih => exact (h x).bind fun _ => ih

end Sparing

namespace Holds

variable {db : Database} {cs ds : List Cell} {c : Cell} {k : Nat} {r : Reference}

theorem tiled (h : db.Holds cs) : db.arena.Tiled cs := ⟨h.arena_eq, h.sound⟩

theorem fits' (h : db.Holds cs) : extents cs < 4294967295 := h.fits

theorem fits_word (h : db.Holds cs) : extents cs < 4294967296 := Nat.lt_succ_of_lt h.fits

/-- A reference to a cell is resolved. -/
theorem resolve?_eq (h : db.Holds cs) (hc : At 0 cs r.offset c) :
    db.arena.resolve? r = some r.offset :=
  h.tiled.resolve?_eq (by rw [h.tiled.size_eq]; exact h.fits) hc

theorem offset_ofOffset (h : db.Holds cs) (hc : At 0 cs k c) :
    (Reference.ofOffset k).offset = k := by
  have := hc.bounds.2
  have := h.fits'
  exact toNat_ofOffset (by omega)

/-- A database goes on to hold cells whose cores stay. -/
theorem of_core (h : db.Holds cs) (hcore : ds.map core = cs.map core) :
    Holds { db with arena := .ofCells ds } ds := by
  constructor
  case arena_eq => rfl
  case sound => exact sound_of_core hcore h.sound
  case fits =>
    rw [extents_eq_of_map_eq hcore]
    exact h.fits
  case ascending =>
    rw [map_eq_of_core identity_eq_of_core hcore]
    exact h.ascending
  case below =>
    intro d hd
    have : d.identity ∈ cs.map identity :=
      map_eq_of_core identity_eq_of_core hcore ▸ List.mem_map_of_mem hd
    obtain ⟨c, hc, hid⟩ := List.mem_map.1 this
    exact hid ▸ h.below c hc
  case garbage_eq =>
    rw [extents_eq_of_map_eq (garbageOf_eq_of_core hcore)]
    exact h.garbage_eq
  case first_eq =>
    intro valid
    obtain ⟨c, hc⟩ := h.first_eq valid
    obtain ⟨d, hd, -⟩ := hc.of_map_eq hcore
    exact ⟨d, hd⟩

/-- A step beside the long clauses keeps them. -/
theorem beside {db' : Database} (h : db.Holds cs) (hb : Beside db db') : db'.Holds cs := by
  constructor
  case arena_eq => exact hb.arena_eq.trans h.arena_eq
  case sound => exact h.sound
  case fits => exact h.fits
  case ascending => exact h.ascending
  case below => exact fun c hc => Nat.lt_of_lt_of_le (h.below c hc) hb.next_le
  case garbage_eq =>
    rw [hb.garbage_eq]
    exact h.garbage_eq
  case first_eq =>
    rw [hb.first_eq]
    exact h.first_eq

end Holds

end Database

end ClauseStore
