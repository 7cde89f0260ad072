import ClauseStore.Proofs.Carrying

/-!
Last uses. A conflict advances the count of conflicts, a note of use dates a clause by it, and nothing else
concerns either. So no clause was last used later than now, as long as the count does not wrap around.
-/

namespace ClauseStore

open Cell Database

/-- What is earlier and what has elapsed since add up to now. -/
theorem elapsed_add {before now : UInt64} (passed : before ≤ now) :
    (elapsed now before).toNat + before.toNat = now.toNat := by
  rw [elapsed, if_pos passed, UInt64.toNat_sub_of_le _ _ passed]
  exact Nat.sub_add_cancel (UInt64.le_iff_toNat_le.1 passed)

/-! ### Dates of clauses -/

/-- A header that keeps the last use of another. -/
def Header.Recalls (h h' : Header) : Prop := h'.touched = h.touched

namespace Cell

variable {cs ds xs ys : List Cell} {now later : UInt64}

theorem Springs.recalls (h : Springs Header.Inherits cs ds) : Springs Header.Recalls cs ds := by
  intro d hd
  obtain ⟨c, hc, inherits⟩ := h d hd
  exact ⟨c, hc, inherits.touched_eq⟩

theorem Springs.recalls_trans {es : List Cell} (first : Springs Header.Recalls cs ds)
    (second : Springs Header.Recalls ds es) : Springs Header.Recalls cs es :=
  first.trans second fun before after => Eq.trans after before

/-- A scan dates no clause anew. -/
theorem recalls_of_lasting (lasting : ds.map (revised Header.lasting) = cs.map (revised Header.lasting)) :
    Springs Header.Recalls cs ds := by
  intro d hd
  have there : d.revised Header.lasting ∈ cs.map (revised Header.lasting) :=
    lasting ▸ List.mem_map_of_mem hd
  obtain ⟨c, hc, same⟩ := List.mem_map.1 there
  refine ⟨c, hc, ?_⟩
  show (d.revised Header.lasting).header.touched = (c.revised Header.lasting).header.touched
  rw [same]

/-- No clause was last used later than now. -/
def Dated (now : UInt64) (cs : List Cell) : Prop := ∀ d ∈ cs, d.header.touched ≤ now

theorem Dated.recalled (h : Dated now cs) (springs : Springs Header.Recalls cs ds) : Dated now ds := by
  intro d hd
  obtain ⟨c, hc, same⟩ := springs d hd
  rw [same]
  exact h c hc

theorem Dated.mono (h : Dated now cs) (passed : now ≤ later) : Dated later cs :=
  fun d hd => UInt64.le_trans (h d hd) passed

end Cell

/-! ### Dates behind a reduction -/

/-- An eviction dates no clause anew. -/
theorem Eviction.recalls {plan : ScanPlan} {fraction : UInt32} {xs ys cs : List Cell} {db db' : Database}
    {r : Except Error (Option Nat)} (h : Eviction plan fraction xs ys db r db' cs) :
    Springs Header.Recalls (xs ++ ys) cs := by
  cases h with
  | failed pass => exact recalls_of_lasting (Settlement.lasting_pass pass)
  | idle pass => exact recalls_of_lasting (Settlement.lasting_pass pass)
  | unscored settled => exact recalls_of_lasting settled.lasting
  | removed settled =>
    exact (recalls_of_lasting settled.lasting).recalls_trans (springs_markAll _ _).recalls

/-- A reduction dates no clause anew. -/
theorem Reduction.recalls {π : Type} {c : Context π} {search : Snapshot} {cs ds : List Cell}
    {r : Except Error (Report × Snapshot)} {db : Database} (h : Reduction c search cs r db ds) :
    Springs Header.Recalls cs ds := by
  have evicted : ∀ {xs ys es : List Cell} {found : Except Error (Option Nat)} {db' : Database},
      flagged true (c.protects search) cs = xs ++ ys →
      Eviction c.plan c.config.reducing.fraction.value xs ys (c.database.laid (xs ++ ys)) found db' es →
      Springs Header.Recalls cs (flagged false (c.protects search) es) := by
    intro xs ys es found db' split eviction
    have protects := (springs_flagged true (c.protects search) cs).recalls
    rw [split] at protects
    exact (protects.recalls_trans eviction.recalls).recalls_trans (springs_flagged _ _ _).recalls
  cases h with
  | unstarted | unsatisfiable => exact fun d hd => ⟨d, hd, rfl⟩
  | barred => exact (springs_flagged _ _ _).recalls
  | failed split start eviction => exact evicted split eviction
  | idle part split start eviction => exact evicted split eviction
  | compacted asked split start eviction resplit =>
    have left := evicted split eviction
    rw [resplit] at left
    exact left.recalls_trans (springs_settle _ _ _ _).recalls

/-! ### Dates behind a call -/

/-- A note dates a clause by the conflicts so far, or leaves its date. -/
theorem Operation.touched_of_note {π : Type} {c : Context π} {op : Operation} {r : Reference}
    {f : Header → Header} (note : op.note? c = some (r, f)) {h : Header}
    (dated : h.touched ≤ c.counters.conflicts) : (f h).touched ≤ c.counters.conflicts := by
  cases op with
  | notePropagation | noteUip =>
    cases note
    exact UInt64.le_refl _
  | noteUsed | setReason =>
    cases note
    exact dated
  | _ => cases note

/-- A call dates clauses by the conflicts so far. -/
theorem Effect.dated {π : Type} {c c' : Context π} {cs ds : List Cell} {op : Operation}
    {r : Except Error Answer} (h : Effect c cs op r c' ds) (dated : Dated c.counters.conflicts cs) :
    Dated c.counters.conflicts ds := by
  cases h with
  | configured | beside | refused => exact dated
  | stored storage =>
    cases storage with
    | refused | binary => exact dated
    | long =>
      intro d hd
      rcases List.mem_append.1 hd with old | new
      · exact dated d old
      · obtain rfl := List.mem_singleton.1 new
        exact UInt64.le_refl _
  | noted note =>
    intro e he
    obtain ⟨k, at_e⟩ := exists_at 0 he
    obtain ⟨b, hb, rfl⟩ := at_mapAt.1 at_e
    have before := dated b hb.mem
    rw [revised, Arena.only]
    split
    · exact Operation.touched_of_note note before
    · exact before
  | marked => exact dated.recalled (springs_markAt _ cs).recalls
  | promoted => exact dated.recalled (springs_promoteAt _ cs).recalls
  | shortened split =>
    subst split
    exact dated.recalled (springs_shrunk _ _ _ _).recalls
  | collected split =>
    subst split
    exact dated.recalled (springs_settle _ _ _ _).recalls
  | reduced reduction => exact dated.recalled reduction.recalls

namespace Operation

/-- Whether a call notes a conflict. -/
def conflicts : Operation → Bool
  | noteConflict => true
  | _ => false

variable {π : Type} [Predictor π] {c : Context π} {cs : List Cell} {op : Operation}

omit [Predictor π] in
/-- A step on the database, whose result is passed on, is beside the counters. -/
theorem counters_onDatabase {α : Type} (act : Action α) (f : α → Answer) (c : Context π) :
    (outcome (do return f (← Context.onDatabase act)) c).2.counters = c.counters := by
  rw [outcome_bind, Context.outcome_onDatabase]
  rcases outcome act c.database with ⟨_ | _, _⟩ <;> rfl

/-- Only a note of a conflict changes the count of conflicts. -/
theorem conflicts_after (holds : c.database.Holds cs) (lawful : op.Lawful c) :
    (op.after c).counters.conflicts = c.counters.conflicts + UInt64.ofNat op.conflicts.toNat := by
  have still : op.conflicts = false → (op.after c).counters.conflicts = c.counters.conflicts →
      (op.after c).counters.conflicts = c.counters.conflicts + UInt64.ofNat op.conflicts.toNat := by
    intro none same
    rw [same, none]
    exact (UInt64.add_zero _).symm
  obtain ⟨c', ds, ms, after_eq, effect⟩ := Context.exists_effect holds lawful
  generalize op.answer c = answer at effect
  cases effect with
  | beside aside =>
    cases op with
    | noteConflict => rfl
    | listen | setWatching | queuePending | takePending => exact still rfl rfl
    | deleteBinary a b redundant identity =>
      exact still rfl (congrArg Counters.conflicts (counters_onDatabase _ (fun _ => .done) c))
    | connectPending =>
      exact still rfl (congrArg Counters.conflicts (counters_onDatabase _ (fun _ => .done) c))
    | _ => cases aside
  | reduced =>
    obtain ⟨r, db, ds, counters, predictor, phase, reduces, conflicts_eq, -⟩ :=
      Context.yields_reduce c holds _ lawful
    obtain ⟨ms, outcome_eq⟩ :=
      (yields_answered reduces fun result => .reported result.1 result.2).outcome_eq
    refine still rfl ?_
    rw [after, perform, outcome_eq]
    exact conflicts_eq
  | noted note =>
    refine still ?_ (congrArg (fun d => d.counters.conflicts) after_eq)
    cases op <;> first | rfl | cases note
  | refused single =>
    refine still ?_ (congrArg (fun d => d.counters.conflicts) after_eq)
    cases op <;> first | rfl | cases single
  | _ => exact still rfl (congrArg (fun d => d.counters.conflicts) after_eq)

end Operation

/-! ### Dates behind a run -/

namespace Context

variable {π : Type} [Predictor π] {c : Context π} {cs : List Cell} {ops : List Operation}

/-- No clause was last used later than now behind a run that notes no more conflicts than can be counted. -/
theorem exists_dated_run (holds : c.database.Holds cs) (dated : Dated c.counters.conflicts cs)
    (follows : c.Follows ops)
    (few : c.counters.conflicts.toNat + ops.countP Operation.conflicts < 18446744073709551616) :
    ∃ ds, (c.run ops).database.Holds ds ∧ Dated (c.run ops).counters.conflicts ds := by
  induction ops generalizing c cs with
  | nil => exact ⟨cs, holds, dated⟩
  | cons op ops ih =>
    obtain ⟨lawful, follows⟩ := follows
    obtain ⟨c', ds, ms, after_eq, effect⟩ := exists_effect holds lawful
    have split : (op :: ops).countP Operation.conflicts =
        op.conflicts.toNat + ops.countP Operation.conflicts := by
      rw [List.countP_cons, Nat.add_comm]
      cases op.conflicts <;> rfl
    rw [split] at few
    have counted : (op.after c).counters.conflicts.toNat =
        c.counters.conflicts.toNat + op.conflicts.toNat := by
      rw [Operation.conflicts_after holds lawful, UInt64.toNat_add, UInt64.toNat_ofNat']
      omega
    have passed : c.counters.conflicts ≤ (op.after c).counters.conflicts := by
      rw [UInt64.le_iff_toNat_le]
      omega
    have left : (op.after c).database.Holds ds := holds_after after_eq (effect.holds holds)
    have room : (op.after c).counters.conflicts.toNat + ops.countP Operation.conflicts <
        18446744073709551616 := by omega
    exact ih left ((effect.dated dated).mono passed) follows room

/-- Behind every lawful run that notes no more conflicts than can be counted, no clause was last used
later than now. -/
theorem touched_le_conflicts (config : Config) (predictor : π)
    (follows : (ofConfig config predictor).Follows ops)
    (few : ops.countP Operation.conflicts < 18446744073709551616) {o : Nat}
    (ho : o ∈ (((ofConfig config predictor).run ops).database.arena.walkFrom 0).1) :
    (((ofConfig config predictor).run ops).database.arena.header o).touched ≤
      ((ofConfig config predictor).run ops).counters.conflicts := by
  obtain ⟨cs, holds, dated⟩ := exists_dated_run (c := ofConfig config predictor) holds_nil
    (fun _ none => absurd none List.not_mem_nil) follows (by simpa [ofConfig] using few)
  obtain ⟨d, hd⟩ := holds.tiled.mem_walk.1 ho
  rw [holds.tiled.header_eq hd]
  exact dated d hd.mem

end Context

end ClauseStore
