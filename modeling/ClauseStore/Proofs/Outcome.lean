import ClauseStore.Context

/-!
Steps as functions, up to the log. A step that may fail, and keeps its state where it does, is read as
a function from a state to its result and the state afterwards. Log messages decide nothing, so what a
step yields is stated for every log that the state may hold before it, and leaves open which messages
it has added. The rules compute what a step yields through the operators and the small steps from
which everything done to a database or a context is built.
-/

namespace ClauseStore

/-- States that hold log messages. -/
class Logged (σ : Type) where
  messages : σ → Array Message
  /-- the state with another log -/
  withMessages : Array Message → σ → σ
  withMessages_messages (s : σ) : withMessages (messages s) s = s

open Logged

instance decidableEqExcept {ε α : Type} [DecidableEq ε] [DecidableEq α] : DecidableEq (Except ε α)
  | .ok a, .ok b => decidable_of_iff (a = b) (by simp)
  | .error e, .error e' => decidable_of_iff (e = e') (by simp)
  | .ok _, .error _ => .isFalse nofun
  | .error _, .ok _ => .isFalse nofun

variable {ε σ α β : Type} {s s₁ s₂ : σ}

/-- What a step comes to on a state: its result, and the state afterwards. -/
def outcome (act : ExceptT ε (StateM σ) α) (s : σ) : Except ε α × σ := act s

/-- A step comes to a result and a state, up to the log. -/
def Yields [Logged σ] (act : ExceptT ε (StateM σ) α) (s : σ) (r : Except ε α) (s' : σ) : Prop :=
  ∀ ms, ∃ ms', outcome act (withMessages ms s) = (r, withMessages ms' s')

instance : Logged Database where
  messages db := db.messages
  withMessages ms db := { db with messages := ms }
  withMessages_messages _ := rfl

instance {π : Type} : Logged (Context π) where
  messages c := c.database.messages
  withMessages ms c := { c with database := withMessages ms c.database }
  withMessages_messages _ := rfl

theorem outcome_bind (act : ExceptT ε (StateM σ) α) (f : α → ExceptT ε (StateM σ) β) (s : σ) :
    outcome (act >>= f) s =
      match outcome act s with
      | (.ok a, s') => outcome (f a) s'
      | (.error e, s') => (.error e, s') := by
  show ExceptT.bind act f s = _
  simp only [ExceptT.bind, ExceptT.mk, outcome, bind, StateT.bind]
  rcases act s with ⟨_ | _, _⟩ <;> rfl

theorem outcome_get (s : σ) : outcome (get : ExceptT ε (StateM σ) σ) s = (.ok s, s) := rfl

/-- What is done to each image is done to each member. -/
theorem forM_map_eq {γ : Type} (g : β → ExceptT ε (StateM σ) PUnit) (h : γ → β) (xs : List γ) :
    (xs.map h).forM g = xs.forM fun x => g (h x) := by
  induction xs with
  | nil => rfl
  | cons x xs ih =>
    show (g (h x) >>= fun _ => (xs.map h).forM g) = _
    rw [ih]
    rfl

/-! ### Operators -/

section Operators

variable [Logged σ] {act : ExceptT ε (StateM σ) α} {f : α → ExceptT ε (StateM σ) β}

theorem Yields.outcome_eq {r : Except ε α} (h : Yields act s r s₁) :
    ∃ ms, outcome act s = (r, withMessages ms s₁) := by
  obtain ⟨ms, hms⟩ := h (messages s)
  rw [withMessages_messages] at hms
  exact ⟨ms, hms⟩

theorem yields_pure (a : α) (s : σ) : Yields (pure a : ExceptT ε (StateM σ) α) s (.ok a) s :=
  fun ms => ⟨ms, rfl⟩

theorem yields_throw (e : ε) (s : σ) :
    Yields (throw e : ExceptT ε (StateM σ) α) s (.error e) s :=
  fun ms => ⟨ms, rfl⟩

/-- A sequence goes on behind the result of its first step. -/
theorem Yields.bind {a : α} {r : Except ε β} (h : Yields act s (.ok a) s₁)
    (k : Yields (f a) s₁ r s₂) : Yields (act >>= f) s r s₂ := by
  intro ms
  obtain ⟨ms₁, h₁⟩ := h ms
  obtain ⟨ms₂, h₂⟩ := k ms₁
  refine ⟨ms₂, ?_⟩
  rw [outcome_bind, h₁]
  exact h₂

/-- A sequence comes to a result where what is behind its first step does. -/
theorem Yields.exists_bind {a : α} {r : Except ε β} (h : Yields act s (.ok a) s₁)
    (k : ∃ s₂, Yields (f a) s₁ r s₂) : ∃ s₂, Yields (act >>= f) s r s₂ := by
  rcases k with ⟨s₂, k⟩
  exact ⟨s₂, h.bind k⟩

/-- A sequence whose first step fails ends there. -/
theorem Yields.bind_error {e : ε} (h : Yields act s (.error e) s₁) :
    Yields (act >>= f) s (.error e) s₁ := by
  intro ms
  obtain ⟨ms₁, h₁⟩ := h ms
  refine ⟨ms₁, ?_⟩
  rw [outcome_bind, h₁]

/-- What reads the state, but not its log, may be given the state. -/
theorem Yields.get_bind {g : σ → ExceptT ε (StateM σ) β} {r : Except ε β}
    (blind : ∀ ms, g (withMessages ms s) = g s) (h : Yields (g s) s r s₁) :
    Yields (get >>= g) s r s₁ := by
  intro ms
  obtain ⟨ms₁, h₁⟩ := h ms
  refine ⟨ms₁, ?_⟩
  rw [outcome_bind, outcome_get]
  dsimp only
  rw [blind, h₁]

theorem yields_modify {g : σ → σ} (blind : ∀ ms, g (withMessages ms s) = withMessages ms (g s)) :
    Yields (modify g : ExceptT ε (StateM σ) PUnit) s (.ok ⟨⟩) (g s) :=
  fun ms => ⟨ms, congrArg (Prod.mk _) (blind ms)⟩

/-- What is done to each member of a list is done to the first and then to the others. -/
theorem Yields.forM_cons {g : α → ExceptT ε (StateM σ) PUnit} {x : α} {xs : List α}
    {r : Except ε PUnit} (h : Yields (g x) s (.ok ⟨⟩) s₁) (k : Yields (xs.forM g) s₁ r s₂) :
    Yields ((x :: xs).forM g) s r s₂ :=
  h.bind k

theorem yields_forM_nil {g : α → ExceptT ε (StateM σ) PUnit} :
    Yields (([] : List α).forM g) s (.ok ⟨⟩) s :=
  yields_pure _ _

/-- Steps that only log leave no trace. -/
theorem yields_forM_same {g : α → ExceptT ε (StateM σ) PUnit} {xs : List α}
    (h : ∀ x ∈ xs, Yields (g x) s (.ok ⟨⟩) s) : Yields (xs.forM g) s (.ok ⟨⟩) s := by
  induction xs with
  | nil => exact yields_forM_nil
  | cons x xs ih => exact (h x (by simp)).forM_cons (ih fun y hy => h y (by simp [hy]))

/-- What is read for each member of a list is read for all of them. -/
theorem yields_mapM_same {g : α → ExceptT ε (StateM σ) β} {f : α → β} {xs : List α}
    (h : ∀ x ∈ xs, Yields (g x) s (.ok (f x)) s) : Yields (xs.mapM g) s (.ok (xs.map f)) s := by
  induction xs with
  | nil =>
    rw [List.mapM_nil]
    exact yields_pure _ _
  | cons x xs ih =>
    rw [List.mapM_cons]
    exact (h x (by simp)).bind ((ih fun y hy => h y (by simp [hy])).bind (yields_pure _ _))

theorem yields_filterAuxM_same {g : α → ExceptT ε (StateM σ) Bool} {f : α → Bool} {xs : List α}
    (h : ∀ x ∈ xs, Yields (g x) s (.ok (f x)) s) (acc : List α) :
    Yields (List.filterAuxM g xs acc) s (.ok ((xs.filter f).reverse ++ acc)) s := by
  induction xs generalizing acc with
  | nil => exact yields_pure _ _
  | cons x xs ih =>
    have rest := ih fun y hy => h y (by simp [hy])
    cases test : f x with
    | true =>
      rw [List.filter_cons_of_pos test, List.reverse_cons, List.append_assoc]
      exact (h x (by simp)).bind (by rw [test]; exact rest (x :: acc))
    | false =>
      rw [List.filter_cons_of_neg (by simp [test])]
      exact (h x (by simp)).bind (by rw [test]; exact rest acc)

/-- What is kept by a test that only reads is what the test holds of. -/
theorem yields_filterM_same {g : α → ExceptT ε (StateM σ) Bool} {f : α → Bool} {xs : List α}
    (h : ∀ x ∈ xs, Yields (g x) s (.ok (f x)) s) : Yields (xs.filterM g) s (.ok (xs.filter f)) s := by
  refine (yields_filterAuxM_same h []).bind ?_
  rw [List.append_nil, List.reverse_reverse]
  exact yields_pure _ _

end Operators

/-! ### Steps on a database -/

namespace Database

variable {db : Database}

theorem yields_log (m : Message) : Yields (log m) db (.ok ()) db :=
  fun ms => ⟨ms.push m, rfl⟩

theorem yields_logIf (c : Bool) (m : Message) : Yields (logIf c m) db (.ok ()) db := by
  cases c
  · exact yields_pure () db
  · exact yields_log m

theorem yields_announce (e : Event) :
    Yields (announce e) db (.ok ()) { db with events := db.events.push e } :=
  fun ms => ⟨ms, rfl⟩

theorem yields_recount (f : Counts → Counts) :
    Yields (recount f) db (.ok ()) { db with counts := f db.counts } :=
  fun ms => ⟨ms, rfl⟩

theorem yields_reviseHeader (offset : Nat) (f : Header → Header) :
    Yields (reviseHeader offset f) db (.ok ()) { db with arena := db.arena.revise offset f } :=
  fun ms => ⟨ms, rfl⟩

theorem yields_recordAt (offset : Nat) :
    Yields (recordAt offset) db (.ok (db.arena.record offset)) db :=
  fun ms => ⟨ms, rfl⟩

theorem yields_refuse (m : Message) (e : Error) : Yields (refuse m e : Action α) db (.error e) db :=
  (yields_log m).bind (yields_throw e db)

theorem yields_refuseIf (c : Bool) (m : Message) (e : Error) :
    Yields (refuseIf c m e) db (if c then .error e else .ok ()) db := by
  cases c
  · exact yields_pure () db
  · exact yields_refuse m e

theorem yields_failIf (c : Bool) (e : Error) :
    Yields (failIf c e) db (if c then .error e else .ok ()) db := by
  cases c
  · exact yields_pure () db
  · exact yields_throw e db

/-- A reference that stands for an offset is resolved. -/
theorem yields_offsetOf {r : Reference} {o : Nat} (h : db.arena.resolve? r = some o)
    (wrap : ArenaError → Error) : Yields (offsetOf wrap r) db (.ok o) db := by
  refine Yields.get_bind (fun _ => rfl) ?_
  simp only [h]
  exact yields_pure o db

/-- A reference that stands for none is refused. -/
theorem yields_offsetOf_none {r : Reference} (h : db.arena.resolve? r = none)
    (wrap : ArenaError → Error) :
    Yields (offsetOf wrap r) db (.error (wrap .invalidReference)) db := by
  refine Yields.get_bind (fun _ => rfl) ?_
  simp only [h]
  exact yields_refuse _ _

end Database

/-! ### Steps on a context -/

namespace Context

variable {π : Type} {c c' : Context π}

theorem yields_onDatabase {act : Action α} {r : Except Error α} {db : Database}
    (h : Yields act c.database r db) :
    Yields (onDatabase act) c r { c with database := db } := by
  intro ms
  obtain ⟨ms', h'⟩ := h ms
  refine ⟨ms', ?_⟩
  show ((outcome act (withMessages ms c.database)).1,
    { c with database := (outcome act (withMessages ms c.database)).2 }) = _
  rw [h']
  rfl

theorem yields_onPredictor (act : Attempt π α) :
    Yields (onPredictor act) c ((outcome act c.predictor).1.mapError .predictor)
      { c with predictor := (outcome act c.predictor).2 } :=
  fun ms => ⟨ms, rfl⟩

theorem outcome_onDatabase (act : Action α) (c : Context π) :
    outcome (onDatabase act) c =
      ((outcome act c.database).1, { c with database := (outcome act c.database).2 }) := rfl

/-- A loop of steps on the database is a step on the database. -/
theorem forM_onDatabase (g : α → Action PUnit) (xs : List α) :
    (xs.forM fun x => onDatabase (g x) : Run π PUnit) = onDatabase (xs.forM g) := by
  induction xs with
  | nil => rfl
  | cons x xs ih =>
    funext c
    show outcome (onDatabase (g x) >>= fun _ => xs.forM fun x => onDatabase (g x)) c =
      outcome (onDatabase (g x >>= fun _ => xs.forM g)) c
    rw [ih, outcome_bind, outcome_onDatabase, outcome_onDatabase, outcome_bind]
    rcases outcome (g x) c.database with ⟨_ | _, _⟩ <;> rfl

/-- A failure that is observed is a result. -/
theorem yields_observing {run : Run π α} {r : Except Error α} (h : Yields run c r c') :
    Yields (observing run) c (.ok r) c' := by
  intro ms
  obtain ⟨ms', h'⟩ := h ms
  refine ⟨ms', ?_⟩
  show (Except.ok (outcome run (withMessages ms c)).1, (outcome run (withMessages ms c)).2) = _
  rw [h']

theorem yields_liftExcept (r : Except Error α) : Yields (liftExcept r) c r c := fun ms => ⟨ms, rfl⟩

theorem yields_log (m : Message) : Yields (log m) c (.ok ()) c :=
  yields_onDatabase (Database.yields_log m)

end Context

end ClauseStore
