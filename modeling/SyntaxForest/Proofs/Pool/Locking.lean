import SyntaxForest.Pool.Lock
/-!
# Nested uses of a lock

A lock program logs whether it sees the lock held, but not where. `LockStep.placeAll` runs
the same program (`erases_placeAll`) and notes with every entry how many run bodies it was
made in. From the lock being held as the start and the depth say (`Sees`), one step leads
to the same, whether it ends well or fails (`sees_place`), and so does a program. Main
statement: `lock_is_held_by_the_outermost_run`.
-/

namespace SyntaxForest

/-- A lock, and the log of its use in which every entry has the number of run bodies around
it. -/
structure PlacedLog where
  held : Bool
  entries : List (Nat × LockEntry) := []

namespace PlacedLog

def hold (isHeld : Bool) (p : PlacedLog) : PlacedLog := { p with held := isHeld }

def record (depth : Nat) (entry : LockEntry) (p : PlacedLog) : PlacedLog :=
  { p with entries := p.entries ++ [(depth, entry)] }

/-- The entries without their places, after those of an earlier log. -/
def plain (earlier : List LockEntry) (p : PlacedLog) : LockState :=
  { held := p.held, log := earlier ++ p.entries.map Prod.snd }

theorem plain_record (earlier : List LockEntry) (depth : Nat) (entry : LockEntry) (p : PlacedLog) :
    (p.record depth entry).plain earlier = (p.plain earlier).record entry := by
  simp [plain, record, LockState.record]

/-- The lock is held exactly if it was at the start or a run body is around, and so it was
wherever it was read. -/
structure Sees (started : Bool) (depth : Nat) (p : PlacedLog) : Prop where
  held : p.held = true ↔ started = true ∨ 0 < depth
  reads : ∀ place isHeld, (place, .held isHeld) ∈ p.entries → (isHeld = true ↔ started = true ∨ 0 < place)

variable {started : Bool} {depth : Nat} {p q : PlacedLog}

theorem Sees.record {entry : LockEntry} (h : p.Sees started depth)
    (hentry : ∀ isHeld, entry = .held isHeld → isHeld = p.held) :
    (p.record depth entry).Sees started depth := by
  refine ⟨h.held, fun place isHeld hmem => ?_⟩
  rcases List.mem_append.1 hmem with hold | hnew
  · exact h.reads place isHeld hold
  · obtain ⟨rfl, heq⟩ := Prod.mk.inj (List.mem_singleton.1 hnew)
    rw [hentry isHeld heq.symm]
    exact h.held

/-- Inside the body of a run the lock is held, however it was outside. -/
theorem Sees.enter (h : p.Sees started depth) : (p.hold true).Sees started (depth + 1) :=
  ⟨by simp [hold], h.reads⟩

theorem Sees.leave (h : p.Sees started depth) (free : p.held = false) (hbody : q.Sees started (depth + 1)) :
    (q.hold false).Sees started depth :=
  ⟨by rw [← h.held, free, hold], hbody.reads⟩

theorem Sees.held_eq (h : p.Sees started depth) (h' : q.Sees started depth) : q.held = p.held := by
  rw [Bool.eq_iff_iff, h'.held, h.held]

end PlacedLog

namespace LockStep

variable {category : PoolCategory}

/-! ## The same program with places -/

mutual

/-- Run a step that stands in so many run bodies. -/
def place (category : PoolCategory) (depth : Nat) : LockStep → Act PlacedLog Unit
  | .observe => modify (fun p => p.record depth (.held p.held))
  | .fail message => Act.hostFault message
  | .run body result => do
    Act.locked category PlacedLog.held PlacedLog.hold (placeAll category (depth + 1) body)
    modify (PlacedLog.record depth (.returned result))
  | .attempt body => do
    match ← (placeAll category depth body).attempt with
    | .ok _ => pure ()
    | .error fault => modify (PlacedLog.record depth (.caught fault))

def placeAll (category : PoolCategory) (depth : Nat) : List LockStep → Act PlacedLog Unit
  | [] => pure ()
  | step :: rest => do
    place category depth step
    placeAll category depth rest

end

/-- Places apart, the first action does what the second does, whatever was logged before. -/
def Erases {α : Type} (placed : Act PlacedLog α) (plain : Act LockState α) : Prop :=
  ∀ earlier p, plain.exec (p.plain earlier) = ((placed.exec p).1, (placed.exec p).2.plain earlier)

theorem Erases.bind {α β : Type} {placed : Act PlacedLog α} {plain : Act LockState α}
    {placedNext : α → Act PlacedLog β} {plainNext : α → Act LockState β} (h : Erases placed plain)
    (hnext : ∀ a, Erases (placedNext a) (plainNext a)) :
    Erases (placed >>= placedNext) (plain >>= plainNext) := by
  intro earlier p
  rw [Act.exec_bind, Act.exec_bind, h earlier p]
  rcases placed.exec p with ⟨_ | a, q⟩
  · rfl
  · exact hnext a earlier q

theorem Erases.attempt {α : Type} {placed : Act PlacedLog α} {plain : Act LockState α}
    (h : Erases placed plain) : Erases placed.attempt plain.attempt := by
  intro earlier p
  rw [Act.exec_attempt, Act.exec_attempt, h earlier p]

theorem Erases.locked {α : Type} {placed : Act PlacedLog α} {plain : Act LockState α}
    (h : Erases placed plain) : Erases (Act.locked category PlacedLog.held PlacedLog.hold placed)
      (Act.locked category LockState.held LockState.hold plain) := by
  intro earlier p
  cases hheld : p.held with
  | true =>
    have hplain : (p.plain earlier).held = true := hheld
    rw [Act.exec_locked_of_held hheld, Act.exec_locked_of_held hplain]
  | false =>
    have hplain : (p.plain earlier).held = false := hheld
    rw [Act.exec_locked_of_free hheld, Act.exec_locked_of_free hplain]
    exact congrArg (fun r : Except Fault α × LockState => (r.1, r.2.hold false)) (h earlier (p.hold true))

theorem erases_record (depth : Nat) (entry : LockEntry) :
    Erases (modify (PlacedLog.record depth entry)) (modify (LockState.record entry)) := by
  intro earlier p
  rw [Act.exec_modify, Act.exec_modify, PlacedLog.plain_record]

mutual

theorem erases_place (depth : Nat) : (step : LockStep) → Erases (place category depth step) (act category step)
  | .observe => by
    intro earlier p
    rw [act, place, Act.exec_modify, Act.exec_modify, PlacedLog.plain_record]
    rfl
  | .fail message => fun _ _ => by
    rw [act, place]
    rfl
  | .run body result => by
    rw [act, place]
    exact (erases_placeAll (depth + 1) body).locked.bind (fun _ => erases_record depth _)
  | .attempt body => by
    rw [act, place]
    refine (erases_placeAll depth body).attempt.bind (fun outcome => ?_)
    cases outcome with
    | ok => exact fun _ _ => rfl
    | error fault => exact erases_record depth _

/-- Places do not change what a program does. -/
theorem erases_placeAll (depth : Nat) :
    (program : List LockStep) → Erases (placeAll category depth program) (actAll category program)
  | [] => fun _ _ => by
    rw [actAll, placeAll]
    rfl
  | step :: rest => by
    rw [actAll, placeAll]
    exact (erases_place depth step).bind (fun _ => erases_placeAll depth rest)

end

/-! ## What a program sees -/

/-- An action in so many run bodies keeps up what is seen there, also when it fails. -/
def Keeps {α : Type} (started : Bool) (depth : Nat) (action : Act PlacedLog α) : Prop :=
  ∀ p : PlacedLog, p.Sees started depth → (action.exec p).2.Sees started depth

variable {started : Bool} {depth : Nat}

theorem Keeps.bind {α β : Type} {action : Act PlacedLog α} {next : α → Act PlacedLog β}
    (h : Keeps started depth action) (hnext : ∀ a, Keeps started depth (next a)) :
    Keeps started depth (action >>= next) := by
  intro p hp
  have hmid := h p hp
  rw [Act.exec_bind]
  rcases hrun : action.exec p with ⟨_ | a, q⟩ <;> rw [hrun] at hmid
  · exact hmid
  · exact hnext a q hmid

/-- A run is refused where the lock is held; else its body sees the lock held, and the lock
is free again afterwards, as it was before. -/
theorem Keeps.locked {α : Type} {body : Act PlacedLog α} (h : Keeps started (depth + 1) body) :
    Keeps started depth (Act.locked category PlacedLog.held PlacedLog.hold body) := by
  intro p hp
  cases hheld : p.held with
  | true =>
    rw [Act.exec_locked_of_held hheld]
    exact hp
  | false =>
    rw [Act.exec_locked_of_free hheld]
    exact hp.leave hheld (h (p.hold true) hp.enter)

theorem keeps_record {entry : LockEntry} (hentry : ∀ isHeld, entry ≠ .held isHeld) :
    Keeps started depth (modify (PlacedLog.record depth entry)) := by
  intro p hp
  rw [Act.exec_modify]
  exact hp.record (fun isHeld heq => absurd heq (hentry isHeld))

mutual

theorem keeps_place (depth : Nat) : (step : LockStep) → Keeps started depth (place category depth step)
  | .observe => by
    intro p hp
    rw [place, Act.exec_modify]
    exact hp.record (fun isHeld heq => (LockEntry.held.inj heq).symm)
  | .fail message => by
    intro p hp
    rw [place, Act.exec_hostFault]
    exact hp
  | .run body result => by
    rw [place]
    exact (keeps_placeAll (depth + 1) body).locked.bind (fun _ => keeps_record nofun)
  | .attempt body => by
    rw [place]
    refine Keeps.bind (fun p hp => ?_) (fun outcome => ?_)
    · rw [Act.exec_attempt]
      exact keeps_placeAll depth body p hp
    · cases outcome with
      | ok => exact fun _ hp => hp
      | error fault => exact keeps_record nofun

theorem keeps_placeAll (depth : Nat) :
    (program : List LockStep) → Keeps started depth (placeAll category depth program)
  | [] => by
    rw [placeAll]
    exact fun _ hp => hp
  | step :: rest => by
    rw [placeAll]
    exact (keeps_place depth step).bind (fun _ => keeps_placeAll depth rest)

end

/-- A run on a free lock holds it for its body, and frees it whether the body ends well or
fails. -/
theorem exec_run_of_free {body : List LockStep} {result : Value} {t : LockState} (free : t.held = false) :
    (act category (.run body result)).exec t =
      match (actAll category body).exec (t.hold true) with
      | (.ok _, u) => (.ok (), (u.hold false).record (.returned result))
      | (.error fault, u) => (.error fault, u.hold false) := by
  rw [act, Act.exec_bind, Act.exec_locked_of_free free]
  rcases (actAll category body).exec (t.hold true) with ⟨_ | _, u⟩ <;> rfl

end LockStep

/-- Every program of reads, failures, attempts and nested runs leaves the lock as it found
it, free or held, whether it ends well or fails. With its log it notes where each entry was
made: wherever the lock is read, it is held exactly if it was held at the start or the read
stands in the body of a run. A run that finds the lock held is refused, logs nothing of its
body and leaves the lock to its holder; one that finds it free runs its body under it. -/
theorem lock_is_held_by_the_outermost_run (category : PoolCategory) (program : List LockStep) (s : LockState) :
    let placed := (LockStep.placeAll category 0 program).exec { held := s.held }
    ((LockStep.actAll category program).exec s).2.held = s.held ∧
    (LockStep.actAll category program).exec s =
      (placed.1, { held := placed.2.held, log := s.log ++ placed.2.entries.map Prod.snd }) ∧
    (∀ depth isHeld, (depth, .held isHeld) ∈ placed.2.entries → (isHeld = true ↔ s.held = true ∨ 0 < depth)) ∧
    ∀ (t : LockState) (body : List LockStep) (result : Value),
      (t.held = true → (LockStep.act category (.run body result)).exec t =
        (.error (.poolReentered category.name), t)) ∧
      (t.held = false → (LockStep.act category (.run body result)).exec t =
        match (LockStep.actAll category body).exec (t.hold true) with
        | (.ok _, u) => (.ok (), (u.hold false).record (.returned result))
        | (.error fault, u) => (.error fault, u.hold false)) := by
  intro placed
  have hfirst : PlacedLog.Sees s.held 0 { held := s.held } := ⟨by simp, by simp⟩
  have hlast : placed.2.Sees s.held 0 := LockStep.keeps_placeAll 0 program _ hfirst
  have hrun : (LockStep.actAll category program).exec s = (placed.1, placed.2.plain s.log) := by
    have herased := @LockStep.erases_placeAll category 0 program s.log { held := s.held }
    simpa [PlacedLog.plain] using herased
  refine ⟨?_, hrun, hlast.reads, fun t body result => ⟨fun held => ?_, LockStep.exec_run_of_free⟩⟩
  · rw [hrun]
    exact hfirst.held_eq hlast
  · rw [LockStep.act, Act.exec_bind, Act.exec_locked_of_held held]

-- the outer run keeps the lock after the inner one was refused
example : (LockStep.trace .int [.run [.attempt [.run [.observe] .null], .observe] .null, .observe]).log.map
    (fun entry => match entry with
      | .held isHeld => some isHeld
      | _ => none) = [none, some true, none, some false] := rfl

end SyntaxForest
