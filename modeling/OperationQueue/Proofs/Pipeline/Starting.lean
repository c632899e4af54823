/-
# What a pass changes

A scheduling pass marks operations as running and changes nothing else: whatever it
hands out, the queue afterwards is the queue before with those operations marked. So a
pass, and every change that closes with one, keeps a queue settled.
-/
import OperationQueue.Proofs.Pipeline.Settled

namespace OperationQueue

/-- Mark an operation as running if its identity is listed. -/
def Operation.activate (ids : List Identity) (op : Operation) : Operation :=
  if op.id ∈ ids then { op with status := .active } else op

namespace Operation

variable (ids : List Identity)

theorem keepsPlace_activate : KeepsPlace (activate ids) :=
  (KeepsPlace.status .active).ite (·.id ∈ ids)

theorem isTerminal_activate {op : Operation} (h : op.isTerminal = false) :
    (op.activate ids).isTerminal = false := by
  rw [activate]
  split
  · rfl
  · exact h

theorem activate_nil (op : Operation) : op.activate [] = op := by
  simp [activate]

/-- Marking one operation and then some others is marking all of them. -/
theorem activate_cons (id : Identity) (op : Operation) :
    op.activate (id :: ids) =
      activate ids (if op.id = id then { op with status := .active } else op) := by
  by_cases hid : op.id = id
  · simp [activate, hid]
  · simp [activate, hid]

end Operation

namespace Pipeline

variable {p : Pipeline}

/-- The queue after a run of starts is the queue before with the started operations
marked as running. -/
theorem startUpTo_snd (h : p.ids.Nodup) (now : Instant) (n : Nat) :
    (startUpTo now n p).2 =
      p.mapOperations (Operation.activate ((startUpTo now n p).1.map (·.id))) := by
  induction n generalizing p with
  | zero => exact (mapOperations_eq_self fun op _ => op.activate_nil).symm
  | succ n ih =>
      rw [startUpTo]
      by_cases hslot : p.hasFreeSlot = true
      · rw [if_pos hslot]
        cases hnext : p.nextReady? now with
        | none => exact (mapOperations_eq_self fun op _ => op.activate_nil).symm
        | some place =>
            dsimp only
            rw [update_eq_mapOperations h]
            have hids : ∀ op : Operation, (if op.id = place.operation.id then
                { op with status := .active } else op).id = op.id :=
              ((Operation.KeepsPlace.status .active).ite (·.id = place.operation.id)).id
            rw [ih (by rwa [ids_mapOperations hids]), mapOperations_mapOperations, List.map_cons]
            exact mapOperations_congr fun op _ => (Operation.activate_cons _ _ op).symm
      · rw [if_neg hslot]
        exact (mapOperations_eq_self fun op _ => op.activate_nil).symm

/-- A pass only marks as running what it hands out. -/
theorem schedule_snd (h : p.ids.Nodup) (now : Instant) :
    (p.schedule now).2 =
      p.mapOperations (Operation.activate ((p.schedule now).1.map (·.id))) := by
  rw [schedule]
  split
  · exact (mapOperations_eq_self fun op _ => op.activate_nil).symm
  · exact startUpTo_snd h now _

theorem IsSettled.schedule (h : p.IsSettled) (now : Instant) : (p.schedule now).2.IsSettled := by
  rw [schedule_snd h.nodup_ids]
  exact h.mapOperations (Operation.keepsPlace_activate _) fun op hop =>
    Operation.isTerminal_activate _ (h.unfinished op hop)

/-- Announcing changes nothing but what was announced last. -/
theorem announce_snd (dispatch : List Operation) (events : List Event) :
    (p.announce dispatch events).2 = { p with activeFlag := p.isActive } := by
  rw [announce]
  split
  · next hsame => rw [hsame]
  · rfl

@[simp]
theorem operations_announce (dispatch : List Operation) (events : List Event) :
    (p.announce dispatch events).2.operations = p.operations := by
  rw [announce_snd]
  rfl

theorem dispatch_announce (dispatch : List Operation) (events : List Event) :
    (p.announce dispatch events).1.dispatch = dispatch := by
  rw [announce]
  split <;> rfl

theorem IsSettled.announce (h : p.IsSettled) (dispatch : List Operation) (events : List Event) :
    (p.announce dispatch events).2.IsSettled := by
  rw [announce_snd]
  exact h.of_eq rfl rfl rfl

theorem IsSettled.reschedule (h : p.IsSettled) (now : Instant) (events : List Event) :
    (p.reschedule now events).2.IsSettled :=
  (h.schedule now).announce _ events

end Pipeline

end OperationQueue
