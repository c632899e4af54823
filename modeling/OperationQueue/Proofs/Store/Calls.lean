/-
# Calls of a store

Whoever has a store makes calls and gets an answer to each. A call that fails gives no new state,
so the store stays as it was. Two stores are the same to such a client if they give the same
answers, whatever is called and in whichever order.
-/
import OperationQueue.Proofs.Result
import OperationQueue.Store

namespace OperationQueue

variable {σ τ α β : Type}

/-- The answers to calls that are made one after the other. -/
def answers (perform : σ → α → β × σ) : σ → List α → List β
  | _, [] => []
  | s, call :: rest => (perform s call).1 :: answers perform (perform s call).2 rest

/-- What becomes of a store by calls that are made one after the other. -/
def afterCalls (perform : σ → α → β × σ) (s : σ) (calls : List α) : σ :=
  calls.foldl (fun s call => (perform s call).2) s

/-- Stores whose answers correspond and that stay related by every call of some kind give
corresponding answers to all calls of that kind. -/
theorem answers_eq_map_of_related {perform : σ → α → β × σ} {perform' : τ → α → β × τ}
    (f : β → β) (R : σ → τ → Prop) (P : α → Prop) {calls : List α}
    (hstep : ∀ s t call, R s t → P call →
      (perform' t call).1 = f (perform s call).1 ∧ R (perform s call).2 (perform' t call).2)
    {s : σ} {t : τ} (h : R s t) (hcalls : ∀ call ∈ calls, P call) :
    answers perform' t calls = (answers perform s calls).map f ∧
      R (afterCalls perform s calls) (afterCalls perform' t calls) := by
  induction calls generalizing s t with
  | nil => exact ⟨rfl, h⟩
  | cons call rest ih =>
      obtain ⟨hanswer, hnext⟩ := hstep s t call h (hcalls call List.mem_cons_self)
      obtain ⟨hrest, hlast⟩ := ih hnext fun later hlater => hcalls later (List.mem_cons_of_mem _ hlater)
      exact ⟨List.cons_eq_cons.2 ⟨hanswer, hrest⟩, hlast⟩

namespace Store

/-- A store after a call that gave another state or failed. -/
def settle (s : σ) : Except Error (β × σ) → Except Error β × σ
  | .ok (answer, t) => (.ok answer, t)
  | .error e => (.error e, s)

/-- The same for a client who does not ask why a call failed. -/
def settle? (s : σ) (result : Except Error (β × σ)) : Option β × σ :=
  ((settle s result).1.toOption, (settle s result).2)

/-- A call that failed leaves the store as it was. -/
theorem settle?_of_eq_none {s : σ} {result : Except Error (β × σ)}
    (h : (settle? s result).1 = none) : (settle? s result).2 = s := by
  cases result with
  | ok next => cases h
  | error e => rfl

/-- An answer is that of a call that gave another state. -/
theorem exists_of_settle?_eq_some {s : σ} {result : Except Error (β × σ)} {answer : β}
    (h : (settle? s result).1 = some answer) : ∃ t, result = .ok (answer, t) := by
  cases result with
  | ok next =>
      cases h
      exact ⟨_, rfl⟩
  | error e => cases h

end Store

/-- Calls that fail alike and else give corresponding results are answered so, and the stores stay
related. -/
theorem Alike.settle? {f : β → β} {R : σ → τ → Prop} {x : Except Error (β × σ)}
    {y : Except Error (β × τ)} {s : σ} {t : τ} (h : R s t)
    (halike : Alike (fun u v => v.1 = f u.1 ∧ R u.2 v.2) x y) :
    (Store.settle? t y).1 = (Store.settle? s x).1.map f ∧
      R (Store.settle? s x).2 (Store.settle? t y).2 := by
  cases halike with
  | ok related => exact ⟨congrArg some related.1, related.2⟩
  | error e f => exact ⟨rfl, h⟩

/-! ## Calls about pipelines -/

/-- A call about the rows of pipelines. -/
inductive PipelineCall
  /-- Find a pipeline. -/
  | lookup (name : String) (previous : OrderedSet String)
  /-- Find a pipeline and give it its name, or create it. -/
  | register (name : String) (previous : OrderedSet String) (algorithm : Algorithm)
  /-- Overwrite the algorithm of a pipeline. -/
  | setAlgorithm (rowid : Int) (algorithm : Algorithm)

/-- Make a call about pipelines. The answer is the record, if there is one. -/
def PipelineCall.perform [Store σ] (s : σ) :
    PipelineCall → Except Error (Option PipelineRecord) × σ
  | .lookup name previous => (Store.lookup s name previous, s)
  | .register name previous algorithm =>
    Store.settle s ((Store.register s name previous algorithm).map fun (record, t) => (some record, t))
  | .setAlgorithm rowid algorithm =>
    Store.settle s ((Store.setAlgorithm s rowid algorithm).map fun t => (none, t))

/-! ## Calls about operations -/

/-- A call about the operations of pipelines. -/
inductive OperationCall
  /-- Write commits under a number, each for the row of a pipeline. -/
  | apply (snapshot : Snapshot) (commits : List (Int × Commit))
  /-- Replace the holds of an operation. -/
  | saveHolds (id : Identity) (holds : Holds)
  /-- Read the operations of a pipeline. -/
  | load (rowid : Int)
  /-- Read the number of the last commit. -/
  | lastSnapshot

/-- What a call about operations gives. -/
inductive OperationAnswer
  /-- The row numbers of the new operations. -/
  | applied (numbers : OrderedMap Identity Int)
  /-- The holds are replaced. -/
  | saved
  /-- The operations of a pipeline, in order. -/
  | loaded (operations : List StoredOperation)
  /-- The number of the last commit. -/
  | last (snapshot : Snapshot)
deriving DecidableEq

/-- Make a call about operations. There is no answer if it fails. -/
def OperationCall.perform [Store σ] (s : σ) : OperationCall → Option OperationAnswer × σ
  | .apply snapshot commits =>
    Store.settle? s ((Store.applyChangesets s snapshot
      (commits.map fun (rowid, c) => ⟨rowid, c.changeset⟩)).map fun (numbers, t) =>
        (.applied numbers, t))
  | .saveHolds id holds =>
    Store.settle? s ((Store.saveHolds s id holds).map fun t => (.saved, t))
  | .load rowid =>
    Store.settle? s ((Store.load s rowid).map fun operations => (.loaded operations, s))
  | .lastSnapshot => Store.settle? s ((Store.lastSnapshot s).map fun last => (.last last, s))

/-- A call about operations that fails leaves the store as it was. -/
theorem OperationCall.perform_of_eq_none [Store σ] {s : σ} {call : OperationCall}
    (h : (call.perform s).1 = none) : (call.perform s).2 = s := by
  cases call <;> exact Store.settle?_of_eq_none h

/-- Operations are the answer to no other call than that to load them. -/
theorem OperationCall.exists_eq_load [Store σ] {s : σ} {call : OperationCall}
    {operations : List StoredOperation} (h : (call.perform s).1 = some (.loaded operations)) :
    ∃ rowid, call = .load rowid ∧ Store.load s rowid = .ok operations := by
  cases call with
  | load rowid =>
      obtain ⟨_, hanswered⟩ := Store.exists_of_settle?_eq_some h
      obtain ⟨_, hload, hanswer⟩ := exists_of_map_eq_ok hanswered
      cases hanswer
      exact ⟨rowid, rfl, hload⟩
  | apply _ _ | saveHolds _ _ | lastSnapshot =>
      obtain ⟨_, hanswered⟩ := Store.exists_of_settle?_eq_some h
      obtain ⟨_, -, hanswer⟩ := exists_of_map_eq_ok hanswered
      cases hanswer

end OperationQueue
