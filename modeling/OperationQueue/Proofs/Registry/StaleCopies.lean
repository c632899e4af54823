/-
# Stale copies

An executor holds on to the operation that it was handed, and whatever it stages later it stages
with this copy, however old. Two transactions are compared here that are staged by the same calls
with copies of different age: copies to modify with have to agree in what a modification is about,
copies to move to a status in nothing but the identity. A registry that lasts cannot tell the two
transactions apart.
-/
import OperationQueue.Proofs.Registry.Isolation
import OperationQueue.Proofs.Registry.Lasting

namespace OperationQueue

/-- A call that stages a change, with the operation that the caller holds. -/
inductive Call
  /-- Mention the pipeline. -/
  | mention
  /-- Put an operation into the graph of the commit. -/
  | add (op : Operation)
  /-- Put an operation into the graph of a snapshot. -/
  | insert (op : Operation) (snapshot : Snapshot)
  /-- Change priority, dependencies and payload to those of the operation. -/
  | modify (op : Operation)
  /-- Complete the operation. -/
  | complete (op : Operation)
  /-- Skip the operation. -/
  | skip (op : Operation)
  /-- Move the operation to a status. -/
  | setStatus (op : Operation) (next : Status)

namespace Call

/-- The staging request that a call makes, if it makes one. -/
def request : Call → Option (Staging Operation)
  | .mention => none
  | .add op => some (.add op)
  | .insert op snapshot => some (.insert op snapshot)
  | .modify op => some (.modify op)
  | .complete op => some (.status op.id .completed)
  | .skip op => some (.status op.id .skipped)
  | .setStatus op next => some (.status op.id next)

/-- The same call, made with a copy that may be older. -/
inductive Alike : Call → Call → Prop
  | mention : Alike .mention .mention
  | add (op : Operation) : Alike (.add op) (.add op)
  | insert (op : Operation) (snapshot : Snapshot) :
      Alike (.insert op snapshot) (.insert op snapshot)
  | modify {op copy : Operation} (id : copy.id = op.id) (priority : copy.priority = op.priority)
      (dependencies : copy.dependencies = op.dependencies) (payload : copy.payload = op.payload) :
      Alike (.modify op) (.modify copy)
  | complete {op copy : Operation} (id : copy.id = op.id) : Alike (.complete op) (.complete copy)
  | skip {op copy : Operation} (id : copy.id = op.id) : Alike (.skip op) (.skip copy)
  | setStatus {op copy : Operation} (id : copy.id = op.id) (next : Status) :
      Alike (.setStatus op next) (.setStatus copy next)

/-- A call that asks for nothing but a status. -/
def IsStatus : Call → Prop
  | .mention | .complete _ | .skip _ | .setStatus _ _ => True
  | _ => False

/-- A call that asks for nothing but a modification. -/
def IsModification : Call → Prop
  | .mention | .modify _ => True
  | _ => False

theorem Alike.bare_request {call other : Call} (h : Alike call other) :
    other.request.map Staging.bare = call.request.map Staging.bare := by
  cases h with
  | mention => rfl
  | add op => rfl
  | insert op snapshot => rfl
  | @modify op copy id priority dependencies payload =>
      have hcontent : copy.content = op.content := by
        rw [Operation.content, Operation.content, id, priority, dependencies, payload]
      exact congrArg (fun content => some (Staging.modify content)) hcontent
  | complete id => rw [request, request, id]
  | skip id => rw [request, request, id]
  | setStatus id next => rw [request, request, id]

theorem IsStatus.exists_eq {call : Call} (h : call.IsStatus) {item : Staging Operation}
    (hitem : call.request = some item) : ∃ id next, item = .status id next := by
  cases call with
  | mention => cases hitem
  | complete op | skip op | setStatus op next =>
      cases hitem
      exact ⟨_, _, rfl⟩
  | add op | insert op snapshot | modify op => exact h.elim

theorem IsModification.exists_eq {call : Call} (h : call.IsModification) {item : Staging Operation}
    (hitem : call.request = some item) : ∃ op, item = .modify op := by
  cases call with
  | mention => cases hitem
  | modify op =>
      cases hitem
      exact ⟨op, rfl⟩
  | add op | insert op snapshot | complete op | skip op | setStatus op next => exact h.elim

end Call

namespace Transaction

/-- A transaction after one more call for a pipeline. -/
def call (tx : Transaction) (pipeline : String) (c : Call) : Transaction :=
  match c.request with
  | some item => tx.stage pipeline item
  | none => tx.touch pipeline

/-- The transaction that calls for pipelines lead to. -/
def ofCalls (calls : List (String × Call)) : Transaction :=
  calls.foldl (fun tx c => tx.call c.1 c.2) .empty

/-- The same calls for the same pipelines. -/
def CallsAlike (calls others : List (String × Call)) : Prop :=
  List.Forall₂ (fun c other => other.1 = c.1 ∧ c.2.Alike other.2) calls others

theorem bare_call (tx : Transaction) (pipeline : String) (c : Call) :
    (tx.call pipeline c).bare =
      match c.request.map Staging.bare with
      | some item => tx.bare.stage pipeline item
      | none => tx.bare.touch pipeline := by
  rw [call]
  cases c.request with
  | none => exact bare_touch tx pipeline
  | some item => exact bare_stage tx pipeline item

/-- The same calls lead to the same transaction when it is bare. -/
theorem bare_ofCalls {calls others : List (String × Call)} (h : CallsAlike calls others) :
    (ofCalls others).bare = (ofCalls calls).bare := by
  have hfold (tx ty : Transaction) (hbare : ty.bare = tx.bare) :
      (others.foldl (fun tx c => tx.call c.1 c.2) ty).bare =
        (calls.foldl (fun tx c => tx.call c.1 c.2) tx).bare := by
    induction h generalizing tx ty with
    | nil => exact hbare
    | @cons c other _ _ halike _ ih =>
        obtain ⟨hpipeline, hcall⟩ := halike
        apply ih
        rw [bare_call, bare_call, hpipeline, hbare, hcall.bare_request]
  exact hfold .empty .empty rfl

/-- Something holds of every commit of a transaction. -/
def Every (P : Commit → Prop) (tx : Transaction) : Prop :=
  ∀ name c, tx.commits.get? name = some c → P c

theorem Every.insert {P : Commit → Prop} {tx : Transaction} (h : tx.Every P) (pipeline : String)
    {d : Commit} (hd : P d) : Every P ⟨tx.commits.insert pipeline d⟩ := by
  intro name c hc
  by_cases hname : name = pipeline
  · subst hname
    rw [OrderedMap.get?_insert_self, Option.some.injEq] at hc
    exact hc ▸ hd
  · rw [OrderedMap.get?_insert_of_ne _ hname] at hc
    exact h name c hc

theorem Every.call {P : Commit → Prop} {tx : Transaction} (h : tx.Every P) (hnew : P (.new 0))
    {pipeline : String} {c : Call}
    (hcall : ∀ item, c.request = some item → ∀ d, P d → P (d.stage item)) :
    (tx.call pipeline c).Every P := by
  have hold : P (tx.commit pipeline) := by
    rw [commit]
    cases hget : tx.commits.get? pipeline with
    | none => exact hnew
    | some d => exact h pipeline d hget
  rw [Transaction.call]
  cases hrequest : c.request with
  | none => exact h.insert pipeline hold
  | some item => exact h.insert pipeline (hcall item hrequest _ hold)

/-- What every call keeps of a commit holds of every commit that the calls lead to. -/
theorem every_ofCalls {calls : List (String × Call)} (P : Commit → Prop) (hnew : P (.new 0))
    (hcalls : ∀ c ∈ calls, ∀ item, c.2.request = some item → ∀ d, P d → P (d.stage item)) :
    (ofCalls calls).Every P := by
  apply List.foldlRecOn calls _ (motive := Every P)
  · intro name c hc
    simp [empty] at hc
  · intro tx htx c hc
    exact htx.call hnew (hcalls c hc)

end Transaction

namespace Commit

variable {c d : Commit}

/-- Whether a commit is about statuses alone. -/
def OnlyStatuses (c : Commit) : Prop := c.newOperations = [] ∧ c.modified = []

/-- Whether a commit is about modifications alone. -/
def OnlyModifications (c : Commit) : Prop := c.newOperations = [] ∧ c.statuses.entries = []

/-- Where nothing is new there is nothing new to change. -/
theorem Revises.newOperations_eq_nil {f : Operation → Operation} {id : Identity}
    (h : Revises f id c d) (hnew : c.newOperations = []) : d.newOperations = [] := by
  refine List.eq_nil_iff_forall_not_mem.2 fun op hop => ?_
  rcases h.mem_newOperations hop with hop | ⟨old, hold, -, -⟩
  · rw [hnew] at hop
    cases hop
  · rw [hnew] at hold
    cases hold

theorem OnlyStatuses.setStatus (h : c.OnlyStatuses) (id : Identity) (next : Status) :
    (c.setStatus id next).OnlyStatuses := by
  rw [Commit.setStatus]
  cases hupdate : c.updateNew? id fun op => { op with staged := some next } with
  | none => exact h
  | some d =>
      have hrevises := revises_of_updateNew?_eq_some hupdate
      exact ⟨hrevises.newOperations_eq_nil h.1, hrevises.modified.trans h.2⟩

theorem OnlyModifications.modify (h : c.OnlyModifications) (op : Operation) :
    (c.modify op).OnlyModifications := by
  rw [modify_eq]
  cases hupdate : c.updateNew? op.id (replacing op) with
  | none => exact h
  | some d =>
      have hrevises := revises_of_updateNew?_eq_some hupdate
      refine ⟨hrevises.newOperations_eq_nil h.1, ?_⟩
      rw [Option.getD_some, hrevises.statuses]
      exact h.2

theorem newOperations_stamp_eq_nil (h : c.newOperations = []) (snapshot : Snapshot) :
    (c.stamp snapshot).newOperations = [] := by
  rw [← List.map_eq_nil_iff (f := (·.id)), map_id_newOperations_stamp, h]
  rfl

theorem OnlyStatuses.of_mem_changeset (h : c.OnlyStatuses) {w : RowWrite} (hw : w ∈ c.changeset) :
    (∃ id next, w = .status id next) ∨ ∃ id, w = .delete id := by
  rw [changeset_eq, newRows, revisions, h.1, h.2] at hw
  obtain ⟨e, -, rfl⟩ := List.mem_map.1 hw
  rw [statusWrite]
  split
  · exact .inr ⟨_, rfl⟩
  · exact .inl ⟨_, _, rfl⟩

theorem OnlyModifications.of_mem_changeset (h : c.OnlyModifications) {w : RowWrite}
    (hw : w ∈ c.changeset) : ∃ op, w = .modify op := by
  rw [changeset, h.1, h.2, List.map_nil, List.append_nil] at hw
  obtain ⟨op, -, rfl⟩ := List.mem_map.1 hw
  exact ⟨op, rfl⟩

end Commit

namespace Transaction

/-- Calls that ask for statuses alone lead to commits of statuses alone. -/
theorem every_onlyStatuses {calls : List (String × Call)} (h : ∀ c ∈ calls, c.2.IsStatus) :
    (ofCalls calls).Every Commit.OnlyStatuses := by
  refine every_ofCalls _ ⟨rfl, rfl⟩ fun c hc item hitem d hd => ?_
  obtain ⟨id, next, rfl⟩ := (h c hc).exists_eq hitem
  exact hd.setStatus id next

/-- Calls that ask for modifications alone lead to commits of modifications alone. -/
theorem every_onlyModifications {calls : List (String × Call)}
    (h : ∀ c ∈ calls, c.2.IsModification) : (ofCalls calls).Every Commit.OnlyModifications := by
  refine every_ofCalls _ ⟨rfl, rfl⟩ fun c hc item hitem d hd => ?_
  obtain ⟨op, rfl⟩ := (h c hc).exists_eq hitem
  exact hd.modify op

end Transaction

namespace Registry

open NumberingStore

variable {σ : Type} [Store σ] [RowStore σ] [NumberingStore σ] {r : Registry σ} {t : σ}
  {name : String} {m : Member} {now : Instant} {tx : Transaction} {snapshot : Snapshot}
  {commits : OrderedMap String Commit} {targets : List (Member × Commit)}
  {numbers : OrderedMap Identity Int} {committed : Committed σ}

/-- Every operation that stays queued and every row that stays is as it was, except for its
status. -/
def ChangesOnlyStatuses (r after : Registry σ) : Prop :=
  (∀ name n, after.members.get? name = some n → ∃ m, r.members.get? name = some m ∧
    (n.pipeline.operations.map Operation.withoutStatus).Sublist
      (m.pipeline.operations.map Operation.withoutStatus)) ∧
  ((rows after.store).map withoutStatus).Sublist ((rows r.store).map withoutStatus)

/-- All operations stay queued, all rows stay, and except for their contents they are as they
were; only those that the step of the pipeline hands out run now. -/
def ChangesOnlyContents (r : Registry σ) (committed : Committed σ) : Prop :=
  (∀ name n, committed.registry.members.get? name = some n → ∃ m, r.members.get? name = some m ∧
    ∃ step, (step = .empty ∨ (name, step) ∈ committed.steps) ∧
      n.pipeline.operations.map Operation.withoutContent =
        m.pipeline.operations.map fun op =>
          op.withoutContent.activate (step.dispatch.map (·.id))) ∧
  (rows committed.registry.store).map withoutContent = (rows r.store).map withoutContent

omit [RowStore σ] [NumberingStore σ] in
/-- What holds of every commit of a transaction, and does not depend on the number, holds of the
commits that go through. -/
theorem Carries.of_every (h : r.Carries tx snapshot commits targets numbers t) (hr : r.IsNamed)
    {P : Commit → Prop} (htx : tx.Every P) (hstamp : ∀ c, P c → P (c.stamp snapshot)) :
    ∀ target ∈ targets, P target.2 := by
  intro target htarget
  obtain ⟨staged, hstaged, heq⟩ := h.exists_stages hr target htarget
  rw [heq]
  exact hstamp staged (htx _ staged hstaged.1)

theorem IsSteady.changesOnlyStatuses (hr : r.IsSteady) (htx : tx.Every Commit.OnlyStatuses)
    (hcommit : r.commit tx now = .ok committed) :
    r.ChangesOnlyStatuses committed.registry := by
  rcases commit_cases hcommit with heq | ⟨snapshot, commits, targets, numbers, t, hcarries, heq⟩
  · rw [heq]
    exact ⟨fun name n hn => ⟨n, hn, .refl _⟩, .refl _⟩
  · obtain ⟨hdistinct, hmembers⟩ := hcarries.of_isNamed hr.isNamed
    have hsettled : ∀ target ∈ targets, target.1.pipeline.IsSettled :=
      fun target htarget => hr.settled (hmembers target htarget)
    have honly : ∀ target ∈ targets, target.2.OnlyStatuses :=
      hcarries.of_every hr.isNamed htx fun c hc =>
        ⟨Commit.newOperations_stamp_eq_nil hc.1 snapshot, hc.2⟩
    rw [heq]
    refine ⟨fun name n hn => ?_, ?_⟩
    · obtain ⟨m, hm, rfl | ⟨c, htarget, rfl⟩⟩ :=
        exists_of_get?_applyAll (r := { r with store := t }) hdistinct hmembers hsettled hn
      · exact ⟨n, hm, .refl _⟩
      · obtain ⟨hnew, hmodified⟩ := honly (m, c) htarget
        refine ⟨m, hm, Pipeline.operations_sublist_of_statuses (hr.settled hm) ?_ ?_ now⟩
        · rw [Commit.newOperations_assignRowids]
          exact List.map_eq_nil_iff.2 hnew
        · rw [Commit.modified_assignRowids]
          exact List.map_eq_nil_iff.2 hmodified
    · rw [store_applyAll]
      refine rows_sublist_of_statuses (fun change hchange w hw => ?_) hcarries.written
      obtain ⟨target, htarget, rfl⟩ := List.mem_map.1 hchange
      exact (honly target htarget).of_mem_changeset hw

theorem HasRowids.changesOnlyContents (h : r.HasRowids) (hr : r.IsSteady)
    (htx : tx.Every Commit.OnlyModifications) (hcommit : r.commit tx now = .ok committed) :
    r.ChangesOnlyContents committed := by
  rcases of_commit_eq_ok hcommit with
    ⟨-, -, -, hsame⟩ | ⟨-, -, commits, targets, numbers, t, hcarries, happlied⟩
  · rw [ChangesOnlyContents, hsame]
    refine ⟨fun name n hn => ⟨n, hn, .empty, .inl rfl, ?_⟩, rfl⟩
    exact List.map_congr_left fun op _ => (Operation.activate_nil _).symm
  · obtain ⟨hdistinct, hmembers⟩ := hcarries.of_isNamed hr.isNamed
    have hsettled : ∀ target ∈ targets, target.1.pipeline.IsSettled :=
      fun target htarget => hr.settled (hmembers target htarget)
    have honly : ∀ target ∈ targets, target.2.OnlyModifications :=
      hcarries.of_every hr.isNamed htx fun c hc =>
        ⟨Commit.newOperations_stamp_eq_nil hc.1 committed.snapshot, hc.2⟩
    have hsteps := congrArg Prod.fst happlied
    have hregistry := congrArg Prod.snd happlied
    dsimp only at hsteps hregistry
    rw [applyAll_fst hsettled] at hsteps
    rw [ChangesOnlyContents, ← hregistry, ← hsteps]
    refine ⟨fun name n hn => ?_, ?_⟩
    · obtain ⟨m, hm, rfl | ⟨c, htarget, rfl⟩⟩ :=
        exists_of_get?_applyAll (r := { r with store := t }) hdistinct hmembers hsettled hn
      · refine ⟨n, hm, .empty, .inl rfl, ?_⟩
        exact List.map_congr_left fun op _ => (Operation.activate_nil _).symm
      · obtain ⟨hnew, hstatuses⟩ := honly (m, c) htarget
        refine ⟨m, hm, (m.pipeline.applyCommit (c.assignRowids numbers) now).1, .inr ?_, ?_⟩
        · exact List.mem_map.2 ⟨(m, c), htarget, by rw [hr.isNamed hm]⟩
        · refine Pipeline.operations_eq_of_modifications (hr.settled hm) (h.queued hm) ?_ ?_ now
          · rw [Commit.newOperations_assignRowids]
            exact List.map_eq_nil_iff.2 hnew
          · exact hstatuses
    · rw [store_applyAll]
      refine rows_eq_of_modifications h.store (fun change hchange w hw => ?_) hcarries.written
      obtain ⟨target, htarget, rfl⟩ := List.mem_map.1 hchange
      exact (honly target htarget).of_mem_changeset hw

/-- Stale copies cannot leak. A registry that lasts makes of the same calls the same, whatever the
copies carry that the calls are handed: it gives the same answer, with the same steps, and has the
same store and the same queues afterwards. Calls that ask for statuses alone change nothing else in
what stays queued and stored. Calls that ask for modifications alone leave everything queued and
stored, and change no status in it but of the operations that are handed out by the pass behind
them. -/
theorem Lasting.commit_alike (h : Lasting r) {calls others : List (String × Call)}
    (halike : Transaction.CallsAlike calls others) (now : Instant) :
    r.commit (.ofCalls others) now = r.commit (.ofCalls calls) now ∧
      ∀ committed, r.commit (.ofCalls calls) now = .ok committed →
        ((∀ c ∈ calls, c.2.IsStatus) → r.ChangesOnlyStatuses committed.registry) ∧
        ((∀ c ∈ calls, c.2.IsModification) → r.ChangesOnlyContents committed) := by
  have hsteady := h.live.isSteady
  refine ⟨?_, fun committed hcommit => ⟨fun hcalls => ?_, fun hcalls => ?_⟩⟩
  · rw [← h.hasRowids.commit_bare hsteady, Transaction.bare_ofCalls halike,
      h.hasRowids.commit_bare hsteady]
  · exact hsteady.changesOnlyStatuses (Transaction.every_onlyStatuses hcalls) hcommit
  · exact h.hasRowids.changesOnlyContents hsteady (Transaction.every_onlyModifications hcalls)
      hcommit

theorem Lasting.afterCommit (h : Lasting r) (tx : Transaction) (now : Instant) :
    Lasting (r.afterCommit tx now) := by
  rw [Registry.afterCommit]
  cases hcommit : r.commit tx now with
  | error e => exact h
  | ok committed => exact h.commit hcommit

theorem lasting_neighbours {s : σ} (numbered : RowStore.IsNumbered s)
    (rowids : NumberingStore.HasRowids s) : Lasting (neighbours s) :=
  Lasting.afterCommit (.register (.register (.new numbered rowids) _) _) _ _

/-- One of two pipelines after a restart, with its operation. -/
def reopened : Registry MemoryStore :=
  ((new (neighbours MemoryStore.empty).store).register
    ⟨"left", .flat, 1, .empty, false, .recorder⟩).2

theorem lasting_reopened : Lasting reopened := by
  have hrowids : NumberingStore.HasRowids MemoryStore.empty := by
    intro row hrow
    cases hrow
  exact .register (.restart (lasting_neighbours trivial hrowids)) _

/-- The queued operation with a higher priority, as a copy that carries some status, some
snapshot and some row number. -/
def raised (status : Status) (staged : Option Status) (snapshot : Snapshot) (rowid : Option Int) :
    Operation :=
  { Operation.new (.ofNat 2) with priority := 3, status, staged, snapshot, rowid }

/-- A new operation that waits for the queued one, as a copy with some row number. -/
def follower (rowid : Option Int) : Operation :=
  { (Operation.new (.ofNat 3)).addDependency (.ofNat 2) with rowid }

/-- Modify the queued operation and one that was added just before, and return the first to
waiting. -/
def mixedCalls (queued added waiting : Operation) : List (String × Call) :=
  [("left", .modify queued), ("left", .add (.new (.ofNat 3))), ("left", .modify added),
    ("left", .setStatus waiting .pending)]

/-- After a restart, copies that carry another status, snapshot and row number make no difference;
an operation that is completed with such a copy changes nothing else, and one that is modified with
it runs as handed out and keeps its number. -/
theorem commit_alike_reopened :
    let fresh := mixedCalls (raised .pending none 1 (some 1)) (follower none) (.new (.ofNat 2))
    let stale := mixedCalls (raised .completed (some .skipped) 9 (some 77)) (follower (some 55))
      (raised .active none 4 none)
    let retry : List (String × Call) := [("left", .setStatus (raised .active none 4 none) .pending)]
    let raise : List (String × Call) :=
      [("left", .modify (raised .completed (some .skipped) 9 (some 77)))]
    (reopened.commit (.ofCalls stale) ⟨0, 0⟩).isOk ∧
      reopened.commit (.ofCalls stale) ⟨0, 0⟩ = reopened.commit (.ofCalls fresh) ⟨0, 0⟩ ∧
      (∃ committed, reopened.commit (.ofCalls retry) ⟨0, 0⟩ = .ok committed ∧
        reopened.ChangesOnlyStatuses committed.registry) ∧
      ∃ committed, reopened.commit (.ofCalls raise) ⟨0, 0⟩ = .ok committed ∧
        reopened.ChangesOnlyContents committed := by
  intro fresh stale retry raise
  have hok (calls : List (String × Call))
      (h : (reopened.commit (.ofCalls calls) ⟨0, 0⟩).isOk = true) :
      ∃ committed, reopened.commit (.ofCalls calls) ⟨0, 0⟩ = .ok committed := by
    cases hcommit : reopened.commit (.ofCalls calls) ⟨0, 0⟩ with
    | error e =>
        rw [hcommit] at h
        cases h
    | ok committed => exact ⟨committed, rfl⟩
  have hqueued : Call.Alike (.modify (raised .pending none 1 (some 1)))
      (.modify (raised .completed (some .skipped) 9 (some 77))) := .modify rfl rfl rfl rfl
  have hadded : Call.Alike (.modify (follower none)) (.modify (follower (some 55))) :=
    .modify rfl rfl rfl rfl
  have hid : (raised .active none 4 none).id = (Operation.new (.ofNat 2)).id := rfl
  have hwaiting : Call.Alike (.setStatus (.new (.ofNat 2)) .pending)
      (.setStatus (raised .active none 4 none) .pending) := .setStatus hid .pending
  have halike : Transaction.CallsAlike fresh stale :=
    .cons ⟨rfl, hqueued⟩ (.cons ⟨rfl, .add _⟩ (.cons ⟨rfl, hadded⟩ (.cons ⟨rfl, hwaiting⟩ .nil)))
  have hretry : Transaction.CallsAlike retry retry := .cons ⟨rfl, .setStatus rfl _⟩ .nil
  have hraise : Transaction.CallsAlike raise raise := .cons ⟨rfl, .modify rfl rfl rfl rfl⟩ .nil
  obtain ⟨retried, hretried⟩ := hok retry (by decide +kernel)
  obtain ⟨changed, hchanged⟩ := hok raise (by decide +kernel)
  refine ⟨by decide +kernel, (lasting_reopened.commit_alike halike _).1, ⟨retried, hretried, ?_⟩,
    changed, hchanged, ?_⟩
  · refine ((lasting_reopened.commit_alike hretry _).2 retried hretried).1 fun c hc => ?_
    rw [List.mem_singleton.1 hc]
    trivial
  · refine ((lasting_reopened.commit_alike hraise _).2 changed hchanged).2 fun c hc => ?_
    rw [List.mem_singleton.1 hc]
    trivial

end Registry

end OperationQueue
