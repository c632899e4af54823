/-
# Commits to a registry

A commit that succeeds passed every check on the way. What it leaves is the store that
was written and the members for which something was committed, each after its commit; the
other members are as they were. A hold that succeeds is stored and set in the same way.
-/
import OperationQueue.Registry
import OperationQueue.Proofs.Commit
import OperationQueue.Proofs.Pipeline.Controlling
import OperationQueue.Proofs.Result

namespace OperationQueue

/-- A transaction that staging leads to. -/
inductive Transaction.Staged : Transaction → Prop
  | empty : Staged .empty
  | touch {tx : Transaction} (staged : Staged tx) (pipeline : String) : Staged (tx.touch pipeline)
  | stage {tx : Transaction} (staged : Staged tx) (pipeline : String)
      (item : Staging Operation) : Staged (tx.stage pipeline item)

namespace Transaction

variable {tx : Transaction} {snapshot : Snapshot} {commits : OrderedMap String Commit}

/-- What is staged for a pipeline is a commit that staging leads to. -/
theorem Staged.built (h : tx.Staged) {name : String} {c : Commit}
    (hc : tx.commits.get? name = some c) : c.Built := by
  have hcommit {tx : Transaction} (h : ∀ {name c}, tx.commits.get? name = some c → c.Built)
      (name : String) : (tx.commit name).Built := by
    rw [Transaction.commit]
    cases hget : tx.commits.get? name with
    | none => exact .new 0
    | some c => exact h hget
  induction h generalizing name c with
  | empty => simp [Transaction.empty] at hc
  | @touch tx _ pipeline ih =>
      by_cases hname : name = pipeline
      · subst hname
        rw [Transaction.touch, OrderedMap.get?_insert_self] at hc
        cases hc
        exact hcommit ih name
      · rw [Transaction.touch, OrderedMap.get?_insert_of_ne _ hname] at hc
        exact ih hc
  | @stage tx _ pipeline item ih =>
      by_cases hname : name = pipeline
      · subst hname
        rw [Transaction.stage, OrderedMap.get?_insert_self] at hc
        cases hc
        exact (hcommit ih name).stage item
      · rw [Transaction.stage, OrderedMap.get?_insert_of_ne _ hname] at hc
        exact ih hc

/-- A pipeline and what is staged for it, if that changes something. -/
def Stages (tx : Transaction) (name : String) (c : Commit) : Prop :=
  tx.commits.get? name = some c ∧ c.isEmpty = false

/-- What is finished of a transaction are its commits that change something, each with the number
of the commit. -/
theorem get?_eq_some_iff_of_finish_eq_ok (h : tx.finish snapshot = .ok commits) {name : String}
    {c : Commit} :
    commits.get? name = some c ↔ ∃ staged, tx.Stages name staged ∧ c = staged.stamp snapshot := by
  obtain ⟨_, -, h⟩ := exists_of_bind_eq_ok h
  cases h
  simp only [OrderedMap.get?_map, OrderedMap.get?_filter, Option.map_eq_some_iff,
    Option.filter_eq_some_iff, Bool.not_eq_true', Stages]
  exact exists_congr fun staged => and_congr_right fun _ => eq_comm

end Transaction

/-- A member after its commit. -/
def Member.applied (now : Instant) (numbers : OrderedMap Identity Int) (m : Member) (c : Commit) :
    Member :=
  { m with pipeline := (m.pipeline.applyCommit (c.assignRowids numbers) now).2 }

namespace Registry

variable {σ : Type} {r : Registry σ}

theorem get?_setPipeline (r : Registry σ) (name other : String) (p : Pipeline) :
    (r.setPipeline name p).members.get? other =
      if other = name then (r.members.get? name).map fun m => { m with pipeline := p }
      else r.members.get? other := by
  rw [setPipeline]
  by_cases hname : other = name
  · subst hname
    cases hmember : r.members.get? other with
    | none => simp [hmember]
    | some m => simp
  · cases hmember : r.members.get? name with
    | none => simp [hname]
    | some m => simp [hname, OrderedMap.get?_insert_of_ne _ hname]

@[simp]
theorem store_setPipeline (r : Registry σ) (name : String) (p : Pipeline) :
    (r.setPipeline name p).store = r.store := by
  rw [setPipeline]
  split <;> rfl

/-! ## The targets of a commit -/

variable {commits : OrderedMap String Commit} {targets : List (Member × Commit)}

/-- Members are registered under the names of their pipelines. -/
def IsNamed (r : Registry σ) : Prop :=
  ∀ {name m}, r.members.get? name = some m → m.pipeline.name = name

/-- The targets of commits are members, each with the commit staged under its name. -/
theorem of_targets_eq_ok (hnamed : r.IsNamed) (h : r.targets commits = .ok targets) :
    targets.map (·.1.pipeline.name) = commits.keys ∧
      ∀ target ∈ targets, r.members.get? target.1.pipeline.name = some target.1 ∧
        commits.get? target.1.pipeline.name = some target.2 := by
  have hpairs : List.Forall₂ (fun (e : String × Commit) (target : Member × Commit) =>
      r.members.get? e.1 = some target.1 ∧ e.2 = target.2) commits.entries targets := by
    apply (forall₂_of_mapM_eq_ok h).imp
    intro e target htarget
    dsimp only at htarget
    cases hmember : r.members.get? e.1 with
    | none =>
        rw [hmember] at htarget
        cases htarget
    | some m =>
        rw [hmember] at htarget
        cases htarget
        exact ⟨rfl, rfl⟩
  constructor
  · have hkeys : List.Forall₂ (· = ·) commits.keys (targets.map (·.1.pipeline.name)) := by
      apply List.forall₂_map_left_iff.2
      apply List.forall₂_map_right_iff.2
      exact hpairs.imp fun e target hpair => (hnamed hpair.1).symm
    rw [List.forall₂_eq_eq_eq] at hkeys
    exact hkeys.symm
  · intro target hmem
    obtain ⟨e, he, hmember, hcommit⟩ := exists_of_forall₂_of_mem hpairs hmem
    rw [hnamed hmember]
    exact ⟨hmember, hcommit ▸ OrderedMap.get?_eq_some_iff.2 he⟩

/-! ## Applying -/

variable {numbers : OrderedMap Identity Int} {now : Instant}

@[simp]
theorem store_applyAll (targets : List (Member × Commit)) (r : Registry σ) :
    (applyAll now numbers targets r).2.store = r.store := by
  induction targets generalizing r with
  | nil => rfl
  | cons target rest ih => exact (ih _).trans (store_setPipeline _ _ _)

/-- Commits for members of different names change these members, each by its commit. -/
theorem get?_applyAll (hdistinct : (targets.map (·.1.pipeline.name)).Nodup)
    (hmembers : ∀ target ∈ targets, r.members.get? target.1.pipeline.name = some target.1)
    (hsettled : ∀ target ∈ targets, target.1.pipeline.IsSettled) :
    (∀ target ∈ targets, (applyAll now numbers targets r).2.members.get? target.1.pipeline.name =
      some (Member.applied now numbers target.1 target.2)) ∧
    ∀ name, name ∉ targets.map (·.1.pipeline.name) →
      (applyAll now numbers targets r).2.members.get? name = r.members.get? name := by
  induction targets generalizing r with
  | nil => exact ⟨fun target htarget => (nomatch htarget), fun name _ => rfl⟩
  | cons target rest ih =>
      obtain ⟨m, c⟩ := target
      rw [List.map_cons, List.nodup_cons] at hdistinct
      have hname : (m.pipeline.applyCommit (c.assignRowids numbers) now).2.name = m.pipeline.name :=
        (Pipeline.sameSetup_applyCommit (hsettled (m, c) List.mem_cons_self) _ now).name
      have hfirst : r.members.get? m.pipeline.name = some m := hmembers (m, c) List.mem_cons_self
      have hset (other : String) : (r.setPipeline m.pipeline.name
          (m.pipeline.applyCommit (c.assignRowids numbers) now).2).members.get? other =
            if other = m.pipeline.name then some (Member.applied now numbers m c)
            else r.members.get? other := by
        rw [get?_setPipeline, hfirst]
        rfl
      have hrest : ∀ later ∈ rest, later.1.pipeline.name ≠ m.pipeline.name :=
        fun later hlater heq => hdistinct.1 (heq ▸ List.mem_map_of_mem hlater)
      have hstep : (applyAll now numbers ((m, c) :: rest) r).2 =
          (applyAll now numbers rest (r.setPipeline m.pipeline.name
            (m.pipeline.applyCommit (c.assignRowids numbers) now).2)).2 := by
        rw [applyAll]
        dsimp only
        rw [hname]
      have hlater : ∀ later ∈ rest, (r.setPipeline m.pipeline.name
          (m.pipeline.applyCommit (c.assignRowids numbers) now).2).members.get?
            later.1.pipeline.name = some later.1 := by
        intro later hlater
        rw [hset, if_neg (hrest later hlater)]
        exact hmembers later (List.mem_cons_of_mem _ hlater)
      obtain ⟨hchanged, hkept⟩ := ih hdistinct.2 hlater
        fun later hlater => hsettled later (List.mem_cons_of_mem _ hlater)
      rw [hstep]
      constructor
      · intro other hother
        rcases List.mem_cons.1 hother with rfl | hother
        · rw [hkept _ hdistinct.1, hset, if_pos rfl]
        · exact hchanged other hother
      · intro name hnotMem
        rw [List.map_cons, List.mem_cons, not_or] at hnotMem
        rw [hkept name hnotMem.2, hset, if_neg hnotMem.1]

/-- A member after the commits was a member before, and at most its pipeline is another. -/
theorem exists_of_get?_applyAll (hdistinct : (targets.map (·.1.pipeline.name)).Nodup)
    (hmembers : ∀ target ∈ targets, r.members.get? target.1.pipeline.name = some target.1)
    (hsettled : ∀ target ∈ targets, target.1.pipeline.IsSettled) {name : String} {n : Member}
    (hn : (applyAll now numbers targets r).2.members.get? name = some n) :
    ∃ m, r.members.get? name = some m ∧
      (n = m ∨ ∃ c, (m, c) ∈ targets ∧ n = m.applied now numbers c) := by
  obtain ⟨hchanged, hkept⟩ := get?_applyAll hdistinct hmembers hsettled
  by_cases hname : name ∈ targets.map (·.1.pipeline.name)
  · obtain ⟨target, htarget, rfl⟩ := List.mem_map.1 hname
    rw [hchanged target htarget] at hn
    exact ⟨target.1, hmembers target htarget, .inr ⟨target.2, htarget, (Option.some.inj hn).symm⟩⟩
  · rw [hkept name hname] at hn
    exact ⟨n, hn, .inl rfl⟩

/-- The steps of commits are those of their members, in order. -/
theorem applyAll_fst (hsettled : ∀ target ∈ targets, target.1.pipeline.IsSettled)
    (r : Registry σ) :
    (applyAll now numbers targets r).1 = targets.map fun target =>
      (target.1.pipeline.name,
        (target.1.pipeline.applyCommit (target.2.assignRowids numbers) now).1) := by
  induction targets generalizing r with
  | nil => rfl
  | cons target rest ih =>
      have hname : (target.1.pipeline.applyCommit (target.2.assignRowids numbers) now).2.name =
          target.1.pipeline.name :=
        (Pipeline.sameSetup_applyCommit (hsettled target List.mem_cons_self) _ now).name
      rw [applyAll, List.map_cons]
      dsimp only
      rw [hname, ih fun later hlater => hsettled later (List.mem_cons_of_mem _ hlater)]

/-- What a successful commit goes through, if there is something to commit: it finishes
and finds its targets, every one of which accepts its commit, and writes to the store. -/
structure Carries [Store σ] (r : Registry σ) (tx : Transaction) (snapshot : Snapshot)
    (commits : OrderedMap String Commit) (targets : List (Member × Commit))
    (numbers : OrderedMap Identity Int) (store : σ) : Prop where
  finish_eq : tx.finish snapshot = .ok commits
  targets_eq : r.targets commits = .ok targets
  checked : ∀ target ∈ targets, target.1.pipeline.checkCommit target.2 = .ok ()
  written : Store.applyChangesets r.store snapshot
    (targets.map fun target => ⟨target.1.rowid, target.2.changeset⟩) = .ok (numbers, store)

/-- The targets of a commit that goes through are members of different names. -/
theorem Carries.of_isNamed [Store σ] {tx : Transaction} {snapshot : Snapshot} {store : σ}
    (h : r.Carries tx snapshot commits targets numbers store) (hnamed : r.IsNamed) :
    (targets.map (·.1.pipeline.name)).Nodup ∧
      ∀ target ∈ targets, r.members.get? target.1.pipeline.name = some target.1 := by
  obtain ⟨hnames, hmembers⟩ := of_targets_eq_ok hnamed h.targets_eq
  rw [hnames]
  exact ⟨commits.nodup_keys, fun target htarget => (hmembers target htarget).1⟩

/-- Each target takes what is staged under its name, with the number of the commit. -/
theorem Carries.exists_stages [Store σ] {tx : Transaction} {snapshot : Snapshot} {store : σ}
    (h : r.Carries tx snapshot commits targets numbers store) (hnamed : r.IsNamed) :
    ∀ target ∈ targets, ∃ staged, tx.Stages target.1.pipeline.name staged ∧
      target.2 = staged.stamp snapshot := by
  intro target htarget
  have hcommit := ((of_targets_eq_ok hnamed h.targets_eq).2 target htarget).2
  exact (Transaction.get?_eq_some_iff_of_finish_eq_ok h.finish_eq).1 hcommit

/-- What is staged under a name has a target. -/
theorem Carries.exists_target [Store σ] {tx : Transaction} {snapshot : Snapshot} {store : σ}
    (h : r.Carries tx snapshot commits targets numbers store) (hnamed : r.IsNamed) {name : String}
    {staged : Commit} (hstaged : tx.Stages name staged) :
    ∃ target ∈ targets, target.1.pipeline.name = name ∧ target.2 = staged.stamp snapshot := by
  have hget : commits.get? name = some (staged.stamp snapshot) :=
    (Transaction.get?_eq_some_iff_of_finish_eq_ok h.finish_eq).2 ⟨staged, hstaged, rfl⟩
  obtain ⟨hnames, hcommits⟩ := of_targets_eq_ok hnamed h.targets_eq
  have hkey : name ∈ targets.map (·.1.pipeline.name) := by
    rw [hnames]
    exact OrderedMap.mem_keys_iff.2 ⟨_, hget⟩
  obtain ⟨target, htarget, rfl⟩ := List.mem_map.1 hkey
  exact ⟨target, htarget, rfl, Option.some.inj ((hcommits target htarget).2.symm.trans hget)⟩

/-- A commit succeeds with nothing to do, and then answers the last number, or under the next
number, and then it carries out what it goes through. -/
theorem of_commit_eq_ok [Store σ] {tx : Transaction} {committed : Committed σ}
    (h : r.commit tx now = .ok committed) :
    tx.isEmpty = true ∧ Store.lastSnapshot r.store = .ok committed.snapshot ∧
        committed.steps = [] ∧ committed.registry = r ∨
      tx.isEmpty = false ∧ Store.nextSnapshot r.store = .ok committed.snapshot ∧
        ∃ commits targets numbers store,
          r.Carries tx committed.snapshot commits targets numbers store ∧
            applyAll now numbers targets { r with store := store } =
              (committed.steps, committed.registry) := by
  rw [commit] at h
  by_cases hempty : tx.isEmpty = true
  · rw [if_pos hempty] at h
    obtain ⟨snapshot, hlast, h⟩ := exists_of_bind_eq_ok h
    cases h
    exact .inl ⟨hempty, hlast, rfl, rfl⟩
  · rw [if_neg hempty] at h
    obtain ⟨snapshot, hnext, h⟩ := exists_of_bind_eq_ok h
    obtain ⟨commits, hfinish, h⟩ := exists_of_bind_eq_ok h
    obtain ⟨targets, htargets, h⟩ := exists_of_bind_eq_ok h
    obtain ⟨_, hchecked, h⟩ := exists_of_bind_eq_ok h
    obtain ⟨⟨numbers, store⟩, hwritten, h⟩ := exists_of_bind_eq_ok h
    cases h
    exact .inr ⟨Bool.eq_false_iff.2 hempty, hnext, commits, targets, numbers, store,
      ⟨hfinish, htargets, forall_of_forM_eq_ok hchecked, hwritten⟩, rfl⟩

/-- A successful commit changes nothing, or it carries out what it goes through. -/
theorem commit_cases [Store σ] {tx : Transaction} {committed : Committed σ}
    (h : r.commit tx now = .ok committed) :
    committed.registry = r ∨ ∃ snapshot commits targets numbers store,
      r.Carries tx snapshot commits targets numbers store ∧
        committed.registry = (applyAll now numbers targets { r with store := store }).2 := by
  rcases of_commit_eq_ok h with
    ⟨-, -, -, hsame⟩ | ⟨-, -, commits, targets, numbers, store, hcarries, happlied⟩
  · exact .inl hsame
  · exact .inr ⟨_, commits, targets, numbers, store, hcarries, by rw [happlied]⟩

/-- What goes through all this is a commit that succeeds. -/
theorem commit_eq_ok [Store σ] {tx : Transaction} {snapshot : Snapshot} {store : σ}
    (hchanges : tx.isEmpty = false) (hnext : Store.nextSnapshot r.store = .ok snapshot)
    (h : r.Carries tx snapshot commits targets numbers store) (now : Instant) :
    ∃ committed, r.commit tx now = .ok committed := by
  have hchecked : targets.forM (fun target => target.1.pipeline.checkCommit target.2) = .ok () :=
    forM_eq_ok_of_forall h.checked
  rw [commit, if_neg (Bool.eq_false_iff.1 hchanges)]
  simp only [bind, Except.bind, hnext, h.finish_eq, h.targets_eq, hchecked, h.written]
  exact ⟨_, rfl⟩

/-- A commit that a target refuses is refused for the same reason. -/
theorem commit_eq_error [Store σ] {tx : Transaction} {snapshot : Snapshot} {e : Error}
    (hchanges : tx.isEmpty = false) (hnext : Store.nextSnapshot r.store = .ok snapshot)
    (hfinish : tx.finish snapshot = .ok commits) (htargets : r.targets commits = .ok targets)
    (hrefused : targets.forM (fun target => target.1.pipeline.checkCommit target.2) = .error e)
    (now : Instant) : r.commit tx now = .error e := by
  rw [commit, if_neg (Bool.eq_false_iff.1 hchanges)]
  simp only [bind, Except.bind, hnext, hfinish, htargets, hrefused]

/-! ## Holding -/

/-- A hold that succeeds changes nothing, or it is stored and set for a queued operation. -/
theorem setHold_cases [Store σ] {name : String} {id : Identity} {context : String}
    {date : Option Instant} {step : Step} {after : Registry σ}
    (h : r.setHold name id context date now = .ok (step, after)) :
    after = r ∨ ∃ m store, r.members.get? name = some m ∧ id ∈ m.pipeline.ids ∧
      Store.saveHolds r.store id ((m.pipeline.holds.set id context date).ofOperation id) =
        .ok store ∧
      after = { r with store := store }.setPipeline name
        (m.pipeline.setHold id context date now).2 := by
  rw [setHold] at h
  cases hm : r.members.get? name with
  | none =>
      rw [hm] at h
      cases h
  | some m =>
      rw [hm] at h
      dsimp only at h
      split at h
      · next hqueued =>
        obtain ⟨store, hsaved, h⟩ := exists_of_bind_eq_ok h
        cases h
        exact .inr ⟨m, store, rfl, Pipeline.isQueued_iff.1 hqueued, hsaved, rfl⟩
      · cases h
        exact .inl rfl

end Registry

end OperationQueue
