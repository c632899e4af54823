/-
# Commits are all or nothing

A commit can be followed as it works in place. It asks the store for a number and has everything
checked, writes row by row on a copy of the store, puts the copy in the place of the store, lets
the pipelines apply their commits one after the other, and hands over the steps last. A check or
a write may refuse it, and besides the store may meet a fault whenever it is accessed: a disk is
full, or the store may only be read. Whatever ends the commit early leaves in place what was
there; then only the copy, which is dropped, has changed. Without faults this is what `commit`
says in one go.
-/
import OperationQueue.Proofs.Registry.Live

namespace OperationQueue

/-- What a commit works on. -/
structure Workplace (σ : Type) where
  /-- The registry in place. -/
  registry : Registry σ
  /-- The copy that is written on. -/
  copy : WorkingCopy σ
  /-- How often the store was accessed so far. -/
  accesses : Nat
  /-- The steps handed over so far, with the names. -/
  handed : List (String × Step)

/-- Work that may fail on the way; what it did until then stays done. -/
abbrev Work (σ : Type) := EStateM Error (Workplace σ)

namespace Work

variable {σ α β : Type}

/-! ## The work of a commit -/

/-- Go on with an answer, or fail as it does. -/
def ask (answer : Except Error α) : Work σ α := MonadExcept.ofExcept answer

/-- Access the store. Each access may meet a fault, and `faults` says which ones do. -/
def access (faults : Nat → Option Error) : Work σ Unit := do
  let place ← get
  set { place with accesses := place.accesses + 1 }
  match faults place.accesses with
  | some e => throw e
  | none => return ()

/-- Let a pipeline apply its commit. Gives the step, with the name. -/
def applyTo (now : Instant) (numbers : OrderedMap Identity Int) (target : Member × Commit) :
    Work σ (String × Step) := do
  let (step, p) := target.1.pipeline.applyCommit (target.2.assignRowids numbers) now
  modify fun place => { place with registry := place.registry.setPipeline p.name p }
  return (p.name, step)

variable [Store σ] [RowStore σ]

/-- Make one write on the copy. -/
def writeRow (faults : Nat → Option Error) (rowid : Int) (w : RowWrite) : Work σ Unit := do
  access faults
  let place ← get
  let copy ← ask (RowStore.write rowid place.copy w)
  set { place with copy := copy }

/-- Make all writes on a fresh copy and put it in the place of the store. Gives the row
numbers of the new operations. -/
def applyChangesets (faults : Nat → Option Error) (snapshot : Snapshot)
    (changes : List PipelineChangeset) : Work σ (OrderedMap Identity Int) := do
  access faults
  modify fun place => { place with copy := (.empty, place.registry.store) }
  changes.forM fun change => change.writes.forM (writeRow faults change.rowid)
  access faults
  let place ← get
  let store := RowStore.close snapshot place.copy.2
  set { place with registry := { place.registry with store := store } }
  return place.copy.1

/-- Commit a transaction. -/
def commit (faults : Nat → Option Error) (tx : Transaction) (now : Instant) : Work σ Snapshot := do
  let place ← get
  let r := place.registry
  access faults
  if tx.isEmpty then ask (Store.lastSnapshot r.store)
  else
    let snapshot ← ask (Store.nextSnapshot r.store)
    let commits ← ask (tx.finish snapshot)
    let targets ← ask (r.targets commits)
    ask (targets.forM fun target => target.1.pipeline.checkCommit target.2)
    let numbers ← applyChangesets faults snapshot
      (targets.map fun target => ⟨target.1.rowid, target.2.changeset⟩)
    let steps ← targets.mapM (applyTo now numbers)
    modify fun place => { place with handed := place.handed ++ steps }
    return snapshot

end Work

/-- Commit a transaction in place. Gives the answer, what is in place then, and the steps that
were handed over. -/
def Registry.commitInPlace {σ : Type} [Store σ] [RowStore σ] (faults : Nat → Option Error)
    (r : Registry σ) (tx : Transaction) (now : Instant) :
    Except Error Snapshot × Registry σ × List (String × Step) :=
  match (Work.commit faults tx now).run ⟨r, (.empty, r.store), 0, []⟩ with
  | .ok snapshot after => (.ok snapshot, after.registry, after.handed)
  | .error e after => (.error e, after.registry, after.handed)

namespace Work

variable {σ α β : Type} {place : Workplace σ} {failed : Error → Workplace σ → Prop}

/-! ## What work comes to -/

/-- From a place on, work ends in a way that is asked or fails in a way that is allowed. -/
def Meets (f : Work σ α) (place : Workplace σ) (failed : Error → Workplace σ → Prop)
    (ended : α → Workplace σ → Prop) : Prop :=
  match f.run place with
  | .ok a after => ended a after
  | .error e after => failed e after

namespace Meets

variable {f : Work σ α} {ended mid : α → Workplace σ → Prop}

theorem mono {failed' : Error → Workplace σ → Prop} (h : Meets f place failed mid)
    (hfailed : ∀ {e after}, failed e after → failed' e after)
    (hended : ∀ {a after}, mid a after → ended a after) : Meets f place failed' ended := by
  rw [Meets] at h ⊢
  cases hrun : f.run place with
  | ok a after =>
      rw [hrun] at h
      exact hended h
  | error e after =>
      rw [hrun] at h
      exact hfailed h

variable {g : α → Work σ β} {done : β → Workplace σ → Prop}

theorem bind (hf : Meets f place failed mid)
    (hg : ∀ {a after}, mid a after → Meets (g a) after failed done) :
    Meets (f >>= g) place failed done := by
  rw [Meets, EStateM.run_bind]
  rw [Meets] at hf
  cases hrun : f.run place with
  | ok a after =>
      rw [hrun] at hf
      exact hg hf
  | error e after =>
      rw [hrun] at hf
      exact hf

theorem bind_get {g : Workplace σ → Work σ β} (h : Meets (g place) place failed done) :
    Meets (get >>= g) place failed done := h

theorem bind_modify {g : PUnit → Work σ β} {change : Workplace σ → Workplace σ}
    (h : Meets (g ()) (change place) failed done) :
    Meets (modify change >>= g) place failed done := h

theorem bind_applyTo {g : String × Step → Work σ β} {now : Instant}
    {numbers : OrderedMap Identity Int} {target : Member × Commit}
    (h : let applied := target.1.pipeline.applyCommit (target.2.assignRowids numbers) now
      Meets (g (applied.2.name, applied.1))
        { place with registry := place.registry.setPipeline applied.2.name applied.2 }
        failed done) :
    Meets (applyTo now numbers target >>= g) place failed done := by
  rw [applyTo]
  generalize target.1.pipeline.applyCommit (target.2.assignRowids numbers) now = applied at h ⊢
  exact h

theorem bind_ask {x : Except Error α} (hfailed : ∀ {e}, x = .error e → failed e place)
    (hg : ∀ {a}, x = .ok a → Meets (g a) place failed done) :
    Meets (ask x >>= g) place failed done := by
  cases x with
  | ok a => exact hg rfl
  | error e => exact hfailed rfl

theorem bind_access {faults : Nat → Option Error} {g : Unit → Work σ β}
    (hfailed : ∀ {e}, faults place.accesses = some e →
      failed e { place with accesses := place.accesses + 1 })
    (hg : Meets (g ()) { place with accesses := place.accesses + 1 } failed done) :
    Meets (access faults >>= g) place failed done := by
  rw [Meets, EStateM.run_bind]
  cases hfault : faults place.accesses with
  | none =>
      have hrun : (access faults).run place =
          .ok () { place with accesses := place.accesses + 1 } := by
        simp [access, EStateM.run_bind, hfault]
      rw [hrun]
      exact hg
  | some e =>
      have hrun : (access faults).run place =
          .error e { place with accesses := place.accesses + 1 } := by
        simp [access, EStateM.run_bind, hfault]
      rw [hrun]
      exact hfailed hfault

end Meets

/-! ## Applying -/

/-- The pipelines apply their commits in place as they do in one go. -/
theorem meets_applyAll (place : Workplace σ) (now : Instant) (numbers : OrderedMap Identity Int)
    (targets : List (Member × Commit)) :
    Meets (targets.mapM (applyTo now numbers)) place failed fun steps after =>
      after.handed = place.handed ∧
        (steps, after.registry) = Registry.applyAll now numbers targets place.registry := by
  induction targets generalizing place with
  | nil => exact ⟨rfl, rfl⟩
  | cons target rest ih =>
      rw [List.mapM_cons]
      apply Meets.bind_applyTo
      refine Meets.bind (ih _) fun {steps after} happlied => ?_
      obtain ⟨hhanded, hregistry⟩ := happlied
      refine ⟨hhanded, ?_⟩
      rw [Registry.applyAll]
      dsimp only
      rw [← hregistry]

/-! ## Work on the copy -/

/-- At most the copy has changed, and the store was accessed. -/
structure Keeps (place after : Workplace σ) : Prop where
  registry : after.registry = place.registry
  handed : after.handed = place.handed

theorem Keeps.trans {place after later : Workplace σ} (h : Keeps place after)
    (h' : Keeps after later) : Keeps place later :=
  ⟨h'.registry.trans h.registry, h'.handed.trans h.handed⟩

variable {faults : Nat → Option Error}

/-- Work on the copy goes as a function of the copy goes, unless it meets a fault. -/
def Follows (faults : Nat → Option Error) (f : Work σ Unit)
    (g : WorkingCopy σ → Except Error (WorkingCopy σ)) : Prop :=
  ∀ place, Meets f place
    (fun e after => Keeps place after ∧ (g place.copy = .error e ∨ ∃ n, faults n = some e))
    (fun _ after => Keeps place after ∧ g place.copy = .ok after.copy)

theorem Follows.seq {f f' : Work σ Unit} {g g' : WorkingCopy σ → Except Error (WorkingCopy σ)}
    (hf : Follows faults f g) (hf' : Follows faults f' g') :
    Follows faults (f >>= fun _ => f') (fun u => g u >>= g') := by
  intro place
  dsimp only
  refine Meets.bind ((hf place).mono (fun hfailed => ?_) id) fun {_ after} hended => ?_
  · obtain ⟨hkeeps, hrefused | hfault⟩ := hfailed
    · exact ⟨hkeeps, .inl (by rw [hrefused]; rfl)⟩
    · exact ⟨hkeeps, .inr hfault⟩
  · obtain ⟨hkeeps, hcopy⟩ := hended
    rw [hcopy]
    exact (hf' after).mono (fun hfailed => ⟨hkeeps.trans hfailed.1, hfailed.2⟩)
      fun hended => ⟨hkeeps.trans hended.1, hended.2⟩

theorem Follows.forM {f : α → Work σ Unit} {g : WorkingCopy σ → α → Except Error (WorkingCopy σ)}
    (h : ∀ x, Follows faults (f x) (g · x)) (xs : List α) :
    Follows faults (xs.forM f) (fun u => xs.foldlM g u) := by
  induction xs with
  | nil => exact fun place => ⟨⟨rfl, rfl⟩, rfl⟩
  | cons x xs ih => exact (h x).seq ih

/-! ## What is brought in place -/

/-- Work that began at a place brings in place what a commit in one go answers. It fails as that
does or for a fault, and then leaves what was in place. -/
def Brings (faults : Nat → Option Error) (start : Workplace σ)
    (answer : Except Error (Registry.Committed σ)) (f : Work σ Snapshot)
    (place : Workplace σ) : Prop :=
  Meets f place
    (fun e after => Keeps start after ∧ (answer = .error e ∨ ∃ n, faults n = some e))
    (fun snapshot after => ∃ committed, answer = .ok committed ∧ committed.snapshot = snapshot ∧
      after.registry = committed.registry ∧ after.handed = start.handed ++ committed.steps)

theorem Brings.ask {start : Workplace σ} {x : Except Error α}
    {k : α → Except Error (Registry.Committed σ)} {g : α → Work σ Snapshot}
    (hkeeps : Keeps start place) (h : ∀ a, Brings faults start (k a) (g a) place) :
    Brings faults start (x >>= k) (Work.ask x >>= g) place := by
  cases x with
  | ok a => exact h a
  | error e => exact ⟨hkeeps, .inl rfl⟩

variable [Store σ] [RowStore σ]

theorem follows_writeRow (rowid : Int) (w : RowWrite) :
    Follows faults (writeRow faults rowid w) fun u : WorkingCopy σ => RowStore.write rowid u w := by
  intro place
  apply Meets.bind_access
  · exact fun hfault => ⟨⟨rfl, rfl⟩, .inr ⟨_, hfault⟩⟩
  · apply Meets.bind_get
    apply Meets.bind_ask
    · exact fun hrefused => ⟨⟨rfl, rfl⟩, .inl hrefused⟩
    · exact fun hwritten => ⟨⟨rfl, rfl⟩, hwritten⟩

theorem follows_writeAll (changes : List PipelineChangeset) :
    Follows faults
      (changes.forM fun change => change.writes.forM (writeRow (σ := σ) faults change.rowid))
      (WorkingCopy.writeAll RowStore.write changes) :=
  .forM (fun change => .forM (follows_writeRow change.rowid) change.writes) changes

/-- Writing the changes of a commit in place goes as it does in one go, or nothing has changed. -/
theorem meets_applyChangesets (place : Workplace σ) (snapshot : Snapshot)
    (changes : List PipelineChangeset) :
    Meets (applyChangesets faults snapshot changes) place
      (fun e after => Keeps place after ∧
        (Store.applyChangesets place.registry.store snapshot changes = .error e ∨
          ∃ n, faults n = some e))
      (fun numbers after => after.handed = place.handed ∧
        ∃ store, after.registry = { place.registry with store := store } ∧
          Store.applyChangesets place.registry.store snapshot changes = .ok (numbers, store)) := by
  rw [RowStore.applyChangesets_eq]
  apply Meets.bind_access
  · exact fun hfault => ⟨⟨rfl, rfl⟩, .inr ⟨_, hfault⟩⟩
  · apply Meets.bind_modify
    refine Meets.bind ((follows_writeAll changes _).mono (fun hfailed => ?_) id)
      fun {_ after} hended => ?_
    · obtain ⟨hkeeps, hrefused | hfault⟩ := hfailed
      · exact ⟨⟨hkeeps.registry, hkeeps.handed⟩, .inl (by rw [hrefused]; rfl)⟩
      · exact ⟨⟨hkeeps.registry, hkeeps.handed⟩, .inr hfault⟩
    · obtain ⟨hkeeps, hwritten⟩ := hended
      apply Meets.bind_access
      · exact fun hfault => ⟨⟨hkeeps.registry, hkeeps.handed⟩, .inr ⟨_, hfault⟩⟩
      · apply Meets.bind_get
        refine ⟨hkeeps.handed, RowStore.close snapshot after.copy.2, ?_, ?_⟩
        · dsimp only
          rw [hkeeps.registry]
        · rw [hwritten]
          rfl

/-- A commit in place goes as it does in one go, or nothing has changed. -/
theorem brings_commit (faults : Nat → Option Error) (place : Workplace σ) (tx : Transaction)
    (now : Instant) :
    Brings faults place (place.registry.commit tx now) (commit faults tx now) place := by
  apply Meets.bind_get
  apply Meets.bind_access
  · exact fun hfault => ⟨⟨rfl, rfl⟩, .inr ⟨_, hfault⟩⟩
  · have hkeeps : Keeps place { place with accesses := place.accesses + 1 } := ⟨rfl, rfl⟩
    rw [Registry.commit]
    by_cases hempty : tx.isEmpty = true
    · rw [if_pos hempty, if_pos hempty, ← bind_pure (ask _)]
      refine Brings.ask hkeeps fun last => ?_
      exact ⟨_, rfl, rfl, rfl, (List.append_nil _).symm⟩
    · rw [if_neg hempty, if_neg hempty]
      refine Brings.ask hkeeps fun snapshot => ?_
      refine Brings.ask hkeeps fun commits => ?_
      refine Brings.ask hkeeps fun targets => ?_
      refine Brings.ask hkeeps fun _ => ?_
      refine Meets.bind ((meets_applyChangesets _ snapshot _).mono (fun hfailed => ?_) id)
        fun {numbers written} hended => ?_
      · obtain ⟨hkept, hrefused | hfault⟩ := hfailed
        · exact ⟨hkeeps.trans hkept, .inl (by rw [hrefused]; rfl)⟩
        · exact ⟨hkeeps.trans hkept, .inr hfault⟩
      · obtain ⟨hhanded, store, hregistry, hwritten⟩ := hended
        rw [hwritten]
        refine Meets.bind (meets_applyAll written now numbers targets)
          fun {steps applied} happlied => ?_
        obtain ⟨hhanded', happlied⟩ := happlied
        rw [hregistry] at happlied
        refine ⟨⟨snapshot, steps, applied.registry⟩, ?_, rfl, rfl, ?_⟩
        · dsimp only [bind, Except.bind]
          rw [← happlied]
          rfl
        · show applied.handed ++ steps = place.handed ++ steps
          rw [hhanded', hhanded]

end Work

namespace Registry

variable {σ : Type} [Store σ] [RowStore σ] {r : Registry σ}

/-- A commit in place fails as a commit does or for a fault, and then nothing has changed, or it
does what a commit does. -/
theorem commitInPlace_cases (faults : Nat → Option Error) (r : Registry σ) (tx : Transaction)
    (now : Instant) :
    (∃ e, r.commitInPlace faults tx now = (.error e, r, []) ∧
        (r.commit tx now = .error e ∨ ∃ n, faults n = some e)) ∨
      ∃ committed, r.commit tx now = .ok committed ∧ r.commitInPlace faults tx now =
        (.ok committed.snapshot, committed.registry, committed.steps) := by
  have hbrings := Work.brings_commit faults ⟨r, (.empty, r.store), 0, []⟩ tx now
  rw [Work.Brings, Work.Meets] at hbrings
  rw [commitInPlace]
  cases hrun : (Work.commit faults tx now).run ⟨r, (.empty, r.store), 0, []⟩ with
  | ok snapshot after =>
      rw [hrun] at hbrings
      obtain ⟨committed, hcommit, rfl, hregistry, hhanded⟩ := hbrings
      dsimp only
      rw [hregistry, hhanded]
      exact .inr ⟨committed, hcommit, rfl⟩
  | error e after =>
      rw [hrun] at hbrings
      obtain ⟨hkeeps, hreason⟩ := hbrings
      dsimp only
      rw [hkeeps.registry, hkeeps.handed]
      exact .inl ⟨e, rfl, hreason⟩

/-- Without faults a commit in place is a commit. -/
theorem commitInPlace_none (r : Registry σ) (tx : Transaction) (now : Instant) :
    r.commitInPlace (fun _ => none) tx now =
      match r.commit tx now with
      | .ok committed => (.ok committed.snapshot, committed.registry, committed.steps)
      | .error e => (.error e, r, []) := by
  rcases commitInPlace_cases (fun _ => none) r tx now with
    ⟨e, hrun, hcommit | ⟨n, hfault⟩⟩ | ⟨committed, hcommit, hrun⟩
  · rw [hrun, hcommit]
  · cases hfault
  · rw [hrun, hcommit]

/-- A commit of a live registry is all or nothing, whatever the store meets. If it fails, the
registry is as before and nothing is handed over. If there was something to commit, it gets the
number after the last one, which is the last one of the store then, and it is carried out. -/
theorem Live.commit_all_or_nothing (h : Live r) {last : Snapshot}
    (hlast : Store.lastSnapshot r.store = .ok last) (hroom : last.toNat < 2 ^ 63 - 1)
    (faults : Nat → Option Error) (tx : Transaction) (now : Instant)
    {answer : Except Error Snapshot} {after : Registry σ} {handed : List (String × Step)}
    (hrun : r.commitInPlace faults tx now = (answer, after, handed)) :
    (∀ e, answer = .error e → after = r ∧ handed = [] ∧
      (r.commit tx now = .error e ∨ ∃ n, faults n = some e)) ∧
    ∀ s, answer = .ok s → r.commit tx now = .ok ⟨s, handed, after⟩ ∧
      (tx.isEmpty = true → s = last ∧ after = r ∧ handed = []) ∧
      (tx.isEmpty = false → s.toNat = last.toNat + 1 ∧ Store.lastSnapshot after.store = .ok s ∧
        ∃ targets numbers, r.CarriesOut tx now s handed after targets numbers) := by
  rcases commitInPlace_cases faults r tx now with
    ⟨e, hfailed, hreason⟩ | ⟨committed, hcommit, hdone⟩
  · rw [hfailed] at hrun
    cases hrun
    refine ⟨fun e' he => ?_, fun s hs => ?_⟩
    · cases he
      exact ⟨rfl, rfl, hreason⟩
    · cases hs
  · rw [hdone] at hrun
    cases hrun
    refine ⟨fun e he => ?_, fun s hs => ?_⟩
    · cases he
    · cases hs
      refine ⟨hcommit, fun hempty => ?_, fun hchanges => ?_⟩
      · rcases of_commit_eq_ok hcommit with ⟨-, hsame, hsteps, hregistry⟩ | ⟨hchanges, -⟩
        · rw [hlast] at hsame
          cases hsame
          exact ⟨rfl, hregistry, hsteps⟩
        · rw [hempty] at hchanges
          cases hchanges
      · obtain ⟨hnumber, targets, numbers, hcarriesOut⟩ :=
          h.isSteady.of_commit_eq_ok hlast hchanges hcommit
        obtain ⟨commits, hcarries⟩ := hcarriesOut.carries
        rw [hnumber] at hcarries ⊢
        exact ⟨Snapshot.toNat_succ hroom,
          RowStore.lastSnapshot_applyChangesets h.isSteady.numbered hlast hroom hcarries.written,
          targets, numbers, hnumber ▸ hcarriesOut⟩

/-- A registry over tables with two pipelines. -/
def twoQueues : Registry TableStore :=
  let candidate (name : String) : Candidate := ⟨name, .flat, 1, .empty, false, .recorder⟩
  (((new .empty).register (candidate "left")).2.register (candidate "right")).2

/-- Two operations, one for each pipeline. -/
def pair : Transaction :=
  (Transaction.empty.stage "left" (.add (.new (.ofNat 1)))).stage "right" (.add (.new (.ofNat 2)))

/-- An operation for both pipelines, which the store refuses with the last write. -/
def clash : Transaction :=
  (Transaction.empty.stage "left" (.add (.new (.ofNat 1)))).stage "right" (.add (.new (.ofNat 1)))

/-- Of two commits to both pipelines one is refused and leaves everything as it was, and the
other is carried out under the first number: each pipeline has a graph of that number, and each has
a row that carries it. -/
theorem commit_all_or_nothing_twoQueues :
    ((twoQueues.commitInPlace (fun _ => none) clash ⟨0, 0⟩).1 = .error .storage ∧
      (twoQueues.commitInPlace (fun _ => none) clash ⟨0, 0⟩).2 = (twoQueues, [])) ∧
    ∃ after handed, twoQueues.commitInPlace (fun _ => none) pair ⟨0, 0⟩ = (.ok 1, after, handed) ∧
      Store.lastSnapshot after.store = .ok 1 ∧
      after.members.values.map (fun m => (m.pipeline.name, m.pipeline.graphs.keys)) =
        [("left", [1]), ("right", [1])] ∧
      after.store.operations.map (fun row => (row.pipeline, row.identity, row.snapshot)) =
        [(1, (Identity.ofNat 1).text, .number 1), (2, (Identity.ofNat 2).text, .number 1)] ∧
      ∃ targets numbers, twoQueues.CarriesOut pair ⟨0, 0⟩ 1 handed after targets numbers := by
  have hlive : twoQueues.Live := by
    have hnumbered : RowStore.IsNumbered TableStore.empty := fun n hn => nomatch hn
    exact .register (.register (.new hnumbered) _) _
  have hlast : Store.lastSnapshot twoQueues.store = .ok 0 := by decide +kernel
  have hroom : (0 : Snapshot).toNat < 2 ^ 63 - 1 := by decide
  constructor
  · have hrefused : (twoQueues.commitInPlace (fun _ => none) clash ⟨0, 0⟩).1 = .error .storage := by
      decide +kernel
    obtain ⟨hnothing, -⟩ :=
      hlive.commit_all_or_nothing hlast hroom (fun _ => none) clash ⟨0, 0⟩ (Prod.eta _).symm
    obtain ⟨hafter, hhanded, -⟩ := hnothing _ hrefused
    exact ⟨hrefused, Prod.ext hafter hhanded⟩
  · have hdone : (twoQueues.commitInPlace (fun _ => none) pair ⟨0, 0⟩).1 = .ok 1 := by
      decide +kernel
    obtain ⟨-, hall⟩ :=
      hlive.commit_all_or_nothing hlast hroom (fun _ => none) pair ⟨0, 0⟩ (Prod.eta _).symm
    obtain ⟨-, -, hchanges⟩ := hall 1 hdone
    obtain ⟨-, hnumber, hcarriesOut⟩ := hchanges (by decide +kernel)
    exact ⟨_, _, Prod.ext hdone rfl, hnumber, by decide +kernel, by decide +kernel, hcarriesOut⟩

end Registry

end OperationQueue
