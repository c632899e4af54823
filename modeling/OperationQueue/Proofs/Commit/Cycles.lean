/-
# What the check of a commit refuses

A commit is checked by a search for cycles, and what the search goes through is made of three
parts: the queue without what the commit modifies, the new operations, and the modified ones.
Here it is said without the search who then has to finish before whom. The check refuses a
commit exactly when somebody would have to finish before itself, and it names somebody of whom
that is true.
-/
import OperationQueue.Proofs.Commit
import OperationQueue.Proofs.Dependencies
import OperationQueue.Transaction

namespace OperationQueue

namespace Commit

open Relation

variable {c : Commit} {queued : List Operation}

/-- An operation counts when a commit is checked. A modification counts in place of what is
queued, and it counts whether or not its operation is queued. -/
inductive Counts (c : Commit) (queued : List Operation) (op : Operation) : Prop
  | queued (mem : op ∈ queued) (unmodified : ∀ m ∈ c.modified, m.id ≠ op.id)
  | new (mem : op ∈ c.newOperations)
  | modified (mem : op ∈ c.modified)

/-- One identity has to finish before another: some operation that counts waits for it, and
neither of them finishes by the commit. -/
def Orders (c : Commit) (queued : List Operation) (dep id : Identity) : Prop :=
  c.finishes dep = false ∧ c.finishes id = false ∧
    ∃ op, c.Counts queued op ∧ op.id = id ∧ dep ∈ op.dependencies.toList

theorem mem_resulting_iff {op : Operation} : op ∈ c.resulting queued ↔ c.Counts queued op := by
  rw [resulting, List.mem_append, List.mem_append, List.mem_filter]
  constructor
  · rintro ((⟨hqueued, hunmodified⟩ | hnew) | hmodified)
    · refine .queued hqueued fun m hm hid => ?_
      rw [Operation.occurs_iff.2 ⟨m, hm, hid⟩] at hunmodified
      cases hunmodified
    · exact .new hnew
    · exact .modified hmodified
  · intro hcounts
    cases hcounts with
    | queued mem unmodified =>
        refine .inl (.inl ⟨mem, ?_⟩)
        rw [Bool.not_eq_true', Bool.eq_false_iff]
        intro hoccurs
        obtain ⟨m, hm, hid⟩ := Operation.occurs_iff.1 hoccurs
        exact unmodified m hm hid
    | new mem => exact .inl (.inr mem)
    | modified mem => exact .inr mem

/-- The search of the check goes along this order. -/
theorem precedes_eq_orders (c : Commit) (queued : List Operation) :
    (Dependencies.ofOperations c.finishes (c.resulting queued)).Precedes = c.Orders queued := by
  funext dep id
  rw [Dependencies.precedes_ofOperations, Orders, eq_iff_iff]
  constructor
  · rintro ⟨op, hop, hid, hstays, hdep, hneeded⟩
    exact ⟨hneeded, hstays, op, mem_resulting_iff.1 hop, hid, hdep⟩
  · rintro ⟨hneeded, hstays, op, hcounts, hid, hdep⟩
    exact ⟨op, mem_resulting_iff.2 hcounts, hid, hstays, hdep, hneeded⟩

theorem cycleMember?_eq_none_iff :
    c.cycleMember? queued = none ↔ ∀ id, ¬ TransGen (c.Orders queued) id id := by
  rw [← precedes_eq_orders]
  exact Dependencies.cycleMember?_eq_none_iff (Dependencies.hasNodes_ofOperations _ _)

theorem transGen_of_cycleMember?_eq_some {id : Identity} (h : c.cycleMember? queued = some id) :
    TransGen (c.Orders queued) id id := by
  rw [← precedes_eq_orders]
  exact Dependencies.transGen_of_cycleMember?_eq_some (Dependencies.hasNodes_ofOperations _ _) h

/-- A commit that is refused names a member of a cycle. -/
theorem of_checkAgainst_eq_error {e : Error} (h : c.checkAgainst queued = .error e) :
    ∃ id, e = .cycle c.snapshot id ∧ TransGen (c.Orders queued) id id := by
  rw [checkAgainst] at h
  cases hfound : c.cycleMember? queued with
  | none =>
      rw [hfound] at h
      cases h
  | some id =>
      rw [hfound] at h
      cases h
      exact ⟨id, rfl, transGen_of_cycleMember?_eq_some hfound⟩

theorem checkAgainst_of_transGen {id : Identity} (h : TransGen (c.Orders queued) id id) :
    ∃ other, c.checkAgainst queued = .error (.cycle c.snapshot other) := by
  rw [checkAgainst]
  cases hfound : c.cycleMember? queued with
  | none => exact absurd h (cycleMember?_eq_none_iff.1 hfound id)
  | some other => exact ⟨other, rfl⟩

/-- The check refuses a commit exactly when some identity has to finish before itself, and
whatever it answers then names such an identity. -/
theorem checkAgainst_eq_error_iff (c : Commit) (queued : List Operation) :
    ((∃ id, c.checkAgainst queued = .error (.cycle c.snapshot id)) ↔
        ∃ id, TransGen (c.Orders queued) id id) ∧
      ∀ e, c.checkAgainst queued = .error e →
        ∃ id, e = .cycle c.snapshot id ∧ TransGen (c.Orders queued) id id := by
  refine ⟨⟨fun hrefused => ?_, fun hcycle => ?_⟩, fun e => of_checkAgainst_eq_error⟩
  · obtain ⟨id, hid⟩ := hrefused
    obtain ⟨other, -, hcycle⟩ := of_checkAgainst_eq_error hid
    exact ⟨other, hcycle⟩
  · obtain ⟨id, hid⟩ := hcycle
    exact checkAgainst_of_transGen hid

/-- Of four queued operations the second waits for the first, and the third and the fourth wait
for the second. A commit that skips the fourth and makes the first wait for the third is
refused for the first, which is on the cycle of the other three. -/
theorem checkAgainst_eq_error_of_modification :
    let first := Operation.new (.ofNat 1)
    let second := (Operation.new (.ofNat 2)).addDependency first.id
    let third := (Operation.new (.ofNat 3)).addDependency second.id
    let fourth := (Operation.new (.ofNat 4)).addDependency second.id
    let c := ((Commit.new 7).setStatus fourth.id .skipped).modify (first.addDependency third.id)
    c.checkAgainst [first, second, third, fourth] = .error (.cycle 7 first.id) ∧
      TransGen (c.Orders [first, second, third, fourth]) first.id first.id := by
  intro first second third fourth c
  have hrefused : c.checkAgainst [first, second, third, fourth] = .error (.cycle 7 first.id) := by
    decide +kernel
  obtain ⟨id, heq, hcycle⟩ :=
    (checkAgainst_eq_error_iff c [first, second, third, fourth]).2 _ hrefused
  cases heq
  exact ⟨hrefused, hcycle⟩

end Commit

end OperationQueue
