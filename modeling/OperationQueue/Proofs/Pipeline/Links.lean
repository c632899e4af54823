/-
# Following the links

A dependency is looked up by a loop. It looks into the graph at a cursor, and either has an answer
or moves the cursor along the link of that graph. Nothing in it counts: where links lead round it
would turn for ever, and where one leads to a graph that has left it would answer too early.

Here the loop is a relation that sets no bound, so that it ends is a statement of its own. In a
settled queue a link leads to an older graph that is queued, hence every turn leaves fewer graphs
to look into, and a lookup that gives up after one turn more than there are graphs never does so
too early.
-/
import OperationQueue.Proofs.Pipeline.Runs

namespace OperationQueue

namespace Pipeline

variable {p : Pipeline} {dep : Identity} {cursor next : Option Snapshot} {turns : Nat}
  {answer : Bool}

/-- What a turn of the lookup comes to. -/
inductive Turn
  /-- It is known whether the dependency blocks. -/
  | answers (blocks : Bool)
  /-- The graph does not know the dependency, and the cursor goes where its link leads. -/
  | moves (cursor : Option Snapshot)
deriving DecidableEq

/-- One turn of the lookup. Where no graph is at the cursor, nothing blocks. -/
def turn (p : Pipeline) (dep : Identity) (cursor : Option Snapshot) : Turn :=
  match cursor.bind p.graphs.get? with
  | none => .answers false
  | some g =>
    match g.blocks? dep with
    | some blocks => .answers blocks
    | none => .moves g.previous

/-- The lookup from a cursor on, with the number of its turns and its answer. A turn that only
finds that the links have ended counts as well. A lookup that turns for ever is no walk. -/
inductive Walk (p : Pipeline) (dep : Identity) : Option Snapshot → Nat → Bool → Prop
  | last {cursor : Option Snapshot} {answer : Bool} (turn_eq : p.turn dep cursor = .answers answer) :
      Walk p dep cursor 1 answer
  | goesOn {cursor next : Option Snapshot} {turns : Nat} {answer : Bool}
      (turn_eq : p.turn dep cursor = .moves next) (rest : Walk p dep next turns answer) :
      Walk p dep cursor (turns + 1) answer

/-- From a cursor there is at most one walk. -/
theorem Walk.unique {others : Nat} {other : Bool} (h : Walk p dep cursor turns answer)
    (h' : Walk p dep cursor others other) : others = turns ∧ other = answer := by
  induction h generalizing others other with
  | last turn_eq =>
      cases h' with
      | last turn_eq' =>
          cases turn_eq.symm.trans turn_eq'
          exact ⟨rfl, rfl⟩
      | goesOn turn_eq' _ => cases turn_eq.symm.trans turn_eq'
  | goesOn turn_eq _ ih =>
      cases h' with
      | last turn_eq' => cases turn_eq.symm.trans turn_eq'
      | goesOn turn_eq' rest' =>
          cases turn_eq.symm.trans turn_eq'
          obtain ⟨rfl, rfl⟩ := ih rest'
          exact ⟨rfl, rfl⟩

/-! ## The bounded lookup -/

theorem blocksAlong_eq_turn (p : Pipeline) (dep : Identity) (fuel : Nat)
    (cursor : Option Snapshot) :
    p.blocksAlong dep (fuel + 1) cursor =
      match p.turn dep cursor with
      | .answers blocks => blocks
      | .moves next => p.blocksAlong dep fuel next := by
  cases cursor with
  | none => rfl
  | some snapshot =>
      rw [blocksAlong, turn, Option.bind_some]
      cases p.graphs.get? snapshot with
      | none => rfl
      | some g =>
          dsimp only
          cases g.blocks? dep <;> rfl

/-- A bound on the turns changes nothing for a walk that keeps it. -/
theorem Walk.blocksAlong_eq (h : Walk p dep cursor turns answer) {fuel : Nat}
    (hfuel : turns ≤ fuel) : p.blocksAlong dep fuel cursor = answer := by
  induction h generalizing fuel with
  | last turn_eq =>
      obtain ⟨fuel, rfl⟩ := Nat.exists_eq_add_of_le' hfuel
      rw [blocksAlong_eq_turn, turn_eq]
  | goesOn turn_eq _ ih =>
      obtain ⟨fuel, rfl⟩ := Nat.exists_eq_add_of_le' (Nat.le_trans (Nat.le_add_left 1 _) hfuel)
      rw [blocksAlong_eq_turn, turn_eq]
      exact ih (Nat.le_of_succ_le_succ hfuel)

/-! ## The end of the links -/

/-- How many graphs a lookup has left to look into at most: the one at the cursor and all older
ones, or none if no graph is there. -/
def graphsLeft (p : Pipeline) : Option Snapshot → Nat
  | none => 0
  | some snapshot =>
    if snapshot ∈ p.graphs.keys then (p.graphs.keys.filter (· < snapshot)).length + 1 else 0

theorem graphsLeft_of_mem {snapshot : Snapshot} (h : snapshot ∈ p.graphs.keys) :
    p.graphsLeft (some snapshot) = (p.graphs.keys.filter (· < snapshot)).length + 1 :=
  if_pos h

theorem graphsLeft_le (p : Pipeline) (cursor : Option Snapshot) :
    p.graphsLeft cursor ≤ p.graphCount := by
  have hlength : p.graphs.keys.length = p.graphCount := List.length_map _
  cases cursor with
  | none => exact Nat.zero_le _
  | some snapshot =>
      rw [graphsLeft, ← hlength]
      split
      · next hqueued =>
        exact List.length_filter_lt_length_iff_exists.2 ⟨snapshot, hqueued, by simp⟩
      · exact Nat.zero_le _

/-- The cursor moves from a queued graph along its link. -/
theorem exists_of_turn_eq_moves (h : p.turn dep cursor = .moves next) :
    ∃ snapshot g, cursor = some snapshot ∧ p.graphs.get? snapshot = some g ∧ g.previous = next := by
  rw [turn] at h
  cases hg : cursor.bind p.graphs.get? with
  | none =>
      rw [hg] at h
      cases h
  | some g =>
      obtain ⟨snapshot, rfl, hget⟩ := Option.bind_eq_some_iff.1 hg
      rw [hg] at h
      cases hblocks : g.blocks? dep with
      | some blocks =>
          simp only [hblocks] at h
          cases h
      | none =>
          simp only [hblocks] at h
          cases h
          exact ⟨snapshot, g, rfl, hget, rfl⟩

/-- In a settled queue a link leads to an older graph, so each turn leaves fewer graphs to look
into. -/
theorem IsSettled.graphsLeft_lt (h : p.IsSettled) (hturn : p.turn dep cursor = .moves next) :
    p.graphsLeft next < p.graphsLeft cursor := by
  obtain ⟨snapshot, g, rfl, hg, rfl⟩ := exists_of_turn_eq_moves hturn
  have hqueued : snapshot ∈ p.graphs.keys := OrderedMap.mem_keys_iff.2 ⟨g, hg⟩
  rw [graphsLeft_of_mem hqueued]
  cases hlink : g.previous with
  | none => exact Nat.succ_pos _
  | some before =>
      have hlast : p.precedingSnapshot? snapshot = some before := by
        rw [h.previous_eq hg] at hlink
        split at hlink
        · exact hlink
        · cases hlink
      obtain ⟨hbefore, hlt, -⟩ := precedingSnapshot?_eq_some hlast
      rw [graphsLeft_of_mem hbefore]
      exact Nat.succ_lt_succ (length_filter_keys_lt hbefore hlt)

/-- From every cursor the lookup comes to an end. -/
theorem IsSettled.exists_walk (h : p.IsSettled) (dep : Identity) (cursor : Option Snapshot) :
    ∃ turns ≤ p.graphsLeft cursor + 1, ∃ answer, Walk p dep cursor turns answer := by
  -- Nothing about a single link bounds the walk; what falls is the number of graphs left.
  induction hleft : p.graphsLeft cursor using Nat.strongRecOn generalizing cursor with
  | _ left ih =>
      subst hleft
      cases hturn : p.turn dep cursor with
      | answers blocks => exact ⟨1, Nat.le_add_left 1 _, blocks, .last hturn⟩
      | moves next =>
          have hfewer := h.graphsLeft_lt hturn
          obtain ⟨turns, hturns, answer, hwalk⟩ := ih _ hfewer next rfl
          exact ⟨turns + 1, by omega, answer, .goesOn hturn hwalk⟩

/-- The bounded lookup answers as the unbounded one does. -/
theorem IsSettled.walk_dependencyBlocks (h : p.IsSettled) (snapshot : Snapshot) (dep : Identity) :
    ∃ turns ≤ p.graphCount + 1,
      Walk p dep (some snapshot) turns (p.dependencyBlocks snapshot dep) := by
  obtain ⟨turns, hturns, answer, hwalk⟩ := h.exists_walk dep (some snapshot)
  have hbound : turns ≤ p.graphCount + 1 :=
    Nat.le_trans hturns (Nat.succ_le_succ (p.graphsLeft_le _))
  have hanswer : p.dependencyBlocks snapshot dep = answer := hwalk.blocksAlong_eq hbound
  exact ⟨turns, hbound, hanswer ▸ hwalk⟩

/-! ## What a lookup finds -/

/-- From a snapshot that has no graph, the lookup does not get to the older graphs either. -/
theorem dependencyBlocks_of_notMem {snapshot : Snapshot} (h : snapshot ∉ p.graphs.keys)
    (dep : Identity) : p.dependencyBlocks snapshot dep = false := by
  have hnone : p.graphs.get? snapshot = none := OrderedMap.get?_eq_none_iff.2 h
  rw [dependencyBlocks, blocksAlong, hnone]

/-- After any run, a lookup from any snapshot ends after at most one turn more than there are
graphs. It answers that the dependency blocks exactly if a graph of this snapshot is queued and
the dependency is queued in it or, under the flat algorithm, in an older graph. -/
theorem Reachable.walk_iff_dependencyBlocks {allowed : Pipeline → Action → Prop}
    (h : Reachable allowed p) (snapshot : Snapshot) (dep : Identity) :
    (∃ turns ≤ p.graphCount + 1, ∀ n answer, Walk p dep (some snapshot) n answer ↔
        n = turns ∧ answer = p.dependencyBlocks snapshot dep) ∧
      (p.dependencyBlocks snapshot dep = true ↔
        snapshot ∈ p.graphs.keys ∧ p.IsQueuedFor snapshot dep) := by
  constructor
  · obtain ⟨turns, hturns, hwalk⟩ := h.isSettled.walk_dependencyBlocks snapshot dep
    refine ⟨turns, hturns, fun n answer => ⟨hwalk.unique, ?_⟩⟩
    rintro ⟨rfl, rfl⟩
    exact hwalk
  · by_cases hqueued : snapshot ∈ p.graphs.keys
    · rw [dependencyBlocks_iff h.isSettled dep hqueued]
      exact (and_iff_right hqueued).symm
    · rw [dependencyBlocks_of_notMem hqueued]
      simp [hqueued]

/-- Requests that make, fill and drop graphs. Three graphs are restored; then the only operation
of the second is skipped, one is inserted into the first, and a fourth graph is added. -/
def relinkingRun : List Action :=
  let first := Operation.new (.ofNat 1)
  let second := Operation.new (.ofNat 2)
  let third := Operation.new (.ofNat 3)
  let fourth := (Operation.new (.ofNat 4)).addDependency first.id
  let fifth := Operation.new (.ofNat 5)
  [.restore [⟨{ third with snapshot := 4 }, .empty⟩, ⟨{ second with snapshot := 2 }, .empty⟩,
      ⟨{ first with snapshot := 1 }, .empty⟩],
    .apply ((((Commit.new 7).add fourth).insert fifth 1).setStatus second.id .skipped) ⟨0, 0⟩]

/-- The queue after these requests. -/
def relinked : Pipeline := relinkingRun.foldl perform (.new "main" .flat)

/-- A lookup that finds nothing makes the longest walk, through the three graphs that are left
and one turn on. An operation of the first graph is found on the way from the last one, but not
from the snapshot of the graph that was dropped. -/
theorem walk_relinked :
    Reachable (fun _ _ => True) relinked ∧ relinked.graphs.keys = [1, 4, 7] ∧
      (∀ n answer, Walk relinked (.ofNat 2) (some 7) n answer ↔ n = 4 ∧ answer = false) ∧
      relinked.dependencyBlocks 7 (.ofNat 5) = true ∧
      relinked.dependencyBlocks 2 (.ofNat 5) = false := by
  have hreachable : Reachable (fun _ _ => True) relinked :=
    (Reachable.new "main" .flat).foldl (fun _ _ => trivial) relinkingRun
  have hkeys : relinked.graphs.keys = [1, 4, 7] := by decide +kernel
  have hlast : relinked.turn (.ofNat 2) (some 7) = .moves (some 4) := by decide +kernel
  have hmiddle : relinked.turn (.ofNat 2) (some 4) = .moves (some 1) := by decide +kernel
  have hfirst : relinked.turn (.ofNat 2) (some 1) = .moves none := by decide +kernel
  have hlongest : Walk relinked (.ofNat 2) (some 7) 4 false :=
    .goesOn hlast (.goesOn hmiddle (.goesOn hfirst (.last rfl)))
  refine ⟨hreachable, hkeys, fun n answer => ?_, ?_, ?_⟩
  · obtain ⟨turns, -, hwalk⟩ := (hreachable.walk_iff_dependencyBlocks 7 (.ofNat 2)).1
    obtain ⟨rfl, hanswer⟩ := (hwalk 4 false).1 hlongest
    rw [hwalk, hanswer]
  · exact (hreachable.walk_iff_dependencyBlocks 7 (.ofNat 5)).2.2
      ⟨by decide +kernel, by decide +kernel⟩
  · refine Bool.eq_false_iff.2 fun hblocks => ?_
    have hqueued := ((hreachable.walk_iff_dependencyBlocks 2 (.ofNat 5)).2.1 hblocks).1
    rw [hkeys] at hqueued
    exact absurd hqueued (by decide)

end Pipeline

end OperationQueue
