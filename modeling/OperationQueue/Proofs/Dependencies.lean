/-
# Correctness of the search for cycles

The search names somebody exactly when there is a cycle, and whom it names is on one. If it
names nobody, every node has a place in its order, and every dependency stands before the
operations that wait for it, so nobody waits for itself. Whom it names is a dependency that it
left before an operation that waits for it. It had entered that operation by then, so the
operation stood above the dependency on the way down, and the two are on a cycle.
-/
import Mathlib.Logic.Relation
import Mathlib.Data.List.Nodup
import Mathlib.Data.List.Perm.Subperm
import OperationQueue.Dependencies

namespace OperationQueue

open Relation in
/-- If every step of a relation that can be gone back is a step of another one, then the
cycles of the first are cycles of the other. -/
theorem transGen_self_of_forall {α : Type} {R S : α → α → Prop} {x : α}
    (h : ∀ a b, R a b → ReflTransGen R b a → S a b) (hcycle : TransGen R x x) :
    TransGen S x x := by
  have hpath {y : α} (hpath : TransGen R x y) : ReflTransGen R y x → TransGen S x y := by
    induction hpath with
    | single hstep => exact fun hback => .single (h _ _ hstep hback)
    | @tail b z hbefore hstep ih =>
        intro hback
        exact .tail (ih (hback.head hstep)) (h _ _ hstep (hback.trans hbefore.to_reflTransGen))
  exact hpath hcycle .refl

namespace Dependencies

open Relation

variable {g : Dependencies}

/-- One identity has to finish before another. -/
def Precedes (g : Dependencies) (dep id : Identity) : Prop := (dep, id) ∈ g.edges

/-- Nobody waits, directly or through others, for itself. -/
def IsAcyclic (g : Dependencies) : Prop := ∀ id, ¬ TransGen g.Precedes id id

/-- Whoever takes part in a dependency is a node. -/
def HasNodes (g : Dependencies) : Prop :=
  ∀ dep id, g.Precedes dep id → dep ∈ g.nodes ∧ id ∈ g.nodes

@[simp]
theorem mem_dependents {dep id : Identity} : id ∈ g.dependents dep ↔ g.Precedes dep id := by
  simp [dependents, Precedes]

@[simp]
theorem mem_dependenciesOf {dep id : Identity} :
    dep ∈ g.dependenciesOf id ↔ g.Precedes dep id := by
  simp [dependenciesOf, Precedes]

/-! ## Every node is sorted -/

/-- What a search has entered when it is done, it had entered before or has left. -/
structure Extends (s t : Search) : Prop where
  entered : ∀ id ∈ s.entered, id ∈ t.entered
  left : s.left <:+ t.left
  completes : ∀ id ∈ t.entered, id ∈ s.entered ∨ id ∈ t.left

theorem Extends.refl (s : Search) : Extends s s := ⟨fun _ h => h, List.suffix_rfl, fun _ h => .inl h⟩

theorem Extends.trans {s t u : Search} (hst : Extends s t) (htu : Extends t u) : Extends s u where
  entered id hid := htu.entered id (hst.entered id hid)
  left := hst.left.trans htu.left
  completes id hid := by
    rcases htu.completes id hid with hid | hid
    · exact (hst.completes id hid).imp_right fun hleft => htu.left.subset hleft
    · exact .inr hid

theorem Extends.foldl {f : Search → Identity → Search} (h : ∀ s id, Extends s (f s id))
    (ids : List Identity) (s : Search) : Extends s (ids.foldl f s) := by
  induction ids generalizing s with
  | nil => exact .refl s
  | cons id rest ih => exact (h s id).trans (ih (f s id))

theorem extends_visit (depth : Nat) (s : Search) (id : Identity) :
    Extends s (g.visit depth s id) := by
  induction depth generalizing s id with
  | zero => exact .refl s
  | succ depth ih =>
      rw [visit]
      by_cases hentered : id ∈ s.entered
      · rw [if_pos hentered]
        exact .refl s
      · rw [if_neg hentered]
        have hinside := Extends.foldl ih (g.dependents id).reverse
          { s with entered := id :: s.entered }
        refine ⟨fun other hother => hinside.entered other (List.mem_cons_of_mem _ hother),
          hinside.left.trans (List.suffix_cons _ _), fun other hother => ?_⟩
        rcases hinside.completes other hother with hother | hleft
        · rcases List.mem_cons.1 hother with rfl | hother
          · exact .inr List.mem_cons_self
          · exact .inl hother
        · exact .inr (List.mem_cons_of_mem _ hleft)

/-- A visit enters its node, unless it may not go any deeper. -/
theorem mem_entered_visit {depth : Nat} (hdepth : 0 < depth) (s : Search) (id : Identity) :
    id ∈ (g.visit depth s id).entered := by
  obtain ⟨depth, rfl⟩ : ∃ n, depth = n + 1 := ⟨depth - 1, by omega⟩
  rw [visit]
  by_cases hentered : id ∈ s.entered
  · rw [if_pos hentered]
    exact hentered
  · rw [if_neg hentered]
    exact (Extends.foldl (extends_visit depth) _ _).entered id List.mem_cons_self

theorem mem_sorted {id : Identity} (h : id ∈ g.nodes) : id ∈ g.sorted := by
  have hdepth : 0 < g.nodes.length := List.length_pos_of_mem h
  have hentered (nodes : List Identity) (s : Search) (hid : id ∈ nodes) :
      id ∈ (nodes.foldl (g.visit g.nodes.length) s).entered := by
    induction nodes generalizing s with
    | nil => cases hid
    | cons first rest ih =>
        rcases List.mem_cons.1 hid with rfl | hid
        · exact (Extends.foldl (extends_visit _) rest _).entered id (mem_entered_visit hdepth s id)
        · exact ih _ hid
  have hextends := Extends.foldl (extends_visit (g := g) g.nodes.length) g.nodes ⟨[], []⟩
  exact (hextends.completes id (hentered g.nodes _ h)).resolve_left (by simp)

/-! ## An order without a misplaced dependency -/

/-- The first of an order is in place if it waits for nobody but itself and what was
before. -/
private theorem misplaced?_cons_eq_none_iff {before rest : List Identity} {first : Identity} :
    g.misplaced? before (first :: rest) = none ↔
      (∀ dep, g.Precedes dep first → dep = first ∨ dep ∈ before) ∧
        g.misplaced? (first :: before) rest = none := by
  have hfirst : ((g.dependenciesOf first).filter fun dep => dep ∉ first :: before).getLast? =
      none ↔ ∀ dep, g.Precedes dep first → dep = first ∨ dep ∈ before := by
    rw [List.getLast?_eq_none_iff, List.filter_eq_nil_iff]
    simp [or_iff_not_imp_left]
  rw [misplaced?, ← hfirst]
  cases ((g.dependenciesOf first).filter fun dep => dep ∉ first :: before).getLast? with
  | none => simp
  | some dep => simp

theorem misplaced?_eq_none_iff {before order : List Identity} :
    g.misplaced? before order = none ↔
      ∀ front id back, order = front ++ id :: back →
        ∀ dep, g.Precedes dep id → dep = id ∨ dep ∈ front ∨ dep ∈ before := by
  induction order generalizing before with
  | nil => simp [misplaced?]
  | cons first rest ih =>
      rw [misplaced?_cons_eq_none_iff, ih]
      constructor
      · rintro ⟨hfirst, hrest⟩ front id back horder dep hdep
        cases front with
        | nil =>
            obtain ⟨rfl, rfl⟩ := List.cons.inj horder
            exact (hfirst dep hdep).imp_right .inr
        | cons x front =>
            obtain ⟨rfl, hsplit⟩ := List.cons.inj horder
            have hplaced := hrest front id back hsplit dep hdep
            rw [List.mem_cons] at hplaced ⊢
            tauto
      · intro hall
        constructor
        · intro dep hdep
          have hplaced := hall [] first rest rfl dep hdep
          simpa using hplaced
        · intro front id back hsplit dep hdep
          have hplaced := hall (first :: front) id back (congrArg _ hsplit) dep hdep
          rw [List.mem_cons] at hplaced ⊢
          tauto

/-- In a row, what stands in front of an entry comes first in it. -/
private theorem idxOf_lt_of_mem_front {front back : List Identity} {dep id : Identity}
    (hdep : dep ∈ front) (hid : id ∉ front) :
    (front ++ id :: back).idxOf dep < (front ++ id :: back).idxOf id := by
  rw [List.idxOf_append_of_mem hdep, List.idxOf_append_of_notMem hid]
  have hlt := List.idxOf_lt_length_of_mem hdep
  omega

/-- If no cycle is found there is none: the order gives each identity a number, and
every identity waits for smaller numbers only. -/
theorem isAcyclic_of_cycleMember?_eq_none (hnodes : g.HasNodes) (h : g.cycleMember? = none) :
    g.IsAcyclic := by
  obtain ⟨hself, hplaced⟩ := Option.or_eq_none_iff.1 h
  rw [misplaced?_eq_none_iff] at hplaced
  have hirreflexive : ∀ id, ¬ g.Precedes id id := by
    intro id hid
    have hnone := List.find?_eq_none.1 hself id (hnodes id id hid).1
    exact hnone (decide_eq_true hid)
  have hstep {dep id : Identity} (hdep : g.Precedes dep id) :
      g.sorted.idxOf dep < g.sorted.idxOf id := by
    obtain ⟨front, back, hsorted, hid⟩ :=
      List.eq_append_cons_of_mem (mem_sorted (hnodes dep id hdep).2)
    rw [hsorted]
    rcases hplaced front id back hsorted dep hdep with rfl | hmem | hmem
    · exact absurd hdep (hirreflexive dep)
    · exact idxOf_lt_of_mem_front hmem hid
    · cases hmem
  have hrank {dep id : Identity} (hpath : TransGen g.Precedes dep id) :
      g.sorted.idxOf dep < g.sorted.idxOf id := by
    induction hpath with
    | single hdep => exact hstep hdep
    | tail _ hdep ih => exact Nat.lt_trans ih (hstep hdep)
  exact fun id hcycle => Nat.lt_irrefl _ (hrank hcycle)

/-! ## What the search names -/

/-- A search on its way down a stack of nodes. Whoever waits for a node that has been left was
left before it, or stood above it on the way down and so is on a cycle with it. The nodes
entered are those on the stack and those left. -/
structure InOrder (g : Dependencies) (stack : List Identity) (s : Search) : Prop where
  closed : ∀ front id back, s.left = front ++ id :: back →
    ∀ other, g.Precedes id other → other ∈ back ∨ ReflTransGen g.Precedes other id
  nodup : (stack ++ s.left).Nodup
  entered : s.entered.Perm (stack ++ s.left)
  nodes : ∀ id ∈ s.entered, id ∈ g.nodes

/-- A search that has entered as many nodes as there are has entered all of them. -/
private theorem InOrder.mem_entered {stack : List Identity} {s : Search} (h : InOrder g stack s)
    (hall : g.nodes.length ≤ s.entered.length) {id : Identity} (hid : id ∈ g.nodes) :
    id ∈ s.entered := by
  have hnodup : s.entered.Nodup := h.entered.nodup_iff.2 h.nodup
  have hperm := (List.Nodup.subperm hnodup h.nodes).perm_of_length_le hall
  exact hperm.mem_iff.2 hid

/-- A node that is entered comes on top of the stack. -/
private theorem InOrder.enter {stack : List Identity} {s : Search} {id : Identity}
    (h : InOrder g stack s) (hid : id ∈ g.nodes) (hentered : id ∉ s.entered) :
    InOrder g (id :: stack) { s with entered := id :: s.entered } where
  closed := h.closed
  nodup := List.nodup_cons.2 ⟨fun hmem => hentered (h.entered.mem_iff.2 hmem), h.nodup⟩
  entered := h.entered.cons id
  nodes other hother := by
    rcases List.mem_cons.1 hother with rfl | hother
    · exact hid
    · exact h.nodes other hother

/-- The node on top of the stack may be left when all that wait for it have been left or lead
down to it. -/
private theorem InOrder.leave {stack : List Identity} {s : Search} {id : Identity}
    (h : InOrder g (id :: stack) s)
    (hdependents : ∀ other, g.Precedes id other →
      other ∈ s.left ∨ ReflTransGen g.Precedes other id) :
    InOrder g stack { s with left := id :: s.left } where
  closed front other back hsplit waiting hwaiting := by
    cases front with
    | nil =>
        obtain ⟨rfl, rfl⟩ := List.cons.inj hsplit
        exact hdependents waiting hwaiting
    | cons first front =>
        obtain ⟨-, hrest⟩ := List.cons.inj hsplit
        exact h.closed front other back hrest waiting hwaiting
  nodup := List.perm_middle.nodup_iff.2 h.nodup
  entered := h.entered.trans List.perm_middle.symm
  nodes := h.nodes

/-- Visits one after the other, each of which enters its node and keeps the order. -/
private theorem inOrder_foldl {f : Search → Identity → Search} {stack ids : List Identity}
    {s : Search} {entered : Nat} (hextends : ∀ t id, Extends t (f t id))
    (hf : ∀ t, InOrder g stack t → entered ≤ t.entered.length → ∀ id ∈ ids,
      InOrder g stack (f t id) ∧ id ∈ (f t id).entered)
    (h : InOrder g stack s) (hentered : entered ≤ s.entered.length) :
    InOrder g stack (ids.foldl f s) ∧ ∀ id ∈ ids, id ∈ (ids.foldl f s).entered := by
  induction ids generalizing s with
  | nil => exact ⟨h, fun _ hid => nomatch hid⟩
  | cons id rest ih =>
      obtain ⟨hstep, hid⟩ := hf s h hentered id List.mem_cons_self
      have hgrows : entered ≤ (f s id).entered.length := by
        have hlength := (hextends s id).left.length_le
        rw [hstep.entered.length_eq, List.length_append]
        rw [h.entered.length_eq, List.length_append] at hentered
        omega
      obtain ⟨hrest, hids⟩ := ih
        (fun t ht htentered other hother => hf t ht htentered other (List.mem_cons_of_mem _ hother))
        hstep hgrows
      refine ⟨hrest, fun other hother => ?_⟩
      rcases List.mem_cons.1 hother with rfl | hother
      · exact (Extends.foldl hextends rest _).entered other hid
      · exact hids other hother

/-- A visit keeps the order, and its node has been entered afterwards. What it meets on the
stack leads down to the node. The depth is enough as long as it and the nodes entered add up
to all nodes. -/
theorem inOrder_visit (hnodes : g.HasNodes) {depth : Nat} {s : Search} {stack : List Identity}
    {id : Identity} (h : InOrder g stack s) (hid : id ∈ g.nodes)
    (hpath : ∀ above ∈ stack, ReflTransGen g.Precedes above id)
    (hdepth : g.nodes.length ≤ s.entered.length + depth) :
    InOrder g stack (g.visit depth s id) ∧ id ∈ (g.visit depth s id).entered := by
  induction depth generalizing s stack id with
  | zero => exact ⟨h, h.mem_entered hdepth hid⟩
  | succ depth ih =>
      rw [visit]
      by_cases hentered : id ∈ s.entered
      · rw [if_pos hentered]
        exact ⟨h, hentered⟩
      · rw [if_neg hentered]
        have hleads : ∀ above ∈ id :: stack, ReflTransGen g.Precedes above id := by
          intro above habove
          rcases List.mem_cons.1 habove with rfl | habove
          · exact .refl
          · exact hpath above habove
        have hvisits : ∀ t, InOrder g (id :: stack) t → s.entered.length + 1 ≤ t.entered.length →
            ∀ other ∈ (g.dependents id).reverse,
              InOrder g (id :: stack) (g.visit depth t other) ∧
                other ∈ (g.visit depth t other).entered := by
          intro t ht htentered other hother
          have hprecedes : g.Precedes id other := mem_dependents.1 (List.mem_reverse.1 hother)
          exact ih ht (hnodes id other hprecedes).2
            (fun above habove => (hleads above habove).tail hprecedes) (by omega)
        obtain ⟨hinside, hdependents⟩ := inOrder_foldl (extends_visit depth) hvisits
          (h.enter hid hentered) (Nat.le_refl (s.entered.length + 1))
        refine ⟨hinside.leave fun other hprecedes => ?_,
          (Extends.foldl (extends_visit depth) _ _).entered id List.mem_cons_self⟩
        have hother := hdependents other (List.mem_reverse.2 (mem_dependents.2 hprecedes))
        -- Whoever was entered and has not been left stands on the stack.
        rcases List.mem_append.1 (hinside.entered.mem_iff.1 hother) with hstack | hleft
        · exact .inr (hleads other hstack)
        · exact .inl hleft

theorem inOrder_sorted (hnodes : g.HasNodes) :
    InOrder g [] (g.nodes.foldl (g.visit g.nodes.length) ⟨[], []⟩) := by
  have hempty : InOrder g [] ⟨[], []⟩ := by
    refine ⟨fun front id back h => ?_, List.nodup_nil, List.Perm.refl _, fun id h => ?_⟩
    · simp at h
    · cases h
  have hvisits : ∀ t, InOrder g [] t → 0 ≤ t.entered.length → ∀ id ∈ g.nodes,
      InOrder g [] (g.visit g.nodes.length t id) ∧
        id ∈ (g.visit g.nodes.length t id).entered :=
    fun t ht _ id hid => inOrder_visit hnodes ht hid (fun _ h => nomatch h) (by omega)
  exact (inOrder_foldl (extends_visit _) hvisits hempty (Nat.zero_le _)).1

/-- A misplaced dependency does not stand before the operation that waits for it. -/
theorem exists_of_misplaced?_eq_some {before order : List Identity} {dep : Identity}
    (h : g.misplaced? before order = some dep) :
    ∃ front id back, order = front ++ id :: back ∧ g.Precedes dep id ∧ dep ≠ id ∧
      dep ∉ front ∧ dep ∉ before := by
  induction order generalizing before with
  | nil => cases h
  | cons first rest ih =>
      rw [misplaced?] at h
      cases hlast : ((g.dependenciesOf first).filter fun dep => dep ∉ first :: before).getLast? with
      | some found =>
          rw [hlast] at h
          cases h
          obtain ⟨hdep, hmisplaced⟩ := List.mem_filter.1 (List.mem_of_getLast? hlast)
          have hnotMem : dep ∉ first :: before := of_decide_eq_true hmisplaced
          rw [List.mem_cons, not_or] at hnotMem
          exact ⟨[], first, rest, rfl, mem_dependenciesOf.1 hdep, hnotMem.1, List.not_mem_nil,
            hnotMem.2⟩
      | none =>
          rw [hlast] at h
          obtain ⟨front, id, back, rfl, hdep, hne, hfront, hbefore⟩ := ih h
          rw [List.mem_cons, not_or] at hbefore
          exact ⟨first :: front, id, back, rfl, hdep, hne,
            List.not_mem_cons_of_ne_of_not_mem hbefore.1 hfront, hbefore.2⟩

/-- Whoever is named is on a cycle. A misplaced dependency was left before the operation that
waits for it, which then stood above it on the way down. -/
theorem transGen_of_cycleMember?_eq_some (hnodes : g.HasNodes) {id : Identity}
    (h : g.cycleMember? = some id) : TransGen g.Precedes id id := by
  rcases Option.or_eq_some_iff.1 h with hself | ⟨-, hmisplaced⟩
  · have hedge : (id, id) ∈ g.edges := by simpa using List.find?_some hself
    exact .single hedge
  · obtain ⟨front, waiting, back, hsorted, hprecedes, hne, hfront, -⟩ :=
      exists_of_misplaced?_eq_some hmisplaced
    have horder := inOrder_sorted hnodes
    have hnodup : g.sorted.Nodup := horder.nodup
    have hback : id ∈ back := by
      have hmem := mem_sorted (hnodes id waiting hprecedes).1
      rw [hsorted, List.mem_append, List.mem_cons] at hmem
      exact (hmem.resolve_left hfront).resolve_left hne
    obtain ⟨between, behind, rfl⟩ := List.append_of_mem hback
    have hsplit : g.sorted = (front ++ waiting :: between) ++ id :: behind := by
      rw [hsorted, List.append_assoc, List.cons_append]
    rcases horder.closed _ id behind hsplit waiting hprecedes with hbehind | hpath
    · rw [hsplit, List.nodup_append] at hnodup
      exact absurd rfl (hnodup.2.2 waiting (List.mem_append_right _ List.mem_cons_self) waiting
        (List.mem_cons_of_mem _ hbehind))
    · exact TransGen.head' hprecedes hpath

/-- A member of a cycle is found exactly when there is a cycle. -/
theorem cycleMember?_eq_none_iff (hnodes : g.HasNodes) :
    g.cycleMember? = none ↔ g.IsAcyclic := by
  refine ⟨isAcyclic_of_cycleMember?_eq_none hnodes, fun hacyclic => ?_⟩
  cases hfound : g.cycleMember? with
  | none => rfl
  | some id => exact absurd (transGen_of_cycleMember?_eq_some hnodes hfound) (hacyclic id)

/-! ## The dependencies of some operations -/

variable {finishing : Identity → Bool} {ops : List Operation}

theorem precedes_ofOperations {dep id : Identity} :
    (ofOperations finishing ops).Precedes dep id ↔
      ∃ op ∈ ops, op.id = id ∧ finishing id = false ∧
        dep ∈ op.dependencies.toList ∧ finishing dep = false := by
  simp only [Precedes, ofOperations, List.mem_eraseDups, List.mem_flatMap, List.mem_filter,
    List.mem_map, Bool.not_eq_true', Prod.mk.injEq]
  constructor
  · rintro ⟨op, ⟨hop, hwaits⟩, d, ⟨hdep, hneeded⟩, rfl, rfl⟩
    exact ⟨op, hop, rfl, hwaits, hdep, hneeded⟩
  · rintro ⟨op, hop, rfl, hwaits, hdep, hneeded⟩
    exact ⟨op, ⟨hop, hwaits⟩, dep, ⟨hdep, hneeded⟩, rfl, rfl⟩

theorem hasNodes_ofOperations (finishing : Identity → Bool) (ops : List Operation) :
    (ofOperations finishing ops).HasNodes := by
  intro dep id h
  obtain ⟨op, hop, rfl, hwaits, hdep, hneeded⟩ := precedes_ofOperations.1 h
  simp only [ofOperations, List.mem_eraseDups, List.mem_flatMap, List.mem_filter, List.mem_cons,
    Bool.not_eq_true']
  exact ⟨⟨op, ⟨hop, hwaits⟩, .inr ⟨hdep, hneeded⟩⟩, ⟨op, ⟨hop, hwaits⟩, .inl rfl⟩⟩

end Dependencies

end OperationQueue
