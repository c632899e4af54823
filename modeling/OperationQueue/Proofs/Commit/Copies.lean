/-
# The copy of a new operation

Whoever adds an operation hands over a value, and later requests of the same transaction still
change the copy that the commit keeps. The copy is followed here through the requests, one step at
a time: a modification replaces all but its graph and its staged status, and a status only that
status. So both may be asked for in either order, and the copy ends with the last modification and
the last status, also with one that was asked for before the operation was there. The value that
is handed over may carry a staged status of its own, which an earlier transaction left in it. A
commit does not take it off, and the copy keeps it unless the requests stage a status. What is
written of the copy in the end is told by the requests alone, too.
-/
import OperationQueue.Proofs.Commit.Writes

namespace OperationQueue

namespace Operation

/-- The copy of a new operation once a modification has replaced it, except for its graph and its
staged status, and a status has been staged. -/
def revised (copy : Operation) (modification : Option Operation) (next : Option Status) :
    Operation :=
  { modification.getD copy with
    snapshot := copy.snapshot
    status := .pending
    staged := next.or copy.staged }

theorem revised_none {copy : Operation} (h : copy.status = .pending) :
    copy.revised none none = copy := by
  rw [revised, ← h]
  rfl

/-- Of two modifications the later one counts, and of two statuses. -/
theorem revised_revised (copy : Operation) (earlier later : Option Operation)
    (old next : Option Status) :
    (copy.revised earlier old).revised later next =
      copy.revised (later.or earlier) (next.or old) := by
  simp only [revised, Option.or_assoc]
  cases later <;> rfl

end Operation

namespace Staging

/-- The copy that a request makes, before any status goes over to it. -/
def made? (snapshot : Snapshot) : Staging Operation → Option Operation
  | .add op => some { op with snapshot := snapshot, status := .pending }
  | .insert op target => some { op with snapshot := target, status := .pending }
  | .modify _ | .status _ _ => none

/-- What a request makes of the copy of an operation that is new. -/
def revise (copy : Operation) : Staging Operation → Operation
  | .add _ | .insert _ _ => copy
  | .modify op => if op.id = copy.id then Commit.replacing op copy else copy
  | .status id next => if id = copy.id then { copy with staged := some next } else copy

theorem id_revise (copy : Operation) (item : Staging Operation) :
    (item.revise copy).id = copy.id := by
  cases item with
  | add _ | insert _ _ => rfl
  | modify op =>
      rw [revise]
      split
      · next hid => exact hid
      · rfl
  | status id next =>
      rw [revise]
      split <;> rfl

theorem newId?_of_made? {snapshot : Snapshot} {item : Staging Operation} {made : Operation}
    (h : item.made? snapshot = some made) : item.newId? = some made.id := by
  cases item with
  | add op => cases h; rfl
  | insert op target => cases h; rfl
  | modify op => cases h
  | status id next => cases h

theorem status?_of_made? {snapshot : Snapshot} {item : Staging Operation} {made : Operation}
    (h : item.made? snapshot = some made) (id : Identity) : item.status? id = none := by
  cases item with
  | add op => rfl
  | insert op target => rfl
  | modify op => rfl
  | status id next => cases h

theorem lastStatus?_append (id : Identity) (before after : List (Staging Operation)) :
    lastStatus? id (before ++ after) = (lastStatus? id after).or (lastStatus? id before) := by
  rw [lastStatus?, List.filterMap_append, List.getLast?_append]
  rfl

theorem lastStatus?_singleton (id : Identity) (item : Staging Operation) :
    lastStatus? id [item] = item.status? id := by
  rw [lastStatus?, List.filterMap_cons]
  cases item.status? id <;> rfl

theorem lastModification?_append (id : Identity) (before after : List (Staging Operation)) :
    lastModification? id (before ++ after) =
      (lastModification? id after).or (lastModification? id before) := by
  rw [lastModification?, List.filterMap_append, List.getLast?_append]
  rfl

theorem lastModification?_singleton (id : Identity) (item : Staging Operation) :
    lastModification? id [item] = item.modification? id := by
  rw [lastModification?, List.filterMap_cons]
  cases item.modification? id <;> rfl

theorem id_of_modification?_eq_some {id : Identity} {item : Staging Operation} {op : Operation}
    (h : item.modification? id = some op) : op.id = id := by
  cases item with
  | modify other =>
      rw [modification?, Option.ite_none_right_eq_some, Option.some_inj] at h
      exact h.2 ▸ h.1
  | add _ | insert _ _ | status _ _ => cases h

theorem id_of_lastModification?_eq_some {id : Identity} {items : List (Staging Operation)}
    {op : Operation} (h : lastModification? id items = some op) : op.id = id := by
  obtain ⟨item, -, hitem⟩ := List.mem_filterMap.1 (List.mem_of_getLast? h)
  exact id_of_modification?_eq_some hitem

/-- A request leaves a pending copy with the modification and the status that it asks for. -/
theorem revise_eq {copy : Operation} (h : copy.status = .pending) (item : Staging Operation) :
    item.revise copy = copy.revised (item.modification? copy.id) (item.status? copy.id) := by
  cases item with
  | add _ | insert _ _ => exact (Operation.revised_none h).symm
  | modify op =>
      rw [revise, modification?, status?]
      by_cases hid : op.id = copy.id
      · rw [if_pos hid, if_pos hid]
        rfl
      · rw [if_neg hid, if_neg hid, Operation.revised_none h]
  | status id next =>
      rw [revise, status?, modification?]
      by_cases hid : id = copy.id
      · rw [if_pos hid, if_pos hid, Operation.revised, ← h]
        rfl
      · rw [if_neg hid, if_neg hid, Operation.revised_none h]

/-- A run of requests leaves a pending copy with the last modification and the last status. -/
theorem foldl_revise_eq {copy : Operation} (h : copy.status = .pending)
    (items : List (Staging Operation)) :
    items.foldl revise copy =
      copy.revised (lastModification? copy.id items) (lastStatus? copy.id items) := by
  induction items using List.reverseRecOn with
  | nil => exact (Operation.revised_none h).symm
  | append_singleton items item ih =>
      have hid : (copy.revised (lastModification? copy.id items)
          (lastStatus? copy.id items)).id = copy.id := by
        rw [Operation.revised]
        cases hlast : lastModification? copy.id items with
        | none => rfl
        | some op =>
            have hop := id_of_lastModification?_eq_some hlast
            exact hop
      rw [List.foldl_append, List.foldl_cons, List.foldl_nil, ih, revise_eq rfl, hid,
        Operation.revised_revised, lastModification?_append, lastModification?_singleton,
        lastStatus?_append, lastStatus?_singleton]

end Staging

namespace Operation

variable {id other : Identity} {f g : Operation → Operation} {ops : List Operation}

theorem exists_of_occurs (h : occurs id ops = true) (f : Operation → Operation) :
    ∃ before old after, old.id = id ∧ ops = before ++ old :: after ∧
      updateFirst id f ops = before ++ f old :: after := by
  induction ops with
  | nil => cases h
  | cons first rest ih =>
      rw [updateFirst]
      by_cases hid : first.id = id
      · exact ⟨[], first, rest, hid, rfl, if_pos hid⟩
      · have hrest : occurs id rest = true := by simpa [occurs, hid] using h
        obtain ⟨before, old, after, hold, hrest, hupdate⟩ := ih hrest
        refine ⟨first :: before, old, after, hold, by rw [hrest]; rfl, ?_⟩
        rw [if_neg hid, hupdate]
        rfl

theorem occurs_updateFirst (hg : ∀ op, op.id = other → (g op).id = other) (id : Identity)
    (ops : List Operation) : occurs id (updateFirst other g ops) = occurs id ops := by
  have hmap (ops : List Operation) : occurs id ops = (ops.map (·.id)).any (· == id) := by
    rw [List.any_map]
    rfl
  rw [hmap, hmap, map_id_updateFirst hg]

/-- Two changes may be made in either order, if they can for one operation. -/
theorem updateFirst_comm (hf : ∀ op, op.id = id → (f op).id = id)
    (hg : ∀ op, op.id = other → (g op).id = other)
    (hfg : ∀ op, op.id = id → op.id = other → f (g op) = g (f op)) (ops : List Operation) :
    updateFirst id f (updateFirst other g ops) = updateFirst other g (updateFirst id f ops) := by
  induction ops with
  | nil => rfl
  | cons first rest ih =>
      by_cases hid : first.id = id
      · by_cases hother : first.id = other
        · have hfirst : (g first).id = id := (hg first hother).trans (hother.symm.trans hid)
          have hsecond : (f first).id = other := (hf first hid).trans (hid.symm.trans hother)
          simp only [updateFirst, if_pos hid, if_pos hother, if_pos hfirst, if_pos hsecond,
            hfg first hid hother]
        · have hfirst : (f first).id ≠ other := fun heq =>
            hother (hid.trans ((hf first hid).symm.trans heq))
          simp only [updateFirst, if_pos hid, if_neg hother, if_neg hfirst]
      · by_cases hother : first.id = other
        · have hfirst : (g first).id ≠ id := fun heq =>
            hid (hother.trans ((hg first hother).symm.trans heq))
          simp only [updateFirst, if_neg hid, if_pos hother, if_neg hfirst]
        · simp only [updateFirst, if_neg hid, if_neg hother, ih]

end Operation

namespace OrderedMap

variable {κ α : Type} [Ord κ] [Std.TransOrd κ] [Std.LawfulEqOrd κ] [DecidableEq κ]

/-- Putting a changed value back is changing the value in its place. -/
theorem insert_eq_map {m : OrderedMap κ α} {key : κ} {value : α} (h : m.get? key = some value)
    (f : α → α) : m.insert key (f value) = m.map fun k a => if k = key then f a else a := by
  apply ext_get?
  intro other
  rw [get?_map]
  by_cases hother : other = key
  · subst hother
    simp [h]
  · rw [get?_insert_of_ne _ hother]
    cases m.get? other <;> simp [hother]

end OrderedMap

namespace Commit

variable {c d : Commit} {id other : Identity} {copy made : Operation} {item : Staging Operation}

/-! ## Where a new operation is -/

/-- Where the first copy of a new operation is: in the graph of a snapshot, or else in the graph
of the commit. -/
def place? (c : Commit) (id : Identity) : Option (Option Snapshot) :=
  if Operation.occurs id c.added then some none
  else (c.inserted.find? fun _ ops => Operation.occurs id ops).map fun e => some e.1

/-- Change the first operation with an identity in one place. -/
def changeAt (c : Commit) (place : Option Snapshot) (id : Identity) (f : Operation → Operation) :
    Commit :=
  match place with
  | none => { c with added := Operation.updateFirst id f c.added }
  | some snapshot =>
      { c with
        inserted := c.inserted.map fun graph ops =>
          if graph = snapshot then Operation.updateFirst id f ops else ops }

theorem updateNew?_eq (c : Commit) (id : Identity) (f : Operation → Operation) :
    c.updateNew? id f = (c.place? id).map fun place => c.changeAt place id f := by
  rw [updateNew?, place?]
  by_cases hadded : Operation.occurs id c.added = true
  · rw [if_pos hadded, if_pos hadded]
    rfl
  · rw [if_neg hadded, if_neg hadded, Option.map_map]
    apply Option.map_congr
    rintro ⟨snapshot, ops⟩ hfound
    have hops := OrderedMap.get?_eq_some_iff.2 (List.mem_of_find?_eq_some hfound)
    simp only [Function.comp_apply, changeAt,
      OrderedMap.insert_eq_map hops (Operation.updateFirst id f)]

/-- A change that keeps the identity leaves every operation in its place. -/
theorem place?_changeAt {g : Operation → Operation} (hg : ∀ op, op.id = other → (g op).id = other)
    (c : Commit) (place : Option Snapshot) (id : Identity) :
    (c.changeAt place other g).place? id = c.place? id := by
  cases place with
  | none =>
      rw [place?, place?]
      simp only [changeAt, Operation.occurs_updateFirst hg]
  | some snapshot =>
      have hoccurs (graph : Snapshot) (ops : List Operation) :
          Operation.occurs id (if graph = snapshot then Operation.updateFirst other g ops else ops) =
            Operation.occurs id ops := by
        split
        · exact Operation.occurs_updateFirst hg id ops
        · rfl
      rw [place?, place?]
      simp only [changeAt, OrderedMap.find?, OrderedMap.entries_map, List.find?_map,
        Function.comp_def, hoccurs, Option.map_map]

/-- Changes in two places may be made in either order, if they can for one operation. -/
theorem changeAt_comm {f g : Operation → Operation} (hf : ∀ op, op.id = id → (f op).id = id)
    (hg : ∀ op, op.id = other → (g op).id = other)
    (hfg : ∀ op, op.id = id → op.id = other → f (g op) = g (f op)) (c : Commit)
    (place second : Option Snapshot) :
    (c.changeAt second other g).changeAt place id f =
      (c.changeAt place id f).changeAt second other g := by
  have hcomm := Operation.updateFirst_comm hf hg hfg
  cases place with
  | none =>
      cases second with
      | none => simp only [changeAt, hcomm]
      | some snapshot => rfl
  | some snapshot =>
      cases second with
      | none => rfl
      | some graph =>
          simp only [changeAt]
          congr 1
          apply OrderedMap.ext
          simp only [OrderedMap.entries_map, List.map_map]
          apply List.map_congr_left
          rintro ⟨key, ops⟩ -
          simp only [Function.comp_apply]
          by_cases hkey : key = graph
          · by_cases hkey' : key = snapshot
            · simp only [if_pos hkey, if_pos hkey', hcomm]
            · simp only [if_pos hkey, if_neg hkey']
          · simp only [if_neg hkey]

theorem modify_eq_elim (c : Commit) (op : Operation) :
    c.modify op = (c.place? op.id).elim (c.withModification op.unstaged)
      fun place => c.changeAt place op.id (replacing op) := by
  rw [modify_eq, updateNew?_eq]
  cases c.place? op.id <;> rfl

theorem setStatus_eq_elim (c : Commit) (id : Identity) (next : Status) :
    c.setStatus id next =
      (c.place? id).elim { c with statuses := c.statuses.insert id next }
        fun place => c.changeAt place id fun op => { op with staged := some next } := by
  rw [setStatus, updateNew?_eq]
  cases c.place? id <;> rfl

/-- A status and a modification may be asked for in either order. -/
theorem modify_setStatus (c : Commit) (id : Identity) (next : Status) (op : Operation) :
    (c.setStatus id next).modify op = (c.modify op).setStatus id next := by
  have hstage : ∀ old : Operation, old.id = id →
      ({ old with staged := some next } : Operation).id = id := fun _ hid => hid
  have hreplace : ∀ old : Operation, old.id = op.id → (replacing op old).id = op.id :=
    fun _ _ => rfl
  rw [setStatus_eq_elim c, modify_eq_elim c]
  cases hid : c.place? id with
  | none =>
      cases hop : c.place? op.id with
      | none =>
          have hmodified : (c.withModification op.unstaged).place? id = none := hid
          have hstatuses :
              { c with statuses := c.statuses.insert id next }.place? op.id = none := hop
          simp only [Option.elim_none, setStatus_eq_elim, modify_eq_elim, hmodified, hstatuses]
          rfl
      | some place =>
          have hstatuses :
              { c with statuses := c.statuses.insert id next }.place? op.id = some place := hop
          simp only [Option.elim_none, Option.elim_some, setStatus_eq_elim, modify_eq_elim,
            hstatuses, place?_changeAt hreplace, hid]
          cases place <;> rfl
  | some place =>
      cases hop : c.place? op.id with
      | none =>
          have hmodified : (c.withModification op.unstaged).place? id = some place := hid
          simp only [Option.elim_none, Option.elim_some, setStatus_eq_elim, modify_eq_elim,
            hmodified, place?_changeAt hstage, hop]
          cases place <;> rfl
      | some second =>
          simp only [Option.elim_some, setStatus_eq_elim, modify_eq_elim, place?_changeAt hreplace,
            place?_changeAt hstage, hid, hop]
          exact (changeAt_comm hstage hreplace (fun _ _ _ => rfl) c place second).symm

/-! ## The copy after each request -/

theorem exists_newOperations_of_updateNew? {f : Operation → Operation}
    (h : c.updateNew? id f = some d) :
    ∃ before old after, old.id = id ∧ c.newOperations = before ++ old :: after ∧
      d.newOperations = before ++ f old :: after := by
  rw [updateNew?] at h
  by_cases hadded : Operation.occurs id c.added = true
  · rw [if_pos hadded] at h
    cases h
    obtain ⟨before, old, after, hold, hsplit, hupdate⟩ := Operation.exists_of_occurs hadded f
    refine ⟨c.insertedOperations ++ before, old, after, hold, ?_, ?_⟩
    · rw [newOperations, hsplit, List.append_assoc]
    · rw [newOperations, hupdate, List.append_assoc]
      rfl
  · rw [if_neg hadded, Option.map_eq_some_iff] at h
    obtain ⟨⟨snapshot, ops⟩, hfound, rfl⟩ := h
    have hget := OrderedMap.get?_eq_some_iff.2 (List.mem_of_find?_eq_some hfound)
    have hentry : c.inserted.entries.find? (fun e => Operation.occurs id e.2) =
        some (snapshot, ops) := hfound
    have hmatch := List.find?_some hentry
    have hoccurs : Operation.occurs id ops = true := hmatch
    obtain ⟨before, old, after, hold, hsplit, hupdate⟩ := Operation.exists_of_occurs hoccurs f
    obtain ⟨first, last, hentries, hnew⟩ :=
      c.inserted.exists_entries_insert snapshot (Operation.updateFirst id f ops)
    rw [hupdate] at hnew
    refine ⟨(first.map (·.2)).flatten ++ before, old, after ++ ((last.map (·.2)).flatten ++ c.added),
      hold, ?_, ?_⟩
    · simp [newOperations, insertedOperations, OrderedMap.values, hentries, hget, hsplit]
    · simp [newOperations, insertedOperations, OrderedMap.values, hnew, hupdate]

/-- A change of a new operation reaches its one copy, and no other one. -/
theorem filter_newOperations_of_updateNew? {f : Operation → Operation}
    (hf : ∀ op, op.id = other → (f op).id = other) (hupdate : c.updateNew? other f = some d)
    (h : c.newOperations.filter (·.id == id) = [copy]) :
    d.newOperations.filter (·.id == id) = [if other = id then f copy else copy] := by
  obtain ⟨before, old, after, hold, hbefore, hafter⟩ := exists_newOperations_of_updateNew? hupdate
  rw [hbefore, List.filter_append] at h
  rw [hafter, List.filter_append]
  by_cases hid : other = id
  · have hnew : (f old).id = id := (hf old hold).trans hid
    rw [List.filter_cons_of_pos (by simpa using hold.trans hid), List.append_eq_singleton_iff] at h
    rw [List.filter_cons_of_pos (by simpa using hnew), if_pos hid]
    rcases h with ⟨hfirst, hlast⟩ | ⟨-, hlast⟩
    · obtain ⟨rfl, hnone⟩ := List.cons_eq_cons.1 hlast
      rw [hfirst, hnone]
      rfl
    · cases hlast
  · have hnew : (f old).id ≠ id := fun heq => hid ((hf old hold).symm.trans heq)
    rw [List.filter_cons_of_neg (by simpa using fun heq => hid (hold.symm.trans heq))] at h
    rw [List.filter_cons_of_neg (by simpa using hnew), if_neg hid, h]

theorem newOperations_stage_perm (h : item.made? c.snapshot = some made) :
    (c.stage item).newOperations.Perm
      (made.revised none (c.statuses.get? made.id) :: c.newOperations) := by
  cases item with
  | add op =>
      cases h
      have hlast : (c.add op).newOperations = c.newOperations ++ [c.prepare op c.snapshot] := by
        simp [add, newOperations, insertedOperations]
      exact (List.Perm.of_eq hlast).trans (List.perm_append_singleton _ _)
  | insert op target =>
      cases h
      exact newOperations_insert_perm c op target
  | modify op => cases h
  | status id next => cases h

/-- A request that makes an operation new puts one copy of it there, with the status that was
staged for it. -/
theorem filter_newOperations_stage_of_made? (hnew : c.isNew made.id = false)
    (h : item.made? c.snapshot = some made) :
    (c.stage item).newOperations.filter (·.id == made.id) =
      [made.revised none (c.statuses.get? made.id)] := by
  have hnone : c.newOperations.filter (·.id == made.id) = [] := by
    rw [List.filter_eq_nil_iff]
    intro op hop heq
    exact Bool.eq_false_iff.1 hnew (isNew_iff.2 ⟨op, hop, beq_iff_eq.1 heq⟩)
  have hperm := (newOperations_stage_perm h).filter (·.id == made.id)
  have hid : (made.revised none (c.statuses.get? made.id)).id = made.id := rfl
  rw [List.filter_cons_of_pos (by simpa using hid), hnone] at hperm
  exact List.perm_singleton.1 hperm

/-- A later request does to the copy what it is about. -/
theorem filter_newOperations_stage (h : c.newOperations.filter (·.id == copy.id) = [copy])
    (hitem : item.newId? ≠ some copy.id) :
    (c.stage item).newOperations.filter (·.id == copy.id) = [item.revise copy] := by
  have hcopy : copy ∈ c.newOperations := by
    have hmem : copy ∈ c.newOperations.filter (·.id == copy.id) := h ▸ List.mem_singleton_self _
    exact List.mem_of_mem_filter hmem
  have hmade (made : Operation) (hmade : item.made? c.snapshot = some made) :
      (c.stage item).newOperations.filter (·.id == copy.id) = [copy] := by
    have hne : made.id ≠ copy.id := fun heq => hitem (heq ▸ Staging.newId?_of_made? hmade)
    have hperm := (newOperations_stage_perm hmade).filter (·.id == copy.id)
    have hid : (made.revised none (c.statuses.get? made.id)).id ≠ copy.id := hne
    rw [List.filter_cons_of_neg (by simpa using hid), h] at hperm
    exact List.perm_singleton.1 hperm
  cases item with
  | add op => exact hmade _ rfl
  | insert op target => exact hmade _ rfl
  | modify op =>
      rw [stage, modify_eq, Staging.revise]
      cases hupdate : c.updateNew? op.id (replacing op) with
      | some d => exact filter_newOperations_of_updateNew? (fun _ _ => rfl) hupdate h
      | none =>
          have hne := not_isNew_of_updateNew?_eq_none hupdate copy hcopy
          rw [if_neg (Ne.symm hne)]
          exact h
  | status id next =>
      rw [stage, setStatus, Staging.revise]
      cases hupdate : c.updateNew? id fun op => { op with staged := some next } with
      | some d =>
          have hstage (op : Operation) (hid : op.id = id) :
              ({ op with staged := some next } : Operation).id = id := hid
          exact filter_newOperations_of_updateNew? hstage hupdate h
      | none =>
          have hne := not_isNew_of_updateNew?_eq_none hupdate copy hcopy
          rw [if_neg (Ne.symm hne)]
          exact h

/-- A run of later requests does to the copy what each of them is about. -/
theorem filter_newOperations_stageAll {items : List (Staging Operation)}
    (h : c.newOperations.filter (·.id == copy.id) = [copy])
    (hitems : copy.id ∉ Staging.newIds items) :
    (c.stageAll items).newOperations.filter (·.id == copy.id) =
      [items.foldl Staging.revise copy] := by
  induction items generalizing c copy with
  | nil => exact h
  | cons item rest ih =>
      have hid : (item.revise copy).id = copy.id := Staging.id_revise copy item
      have hrest : copy.id ∉ Staging.newIds rest := fun hmem =>
        hitems (List.mem_filterMap.2 ((List.mem_filterMap.1 hmem).imp fun _ hmem =>
          ⟨List.mem_cons_of_mem _ hmem.1, hmem.2⟩))
      have hitem : item.newId? ≠ some copy.id := fun heq =>
        hitems (List.mem_filterMap.2 ⟨item, List.mem_cons_self, heq⟩)
      have hstep := filter_newOperations_stage h hitem
      rw [← hid] at hstep hrest ⊢
      exact ih hstep hrest

theorem snapshot_stage (c : Commit) (item : Staging Operation) :
    (c.stage item).snapshot = c.snapshot := by
  cases item with
  | add _ | insert _ _ => rfl
  | modify op =>
      rw [stage, modify_eq]
      cases hupdate : c.updateNew? op.id (replacing op) with
      | some d => exact (revises_of_updateNew?_eq_some hupdate).snapshot
      | none => rfl
  | status id next =>
      rw [stage, setStatus]
      cases hupdate : c.updateNew? id fun op => { op with staged := some next } with
      | some d => exact (revises_of_updateNew?_eq_some hupdate).snapshot
      | none => rfl

theorem snapshot_stageAll (c : Commit) (items : List (Staging Operation)) :
    (c.stageAll items).snapshot = c.snapshot := by
  induction items generalizing c with
  | nil => rfl
  | cons item rest ih => exact (ih (c.stage item)).trans (snapshot_stage c item)

/-- An operation that one of the requests makes new has one copy: the value that was handed over,
revised by the last modification since then and by the last status of all. -/
theorem filter_newOperations_stageAll_of_made? (snapshot : Snapshot)
    {before after : List (Staging Operation)} {item : Staging Operation} {made : Operation}
    (hitem : item.made? snapshot = some made) (hbefore : made.id ∉ Staging.newIds before)
    (hafter : made.id ∉ Staging.newIds after) :
    let items := before ++ item :: after
    ((new snapshot).stageAll items).newOperations.filter (·.id == made.id) =
      [made.revised (Staging.lastModification? made.id after)
        (Staging.lastStatus? made.id items)] := by
  intro items
  let earlier := (new snapshot).stageAll before
  let first := made.revised none (Staging.lastStatus? made.id before)
  have hsplit : (new snapshot).stageAll items = (earlier.stage item).stageAll after := by
    simp only [items, earlier, stageAll, List.foldl_append, List.foldl_cons]
  have hmade : item.made? earlier.snapshot = some made := by
    rw [snapshot_stageAll]
    exact hitem
  have hnew : earlier.isNew made.id = false :=
    Bool.eq_false_iff.2 fun hnew => hbefore ((isNew_stageAll snapshot before made.id).1 hnew)
  have hfirst : (earlier.stage item).newOperations.filter (·.id == first.id) = [first] := by
    have hcopy := filter_newOperations_stage_of_made? hnew hmade
    rw [(stageAll_of_notMem_newIds snapshot hbefore).1] at hcopy
    exact hcopy
  have hcopy := filter_newOperations_stageAll hfirst hafter
  have hlast : Staging.lastStatus? made.id items =
      (Staging.lastStatus? made.id after).or (Staging.lastStatus? made.id before) := by
    have hitems : items = before ++ ([item] ++ after) := rfl
    rw [hitems, Staging.lastStatus?_append, Staging.lastStatus?_append,
      Staging.lastStatus?_singleton, Staging.status?_of_made? hitem, Option.or_none]
  have hid : first.id = made.id := rfl
  have hpending : first.status = .pending := rfl
  rwa [← hsplit, Staging.foldl_revise_eq hpending, Operation.revised_revised, hid, ← hlast,
    Option.or_none] at hcopy

/-- An operation that one of the requests makes new has one copy: with the modification that was
asked for last since then, and else as it was handed over, in its graph, waiting, and with the
status that was staged last by any request. If none was, it has the one that was in the value
handed over, so that the status is the requests' own exactly if they stage one or that value has
none. A status and a modification may be asked for in either order. -/
theorem copy_stageAll (snapshot : Snapshot) {before after : List (Staging Operation)}
    {item : Staging Operation} {made : Operation} (hitem : item.made? snapshot = some made)
    (hbefore : made.id ∉ Staging.newIds before) (hafter : made.id ∉ Staging.newIds after) :
    let items := before ++ item :: after
    (∃ copy : Operation,
      ((new snapshot).stageAll items).newOperations.filter (·.id == made.id) = [copy] ∧
      copy =
        { (Staging.lastModification? made.id after).getD made with
          snapshot := made.snapshot
          status := .pending
          staged := (Staging.lastStatus? made.id items).or made.staged } ∧
      (copy.staged = Staging.lastStatus? made.id items ↔
        (Staging.lastStatus? made.id items).isSome ∨ made.staged = none)) ∧
    ∀ (c : Commit) (id : Identity) (next : Status) (op : Operation),
      (c.setStatus id next).modify op = (c.modify op).setStatus id next := by
  intro items
  have hcopy := filter_newOperations_stageAll_of_made? snapshot hitem hbefore hafter
  refine ⟨⟨_, hcopy, rfl, ?_⟩, modify_setStatus⟩
  rw [Operation.revised]
  cases Staging.lastStatus? made.id items <;> simp

/-- A status that is staged before the operation is there, and a modification after that. -/
theorem copy_stageAll_reordered :
    ((new 4).stageAll [.status default .active, .add (.new default),
      .modify { Operation.new default with priority := 7 }]).newOperations.filter
        (·.id == (default : Identity)) =
      [{ Operation.new default with snapshot := 4, staged := some .active, priority := 7 }] := by
  have hitem : (Staging.add (Operation.new default)).made? 4 =
      some { Operation.new default with snapshot := 4 } := rfl
  have hbefore : (default : Identity) ∉ Staging.newIds [.status default .active] := by decide
  have hafter : (default : Identity) ∉
      Staging.newIds [.modify { Operation.new default with priority := 7 }] := by decide
  obtain ⟨⟨copy, hcopy, hrevised, -⟩, -⟩ := copy_stageAll 4 hitem hbefore hafter
  rw [hrevised] at hcopy
  exact hcopy

/-- A copy that is read from a commit which is then dropped still has the status that was staged
there. Added to another commit it finishes there at once, although that one stages no status for
it. -/
theorem staged_of_dropped_commit :
    ∃ copy ∈ ((new 3).stageAll [.add (.new default), .status default .completed]).newOperations,
      ((new 4).stageAll [.add copy]).newOperations.map (·.staged) = [some .completed] ∧
        Staging.lastStatus? copy.id [.add copy] = none ∧
        ((new 4).stageAll [.add copy]).changeset = [] := by
  refine ⟨{ Operation.new default with snapshot := 3, staged := some .completed }, ?_, ?_⟩
  · decide
  · decide

/-! ## The row of a new operation -/

/-- What is written for an operation that one of the requests makes new: no row if it is to finish,
and else one row with the values of its last modification, or those that were handed over, in its
graph, and with the status that it is to have. -/
theorem filter_id_changeset_stageAll_of_made? (snapshot : Snapshot)
    {before after : List (Staging Operation)} {item : Staging Operation} {made : Operation}
    (hitem : item.made? snapshot = some made) (hbefore : made.id ∉ Staging.newIds before)
    (hafter : made.id ∉ Staging.newIds after) :
    let items := before ++ item :: after
    let next := (Staging.lastStatus? made.id items).or made.staged
    ((new snapshot).stageAll items).changeset.filter (·.id == made.id) =
      if next.any Status.isTerminal then []
      else [.insert
        { (Staging.lastModification? made.id after).getD made with
          snapshot := made.snapshot
          status := next.getD .pending
          staged := none }] := by
  intro items next
  have hcopy := filter_newOperations_stageAll_of_made? snapshot hitem hbefore hafter
  have hnew : made.id ∈ Staging.newIds items :=
    List.mem_filterMap.2 ⟨item, List.mem_append_right _ List.mem_cons_self,
      Staging.newId?_of_made? hitem⟩
  let copy :=
    made.revised (Staging.lastModification? made.id after) (Staging.lastStatus? made.id items)
  have hkept : [copy].filter (!·.finishesWhenApplied) =
      if next.any Status.isTerminal then [] else [copy] := by
    have hfinishes : copy.finishesWhenApplied = next.any Status.isTerminal := rfl
    rw [List.filter_singleton, hfinishes]
    cases next.any Status.isTerminal <;> rfl
  rw [changeset_eq, List.filter_append, filter_id_revisions_stageAll, filter_id_newRows_stageAll,
    if_pos hnew, List.append_nil, hcopy, hkept]
  split <;> rfl

end Commit

end OperationQueue
