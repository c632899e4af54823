/-
# Names in a configuration

A configuration can be used if it has pipelines and a time to sleep, if none of its names is blank,
and if no name is listed twice among the names and previous names of its pipelines. The check looks
for this name by name: the names of the pipelines are owned from the start, and each previous name
is claimed in turn and refused if it has an owner. Refusals are never wrong, and none is missed, so
no two pipelines of a configuration that passes have a name or a previous name in common.
-/
import Mathlib.Data.List.Duplicate
import Mathlib.Data.List.Nodup
import OperationQueue.Config.Reading
import OperationQueue.Proofs.OrderedMap
import OperationQueue.Proofs.Result

namespace OperationQueue

namespace Config

variable {c : Config} {name : String} {owners after : OrderedMap String String}
  {claimed : List (String × String)} {e : Error}

/-- The names under which a pipeline of a configuration may be stored. -/
def knownAs (entry : String × PipelineSection) : List String :=
  entry.1 :: entry.2.previousNames

/-- The names of all pipelines, and after them all previous names. -/
def allNames (c : Config) : List String :=
  c.pipelines.keys ++ c.pipelines.values.flatMap (·.previousNames)

/-- A configuration that names every pipeline, and no two alike. -/
structure IsUsable (c : Config) : Prop where
  pipelines_ne_nil : c.pipelines.entries ≠ []
  holdWait_pos : 1 ≤ c.maxHoldWait
  trim_ne : ∀ name ∈ c.pipelines.keys, Blank.trim name ≠ ""
  nodup : c.allNames.Nodup

/-- Why a configuration is refused. A name that two pipelines lay claim to is listed twice: its
owner has it as a name or a previous name, and the claimant has it as a previous name. -/
inductive Fault (c : Config) : Error → Prop
  | noPipelines (nothing : c.pipelines.entries = []) : Fault c .noPipelines
  | noHoldWait (never : c.maxHoldWait = 0) : Fault c .noHoldWait
  | blankPipelineName {name : String} (listed : name ∈ c.pipelines.keys)
      (blank : Blank.trim name = "") : Fault c .blankPipelineName
  | ownPreviousName {entry : String × PipelineSection} (listed : entry ∈ c.pipelines.entries)
      (claimed : entry.1 ∈ entry.2.previousNames) : Fault c (.ownPreviousName entry.1)
  | sharedName {name : String} {owner claimant : String × PipelineSection}
      (owner_listed : owner ∈ c.pipelines.entries) (owned : name ∈ knownAs owner)
      (claimant_listed : claimant ∈ c.pipelines.entries) (claimed : name ∈ claimant.2.previousNames)
      (twice : c.allNames.Duplicate name) : Fault c (.sharedName name owner.1 claimant.1)

/-! ## Names that are not blank -/

theorem checkNames_eq (names : List String) :
    checkNames names = if names.any Blank.isBlankText then .error .blankPipelineName else .ok () := by
  induction names with
  | nil => rfl
  | cons first rest ih =>
      rw [checkNames, List.any_cons]
      by_cases hblank : Blank.isBlankText first = true
      · simp [hblank]
      · simp [hblank, ih]

/-! ## One claim after the other -/

/-- The claims of pipelines in order: each previous name with the name of the claimant. -/
def claims (entries : List (String × PipelineSection)) : List (String × String) :=
  entries.flatMap fun entry => entry.2.previousNames.map fun old => (old, entry.1)

/-- Give one previous name to its claimant, unless it has an owner. -/
def claim (owners : OrderedMap String String) (wanted : String × String) :
    Except Error (OrderedMap String String) :=
  claimAll wanted.2 [wanted.1] owners

theorem claimAll_eq (name : String) (names : List String) (owners : OrderedMap String String) :
    claimAll name names owners = (names.map fun old => (old, name)).foldlM claim owners := by
  induction names generalizing owners with
  | nil => rfl
  | cons first rest ih =>
      rw [claimAll, List.map_cons, List.foldlM_cons, claim, claimAll]
      by_cases hown : first = name
      · rw [if_pos hown, if_pos hown]
        rfl
      · rw [if_neg hown, if_neg hown]
        cases owners.get? first with
        | none => exact ih _
        | some owner => rfl

theorem claimNames_eq (entries : List (String × PipelineSection))
    (owners : OrderedMap String String) :
    claimNames entries owners = (claims entries).foldlM claim owners := by
  induction entries generalizing owners with
  | nil => rfl
  | cons first rest ih =>
      obtain ⟨name, options⟩ := first
      rw [claims, List.flatMap_cons, List.foldlM_append, ← claimAll_eq, claimNames]
      exact bind_congr fun after => ih after

theorem of_claim_eq_ok {wanted : String × String} (h : claim owners wanted = .ok after) :
    wanted.1 ∉ owners.keys ∧ after = owners.insert wanted.1 wanted.2 := by
  rw [claim, claimAll] at h
  split at h
  · cases h
  · split at h
    · cases h
    · next hfree =>
      cases h
      exact ⟨OrderedMap.get?_eq_none_iff.1 hfree, rfl⟩

/-- A claim is refused to a pipeline that claims its own name, or because of an owner. -/
theorem of_claim_eq_error {wanted : String × String} (h : claim owners wanted = .error e) :
    wanted.1 = wanted.2 ∧ e = .ownPreviousName wanted.2 ∨
      ∃ owner, owners.get? wanted.1 = some owner ∧ e = .sharedName wanted.1 owner wanted.2 := by
  rw [claim, claimAll] at h
  split at h
  · next hown =>
    cases h
    exact .inl ⟨hown, rfl⟩
  · split at h
    · next owner howner =>
      cases h
      exact .inr ⟨owner, howner, rfl⟩
    · cases h

/-- Claims that are all granted are about different names, and none of these had an owner. -/
theorem of_foldlM_claim_eq_ok (h : claimed.foldlM claim owners = .ok after) :
    (claimed.map (·.1)).Nodup ∧ ∀ old ∈ claimed.map (·.1), old ∉ owners.keys := by
  induction claimed generalizing owners with
  | nil => exact ⟨.nil, List.forall_mem_nil _⟩
  | cons first rest ih =>
      obtain ⟨granted, hfirst, hrest⟩ := foldlM_cons_eq_ok h
      obtain ⟨hfree, rfl⟩ := of_claim_eq_ok hfirst
      obtain ⟨hnodup, hothers⟩ := ih hrest
      constructor
      · refine List.nodup_cons.2 ⟨fun hmem => ?_, hnodup⟩
        exact hothers _ hmem (OrderedMap.mem_keys_insert.2 (.inl rfl))
      · refine List.forall_mem_cons.2 ⟨hfree, fun old hold howned => ?_⟩
        exact hothers old hold (OrderedMap.mem_keys_insert.2 (.inr howned))

/-- The claim that is refused is about the own name of the claimant, or about a name that has an
owner: it had it before all claims, or claimed it earlier. -/
theorem of_foldlM_claim_eq_error (h : claimed.foldlM claim owners = .error e) :
    ∃ earlier wanted later, claimed = earlier ++ wanted :: later ∧
      (wanted.1 = wanted.2 ∧ e = .ownPreviousName wanted.2 ∨
        ∃ owner, (owners.get? wanted.1 = some owner ∨ (wanted.1, owner) ∈ earlier) ∧
          e = .sharedName wanted.1 owner wanted.2) := by
  induction claimed generalizing owners with
  | nil => cases h
  | cons first rest ih =>
      rw [List.foldlM_cons] at h
      rcases of_bind_eq_error h with hfirst | ⟨granted, hfirst, hrest⟩
      · refine ⟨[], first, rest, rfl, ?_⟩
        exact (of_claim_eq_error hfirst).imp_right fun ⟨owner, howner, he⟩ => ⟨owner, .inl howner, he⟩
      · obtain ⟨-, rfl⟩ := of_claim_eq_ok hfirst
        obtain ⟨earlier, wanted, later, rfl, hwhy⟩ := ih hrest
        refine ⟨first :: earlier, wanted, later, rfl, hwhy.imp_right ?_⟩
        rintro ⟨owner, howner, he⟩
        refine ⟨owner, ?_, he⟩
        rcases howner with howner | hearlier
        · by_cases hsame : wanted.1 = first.1
          · rw [hsame, OrderedMap.get?_insert_self, Option.some_inj] at howner
            exact .inr (by simp [hsame, ← howner])
          · exact .inl (OrderedMap.get?_insert_of_ne owners hsame _ ▸ howner)
        · exact .inr (List.mem_cons_of_mem _ hearlier)

/-! ## The check -/

/-- Before all claims the names of the pipelines own themselves. -/
def owned (c : Config) : OrderedMap String String :=
  .ofList (c.pipelines.keys.map fun name => (name, name))

theorem get?_owned_eq_some {owner : String} (h : c.owned.get? name = some owner) :
    name = owner ∧ owner ∈ c.pipelines.keys := by
  rw [owned, OrderedMap.get?_ofList, List.lookup_eq_some_iff] at h
  obtain ⟨before, later, hsplit, -⟩ := h
  have hmem : (name, owner) ∈ (c.pipelines.keys.map fun name => (name, name)).reverse := by
    rw [hsplit]
    exact List.mem_append_right _ List.mem_cons_self
  obtain ⟨known, hknown, heq⟩ := List.mem_map.1 (List.mem_reverse.1 hmem)
  obtain ⟨rfl, rfl⟩ := Prod.mk.injEq .. ▸ heq
  exact ⟨rfl, hknown⟩

theorem mem_keys_owned (h : name ∈ c.pipelines.keys) : name ∈ c.owned.keys := by
  by_contra hnot
  rw [← OrderedMap.get?_eq_none_iff, owned, OrderedMap.get?_ofList, List.lookup_eq_none_iff] at hnot
  have hne := hnot (name, name) (List.mem_reverse.2 (List.mem_map_of_mem h))
  simp at hne

/-- The faults are looked for one after the other. -/
theorem check_eq (c : Config) :
    c.check =
      if c.pipelines.isEmpty then .error .noPipelines
      else if c.maxHoldWait = 0 then .error .noHoldWait
      else if c.pipelines.keys.any Blank.isBlankText then .error .blankPipelineName
      else ((claims c.pipelines.entries).foldlM claim c.owned).map fun _ => () := by
  rw [check]
  by_cases hempty : c.pipelines.isEmpty = true
  · rw [if_pos hempty, if_pos hempty]
    rfl
  rw [if_neg hempty, if_neg hempty]
  by_cases hwait : c.maxHoldWait = 0
  · rw [if_pos hwait, if_pos hwait]
    rfl
  rw [if_neg hwait, if_neg hwait, checkNames_eq]
  by_cases hblank : c.pipelines.keys.any Blank.isBlankText = true
  · rw [if_pos hblank, if_pos hblank]
    rfl
  rw [if_neg hblank, if_neg hblank, ← claimNames_eq]
  rfl

theorem allNames_eq (c : Config) :
    c.allNames = c.pipelines.keys ++ (claims c.pipelines.entries).map (·.1) := by
  rw [allNames, OrderedMap.values, List.flatMap_map, claims, List.map_flatMap]
  simp [Function.comp_def]

/-- Who claims a name is a pipeline that lists it. -/
theorem exists_of_mem_claims {entries : List (String × PipelineSection)} {claimant : String}
    (h : (name, claimant) ∈ claims entries) :
    ∃ entry ∈ entries, entry.1 = claimant ∧ name ∈ entry.2.previousNames := by
  obtain ⟨entry, hentry, hmem⟩ := List.mem_flatMap.1 h
  obtain ⟨old, hold, heq⟩ := List.mem_map.1 hmem
  cases heq
  exact ⟨entry, hentry, rfl, hold⟩

theorem duplicate_append_of_mem {l₁ l₂ : List String} (h₁ : name ∈ l₁) (h₂ : name ∈ l₂) :
    (l₁ ++ l₂).Duplicate name :=
  List.duplicate_iff_sublist.2 ((List.singleton_sublist.2 h₁).append (List.singleton_sublist.2 h₂))

/-- A refused claim is a fault of the configuration. -/
theorem fault_of_foldlM_claim
    (h : (claims c.pipelines.entries).foldlM claim c.owned = .error e) : c.Fault e := by
  obtain ⟨earlier, ⟨name, claimant⟩, later, hsplit, hwhy⟩ := of_foldlM_claim_eq_error h
  have hwanted : (name, claimant) ∈ claims c.pipelines.entries := by
    rw [hsplit]
    exact List.mem_append_right _ List.mem_cons_self
  obtain ⟨entry, hentry, rfl, hlists⟩ := exists_of_mem_claims hwanted
  rcases hwhy with ⟨hown, rfl⟩ | ⟨owner, howner | hearlier, rfl⟩
  · obtain rfl : name = entry.1 := hown
    exact .ownPreviousName hentry hlists
  · obtain ⟨rfl, hkey⟩ := get?_owned_eq_some howner
    obtain ⟨other, hother, heq⟩ := List.mem_map.1 hkey
    have htwice : c.allNames.Duplicate other.1 := by
      rw [allNames_eq, heq]
      exact duplicate_append_of_mem hkey (List.mem_map_of_mem hwanted)
    dsimp only at heq
    subst heq
    exact .sharedName hother List.mem_cons_self hentry hlists htwice
  · have hclaimed : (name, owner) ∈ claims c.pipelines.entries := by
      rw [hsplit]
      exact List.mem_append_left _ hearlier
    obtain ⟨other, hother, rfl, hlists'⟩ := exists_of_mem_claims hclaimed
    refine .sharedName hother (List.mem_cons_of_mem _ hlists') hentry hlists ?_
    have htwice : ((claims c.pipelines.entries).map (·.1)).Duplicate name := by
      rw [hsplit, List.map_append]
      exact duplicate_append_of_mem (List.mem_map_of_mem hearlier) List.mem_cons_self
    rw [allNames_eq]
    exact htwice.mono_sublist (List.sublist_append_right _ _)

/-- A configuration with a fault cannot be used. -/
theorem Fault.not_isUsable (h : c.Fault e) : ¬ c.IsUsable := by
  intro husable
  cases h with
  | noPipelines nothing => exact husable.pipelines_ne_nil nothing
  | noHoldWait never => exact absurd husable.holdWait_pos (by omega)
  | blankPipelineName listed blank => exact husable.trim_ne _ listed blank
  | ownPreviousName listed claimed =>
      have htwice : c.allNames.Duplicate _ := duplicate_append_of_mem
        (List.mem_map_of_mem listed)
        (List.mem_flatMap.2 ⟨_, List.mem_map_of_mem listed, claimed⟩)
      exact htwice.not_nodup husable.nodup
  | sharedName _ _ _ _ twice => exact twice.not_nodup husable.nodup

/-- A configuration is refused only for a fault that it has. -/
theorem fault_of_check_eq_error (h : c.check = .error e) : c.Fault e := by
  rw [check_eq] at h
  split at h
  · next hempty =>
    cases h
    exact .noPipelines (List.isEmpty_iff.1 hempty)
  · split at h
    · next hwait =>
      cases h
      exact .noHoldWait hwait
    · split at h
      · next hblank =>
        cases h
        obtain ⟨name, hname, hblank⟩ := List.any_eq_true.1 hblank
        exact .blankPipelineName hname ((Blank.isBlankText_iff name).1 hblank)
      · cases hclaimed : (claims c.pipelines.entries).foldlM claim c.owned with
        | error other =>
            rw [hclaimed] at h
            cases h
            exact fault_of_foldlM_claim hclaimed
        | ok after =>
            rw [hclaimed] at h
            cases h

theorem isUsable_of_check_eq_ok (h : c.check = .ok ()) : c.IsUsable := by
  rw [check_eq] at h
  split at h
  · cases h
  · next hempty =>
    split at h
    · cases h
    · next hwait =>
      split at h
      · cases h
      · next hblank =>
        obtain ⟨after, hclaimed, -⟩ := exists_of_map_eq_ok h
        obtain ⟨hnodup, hfree⟩ := of_foldlM_claim_eq_ok hclaimed
        refine ⟨fun hnil => hempty (List.isEmpty_iff.2 hnil), Nat.pos_of_ne_zero hwait, ?_, ?_⟩
        · intro name hname htrim
          exact hblank (List.any_eq_true.2 ⟨name, hname, (Blank.isBlankText_iff name).2 htrim⟩)
        · rw [allNames_eq, List.nodup_append']
          refine ⟨c.pipelines.nodup_keys, hnodup, fun name hname hclaims => ?_⟩
          exact hfree name hclaims (mem_keys_owned hname)

/-- No name stands for two pipelines of a configuration that passes its check. -/
theorem pairwise_knownAs {c : Config} (h : c.check = .ok ()) :
    c.pipelines.entries.Pairwise fun a b => ∀ known ∈ knownAs a, known ∉ knownAs b := by
  obtain ⟨hnames, hprevious, hapart⟩ := List.nodup_append'.1 (isUsable_of_check_eq_ok h).nodup
  have hnotName : ∀ a ∈ c.pipelines.entries, ∀ b ∈ c.pipelines.entries,
      b.1 ∉ a.2.previousNames := fun a ha b hb hlists =>
    hapart (List.mem_map_of_mem hb) (List.mem_flatMap.2 ⟨a.2, List.mem_map_of_mem ha, hlists⟩)
  have hpairwise := List.pairwise_map.1 (List.nodup_flatMap.1 hprevious).2
  apply ((List.pairwise_map.1 hnames).and hpairwise).imp_of_mem
  rintro a b ha hb ⟨hne, hdisjoint⟩ known hknown hshared
  rcases List.mem_cons.1 hknown with rfl | hold
  · rcases List.mem_cons.1 hshared with heq | hold'
    · exact hne heq
    · exact hnotName b hb a ha hold'
  · rcases List.mem_cons.1 hshared with rfl | hold'
    · exact hnotName a ha b hb hold
    · exact hdisjoint hold hold'

/-- A configuration passes its check exactly if it can be used, and is used as it was read. It is
refused for a fault that it has; in particular the name that is said to be shared is listed twice. -/
theorem check_eq_ok_iff_isUsable (c : Config) :
    (c.check = .ok () ↔ c.IsUsable) ∧
      (∀ content, ofFile content = .ok c → load content = c.check.map fun _ => c) ∧
      ∀ e, c.check = .error e → c.Fault e := by
  refine ⟨⟨isUsable_of_check_eq_ok, fun husable => ?_⟩, fun content hread => ?_, fun e he =>
    fault_of_check_eq_error he⟩
  · cases hcheck : c.check with
    | ok _ => rfl
    | error e => exact absurd husable (fault_of_check_eq_error hcheck).not_isUsable
  · have hload : load content = c.check >>= fun _ => .ok c := by
      rw [load, hread]
      rfl
    rw [hload]
    cases c.check <;> rfl

/-- Two pipelines, of which the second was called differently before. -/
def twoPipelines (previous : String) : Config where
  maxHoldWait := 1000
  defaultLimit := none
  pipelines := .ofList
    [("outbox", ⟨.commit, none, [], false⟩), ("uploads", ⟨.flat, none, [previous], false⟩)]

/-- The text of this configuration. -/
def twoPipelinesText (previous : String) : String :=
  "[pipeline.outbox]\n[pipeline.uploads]\nalgorithm = \"flat\"\nprevious_names = [\"" ++ previous ++
    "\"]\n"

/-- It is used as it was read if the previous name is a third one, and refused if the first pipeline
has this name now. -/
theorem check_twoPipelines :
    ofFile (some (twoPipelinesText "queue").toUTF8) = .ok (twoPipelines "queue") ∧
      (twoPipelines "queue").IsUsable ∧
      load (some (twoPipelinesText "queue").toUTF8) = .ok (twoPipelines "queue") ∧
      (twoPipelines "outbox").check = .error (.sharedName "outbox" "outbox" "uploads") ∧
      (twoPipelines "outbox").Fault (.sharedName "outbox" "outbox" "uploads") := by
  have hdecoded : String.fromUTF8? (twoPipelinesText "queue").toUTF8 =
      some (twoPipelinesText "queue") := rfl
  have hparsed : (Toml.parse (twoPipelinesText "queue")).bind ofEntries? =
      some (twoPipelines "queue") := by
    decide +kernel
  have hread : ofFile (some (twoPipelinesText "queue").toUTF8) = .ok (twoPipelines "queue") := by
    rw [ofFile, Option.bind_some, hdecoded]
    dsimp only
    rw [ofText, hparsed]
  have hpasses : (twoPipelines "queue").check = .ok () := by decide +kernel
  have hrefused : (twoPipelines "outbox").check =
      .error (.sharedName "outbox" "outbox" "uploads") := by
    decide +kernel
  obtain ⟨husable, hload, -⟩ := check_eq_ok_iff_isUsable (twoPipelines "queue")
  refine ⟨hread, husable.1 hpasses, ?_, hrefused, (check_eq_ok_iff_isUsable _).2.2 _ hrefused⟩
  rw [hload _ hread, hpasses]
  rfl

end Config

end OperationQueue
