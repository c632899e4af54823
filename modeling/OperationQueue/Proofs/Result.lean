/-
# Results that succeeded

A computation that may fail succeeds only if each of its parts does, so from its result
one can read what every part gave.
-/
import Mathlib.Data.List.Forall2
import OperationQueue.Error

namespace OperationQueue

variable {α β σ : Type}

theorem exists_of_bind_eq_ok {x : Except Error α} {f : α → Except Error β} {b : β}
    (h : x >>= f = .ok b) : ∃ a, x = .ok a ∧ f a = .ok b := by
  cases x with
  | error e => cases h
  | ok a => exact ⟨a, rfl, h⟩

theorem exists_of_map_eq_ok {x : Except Error α} {f : α → β} {b : β} (h : x.map f = .ok b) :
    ∃ a, x = .ok a ∧ f a = b := by
  cases x with
  | error e => cases h
  | ok a => exact ⟨a, rfl, Except.ok.inj h⟩

/-- A computation of two parts fails because one of them does. -/
theorem of_bind_eq_error {x : Except Error α} {f : α → Except Error β} {e : Error}
    (h : x >>= f = .error e) : x = .error e ∨ ∃ a, x = .ok a ∧ f a = .error e := by
  cases x with
  | error other =>
      cases h
      exact .inl rfl
  | ok a => exact .inr ⟨a, rfl, h⟩

/-- What follows a computation matters only for what the computation gives. -/
theorem bind_congr_of_ok {x : Except Error α} {f g : α → Except Error β}
    (h : ∀ a, x = .ok a → f a = g a) : x >>= f = x >>= g := by
  cases x with
  | error e => rfl
  | ok a => exact h a rfl

theorem map_bind_eq {γ : Type} (x : Except Error α) (f : α → β) (g : β → Except Error γ) :
    x.map f >>= g = x >>= fun a => g (f a) := by
  cases x <;> rfl

theorem foldlM_cons_eq_ok {f : σ → α → Except Error σ} {x : α} {xs : List α} {u v : σ}
    (h : (x :: xs).foldlM f u = .ok v) : ∃ m, f u x = .ok m ∧ xs.foldlM f m = .ok v := by
  rw [List.foldlM_cons] at h
  exact exists_of_bind_eq_ok h

/-- What every step of a fold keeps, the fold keeps. -/
theorem foldlM_invariant (P : σ → Prop) {f : σ → α → Except Error σ} {xs : List α} {u v : σ}
    (hstep : ∀ x ∈ xs, ∀ u v, P u → f u x = .ok v → P v) (hu : P u) (h : xs.foldlM f u = .ok v) :
    P v := by
  induction xs generalizing u with
  | nil =>
      cases h
      exact hu
  | cons x xs ih =>
      obtain ⟨m, hm, hrest⟩ := foldlM_cons_eq_ok h
      apply ih (fun y hy => hstep y (List.mem_cons_of_mem _ hy)) _ hrest
      exact hstep x List.mem_cons_self u m hu hm

/-- What every step of a fold keeps is so in the end, if one step brings it about. -/
theorem foldlM_reaches (P : σ → Prop) {f : σ → α → Except Error σ} {xs : List α} {u v : σ}
    (hstep : ∀ x ∈ xs, ∀ u v, P u → f u x = .ok v → P v) {x : α} (hx : x ∈ xs)
    (hreach : ∀ u v, f u x = .ok v → P v) (h : xs.foldlM f u = .ok v) : P v := by
  induction xs generalizing u with
  | nil => cases hx
  | cons y xs ih =>
      obtain ⟨m, hm, hrest⟩ := foldlM_cons_eq_ok h
      have hlater : ∀ x ∈ xs, ∀ u v, P u → f u x = .ok v → P v :=
        fun x hx => hstep x (List.mem_cons_of_mem _ hx)
      rcases List.mem_cons.1 hx with rfl | hx
      · exact foldlM_invariant P hlater (hreach u m hm) hrest
      · exact ih hlater hx hrest

theorem forall₂_of_mapM_eq_ok {f : α → Except Error β} {xs : List α} {ys : List β}
    (h : xs.mapM f = .ok ys) : List.Forall₂ (fun x y => f x = .ok y) xs ys := by
  induction xs generalizing ys with
  | nil =>
      cases h
      exact .nil
  | cons x xs ih =>
      rw [List.mapM_cons] at h
      obtain ⟨y, hy, h⟩ := exists_of_bind_eq_ok h
      obtain ⟨rest, hrest, h⟩ := exists_of_bind_eq_ok h
      cases h
      exact .cons hy (ih hrest)

/-- Computing a list fails because one of its members does. -/
theorem exists_of_mapM_eq_error {f : α → Except Error β} {xs : List α} {e : Error}
    (h : xs.mapM f = .error e) : ∃ x ∈ xs, f x = .error e := by
  induction xs with
  | nil => cases h
  | cons x xs ih =>
      rw [List.mapM_cons] at h
      rcases of_bind_eq_error h with h | ⟨y, -, h⟩
      · exact ⟨x, List.mem_cons_self, h⟩
      · rcases of_bind_eq_error h with h | ⟨rest, -, h⟩
        · obtain ⟨x', hx', hfails⟩ := ih h
          exact ⟨x', List.mem_cons_of_mem _ hx', hfails⟩
        · cases h

/-- What becomes of every result becomes of all results together. -/
theorem mapM_map_of_forall {f g : α → Except Error β} {k : β → β} {xs : List α}
    (h : ∀ x ∈ xs, g x = (f x).map k) : xs.mapM g = (xs.mapM f).map (List.map k) := by
  induction xs with
  | nil => rfl
  | cons x xs ih =>
      rw [List.mapM_cons, List.mapM_cons, h x List.mem_cons_self,
        ih fun y hy => h y (List.mem_cons_of_mem _ hy)]
      cases f x with
      | error e => rfl
      | ok y => cases xs.mapM f <;> rfl

/-- A replacement of the inputs that every result follows, all results follow. -/
theorem mapM_map_eq {f : α → Except Error β} {g : α → α} {k : β → β}
    (h : ∀ x, f (g x) = (f x).map k) (xs : List α) :
    (xs.map g).mapM f = (xs.mapM f).map (List.map k) := by
  rw [List.mapM_map]
  exact mapM_map_of_forall fun x _ => h x

theorem mapM_eq_ok_of_forall {f : α → Except Error β} {g : α → β} {xs : List α}
    (h : ∀ x ∈ xs, f x = .ok (g x)) : xs.mapM f = .ok (xs.map g) := by
  induction xs with
  | nil => rfl
  | cons x xs ih =>
      rw [List.mapM_cons, h x List.mem_cons_self, ih fun y hy => h y (List.mem_cons_of_mem _ hy)]
      rfl

theorem exists_of_forall₂_of_mem {R : α → β → Prop} {xs : List α} {ys : List β}
    (h : List.Forall₂ R xs ys) {y : β} (hy : y ∈ ys) : ∃ x ∈ xs, R x y := by
  induction h with
  | nil => cases hy
  | @cons x _ _ _ hx _ ih =>
      rcases List.mem_cons.1 hy with rfl | hy
      · exact ⟨x, List.mem_cons_self, hx⟩
      · obtain ⟨x', hx', hr⟩ := ih hy
        exact ⟨x', List.mem_cons_of_mem _ hx', hr⟩

/-- A list is computed only if all of its members are. -/
theorem exists_of_mapM_eq_ok {f : α → Except Error β} {xs : List α} {ys : List β}
    (h : xs.mapM f = .ok ys) {x : α} (hx : x ∈ xs) : ∃ y ∈ ys, f x = .ok y :=
  exists_of_forall₂_of_mem (forall₂_of_mapM_eq_ok h).flip hx

theorem forall_of_forM_eq_ok {f : α → Except Error Unit} {xs : List α} (h : xs.forM f = .ok ()) :
    ∀ x ∈ xs, f x = .ok () := by
  induction xs with
  | nil => exact fun x hx => nomatch hx
  | cons x xs ih =>
      have hbind : (f x >>= fun _ => xs.forM f) = .ok () := h
      obtain ⟨_, hx, hrest⟩ := exists_of_bind_eq_ok hbind
      intro y hy
      cases hy with
      | head => exact hx
      | tail _ hy => exact ih hrest y hy

theorem forM_eq_ok_of_forall {f : α → Except Error Unit} {xs : List α}
    (h : ∀ x ∈ xs, f x = .ok ()) : xs.forM f = .ok () := by
  induction xs with
  | nil => rfl
  | cons x xs ih =>
      have hbind : (x :: xs).forM f = (f x >>= fun _ => xs.forM f) := rfl
      rw [hbind, h x List.mem_cons_self]
      exact ih fun y hy => h y (List.mem_cons_of_mem _ hy)

/-! ## Two computations that fail alike -/

/-- Both computations fail, or both succeed and their results are related. -/
inductive Alike (R : α → β → Prop) : Except Error α → Except Error β → Prop
  | ok {a : α} {b : β} (related : R a b) : Alike R (.ok a) (.ok b)
  | error (e f : Error) : Alike R (.error e) (.error f)

/-- Computations that fail alike can be followed by others that give related results. -/
theorem Alike.map {γ δ : Type} {R : α → β → Prop} {S : γ → δ → Prop} {f : α → γ} {g : β → δ}
    {x : Except Error α} {y : Except Error β} (h : Alike R x y)
    (hrelated : ∀ {a b}, R a b → S (f a) (g b)) : Alike S (x.map f) (y.map g) := by
  cases h with
  | ok related => exact .ok (hrelated related)
  | error e f => exact .error e f

/-- Folds fail alike if their steps do. -/
theorem Alike.foldlM {τ : Type} {R : σ → τ → Prop} {f : σ → α → Except Error σ}
    {g : τ → α → Except Error τ} {xs : List α}
    (hstep : ∀ x ∈ xs, ∀ {u v}, R u v → Alike R (f u x) (g v x)) {u : σ} {v : τ} (h : R u v) :
    Alike R (xs.foldlM f u) (xs.foldlM g v) := by
  induction xs generalizing u v with
  | nil => exact .ok h
  | cons x xs ih =>
      have hx := hstep x List.mem_cons_self h
      rw [List.foldlM_cons, List.foldlM_cons]
      cases hf : f u x with
      | error e =>
          cases hg : g v x with
          | error e' => exact .error e e'
          | ok v' =>
              rw [hf, hg] at hx
              cases hx
      | ok u' =>
          cases hg : g v x with
          | error e' =>
              rw [hf, hg] at hx
              cases hx
          | ok v' =>
              rw [hf, hg] at hx
              cases hx with
              | ok related =>
                  exact ih (fun y hy => hstep y (List.mem_cons_of_mem _ hy)) related

end OperationQueue
