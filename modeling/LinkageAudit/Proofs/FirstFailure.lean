import LinkageAudit.Traced
import Mathlib.Data.List.Forall2

/-!
# Sequences that stop at the first failure

What a sequence of steps comes to, read off its steps. A step is an `Except` value, or a traced
computation, whose result is one.

* `bind_eq_ok_iff`, `mapError_eq_ok_iff`: a composed result is a value only through values.
* `mapM_eq_ok_iff`, `mapM_eq_error_iff`: going through a list succeeds exactly if every step
  does, and fails with its first failure.
* `Traced.result_bind`, `Traced.opened_bind_of_ok`: the two observations of a composed computation.
-/

namespace LinkageAudit

section Results

variable {ε ε' α β : Type}

@[simp] theorem ok_bind (a : α) (f : α → Except ε β) : (Except.ok a >>= f) = f a := rfl

@[simp] theorem error_bind (e : ε) (f : α → Except ε β) :
    (Except.error e >>= f) = .error e := rfl

theorem bind_eq_ok_iff {x : Except ε α} {f : α → Except ε β} {b : β} :
    x >>= f = .ok b ↔ ∃ a, x = .ok a ∧ f a = .ok b := by
  cases x <;> simp

theorem map_eq_ok_iff {x : Except ε α} {f : α → β} {b : β} :
    x.map f = .ok b ↔ ∃ a, x = .ok a ∧ f a = b := by
  cases x <;> simp [Except.map]

theorem mapError_eq_ok_iff {x : Except ε α} {f : ε → ε'} {a : α} :
    x.mapError f = .ok a ↔ x = .ok a := by
  cases x <;> simp [Except.mapError]

theorem mapError_eq_error_iff {x : Except ε α} {f : ε → ε'} {e' : ε'} :
    x.mapError f = .error e' ↔ ∃ e, x = .error e ∧ f e = e' := by
  cases x <;> simp [Except.mapError]

theorem mapM_eq_ok_iff {f : α → Except ε β} {l : List α} {r : List β} :
    l.mapM f = .ok r ↔ List.Forall₂ (fun a b => f a = .ok b) l r := by
  induction l generalizing r with
  | nil => simp [pure, Except.pure, eq_comm]
  | cons a l ih =>
    rw [List.mapM_cons, bind_eq_ok_iff, List.forall₂_cons_left_iff]
    simp only [bind_eq_ok_iff, ih, pure, Except.pure, Except.ok.injEq]
    constructor
    · rintro ⟨b, hb, bs, hbs, rfl⟩
      exact ⟨b, bs, hb, hbs, rfl⟩
    · rintro ⟨b, bs, hb, hbs, rfl⟩
      exact ⟨b, hb, bs, hbs, rfl⟩

/-- The same of steps that fail without a reason. -/
theorem mapM_eq_some_iff {f : α → Option β} {l : List α} {r : List β} :
    l.mapM f = some r ↔ List.Forall₂ (fun a b => f a = some b) l r := by
  induction l generalizing r with
  | nil => simp [eq_comm]
  | cons a l ih =>
    rw [List.mapM_cons, List.forall₂_cons_left_iff]
    simp only [Option.bind_eq_bind, Option.bind_eq_some_iff, ih, Option.pure_def,
      Option.some.injEq]
    constructor
    · rintro ⟨b, hb, bs, hbs, rfl⟩
      exact ⟨b, bs, hb, hbs, rfl⟩
    · rintro ⟨b, bs, hb, hbs, rfl⟩
      exact ⟨b, hb, bs, hbs, rfl⟩

/-- What each member has a partner for, the list has. -/
theorem exists_forall₂ {r : α → β → Prop} {l : List α} (h : ∀ a ∈ l, ∃ b, r a b) :
    ∃ l', List.Forall₂ r l l' := by
  induction l with
  | nil => exact ⟨[], .nil⟩
  | cons a l ih =>
    obtain ⟨⟨b, hb⟩, hl⟩ := List.forall_mem_cons.1 h
    obtain ⟨l', hl'⟩ := ih hl
    exact ⟨b :: l', .cons hb hl'⟩

/-- Every step on the left has a partner on the right. -/
theorem exists_right_of_forall₂ {r : α → β → Prop} {l : List α} {l' : List β}
    (h : List.Forall₂ r l l') {a : α} (ha : a ∈ l) : ∃ b ∈ l', r a b := by
  induction h with
  | nil => cases ha
  | @cons x y l l' hxy _ ih =>
    rcases List.mem_cons.1 ha with rfl | ha
    · exact ⟨y, List.mem_cons_self, hxy⟩
    · obtain ⟨b, hb, hab⟩ := ih ha
      exact ⟨b, List.mem_cons_of_mem _ hb, hab⟩

/-- Going through a list fails with the first failure, and only with that. -/
theorem mapM_eq_error_iff {f : α → Except ε β} {l : List α} {e : ε} :
    l.mapM f = .error e ↔ ∃ before a after, l = before ++ a :: after ∧
      (∀ x ∈ before, ∃ b, f x = .ok b) ∧ f a = .error e := by
  induction l with
  | nil => simp [pure, Except.pure]
  | cons x l ih =>
    rw [List.mapM_cons]
    cases hx : f x with
    | error e' =>
      change Except.error e' = .error e ↔ _
      constructor
      · rintro ⟨⟩
        exact ⟨[], x, l, rfl, by simp, hx⟩
      · rintro ⟨before, a, after, hl, hb, ha⟩
        cases before with
        | nil =>
          obtain ⟨rfl, rfl⟩ := List.cons.inj hl
          rw [hx] at ha
          cases ha
          rfl
        | cons y before =>
          obtain ⟨rfl, -⟩ := List.cons.inj hl
          obtain ⟨b, hy⟩ := hb x List.mem_cons_self
          rw [hx] at hy
          cases hy
    | ok b =>
      have hrest : (Except.ok b >>= fun b => l.mapM f >>= fun bs => pure (b :: bs)) = .error e ↔
          l.mapM f = .error e := by
        cases l.mapM f <;> simp [pure, Except.pure]
      rw [hrest, ih]
      constructor
      · rintro ⟨before, a, after, rfl, hb, ha⟩
        exact ⟨x :: before, a, after, rfl, List.forall_mem_cons.2 ⟨⟨b, hx⟩, hb⟩, ha⟩
      · rintro ⟨before, a, after, hl, hb, ha⟩
        cases before with
        | nil =>
          obtain ⟨rfl, rfl⟩ := List.cons.inj hl
          rw [hx] at ha
          cases ha
        | cons y before =>
          obtain ⟨rfl, rfl⟩ := List.cons.inj hl
          exact ⟨before, a, after, rfl, (List.forall_mem_cons.1 hb).2, ha⟩

end Results

namespace Traced

variable {ε ε' α β γ : Type}

/-- Events do not change what a sequence comes to. -/
@[simp] theorem result_bind (x : Traced ε α) (f : α → Traced ε β) :
    (x >>= f).result = x.result >>= fun a => (f a).result := by
  cases h : x.result with
  | error e => rw [bind_of_error h]; rfl
  | ok a => rw [bind_of_ok h]; rfl

/-- It does not matter where a sequence is cut in two. -/
theorem bind_assoc (x : Traced ε α) (f : α → Traced ε β) (g : β → Traced ε γ) :
    x >>= f >>= g = x >>= fun a => f a >>= g := by
  cases hx : x.result with
  | error e => rw [bind_of_error hx, bind_of_error hx, bind_of_error rfl]
  | ok a =>
    rw [bind_of_ok hx, bind_of_ok hx]
    cases hf : (f a).result with
    | error e => rw [bind_of_error hf, bind_of_error rfl]
    | ok b => rw [bind_of_ok hf, bind_of_ok rfl, List.append_assoc]

theorem ofExcept_ok_bind (a : α) (f : α → Traced ε β) : ofExcept (.ok a) >>= f = f a := by
  rw [bind_of_ok rfl]
  rfl

theorem opened_bind_of_ok {x : Traced ε α} {a : α} (h : x.result = .ok a)
    (f : α → Traced ε β) : (x >>= f).opened = x.opened ++ (f a).opened := by
  rw [bind_of_ok h]
  simp only [opened, List.filterMap_append]

theorem opened_bind_of_error {x : Traced ε α} {e : ε} (h : x.result = .error e)
    (f : α → Traced ε β) : (x >>= f).opened = x.opened := by
  rw [bind_of_error h]
  rfl

/-- Steps behind that open no file make no difference to what is opened. -/
theorem opened_bind_of_silent {x : Traced ε α} {f : α → Traced ε β}
    (hf : ∀ a, (f a).opened = []) : (x >>= f).opened = x.opened := by
  cases h : x.result with
  | error e => rw [opened_bind_of_error h]
  | ok a => rw [opened_bind_of_ok h, hf a, List.append_nil]

/-- Steps that open no file make a computation that opens none. -/
theorem opened_bind_eq_nil {x : Traced ε α} {f : α → Traced ε β} (hx : x.opened = [])
    (hf : ∀ a, (f a).opened = []) : (x >>= f).opened = [] := by
  rw [opened_bind_of_silent hf, hx]

@[simp] theorem opened_pure (a : α) : (pure a : Traced ε α).opened = [] := rfl

end Traced

end LinkageAudit
