/-
# Outcomes of computations that may fail

A computation in `Except` succeeds exactly if all of its steps succeed.  The lemmas of this file
take a successful computation apart into its steps, so that no later proof has to look into
`bind` itself.
-/
import Mathlib.Data.List.Forall2
import Mathlib.Tactic.Common

namespace ConvFlow.Outcome

variable {ε ε' α β : Type}

@[simp] lemma pure_eq_ok (a : α) : (pure a : Except ε α) = .ok a := rfl

@[simp] lemma throw_eq_error (e : ε) : (throw e : Except ε α) = .error e := rfl

@[simp] lemma ok_bind (a : α) (f : α → Except ε β) : (Except.ok a >>= f) = f a := rfl

@[simp] lemma error_bind (e : ε) (f : α → Except ε β) :
    ((Except.error e : Except ε α) >>= f) = .error e := rfl

@[simp] lemma map_ok (f : α → β) (a : α) : (Except.ok a : Except ε α).map f = .ok (f a) := rfl

@[simp] lemma map_error (f : α → β) (e : ε) :
    (Except.error e : Except ε α).map f = .error e := rfl

@[simp] lemma mapError_ok (f : ε → ε') (a : α) :
    (Except.ok a : Except ε α).mapError f = .ok a := rfl

lemma map_bind {γ : Type} (x : Except ε α) (f : α → β) (g : β → Except ε γ) :
    (x.map f >>= g) = (x >>= fun a => g (f a)) := by
  cases x with
  | error e => rfl
  | ok a => rfl

lemma bind_eq_ok_iff {x : Except ε α} {f : α → Except ε β} {b : β} :
    (x >>= f) = .ok b ↔ ∃ a, x = .ok a ∧ f a = .ok b := by
  cases x with
  | error e => simp
  | ok a => simp

/-- A check followed by a computation. -/
lemma check_bind_eq_ok_iff {x : Except ε Unit} {f : Unit → Except ε β} {b : β} :
    (x >>= f) = .ok b ↔ x = .ok () ∧ f () = .ok b := by
  rw [bind_eq_ok_iff]
  exact ⟨fun ⟨(), h⟩ => h, fun h => ⟨(), h⟩⟩

lemma map_eq_ok_iff {x : Except ε α} {f : α → β} {b : β} :
    x.map f = .ok b ↔ ∃ a, x = .ok a ∧ f a = b := by
  cases x with
  | error e => simp
  | ok a => simp

lemma map_eq_error_iff {x : Except ε α} {f : α → β} {e : ε} :
    x.map f = .error e ↔ x = .error e := by
  cases x with
  | error e => simp
  | ok a => simp

lemma mapError_eq_ok_iff {x : Except ε α} {f : ε → ε'} {a : α} :
    x.mapError f = .ok a ↔ x = .ok a := by
  cases x with
  | error e => simp [Except.mapError]
  | ok b => simp

lemma toOption_eq_some_iff {x : Except ε α} {a : α} : x.toOption = some a ↔ x = .ok a := by
  cases x with
  | error e => simp [Except.toOption]
  | ok b => simp [Except.toOption]

lemma exists_of_mem_forall₂ {R : α → β → Prop} {l : List α} {bs : List β}
    (h : List.Forall₂ R l bs) {b : β} (hb : b ∈ bs) : ∃ a ∈ l, R a b := by
  obtain ⟨i, hi, rfl⟩ := List.getElem_of_mem hb
  have hi' : i < l.length := h.length_eq ▸ hi
  exact ⟨l[i], List.getElem_mem hi', h.get hi' hi⟩

/-- A computation for each entry of a list. -/
lemma mapM_eq_ok_iff {f : α → Except ε β} {l : List α} {bs : List β} :
    l.mapM f = .ok bs ↔ List.Forall₂ (fun a b => f a = .ok b) l bs := by
  induction l generalizing bs with
  | nil => simp [eq_comm]
  | cons a l ih =>
    simp only [List.mapM_cons, bind_eq_ok_iff, ih, List.forall₂_cons_left_iff, pure_eq_ok,
      Except.ok.injEq]
    constructor
    · rintro ⟨b, hb, rest, hrest, rfl⟩
      exact ⟨b, rest, hb, hrest, rfl⟩
    · rintro ⟨b, rest, hb, hrest, rfl⟩
      exact ⟨b, hb, rest, hrest, rfl⟩

lemma mapM_congr {f g : α → Except ε β} {l : List α} (h : ∀ a ∈ l, f a = g a) :
    l.mapM f = l.mapM g := by
  induction l with
  | nil => rfl
  | cons a l ih =>
    obtain ⟨ha, hl⟩ := List.forall_mem_cons.1 h
    rw [List.mapM_cons, List.mapM_cons, ha, ih hl]

/-- A computation for each entry of a list that fails, always for the same reason, unless the
entry passes a test. -/
lemma mapM_ite {p : α → Bool} {f : α → β} {e : ε} (l : List α) :
    (l.mapM fun a => if p a then Except.ok (f a) else .error e)
      = if l.all p then .ok (l.map f) else .error e := by
  induction l with
  | nil => rfl
  | cons a l ih =>
    rw [List.mapM_cons, ih, List.all_cons]
    cases p a with
    | false => rfl
    | true => cases l.all p <;> rfl

/-- What holds at the start of a loop and is kept by every step holds at its end. -/
lemma foldlM_invariant {P : β → Prop} {f : β → α → Except ε β} {l : List α} {b c : β}
    (hstep : ∀ b a c, P b → f b a = .ok c → P c) (hb : P b) (h : l.foldlM f b = .ok c) : P c := by
  induction l generalizing b with
  | nil =>
    obtain rfl : b = c := by simpa using h
    exact hb
  | cons a l ih =>
    rw [List.foldlM_cons] at h
    obtain ⟨mid, hmid, hrest⟩ := bind_eq_ok_iff.1 h
    exact ih (hstep b a mid hb hmid) hrest

/-- If every step of a loop commutes with a change of the state, so does the loop. -/
lemma foldlM_map {f : β → α → Except ε β} {φ : β → β} {l : List α}
    (hstep : ∀ a ∈ l, ∀ b, f (φ b) a = (f b a).map φ) (b : β) :
    l.foldlM f (φ b) = (l.foldlM f b).map φ := by
  induction l generalizing b with
  | nil => rfl
  | cons a l ih =>
    obtain ⟨ha, hl⟩ := List.forall_mem_cons.1 hstep
    rw [List.foldlM_cons, List.foldlM_cons, ha]
    cases f b a with
    | error e => rfl
    | ok c => exact ih hl c

/-- An optional computation for each entry of a list. -/
lemma mapM_eq_some_iff {f : α → Option β} {l : List α} {bs : List β} :
    l.mapM f = some bs ↔ List.Forall₂ (fun a b => f a = some b) l bs := by
  induction l generalizing bs with
  | nil => simp [eq_comm]
  | cons a l ih =>
    simp only [List.mapM_cons, Option.bind_eq_bind, Option.bind_eq_some_iff, ih,
      List.forall₂_cons_left_iff, Option.pure_def, Option.some.injEq]
    constructor
    · rintro ⟨b, hb, rest, hrest, rfl⟩
      exact ⟨b, rest, hb, hrest, rfl⟩
    · rintro ⟨b, rest, hb, hrest, rfl⟩
      exact ⟨b, hb, rest, hrest, rfl⟩

/-- An optional computation behind a condition. -/
lemma guard_bind_eq_some_iff {p : Prop} [Decidable p] {f : Unit → Option β} {b : β} :
    (guard p >>= f) = some b ↔ p ∧ f () = some b := by
  by_cases hp : p
  · rw [guard, if_pos hp]
    show f () = some b ↔ p ∧ f () = some b
    exact (and_iff_right hp).symm
  · rw [guard, if_neg hp]
    exact iff_of_false (fun h => nomatch h) fun h => hp h.1

end ConvFlow.Outcome
