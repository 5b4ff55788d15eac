import Mathlib.Data.List.Forall2

/-!
# Computations that succeed

What the success of a composed computation in `Except` says about its parts.
-/

set_option autoImplicit false

namespace Fallible

variable {ε α β : Type}

theorem ok_bind (a : α) (f : α → Except ε β) : (Except.ok a >>= f) = f a := rfl

theorem bind_ok_iff {x : Except ε α} {f : α → Except ε β} {b : β} :
    x >>= f = .ok b ↔ ∃ a, x = .ok a ∧ f a = .ok b := by
  cases x with
  | error e => simp [bind, Except.bind]
  | ok a => simp [bind, Except.bind]

theorem pure_ok_iff {a b : α} : (pure a : Except ε α) = .ok b ↔ a = b := Except.ok.injEq a b ▸ Iff.rfl

theorem map_ok_iff {x : Except ε α} {f : α → β} {b : β} :
    f <$> x = .ok b ↔ ∃ a, x = .ok a ∧ f a = b := by
  cases x with
  | error e => simp [Functor.map, Except.map]
  | ok a => simp [Functor.map, Except.map]

theorem mapM_ok_iff {f : α → Except ε β} {l : List α} {bs : List β} :
    l.mapM f = .ok bs ↔ List.Forall₂ (fun a b => f a = .ok b) l bs := by
  induction l generalizing bs with
  | nil => rw [List.mapM_nil, pure_ok_iff, List.forall₂_nil_left_iff, eq_comm]
  | cons a l ih =>
    simp only [List.mapM_cons, bind_ok_iff, pure_ok_iff, ih, List.forall₂_cons_left_iff]
    constructor
    · rintro ⟨b, hb, bs, hbs, rfl⟩
      exact ⟨b, bs, hb, hbs, rfl⟩
    · rintro ⟨b, bs, hb, hbs, rfl⟩
      exact ⟨b, hb, bs, hbs, rfl⟩

/-- Results that are there for each item, with what is known of each. -/
theorem mapM_ok_of_forall {f : α → Except ε β} {P : α → β → Prop} {l : List α}
    (h : ∀ a ∈ l, ∃ b, f a = .ok b ∧ P a b) : ∃ bs, l.mapM f = .ok bs ∧ List.Forall₂ P l bs := by
  induction l with
  | nil => exact ⟨[], rfl, .nil⟩
  | cons a l ih =>
    obtain ⟨b, hb, hP⟩ := h a List.mem_cons_self
    obtain ⟨bs, hbs, hPs⟩ := ih fun a' ha' => h a' (List.mem_cons_of_mem a ha')
    rw [List.mapM_cons, hb, ok_bind, hbs]
    exact ⟨b :: bs, rfl, .cons hP hPs⟩

theorem exists_of_mapM_ok {f : α → Except ε β} {l : List α} {bs : List β} {b : β}
    (h : l.mapM f = .ok bs) (hb : b ∈ bs) : ∃ a ∈ l, f a = .ok b := by
  have hall := mapM_ok_iff.1 h
  clear h
  induction hall with
  | nil => cases hb
  | @cons a c l bs hc _ ih =>
    rcases List.mem_cons.1 hb with rfl | hb
    · exact ⟨a, List.mem_cons_self, hc⟩
    · obtain ⟨a', ha', hfa'⟩ := ih hb
      exact ⟨a', List.mem_cons_of_mem a ha', hfa'⟩

/-- The result of a map at a position is that of the item there. -/
theorem getElem?_of_mapM_ok {f : α → Except ε β} {l : List α} {bs : List β} {i : Nat} {a : α}
    (h : l.mapM f = .ok bs) (ha : l[i]? = some a) : ∃ b, bs[i]? = some b ∧ f a = .ok b := by
  have hall := mapM_ok_iff.1 h
  clear h
  induction hall generalizing i with
  | nil => cases ha
  | @cons a' b l bs hb _ ih =>
    cases i with
    | zero =>
      obtain rfl : a' = a := Option.some.inj ha
      exact ⟨b, rfl, hb⟩
    | succ i => exact ih ha

theorem exists_mapM_ok {f : α → Except ε β} {l : List α} {bs : List β} {a : α}
    (h : l.mapM f = .ok bs) (ha : a ∈ l) : ∃ b ∈ bs, f a = .ok b := by
  obtain ⟨i, hi⟩ := List.mem_iff_getElem?.1 ha
  obtain ⟨b, hb, hfa⟩ := getElem?_of_mapM_ok h hi
  exact ⟨b, List.mem_of_getElem? hb, hfa⟩

theorem foldlM_cons_ok_iff {f : β → α → Except ε β} {a : α} {l : List α} {b c : β} :
    (a :: l).foldlM f b = .ok c ↔ ∃ b', f b a = .ok b' ∧ l.foldlM f b' = .ok c := by
  rw [List.foldlM_cons, bind_ok_iff]

/-- Whether a computation succeeds with a value that passes a test. -/
def succeedsWith (x : Except ε α) (p : α → Bool) : Bool :=
  match x with
  | .ok a => p a
  | .error _ => false

theorem succeedsWith_iff {x : Except ε α} {p : α → Bool} :
    succeedsWith x p = true ↔ ∃ a, x = .ok a ∧ p a = true := by
  cases x with
  | error e => simp [succeedsWith]
  | ok a => simp [succeedsWith]

instance decidableExistsOk (x : Except ε α) (p : α → Prop) [DecidablePred p] :
    Decidable (∃ a, x = .ok a ∧ p a) :=
  decidable_of_iff (succeedsWith x fun a => decide (p a)) (by simp [succeedsWith_iff])

end Fallible
