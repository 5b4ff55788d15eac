import Mathlib.Algebra.GroupWithZero.Nat
import Mathlib.Data.List.Basic

/-!
# Reading a list page by page

A reader takes a cursor and a page size and returns a page with the next cursor, or fails.
`pages` follows the cursors. `Serves` says what one read has to do: it succeeds, returns the first
items of what is still to come and leaves the others. `Serves.pages` is what follows for every
sequence of page sizes.

`scan` follows the cursors while the list changes from one request to the next. `scan_covers` is what
follows if each read lists what is pending or leaves it pending, and each change keeps what the cursor
relies on (`Undisturbed`).
-/

set_option autoImplicit false

namespace Paging

variable {κ π α ε : Type}

/-- The pages of the sizes `ns`, each read from the cursor the page before it returned. -/
def pages (read : κ → Nat → Except ε (π × κ)) : κ → List Nat → Except ε (List π)
  | _, [] => .ok []
  | c, n :: ns =>
    match read c n with
    | .error e => .error e
    | .ok (page, next) =>
      match pages read next ns with
      | .error e => .error e
      | .ok rest => .ok (page :: rest)

/-- From a cursor in `I`, a read of `n` items returns the first `n` of those still to come. -/
def Serves (read : κ → Nat → Except ε (π × κ)) (items : π → List α) (todo : κ → List α)
    (I : κ → Prop) : Prop :=
  ∀ c n, I c → 1 ≤ n → ∃ page next, read c n = .ok (page, next) ∧
    items page = (todo c).take n ∧ todo next = (todo c).drop n ∧ I next

variable {read : κ → Nat → Except ε (π × κ)} {items : π → List α} {todo : κ → List α} {I : κ → Prop}

/-- Every page is the next piece of the list, of the size asked for as long as the list lasts. -/
theorem Serves.pages (h : Serves read items todo I) {c : κ} (hc : I c) {ns : List Nat}
    (hn : ∀ n ∈ ns, 1 ≤ n) :
    ∃ ps, Paging.pages read c ns = .ok ps ∧ ps.length = ns.length ∧
      ∀ i, (ps.take i).flatMap items = (todo c).take (ns.take i).sum ∧
        ∀ n p, ns[i]? = some n → ps[i]? = some p →
          items p = ((todo c).drop (ns.take i).sum).take n := by
  induction ns generalizing c with
  | nil => exact ⟨[], rfl, rfl, fun i => ⟨by simp, by simp⟩⟩
  | cons n ns ih =>
    obtain ⟨page, next, hread, hitems, htodo, hnext⟩ := h c n hc (hn n List.mem_cons_self)
    obtain ⟨ps, hps, hlen, hrest⟩ := ih hnext fun k hk => hn k (List.mem_cons_of_mem n hk)
    refine ⟨page :: ps, by rw [Paging.pages, hread]; dsimp only; rw [hps], by simp [hlen], fun i => ?_⟩
    cases i with
    | zero =>
      refine ⟨by simp, fun k p hk hp => ?_⟩
      simp only [List.getElem?_cons_zero, Option.some.injEq] at hk hp
      rw [← hk, ← hp]
      simpa using hitems
    | succ i =>
      obtain ⟨h1, h2⟩ := hrest i
      refine ⟨?_, fun k p hk hp => ?_⟩
      · rw [List.take_succ_cons, List.flatMap_cons, h1, List.take_succ_cons, List.sum_cons,
          List.take_add, hitems, htodo]
      · simp only [List.getElem?_cons_succ] at hk hp
        rw [h2 k p hk hp, htodo, List.take_succ_cons, List.sum_cons, List.drop_drop]

/-! ## A list that changes -/

section
variable {σ β : Type}

/-- The pages of the requests, each for a state and a size, from the cursor the page before
returned. -/
def scan (read : σ → κ → Nat → Except ε (π × κ)) : κ → List (σ × Nat) → Except ε (List π)
  | _, [] => .ok []
  | c, (s, n) :: requests =>
    match read s c n with
    | .error e => .error e
    | .ok (page, next) =>
      match scan read next requests with
      | .error e => .error e
      | .ok rest => .ok (page :: rest)

/-- Every change between two requests keeps what the cursor relies on, from the state in which it was
returned to the one in which it is used. -/
def Undisturbed (read : σ → κ → Nat → Except ε (π × κ)) (keeps : σ → κ → σ → Prop) :
    κ → List (σ × Nat) → Prop
  | _, [] => True
  | c, (s, n) :: requests => ∀ page next, read s c n = .ok (page, next) →
      (∀ r, requests.head? = some r → keeps s next r.1) ∧ Undisturbed read keeps next requests

/-- The last page is not full. -/
def Exhausted (items : π → List β) (requests : List (σ × Nat)) (pages : List π) : Prop :=
  ∃ request page, requests.getLast? = some request ∧ pages.getLast? = some page ∧
    (items page).length < request.2

variable {read : σ → κ → Nat → Except ε (π × κ)} {keeps : σ → κ → σ → Prop} {items : π → List β}

theorem scan_cons_ok {c : κ} {s : σ} {n : Nat} {requests : List (σ × Nat)} {ps : List π}
    (h : scan read c ((s, n) :: requests) = .ok ps) :
    ∃ page next rest, read s c n = .ok (page, next) ∧ scan read next requests = .ok rest ∧
      ps = page :: rest := by
  rw [scan] at h
  split at h
  · cases h
  · rename_i page next hread
    split at h
    · cases h
    · rename_i rest hrest
      cases h
      exact ⟨page, next, rest, hread, hrest, rfl⟩

/-- **What is there all the time is listed**, if a read lists what is pending or is full and leaves it
pending, and a change leaves it pending as long as it is there. -/
theorem scan_covers (ok : σ → Prop) (fits : σ → κ → Prop) (present : σ → α → Prop)
    (pending : σ → κ → α → Prop) (val : α → β)
    (hread : ∀ s c n page next, ok s → I c → fits s c → read s c n = .ok (page, next) →
      I next ∧ ∀ a, pending s c a →
        val a ∈ items page ∨ (pending s next a ∧ n ≤ (items page).length))
    (hkeep : ∀ s c s', keeps s c s' →
      fits s' c ∧ ∀ a, pending s c a → present s' a → pending s' c a)
    {s : σ} {n : Nat} {c : κ} {requests : List (σ × Nat)} {ps : List π} {a : α}
    (hok : ∀ r ∈ (s, n) :: requests, ok r.1) (hc : I c) (hfits : fits s c) (hpending : pending s c a)
    (hquiet : Undisturbed read keeps c ((s, n) :: requests))
    (hpresent : ∀ r ∈ requests, present r.1 a)
    (hscan : scan read c ((s, n) :: requests) = .ok ps)
    (hend : Exhausted items ((s, n) :: requests) ps) : ∃ p ∈ ps, val a ∈ items p := by
  induction requests generalizing s n c ps with
  | nil =>
    obtain ⟨page, next, rest, hpage, hnext, rfl⟩ := scan_cons_ok hscan
    cases hnext
    refine ⟨page, List.mem_cons_self, ?_⟩
    rcases (hread s c n page next (hok _ List.mem_cons_self) hc hfits hpage).2 a hpending with
      hlisted | ⟨-, hfull⟩
    · exact hlisted
    · -- the last page is not full
      obtain ⟨request, p, hr, hp, hshort⟩ := hend
      cases hr
      cases hp
      exact absurd hfull (Nat.not_le.2 hshort)
  | cons request requests ih =>
    obtain ⟨s', n'⟩ := request
    obtain ⟨page, next, rest, hpage, hnext, rfl⟩ := scan_cons_ok hscan
    obtain ⟨hinext, hcovers⟩ := hread s c n page next (hok _ List.mem_cons_self) hc hfits hpage
    obtain ⟨hkeeps, hquiet'⟩ := hquiet page next hpage
    obtain ⟨hfits', hpending'⟩ := hkeep s next s' (hkeeps _ rfl)
    rcases hcovers a hpending with hlisted | ⟨hleft, -⟩
    · exact ⟨page, List.mem_cons_self, hlisted⟩
    · have hend' : Exhausted items ((s', n') :: requests) rest := by
        obtain ⟨request, p, hr, hp, hshort⟩ := hend
        obtain ⟨page', next', rest', -, -, rfl⟩ := scan_cons_ok hnext
        rw [List.getLast?_cons_cons] at hr hp
        exact ⟨request, p, hr, hp, hshort⟩
      obtain ⟨p, hp, hlisted⟩ := ih (fun r hr => hok r (List.mem_cons_of_mem _ hr)) hinext hfits'
        (hpending' a hleft (hpresent _ List.mem_cons_self)) hquiet'
        (fun r hr => hpresent r (List.mem_cons_of_mem _ hr)) hnext hend'
      exact ⟨p, List.mem_cons_of_mem _ hp, hlisted⟩

end

end Paging
