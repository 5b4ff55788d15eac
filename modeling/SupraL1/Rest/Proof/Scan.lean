import Mathlib.Data.List.TakeWhile
import SupraL1.Lib.Fallible
import SupraL1.Rest.Proof.Pagination

/-!
# Pages of a list that changes

The client follows the cursors while entries of the account are inserted and deleted. A cursor
without an index stands at a key that has been listed, and the next page skips the first key from
there on, so this key has to be there still. A cursor with an index stands inside a group, and the next
page goes on with this index, so the members that are not listed yet must not have moved before it. If
every request finds its cursor so (`Keeps`), an entry that is there at every request is on some page.
-/

namespace Rest.MoveList.Proof

open Consensus (Bytes)
open Move MoveListBuilder

/-! ## Entries ahead of a cursor -/

section
variable (S : ApiServerState) (address : AccountAddress) (kind : MoveListQuery)

/-- A state key of the account, and one of the items that the query lists of it. -/
def Present (e : StateKey × Item) : Prop :=
  e.1 ∈ accountKeys S address ∧ e.2 ∈ matching S address kind e.1

/-- The entry is still to be listed from the cursor on. -/
def Ahead (c : PaginationCursor) (e : StateKey × Item) : Prop :=
  S.toBytes c.stateKey < S.toBytes e.1 ∨
    (e.1 = c.stateKey ∧ e.2 ∈ leftover S address kind c)

/-- An index only stands at a group, in a list of resources. -/
def AtGroup (c : PaginationCursor) : Prop :=
  c.resourceGroupItemIndex.isSome →
    kind = .resources ∧ ∃ a t, c.stateKey = .accessPath a (.resourceGroup t)

/-- The cursor stands before the keys, or at the first one with an index. -/
def Before (c : PaginationCursor) (iter : List StateKey) : Prop :=
  ∀ k ∈ iter, S.toBytes c.stateKey < S.toBytes k ∨
    (k = c.stateKey ∧ c.resourceGroupItemIndex.isSome)

end

variable {S : ApiServerState} {address : AccountAddress} {kind : MoveListQuery} {ks : List StateKey}

theorem Before.ahead {c : PaginationCursor} {iter : List StateKey} (h : Before S c iter)
    {k : StateKey} (hk : k ∈ iter) {item : Item}
    (hitem : item ∈ (matching S address kind k).drop ((resumeIndex (some c) k).getD 0)) :
    Ahead S address kind c (k, item) := by
  rcases h k hk with hlt | ⟨rfl, hsome⟩
  · exact .inl hlt
  · refine .inr ⟨rfl, ?_⟩
    obtain ⟨i, hi⟩ := Option.isSome_iff_exists.1 hsome
    simpa [resumeIndex, leftover, hi] using hitem

/-! ## The loop -/

/-- What the loop does for the entries of its keys: they are listed, or the page is full and they are
ahead of the cursor that it leaves. -/
structure Covers (S : ApiServerState) (address : AccountAddress) (kind : MoveListQuery)
    (ks iter : List StateKey) (b b' : MoveListBuilder) : Prop where
  cursor : b'.paginationCursor = b.paginationCursor ∨
    ∃ c, b'.paginationCursor = some c ∧ Valid kind ks c
  keeps : items b.moveList ⊆ items b'.moveList
  count : b'.maxItemsToReturn + b'.moveList.len = b.maxItemsToReturn + b.moveList.len
  entries : ∀ k ∈ iter, ∀ item ∈ (matching S address kind k).drop
      ((resumeIndex b.paginationCursor k).getD 0),
    item ∈ items b'.moveList ∨ (b'.maxItemsToReturn = 0 ∧
      ∀ c, b'.paginationCursor = some c → Ahead S address kind c (k, item))

theorem Covers.full {iter : List StateKey} {b : MoveListBuilder} (hmax : b.maxItemsToReturn = 0)
    (hbefore : ∀ c, b.paginationCursor = some c → Before S c iter) :
    Covers S address kind ks iter b b where
  cursor := .inl rfl
  keeps := List.Subset.refl _
  count := rfl
  entries k hk item hitem := by
    refine .inr ⟨hmax, fun c hc => ?_⟩
    rw [hc] at hitem
    exact (hbefore c hc).ahead hk hitem

/-- **The loop** covers the entries of its keys. -/
theorem buildLoop_covers (hks : Indexed S address ks) (hsorted : (ks.map S.toBytes).Pairwise (· < ·))
    {pre iter : List StateKey} {b b' : MoveListBuilder} (hsplit : ks = pre ++ iter)
    (haddr : b.accountAddress = address) (hkind : kindOf b.moveList = kind)
    (hgroup : ∀ c, b.paginationCursor = some c → AtGroup kind c)
    (hbefore : ∀ c, b.paginationCursor = some c → Before S c iter)
    (h : buildLoop S (iter.map S.toBytes) b = .ok b') : Covers S address kind ks iter b b' := by
  subst haddr
  induction iter generalizing pre b with
  | nil =>
    cases h
    exact ⟨.inl rfl, List.Subset.refl _, rfl, fun k hk => by cases hk⟩
  | cons k iter ih =>
    by_cases hmax : b.maxItemsToReturn = 0
    · rw [buildLoop_full hmax] at h
      cases h
      exact .full hmax hbefore
    have hk : k ∈ ks := by rw [hsplit]; simp
    have hlater : ∀ k' ∈ iter, S.toBytes k < S.toBytes k' := by
      intro k' hk'
      rw [hsplit, List.map_append, List.map_cons, List.pairwise_append, List.pairwise_cons] at hsorted
      exact hsorted.2.1.1 _ (List.mem_map_of_mem hk')
    obtain ⟨list, c, happend, hc⟩ := appendEntry_spec (Nat.pos_of_ne_zero hmax) hkind
      (valid_resumeIndex hk hgroup) fun a t ht => hks.groups a t (ht ▸ hk)
    have hkey : c.stateKey = k := hc.key
    have hlisted := hc.listed
    have hleft := hc.left
    rw [List.map_cons, buildLoop_cons hmax (hks.decodes k hk) happend] at h
    generalize hR : rest S b.accountAddress kind ⟨k, resumeIndex b.paginationCursor k⟩ = R at hlisted hleft
    have hcount : list.len = b.moveList.len + min b.maxItemsToReturn R.length := by
      rw [← length_items, ← length_items, hlisted, List.length_append, List.length_take]
    have hcover := @ih (pre ++ [k]) _ (by rw [hsplit]; simp) hc.sameKind
      (fun c' hc' => by cases hc'; exact hc.valid.index)
      (fun c' hc' k' hk' => by cases hc'; rw [hkey]; exact .inl (hlater k' hk')) h hks
    refine ⟨.inr ?_, ?_, ?_, fun k' hk' item hitem => ?_⟩
    · rcases hcover.cursor with hsame | hvalid
      · exact ⟨c, hsame, hc.valid⟩
      · exact hvalid
    · refine List.Subset.trans ?_ hcover.keeps
      rw [hlisted]
      exact List.subset_append_left _ _
    · have := hcover.count
      dsimp only at this
      omega
    · rcases List.mem_cons.1 hk' with rfl | hk'
      · have hmem : item ∈ R.take b.maxItemsToReturn ++ R.drop b.maxItemsToReturn := by
          rw [List.take_append_drop, ← hR]
          exact hitem
        rcases List.mem_append.1 hmem with htake | hdrop
        · refine .inl (hcover.keeps ?_)
          rw [hlisted]
          exact List.mem_append_right _ htake
        · -- what is left of a key ends the page
          have hlt : b.maxItemsToReturn < R.length := by
            have := List.length_pos_of_mem hdrop
            rw [List.length_drop] at this
            omega
          rw [buildLoop_full (by dsimp only; omega)] at h
          cases h
          refine .inr ⟨by dsimp only; omega, fun c' hc' => ?_⟩
          cases hc'
          exact .inr ⟨hkey.symm, by rw [hleft]; exact hdrop⟩
      · refine hcover.entries k' hk' item ?_
        have hne : c.stateKey ≠ k' := by
          rintro rfl
          rw [hkey] at hk'
          exact List.lt_irrefl _ (hlater _ hk')
        simp only [resumeIndex, if_neg hne, Option.getD_none, List.drop_zero]
        exact List.mem_of_mem_drop hitem

/-! ## One page -/

section
variable (S : ApiServerState) (kind : MoveListQuery)

/-- The bytes are those of a cursor that a page of some state has returned. -/
def Issued (cursor : Option Bytes) : Prop :=
  ∀ bytes, cursor = some bytes → ∃ c, S.fromBcsBytes bytes = .ok c ∧ S.toBcsBytes c = .ok bytes ∧
    S.decode (S.toBytes c.stateKey) = .ok c.stateKey ∧ AtGroup kind c

end

theorem le_of_mem_dropWhile {f : StateKey → Bytes} {start : Bytes}
    (hsorted : (ks.map f).Pairwise (· < ·)) {k : StateKey}
    (hk : k ∈ ks.dropWhile (f · < start)) : ¬ f k < start := by
  induction ks with
  | nil => cases hk
  | cons k' ks ih =>
    rw [List.map_cons, List.pairwise_cons] at hsorted
    by_cases hlt : f k' < start
    · rw [List.dropWhile_cons_of_pos (by simpa using hlt)] at hk
      exact ih hsorted.2 hk
    · rw [List.dropWhile_cons_of_neg (by simpa using hlt)] at hk
      rcases List.mem_cons.1 hk with rfl | hk
      · exact hlt
      · intro hlt'
        exact hlt (List.lt_trans (hsorted.1 _ (List.mem_map_of_mem hk)) hlt')

theorem mem_dropWhile_of_le {f : StateKey → Bytes} {start : Bytes} {k : StateKey} (hk : k ∈ ks)
    (hle : ¬ f k < start) : k ∈ ks.dropWhile (f · < start) := by
  rw [← List.takeWhile_append_dropWhile (p := (f · < start)) (l := ks), List.mem_append] at hk
  rcases hk with hk | hk
  · exact absurd (by simpa using List.mem_takeWhile_imp hk) hle
  · exact hk

/-- Where the iterator starts: the entries ahead of the cursor are those of its keys. -/
structure Starts (S : ApiServerState) (address : AccountAddress) (kind : MoveListQuery) (p : Bytes)
    (c : Option PaginationCursor) (pre iter : List StateKey) : Prop where
  split : accountKeys S address = pre ++ iter
  keys : startIter S p c = iter.map S.toBytes
  before : ∀ c', c = some c' → Before S c' iter
  entries : ∀ e, Present S address kind e → (∀ c', c = some c' → Ahead S address kind c' e) →
    e.1 ∈ iter ∧ e.2 ∈ (matching S address kind e.1).drop ((resumeIndex c e.1).getD 0)

/-- A cursor without an index, whose key is there: the iterator starts behind it. -/
theorem starts_behind (h : Readable S address) {p : Bytes} (hp : S.addressPrefix address = .ok p)
    {k : StateKey} (hk : k ∈ accountKeys S address) :
    ∃ pre iter, Starts S address kind p (some ⟨k, none⟩) pre iter := by
  obtain ⟨pre, post, hks⟩ := List.append_of_mem hk
  have hsorted := h.pairwise
  rw [hks, List.map_append, List.map_cons, List.pairwise_append, List.pairwise_cons] at hsorted
  obtain ⟨-, ⟨hpost, -⟩, hpre⟩ := hsorted
  refine ⟨pre ++ [k], post, by rw [hks]; simp, congrArg List.tail (iterator_key h hp hks), ?_, ?_⟩
  · rintro c ⟨rfl⟩ k' hk'
    exact .inl (hpost _ (List.mem_map_of_mem hk'))
  · intro e he hahead
    have hlt : S.toBytes k < S.toBytes e.1 := by
      rcases hahead _ rfl with hlt | ⟨-, hnil⟩
      · exact hlt
      · cases hnil
    have hmem := he.1
    rw [hks, List.mem_append, List.mem_cons] at hmem
    refine ⟨?_, ?_⟩
    · rcases hmem with hmem | rfl | hmem
      · have hgt := hpre _ (List.mem_map_of_mem hmem) _ List.mem_cons_self
        exact absurd (List.lt_trans hlt hgt) (List.lt_irrefl _)
      · exact absurd hlt (List.lt_irrefl _)
      · exact hmem
    · have hnone : resumeIndex (some ⟨k, none⟩) e.1 = none := by simp [resumeIndex]
      rw [hnone]
      exact he.2

/-- A cursor with an index, whose group may be gone: the iterator starts at it. -/
theorem starts_at (h : Readable S address) {p : Bytes} (hp : S.addressPrefix address = .ok p)
    {k : StateKey} {i : Nat} (hdecode : S.decode (S.toBytes k) = .ok k) :
    ∃ pre iter, Starts S address kind p (some ⟨k, some i⟩) pre iter := by
  refine ⟨(accountKeys S address).takeWhile (S.toBytes · < S.toBytes k),
    (accountKeys S address).dropWhile (S.toBytes · < S.toBytes k),
    List.takeWhile_append_dropWhile.symm, ?_, ?_, ?_⟩
  · show (S.moveStateIndex.filter p.isPrefixOf).dropWhile (· < S.toBytes k) = _
    rw [h.index_eq hp, List.dropWhile_map]
    rfl
  · rintro c ⟨rfl⟩ k' hk'
    have hle := List.not_lt.1 (le_of_mem_dropWhile h.pairwise hk')
    rcases List.le_iff_lt_or_eq.1 hle with hlt | heq
    · exact .inl hlt
    · have hmem : k' ∈ accountKeys S address := (List.dropWhile_suffix _).subset hk'
      have hk := (h.indexed.decodes k' hmem).2
      rw [← heq, hdecode] at hk
      cases hk
      exact .inr ⟨rfl, rfl⟩
  · intro e he hahead
    have hcases := hahead _ rfl
    refine ⟨mem_dropWhile_of_le he.1 ?_, ?_⟩
    · rcases hcases with hlt | ⟨heq, -⟩
      · exact fun hgt => List.lt_irrefl _ (List.lt_trans hlt hgt)
      · rw [heq]
        exact List.lt_irrefl _
    · by_cases hke : k = e.1
      · rcases hcases with hlt | ⟨-, hleft⟩
        · rw [hke] at hlt
          exact absurd hlt (List.lt_irrefl _)
        · subst hke
          simpa [resumeIndex, leftover] using hleft
      · simpa [resumeIndex, hke] using he.2

theorem startIter_starts (h : Readable S address) {p : Bytes} (hp : S.addressPrefix address = .ok p)
    {c : Option PaginationCursor}
    (hdecode : ∀ c', c = some c' → S.decode (S.toBytes c'.stateKey) = .ok c'.stateKey)
    (hkey : ∀ c', c = some c' → c'.resourceGroupItemIndex = none → c'.stateKey ∈ accountKeys S address) :
    ∃ pre iter, Starts S address kind p c pre iter := by
  rcases c with _ | ⟨k, _ | i⟩
  · exact ⟨[], _, rfl, iterator_range h hp, fun c hc => (by cases hc),
      fun e he _ => ⟨he.1, he.2⟩⟩
  · exact starts_behind h hp (hkey _ rfl rfl)
  · exact starts_at h hp (hdecode _ rfl)

section
variable (S : ApiServerState) (address : AccountAddress) (kind : MoveListQuery)

/-- An entry that is there and still to be listed. -/
def Pending (cursor : Option Bytes) (e : StateKey × Item) : Prop :=
  Present S address kind e ∧ ∀ c, decoded S cursor = some c → Ahead S address kind c e

end

theorem Issued.encode {cursor : Option Bytes} (h : Issued S kind cursor) :
    encodeCursor S (decoded S cursor) = cursor := by
  cases cursor with
  | none => rfl
  | some bytes =>
    obtain ⟨c, hfrom, hto, -⟩ := h bytes rfl
    simp [decoded, encodeCursor, hfrom, hto, Except.toOption]

theorem Issued.of_decoded {cursor : Option Bytes} (h : Issued S kind cursor) {c : PaginationCursor}
    (hc : decoded S cursor = some c) :
    S.decode (S.toBytes c.stateKey) = .ok c.stateKey ∧ AtGroup kind c := by
  cases cursor with
  | none => cases hc
  | some bytes =>
    obtain ⟨c', hfrom, -, hdecode, hgroup⟩ := h bytes rfl
    simp only [decoded, Option.bind_some, hfrom, Except.toOption, Option.some.injEq] at hc
    subst hc
    exact ⟨hdecode, hgroup⟩

/-- A page returns an issued cursor, which stands for what the loop has left. -/
theorem issued_encodeCursor (h : Readable S address) {cursor : Option Bytes}
    (hcursor : Issued S kind cursor) {c : Option PaginationCursor}
    (hc : c = decoded S cursor ∨ ∃ c', c = some c' ∧ Valid kind (accountKeys S address) c') :
    Issued S kind (encodeCursor S c) ∧ decoded S (encodeCursor S c) = c := by
  rcases hc with rfl | ⟨c', rfl, hvalid⟩
  · rw [hcursor.encode]
    exact ⟨hcursor, rfl⟩
  · have hall : ∀ c, some c' = some c → Valid kind (accountKeys S address) c := by
      rintro c ⟨rfl⟩
      exact hvalid
    refine ⟨fun bytes hbytes => ⟨c', ?_⟩, (decoded_encodeCursor h hall).1⟩
    obtain ⟨bytes', hto, hfrom⟩ := h.cursors c' hvalid.mem
    simp only [encodeCursor, Option.bind_some, hto, Except.toOption, Option.some.injEq] at hbytes
    subst hbytes
    exact ⟨hfrom, hto, (h.indexed.decodes _ hvalid.mem).2, hvalid.index⟩

/-- **One page** lists what is pending, or it is full and leaves it pending. -/
theorem getMoveList_covers (h : Readable S address) {cursor : Option Bytes}
    (hcursor : Issued S kind cursor)
    (hkey : ∀ c, decoded S cursor = some c → c.resourceGroupItemIndex = none →
      c.stateKey ∈ accountKeys S address)
    {n : Nat} {page : MoveListV3} {next : Option Bytes}
    (hread : getMoveList S address kind cursor n = .ok (page, next)) :
    Issued S kind next ∧ ∀ e, Pending S address kind cursor e →
      e.2 ∈ items page ∨ (Pending S address kind next e ∧ n ≤ (items page).length) := by
  have hdecodes : ∀ bytes, cursor = some bytes → ∃ c, S.fromBcsBytes bytes = .ok c := by
    intro bytes hbytes
    obtain ⟨c, hfrom, -⟩ := hcursor bytes hbytes
    exact ⟨c, hfrom⟩
  rw [getMoveList_eq hdecodes] at hread
  rcases Nat.eq_zero_or_pos n with rfl | hn
  · -- a page of no items returns the cursor that it got
    cases hread
    rw [show (opened address kind (decoded S cursor) 0).paginationCursor = decoded S cursor from rfl,
      hcursor.encode]
    exact ⟨hcursor, fun e he => .inr ⟨he, Nat.zero_le _⟩⟩
  obtain ⟨p, hp⟩ := h.encodes
  rw [buildMoveList_eq hp hn] at hread
  obtain ⟨b, hloop, heq⟩ := Fallible.map_ok_iff.1 hread
  cases heq
  obtain ⟨pre, iter, hstarts⟩ : ∃ pre iter, Starts S address kind p (decoded S cursor) pre iter :=
    startIter_starts h hp (fun c hc => (hcursor.of_decoded hc).1) hkey
  rw [hstarts.keys] at hloop
  have hcovers := buildLoop_covers h.indexed h.pairwise hstarts.split rfl
    (show kindOf (.new kind) = kind by cases kind <;> rfl)
    (fun c hc => (hcursor.of_decoded hc).2) hstarts.before hloop
  obtain ⟨hissued, hback⟩ := issued_encodeCursor h hcursor hcovers.cursor
  refine ⟨hissued, fun e he => ?_⟩
  obtain ⟨hmem, hitem⟩ := hstarts.entries e he.1 he.2
  rcases hcovers.entries e.1 hmem e.2 hitem with hlisted | ⟨hfull, hahead⟩
  · exact .inl hlisted
  · refine .inr ⟨⟨he.1, fun c hc => hahead c (hback ▸ hc)⟩, ?_⟩
    have hcount := hcovers.count
    have hzero : (opened address kind (decoded S cursor) n).moveList.len = 0 := by cases kind <;> rfl
    rw [hfull, hzero] at hcount
    rw [length_items]
    exact Nat.le_of_eq (by simpa [opened] using hcount.symm)

/-! ## Changes -/

/-- What changes between two requests: the index and the values of its keys. -/
structure Content where
  moveStateIndex : List Bytes
  stateValueBytes : StateKey → Except ForeignError (Option Bytes)

section
variable (S : ApiServerState) (address : AccountAddress) (kind : MoveListQuery)

def holding (content : Content) : ApiServerState :=
  { S with moveStateIndex := content.moveStateIndex, stateValueBytes := content.stateValueBytes }

/-- The key of a cursor without an index is there. -/
def Fits (content : Content) (cursor : Option Bytes) : Prop :=
  ∀ c, decoded S cursor = some c → c.resourceGroupItemIndex = none →
    c.stateKey ∈ accountKeys (holding S content) address

/-- What the next request relies on, from the content in which its cursor was returned: the key of a
cursor without an index is there, and the members of the cursor's group from its index on have not
moved before it. -/
structure Keeps (before : Content) (cursor : Option Bytes) (now : Content) : Prop where
  key : Fits S address now cursor
  members : ∀ c i, decoded S cursor = some c → c.resourceGroupItemIndex = some i →
    ∀ item ∈ (matching (holding S before) address kind c.stateKey).drop i,
      item ∈ matching (holding S now) address kind c.stateKey →
        item ∈ (matching (holding S now) address kind c.stateKey).drop i

def readPage (content : Content) (cursor : Option Bytes) (n : Nat) :
    Except MoveListError (MoveListV3 × Option Bytes) :=
  getMoveList (holding S content) address kind cursor n

end

theorem Keeps.pending {before now : Content} {cursor : Option Bytes} {e : StateKey × Item}
    (h : Keeps S address kind before cursor now)
    (he : Pending (holding S before) address kind cursor e)
    (hpresent : Present (holding S now) address kind e) :
    Pending (holding S now) address kind cursor e := by
  refine ⟨hpresent, fun c hc => ?_⟩
  rcases he.2 c hc with hlt | ⟨heq, hleft⟩
  · exact .inl hlt
  · refine .inr ⟨heq, ?_⟩
    unfold leftover at hleft ⊢
    cases hi : c.resourceGroupItemIndex with
    | none =>
      rw [hi] at hleft
      cases hleft
    | some i =>
      rw [hi] at hleft
      exact h.members c i hc hi e.2 hleft (heq ▸ hpresent.2)

/-- **A scan survives writes** if every cursor still finds its key, and the members of its group that
are not listed yet have not moved before its index: an entry that is there at every request is on one
of the pages. -/
theorem scan_survives_writes (S : ApiServerState) (address : AccountAddress) (kind : MoveListQuery)
    (requests : List (Content × Nat)) (pages : List MoveListV3) (e : StateKey × Item)
    (hreadable : ∀ r ∈ requests, Readable (holding S r.1) address)
    (hscan : Paging.scan (readPage S address kind) none requests = .ok pages)
    (hend : Paging.Exhausted items requests pages)
    (hkeeps : Paging.Undisturbed (readPage S address kind) (Keeps S address kind) none requests)
    (hpresent : ∀ r ∈ requests, Present (holding S r.1) address kind e) :
    ∃ page ∈ pages, e.2 ∈ items page := by
  cases requests with
  | nil =>
    obtain ⟨request, page, hlast, -, -⟩ := hend
    cases hlast
  | cons request requests =>
    obtain ⟨content, n⟩ := request
    refine Paging.scan_covers (I := Issued S kind) (fun content => Readable (holding S content) address)
      (Fits S address) (fun content => Present (holding S content) address kind)
      (fun content => Pending (holding S content) address kind) Prod.snd
      ?_ ?_ hreadable ?_ ?_ ?_ hkeeps ?_ hscan hend
    · intro content cursor n page next hreadable hcursor hfits hread
      exact getMoveList_covers hreadable hcursor hfits hread
    · intro before cursor now hkeeps
      exact ⟨hkeeps.key, fun e he hpresent => hkeeps.pending he hpresent⟩
    · intro bytes hbytes
      cases hbytes
    · intro c hc
      cases hc
    · refine ⟨hpresent _ List.mem_cons_self, fun c hc => ?_⟩
      cases hc
    · exact fun r hr => hpresent r (List.mem_cons_of_mem _ hr)

/-! An account with the resources of some of the tags `0`, `1` and so on. -/

def tagged (i : UInt8) : StateKey := .accessPath 1 (.resource ⟨[i]⟩)

def resourceStore : ApiServerState where
  moveStateIndex := []
  entryError _ := none
  stateValueBytes _ := .ok none
  resourceGroupFromBcs _ := .error ⟨"resource group"⟩
  addressPrefix _ := .ok [1]
  decode
    | [1, i] => .ok (tagged i)
    | _ => .error ⟨"state key"⟩
  toBytes
    | .accessPath _ (.resource t) => 1 :: t.encoded
    | _ => []
  toBcsBytes c := .ok (match c.stateKey, c.resourceGroupItemIndex with
    | .accessPath _ (.resource t), none => t.encoded
    | .accessPath _ (.resource t), some i => t.encoded ++ List.replicate (i + 1) 0
    | _, _ => [])
  fromBcsBytes
    | [i] => .ok ⟨tagged i, none⟩
    | i :: _ :: l => .ok ⟨tagged i, some l.length⟩
    | [] => .error ⟨"cursor"⟩

def resources (tags : List UInt8) : Content := ⟨tags.map fun i => [1, i], fun _ => .ok none⟩

theorem accountKeys_resources (tags : List UInt8) :
    accountKeys (holding resourceStore (resources tags)) 1 = tags.map tagged := by
  show ((tags.map fun i => [1, i]).filter _).filterMap _ = _
  rw [List.filter_eq_self.2, List.filterMap_map]
  · rw [← List.filterMap_eq_map]
    rfl
  · intro key hkey
    obtain ⟨i, -, rfl⟩ := List.mem_map.1 hkey
    rfl

theorem resources_readable (tags : List UInt8) (h : tags.Pairwise (· < ·)) :
    Readable (holding resourceStore (resources tags)) 1 where
  sorted := by
    refine List.pairwise_map.2 (h.imp fun hlt => ?_)
    exact List.Lex.cons (List.Lex.rel hlt)
  encodes := ⟨_, rfl⟩
  entries := by
    rintro p key - hkey -
    obtain ⟨i, -, rfl⟩ := List.mem_map.1 hkey
    exact ⟨rfl, _, rfl, rfl⟩
  groups := by
    intro a t hmem
    rw [accountKeys_resources] at hmem
    obtain ⟨i, -, heq⟩ := List.mem_map.1 hmem
    cases heq
  cursors := by
    rintro ⟨k, i⟩ hmem
    rw [accountKeys_resources] at hmem
    obtain ⟨tag, -, rfl⟩ := List.mem_map.1 hmem
    refine ⟨_, rfl, ?_⟩
    cases i with
    | none => rfl
    | some i =>
      show Except.ok (⟨tagged tag, some (List.replicate i (0 : UInt8)).length⟩ : PaginationCursor) = _
      rw [List.length_replicate]

theorem present_resources {tags : List UInt8} {i : UInt8} (h : i ∈ tags) :
    Present (holding resourceStore (resources tags)) 1 .resources (tagged i, .resource ⟨[i]⟩) := by
  refine ⟨?_, List.mem_singleton.2 rfl⟩
  rw [accountKeys_resources]
  exact List.mem_map_of_mem h

theorem keeps_resources {before now : List UInt8} {i : UInt8} (h : i ∈ now) :
    Keeps resourceStore 1 .resources (resources before) (some [i]) (resources now) := by
  have hcursor : decoded resourceStore (some [i]) = some ⟨tagged i, none⟩ := rfl
  refine ⟨fun c hc _ => ?_, fun c j hc hj => ?_⟩
  · rw [hcursor] at hc
    cases hc
    rw [accountKeys_resources]
    exact List.mem_map_of_mem h
  · rw [hcursor] at hc
    cases hc
    cases hj

/-- Resource `1` is deleted and `3` inserted; resource `2`, which stays, is listed. -/
theorem scan_survives_writes_resources :
    ∃ pages, Paging.scan (readPage resourceStore 1 .resources) none
        [(resources [0, 1, 2], 1), (resources [0, 2], 1), (resources [0, 2, 3], 5)] = .ok pages ∧
      ∃ page ∈ pages, Item.resource ⟨[2]⟩ ∈ items page := by
  have hfirst : readPage resourceStore 1 .resources (resources [0, 1, 2]) none 1 =
      .ok (.resourceList [⟨[0]⟩], some [0]) := rfl
  have hsecond : readPage resourceStore 1 .resources (resources [0, 2]) (some [0]) 1 =
      .ok (.resourceList [⟨[2]⟩], some [2]) := rfl
  refine ⟨[.resourceList [⟨[0]⟩], .resourceList [⟨[2]⟩], .resourceList [⟨[3]⟩]], rfl, ?_⟩
  refine scan_survives_writes resourceStore 1 .resources
    [(resources [0, 1, 2], 1), (resources [0, 2], 1), (resources [0, 2, 3], 5)] _
    (tagged 2, .resource ⟨[2]⟩) ?_ rfl ⟨_, _, rfl, rfl, by decide⟩ ?_ ?_
  · simp only [List.forall_mem_cons]
    exact ⟨resources_readable _ (by decide), resources_readable _ (by decide),
      resources_readable _ (by decide), fun r hr => by cases hr⟩
  · intro page next hpage
    cases hfirst.symm.trans hpage
    refine ⟨fun r hr => ?_, fun page next hpage => ?_⟩
    · cases hr
      exact keeps_resources (by decide)
    · cases hsecond.symm.trans hpage
      refine ⟨fun r hr => ?_, fun page next hpage => ⟨fun r hr => (by cases hr), trivial⟩⟩
      cases hr
      exact keeps_resources (by decide)
  · simp only [List.forall_mem_cons]
    exact ⟨present_resources (by decide), present_resources (by decide),
      present_resources (by decide), fun r hr => by cases hr⟩

/-- Once resource `0`, at which the cursor stands, is deleted, the next page skips resource `1`. -/
theorem scan_skips_after_deletion :
    let requests := [(resources [0, 1, 2], 1), (resources [1, 2], 1), (resources [1, 2], 1)]
    ∃ pages, Paging.scan (readPage resourceStore 1 .resources) none requests = .ok pages ∧
      Paging.Exhausted items requests pages ∧
      (∀ r ∈ requests, Readable (holding resourceStore r.1) 1) ∧
      (∀ r ∈ requests,
        Present (holding resourceStore r.1) 1 .resources (tagged 1, .resource ⟨[1]⟩)) ∧
      ∀ page ∈ pages, Item.resource ⟨[1]⟩ ∉ items page := by
  refine ⟨[.resourceList [⟨[0]⟩], .resourceList [⟨[2]⟩], .resourceList []], rfl,
    ⟨_, _, rfl, rfl, by decide⟩, ?_, ?_, by decide⟩
  · simp only [List.forall_mem_cons]
    exact ⟨resources_readable _ (by decide), resources_readable _ (by decide),
      resources_readable _ (by decide), fun r hr => by cases hr⟩
  · simp only [List.forall_mem_cons]
    exact ⟨present_resources (by decide), present_resources (by decide),
      present_resources (by decide), fun r hr => by cases hr⟩

end Rest.MoveList.Proof
