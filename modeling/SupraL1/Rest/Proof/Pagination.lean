import SupraL1.Lib.Paging
import SupraL1.Rest.MoveList

/-!
# Pagination loses and repeats nothing

`future` is what a cursor still has to list: the rest of the group it stands in, and the items of
the keys after its own. A page of `n` items is the first `n` of them and leaves the others as the
future of the cursor it returns (`getMoveList_serves`), whether it ends between two keys, inside a
group or at its end. The statement about all sequences of page sizes follows by `Paging.Serves`.
-/

namespace Rest.MoveList.Proof

open Consensus (Bytes)
open Move MoveListBuilder

/-! ## What there is to list -/

inductive Item where
  | resource (t : StructTag)
  | module (m : ModuleId)
  deriving DecidableEq, Repr

def items : MoveListV3 → List Item
  | .resourceList resources => resources.map .resource
  | .moduleList modules => modules.map .module

@[simp] theorem length_items (l : MoveListV3) : (items l).length = l.len := by
  cases l <;> simp [items, MoveListV3.len]

def kindOf : MoveListV3 → MoveListQuery
  | .resourceList _ => .resources
  | .moduleList _ => .modules

section
variable (S : ApiServerState) (address : AccountAddress) (kind : MoveListQuery)

/-- The items of one state key that a query lists. -/
def matching : StateKey → List Item
  | .accessPath _ (.code m) => match kind with
    | .modules => [.module m]
    | .resources => []
  | .accessPath _ (.resource t) => match kind with
    | .modules => []
    | .resources => [.resource t]
  | .accessPath _ (.resourceGroup t) => match kind with
    | .modules => []
    | .resources => ((S.readResourceGroup address t).getD []).map fun item => .resource item.1
  | .tableItem .. | .raw .. => []

/-- The state keys of the account in the order of the index. -/
def accountKeys : List StateKey :=
  match S.addressPrefix address with
  | .error _ => []
  | .ok addressPrefix =>
    (S.moveStateIndex.filter addressPrefix.isPrefixOf).filterMap fun key => (S.decode key).toOption

/-- The account's matching items in index order. -/
def accountItems : List Item := (accountKeys S address).flatMap (matching S address kind)

/-- What the list relies on: the index is in the order of its keys; the account's entries can be
read and decoded and their keys encode to the bytes of the index; every listed group can be read;
a cursor that has been encoded can be decoded. -/
structure Readable : Prop where
  sorted : S.moveStateIndex.Pairwise (· < ·)
  encodes : ∃ addressPrefix, S.addressPrefix address = .ok addressPrefix
  entries : ∀ p key, S.addressPrefix address = .ok p → key ∈ S.moveStateIndex → p <+: key →
    S.entryError key = none ∧ ∃ stateKey, S.decode key = .ok stateKey ∧ S.toBytes stateKey = key
  groups : ∀ a t, .accessPath a (.resourceGroup t) ∈ accountKeys S address →
    (S.readResourceGroup address t).isSome
  cursors : ∀ c : PaginationCursor, c.stateKey ∈ accountKeys S address →
    ∃ bytes, S.toBcsBytes c = .ok bytes ∧ S.fromBcsBytes bytes = .ok c

end

/-! ## Cursors -/

section
variable (S : ApiServerState) (address : AccountAddress) (kind : MoveListQuery) (ks : List StateKey)

/-- The items left of the key at which a cursor stands. -/
def leftover (c : PaginationCursor) : List Item :=
  match c.resourceGroupItemIndex with
  | none => []
  | some i => (matching S address kind c.stateKey).drop i

def keysAfter (k : StateKey) : List StateKey := (ks.dropWhile (· ≠ k)).tail

/-- What is still to be listed from a cursor on. -/
def future : Option PaginationCursor → List Item
  | none => ks.flatMap (matching S address kind)
  | some c => leftover S address kind c ++ (keysAfter ks c.stateKey).flatMap (matching S address kind)

/-- A cursor that a page can have returned: an index only stands at a group, in a list of
resources. -/
structure Valid (c : PaginationCursor) : Prop where
  mem : c.stateKey ∈ ks
  index : c.resourceGroupItemIndex.isSome →
    kind = .resources ∧ ∃ a t, c.stateKey = .accessPath a (.resourceGroup t)

end

variable {S : ApiServerState} {address : AccountAddress} {kind : MoveListQuery} {ks : List StateKey}

theorem keysAfter_append {pre post : List StateKey} {k : StateKey}
    (hnd : (pre ++ k :: post).Nodup) : keysAfter (pre ++ k :: post) k = post := by
  have hpre : ∀ x ∈ pre, (decide (x ≠ k)) = true := by
    intro x hx
    rw [List.nodup_append] at hnd
    exact decide_eq_true (hnd.2.2 x hx k List.mem_cons_self)
  unfold keysAfter
  rw [List.dropWhile_append_of_pos hpre, List.dropWhile_cons_of_neg (by simp)]
  rfl

/-! ## One key -/

/-- The slice of a group that a page takes, and what is left of the group after it. -/
theorem slice_eq {α β : Type} (l : List α) (f : α → β) (i n : Nat) :
    ((l.take (min (i + n) l.length)).drop i).map f = ((l.map f).drop i).take n ∧
      (l.map f).drop (min (i + n) l.length) = ((l.map f).drop i).drop n := by
  constructor
  · rw [List.take_eq_take_min.symm, List.drop_take, Nat.add_sub_cancel_left, List.map_take,
      List.map_drop]
  · rw [List.drop_drop]
    rcases Nat.le_total (i + n) l.length with h | h
    · rw [Nat.min_eq_left h]
    · rw [Nat.min_eq_right h, List.drop_eq_nil_of_le (by simp), List.drop_eq_nil_of_le (by simpa using h)]

theorem maybeAppendResource_group {resources : List StructTag} {a : AccountAddress} {t : StructTag}
    {i : Option Nat} {n : Nat} {group : List (StructTag × Bytes)} (hn : 0 < n)
    (hg : S.readResourceGroup address t = some group) :
    maybeAppendResource S address resources ⟨.accessPath a (.resourceGroup t), i⟩ n =
      if group.length ≤ i.getD 0 then .ok (resources, ⟨.accessPath a (.resourceGroup t), i⟩)
      else .ok (resources ++ ((group.map (·.1)).drop (i.getD 0)).take n,
        ⟨.accessPath a (.resourceGroup t), some (min (i.getD 0 + n) group.length)⟩) := by
  unfold maybeAppendResource
  rw [if_neg (Nat.pos_iff_ne_zero.1 hn)]
  dsimp only
  rw [hg]
  dsimp only
  rw [(slice_eq group (·.1) (i.getD 0) n).1]

section
variable (S address kind ks)

/-- What is left to list of the key of a cursor that the page goes on with. -/
def rest (c : PaginationCursor) : List Item :=
  (matching S address kind c.stateKey).drop (c.resourceGroupItemIndex.getD 0)

/-- The items of the key that fit on the page are appended, and the cursor keeps the others. -/
structure Appended (list : MoveListV3) (c : PaginationCursor) (n : Nat) (list' : MoveListV3)
    (c' : PaginationCursor) : Prop where
  sameKind : kindOf list' = kind
  key : c'.stateKey = c.stateKey
  valid : Valid kind ks c'
  listed : items list' = items list ++ (rest S address kind c).take n
  left : leftover S address kind c' = (rest S address kind c).drop n

end

theorem Appended.whole {list list' : MoveListV3} {k : StateKey} {n : Nat} (hn : 0 < n)
    (hk : k ∈ ks) (hkind : kindOf list' = kind) (hlen : (matching S address kind k).length ≤ 1)
    (hitems : items list' = items list ++ matching S address kind k) :
    Appended S address kind ks list ⟨k, none⟩ n list' ⟨k, none⟩ where
  sameKind := hkind
  key := rfl
  valid := ⟨hk, nofun⟩
  listed := by
    show _ = _ ++ (matching S address kind k).take n
    rw [List.take_of_length_le (by omega), hitems]
  left := (List.drop_eq_nil_of_le (by
    show (matching S address kind k).length ≤ n
    omega)).symm

theorem appendEntry_module {modules : List ModuleId} {k : StateKey} {n : Nat} (hn : 0 < n)
    (hk : k ∈ ks) : ∃ list' c', appendEntry S address (.moduleList modules) ⟨k, none⟩ n =
      .ok (list', c') ∧ Appended S address .modules ks (.moduleList modules) ⟨k, none⟩ n list' c' := by
  refine ⟨_, _, rfl, .whole hn hk rfl ?_ ?_⟩
  · rcases k with ⟨a, m | t | t⟩ | _ | _ <;> simp [matching]
  · rcases k with ⟨a, m | t | t⟩ | _ | _ <;> simp [maybeAppendModule, matching, items]

theorem appendEntry_group {resources : List StructTag} {a : AccountAddress} {t : StructTag}
    {i : Option Nat} {n : Nat} (hn : 0 < n) (hk : .accessPath a (.resourceGroup t) ∈ ks)
    (hg : (S.readResourceGroup address t).isSome) :
    ∃ list' c', appendEntry S address (.resourceList resources)
        ⟨.accessPath a (.resourceGroup t), i⟩ n = .ok (list', c') ∧
      Appended S address .resources ks (.resourceList resources)
        ⟨.accessPath a (.resourceGroup t), i⟩ n list' c' := by
  obtain ⟨group, hgroup⟩ := Option.isSome_iff_exists.1 hg
  have hmatch : matching S address .resources (.accessPath a (.resourceGroup t)) =
      group.map fun item => .resource item.1 := by
    simp [matching, hgroup]
  have hrest : rest S address .resources ⟨.accessPath a (.resourceGroup t), i⟩ =
      (group.map fun item => Item.resource item.1).drop (i.getD 0) := by
    unfold rest
    rw [hmatch]
  have hvalid : ∀ j, Valid .resources ks ⟨.accessPath a (.resourceGroup t), j⟩ := fun _ =>
    ⟨hk, fun _ => ⟨rfl, a, t, rfl⟩⟩
  unfold appendEntry
  dsimp only
  rw [maybeAppendResource_group hn hgroup]
  by_cases hlen : group.length ≤ i.getD 0
  · -- the group has been listed to its end
    have hnil : rest S address .resources ⟨.accessPath a (.resourceGroup t), i⟩ = [] := by
      rw [hrest]
      exact List.drop_eq_nil_of_le (by simpa using hlen)
    rw [if_pos hlen]
    refine ⟨_, _, rfl, rfl, rfl, hvalid i, by rw [hnil, List.take_nil, List.append_nil], ?_⟩
    rw [hnil, List.drop_nil]
    cases i with
    | none => rfl
    | some i => exact hnil
  · rw [if_neg hlen]
    refine ⟨_, _, rfl, rfl, rfl, hvalid _, ?_, ?_⟩
    · rw [hrest]
      simp [items, List.map_take, List.map_drop, Function.comp_def]
    · rw [hrest]
      show (matching S address .resources _).drop (min (i.getD 0 + n) group.length) = _
      rw [hmatch]
      exact (slice_eq group _ _ n).2

theorem appendEntry_resource {resources : List StructTag} {k : StateKey} {n : Nat} (hn : 0 < n)
    (hk : k ∈ ks) (hng : ∀ a t, k ≠ .accessPath a (.resourceGroup t)) :
    ∃ list' c', appendEntry S address (.resourceList resources) ⟨k, none⟩ n = .ok (list', c') ∧
      Appended S address .resources ks (.resourceList resources) ⟨k, none⟩ n list' c' := by
  have hn0 : n ≠ 0 := Nat.pos_iff_ne_zero.1 hn
  unfold appendEntry maybeAppendResource
  dsimp only
  rw [if_neg hn0]
  rcases k with ⟨a, m | t | t⟩ | _ | _
  · exact ⟨_, _, rfl, .whole hn hk rfl (by simp [matching]) (by simp [matching])⟩
  · exact ⟨_, _, rfl, .whole hn hk rfl (by simp [matching]) (by simp [matching, items])⟩
  · exact absurd rfl (hng a t)
  · exact ⟨_, _, rfl, .whole hn hk rfl (by simp [matching]) (by simp [matching])⟩
  · exact ⟨_, _, rfl, .whole hn hk rfl (by simp [matching]) (by simp [matching])⟩

/-- **One key of the index.** -/
theorem appendEntry_spec {list : MoveListV3} {c : PaginationCursor} {n : Nat} (hn : 0 < n)
    (hkind : kindOf list = kind) (hc : Valid kind ks c)
    (hg : ∀ a t, c.stateKey = .accessPath a (.resourceGroup t) →
      (S.readResourceGroup address t).isSome) :
    ∃ list' c', appendEntry S address list c n = .ok (list', c') ∧
      Appended S address kind ks list c n list' c' := by
  subst hkind
  obtain ⟨k, i⟩ := c
  -- without a group there is no index
  have hnone : ¬ (kindOf list = .resources ∧ ∃ a t, k = .accessPath a (.resourceGroup t)) →
      i = none := fun h => by
    cases i with
    | none => rfl
    | some i => exact absurd (hc.index rfl) h
  cases list with
  | moduleList modules =>
    cases hnone (fun h => nomatch h.1)
    exact appendEntry_module hn hc.mem
  | resourceList resources =>
    by_cases hk : ∃ a t, k = .accessPath a (.resourceGroup t)
    · obtain ⟨a, t, rfl⟩ := hk
      exact appendEntry_group hn hc.mem (hg a t rfl)
    · cases hnone (fun h => hk h.2)
      exact appendEntry_resource hn hc.mem fun a t h => hk ⟨a, t, h⟩

/-! ## One page -/

section
variable (S address kind)

/-- What the loop still lists of the keys of its iterator. -/
def todo (cursor : Option PaginationCursor) (ks : List StateKey) : List Item :=
  ks.flatMap fun k => (matching S address kind k).drop ((resumeIndex cursor k).getD 0)

end

/-- The cursor has an index for its own key only. -/
theorem todo_of_not_mem {c : PaginationCursor} (h : c.stateKey ∉ ks) :
    todo S address kind (some c) ks = ks.flatMap (matching S address kind) := by
  unfold todo
  refine List.flatMap_congr fun k hk => ?_
  have hne : c.stateKey ≠ k := fun heq => h (heq ▸ hk)
  show (matching S address kind k).drop ((if c.stateKey = k then _ else none : Option Nat).getD 0) = _
  rw [if_neg hne]
  exact List.drop_zero

theorem buildLoop_full {b : MoveListBuilder} (hb : b.maxItemsToReturn = 0) (iter : List Bytes) :
    buildLoop S iter b = .ok b := by
  cases iter with
  | nil => rfl
  | cons key iter => rw [buildLoop, if_pos hb]

/-- The account's keys, as the iterator and the decoder give them. -/
structure Indexed (S : ApiServerState) (address : AccountAddress) (ks : List StateKey) : Prop where
  nodup : ks.Nodup
  decodes : ∀ k ∈ ks, S.entryError (S.toBytes k) = none ∧ S.decode (S.toBytes k) = .ok k
  groups : ∀ a t, .accessPath a (.resourceGroup t) ∈ ks → (S.readResourceGroup address t).isSome

/-- The loop has reached the keys `iter`: the cursor stands before them or at the first one, and
what the loop still lists is the cursor's future. -/
structure Reached (S : ApiServerState) (kind : MoveListQuery) (ks iter : List StateKey)
    (b : MoveListBuilder) : Prop where
  sameKind : kindOf b.moveList = kind
  valid : ∀ c, b.paginationCursor = some c → Valid kind ks c
  behind : ∀ c, b.paginationCursor = some c → c.stateKey ∉ iter.tail
  sync : future S b.accountAddress kind ks b.paginationCursor =
    todo S b.accountAddress kind b.paginationCursor iter

theorem valid_resumeIndex {cursor : Option PaginationCursor} {k : StateKey} (hk : k ∈ ks)
    (hindex : ∀ c, cursor = some c → c.resourceGroupItemIndex.isSome →
      kind = .resources ∧ ∃ a t, c.stateKey = .accessPath a (.resourceGroup t)) :
    Valid kind ks ⟨k, resumeIndex cursor k⟩ := by
  refine ⟨hk, fun hsome => ?_⟩
  cases cursor with
  | none => cases hsome
  | some c =>
    dsimp only [resumeIndex] at hsome
    split at hsome
    · rename_i heq
      obtain ⟨h1, a, t, h2⟩ := hindex c rfl hsome
      exact ⟨h1, a, t, heq ▸ h2⟩
    · cases hsome

theorem Reached.entered {k : StateKey} {iter : List StateKey} {b : MoveListBuilder}
    (hb : Reached S kind ks (k :: iter) b) (hk : k ∈ ks) :
    Valid kind ks ⟨k, resumeIndex b.paginationCursor k⟩ :=
  valid_resumeIndex hk fun c hc => (hb.valid c hc).index

theorem Reached.todo_cons {k : StateKey} {iter : List StateKey} {b : MoveListBuilder}
    (hb : Reached S kind ks (k :: iter) b) :
    todo S address kind b.paginationCursor (k :: iter) =
      rest S address kind ⟨k, resumeIndex b.paginationCursor k⟩ ++
        iter.flatMap (matching S address kind) := by
  have htail : todo S address kind b.paginationCursor iter =
      iter.flatMap (matching S address kind) := by
    cases hc : b.paginationCursor with
    | none => rfl
    | some c => exact todo_of_not_mem (hb.behind c hc)
  rw [← htail]
  rfl

theorem buildLoop_cons {k : StateKey} {iter : List Bytes} {b : MoveListBuilder}
    {list : MoveListV3} {c : PaginationCursor} (hmax : b.maxItemsToReturn ≠ 0)
    (hd : S.entryError (S.toBytes k) = none ∧ S.decode (S.toBytes k) = .ok k)
    (happend : appendEntry S b.accountAddress b.moveList ⟨k, resumeIndex b.paginationCursor k⟩
      b.maxItemsToReturn = .ok (list, c)) :
    buildLoop S (S.toBytes k :: iter) b = buildLoop S iter { b with
      moveList := list
      maxItemsToReturn := b.maxItemsToReturn - (list.len - b.moveList.len)
      paginationCursor := some c } := by
  rw [buildLoop, if_neg hmax, hd.1]
  dsimp only
  rw [hd.2]
  dsimp only
  rw [happend]

/-- **The loop** lists the first items of what is still to come and leaves the others. -/
theorem buildLoop_spec (hks : Indexed S address ks) {pre iter : List StateKey} {b : MoveListBuilder}
    (hsplit : ks = pre ++ iter) (hb : Reached S kind ks iter b) (haddr : b.accountAddress = address) :
    ∃ b', buildLoop S (iter.map S.toBytes) b = .ok b' ∧
      (∀ c, b'.paginationCursor = some c → Valid kind ks c) ∧
      items b'.moveList = items b.moveList ++
        (todo S address kind b.paginationCursor iter).take b.maxItemsToReturn ∧
      future S address kind ks b'.paginationCursor =
        (todo S address kind b.paginationCursor iter).drop b.maxItemsToReturn := by
  subst haddr
  induction iter generalizing pre b with
  | nil =>
    refine ⟨b, rfl, hb.valid, by simp [todo], ?_⟩
    rw [hb.sync]
    simp [todo]
  | cons k iter ih =>
    by_cases hmax : b.maxItemsToReturn = 0
    · refine ⟨b, buildLoop_full hmax _, hb.valid, by simp [hmax], ?_⟩
      rw [hmax, hb.sync, List.drop_zero]
    have hk : k ∈ ks := by rw [hsplit]; simp
    have hnd : (pre ++ k :: iter).Nodup := hsplit ▸ hks.nodup
    have hkiter : k ∉ iter := (List.nodup_cons.1 (List.nodup_append.1 hnd).2.1).1
    obtain ⟨list, c, happend, hc⟩ := appendEntry_spec (Nat.pos_of_ne_zero hmax) hb.sameKind
      (hb.entered hk) fun a t h => hks.groups a t (h ▸ hk)
    have hkey : c.stateKey = k := hc.key
    have hlisted := hc.listed
    have hleft := hc.left
    rw [List.map_cons, buildLoop_cons hmax (hks.decodes k hk) happend, hb.todo_cons]
    generalize rest S b.accountAddress kind ⟨k, resumeIndex b.paginationCursor k⟩ = R at hlisted hleft ⊢
    generalize hF : iter.flatMap (matching S b.accountAddress kind) = F
    -- the future of the new cursor: what is left of the key, and the keys after it
    have hfuture : future S b.accountAddress kind ks (some c) = R.drop b.maxItemsToReturn ++ F := by
      show leftover S b.accountAddress kind c ++ _ = _
      rw [hleft, hkey, hsplit, keysAfter_append hnd, hF]
    have hcount : list.len - b.moveList.len = min b.maxItemsToReturn R.length := by
      rw [← length_items, ← length_items, hlisted, List.length_append, List.length_take]
      omega
    have hvalid : ∀ c', some c = some c' → Valid kind ks c' := fun c' h => by
      cases h; exact hc.valid
    rw [hcount]
    rcases Nat.lt_or_ge b.maxItemsToReturn R.length with hlt | hge
    · -- the page ends inside this key
      refine ⟨_, buildLoop_full (by dsimp only; omega) _, hvalid, ?_, ?_⟩
      · rw [List.take_append_of_le_length (Nat.le_of_lt hlt)]
        exact hlisted
      · rw [List.drop_append_of_le_length (Nat.le_of_lt hlt)]
        exact hfuture
    · have hrest : todo S b.accountAddress kind (some c) iter = F := by
        rw [todo_of_not_mem (by rw [hkey]; exact hkiter), hF]
      obtain ⟨b', hloop, hv, hitems, hfut⟩ := @ih (pre ++ [k]) { b with
          moveList := list
          maxItemsToReturn := b.maxItemsToReturn - min b.maxItemsToReturn R.length
          paginationCursor := some c }
        (by rw [hsplit]; simp)
        { sameKind := hc.sameKind
          valid := hvalid
          behind := fun c' h => by
            cases h
            rw [hkey]
            exact fun hm => hkiter (List.mem_of_mem_tail hm)
          sync := by
            show future S b.accountAddress kind ks (some c) = _
            rw [hfuture, List.drop_eq_nil_of_le hge, hrest]
            rfl } hks
      dsimp only at hitems hfut
      rw [hrest, Nat.min_eq_right hge] at hitems hfut
      refine ⟨b', hloop, hv, ?_, ?_⟩
      · rw [hitems, hlisted, List.take_of_length_le hge, List.take_append,
          List.take_of_length_le hge, List.append_assoc]
      · rw [hfut, List.drop_append, List.drop_eq_nil_of_le hge]
        rfl

/-! ## The iterator -/

theorem Readable.index_eq (h : Readable S address) {p : Bytes} (hp : S.addressPrefix address = .ok p) :
    S.moveStateIndex.filter p.isPrefixOf = (accountKeys S address).map S.toBytes := by
  have hkey : ∀ key ∈ S.moveStateIndex.filter p.isPrefixOf,
      (S.decode key).toOption.map S.toBytes = some key := by
    intro key hk
    rw [List.mem_filter, List.isPrefixOf_iff_prefix] at hk
    obtain ⟨-, k, hd, he⟩ := h.entries p key hp hk.1 hk.2
    rw [hd, ← he]
    rfl
  unfold accountKeys
  rw [hp]
  dsimp only
  rw [List.map_filterMap, List.filterMap_congr hkey, List.filterMap_some]

theorem Readable.pairwise (h : Readable S address) :
    ((accountKeys S address).map S.toBytes).Pairwise (· < ·) := by
  obtain ⟨p, hp⟩ := h.encodes
  rw [← h.index_eq hp]
  exact h.sorted.filter _

theorem Readable.indexed (h : Readable S address) : Indexed S address (accountKeys S address) where
  nodup := (List.pairwise_map.1 h.pairwise).imp fun hlt heq => by
    subst heq
    exact List.lt_irrefl _ hlt
  decodes k hk := by
    obtain ⟨p, hp⟩ := h.encodes
    unfold accountKeys at hk
    rw [hp] at hk
    obtain ⟨key, hmem, hk⟩ := List.mem_filterMap.1 hk
    rw [List.mem_filter, List.isPrefixOf_iff_prefix] at hmem
    obtain ⟨hread, k', hd, he⟩ := h.entries p key hp hmem.1 hmem.2
    rw [hd] at hk
    cases hk
    rw [he]
    exact ⟨hread, hd⟩
  groups := h.groups

theorem iterator_range (h : Readable S address) {p : Bytes} (hp : S.addressPrefix address = .ok p) :
    S.iterator p p = (accountKeys S address).map S.toBytes := by
  have hge : ∀ key ∈ S.moveStateIndex.filter p.isPrefixOf, ¬ key < p := by
    intro key hk hlt
    rw [List.mem_filter, List.isPrefixOf_iff_prefix] at hk
    exact List.not_le.2 hlt hk.2.le
  unfold ApiServerState.iterator
  rw [← h.index_eq hp]
  cases hL : S.moveStateIndex.filter p.isPrefixOf with
  | nil => rfl
  | cons key L =>
    rw [List.dropWhile_cons_of_neg]
    simpa using hge key (hL ▸ List.mem_cons_self)

theorem iterator_key (h : Readable S address) {p : Bytes} (hp : S.addressPrefix address = .ok p)
    {pre post : List StateKey} {k : StateKey} (hks : accountKeys S address = pre ++ k :: post) :
    S.iterator p (S.toBytes k) = (k :: post).map S.toBytes := by
  have hpair := h.pairwise
  rw [hks, List.map_append, List.pairwise_append] at hpair
  unfold ApiServerState.iterator
  rw [h.index_eq hp, hks, List.map_append, List.dropWhile_append_of_pos, List.map_cons,
    List.dropWhile_cons_of_neg]
  · simp
  · intro key hk
    simpa using hpair.2.2 key hk _ (List.mem_map_of_mem List.mem_cons_self)

/-! ## Pages -/

def opened (address : AccountAddress) (kind : MoveListQuery) (cursor : Option PaginationCursor)
    (n : Nat) : MoveListBuilder :=
  { accountAddress := address, paginationCursor := cursor, maxItemsToReturn := n, moveList := .new kind }

/-- The iterator of `build_move_list`. -/
def startIter (S : ApiServerState) (p : Bytes) : Option PaginationCursor → List Bytes
  | none => S.iterator p p
  | some ⟨k, none⟩ => (S.iterator p (S.toBytes k)).tail
  | some ⟨k, some _⟩ => S.iterator p (S.toBytes k)

theorem buildMoveList_eq {p : Bytes} (hp : S.addressPrefix address = .ok p)
    {c : Option PaginationCursor} {n : Nat} (hn : 1 ≤ n) :
    (opened address kind c n).buildMoveList S =
      (fun b => (b.moveList, encodeCursor S b.paginationCursor)) <$>
        buildLoop S (startIter S p c) (opened address kind c n) := by
  have hn0 : (opened address kind c n).maxItemsToReturn ≠ 0 := by
    show n ≠ 0
    omega
  unfold buildMoveList
  rw [if_neg hn0, show (opened address kind c n).accountAddress = address from rfl, hp]
  rcases c with _ | ⟨k, _ | i⟩ <;>
  · dsimp only [opened, startIter]
    split
    · rename_i hloop
      rw [hloop]
      rfl
    · rename_i hloop
      rw [hloop]
      rfl

theorem startIter_eq (h : Readable S address) {p : Bytes} (hp : S.addressPrefix address = .ok p)
    {c : Option PaginationCursor} (n : Nat)
    (hc : ∀ c', c = some c' → Valid kind (accountKeys S address) c') :
    ∃ pre iter, accountKeys S address = pre ++ iter ∧
      Reached S kind (accountKeys S address) iter (opened address kind c n) ∧
      startIter S p c = iter.map S.toBytes := by
  have hkind : kindOf (opened address kind c n).moveList = kind := by cases kind <;> rfl
  cases c with
  | none =>
    exact ⟨[], _, rfl, ⟨hkind, hc, nofun, rfl⟩, iterator_range h hp⟩
  | some c =>
    have hvalid := hc c rfl
    obtain ⟨pre, post, hks⟩ := List.append_of_mem hvalid.mem
    have hnd : (pre ++ c.stateKey :: post).Nodup := hks ▸ h.indexed.nodup
    have hnot : c.stateKey ∉ post := (List.nodup_cons.1 (List.nodup_append.1 hnd).2.1).1
    have hiter := iterator_key h hp hks
    have hfuture : future S address kind (accountKeys S address) (some c) =
        leftover S address kind c ++ post.flatMap (matching S address kind) := by
      show _ ++ (keysAfter _ _).flatMap _ = _
      rw [hks, keysAfter_append hnd]
    obtain ⟨k, i⟩ := c
    cases i with
    | none =>
      refine ⟨pre ++ [k], post, by rw [hks]; simp, ⟨hkind, hc, ?_, ?_⟩, ?_⟩
      · rintro c' ⟨rfl⟩ hm
        exact hnot (List.mem_of_mem_tail hm)
      · exact hfuture.trans (todo_of_not_mem hnot).symm
      · exact congrArg List.tail hiter
    | some i =>
      refine ⟨pre, k :: post, hks, ⟨hkind, hc, ?_, ?_⟩, hiter⟩
      · rintro c' ⟨rfl⟩
        exact hnot
      · refine hfuture.trans ?_
        show _ = (matching S address kind k).drop ((resumeIndex (some ⟨k, some i⟩) k).getD 0) ++
          todo S address kind (some ⟨k, some i⟩) post
        rw [todo_of_not_mem hnot]
        simp [resumeIndex, leftover]

section
variable (S address kind)

def decoded (cursor : Option Bytes) : Option PaginationCursor :=
  cursor.bind fun bytes => (S.fromBcsBytes bytes).toOption

/-- The bytes are those of a cursor that a page can have returned. -/
structure Returned (cursor : Option Bytes) : Prop where
  decodes : ∀ bytes, cursor = some bytes → ∃ c, S.fromBcsBytes bytes = .ok c
  valid : ∀ c, decoded S cursor = some c → Valid kind (accountKeys S address) c

end

theorem getMoveList_eq {cursor : Option Bytes}
    (h : ∀ bytes, cursor = some bytes → ∃ c, S.fromBcsBytes bytes = .ok c) (n : Nat) :
    getMoveList S address kind cursor n =
      (opened address kind (decoded S cursor) n).buildMoveList S := by
  cases cursor with
  | none => rfl
  | some bytes =>
    obtain ⟨c, hc⟩ := h bytes rfl
    simp only [getMoveList, MoveListBuilder.new, hc, decoded, Option.bind_some]
    rfl

theorem decoded_encodeCursor (h : Readable S address) {c : Option PaginationCursor}
    (hc : ∀ c', c = some c' → Valid kind (accountKeys S address) c') :
    decoded S (encodeCursor S c) = c ∧
      ∀ bytes, encodeCursor S c = some bytes → ∃ c', S.fromBcsBytes bytes = .ok c' := by
  cases c with
  | none => exact ⟨rfl, nofun⟩
  | some c =>
    obtain ⟨bytes, hto, hfrom⟩ := h.cursors c (hc c rfl).mem
    have henc : encodeCursor S (some c) = some bytes := by
      simp [encodeCursor, hto, Except.toOption]
    rw [henc]
    refine ⟨by simp [decoded, hfrom, Except.toOption], ?_⟩
    rintro _ ⟨rfl⟩
    exact ⟨c, hfrom⟩

/-- **One page.** -/
theorem getMoveList_serves (h : Readable S address) :
    Paging.Serves (getMoveList S address kind) items
      (fun cursor => future S address kind (accountKeys S address) (decoded S cursor))
      (Returned S address kind) := by
  intro cursor n hc hn
  obtain ⟨p, hp⟩ := h.encodes
  obtain ⟨pre, iter, hsplit, hreached, hiter⟩ := startIter_eq h hp n hc.valid
  obtain ⟨b, hloop, hvalid, hitems, hfuture⟩ := buildLoop_spec h.indexed hsplit hreached rfl
  obtain ⟨hback, hdec⟩ := decoded_encodeCursor h hvalid
  have hnil : items (.new kind) = [] := by cases kind <;> rfl
  have hsync := hreached.sync
  refine ⟨b.moveList, encodeCursor S b.paginationCursor, ?_, ?_, ?_, hdec, by rwa [hback]⟩
  · rw [getMoveList_eq hc.decodes, buildMoveList_eq hp hn, hiter, hloop]
    rfl
  · calc items b.moveList
        = items (.new kind) ++ (todo S address kind (decoded S cursor) iter).take n := hitems
      _ = (future S address kind (accountKeys S address) (decoded S cursor)).take n := by
        rw [hnil, List.nil_append]
        exact congrArg (List.take n) hsync.symm
  · calc future S address kind (accountKeys S address) (decoded S (encodeCursor S b.paginationCursor))
        = (todo S address kind (decoded S cursor) iter).drop n := by rw [hback]; exact hfuture
      _ = _ := congrArg (List.drop n) hsync.symm

/-- **Pagination loses and repeats nothing.** The pages of any sizes, read from no cursor on by
following the returned ones, are the account's matching items in index order without a gap; each
has the size asked for as long as there are as many items to come, and is empty at the end. -/
theorem pages_lose_and_repeat_nothing (h : Readable S address) (kind : MoveListQuery)
    (sizes : List Nat) (hsizes : ∀ n ∈ sizes, 1 ≤ n) :
    ∃ pages, Paging.pages (getMoveList S address kind) none sizes = .ok pages ∧
      pages.length = sizes.length ∧
      pages.flatMap items <+: accountItems S address kind ∧
      ∀ i n page, sizes[i]? = some n → pages[i]? = some page →
        page.len = min n ((accountItems S address kind).length -
          ((pages.take i).flatMap items).length) ∧
        ((pages.take i).flatMap items = accountItems S address kind → page.isEmpty) := by
  have hstart : Returned S address kind none := ⟨nofun, nofun⟩
  obtain ⟨pages, hpages, hlength, hpieces⟩ := (getMoveList_serves h).pages hstart hsizes
  refine ⟨pages, hpages, hlength, ?_, fun i n page hn hpage => ?_⟩
  · have hall := (hpieces pages.length).1
    rw [List.take_length] at hall
    rw [hall]
    exact List.take_prefix ..
  · obtain ⟨hbefore, hpiece⟩ := hpieces i
    have hlen : page.len = min n ((accountItems S address kind).length -
        ((pages.take i).flatMap items).length) := by
      rw [← length_items, hpiece n page hn hpage, hbefore, List.length_take, List.length_take,
        List.length_drop]
      show min n ((accountItems S address kind).length - _) =
        min n (_ - min _ (accountItems S address kind).length)
      omega
    refine ⟨hlen, fun hend => ?_⟩
    rw [hend, Nat.sub_self, Nat.min_zero] at hlen
    simp [MoveListV3.isEmpty, hlen]

/-! An account with a module, a group of three resources, a resource and an empty group. -/

def sampleKeys : List StateKey :=
  [.accessPath 1 (.code ⟨[0]⟩), .accessPath 1 (.resourceGroup ⟨[3]⟩),
    .accessPath 1 (.resource ⟨[1]⟩), .accessPath 1 (.resourceGroup ⟨[0]⟩)]

def sample : ApiServerState where
  moveStateIndex := [[0, 9], [1, 0], [1, 1], [1, 2], [1, 3], [2, 0]]
  entryError _ := none
  stateValueBytes
    | .accessPath _ (.resourceGroup t) => .ok (some t.encoded)
    | _ => .ok none
  resourceGroupFromBcs
    | [n] => .ok ((List.range n.toNat).map fun i => (⟨[n, i.toUInt8]⟩, []))
    | _ => .error ⟨"resource group"⟩
  addressPrefix _ := .ok [1]
  decode
    | [1, i] => match sampleKeys[i.toNat]? with
      | some k => .ok k
      | none => .error ⟨"state key"⟩
    | _ => .error ⟨"state key"⟩
  toBytes k := [1, (sampleKeys.idxOf k).toUInt8]
  toBcsBytes c := .ok ((sampleKeys.idxOf c.stateKey).toUInt8 ::
    match c.resourceGroupItemIndex with
    | none => []
    | some i => List.replicate (i + 1) 0)
  fromBcsBytes
    | i :: [] => match sampleKeys[i.toNat]? with
      | some k => .ok ⟨k, none⟩
      | none => .error ⟨"cursor"⟩
    | i :: _ :: l => match sampleKeys[i.toNat]? with
      | some k => .ok ⟨k, some l.length⟩
      | none => .error ⟨"cursor"⟩
    | [] => .error ⟨"cursor"⟩

theorem accountKeys_sample : accountKeys sample 1 = sampleKeys := by decide

theorem sample_readable : Readable sample 1 where
  sorted := by decide
  encodes := ⟨_, rfl⟩
  entries := by
    rintro _ key ⟨rfl⟩ hmem hp
    have hkey : key ∈ [[1, 0], [1, 1], [1, 2], [1, 3]] := by
      have := List.mem_filter.2 ⟨hmem, List.isPrefixOf_iff_prefix.2 hp⟩
      exact this
    simp only [List.mem_cons, List.not_mem_nil, or_false] at hkey
    rcases hkey with rfl | rfl | rfl | rfl <;> exact ⟨rfl, _, rfl, by decide⟩
  groups := by
    intro a t hmem
    rw [accountKeys_sample] at hmem
    simp only [sampleKeys, List.mem_cons, List.not_mem_nil, or_false] at hmem
    rcases hmem with h | h | h | h <;> cases h <;> decide
  cursors := by
    rintro ⟨k, i⟩ hmem
    rw [accountKeys_sample] at hmem
    simp only [sampleKeys, List.mem_cons, List.not_mem_nil, or_false] at hmem
    have hlength : ∀ i : Nat, (.ok ⟨k, some (List.replicate i (0 : UInt8)).length⟩ :
        Except ForeignError PaginationCursor) = .ok ⟨k, some i⟩ := fun i => by
      rw [List.length_replicate]
    refine ⟨_, rfl, ?_⟩
    rcases hmem with rfl | rfl | rfl | rfl <;> cases i with
    | none => rfl
    | some i => exact hlength i

theorem pages_lose_and_repeat_nothing_sample :
    (accountItems sample 1 .resources).length = 4 ∧
    ∃ pages, Paging.pages (getMoveList sample 1 .resources) none [2, 1, 5, 1] = .ok pages ∧
      pages.length = 4 ∧ pages.flatMap items <+: accountItems sample 1 .resources := by
  obtain ⟨pages, hpages, hlength, hprefix, -⟩ :=
    pages_lose_and_repeat_nothing sample_readable .resources [2, 1, 5, 1] (by decide)
  exact ⟨by decide, pages, hpages, hlength, hprefix⟩

end Rest.MoveList.Proof
