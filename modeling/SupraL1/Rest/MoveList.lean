import SupraL1.MoveCore

/-!
# Lists of an account's modules and resources (`rest/move_list/v3.rs`)

The index of the Move store has the state keys of all accounts, in the order of their bytes. A
page of an account's list is built by iterating over the account's keys from the cursor on. The
cursor is the last state key that was looked at and, when this is a resource group, the index of
the group's item with which the next page starts.

An index into a group is a `usize` in the source and a natural number here, so the model speaks
about pages for which `start_index + max_resources_to_append` does not overflow.
-/

namespace Rest.MoveList

open Consensus (Bytes)
open Move

/-! ## State keys -/

/-- `access_path::Path`. -/
inductive Path where
  | code (m : ModuleId)
  | resource (t : StructTag)
  | resourceGroup (t : StructTag)
  deriving DecidableEq, Repr

/-- `state_key::StateKey`, by its `inner()`. -/
inductive StateKey where
  | accessPath (address : AccountAddress) (path : Path)
  | tableItem (handle : AccountAddress) (key : Bytes)
  | raw (bytes : Bytes)
  deriving DecidableEq, Repr

structure PaginationCursor where
  stateKey : StateKey
  resourceGroupItemIndex : Option Nat
  deriving DecidableEq, Repr

/-! ## Errors -/

/-- An error of a crate below, by its message. -/
structure ForeignError where
  message : String
  deriving DecidableEq, Repr

/-- `MoveListError`. -/
inductive MoveListError where
  /-- The state value for a resource group is missing from the Move store. -/
  | missingResourceGroupData (t : StructTag)
  | stateKeyDecode (e : ForeignError)
  | rocksDbError (e : ForeignError)
  | anyHowError (e : ForeignError)
  | bcs (e : ForeignError)
  deriving DecidableEq, Repr

/-! ## The Move store -/

/-- `ApiServerState`, with what the lists use of the Move store and of the crates below. -/
structure ApiServerState where
  /-- The keys of the column family `move_state_index`, in the order of an iteration. -/
  moveStateIndex : List Bytes
  /-- Whether the iterator fails on an entry. -/
  entryError : Bytes → Option ForeignError
  /-- `get_state_value_bytes`. -/
  stateValueBytes : StateKey → Except ForeignError (Option Bytes)
  /-- `bcs::from_bytes::<ResourceGroup>`, as the vector of its items. -/
  resourceGroupFromBcs : Bytes → Except ForeignError (List (StructTag × Bytes))
  /-- `StateKeyPrefix::from(address).encode()`. -/
  addressPrefix : AccountAddress → Except ForeignError Bytes
  /-- `StateKey::decode`. -/
  decode : Bytes → Except ForeignError StateKey
  /-- `StateKey::to_bytes`. -/
  toBytes : StateKey → Bytes
  /-- `PaginationCursor::to_bcs_bytes`. -/
  toBcsBytes : PaginationCursor → Except ForeignError Bytes
  /-- `PaginationCursor::from_bcs_bytes`. -/
  fromBcsBytes : Bytes → Except ForeignError PaginationCursor

/-- `iterator_cf_opt` on the index, over the keys with a prefix and from a start key on. -/
def ApiServerState.iterator (S : ApiServerState) (iterateRange startKey : Bytes) : List Bytes :=
  (S.moveStateIndex.filter iterateRange.isPrefixOf).dropWhile (· < startKey)

/-- `read_resource_group`: `None` also for a value that cannot be read or decoded. -/
def ApiServerState.readResourceGroup (S : ApiServerState) (address : AccountAddress)
    (tag : StructTag) : Option (List (StructTag × Bytes)) :=
  match S.stateValueBytes (.accessPath address (.resourceGroup tag)) with
  | .error _ => none
  | .ok none => none
  | .ok (some bytes) => (S.resourceGroupFromBcs bytes).toOption

/-! ## The list -/

/-- `types::api::v1::MoveListQuery`. -/
inductive MoveListQuery where
  | modules
  | resources
  deriving DecidableEq, Repr

inductive MoveListV3 where
  | resourceList (resources : List StructTag)
  | moduleList (modules : List ModuleId)
  deriving DecidableEq, Repr

namespace MoveListV3

/-- `MoveListV3::new`. -/
def new : MoveListQuery → MoveListV3
  | .modules => .moduleList []
  | .resources => .resourceList []

/-- `len`. -/
def len : MoveListV3 → Nat
  | .resourceList resources => resources.length
  | .moduleList modules => modules.length

/-- `is_empty`. -/
def isEmpty (l : MoveListV3) : Bool := l.len == 0

end MoveListV3

/-- `ResourceIdList::maybe_append_resource`: the list and the cursor it leaves. -/
def maybeAppendResource (S : ApiServerState) (address : AccountAddress) (resources : List StructTag)
    (cursor : PaginationCursor) (maxResourcesToAppend : Nat) :
    Except MoveListError (List StructTag × PaginationCursor) :=
  if maxResourcesToAppend = 0 then .ok (resources, cursor)
  else
    match cursor.stateKey with
    | .accessPath _ (.code _) => .ok (resources, cursor)
    | .accessPath _ (.resource tag) => .ok (resources ++ [tag], cursor)
    | .accessPath _ (.resourceGroup tag) =>
      match S.readResourceGroup address tag with
      | none => .error (.missingResourceGroupData tag)
      | some groupItems =>
        let startIndex := cursor.resourceGroupItemIndex.getD 0
        if groupItems.length ≤ startIndex then .ok (resources, cursor)
        else
          let endIndex := min (startIndex + maxResourcesToAppend) groupItems.length
          let slice := (groupItems.take endIndex).drop startIndex
          .ok (resources ++ slice.map (·.1), ⟨cursor.stateKey, some endIndex⟩)
    | .tableItem .. | .raw .. => .ok (resources, cursor)

/-- `ModuleIdList::maybe_append_module`. -/
def maybeAppendModule (modules : List ModuleId) : StateKey → List ModuleId
  | .accessPath _ (.code m) => modules ++ [m]
  | .accessPath _ (.resource _) | .accessPath _ (.resourceGroup _) => modules
  | .tableItem .. | .raw .. => modules

/-- `MoveListV3::append_entry`. -/
def appendEntry (S : ApiServerState) (address : AccountAddress) (list : MoveListV3)
    (cursor : PaginationCursor) (maxItemsToReturn : Nat) :
    Except MoveListError (MoveListV3 × PaginationCursor) :=
  match list with
  | .resourceList resources => do
    let (resources, cursor) ← maybeAppendResource S address resources cursor maxItemsToReturn
    return (.resourceList resources, cursor)
  | .moduleList modules => .ok (.moduleList (maybeAppendModule modules cursor.stateKey), cursor)

structure MoveListBuilder where
  accountAddress : AccountAddress
  paginationCursor : Option PaginationCursor
  maxItemsToReturn : Nat
  moveList : MoveListV3

namespace MoveListBuilder

/-- `MoveListBuilder::new`. -/
def new (S : ApiServerState) (accountAddress : AccountAddress) (queryKind : MoveListQuery)
    (cursor : Option Bytes) (maxItemsToReturn : Nat) : Except MoveListError MoveListBuilder := do
  let paginationCursor ← match cursor with
    | none => .ok none
    | some bytes => match S.fromBcsBytes bytes with
      | .ok c => .ok (some c)
      | .error e => .error (.bcs e)
  return { accountAddress, paginationCursor, maxItemsToReturn, moveList := .new queryKind }

/-- The index into the group at `stateKey` with which the page goes on. -/
def resumeIndex (cursor : Option PaginationCursor) (stateKey : StateKey) : Option Nat :=
  match cursor with
  | some c => if c.stateKey = stateKey then c.resourceGroupItemIndex else none
  | none => none

/-- The loop of `build_move_list` over the entries of the iterator. -/
def buildLoop (S : ApiServerState) : List Bytes → MoveListBuilder →
    Except MoveListError MoveListBuilder
  | [], b => .ok b
  | key :: iter, b =>
    if b.maxItemsToReturn = 0 then .ok b
    else
      match S.entryError key with
      | some e => .error (.rocksDbError e)
      | none => match S.decode key with
        | .error e => .error (.stateKeyDecode e)
        | .ok stateKey =>
          let currentCursor : PaginationCursor := ⟨stateKey, resumeIndex b.paginationCursor stateKey⟩
          match appendEntry S b.accountAddress b.moveList currentCursor b.maxItemsToReturn with
          | .error e => .error e
          | .ok (moveList, currentCursor) => buildLoop S iter { b with
              moveList
              maxItemsToReturn := b.maxItemsToReturn - (moveList.len - b.moveList.len)
              paginationCursor := some currentCursor }

/-- The cursor of the answer; it is left out when it cannot be encoded. -/
def encodeCursor (S : ApiServerState) (cursor : Option PaginationCursor) : Option Bytes :=
  cursor.bind fun c => (S.toBcsBytes c).toOption

/-- `build_move_list`. -/
def buildMoveList (S : ApiServerState) (b : MoveListBuilder) :
    Except MoveListError (MoveListV3 × Option Bytes) :=
  if b.maxItemsToReturn = 0 then .ok (b.moveList, encodeCursor S b.paginationCursor)
  else
    match S.addressPrefix b.accountAddress with
    | .error e => .error (.anyHowError e)
    | .ok addressPrefix =>
      let startKey := match b.paginationCursor with
        | some cursor => S.toBytes cursor.stateKey
        | none => addressPrefix
      let iter := S.iterator addressPrefix startKey
      -- without an index into a group the cursor's key has been returned by the page before
      let iter := match b.paginationCursor with
        | some ⟨_, none⟩ => iter.tail
        | _ => iter
      match buildLoop S iter b with
      | .error e => .error e
      | .ok b => .ok (b.moveList, encodeCursor S b.paginationCursor)

end MoveListBuilder

/-- `ApiServerState::get_move_list`, with the error before its conversion. -/
def getMoveList (S : ApiServerState) (address : AccountAddress) (queryKind : MoveListQuery)
    (cursor : Option Bytes) (count : Nat) : Except MoveListError (MoveListV3 × Option Bytes) := do
  let builder ← MoveListBuilder.new S address queryKind cursor count
  builder.buildMoveList S

end Rest.MoveList
