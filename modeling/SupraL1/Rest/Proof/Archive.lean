import SupraL1.Lib.Fallible
import SupraL1.Rest.Ledger

/-!
# The archive's API serves the ledger

On an archive that represents a ledger, no read of the tables is inconsistent: a block is served with
all its transactions, and a lookup finds what is in the ledger and nothing else. So the three ways to
ask for a transaction agree, which are its block, the list of the hashes of its block, and its hash.
-/

namespace Rest.Archive.Proof

open Consensus (Hash)
open Move (TxExecutionStatus)
open Fallible

variable {T : Types} {E : Env T} {S : RpcStorage T} {L : Ledger T}

/-! ## Assembling -/

section
variable {α : Type} {a : α}

@[simp] theorem read_ok : read (.ok a : Except String α) = .ok a := rfl

@[simp] theorem readArchive_ok : readArchive (.ok a : Except String α) = .ok a := rfl

theorem ifAsked_ok {ε : Type} (txnType : Option TransactionType) (type : TransactionType) (d : α) :
    ifAsked txnType type (.ok a : Except ε α) d = .ok (if asks txnType type then a else d) := by
  unfold ifAsked
  split <;> rfl

end

theorem createTransactionInfo_blockData {hash : Hash} {t : SmrTransaction T}
    {output : Option (SerializedOutput T)} {status : TxExecutionStatus} {info : TransactionInfoV2 T}
    (h : createTransactionInfo E hash t output status none = .ok info)
    (blockData : Option (BlockHeaderInfo T)) :
    createTransactionInfo E hash t output status blockData =
      .ok { info with blockHeader := blockData } := by
  unfold createTransactionInfo at h ⊢
  split at h
  · unfold moveTransactionInfo at h ⊢
    obtain ⟨payload, hpayload, h⟩ := bind_ok_iff.1 h
    obtain ⟨output', houtput, h⟩ := bind_ok_iff.1 h
    obtain rfl := Except.ok.inj h
    rw [hpayload, houtput]
    rfl
  · obtain rfl := Except.ok.inj h
    rfl
  · obtain rfl := Except.ok.inj h
    rfl

theorem output_of_apiMoveTransactionOutput {output : SerializedOutput T}
    {result : Option (TransactionOutput T)}
    (h : apiMoveTransactionOutput E (some output) = .ok result) : result.isSome := by
  cases output with
  | move output =>
    obtain ⟨output', -, h⟩ := bind_ok_iff.1 h
    obtain rfl := Except.ok.inj h
    rfl
  | other status => cases h

theorem createTransactionInfo_ok {hash : Hash} {t : SmrTransaction T} {output : SerializedOutput T}
    {status : TxExecutionStatus} {info : TransactionInfoV2 T}
    (h : createTransactionInfo E hash t (some output) status none = .ok info) :
    info.hash = hash ∧ info.output.isSome := by
  unfold createTransactionInfo at h
  split at h
  · unfold moveTransactionInfo at h
    obtain ⟨payload, -, h⟩ := bind_ok_iff.1 h
    obtain ⟨output', houtput, h⟩ := bind_ok_iff.1 h
    obtain rfl := Except.ok.inj h
    exact ⟨rfl, output_of_apiMoveTransactionOutput houtput⟩
  · obtain rfl := Except.ok.inj h
    exact ⟨rfl, rfl⟩
  · obtain rfl := Except.ok.inj h
    exact ⟨rfl, rfl⟩

theorem createAutomatedTransactionInfo_blockData {txnMeta : AutomatedTransactionMeta}
    {task : AutomationTask T} {output : Option (SerializedOutput T)} {status : TxExecutionStatus}
    {info : TransactionInfoV2 T}
    (h : createAutomatedTransactionInfo E txnMeta task output status none = .ok info)
    (blockData : Option (BlockHeaderInfo T)) :
    createAutomatedTransactionInfo E txnMeta task output status blockData =
      .ok { info with blockHeader := blockData } := by
  unfold createAutomatedTransactionInfo at h ⊢
  obtain ⟨payload, hpayload, h⟩ := bind_ok_iff.1 h
  obtain ⟨output', houtput, h⟩ := bind_ok_iff.1 h
  obtain rfl := Except.ok.inj h
  rw [hpayload, houtput]
  rfl

theorem createAutomatedTransactionInfo_ok {txnMeta : AutomatedTransactionMeta}
    {task : AutomationTask T} {output : SerializedOutput T} {status : TxExecutionStatus}
    {info : TransactionInfoV2 T}
    (h : createAutomatedTransactionInfo E txnMeta task (some output) status none = .ok info) :
    info.hash = txnMeta.hash ∧ info.output.isSome ∧ info.payload.isMove := by
  unfold createAutomatedTransactionInfo at h
  obtain ⟨payload, -, h⟩ := bind_ok_iff.1 h
  obtain ⟨output', houtput, h⟩ := bind_ok_iff.1 h
  obtain rfl := Except.ok.inj h
  exact ⟨rfl, output_of_apiMoveTransactionOutput houtput, rfl⟩

/-! ## Transactions of the ledger -/

section
variable (hrep : Represents S.archive L) {b : ExecutedBlock T} (hb : b ∈ L.blocks)
include hrep hb

theorem finalized_of_outcome {o : Hash × Outcome T} (ho : o ∈ b.outcomes) (withBlockData : Bool) :
    getFinalizedTransactionOutputAndBlockInfo S o.1 withBlockData =
      .ok (some o.2.output, if withBlockData then some b.header else none) := by
  unfold getFinalizedTransactionOutputAndBlockInfo
  rw [hrep.output b hb o ho, hrep.blockHash b hb o ho, read_ok, ok_bind, read_ok, ok_bind]
  dsimp only
  rw [hrep.header b hb, read_ok, ok_bind]
  rfl

section
variable {u : Hash × SmrTransaction T × Outcome T} (hu : u ∈ b.users) {info : TransactionInfoV2 T}
  (hinfo : createTransactionInfo E u.1 u.2.1 (some u.2.2.output) u.2.2.status none = .ok info)
include hu hinfo

theorem executed_user (withBlockData : Bool) :
    getExecutedTransactionByHash E S u.1 withBlockData =
      .ok (some { info with blockHeader := if withBlockData then some b.header else none }) := by
  have ho : (u.1, u.2.2) ∈ b.outcomes :=
    List.mem_append_left _ (List.mem_append_right _ (List.mem_map_of_mem hu))
  unfold getExecutedTransactionByHash
  rw [hrep.user b hb u hu, read_ok, ok_bind]
  dsimp only
  rw [hrep.status b hb _ ho, read_ok, ok_bind]
  dsimp only
  rw [finalized_of_outcome hrep hb ho, ok_bind]
  dsimp only
  rw [createTransactionInfo_blockData hinfo, ok_bind]
  rfl

theorem transient_user (hbacklog : S.backlog u.1 = none) :
    getTransientTransactionByHash E S u.1 true =
      .ok (some { info with blockHeader := some b.header }) := by
  have ho : (u.1, u.2.2) ∈ b.outcomes :=
    List.mem_append_left _ (List.mem_append_right _ (List.mem_map_of_mem hu))
  have hstatus : ¬ (u.2.2.status = .pending ∨ u.2.2.status = .pendingAfterExecution) := by
    rintro (h | h)
    · exact u.2.2.notPending h
    · exact u.2.2.notDeferred h
  unfold getTransientTransactionByHash RpcStorage.getTransactionByHash RpcStorage.getTransactionStatus
  rw [hbacklog]
  dsimp only
  rw [hrep.user b hb u hu, read_ok, ok_bind]
  dsimp only
  rw [hrep.status b hb _ ho, read_ok, ok_bind]
  dsimp only
  rw [if_neg hstatus, finalized_of_outcome hrep hb ho, ok_bind]
  dsimp only
  rw [createTransactionInfo_blockData hinfo, ok_bind]
  rfl

end

theorem automated_found {a : AutomatedTransactionMeta × AutomationTask T × Outcome T}
    (ha : a ∈ b.automated) {info : TransactionInfoV2 T}
    (hinfo : createAutomatedTransactionInfo E a.1 a.2.1 (some a.2.2.output) a.2.2.status none = .ok info)
    (withBlockData : Bool) :
    getAutomatedTransactionByHash E S a.1.hash withBlockData =
      .ok (some { info with blockHeader := if withBlockData then some b.header else none }) := by
  have ho : (a.1.hash, a.2.2) ∈ b.outcomes :=
    List.mem_append_right _ (List.mem_map.2 ⟨a, ha, rfl⟩)
  unfold getAutomatedTransactionByHash
  rw [hrep.automated b hb a ha, read_ok, ok_bind]
  dsimp only
  rw [hrep.status b hb _ ho, read_ok, ok_bind]
  dsimp only
  rw [finalized_of_outcome hrep hb ho, ok_bind]
  dsimp only
  rw [Option.isNone_some, if_neg Bool.false_ne_true, createAutomatedTransactionInfo_blockData hinfo, ok_bind]
  rfl

theorem metadata_found {m : Hash × Outcome T} (hm : m ∈ b.metadata) {output : TransactionOutput T}
    (houtput : apiMoveTransactionOutput E (some m.2.output) = .ok (some output)) :
    getBlockMetadataByHash E S m.1 = .ok (some ⟨m.1, some b.header, output, m.2.status⟩) := by
  have ho : m ∈ b.outcomes :=
    List.mem_append_left _ (List.mem_append_left _ (Option.mem_toList.2 hm))
  have hhash : m.1 ∈ b.hashesOf .metadata :=
    Option.mem_toList.2 (Option.mem_map_of_mem Prod.fst hm)
  unfold getBlockMetadataByHash getBlockMetadataByHashInternal
  rw [hrep.metadata b hb _ hhash, read_ok, ok_bind, if_pos rfl, hrep.status b hb m ho, read_ok, ok_bind]
  dsimp only
  rw [finalized_of_outcome hrep hb ho, ok_bind]
  dsimp only
  rw [houtput, ok_bind]
  rfl

theorem listed (txnType : Option TransactionType) :
    getTxnsByBlockHashAndType E S b.header.hash txnType = .ok (b.hashes txnType) := by
  have hheight : getBlockHeightByHash E S b.header.hash = .ok b.header.height := by
    unfold getBlockHeightByHash
    rw [hrep.header b hb, readArchive_ok, ok_bind]
    rfl
  have hmetadata : (if asks txnType .metadata then b.metadata.map Prod.fst else none).toList =
      b.askedOf txnType .metadata := by
    unfold ExecutedBlock.askedOf ExecutedBlock.hashesOf
    split <;> rfl
  unfold getTxnsByBlockHashAndType
  rw [hheight, ok_bind, hrep.txs b hb, readArchive_ok, ifAsked_ok, ok_bind, hrep.automatedTxs b hb,
    readArchive_ok, ifAsked_ok, ok_bind, hrep.metadataHash b hb, readArchive_ok, ifAsked_ok, ok_bind,
    hmetadata]
  rfl

end

/-! ## What is not in the ledger -/

section
variable (hrep : Represents S.archive L) {hash : Hash}
include hrep

theorem user_missing (hbacklog : S.backlog hash = none) (hdeferred : hash ∉ L.deferred.map Prod.fst)
    (h : ∀ b ∈ L.blocks, hash ∉ b.hashesOf .user) :
    getUserTransactionByHash E S hash true = .error (.transactionNotFound hash) := by
  unfold getUserTransactionByHash getTransientTransactionByHash RpcStorage.getTransactionByHash
  rw [if_pos rfl, hbacklog]
  dsimp only
  rw [hrep.onlyUsers hash h hdeferred, read_ok, ok_bind]

theorem automated_missing (h : ∀ b ∈ L.blocks, hash ∉ b.hashesOf .auto) (withBlockData : Bool) :
    getAutomatedTransactionByHash E S hash withBlockData = .error (.transactionNotFound hash) := by
  unfold getAutomatedTransactionByHash
  rw [hrep.onlyAutomated hash h, read_ok, ok_bind]

theorem metadata_missing (h : ∀ b ∈ L.blocks, hash ∉ b.hashesOf .metadata) :
    getBlockMetadataByHash E S hash = .error (.transactionNotFound hash) := by
  unfold getBlockMetadataByHash
  rw [hrep.onlyMetadata hash h, read_ok, ok_bind, if_neg Bool.false_ne_true]

end

/-! ## Lookups -/

/-- A lookup without a type tries the types in order. -/
theorem lookup_of_user {hash : Hash} {tx : Transaction T}
    (h : getTransactionByHash E S hash (some .user) = .ok (some tx)) :
    getTransactionByHash E S hash none = .ok (some tx) := by
  obtain ⟨found, hfound, h⟩ := bind_ok_iff.1 h
  obtain ⟨info, rfl, rfl⟩ := Option.map_eq_some_iff.1 (Except.ok.inj h)
  unfold getTransactionByHash getTransactionByHashInternal
  rw [hfound]
  rfl

theorem lookup_of_auto {hash : Hash} {tx : Transaction T}
    (huser : getUserTransactionByHash E S hash true = .error (.transactionNotFound hash))
    (h : getTransactionByHash E S hash (some .auto) = .ok (some tx)) :
    getTransactionByHash E S hash none = .ok (some tx) := by
  obtain ⟨found, hfound, h⟩ := bind_ok_iff.1 h
  obtain ⟨info, rfl, rfl⟩ := Option.map_eq_some_iff.1 (Except.ok.inj h)
  unfold getTransactionByHash getTransactionByHashInternal
  rw [huser]
  dsimp only
  rw [hfound]
  rfl

theorem lookup_of_metadata {hash : Hash}
    (huser : getUserTransactionByHash E S hash true = .error (.transactionNotFound hash))
    (hauto : getAutomatedTransactionByHash E S hash true = .error (.transactionNotFound hash)) :
    getTransactionByHash E S hash none = getTransactionByHash E S hash (some .metadata) := by
  unfold getTransactionByHash getTransactionByHashInternal
  rw [huser]
  dsimp only
  rw [hauto]

section
variable (hrep : Represents S.archive L) (hconv : Convertible E L) {hash : Hash}
include hrep hconv

theorem lookup_found (hbacklog : S.backlog hash = none) {b : ExecutedBlock T} (hb : b ∈ L.blocks)
    {type : TransactionType} (h : hash ∈ b.hashesOf type) :
    ∃ tx, getTransactionByHash E S hash (some type) = .ok (some tx) ∧ tx.hash = hash ∧
      tx.blockHeader = some b.header := by
  cases type with
  | user =>
    obtain ⟨u, hu, rfl⟩ := List.mem_map.1 h
    obtain ⟨info, hinfo⟩ := hconv.user b hb u hu
    refine ⟨.move { info with blockHeader := some b.header }, ?_, (createTransactionInfo_ok hinfo).1, rfl⟩
    unfold getTransactionByHash getUserTransactionByHash
    dsimp only
    rw [if_pos rfl, transient_user hrep hb hu hinfo hbacklog]
    rfl
  | auto =>
    obtain ⟨a, ha, rfl⟩ := List.mem_map.1 h
    obtain ⟨info, hinfo⟩ := hconv.automated b hb a ha
    refine ⟨.move { info with blockHeader := some b.header }, ?_,
      (createAutomatedTransactionInfo_ok hinfo).1, rfl⟩
    unfold getTransactionByHash
    dsimp only
    rw [automated_found hrep hb ha hinfo]
    rfl
  | metadata =>
    obtain ⟨m, hm, rfl⟩ := Option.map_eq_some_iff.1 (Option.mem_toList.1 h)
    obtain ⟨output, houtput⟩ := hconv.metadata b hb m hm
    refine ⟨.blockMetadata ⟨m.1, some b.header, output, m.2.status⟩, ?_, rfl, rfl⟩
    unfold getTransactionByHash
    dsimp only
    rw [metadata_found hrep hb hm houtput]
    rfl

omit hconv in
theorem lookup_missing (hbacklog : S.backlog hash = none) (hdeferred : hash ∉ L.deferred.map Prod.fst)
    {type : TransactionType} (h : ∀ b ∈ L.blocks, hash ∉ b.hashesOf type) :
    getTransactionByHash E S hash (some type) = .error (.transactionNotFound hash) := by
  unfold getTransactionByHash
  cases type with
  | user => exact congrArg (· >>= _) (user_missing hrep hbacklog hdeferred h)
  | auto => exact congrArg (· >>= _) (automated_missing hrep h true)
  | metadata => exact congrArg (· >>= _) (metadata_missing hrep h)

theorem typed_iff (hbacklog : S.backlog hash = none) (hdeferred : hash ∉ L.deferred.map Prod.fst)
    (type : TransactionType) (header : BlockHeaderInfo T) :
    (∃ tx, getTransactionByHash E S hash (some type) = .ok (some tx) ∧ tx.hash = hash ∧
      tx.blockHeader = some header) ↔ ∃ b ∈ L.blocks, b.header = header ∧ hash ∈ b.hashesOf type := by
  constructor
  · rintro ⟨tx, htx, -, hheader⟩
    by_cases hin : ∃ b ∈ L.blocks, hash ∈ b.hashesOf type
    · obtain ⟨b, hb, hmem⟩ := hin
      obtain ⟨tx', htx', -, hheader'⟩ := lookup_found hrep hconv hbacklog hb hmem
      obtain rfl := Option.some.inj (Except.ok.inj (htx.symm.trans htx'))
      exact ⟨b, hb, Option.some.inj (hheader'.symm.trans hheader), hmem⟩
    · have hmissing : getTransactionByHash E S hash (some type) = .error (.transactionNotFound hash) :=
        lookup_missing hrep hbacklog hdeferred fun b hb hmem => hin ⟨b, hb, hmem⟩
      rw [hmissing] at htx
      cases htx
  · rintro ⟨b, hb, rfl, hmem⟩
    exact lookup_found hrep hconv hbacklog hb hmem

end

theorem mem_askedOf {b : ExecutedBlock T} {txnType : Option TransactionType} {type : TransactionType}
    {hash : Hash} : hash ∈ b.askedOf txnType type ↔ asks txnType type ∧ hash ∈ b.hashesOf type := by
  unfold ExecutedBlock.askedOf
  split
  · next h => rw [h, and_iff_right rfl]
  · next h => exact ⟨fun hmem => absurd hmem List.not_mem_nil, fun hand => absurd hand.1 h⟩

theorem mem_hashes {b : ExecutedBlock T} {txnType : Option TransactionType} {hash : Hash} :
    hash ∈ b.hashes txnType ↔ ∃ type, asks txnType type ∧ hash ∈ b.hashesOf type := by
  unfold ExecutedBlock.hashes
  rw [List.mem_append, List.mem_append, mem_askedOf, mem_askedOf, mem_askedOf]
  constructor
  · rintro ((h | h) | h)
    · exact ⟨.metadata, h⟩
    · exact ⟨.user, h⟩
    · exact ⟨.auto, h⟩
  · rintro ⟨_ | _ | _, h⟩
    · exact .inr h
    · exact .inl (.inr h)
    · exact .inl (.inl h)

theorem mem_hashes_none {b : ExecutedBlock T} {hash : Hash} :
    hash ∈ b.hashes none ↔ ∃ type, hash ∈ b.hashesOf type := by
  rw [mem_hashes]
  exact exists_congr fun type => and_iff_right rfl

theorem mem_hashes_some {b : ExecutedBlock T} {type : TransactionType} {hash : Hash} :
    hash ∈ b.hashes (some type) ↔ hash ∈ b.hashesOf type := by
  rw [mem_hashes]
  constructor
  · rintro ⟨type', hasks, hmem⟩
    obtain rfl : type = type' := by simpa [asks] using hasks
    exact hmem
  · exact fun hmem => ⟨type, by simp [asks], hmem⟩

theorem mem_outcomes {b : ExecutedBlock T} {hash : Hash} {type : TransactionType}
    (h : hash ∈ b.hashesOf type) : ∃ o, (hash, o) ∈ b.outcomes := by
  unfold ExecutedBlock.outcomes
  cases type with
  | user =>
    obtain ⟨u, hu, rfl⟩ := List.mem_map.1 h
    exact ⟨u.2.2, List.mem_append_left _ (List.mem_append_right _ (List.mem_map_of_mem hu))⟩
  | auto =>
    obtain ⟨a, ha, rfl⟩ := List.mem_map.1 h
    exact ⟨a.2.2, List.mem_append_right _ (List.mem_map.2 ⟨a, ha, rfl⟩)⟩
  | metadata =>
    obtain ⟨m, hm, rfl⟩ := Option.map_eq_some_iff.1 (Option.mem_toList.1 h)
    exact ⟨m.2, List.mem_append_left _ (List.mem_append_left _ (Option.mem_toList.2 hm))⟩

section
variable (hrep : Represents S.archive L) {b b' : ExecutedBlock T} (hb : b ∈ L.blocks)
  (hb' : b' ∈ L.blocks)
include hrep hb hb'

/-- The archive has one block for a transaction. -/
theorem header_eq_of_mem {hash : Hash} {type type' : TransactionType} (h : hash ∈ b.hashesOf type)
    (h' : hash ∈ b'.hashesOf type') : b.header = b'.header := by
  obtain ⟨o, ho⟩ := mem_outcomes h
  obtain ⟨o', ho'⟩ := mem_outcomes h'
  have hblock : S.archive.getBlockHashByTxnHash hash = .ok (some b.header.hash) :=
    hrep.blockHash b hb _ ho
  have hhash : b.header.hash = b'.header.hash :=
    Option.some.inj (Except.ok.inj (hblock.symm.trans (hrep.blockHash b' hb' _ ho')))
  have hheader := hrep.header b hb
  rw [hhash, hrep.header b' hb'] at hheader
  exact (Option.some.inj (Except.ok.inj hheader)).symm

theorem hashesOf_eq_of_header (h : b.header = b'.header) (type : TransactionType) :
    b.hashesOf type = b'.hashesOf type := by
  cases type with
  | user =>
    have htxs := hrep.txs b hb
    rw [h, hrep.txs b' hb'] at htxs
    exact (Except.ok.inj htxs).symm
  | auto =>
    have htxs := hrep.automatedTxs b hb
    rw [h, hrep.automatedTxs b' hb'] at htxs
    exact (Except.ok.inj htxs).symm
  | metadata =>
    have hhash := hrep.metadataHash b hb
    rw [h, hrep.metadataHash b' hb'] at hhash
    exact congrArg Option.toList (Except.ok.inj hhash).symm

end

section
variable (hrep : Represents S.archive L) (hconv : Convertible E L) {hash : Hash}
  (hbacklog : S.backlog hash = none) (hdeferred : hash ∉ L.deferred.map Prod.fst)
include hrep hconv hbacklog hdeferred

/-- A lookup without a type is one with the first type that the ledger has the hash under. -/
theorem untyped_eq : ∃ type, getTransactionByHash E S hash none = getTransactionByHash E S hash (some type) ∧
    ∀ b ∈ L.blocks, hash ∈ b.hashes none → ∃ b' ∈ L.blocks, hash ∈ b'.hashesOf type := by
  by_cases huser : ∃ b ∈ L.blocks, hash ∈ b.hashesOf .user
  · obtain ⟨b, hb, hmem⟩ := huser
    obtain ⟨tx, htx, -⟩ := lookup_found hrep hconv hbacklog hb hmem
    exact ⟨.user, (lookup_of_user htx).trans htx.symm, fun _ _ _ => ⟨b, hb, hmem⟩⟩
  have hnotUser : getUserTransactionByHash E S hash true = .error (.transactionNotFound hash) :=
    user_missing hrep hbacklog hdeferred fun b hb hmem => huser ⟨b, hb, hmem⟩
  by_cases hauto : ∃ b ∈ L.blocks, hash ∈ b.hashesOf .auto
  · obtain ⟨b, hb, hmem⟩ := hauto
    obtain ⟨tx, htx, -⟩ := lookup_found hrep hconv hbacklog hb hmem
    exact ⟨.auto, (lookup_of_auto hnotUser htx).trans htx.symm, fun _ _ _ => ⟨b, hb, hmem⟩⟩
  refine ⟨.metadata, lookup_of_metadata hnotUser
    (automated_missing hrep (fun b hb hmem => hauto ⟨b, hb, hmem⟩) true), fun b hb hmem => ?_⟩
  obtain ⟨type, hmem⟩ := mem_hashes_none.1 hmem
  cases type with
  | user => exact absurd ⟨b, hb, hmem⟩ huser
  | auto => exact absurd ⟨b, hb, hmem⟩ hauto
  | metadata => exact ⟨b, hb, hmem⟩

theorem lookup_unlisted {txnType : Option TransactionType} (h : ∀ b ∈ L.blocks, hash ∉ b.hashes txnType) :
    getTransactionByHash E S hash txnType = .error (.transactionNotFound hash) := by
  cases txnType with
  | some type =>
    exact lookup_missing hrep hbacklog hdeferred fun b hb hmem => h b hb (mem_hashes_some.2 hmem)
  | none =>
    obtain ⟨type, heq, -⟩ := untyped_eq hrep hconv hbacklog hdeferred
    rw [heq]
    exact lookup_missing hrep hbacklog hdeferred fun b hb hmem => h b hb (mem_hashes_none.2 ⟨type, hmem⟩)

end

/-! ### A small archive

One block at height 7 with a metadata transaction 1, a user transaction 2 and an automated transaction
3; the execution of transaction 4 was put off. -/

/-- Data that is only passed on carries nothing. -/
abbrev smallTypes : Types := ⟨Unit, Unit, Unit, Unit, Unit, Unit, Unit, Unit, Unit, Unit⟩

def smallEnv : Env smallTypes where
  chainId := 6
  defaultSizeOfPage := 20
  maxNumOfTransactionsToReturn := 100
  authenticator := id
  header _ := ⟨5, 0, 1, 1, 1, 6⟩
  payload := id
  tryIntoTransactionPayload := .ok
  convertToApiMoveTransactionOutput := .ok
  executionStatus _ := .success
  display _ := ""
  displayAccount _ := ""

def smallOutcome : Outcome smallTypes := ⟨.move (), .success, by decide, by decide⟩

def smallBlock : ExecutedBlock smallTypes where
  header := ⟨10, 7, ()⟩
  metadata := some (1, smallOutcome)
  users := [(2, .move (), smallOutcome)]
  automated := [(⟨0, 5, 1, 7, 3⟩, ⟨1, 1, (), 2⟩, smallOutcome)]

def smallLedger : Ledger smallTypes := ⟨[smallBlock], [(4, .move ())]⟩

def smallArchive : ArchiveReader smallTypes where
  getBlockHeaderInfoByHeight h := .ok (if h = 7 then some smallBlock.header else none)
  getBlockHeaderInfo h := .ok (if h = 10 then some smallBlock.header else none)
  getTxsByBlockHeight h := .ok (if h = 7 then [2] else [])
  getAutomatedTxsByBlockHeight h := .ok (if h = 7 then [3] else [])
  getBlockMetadataHashByBlockHeight h := .ok (if h = 7 then some 1 else none)
  getTransaction h := .ok (if h = 2 ∨ h = 4 then some (.move ()) else none)
  getAutomatedTransactionData h := .ok (if h = 3 then some (⟨0, 5, 1, 7, 3⟩, ⟨1, 1, (), 2⟩) else none)
  isBlockMetadataHash h := .ok (h = 1)
  getTransactionStatus h := .ok (if h = 4 then some .pendingAfterExecution else some .success)
  getTxnOutput h := .ok (if h = 4 then none else some (.move ()))
  getBlockHashByTxnHash h := .ok (if h = 4 then none else some 10)
  getTransactionHashesByAccount _ _ _ := .ok [2]
  getAutomatedTransactionHashesByAccount _ _ _ _ _ := .ok ([3], none)
  getCoinTransactionHashesByAccount _ _ _ := .ok ([.blockMetadata 1, .user 2, .automated 3], 8)

def smallStorage : RpcStorage smallTypes := ⟨fun _ => none, smallArchive⟩

theorem small_outcomes {o : Hash × Outcome smallTypes} (h : o ∈ smallBlock.outcomes) :
    o.1 ≠ 4 ∧ o.2 = smallOutcome := by
  simp only [ExecutedBlock.outcomes, smallBlock, Option.toList_some, List.map_cons, List.map_nil,
    List.cons_append, List.nil_append, List.mem_cons, List.not_mem_nil, or_false] at h
  rcases h with rfl | rfl | rfl <;> exact ⟨by decide, rfl⟩

theorem small_mem : smallBlock ∈ smallLedger.blocks := List.mem_singleton.2 rfl

theorem small_forall {P : ExecutedBlock smallTypes → Prop} (h : P smallBlock) :
    ∀ b ∈ smallLedger.blocks, P b := by
  intro b hb
  obtain rfl := List.mem_singleton.1 hb
  exact h

theorem small_represents : Represents smallArchive smallLedger where
  headerByHeight := small_forall rfl
  noHeaderByHeight h hne := congrArg Except.ok (if_neg fun heq => hne _ small_mem heq.symm)
  header := small_forall rfl
  txs := small_forall rfl
  automatedTxs := small_forall rfl
  metadataHash := small_forall rfl
  status := small_forall fun o ho => by
    obtain ⟨hne, heq⟩ := small_outcomes ho
    rw [heq]
    exact congrArg Except.ok (if_neg hne)
  output := small_forall fun o ho => by
    obtain ⟨hne, heq⟩ := small_outcomes ho
    rw [heq]
    exact congrArg Except.ok (if_neg hne)
  blockHash := small_forall fun o ho => congrArg Except.ok (if_neg (small_outcomes ho).1)
  user := small_forall fun u hu => by
    obtain rfl := List.mem_singleton.1 hu
    rfl
  automated := small_forall fun a ha => by
    obtain rfl := List.mem_singleton.1 ha
    rfl
  metadata := small_forall fun h hh => by
    obtain rfl := List.mem_singleton.1 hh
    rfl
  deferred d hd := by
    obtain rfl := List.mem_singleton.1 hd
    exact ⟨rfl, rfl⟩
  onlyUsers h husers hdeferred := by
    refine congrArg Except.ok (if_neg ?_)
    rintro (rfl | rfl)
    · exact husers _ small_mem (List.mem_singleton.2 rfl)
    · exact hdeferred (List.mem_singleton.2 rfl)
  onlyAutomated h hautomated := by
    refine congrArg Except.ok (if_neg ?_)
    rintro rfl
    exact hautomated _ small_mem (List.mem_singleton.2 rfl)
  onlyMetadata h hmetadata := by
    refine congrArg Except.ok (decide_eq_false ?_)
    rintro rfl
    exact hmetadata _ small_mem (List.mem_singleton.2 rfl)

theorem small_convertible : Convertible smallEnv smallLedger where
  user := small_forall fun u hu => by
    obtain rfl := List.mem_singleton.1 hu
    exact ⟨_, rfl⟩
  automated := small_forall fun a ha => by
    obtain rfl := List.mem_singleton.1 ha
    exact ⟨_, rfl⟩
  metadata := small_forall fun m hm => by
    obtain rfl := Option.some.inj hm
    exact ⟨_, rfl⟩

theorem listed_iff (hrep : Represents S.archive L) {b : ExecutedBlock T} (hb : b ∈ L.blocks)
    {hash : Hash} {txnType : Option TransactionType} :
    (∃ hashes, getTxnsByBlockHashAndType E S b.header.hash txnType = .ok hashes ∧ hash ∈ hashes) ↔
      hash ∈ b.hashes txnType := by
  rw [listed hrep hb]
  exact ⟨fun ⟨_, h, hmem⟩ => Except.ok.inj h ▸ hmem, fun hmem => ⟨_, rfl, hmem⟩⟩

/-- **What a block lists is what is found with that block**: by type or without one, a hash is in the
list of a block exactly if it is looked up with the header of the block, and a hash that is in the
list of no block is not found. -/
theorem listed_iff_found (hrep : Represents S.archive L) (hconv : Convertible E L) {hash : Hash}
    (hbacklog : S.backlog hash = none) (hdeferred : hash ∉ L.deferred.map Prod.fst)
    (txnType : Option TransactionType) :
    (∀ b ∈ L.blocks,
      (∃ hashes, getTxnsByBlockHashAndType E S b.header.hash txnType = .ok hashes ∧ hash ∈ hashes) ↔
        ∃ tx, getTransactionByHash E S hash txnType = .ok (some tx) ∧ tx.hash = hash ∧
          tx.blockHeader = some b.header) ∧
    ((∀ b ∈ L.blocks, ¬ ∃ hashes,
        getTxnsByBlockHashAndType E S b.header.hash txnType = .ok hashes ∧ hash ∈ hashes) →
      getTransactionByHash E S hash txnType = .error (.transactionNotFound hash)) := by
  constructor
  · intro b hb
    rw [listed_iff hrep hb]
    cases txnType with
    | some type =>
      rw [typed_iff hrep hconv hbacklog hdeferred, mem_hashes_some]
      constructor
      · exact fun hmem => ⟨b, hb, rfl, hmem⟩
      · rintro ⟨b', hb', hheader, hmem⟩
        rwa [← hashesOf_eq_of_header hrep hb' hb hheader type]
    | none =>
      obtain ⟨type, heq, htype⟩ := untyped_eq hrep hconv hbacklog hdeferred
      rw [heq, typed_iff hrep hconv hbacklog hdeferred, mem_hashes_none]
      constructor
      · rintro ⟨type', hmem⟩
        obtain ⟨b', hb', hmem'⟩ := htype b hb (mem_hashes_none.2 ⟨type', hmem⟩)
        exact ⟨b', hb', header_eq_of_mem hrep hb' hb hmem' hmem, hmem'⟩
      · rintro ⟨b', hb', hheader, hmem⟩
        rw [hashesOf_eq_of_header hrep hb' hb hheader type] at hmem
        exact ⟨type, hmem⟩
  · intro hunlisted
    exact lookup_unlisted hrep hconv hbacklog hdeferred fun b hb hmem =>
      hunlisted b hb ((listed_iff hrep hb).2 hmem)

theorem listed_iff_found_small :
    (∃ tx, getTransactionByHash smallEnv smallStorage 3 none = .ok (some tx) ∧ tx.hash = 3 ∧
      tx.blockHeader = some smallBlock.header) ∧
    getTransactionByHash smallEnv smallStorage 3 (some .user) = .error (.transactionNotFound 3) := by
  constructor
  · exact ((listed_iff_found (S := smallStorage) small_represents small_convertible rfl (by decide)
      none).1 smallBlock small_mem).1 ⟨[1, 2, 3], rfl, by decide⟩
  · refine (listed_iff_found (S := smallStorage) small_represents small_convertible rfl (by decide)
      (some .user)).2 (small_forall ?_)
    rintro ⟨hashes, hlisted, hmem⟩
    obtain rfl : [2] = hashes := Except.ok.inj hlisted
    exact absurd hmem (by decide)

/-! ## Blocks -/

/-- What a block holds of a transaction is what the transaction is looked up with, but for the header
of the block. -/
structure Agrees (E : Env T) (S : RpcStorage T) (b : ExecutedBlock T) (type : TransactionType)
    (hash : Hash) (info : TransactionInfoV2 T) : Prop where
  sameHash : info.hash = hash
  output : info.output.isSome
  lookup : S.backlog hash = none → getTransactionByHash E S hash (some type) =
    .ok (some (.move { info with blockHeader := some b.header }))

section
variable (hrep : Represents S.archive L) (hconv : Convertible E L) {b : ExecutedBlock T}
  (hb : b ∈ L.blocks)
include hrep hconv hb

theorem blockTransaction_agrees {hash : Hash} (h : hash ∈ b.hashesOf .user) :
    ∃ info, getBlockTransaction E S b.header.hash hash = .ok info ∧ Agrees E S b .user hash info := by
  obtain ⟨u, hu, rfl⟩ := List.mem_map.1 h
  obtain ⟨info, hinfo⟩ := hconv.user b hb u hu
  obtain ⟨hhash, houtput⟩ := createTransactionInfo_ok hinfo
  refine ⟨{ info with blockHeader := none }, ?_, hhash, houtput, fun hbacklog => ?_⟩
  · unfold getBlockTransaction
    rw [executed_user hrep hb hu hinfo, ok_bind]
    have hsome : ¬ info.output.isNone = true := by
      rw [Option.isNone_iff_eq_none, ← ne_eq, ← Option.isSome_iff_ne_none]
      exact houtput
    exact if_neg hsome
  · unfold getTransactionByHash getUserTransactionByHash
    dsimp only
    rw [if_pos rfl, transient_user hrep hb hu hinfo hbacklog]
    rfl

theorem blockAutomatedTransaction_agrees {hash : Hash} (h : hash ∈ b.hashesOf .auto) :
    ∃ info, getBlockAutomatedTransaction E S b.header.hash hash = .ok info ∧
      Agrees E S b .auto hash info := by
  obtain ⟨a, ha, rfl⟩ := List.mem_map.1 h
  obtain ⟨info, hinfo⟩ := hconv.automated b hb a ha
  obtain ⟨hhash, houtput, hmove⟩ := createAutomatedTransactionInfo_ok hinfo
  refine ⟨{ info with blockHeader := none }, ?_, hhash, houtput, fun _ => ?_⟩
  · unfold getBlockAutomatedTransaction checkMovePayloadType
    rw [automated_found hrep hb ha hinfo, ok_bind]
    dsimp only
    rw [if_pos hmove, ok_bind]
    rfl
  · unfold getTransactionByHash
    dsimp only
    rw [automated_found hrep hb ha hinfo]
    rfl

theorem block_served (txnType : Option TransactionType) :
    ∃ users automated, getBlockByHeight E S b.header.height true txnType =
        .ok (some ⟨b.header, some (users ++ automated)⟩) ∧
      List.Forall₂ (Agrees E S b .user) (b.askedOf txnType .user) users ∧
      List.Forall₂ (Agrees E S b .auto) (b.askedOf txnType .auto) automated := by
  obtain ⟨users, husers, hagree⟩ := mapM_ok_of_forall fun h (hh : h ∈ b.askedOf txnType .user) =>
    blockTransaction_agrees hrep hconv hb (mem_askedOf.1 hh).2
  obtain ⟨automated, hautomated, hagree'⟩ := mapM_ok_of_forall fun h (hh : h ∈ b.askedOf txnType .auto) =>
    blockAutomatedTransaction_agrees hrep hconv hb (mem_askedOf.1 hh).2
  refine ⟨users, automated, ?_, hagree, hagree'⟩
  unfold getBlockByHeight
  rw [hrep.headerByHeight b hb, read_ok, ok_bind]
  dsimp only
  rw [if_neg (by decide), hrep.txs b hb, read_ok, ifAsked_ok, ok_bind, hrep.automatedTxs b hb, read_ok,
    ifAsked_ok, ok_bind]
  unfold ExecutedBlock.askedOf at husers hautomated
  rw [husers, ok_bind, hautomated, ok_bind]
  rfl

end

theorem map_hash_of_agrees {b : ExecutedBlock T} {type : TransactionType} {hashes : List Hash}
    {infos : List (TransactionInfoV2 T)} (h : List.Forall₂ (Agrees E S b type) hashes infos) :
    infos.map (·.hash) = hashes := by
  induction h with
  | nil => rfl
  | cons ha _ ih => rw [List.map_cons, ih, ha.sameHash]

theorem exists_of_agrees {b : ExecutedBlock T} {type : TransactionType} {hashes : List Hash}
    {infos : List (TransactionInfoV2 T)} (h : List.Forall₂ (Agrees E S b type) hashes infos)
    {info : TransactionInfoV2 T} (hinfo : info ∈ infos) :
    info.hash ∈ hashes ∧ Agrees E S b type info.hash info := by
  induction h with
  | nil => cases hinfo
  | @cons hash info' hashes infos ha _ ih =>
    rcases List.mem_cons.1 hinfo with rfl | hinfo
    · obtain rfl := ha.sameHash
      exact ⟨List.mem_cons_self, ha⟩
    · exact ⟨List.mem_cons_of_mem _ (ih hinfo).1, (ih hinfo).2⟩

/-- **A block, its list of hashes and the lookups agree**: the block at a height holds the user and
automated transactions of the list, in order and with their outputs, and each is what a lookup without
a type gives, but for the header of the block, which the lookup adds. -/
theorem block_agrees_with_lookups (hrep : Represents S.archive L) (hconv : Convertible E L)
    (hdistinct : ∀ b ∈ L.blocks, ∀ h ∈ b.hashesOf .auto,
      (∀ b' ∈ L.blocks, h ∉ b'.hashesOf .user) ∧ h ∉ L.deferred.map Prod.fst)
    {b : ExecutedBlock T} (hb : b ∈ L.blocks) (txnType : Option TransactionType) :
    ∃ infos, getBlockByHeight E S b.header.height true txnType =
        .ok (some ⟨b.header, some infos⟩) ∧
      getTxnsByBlockHashAndType E S b.header.hash txnType =
        .ok (b.askedOf txnType .metadata ++ infos.map (·.hash)) ∧
      ∀ info ∈ infos, info.output.isSome ∧ (S.backlog info.hash = none →
        getTransactionByHash E S info.hash none =
          .ok (some (.move { info with blockHeader := some b.header }))) := by
  obtain ⟨users, automated, hblock, husers, hautomated⟩ := block_served hrep hconv hb txnType
  refine ⟨users ++ automated, hblock, ?_, fun info hinfo => ?_⟩
  · rw [listed hrep hb, List.map_append, map_hash_of_agrees husers, map_hash_of_agrees hautomated,
      ← List.append_assoc]
    rfl
  · rcases List.mem_append.1 hinfo with hinfo | hinfo
    · obtain ⟨-, hagree⟩ := exists_of_agrees husers hinfo
      exact ⟨hagree.output, fun hbacklog => lookup_of_user (hagree.lookup hbacklog)⟩
    · obtain ⟨hmem, hagree⟩ := exists_of_agrees hautomated hinfo
      obtain ⟨hnotUser, hnotDeferred⟩ := hdistinct b hb _ (mem_askedOf.1 hmem).2
      refine ⟨hagree.output, fun hbacklog => ?_⟩
      exact lookup_of_auto (user_missing hrep hbacklog hnotDeferred hnotUser) (hagree.lookup hbacklog)

theorem block_agrees_with_lookups_small : ∃ infos,
    getBlockByHeight smallEnv smallStorage 7 true none = .ok (some ⟨smallBlock.header, some infos⟩) ∧
      infos.map (·.hash) = [2, 3] ∧
      ∀ info ∈ infos, getTransactionByHash smallEnv smallStorage info.hash none =
        .ok (some (.move { info with blockHeader := some smallBlock.header })) := by
  have hdistinct : ∀ h ∈ smallBlock.hashesOf .auto,
      (∀ b ∈ smallLedger.blocks, h ∉ b.hashesOf .user) ∧ h ∉ smallLedger.deferred.map Prod.fst := by
    intro h hh
    obtain rfl := List.mem_singleton.1 hh
    exact ⟨small_forall (by decide), by decide⟩
  obtain ⟨infos, hblock, hlisted, hlookup⟩ := block_agrees_with_lookups (S := smallStorage)
    small_represents small_convertible (small_forall hdistinct) small_mem none
  have hhashes : [1, 2, 3] = 1 :: infos.map (·.hash) := Except.ok.inj hlisted
  exact ⟨infos, hblock, (List.cons.inj hhashes).2.symm, fun info h => (hlookup info h).2 rfl⟩

/-! ## The versions of the API -/

section
variable {ε α : Type} {type : TransactionType} {r : Except ε α} {d : α}

end

end Rest.Archive.Proof
