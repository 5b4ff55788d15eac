import Mathlib.Data.Nat.Digits.Defs
import SupraL1.Lib.Decimal
import SupraL1.Genesis.Proof.Minted

/-!
# The predicted addresses of the standalone accounts

`FoundationMultisigAccounts::new` predicts the addresses of the foundation's multisig accounts from
the sequence numbers of the first owner: one for each member of the committee and then one for each
standalone account. Genesis creates the accounts of the schema first and then the standalone ones in
the order of their set. The placeholder of a standalone account is its position, in decimal digits
that are read as hexadecimal ones, which keeps the order. The prediction is right as long as the size
of the committee fits into the `u32` of the schema (`addresses_as_predicted_iff`).
-/

namespace Genesis.Proof

open Std Fallible MainnetGenesisAccountsGenerator
open Move (AccountAddress)

variable {E : Env} {gen : MainnetGenesisAccountsGenerator}

/-! ## Placeholders -/

/-- A string of at most 64 digits is read as a hexadecimal number. -/
def ReadsHex (E : Env) : Prop :=
  ∀ digits : List Char, digits ≠ [] → digits.length ≤ 64 → (∀ c ∈ digits, c.isDigit = true) →
    E.addressFromStr (String.ofList digits) = some (BitVec.ofNat 256 (Nat.ofDigitChars 16 digits 0))

/-- The order of the multisig accounts of one set of owners begins with `multisig_address`. -/
def OrdersByAddress (E : Env) : Prop :=
  ∀ a b : MultiSigAccountWithBalance, a.owner = b.owner → a.additionalOwners = b.additionalOwners →
    a.multisigAddress < b.multisigAddress → E.multisigOrder a b = .lt

/-- The placeholder of the account at a position. -/
def placeholder (i : Nat) : AccountAddress := BitVec.ofNat 256 (Decimal.reread 16 i)

theorem ReadsHex.placeholder (h : ReadsHex E) {i : Nat} (hi : i < 10 ^ 64) :
    E.addressFromStr (toString i) = some (placeholder i) := by
  rw [Nat.toString_eq_ofList_toDigits]
  refine h _ Nat.toDigits_ne_nil (Nat.toDigits_length 10 i 64 (by decide) hi) fun c hc => ?_
  exact Nat.isDigit_of_mem_toDigits (by decide) (by decide) hc

/-- **Placeholders are in the order of the positions.** -/
theorem placeholder_lt {i j : Nat} (hij : i < j) (hj : j < 10 ^ 64) : placeholder i < placeholder j := by
  have hbound : ∀ n < 10 ^ 64, Decimal.reread 16 n < 2 ^ 256 := fun n hn =>
    Nat.lt_of_lt_of_eq (Decimal.reread_lt (by decide) hn) (by decide)
  rw [placeholder, placeholder, BitVec.lt_def, BitVec.toNat_ofNat, BitVec.toNat_ofNat,
    Nat.mod_eq_of_lt (hbound i (hij.trans hj)), Nat.mod_eq_of_lt (hbound j hj)]
  exact Decimal.reread_strictMono (by decide) hij

/-! ## The set of the standalone accounts -/

/-- The account that `generate_foundation_standalone_multisig_accounts` makes of the one at `i`. -/
def standaloneAt (E : Env) (gen : MainnetGenesisAccountsGenerator) (i : Nat)
    (account : FoundationOwnedMultisigAccount) : MultiSigAccountWithBalance :=
  let config := gen.foundationMultisigAccountsConfig
  { owner := config.firstOwner
    additionalOwners := config.additionalOwners
    multisigAddress := placeholder i
    numSignaturesRequired := config.numSignaturesRequired
    metadataKeys := account.metadataKeys
    metadataValues := account.metadataValuesSerialized E
    timeoutDuration := config.timeoutDuration
    balance := account.balanceInQuants E }

theorem standaloneMultisigAccount_eq (hhex : ReadsHex E) {i : Nat} (hi : i < 10 ^ 64)
    (account : FoundationOwnedMultisigAccount) :
    gen.standaloneMultisigAccount E i account = .ok (standaloneAt E gen i account) := by
  unfold standaloneMultisigAccount
  rw [hhex.placeholder hi]
  rfl

/-- The accounts in the order of the configuration. -/
def standaloneList (E : Env) (gen : MainnetGenesisAccountsGenerator) :
    List MultiSigAccountWithBalance :=
  gen.foundationMultisigAccountsConfig.standaloneAccounts.zipIdx.map fun (account, i) =>
    standaloneAt E gen i account

theorem standaloneList_getElem? (i : Nat) : (standaloneList E gen)[i]? =
    gen.foundationMultisigAccountsConfig.standaloneAccounts[i]?.map (standaloneAt E gen i) := by
  rw [standaloneList, List.getElem?_map, List.getElem?_zipIdx, Option.map_map, Nat.zero_add]
  rfl

theorem standaloneList_sorted (horder : OrdersByAddress E)
    (hlen : gen.foundationMultisigAccountsConfig.standaloneAccounts.length < 2 ^ 64) :
    (standaloneList E gen).Pairwise fun a b => E.multisigOrder a b = .lt := by
  rw [List.pairwise_iff_getElem]
  intro i j hi hj hij
  simp only [standaloneList, List.getElem_map, List.getElem_zipIdx, Nat.zero_add]
  refine horder _ _ rfl rfl (placeholder_lt hij ?_)
  rw [standaloneList, List.length_map, List.length_zipIdx] at hj
  exact hj.trans (hlen.trans (by decide))

/-- **The set is the list**: it has every account, and iterates in the order of the configuration. -/
theorem generateStandalone_eq [TransCmp E.multisigOrder] (hhex : ReadsHex E)
    (horder : OrdersByAddress E)
    (hlen : gen.foundationMultisigAccountsConfig.standaloneAccounts.length < 2 ^ 64) :
    ∃ set, gen.generateFoundationStandaloneMultisigAccounts E = .ok set ∧
      set.toList = standaloneList E gen := by
  refine ⟨TreeSet.ofList (standaloneList E gen) E.multisigOrder, ?_,
    KeySet.toList_ofList_of_pairwise (standaloneList_sorted horder hlen)⟩
  have hmap : gen.foundationMultisigAccountsConfig.standaloneAccounts.zipIdx.mapM
      (fun (account, i) => gen.standaloneMultisigAccount E i account) =
        .ok (standaloneList E gen) := by
    rw [mapM_ok_iff, standaloneList, List.forall₂_map_right_iff, List.forall₂_same]
    rintro ⟨account, i⟩ hmem
    obtain ⟨-, hi, -⟩ := List.mem_zipIdx hmem
    rw [Nat.zero_add] at hi
    exact standaloneMultisigAccount_eq hhex (hi.trans (hlen.trans (by decide))) account
  unfold generateFoundationStandaloneMultisigAccounts
  rw [hmap]
  exact congrArg Except.ok TreeSet.ofList_eq_insertMany_empty.symm

/-! ## The prediction -/

theorem new_standalone {config : FoundationMultiSigAccountsConfig} {n : Nat}
    {accounts : FoundationMultisigAccounts}
    (h : FoundationMultisigAccounts.new E config n = .ok accounts) {i : Nat}
    {a : FoundationOwnedMultisigAccount} (ha : config.standaloneAccounts[i]? = some a) :
    ∃ name, accounts.standalone[i]? =
      some (FoundationMultisigAccounts.account E config .standaloneAccount name (n + i)) := by
  obtain ⟨standalone, hstandalone, h⟩ := bind_ok_iff.1 h
  obtain rfl := pure_ok_iff.1 h
  have hitem : config.standaloneAccounts.zipIdx[i]? = some (a, i) := by
    rw [List.getElem?_zipIdx, ha, Nat.zero_add]
    rfl
  obtain ⟨account, haccount, hname⟩ := getElem?_of_mapM_ok hstandalone hitem
  obtain ⟨name, -, hname⟩ := bind_ok_iff.1 hname
  obtain rfl := pure_ok_iff.1 hname
  exact ⟨name, haccount⟩

/-- The standalone accounts with the sequence numbers of their owner: genesis creates the accounts of
the schema first, and then the set in the order of its iteration. -/
def createdStandalone (E : Env) (gen : MainnetGenesisAccountsGenerator)
    (set : TreeSet MultiSigAccountWithBalance E.multisigOrder) : List (MultiSigAccountWithBalance × Nat) :=
  set.toList.zipIdx (gen.generateFoundationMultisigAccountsSchema E).numOfAccounts

/-- The standalone accounts are created as predicted: the set has one element for each, in the order
of the configuration, and the one at `i` is created with the sequence number and at the address that
are recorded for it. -/
structure CreatedAsPredicted (E : Env) (gen : MainnetGenesisAccountsGenerator)
    (set : TreeSet MultiSigAccountWithBalance E.multisigOrder) : Prop where
  size : set.size = gen.foundationMultisigAccountsConfig.standaloneAccounts.length
  order : ∀ i account, gen.foundationMultisigAccountsConfig.standaloneAccounts[i]? = some account →
    ∃ m, set.toList[i]? = some m ∧ gen.standaloneMultisigAccount E i account = .ok m
  created : ∀ i m n, (createdStandalone E gen set)[i]? = some (m, n) →
    n = gen.smrCommitteeConfig.size + i ∧
      ∃ f, gen.foundationMultisigAccounts.standalone[i]? = some f ∧ f.seedSequenceNumber = n ∧
        f.address = E.createMultisigAccountAddress m.owner n

/-- **When the addresses are as predicted**: there are no standalone accounts, or the size of the
committee fits into a `u32`. -/
theorem addresses_as_predicted_iff [TransCmp E.multisigOrder] (hhex : ReadsHex E)
    (horder : OrdersByAddress E)
    (hlen : gen.foundationMultisigAccountsConfig.standaloneAccounts.length < 2 ^ 64)
    (hnew : FoundationMultisigAccounts.new E gen.foundationMultisigAccountsConfig
      gen.smrCommitteeConfig.size = .ok gen.foundationMultisigAccounts) :
    (∃ set, gen.generateFoundationStandaloneMultisigAccounts E = .ok set ∧
      CreatedAsPredicted E gen set) ↔
      gen.foundationMultisigAccountsConfig.standaloneAccounts = [] ∨
        gen.smrCommitteeConfig.size < 2 ^ 32 := by
  obtain ⟨set, hset, hlist⟩ := generateStandalone_eq hhex horder hlen
  have hcreated : ∀ i, (createdStandalone E gen set)[i]? =
      gen.foundationMultisigAccountsConfig.standaloneAccounts[i]?.map fun account =>
        (standaloneAt E gen i account, gen.smrCommitteeConfig.size % 2 ^ 32 + i) := by
    intro i
    rw [createdStandalone, hlist, List.getElem?_zipIdx, standaloneList_getElem?, Option.map_map]
    rfl
  constructor
  · rintro ⟨set', hset', hpredicted⟩
    cases hset.symm.trans hset'
    cases haccounts : gen.foundationMultisigAccountsConfig.standaloneAccounts with
    | nil => exact .inl rfl
    | cons account accounts =>
      have hfirst := hcreated 0
      rw [haccounts] at hfirst
      have hsize := (hpredicted.created 0 _ _ hfirst).1
      have hlt := Nat.mod_lt gen.smrCommitteeConfig.size (y := 2 ^ 32) (by decide)
      exact .inr (by omega)
  · intro hcond
    refine ⟨set, hset, ?_, fun i account haccount => ?_, fun i m n hmn => ?_⟩
    · rw [← TreeSet.length_toList, hlist, standaloneList, List.length_map, List.length_zipIdx]
    · have hi := (List.getElem?_eq_some_iff.1 haccount).1
      refine ⟨standaloneAt E gen i account, ?_,
        standaloneMultisigAccount_eq hhex (hi.trans (hlen.trans (by decide))) account⟩
      rw [hlist, standaloneList_getElem?, haccount]
      rfl
    · rw [hcreated] at hmn
      obtain ⟨account, haccount, heq⟩ := Option.map_eq_some_iff.1 hmn
      cases heq
      have hsize : gen.smrCommitteeConfig.size % 2 ^ 32 = gen.smrCommitteeConfig.size := by
        rcases hcond with hnil | hlt
        · rw [hnil] at haccount
          cases haccount
        · exact Nat.mod_eq_of_lt hlt
      rw [hsize]
      obtain ⟨name, hname⟩ := new_standalone hnew haccount
      exact ⟨rfl, _, hname, rfl, rfl⟩

/-! ## A small genesis -/

theorem tryFrom_new {args : GenerateMainnetAccountsConfig} (h : tryFrom E args = .ok gen) :
    FoundationMultisigAccounts.new E gen.foundationMultisigAccountsConfig
      gen.smrCommitteeConfig.size = .ok gen.foundationMultisigAccounts := by
  obtain ⟨config, -, h⟩ := bind_ok_iff.1 h
  obtain ⟨committee, -, h⟩ := bind_ok_iff.1 h
  split at h
  · obtain ⟨multisig, hmultisig, h⟩ := bind_ok_iff.1 h
    obtain ⟨keys, -, h⟩ := bind_ok_iff.1 h
    obtain ⟨schedules, -, h⟩ := bind_ok_iff.1 h
    obtain ⟨vesting, -, h⟩ := bind_ok_iff.1 h
    obtain ⟨accounts, -, h⟩ := bind_ok_iff.1 h
    obtain ⟨⟨⟩, -, h⟩ := bind_ok_iff.1 h
    obtain rfl := pure_ok_iff.1 h
    exact hmultisig
  · cases h

section
variable (members : List PublicKey) (schedules : List DelegationPoolUnlockSchedule)
  (delegators vesting : List AccountBalance) (standalone : List ℚ≥0)

theorem small_readsHex : ReadsHex (small members schedules delegators vesting standalone) := by
  intro digits _ _ _
  show some (BitVec.ofNat 256 ((String.ofList digits).toList.foldl _ 0)) = _
  rw [String.toList_ofList, Nat.ofDigitChars_eq_foldl]
  rfl

theorem small_ordersByAddress :
    OrdersByAddress (small members schedules delegators vesting standalone) := by
  intro a b howner hadditional haddress
  show multisigOwnerFirst a b = .lt
  have hcompare : compare a.multisigAddress b.multisigAddress = .lt :=
    compareOfLessAndEq_eq_lt.2 haddress
  simp [multisigOwnerFirst, compareLex, compareOn, howner, hadditional, hcompare]

end

/-- One validator and two standalone accounts. -/
theorem addresses_as_predicted_small :
    let E := small [0] [oneSchedule] [] [] [78999999980, 10]
    ∃ gen set, tryFrom E paths = .ok gen ∧
      gen.generateFoundationStandaloneMultisigAccounts E = .ok set ∧ CreatedAsPredicted E gen set := by
  intro E
  have hcheck : ∃ gen, tryFrom E paths = .ok gen ∧
      gen.foundationMultisigAccountsConfig.standaloneAccounts.length < 2 ^ 64 ∧
      gen.smrCommitteeConfig.size < 2 ^ 32 := by
    decide +kernel
  obtain ⟨gen, hgen, hlen, hsize⟩ := hcheck
  have : TransCmp E.multisigOrder := inferInstanceAs (TransCmp multisigOwnerFirst)
  obtain ⟨set, hset, hpredicted⟩ := (addresses_as_predicted_iff (small_readsHex _ _ _ _ _)
    (small_ordersByAddress _ _ _ _ _) hlen (tryFrom_new hgen)).2 (.inr hsize)
  exact ⟨gen, set, hgen, hset, hpredicted⟩

/-! ## A large committee -/

/-- Nine owners and one standalone account with all SUPRA. -/
def treasury : FoundationMultiSigAccountsConfig where
  owners := (List.range 9).map (BitVec.ofNat 256)
  numSignaturesRequired := 5
  ownerBalancesInSupra := 0
  timeoutDuration := 600
  standaloneAccounts := [⟨79000000000, ["name"], ["Treasury"]⟩]
  minParticipants := by decide

/-- The files of a genesis with this account and a committee. -/
def committeeFiles (members : List PublicKey) : Env := small members [oneSchedule] [] [] [79000000000]

/-- What `try_from` makes of them. -/
def committeeGenerator (members : List PublicKey) : MainnetGenesisAccountsGenerator where
  delegationPoolSchedules := ⟨"default", [oneSchedule], oneSchedule, rfl⟩
  foundationMultisigAccounts :=
    { delegationPoolOwners := (List.range members.length).map fun i =>
        FoundationMultisigAccounts.account (committeeFiles members) treasury .delegationPoolOwner
          (pboOwnerNamePrefix ++ " " ++ toString i) i
      standalone := [FoundationMultisigAccounts.account (committeeFiles members) treasury
        .standaloneAccount "Treasury" members.length] }
  foundationMultisigAccountsConfig := treasury
  foundationValidatorsConsensusPublicKeys := (List.range 10).map (BitVec.ofNat 256)
  smrCommitteeConfig := ⟨members, 0⟩
  vestingAccounts := ∅
  vestingPoolSchedules := [⟨"vesting", "Treasury", 0, [1], 10, 0, 100⟩]

section
variable (members : List PublicKey)

theorem committeeGenerator_verify :
    (committeeGenerator members).verify (committeeFiles members) = .ok () := by
  have hdelegated : (committeeGenerator members).foundationDelegatedSupra (committeeFiles members) = 0 := by
    show 0 / 100000000 * members.length = 0
    rw [Nat.zero_div, Nat.zero_mul]
  have hschedules : (committeeGenerator members).delegationPoolSchedules.allocatedSupra
      (committeeFiles members) = .ok 0 := by
    refine bind_ok_iff.2 ⟨⟨[]⟩, rfl, pure_ok_iff.2 ?_⟩
    exact Nat.zero_div 100000000
  have htreasury : treasury.allocatedSupra = 79000000000 := by decide +kernel
  have htotal : (committeeGenerator members).allocatedSupra (committeeFiles members) =
      .ok 79000000000 := by
    unfold MainnetGenesisAccountsGenerator.allocatedSupra
    rw [hdelegated]
    refine bind_ok_iff.2 ⟨0, hschedules, pure_ok_iff.2 ?_⟩
    show 0 + 0 + treasury.allocatedSupra + 0 / 100000000 = 79000000000
    rw [htreasury]
  refine bind_ok_iff.2 ⟨_, htotal, ?_⟩
  rw [if_neg (by decide), if_neg (by decide)]
  rfl

theorem tryFrom_committee : tryFrom (committeeFiles members) paths = .ok (committeeGenerator members) := by
  have hconfig : FoundationMultiSigAccountsConfig.fromFile (committeeFiles members) "multisig" =
      .ok treasury := rfl
  have hnew : FoundationMultisigAccounts.new (committeeFiles members) treasury members.length =
      .ok (committeeGenerator members).foundationMultisigAccounts := rfl
  have hkeys : foundationValidatorsConsensusKeys (committeeFiles members) "keys" =
      .ok (committeeGenerator members).foundationValidatorsConsensusPublicKeys := rfl
  have hschedules : DelegationPoolUnlockSchedules.fromFile (committeeFiles members) "schedules" =
      .ok (committeeGenerator members).delegationPoolSchedules := rfl
  have haccounts : accountBalances (committeeFiles members)
      (committeeGenerator members).vestingPoolSchedules = .ok ∅ := rfl
  refine bind_ok_iff.2 ⟨_, hconfig, bind_ok_iff.2 ⟨some ⟨members, 0⟩, rfl, ?_⟩⟩
  refine bind_ok_iff.2 ⟨_, hnew, bind_ok_iff.2 ⟨_, hkeys, bind_ok_iff.2 ⟨_, hschedules, ?_⟩⟩⟩
  refine bind_ok_iff.2 ⟨_, rfl, bind_ok_iff.2 ⟨_, haccounts, ?_⟩⟩
  exact bind_ok_iff.2 ⟨_, committeeGenerator_verify members, pure_ok_iff.2 rfl⟩

end

/-- For a committee of `2 ^ 32` members the schema is truncated to no account. The standalone account is
created with the sequence number 0, and recorded with the number `2 ^ 32`. -/
theorem addresses_not_as_predicted :
    let E := committeeFiles (List.replicate (2 ^ 32) 0)
    ∃ gen set m f, tryFrom E paths = .ok gen ∧
      gen.generateFoundationStandaloneMultisigAccounts E = .ok set ∧
      createdStandalone E gen set = [(m, 0)] ∧ gen.foundationMultisigAccounts.standalone = [f] ∧
      f.seedSequenceNumber = 2 ^ 32 ∧ f.address ≠ E.createMultisigAccountAddress m.owner 0 := by
  intro E
  let gen := committeeGenerator (List.replicate (2 ^ 32) 0)
  have hsize : gen.smrCommitteeConfig.size = 2 ^ 32 := List.length_replicate
  have : TransCmp E.multisigOrder := inferInstanceAs (TransCmp multisigOwnerFirst)
  have hlen : gen.foundationMultisigAccountsConfig.standaloneAccounts.length < 2 ^ 64 :=
    Nat.one_lt_two_pow (by decide)
  have hhex : ReadsHex E := small_readsHex _ _ _ _ _
  obtain ⟨set, hset, hlist⟩ := generateStandalone_eq hhex (small_ordersByAddress _ _ _ _ _) hlen
  have hnum : (gen.generateFoundationMultisigAccountsSchema E).numOfAccounts = 0 := by
    show gen.smrCommitteeConfig.size % 2 ^ 32 = 0
    rw [hsize, Nat.mod_self]
  refine ⟨gen, set, standaloneAt E gen 0 ⟨79000000000, ["name"], ["Treasury"]⟩,
    FoundationMultisigAccounts.account E treasury .standaloneAccount "Treasury" (2 ^ 32),
    tryFrom_committee _, hset, ?_, ?_, rfl, ?_⟩
  · rw [createdStandalone, hlist, hnum]
    rfl
  · show [FoundationMultisigAccounts.account E treasury .standaloneAccount "Treasury"
      (List.replicate (2 ^ 32) (0 : PublicKey)).length] = _
    rw [List.length_replicate]
  · show BitVec.ofNat 256 (1000 + 2 ^ 32) ≠ BitVec.ofNat 256 (1000 + 0)
    decide

end Genesis.Proof
