import GraftNetwork.Basic.Address
import GraftNetwork.Lib.Words
import Mathlib.Algebra.Order.BigOperators.Group.List

/-!
# Wallet balances (wallet/wallet2.cpp)

`balance` and `unlocked_balance` of a subaddress account sum, per subaddress, the amounts of the
account's transfers that are not spent, `balance` adding the change of the unconfirmed transfers
that have not failed, and `unlocked_balance` counting only the transfers `is_transfer_unlocked`
accepts. A light wallet returns instead the totals it keeps from the server's answer.

* In full mode each balance is the exact sum wrapped to 64 bits, and so are `balance_all` and
  `unlocked_balance_all` over the accounts; where the balance's sum fits, the unlocked balance is
  at most the balance (`full_mode_balances`).
* A light wallet returns its unlocked total from `balance` and its total from `unlocked_balance`
  (`balance_lightWalletUpdateBalances`), so as soon as part of what it received is still locked,
  its unlocked balance exceeds its balance (`light_wallet_unlocked_balance_exceeds_balance`).

The clock `time(NULL)` is an input. Only the fields of `transfer_details` and
`unconfirmed_transfer_details` that the balances read are kept.
-/

namespace GraftNetwork.Wallet.Balance

open GraftNetwork.Basic (NetworkType)

/-! ## cryptonote_config.h -/

def CRYPTONOTE_MAX_BLOCK_NUMBER : UInt64 := 500000000

def CRYPTONOTE_DEFAULT_TX_SPENDABLE_AGE : UInt64 := 10

def DIFFICULTY_TARGET_V2 : UInt64 := 120

def DIFFICULTY_TARGET_V1 : UInt64 := 60

def CRYPTONOTE_LOCKED_TX_ALLOWED_DELTA_BLOCKS : UInt64 := 1

def CRYPTONOTE_LOCKED_TX_ALLOWED_DELTA_SECONDS_V1 : UInt64 :=
  DIFFICULTY_TARGET_V1 * CRYPTONOTE_LOCKED_TX_ALLOWED_DELTA_BLOCKS

def CRYPTONOTE_LOCKED_TX_ALLOWED_DELTA_SECONDS_V2 : UInt64 :=
  DIFFICULTY_TARGET_V2 * CRYPTONOTE_LOCKED_TX_ALLOWED_DELTA_BLOCKS

/-! ## The wallet's transfers -/

/-- cryptonote::subaddress_index. -/
structure SubaddressIndex where
  major : UInt32
  minor : UInt32
  deriving DecidableEq, Repr

/-- transfer_details, with the transaction's unlock_time. -/
structure TransferDetails where
  blockHeight : UInt64
  unlockTime : UInt64
  spent : Bool
  amount : UInt64
  subaddrIndex : SubaddressIndex
  deriving DecidableEq, Repr

/-- unconfirmed_transfer_details::m_state. -/
inductive UnconfirmedState where
  | pending
  | pendingNotInPool
  | failed
  deriving DecidableEq, Repr

structure UnconfirmedTransferDetails where
  change : UInt64
  state : UnconfirmedState
  subaddrAccount : UInt32
  deriving DecidableEq, Repr

/-- The wallet2 fields the balances read. `unconfirmedTxs` are the values of the hash map, in its
order; `numSubaddressAccounts` is the size of m_subaddress_labels. -/
structure Wallet2 where
  transfers : List TransferDetails
  unconfirmedTxs : List UnconfirmedTransferDetails
  lightWallet : Bool
  lightWalletBlockchainHeight : UInt64
  lightWalletBalance : UInt64
  lightWalletUnlockedBalance : UInt64
  blockchainSize : UInt64
  nettype : NetworkType
  numSubaddressAccounts : Nat

namespace Wallet2

def getBlockchainCurrentHeight (w : Wallet2) : UInt64 :=
  if w.lightWalletBlockchainHeight ≠ 0 then w.lightWalletBlockchainHeight else w.blockchainSize

section Clock

variable (now : UInt64)

/-- is_tx_spendtime_unlocked: an unlock time below CRYPTONOTE_MAX_BLOCK_NUMBER is a block index,
else a time, with the leeway of the transaction's era. -/
def isTxSpendtimeUnlocked (unlockTime blockHeight : UInt64) (w : Wallet2) : Bool :=
  if unlockTime < CRYPTONOTE_MAX_BLOCK_NUMBER then
    w.getBlockchainCurrentHeight - 1 + CRYPTONOTE_LOCKED_TX_ALLOWED_DELTA_BLOCKS ≥ unlockTime
  else
    let currentTime := now
    let v2height : UInt64 :=
      if w.nettype = .TESTNET then 624634 else if w.nettype = .STAGENET then 32000 else 1009827
    let leeway := if blockHeight < v2height then CRYPTONOTE_LOCKED_TX_ALLOWED_DELTA_SECONDS_V1
      else CRYPTONOTE_LOCKED_TX_ALLOWED_DELTA_SECONDS_V2
    currentTime + leeway ≥ unlockTime

/-- is_transfer_unlocked(unlock_time, block_height). -/
def isTransferUnlockedAt (unlockTime blockHeight : UInt64) (w : Wallet2) : Bool :=
  if !w.isTxSpendtimeUnlocked now unlockTime blockHeight then false
  else if blockHeight + CRYPTONOTE_DEFAULT_TX_SPENDABLE_AGE > w.getBlockchainCurrentHeight then false
  else true

/-- is_transfer_unlocked(td). -/
def isTransferUnlocked (td : TransferDetails) (w : Wallet2) : Bool :=
  w.isTransferUnlockedAt now td.unlockTime td.blockHeight

end Clock

/-! ## Balances per subaddress -/

/-- A std::map from minor index to amount, in key order: `amount_per_subaddr[k] = v` for a new
key, `found->second += v` for a known one. -/
def addAmount (k : UInt32) (v : UInt64) : List (UInt32 × UInt64) → List (UInt32 × UInt64)
  | [] => [(k, v)]
  | (k', a) :: rest =>
    if k = k' then (k', a + v) :: rest
    else if k < k' then (k, v) :: (k', a) :: rest
    else (k', a) :: addAmount k v rest

/-- balance_per_subaddress: the transfers of the account not spent, each under its minor index,
then the change of the unconfirmed transfers that have not failed, under index 0. -/
def balancePerSubaddress (indexMajor : UInt32) (w : Wallet2) : List (UInt32 × UInt64) :=
  let amountPerSubaddr := w.transfers.foldl (fun amountPerSubaddr td =>
      if td.subaddrIndex.major == indexMajor && !td.spent then
        addAmount td.subaddrIndex.minor td.amount amountPerSubaddr
      else amountPerSubaddr) []
  w.unconfirmedTxs.foldl (fun amountPerSubaddr utx =>
      if utx.subaddrAccount == indexMajor && utx.state != .failed then
        addAmount 0 utx.change amountPerSubaddr
      else amountPerSubaddr) amountPerSubaddr

/-- unlocked_balance_per_subaddress: the transfers of the account not spent and unlocked. -/
def unlockedBalancePerSubaddress (now : UInt64) (indexMajor : UInt32) (w : Wallet2) :
    List (UInt32 × UInt64) :=
  w.transfers.foldl (fun amountPerSubaddr td =>
      if td.subaddrIndex.major == indexMajor && !td.spent && w.isTransferUnlocked now td then
        addAmount td.subaddrIndex.minor td.amount amountPerSubaddr
      else amountPerSubaddr) []

def balance (indexMajor : UInt32) (w : Wallet2) : UInt64 :=
  if w.lightWallet then w.lightWalletUnlockedBalance
  else (w.balancePerSubaddress indexMajor).foldl (fun amount i => amount + i.2) 0

def unlockedBalance (now : UInt64) (indexMajor : UInt32) (w : Wallet2) : UInt64 :=
  if w.lightWallet then w.lightWalletBalance
  else (w.unlockedBalancePerSubaddress now indexMajor).foldl (fun amount i => amount + i.2) 0

def balanceAll (w : Wallet2) : UInt64 :=
  (List.range w.numSubaddressAccounts).foldl (fun r indexMajor => r + w.balance (UInt32.ofNat indexMajor)) 0

def unlockedBalanceAll (now : UInt64) (w : Wallet2) : UInt64 :=
  (List.range w.numSubaddressAccounts).foldl
    (fun r indexMajor => r + w.unlockedBalance now (UInt32.ofNat indexMajor)) 0

/-- The end of light_wallet_get_address_txs: the totals from the server's answer, less what the
wallet sent. MyMonero sends no unlocked total, and then the unlocked total is the total. -/
def lightWalletUpdateBalances (totalReceived totalReceivedUnlocked walletTotalSent : UInt64)
    (w : Wallet2) : Wallet2 :=
  let lightWalletBalance := totalReceived - walletTotalSent
  { w with
    lightWalletBalance := lightWalletBalance
    lightWalletUnlockedBalance :=
      if totalReceivedUnlocked > 0 then totalReceivedUnlocked - walletTotalSent
      else lightWalletBalance }

/-! ## The sums, wrapped to 64 bits -/

/-- Adding an amount to the map adds it to the map's total, wrapped. -/
theorem sum_addAmount (k : UInt32) (v : UInt64) :
    ∀ m : List (UInt32 × UInt64),
      ((addAmount k v m).map fun i => i.2.toNat).sum % 2 ^ 64 =
        ((m.map fun i => i.2.toNat).sum + v.toNat) % 2 ^ 64
  | [] => by simp [addAmount]
  | (k', a) :: rest => by
    rw [addAmount]
    split_ifs with same before
    · -- the entry of the key takes the amount, and its sum wraps
      simp only [List.map_cons, List.sum_cons, UInt64.toNat_add]
      rw [Nat.mod_add_mod, Nat.add_right_comm]
    · simp only [List.map_cons, List.sum_cons]
      congr 1
      omega
    · simp only [List.map_cons, List.sum_cons]
      conv_lhs => rw [Nat.add_mod, sum_addAmount k v rest]
      rw [← Nat.add_mod, Nat.add_assoc]

/-- The loops of balance_per_subaddress: the amounts of the entries the test accepts are added to
the map's total, wrapped. -/
theorem sum_foldl_addAmount {β : Type} (p : β → Bool) (key : β → UInt32) (amount : β → UInt64) :
    ∀ (l : List β) (m : List (UInt32 × UInt64)),
      ((l.foldl (fun m x => if p x then addAmount (key x) (amount x) m else m) m).map
          fun i => i.2.toNat).sum % 2 ^ 64 =
        ((m.map fun i => i.2.toNat).sum + ((l.filter p).map fun x => (amount x).toNat).sum) %
          2 ^ 64
  | [], m => by simp
  | x :: l, m => by
    rw [List.foldl_cons, sum_foldl_addAmount p key amount l]
    by_cases accepted : p x = true
    · rw [if_pos accepted, List.filter_cons_of_pos accepted, List.map_cons, List.sum_cons,
        ← Nat.mod_add_mod, sum_addAmount, Nat.mod_add_mod, Nat.add_assoc]
    · rw [if_neg accepted, List.filter_cons_of_neg accepted]

variable {w : Wallet2}

theorem toNat_balance (notLight : w.lightWallet = false) (indexMajor : UInt32) :
    (w.balance indexMajor).toNat =
      (((w.transfers.filter fun td => td.subaddrIndex.major == indexMajor && !td.spent).map
          fun td => td.amount.toNat).sum +
        ((w.unconfirmedTxs.filter fun utx =>
            utx.subaddrAccount == indexMajor && utx.state != .failed).map
          fun utx => utx.change.toNat).sum) % 2 ^ 64 := by
  rw [balance, if_neg (by rw [notLight]; decide), Words.toNat_foldl_add, UInt64.toNat_zero,
    Nat.zero_add, balancePerSubaddress]
  -- first the change of the unconfirmed transfers, then the transfers under it
  rw [sum_foldl_addAmount
      (fun utx : UnconfirmedTransferDetails => utx.subaddrAccount == indexMajor && utx.state != .failed)
      (fun _ => 0) fun utx => utx.change, ← Nat.mod_add_mod,
    sum_foldl_addAmount (fun td : TransferDetails => td.subaddrIndex.major == indexMajor && !td.spent)
      (fun td => td.subaddrIndex.minor) fun td => td.amount,
    List.map_nil, List.sum_nil, Nat.zero_add, Nat.mod_add_mod]

theorem toNat_unlockedBalance (notLight : w.lightWallet = false) (now : UInt64)
    (indexMajor : UInt32) :
    (w.unlockedBalance now indexMajor).toNat =
      ((w.transfers.filter fun td =>
          td.subaddrIndex.major == indexMajor && !td.spent && w.isTransferUnlocked now td).map
        fun td => td.amount.toNat).sum % 2 ^ 64 := by
  rw [unlockedBalance, if_neg (by rw [notLight]; decide), Words.toNat_foldl_add,
    UInt64.toNat_zero, Nat.zero_add, unlockedBalancePerSubaddress,
    sum_foldl_addAmount (fun td : TransferDetails =>
        td.subaddrIndex.major == indexMajor && !td.spent && w.isTransferUnlocked now td)
      (fun td => td.subaddrIndex.minor) fun td => td.amount,
    List.map_nil, List.sum_nil, Nat.zero_add]

/-- The unlocked transfers are among those the balance counts, so their sum is no larger. -/
theorem unlocked_sum_le (now : UInt64) (indexMajor : UInt32) :
    ((w.transfers.filter fun td =>
        td.subaddrIndex.major == indexMajor && !td.spent && w.isTransferUnlocked now td).map
      fun td => td.amount.toNat).sum ≤
    ((w.transfers.filter fun td => td.subaddrIndex.major == indexMajor && !td.spent).map
      fun td => td.amount.toNat).sum := by
  have among := List.monotone_filter_right w.transfers (p := fun td =>
      td.subaddrIndex.major == indexMajor && !td.spent && w.isTransferUnlocked now td)
    (q := fun td => td.subaddrIndex.major == indexMajor && !td.spent) fun td counted => by
      simp only [Bool.and_eq_true] at counted ⊢
      exact counted.1
  exact (among.map _).sum_le_sum fun _ _ => Nat.zero_le _

/-- In full mode each balance is the exact sum wrapped to 64 bits, `balance_all` and
`unlocked_balance_all` are the sums over the accounts, and where the balance's sum fits, the
unlocked balance is at most the balance. -/
theorem full_mode_balances (now : UInt64) (notLight : w.lightWallet = false)
    (indexMajor : UInt32) :
    (w.balance indexMajor).toNat =
        (((w.transfers.filter fun td => td.subaddrIndex.major == indexMajor && !td.spent).map
            fun td => td.amount.toNat).sum +
          ((w.unconfirmedTxs.filter fun utx =>
              utx.subaddrAccount == indexMajor && utx.state != .failed).map
            fun utx => utx.change.toNat).sum) % 2 ^ 64 ∧
      (w.unlockedBalance now indexMajor).toNat =
        ((w.transfers.filter fun td =>
            td.subaddrIndex.major == indexMajor && !td.spent && w.isTransferUnlocked now td).map
          fun td => td.amount.toNat).sum % 2 ^ 64 ∧
      (((w.transfers.filter fun td => td.subaddrIndex.major == indexMajor && !td.spent).map
            fun td => td.amount.toNat).sum +
          ((w.unconfirmedTxs.filter fun utx =>
              utx.subaddrAccount == indexMajor && utx.state != .failed).map
            fun utx => utx.change.toNat).sum < 2 ^ 64 →
        w.unlockedBalance now indexMajor ≤ w.balance indexMajor) ∧
      w.balanceAll.toNat =
        ((List.range w.numSubaddressAccounts).map fun i =>
          (w.balance (UInt32.ofNat i)).toNat).sum % 2 ^ 64 ∧
      (w.unlockedBalanceAll now).toNat =
        ((List.range w.numSubaddressAccounts).map fun i =>
          (w.unlockedBalance now (UInt32.ofNat i)).toNat).sum % 2 ^ 64 := by
  refine ⟨toNat_balance notLight indexMajor, toNat_unlockedBalance notLight now indexMajor,
    fun fits => ?_, ?_, ?_⟩
  · -- both sums fit, so neither wraps
    have within := unlocked_sum_le (w := w) now indexMajor
    rw [UInt64.le_iff_toNat_le, toNat_balance notLight, toNat_unlockedBalance notLight,
      Nat.mod_eq_of_lt fits, Nat.mod_eq_of_lt (by omega)]
    omega
  · rw [balanceAll, Words.toNat_foldl_add, UInt64.toNat_zero, Nat.zero_add]
  · rw [unlockedBalanceAll, Words.toNat_foldl_add, UInt64.toNat_zero, Nat.zero_add]

/-- A full wallet whose second transfer is too young to spend: 5 of its 15 are unlocked. -/
theorem full_mode_balances_with_young_transfer :
    ∃ w : Wallet2, w.lightWallet = false ∧ w.unlockedBalance 100 0 = 5 ∧ w.balance 0 = 15 ∧
      w.unlockedBalance 100 0 ≤ w.balance 0 :=
  ⟨⟨[⟨0, 0, false, 5, ⟨0, 0⟩⟩, ⟨20, 0, false, 7, ⟨0, 1⟩⟩], [⟨3, .pending, 0⟩], false, 0, 0, 0, 25,
      .MAINNET, 1⟩, rfl, by decide, by decide, (full_mode_balances 100 rfl 0).2.2.1 (by decide)⟩

/-! ## The light wallet -/

/-- After the server's answer a light wallet's balance is the unlocked total, and its unlocked
balance the total. -/
theorem balance_lightWalletUpdateBalances (light : w.lightWallet = true)
    (totalReceived totalReceivedUnlocked walletTotalSent now : UInt64) (indexMajor : UInt32) :
    (w.lightWalletUpdateBalances totalReceived totalReceivedUnlocked walletTotalSent).balance
        indexMajor =
      (if totalReceivedUnlocked > 0 then totalReceivedUnlocked - walletTotalSent
        else totalReceived - walletTotalSent) ∧
      (w.lightWalletUpdateBalances totalReceived totalReceivedUnlocked walletTotalSent).unlockedBalance
        now indexMajor = totalReceived - walletTotalSent := by
  -- the update leaves the wallet a light wallet
  have stillLight : (w.lightWalletUpdateBalances totalReceived totalReceivedUnlocked
      walletTotalSent).lightWallet = true := light
  constructor
  · rw [balance, if_pos stillLight]
    rfl
  · rw [unlockedBalance, if_pos stillLight]
    rfl

/-- A light wallet that has received 100, 60 of it unlocked, and sent 10: balance is 50, and
unlocked_balance 90. -/
theorem light_wallet_unlocked_balance_exceeds_balance :
    (lightWalletUpdateBalances 100 60 10 ⟨[], [], true, 0, 0, 0, 0, .MAINNET, 1⟩).balance 0 = 50 ∧
      (lightWalletUpdateBalances 100 60 10 ⟨[], [], true, 0, 0, 0, 0, .MAINNET, 1⟩).unlockedBalance
        0 0 = 90 := by
  decide

end Wallet2

end GraftNetwork.Wallet.Balance
