import Bts.Blockchain.TransactionBooks
import Bts.Wallet.Builder

namespace Bts.Wallet.CoverFees

open Base Result Word Maps Ledger Blockchain Amounts Records MarketRecords Transactions Database
  Rules Evaluation Operations MarketOperations Evaluate MarketEngine MarketLedger TransactionBooks
  Builder

/-- The balances in an asset that are still to be paid to the accounts. -/
def outstanding (l : Entries BalanceKey) (a : Int) : Int :=
  sumWhere (fun k : BalanceKey => (ofLex k).2 = a) l

theorem outstanding_cons (k : BalanceKey) (v : Int) (l : Entries BalanceKey) :
    outstanding ((k, v) :: l) = single (ofLex k).2 v + outstanding l := by
  funext a
  simp only [outstanding, sumWhere_cons, Pi.add_apply, single]
  congr 1
  by_cases ha : (ofLex k).2 = a
  · rw [if_pos ha, if_pos ha.symm]
  · rw [if_neg ha, if_neg (Ne.symm ha)]

theorem payFrom_outstanding {id required : Int} {l l' : Entries BalanceKey}
    (h : TransactionBuilder.payFrom id required l = some l') (a : Int) :
    int64 (outstanding l' a) = int64 (outstanding l a - single id required a) := by
  induction l generalizing required l' with
  | nil => cases h
  | cons e rest ih =>
    obtain ⟨k, v⟩ := e
    unfold TransactionBuilder.payFrom at h
    split at h
    next hother =>
      obtain ⟨paid, hpaid, rfl⟩ := Option.map_eq_some_iff.mp h
      have hrest := ih hpaid
      rw [outstanding_cons, outstanding_cons, Pi.add_apply, Pi.add_apply]
      unfold int64 at *
      omega
    next hsame =>
      have hsame : (ofLex k).2 = id := by simpa using hsame
      split at h
      next hless =>
        obtain ⟨paid, hpaid, rfl⟩ := Option.map_eq_some_iff.mp h
        have hrest := ih hpaid
        rw [outstanding_cons, outstanding_cons, Pi.add_apply, Pi.add_apply, hsame]
        unfold single at *
        split at hrest <;> rename_i ha <;> simp only [ha, ↓reduceIte] at * <;> unfold int64 at * <;>
          omega
      next hmore =>
        cases h
        rw [outstanding_cons, outstanding_cons, Pi.add_apply, Pi.add_apply, hsame]
        unfold single int64
        split <;> omega

/-- What the chain releases of the collateral and the wallet does not deposit: nothing, or less
than nothing, where there is none to lose, the wallet expects it or the position stays open. -/
theorem unexpected_nonpos {stays whole : Prop} [Decidable stays] [Decidable whole]
    {collateral base : Int} (hfits : Fits collateral) (hwhole : whole → 0 ≤ collateral)
    (hcond : collateral ≤ 0 ∨ (base = 0 ∧ whole) ∨ stays) (a : Int) :
    Fits ((if stays then 0 else single base collateral a) -
        (if whole then single 0 collateral a else 0)) ∧
      (if stays then 0 else single base collateral a) -
        (if whole then single 0 collateral a else 0) ≤ 0 := by
  unfold Fits single at *
  by_cases hs : stays <;> by_cases hw : whole <;> by_cases ha : a = 0 <;> by_cases hb : a = base <;>
    simp only [hs, hw, ha, hb, ↓reduceIte, true_implies, and_true, and_false, or_true, or_false]
      at * <;> omega

theorem outstanding_credit (k : BalanceKey) (amount : Int) (l : Entries BalanceKey) (a : Int) :
    int64 (outstanding (credit k amount l) a) =
      int64 (outstanding l a + single (ofLex k).2 amount a) := by
  have hcredit := sumWhere_credit (fun k : BalanceKey => (ofLex k).2 = a) k amount l
  unfold outstanding single
  rw [hcredit]
  by_cases ha : (ofLex k).2 = a
  · rw [if_pos ha, if_pos ha.symm]
  · rw [if_neg ha, if_neg (Ne.symm ha)]

theorem payFrom_fits {id required : Int} {l l' : Entries BalanceKey} (hl : ∀ e ∈ l, Fits e.2)
    (h : TransactionBuilder.payFrom id required l = some l') : ∀ e ∈ l', Fits e.2 := by
  induction l generalizing required l' with
  | nil => cases h
  | cons e rest ih =>
    obtain ⟨k, v⟩ := e
    have hrest := fun e he => hl e (List.mem_cons_of_mem (k, v) he)
    unfold TransactionBuilder.payFrom at h
    split at h
    · obtain ⟨paid, hpaid, rfl⟩ := Option.map_eq_some_iff.mp h
      intro e he
      rcases List.mem_cons.mp he with rfl | he
      · exact hl _ List.mem_cons_self
      · exact ih hrest hpaid e he
    · split at h
      · obtain ⟨paid, hpaid, rfl⟩ := Option.map_eq_some_iff.mp h
        intro e he
        rcases List.mem_cons.mp he with rfl | he
        · show Fits 0
          decide
        · exact ih hrest hpaid e he
      · cases h
        intro e he
        rcases List.mem_cons.mp he with rfl | he
        · exact int64_fits _
        · exact hrest e he

section Model

variable [Fc]

/-- What the operations add to the books, wherever they are accepted. -/
def Transfers (ops : List Operation) (taken given : Int → Int) : Prop :=
  ∀ s t, Books s → ops.foldlM evaluateNext s = .ok t → Moved s t taken given

variable {s t : EvaluationState} {ops ops' : List Operation} {taken given taken' given' : Int → Int}

theorem Transfers.nil : Transfers [] 0 0 := by
  intro s t hs h
  rw [foldlM_nil_eq_ok] at h
  subst h
  exact SameBooks.moved ⟨rfl, rfl, rfl⟩ hs

theorem Transfers.append (h : Transfers ops taken given) (h' : Transfers ops' taken' given') :
    Transfers (ops ++ ops') (taken + taken') (given + given') := by
  intro s t hs hrun
  rw [List.foldlM_append, bind_eq_ok] at hrun
  obtain ⟨u, hu, ht⟩ := hrun
  have hfirst := h s u hs hu
  exact hfirst.trans (h' u t hfirst.books ht)

theorem Transfers.of_operation {op : Operation}
    (h : ∀ s t, Books s → evaluateOperation s op = .ok t → Moved s t taken given) :
    Transfers [op] taken given := by
  intro s t hs hrun
  rw [foldlM_cons_eq_ok] at hrun
  obtain ⟨u, hu, hnil⟩ := hrun
  rw [foldlM_nil_eq_ok] at hnil
  subst hnil
  simp only [evaluateNext, eq_ok_iff] at hu
  obtain ⟨v, hv, rfl⟩ := hu
  exact (h s v hs hv).before ⟨rfl, rfl, rfl⟩

theorem transfers_deposit {op : DepositOperation} (hapart : AddressesApart) (hfits : Fits op.amount) :
    Transfers [.deposit op] 0 (single op.condition.assetId op.amount) :=
  .of_operation fun _ _ hs h => deposit_moved hapart hs hfits h

theorem transfers_slate (op : DefineDelegateSlateOperation) :
    Transfers [.defineDelegateSlate op] 0 0 :=
  .of_operation fun _ _ hs h => defineDelegateSlate_moved hs h

theorem transfers_withdraw {amount : Int} (condition : WithdrawCondition) (hapart : AddressesApart)
    (hfits : Fits amount) :
    Transfers [.withdraw { balanceId := Fc.conditionAddress condition, amount }]
      (single condition.assetId amount) 0 :=
  .of_operation fun _ _ hs h => withdraw_moved hapart hs rfl hfits h

omit [Fc] in
theorem getSpendableBalance_asset {r : BalanceRecord} {now : Nat} {x : Asset}
    (h : r.getSpendableBalance now = .ok x) (hpos : 0 < x.amount) :
    x.assetId = r.condition.assetId := by
  unfold BalanceRecord.getSpendableBalance at h
  cases hdata : r.condition.data <;> simp only [hdata, eq_ok_iff] at h
  case vesting =>
    obtain ⟨_, _, _, _, _, _, rfl⟩ := h
    rfl
  all_goals
    subst h
    first
      | rfl
      | exact absurd hpos (by decide)

theorem withdrawFrom_transfers {now : Nat} {remaining : Asset} {records : List BalanceRecord}
    (hapart : AddressesApart) (hfits : Fits remaining.amount)
    (h : withdrawFrom now remaining records = .ok ops) :
    Transfers ops (single remaining.assetId remaining.amount) 0 := by
  induction records generalizing remaining ops with
  | nil => cases h
  | cons r rest ih =>
    simp only [withdrawFrom, bind_eq_ok] at h
    obtain ⟨balance, hbalance, h⟩ := h
    split at h
    · exact ih hfits h
    next huse =>
      have hpos : 0 < balance.amount := by omega
      have hasset : balance.assetId = remaining.assetId := by
        by_contra hne
        exact huse (.inr hne)
      have hrecord : r.condition.assetId = remaining.assetId :=
        (getSpendableBalance_asset hbalance hpos).symm.trans hasset
      simp only [eq_ok_iff] at h
      obtain ⟨_, _, _, _, h⟩ := h
      split at h
      next hless =>
        simp only [eq_ok_iff] at h
        obtain ⟨rest', hsub, more, hmore, rfl⟩ := h
        have hamount := Asset.sub_amount hfits hsub
        obtain ⟨-, hsame⟩ := Asset.sub_eq_ok hsub
        have hid : rest'.assetId = remaining.assetId := by rw [hsame]
        have hleft : Fits rest'.amount := by
          rw [hsame]
          exact int64_fits _
        have hbalanceFits : Fits balance.amount := by
          unfold Fits at *
          omega
        have hboth := (transfers_withdraw r.condition hapart hbalanceFits).append (ih hleft hmore)
        have hsum : single remaining.assetId remaining.amount =
            single r.condition.assetId balance.amount + single rest'.assetId rest'.amount := by
          funext a
          simp only [Pi.add_apply, single]
          split <;> omega
        rw [hsum]
        exact hboth
      next =>
        simp only [eq_ok_iff] at h
        obtain ⟨_, _, rfl⟩ := h
        rw [← hrecord]
        exact transfers_withdraw r.condition hapart hfits

theorem withdrawFrom_pos {now : Nat} {remaining : Asset} {records : List BalanceRecord}
    (h : withdrawFrom now remaining records = .ok ops) : 0 < remaining.amount := by
  induction records with
  | nil => cases h
  | cons r rest ih =>
    simp only [withdrawFrom, bind_eq_ok] at h
    obtain ⟨balance, _, h⟩ := h
    split at h
    · exact ih h
    next huse =>
      simp only [bind_eq_ok] at h
      obtain ⟨_, _, _, _, h⟩ := h
      split at h
      · omega
      · simp only [eq_ok_iff] at h
        obtain ⟨_, hpos, _⟩ := h
        exact hpos

/-- The operations settle an amount that is owed to the accounts, up to the words it wraps. -/
structure Settles (ops : List Operation) (owed : Int → Int) : Prop where
  transfers : ∃ taken given, Transfers ops taken given ∧ (∀ a, 0 ≤ taken a) ∧
    ∀ a, int64 (taken a - given a) = int64 (-owed a)

theorem Settles.nil : Settles [] 0 :=
  ⟨0, 0, .nil, fun _ => le_rfl, fun _ => rfl⟩

theorem Settles.append {owed owed' : Int → Int} (h : Settles ops owed) (h' : Settles ops' owed') :
    Settles (ops ++ ops') (owed + owed') := by
  obtain ⟨taken, given, htransfers, hpos, howed⟩ := h
  obtain ⟨taken', given', htransfers', hpos', howed'⟩ := h'
  refine ⟨_, _, htransfers.append htransfers', fun a => add_nonneg (hpos a) (hpos' a), fun a => ?_⟩
  have hfirst := howed a
  have hsecond := howed' a
  simp only [Pi.add_apply]
  unfold int64 at *
  omega

variable {w : WalletImpl} {b b' : TransactionBuilder}

theorem orderKeyForAccount_operations (account : Nat) (name : String) :
    (b.orderKeyForAccount w account name).1.operations = b.operations ∧
      (b.orderKeyForAccount w account name).1.fee = b.fee := by
  simp only [TransactionBuilder.orderKeyForAccount]
  split <;> exact ⟨rfl, rfl⟩

theorem settleBalance_settles {slateId : Nat} {e : BalanceKey × Int} (hapart : AddressesApart)
    (hfits : Fits e.2) (h : TransactionBuilder.settleBalance w slateId b e = .ok b') :
    ∃ ops, b'.operations = b.operations ++ ops ∧ b'.fee = b.fee ∧
      Settles ops (single (ofLex e.1).2 e.2) := by
  simp only [TransactionBuilder.settleBalance, bind_eq_ok] at h
  obtain ⟨record, _, h⟩ := h
  have hkey := orderKeyForAccount_operations (w := w) (b := b) (ofLex e.1).1 record.name
  split at h
  next hzero =>
    rw [pure_eq_ok] at h
    subst h
    refine ⟨[], by simp [hkey.1], hkey.2, ⟨0, 0, .nil, fun _ => le_rfl, fun a => ?_⟩⟩
    simp [single, hzero]
  next hne =>
    split at h
    next hpos =>
      rw [pure_eq_ok] at h
      subst h
      refine ⟨_, congrArg (· ++ _) hkey.1, hkey.2,
        ⟨_, _, transfers_deposit hapart hfits, fun _ => le_rfl, fun a => ?_⟩⟩
      rw [Pi.zero_apply, Int.zero_sub]
    next hneg =>
      simp only [eq_ok_iff] at h
      obtain ⟨ops, hops, rfl⟩ := h
      simp only [WalletImpl.withdrawToTransaction, bind_eq_ok] at hops
      obtain ⟨_, _, records, _, hops⟩ := hops
      refine ⟨ops, congrArg (· ++ _) hkey.1, hkey.2,
        ⟨_, _, withdrawFrom_transfers hapart (int64_fits _) hops,
          single_nonneg (withdrawFrom_pos hops).le, fun a => ?_⟩⟩
      rw [Pi.zero_apply, Int.sub_zero]
      show int64 (single (ofLex e.1).2 (int64 (-e.2)) a) = int64 (-single (ofLex e.1).2 e.2 a)
      unfold single
      split
      · exact int64_int64 _
      · rfl

theorem settleBalances_settle {slateId : Nat} {l : Entries BalanceKey} (hapart : AddressesApart)
    (hfits : ∀ e ∈ l, Fits e.2)
    (h : l.foldlM (TransactionBuilder.settleBalance w slateId) b = .ok b') :
    ∃ ops, b'.operations = b.operations ++ ops ∧ b'.fee = b.fee ∧ Settles ops (outstanding l) := by
  induction l, b, h using foldlM_induct with
  | nil => exact ⟨[], by simp, rfl, .nil⟩
  | cons e rest b c hc hrest ih =>
    obtain ⟨ops, hops, hfee, hsettles⟩ := settleBalance_settles hapart (hfits e List.mem_cons_self) hc
    obtain ⟨more, hmore, hfee', hsettles'⟩ := ih fun f hf => hfits f (List.mem_cons_of_mem e hf)
    refine ⟨ops ++ more, ?_, hfee'.trans hfee, ?_⟩
    · rw [hmore, hops, List.append_assoc]
    · rw [outstanding_cons]
      exact hsettles.append hsettles'

theorem getTransactionFee_nonneg {id : Int} {fee : Asset} (h : w.getTransactionFee id = .ok fee) :
    0 ≤ fee.amount ∧ Fits fee.amount := by
  have hbase := And.intro w.fee_nonneg w.fee_fits
  simp only [WalletImpl.getTransactionFee] at h
  split at h
  · rw [pure_eq_ok] at h
    subst h
    exact hbase
  · simp only [bind_eq_ok] at h
    obtain ⟨a, _, h⟩ := h
    split at h
    · simp only [bind_eq_ok] at h
      obtain ⟨median, _, h⟩ := h
      split at h
      · rw [pure_eq_ok] at h
        subst h
        exact hbase
      · simp only [bind_eq_ok] at h
        obtain ⟨twice, htwice, thrice, hthrice, h⟩ := h
        have hdouble := (add_amount w.fee_fits htwice).1
        have htriple := (add_amount w.fee_fits hthrice).1
        refine ⟨multiply_nonneg ?_ h, multiply_fits h⟩
        simp only at hdouble htriple
        omega
    · rw [pure_eq_ok] at h
      subst h
      exact hbase

theorem feeFrom_nonneg {l : Entries Int} {fee : Asset} (h : w.feeFrom l = .ok (some fee)) :
    0 ≤ fee.amount ∧ Fits fee.amount := by
  induction l with
  | nil => cases h
  | cons e rest ih =>
    simp only [WalletImpl.feeFrom, bind_eq_ok] at h
    obtain ⟨f, hf, h⟩ := h
    split at h
    · rw [pure_eq_ok, Option.some.injEq] at h
      exact h ▸ getTransactionFee_nonneg hf
    · exact ih h

def announced (b : TransactionBuilder) : Int → Int := single b.fee.assetId b.fee.amount

def WordBalances (b : TransactionBuilder) : Prop := ∀ e ∈ b.outstandingBalances, Fits e.2

omit [Fc] in
theorem deductBalance_ok {account : Nat} {amount : Asset}
    (h : b.deductBalance account amount = .ok b') :
    0 ≤ amount.amount ∧ b'.operations = b.operations ∧ b'.fee = b.fee ∧ (WordBalances b → WordBalances b') ∧
      ∀ a, int64 (outstanding b'.outstandingBalances a) =
        int64 (outstanding b.outstandingBalances a - single amount.assetId amount.amount a) := by
  simp only [TransactionBuilder.deductBalance, eq_ok_iff] at h
  obtain ⟨_, hpos, rfl⟩ := h
  refine ⟨hpos, rfl, rfl, fun hb => credit_fits hb, fun a => ?_⟩
  refine (outstanding_credit ..).trans ?_
  rw [single_neg]
  rfl

omit [Fc] in
theorem creditBalance_ok {account : Nat} {amount : Asset}
    (h : b.creditBalance account amount = .ok b') :
    0 ≤ amount.amount ∧ b'.operations = b.operations ∧ (WordBalances b → WordBalances b') ∧
      ∀ a, int64 (outstanding b'.outstandingBalances a) =
        int64 (outstanding b.outstandingBalances a + single amount.assetId amount.amount a) := by
  simp only [TransactionBuilder.creditBalance, eq_ok_iff] at h
  obtain ⟨_, hpos, rfl⟩ := h
  exact ⟨hpos, rfl, fun hb => credit_fits hb, outstanding_credit _ _ _⟩

theorem feePayer_nonneg {balances : List (String × Entries Int)} {l : Entries BalanceKey}
    {holder : Nat} {fee : Asset}
    (h : TransactionBuilder.feePayer w balances l = .ok (some (holder, fee))) :
    0 ≤ fee.amount ∧ Fits fee.amount := by
  induction l with
  | nil => cases h
  | cons e rest ih =>
    simp only [TransactionBuilder.feePayer] at h
    split at h
    · exact ih h
    · simp only [bind_eq_ok] at h
      obtain ⟨found, hfound, h⟩ := h
      split at h
      · obtain ⟨-, rfl⟩ := h
        exact feeFrom_nonneg hfound
      · exact ih h

theorem payFee_ok (hb : WordBalances b) (h : b.payFee w = .ok b') :
    b'.operations = b.operations ∧ WordBalances b' ∧ 0 ≤ b'.fee.amount ∧ Fits b'.fee.amount ∧
      ∀ a, int64 (outstanding b'.outstandingBalances a) =
        int64 (outstanding b.outstandingBalances a - announced b' a) := by
  simp only [TransactionBuilder.payFee, bind_eq_ok] at h
  obtain ⟨found, hfound, h⟩ := h
  split at h
  next hchosen =>
    simp only [eq_ok_iff] at h
    obtain ⟨paid, hpaid, rfl⟩ := h
    cases found with
    | none => exact absurd rfl hchosen
    | some fee =>
      obtain ⟨hpos, hfits⟩ := feeFrom_nonneg hfound
      exact ⟨rfl, payFrom_fits hb hpaid, hpos, hfits, payFrom_outstanding hpaid⟩
  next =>
    simp only [TransactionBuilder.withdrawFee, bind_eq_ok] at h
    obtain ⟨balances, _, payer, hpayer, h⟩ := h
    split at h
    · cases h
    next holder fee =>
      simp only [eq_ok_iff] at h
      obtain ⟨c, hc, rfl⟩ := h
      obtain ⟨-, hops, -, hwords, hsum⟩ := deductBalance_ok hc
      obtain ⟨hpos, hfits⟩ := feePayer_nonneg hpayer
      exact ⟨hops, hwords hb, hpos, hfits, hsum⟩

theorem voteSlate_settles : Settles (TransactionBuilder.voteSlate w).1 0 := by
  simp only [TransactionBuilder.voteSlate]
  split
  · exact ⟨0, 0, transfers_slate _, fun _ => le_rfl, fun _ => rfl⟩
  · exact .nil

theorem finalize_ok (hapart : AddressesApart) (hb : WordBalances b) (h : b.finalize w true = .ok b') :
    0 ≤ b'.fee.amount ∧ Fits b'.fee.amount ∧ ∃ ops, b'.operations = b.operations ++ ops ∧
      Settles ops (outstanding b.outstandingBalances - announced b') := by
  simp only [TransactionBuilder.finalize, eq_ok_iff, ↓reduceIte] at h
  obtain ⟨_, _, c, hc, d, hd, rfl⟩ := h
  have hslate : WordBalances (b.addOperations (TransactionBuilder.voteSlate w).1) := hb
  obtain ⟨hops, hwords, hpos, hfits, hsum⟩ := payFee_ok hslate hc
  obtain ⟨ops, hops', hfee, hsettles⟩ := settleBalances_settle hapart hwords hd
  refine ⟨hfee ▸ hpos, hfee ▸ hfits, (TransactionBuilder.voteSlate w).1 ++ ops, ?_, ?_⟩
  · rw [hops', hops, ← List.append_assoc]
    rfl
  · obtain ⟨taken, given, htransfers, htaken, howed⟩ := voteSlate_settles.append hsettles
    refine ⟨taken, given, htransfers, htaken, fun a => ?_⟩
    have hfee' : announced c = announced d := by
      unfold announced
      rw [hfee]
    have hpaid : int64 (outstanding c.outstandingBalances a) =
        int64 (outstanding b.outstandingBalances a - announced d a) := hfee' ▸ hsum a
    rw [howed a]
    show int64 (-(0 + outstanding c.outstandingBalances a)) =
      int64 (-(outstanding b.outstandingBalances a - announced d a))
    unfold int64 at *
    omega

omit [Fc] in
theorem amountToCover_eq_iff {debt requested : Asset} :
    (TransactionBuilder.amountToCover debt requested).amount = debt.amount ↔
      requested.amount = 0 ∨ debt.amount ≤ requested.amount := by
  unfold TransactionBuilder.amountToCover Asset.lt
  split <;> omega

omit [Fc] in
theorem amountToCover_le (debt requested : Asset) :
    (TransactionBuilder.amountToCover debt requested).amount ≤ debt.amount := by
  unfold TransactionBuilder.amountToCover Asset.lt
  split <;> omega

/-- What `submit_cover` makes of an empty builder for a position. -/
structure Submitted (index : MarketIndexKey) (position : CollateralRecord) (debt requested : Asset)
    (b : TransactionBuilder) : Prop where
  words : WordBalances b
  amount_fits : Fits (TransactionBuilder.amountToCover debt requested).amount
  operations : b.operations = [.cover
    { amount := (TransactionBuilder.amountToCover debt requested).amount, coverIndex := index }]
  collateral_nonneg : (requested.amount = 0 ∨ debt.amount ≤ requested.amount) →
    0 ≤ position.collateralBalance
  outstanding_eq : ∀ a, int64 (outstanding b.outstandingBalances a) =
    int64 ((if requested.amount = 0 ∨ debt.amount ≤ requested.amount
      then single 0 position.collateralBalance a else 0) -
        single index.orderPrice.quoteAssetId (TransactionBuilder.amountToCover debt requested).amount a)

variable {index : MarketIndexKey} {position : CollateralRecord}

theorem debtAtExpiration_ok {id : Int} {debt : Asset}
    (h : TransactionBuilder.debtAtExpiration w (Market.coverOrder index position) id = .ok debt) :
    Fits debt.amount ∧ debt.assetId = index.orderPrice.quoteAssetId ∧
      id = index.orderPrice.quoteAssetId := by
  simp only [TransactionBuilder.debtAtExpiration, MarketOrder.getBalance, Market.coverOrder, eq_ok_iff] at h
  obtain ⟨balance, rfl, _, _, _, hid, _, _, _, _, interest, _, hadd⟩ := h
  obtain ⟨-, rfl⟩ := Asset.add_eq_ok hadd
  exact ⟨int64_fits _, rfl, hid.symm⟩

theorem submitCover_ok {account : WalletAccount} {requested debt : Asset} {orderId : Nat}
    (hfound : w.getMarketOrder orderId = some (Market.coverOrder index position))
    (hdebt : TransactionBuilder.debtAtExpiration w (Market.coverOrder index position)
      requested.assetId = .ok debt)
    (h : ({} : TransactionBuilder).submitCover w account requested orderId = .ok b) :
    Submitted index position debt requested b := by
  obtain ⟨hfits, hasset, hid⟩ := debtAtExpiration_ok hdebt
  simp only [TransactionBuilder.submitCover, hfound, eq_ok_iff, Option.some.injEq] at h
  obtain ⟨_, rfl, key, _, _, _, debt', hdebt', _, _, rest, hrest, c, hc, d, hd, rfl⟩ := h
  cases hdebt'.symm.trans hdebt
  have hleft := Asset.sub_amount hfits hrest
  have hpaid : (TransactionBuilder.amountToCover debt requested).assetId =
      index.orderPrice.quoteAssetId := by
    unfold TransactionBuilder.amountToCover
    split
    · exact hasset
    · exact hid
  obtain ⟨hamount, hops, -, hwords, hsum⟩ := deductBalance_ok hd
  rw [hpaid] at hsum
  have hfits' : Fits (TransactionBuilder.amountToCover debt requested).amount := by
    have hle := amountToCover_le debt requested
    unfold Fits at *
    omega
  have hwhole : rest.amount = 0 ↔ requested.amount = 0 ∨ debt.amount ≤ requested.amount := by
    rw [hleft, ← amountToCover_eq_iff]
    omega
  unfold TransactionBuilder.recoverCollateral at hc
  split at hc
  next hzero =>
    simp only [Market.coverOrder, eq_ok_iff, Option.some.injEq] at hc
    obtain ⟨collateral, rfl, hc⟩ := hc
    obtain ⟨hpos, hops', hwords', hsum'⟩ := creditBalance_ok hc
    refine ⟨hwords (hwords' (by intro e he; cases he)), hfits', ?_, fun _ => hpos, fun a => ?_⟩
    · show d.operations ++ _ = _
      rw [hops, hops']
      rfl
    · have hcredited : int64 (outstanding c.outstandingBalances a) =
          int64 (0 + single 0 position.collateralBalance a) := hsum' a
      refine (hsum a).trans ?_
      unfold int64 at *
      omega
  next hne =>
    rw [pure_eq_ok] at hc
    subst hc
    refine ⟨hwords (by intro e he; cases he), hfits', ?_, fun hall => absurd (hwhole.mpr hall) hne,
      fun a => ?_⟩
    · show d.operations ++ _ = _
      rw [hops]
      rfl
    · rw [if_neg fun hall => hne (hwhole.mpr hall)]
      exact hsum a

/-- The operations of a cover transaction leave the fee, and the collateral as far as the chain
releases it and the wallet does not expect it. -/
theorem coverShort_left {account : WalletAccount} {requested debt : Asset} {orderId : Nat}
    (hapart : AddressesApart)
    (hfound : w.getMarketOrder orderId = some (Market.coverOrder index position))
    (hcollateral : Fits position.collateralBalance)
    (hdebt : TransactionBuilder.debtAtExpiration w (Market.coverOrder index position)
      requested.assetId = .ok debt) (hbuilt : w.coverShort account requested orderId = .ok b)
    (hs : s.toTransactionBalances = {})
    (hposition : s.currentState.getCollateralRecord index = some position)
    (hrun : b.operations.foldlM evaluateNext s = .ok t) :
    0 ≤ b.fee.amount ∧ Fits b.fee.amount ∧ Books t ∧
      (0 ≤ position.collateralBalance → ∀ a, 0 ≤ withdrawn t a) ∧
      ((requested.amount = 0 ∨ debt.amount ≤ requested.amount) → 0 ≤ position.collateralBalance) ∧
      ∃ payment, coverPayment
        { amount := (TransactionBuilder.amountToCover debt requested).amount, coverIndex := index }
          position s.currentState.now = .ok payment ∧
        ∀ a, left t a = int64 ((if 0 < payment.payoffBalance then 0
            else single index.orderPrice.baseAssetId position.collateralBalance a) -
          (if requested.amount = 0 ∨ debt.amount ≤ requested.amount
            then single 0 position.collateralBalance a else 0) + announced b a) := by
  simp only [WalletImpl.coverShort, bind_eq_ok] at hbuilt
  obtain ⟨c, hc, hfinal⟩ := hbuilt
  have hsubmitted := submitCover_ok hfound hdebt hc
  obtain ⟨hpos, hfits, ops, hops, taken, given, htransfers, htaken, howed⟩ :=
    finalize_ok hapart hsubmitted.words hfinal
  rw [hops, hsubmitted.operations, List.singleton_append, foldlM_cons_eq_ok] at hrun
  obtain ⟨u, hu, hrest⟩ := hrun
  simp only [evaluateNext, eq_ok_iff] at hu
  obtain ⟨v, hv, hnext⟩ := hu
  obtain ⟨-, payment, hpayment, hcovered⟩ :=
    cover_moved (.empty hs) hposition hsubmitted.amount_fits hcollateral hv
  have hfirst := hcovered.before (u := u) (hnext ▸ ⟨rfl, rfl, rfl⟩)
  have hall := hfirst.trans (htransfers u t hfirst.books hrest)
  refine ⟨hpos, hfits, hall.books, fun hnonneg a => ?_, hsubmitted.collateral_nonneg, payment,
    hpayment, fun a => ?_⟩
  · rw [hall.withdrawn_eq, withdrawn_empty hs, Int.zero_add]
    refine add_nonneg ?_ (htaken a)
    split
    · exact le_rfl
    · exact single_nonneg hnonneg a
  have howed := howed a
  have hdue := hsubmitted.outstanding_eq a
  rw [hall.books.left_eq, hall.withdrawn_eq, hall.deposited_eq, withdrawn_empty hs,
    deposited_empty hs]
  simp only [Pi.add_apply, Pi.sub_apply] at howed ⊢
  split <;> simp only [Pi.zero_apply] at * <;> unfold int64 at * <;> omega

omit [Fc] in
theorem int64_add_le {x y : Int} (hx : Fits x) (hneg : x ≤ 0) (hpos : 0 ≤ y) (hy : Fits y) :
    int64 (x + y) ≤ y := by
  unfold Fits at hx hy
  rw [int64_of_fits (by unfold Fits; omega)]
  omega

/-- An accepted transaction of `submit_cover` and `finalize` leaves no more than the announced fee
exactly when there is no collateral to lose, or the amount is enough for the debt projected to the
expiration, which makes the wallet deposit the collateral, or the position stays open. -/
theorem cover_leaves_fee_iff {account : WalletAccount} {requested debt : Asset} {orderId : Nat}
    {index : MarketIndexKey} {position : CollateralRecord} {trx : SignedTransaction} {skip : Bool}
    (hapart : AddressesApart)
    (hfound : w.getMarketOrder orderId = some (Market.coverOrder index position))
    (hcollateral : Fits position.collateralBalance)
    (hdebt : TransactionBuilder.debtAtExpiration w (Market.coverOrder index position)
      requested.assetId = .ok debt)
    (hbuilt : w.coverShort account requested orderId = .ok b)
    (hops : trx.operations = b.operations)
    (hs : s.toTransactionBalances = {})
    (hposition : s.currentState.getCollateralRecord index = some position)
    (haccepted : evaluate s trx skip = .ok t) :
    ∃ keys u, signedKeysOf skip (trx.digest s.chainId) trx.signatures = .ok keys ∧
      trx.operations.foldlM evaluateNext (Bts.Blockchain.Effects.begin s trx skip keys) = .ok u ∧
      ((∀ a, left u a ≤ announced b a) ↔
        position.collateralBalance ≤ 0 ∨
        (index.orderPrice.baseAssetId = 0 ∧
          (requested.amount = 0 ∨ debt.amount ≤ requested.amount)) ∨
        ∃ payment, coverPayment
          { amount := (TransactionBuilder.amountToCover debt requested).amount, coverIndex := index }
            position s.currentState.now = .ok payment ∧ 0 < payment.payoffBalance) := by
  simp only [evaluate, bind_eq_ok] at haccepted
  obtain ⟨_, _, keys, hkeys, u, hu, v, hpost, -⟩ := haccepted
  refine ⟨keys, u, hkeys, hu, ?_⟩
  rw [hops] at hu
  obtain ⟨hfee, hfeeFits, hbooks, hwithdrawn, hwhole, payment, hpayment, hleft⟩ :=
    coverShort_left (s := Bts.Blockchain.Effects.begin s trx skip keys) hapart hfound hcollateral
      hdebt hbuilt hs hposition hu
  have hann : ∀ a, 0 ≤ announced b a ∧ Fits (announced b a) := by
    intro a
    refine ⟨single_nonneg hfee a, ?_⟩
    unfold announced single
    split
    · exact hfeeFits
    · decide
  constructor
  · intro hle
    by_contra hnot
    rw [not_or, not_or, Int.not_le] at hnot
    obtain ⟨hpos, hnotWhole, hnotOpen⟩ := hnot
    have hclosed : ¬ 0 < payment.payoffBalance := fun hopen => hnotOpen ⟨payment, hpayment, hopen⟩
    have hbase := hle index.orderPrice.baseAssetId
    have hnonneg : 0 ≤ left u index.orderPrice.baseAssetId := by
      by_contra hlow
      exact (hbooks.overdrawn (hwithdrawn hpos.le _) (Int.not_le.mp hlow)).refused hpost
    have hown : (if requested.amount = 0 ∨ debt.amount ≤ requested.amount
        then single 0 position.collateralBalance index.orderPrice.baseAssetId else 0) = 0 := by
      unfold single
      split
      next hall => exact if_neg fun hzero => hnotWhole ⟨hzero, hall⟩
      next => rfl
    obtain ⟨hannPos, hannFits⟩ := hann index.orderPrice.baseAssetId
    rw [hleft, if_neg hclosed, hown] at hbase hnonneg
    unfold single at hbase hnonneg
    rw [if_pos rfl] at hbase hnonneg
    unfold Fits at hcollateral hannFits
    unfold int64 at hbase hnonneg
    omega
  · intro hcond a
    obtain ⟨hannPos, hannFits⟩ := hann a
    rw [hleft]
    have hcond' : position.collateralBalance ≤ 0 ∨ (index.orderPrice.baseAssetId = 0 ∧
        (requested.amount = 0 ∨ debt.amount ≤ requested.amount)) ∨ 0 < payment.payoffBalance := by
      rcases hcond with h | h | ⟨other, hother, hopen⟩
      · exact .inl h
      · exact .inr (.inl h)
      · cases hother.symm.trans hpayment
        exact .inr (.inr hopen)
    obtain ⟨hfits, hnonpos⟩ := unexpected_nonpos hcollateral hwhole hcond' a
    exact int64_add_le hfits hnonpos hannPos hannFits

end Model

def freshPosition : CollateralRecord where
  collateralBalance := 5000000
  payoffBalance := 1000000
  interestRate := ⟨100000000000000000, 0, 22⟩
  expiration := 1000000000 + maxShortPeriodSec

def freshIndex : MarketIndexKey := ⟨⟨300000000000000000, 0, 22⟩, 7⟩

def holderBalances : List BalanceRecord :=
  [{ condition := { assetId := 0, data := .signature 8 none }, balance := 1000000 },
    { condition := { assetId := 22, data := .signature 8 none }, balance := 2000000 }]

def shortedChain : @ChainDatabase Fc.separate :=
  letI := Fc.separate
  { dollarChain with
    assetDb := dollarChain.assetDb.store
      { id := 22, symbol := "USD", issuerAccountId := AssetRecord.marketIssuerId
        currentShareSupply := 2000000 }
    balanceDb := holderBalances.foldl Table.store .empty
    collateralDb := (∅ : Map _ _).insert freshIndex freshPosition }

def holder : WalletAccount := { name := "holder", ownerKey := 8 }

def shortWallet : @WalletImpl Fc.separate :=
  letI := Fc.separate
  { blockchain := shortedChain
    orderId := fun _ index => index.owner
    lookupKey := fun address => some { publicKey := address, accountAddress := 8, hasPrivateKey := true }
    lookupAccountByKey := fun _ => some holder
    lookupAccount := fun _ => some holder
    getAccountBalanceRecords := fun _ _ => [("holder", holderBalances)]
    getNewPublicKey := fun _ => 9
    now := 1000000000
    fee_nonneg := by decide
    fee_fits := by decide }

def shortedState : @EvaluationState Fc.separate :=
  letI := Fc.separate
  { prev := .database shortedChain, chainId := 0 }

def signed (b : TransactionBuilder) : SignedTransaction where
  expiration := b.expiration
  operations := b.operations
  signatures := [7, 8]

def wholeDebt : Asset := { amount := 0, assetId := 22 }

theorem shortWallet_order :
    letI := Fc.separate
    shortWallet.getMarketOrder 7 = some (Market.coverOrder freshIndex freshPosition) := rfl

theorem wholeDebt_accepted :
    letI := Fc.separate
    ∃ b, shortWallet.coverShort holder wholeDebt 7 = .ok b ∧
      (evaluate shortedState (signed b) false).isOk := by
  decide +kernel

theorem wholeDebt_known :
    letI := Fc.separate
    (TransactionBuilder.debtAtExpiration shortWallet
      (Market.coverOrder freshIndex freshPosition) wholeDebt.assetId).isOk := by
  decide +kernel

theorem cover_leaves_fee_iff_wholeDebt :
    letI := Fc.separate
    ∃ b t keys u, shortWallet.coverShort holder wholeDebt 7 = .ok b ∧
      evaluate shortedState (signed b) false = .ok t ∧
      signedKeysOf false ((signed b).digest 0) (signed b).signatures = .ok keys ∧
      (signed b).operations.foldlM evaluateNext
        (Bts.Blockchain.Effects.begin shortedState (signed b) false keys) = .ok u ∧
      ∀ a, left u a ≤ announced b a := by
  let := Fc.separate
  obtain ⟨b, hb, hok⟩ := wholeDebt_accepted
  obtain ⟨t, ht⟩ := exists_ok_of_isOk hok
  obtain ⟨debt, hdebt⟩ := exists_ok_of_isOk wholeDebt_known
  obtain ⟨keys, u, hkeys, hu, hiff⟩ := cover_leaves_fee_iff separate_apart shortWallet_order
    (by decide) hdebt hb rfl rfl rfl ht
  exact ⟨b, t, keys, u, hb, ht, hkeys, hu, hiff.mpr (.inr (.inl ⟨rfl, .inl rfl⟩))⟩

/-- A payment of five more than the debt closes the position before the interest of an hour is
due. The wallet takes it for a part, and the collateral is left to the network with the fee. -/
theorem cover_loses_collateral :
    letI := Fc.separate
    shortWallet.getMarketOrder 7 = some (Market.coverOrder freshIndex freshPosition) ∧
    shortedState.currentState.getCollateralRecord freshIndex = some freshPosition ∧
    ∃ b, shortWallet.coverShort holder { amount := 1000005, assetId := 22 } 7 = .ok b ∧
      announced b 0 = 50000 ∧
      (evaluate shortedState (signed b) false).isOk ∧
      ∃ keys, signedKeysOf false ((signed b).digest 0) (signed b).signatures = .ok keys ∧
        ∃ u, (signed b).operations.foldlM evaluateNext
            (Bts.Blockchain.Effects.begin shortedState (signed b) false keys) = .ok u ∧
          left u 0 = 5050000 := by
  refine ⟨shortWallet_order, rfl, ?_⟩
  decide +kernel

end Bts.Wallet.CoverFees
