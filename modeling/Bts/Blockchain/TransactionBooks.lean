import Bts.Blockchain.MarketLedger

namespace Bts.Blockchain.TransactionBooks

open Base Result Word Maps Amounts Records MarketRecords Transactions Pending Evaluation Operations
  MarketOperations MarketLedger

def single (id amount : Int) : Int → Int := fun a => if a = id then amount else 0

theorem single_neg (id amount a : Int) : single id (-amount) a = -single id amount a := by
  unfold single
  split <;> rfl

theorem single_nonneg {id amount : Int} (h : 0 ≤ amount) (a : Int) : 0 ≤ single id amount a := by
  unfold single
  split
  · exact h
  · exact le_rfl

theorem add_amount {a o r : Asset} (ha : Fits a.amount) (h : Asset.add a o = .ok r) :
    r.amount = a.amount + o.amount ∧ Fits r.amount := by
  unfold Fits at ha
  simp only [Asset.add, eq_ok_iff] at h
  obtain ⟨_, _, _, hrange, rfl⟩ := h
  have hfits : Fits (a.amount + o.amount) := by
    unfold Fits
    omega
  exact ⟨int64_of_fits hfits, int64_fits _⟩

def amountAt (m : Map Int Asset) (a : Int) : Int := (m.lookup a).elim 0 (·.amount)

variable {m m' : Map Int Asset} {x : Asset}

theorem addAsset_other {k a : Int} (ha : a ≠ k) (h : addAsset m k x = .ok m') :
    amountAt m' a = amountAt m a := by
  unfold addAsset at h
  unfold amountAt
  cases hk : m.lookup k with
  | none =>
    rw [hk, pure_eq_ok] at h
    rw [← h, lookup_insert, if_neg ha]
  | some old =>
    rw [hk] at h
    simp only [eq_ok_iff] at h
    obtain ⟨sum, _, rfl⟩ := h
    rw [lookup_insert, if_neg ha]

theorem addAsset_own {k : Int} (hm : Fits (amountAt m k)) (hx : amountAt m k ≠ 0 ∨ Fits x.amount)
    (h : addAsset m k x = .ok m') :
    amountAt m' k = amountAt m k + x.amount ∧ Fits (amountAt m' k) := by
  unfold addAsset at h
  unfold amountAt at *
  cases hold : m.lookup k with
  | none =>
    rw [hold] at hx
    rw [hold, pure_eq_ok] at h
    rw [← h, AList.lookup_insert]
    exact ⟨(Int.zero_add _).symm, hx.resolve_left (not_not.mpr rfl)⟩
  | some old =>
    rw [hold] at h hm
    simp only [eq_ok_iff] at h
    obtain ⟨sum, hsum, rfl⟩ := h
    rw [AList.lookup_insert]
    exact add_amount hm hsum

theorem addAsset_amountAt {k : Int} (hm : ∀ a, Fits (amountAt m a)) (hx : Fits x.amount)
    (h : addAsset m k x = .ok m') (a : Int) :
    amountAt m' a = amountAt m a + single k x.amount a ∧ Fits (amountAt m' a) := by
  unfold single
  by_cases ha : a = k
  · subst ha
    rw [if_pos rfl]
    exact addAsset_own (hm a) (Or.inr hx) h
  · rw [if_neg ha, addAsset_other ha h]
    exact ⟨(Int.add_zero _).symm, hm a⟩

variable [Fc]

def withdrawn (s : EvaluationState) (a : Int) : Int := amountAt s.withdraws a

def deposited (s : EvaluationState) (a : Int) : Int := amountAt s.deposits a

def left (s : EvaluationState) (a : Int) : Int := (s.balance.lookup a).getD 0

/-- The balance of a transaction is what it withdraws less what it deposits. -/
structure Books (s : EvaluationState) : Prop where
  left_eq : ∀ a, left s a = int64 (withdrawn s a - deposited s a)
  withdrawn_fits : ∀ a, Fits (withdrawn s a)
  deposited_fits : ∀ a, Fits (deposited s a)
  deposited_nonneg : ∀ a, 0 ≤ deposited s a

structure Moved (s t : EvaluationState) (taken given : Int → Int) : Prop where
  books : Books t
  withdrawn_eq : ∀ a, withdrawn t a = withdrawn s a + taken a
  deposited_eq : ∀ a, deposited t a = deposited s a + given a

def SameBooks (s t : EvaluationState) : Prop :=
  t.balance = s.balance ∧ t.withdraws = s.withdraws ∧ t.deposits = s.deposits

variable {s t u : EvaluationState} {taken given taken' given' : Int → Int}

theorem withdrawn_empty (h : s.toTransactionBalances = {}) (a : Int) : withdrawn s a = 0 := by
  have hwithdraws : s.withdraws = ∅ := congrArg TransactionBalances.withdraws h
  simp [withdrawn, amountAt, hwithdraws]

theorem deposited_empty (h : s.toTransactionBalances = {}) (a : Int) : deposited s a = 0 := by
  have hdeposits : s.deposits = ∅ := congrArg TransactionBalances.deposits h
  simp [deposited, amountAt, hdeposits]

theorem Books.empty (h : s.toTransactionBalances = {}) : Books s := by
  have hbalance : s.balance = ∅ := congrArg TransactionBalances.balance h
  refine ⟨fun a => ?_, fun a => ?_, fun a => ?_, fun a => ?_⟩
  · rw [withdrawn_empty h, deposited_empty h]
    simp [left, hbalance, int64]
  · rw [withdrawn_empty h]
    decide
  · rw [deposited_empty h]
    decide
  · rw [deposited_empty h]

theorem SameBooks.reads (h : SameBooks s t) :
    left t = left s ∧ withdrawn t = withdrawn s ∧ deposited t = deposited s := by
  obtain ⟨hbalance, hwithdraws, hdeposits⟩ := h
  unfold left withdrawn deposited
  rw [hbalance, hwithdraws, hdeposits]
  exact ⟨rfl, rfl, rfl⟩

theorem SameBooks.books (h : SameBooks s t) (hs : Books s) : Books t := by
  obtain ⟨hleft, hwithdrawn, hdeposited⟩ := h.reads
  obtain ⟨left_eq, withdrawn_fits, deposited_fits, deposited_nonneg⟩ := hs
  rw [← hleft, ← hwithdrawn, ← hdeposited] at left_eq
  rw [← hwithdrawn] at withdrawn_fits
  rw [← hdeposited] at deposited_fits deposited_nonneg
  exact ⟨left_eq, withdrawn_fits, deposited_fits, deposited_nonneg⟩

theorem SameBooks.moved (h : SameBooks s t) (hs : Books s) : Moved s t 0 0 := by
  obtain ⟨-, hwithdrawn, hdeposited⟩ := h.reads
  refine ⟨h.books hs, fun a => ?_, fun a => ?_⟩
  · simp [hwithdrawn]
  · simp [hdeposited]

theorem Moved.trans (h : Moved s t taken given) (h' : Moved t u taken' given') :
    Moved s u (taken + taken') (given + given') := by
  refine ⟨h'.books, fun a => ?_, fun a => ?_⟩
  · rw [h'.withdrawn_eq, h.withdrawn_eq, Pi.add_apply]
    omega
  · rw [h'.deposited_eq, h.deposited_eq, Pi.add_apply]
    omega

theorem Moved.after (h : SameBooks s t) (h' : Moved t u taken given) : Moved s u taken given := by
  obtain ⟨-, hwithdrawn, hdeposited⟩ := h.reads
  exact ⟨h'.books, hwithdrawn ▸ h'.withdrawn_eq, hdeposited ▸ h'.deposited_eq⟩

theorem Moved.before (h : Moved s t taken given) (h' : SameBooks t u) : Moved s u taken given := by
  obtain ⟨-, hwithdrawn, hdeposited⟩ := h'.reads
  exact ⟨h'.books h.books, hwithdrawn ▸ h.withdrawn_eq, hdeposited ▸ h.deposited_eq⟩

theorem Books.withLayer (h : Books s) (layer : PendingState) : Books { s with layer } :=
  SameBooks.books (s := s) ⟨rfl, rfl, rfl⟩ h

theorem Moved.ofLayer {layer : PendingState} (h : Moved { s with layer } t taken given) :
    Moved s t taken given :=
  Moved.after (t := { s with layer }) ⟨rfl, rfl, rfl⟩ h

theorem addBalance_moved (hs : Books s) (hx : Fits x.amount) (h : s.addBalance x = .ok t) :
    Moved s t (single x.assetId x.amount) 0 := by
  simp only [EvaluationState.addBalance, eq_ok_iff] at h
  obtain ⟨withdraws, hadd, rfl⟩ := h
  have hmap := addAsset_amountAt hs.withdrawn_fits hx hadd
  refine ⟨⟨fun a => ?_, fun a => (hmap a).2, hs.deposited_fits, hs.deposited_nonneg⟩,
    fun a => (hmap a).1, fun a => (Int.add_zero _).symm⟩
  have hleft := hs.left_eq
  unfold left withdrawn deposited at hleft
  show (AList.lookup a (s.balance.insert _ _)).getD 0 =
    int64 (amountAt withdraws a - amountAt s.deposits a)
  rw [lookup_insert, (hmap a).1]
  unfold single
  by_cases ha : a = x.assetId
  · subst ha
    rw [if_pos rfl, if_pos rfl, Option.getD_some, hleft, int64_add_int64]
    congr 1
    omega
  · rw [if_neg ha, if_neg ha, hleft, Int.add_zero]

theorem subBalance_moved {id : Nat} (hs : Books s) (hx : Fits x.amount) (hpos : 0 ≤ x.amount)
    (h : s.subBalance id x = .ok t) :
    Moved s t 0 (single x.assetId x.amount) := by
  simp only [EvaluationState.subBalance, eq_ok_iff] at h
  obtain ⟨_, _, deposits, hadd, rfl⟩ := h
  have hmap := addAsset_amountAt hs.deposited_fits hx hadd
  refine ⟨⟨fun a => ?_, hs.withdrawn_fits, fun a => (hmap a).2, fun a => ?_⟩,
    fun a => (Int.add_zero _).symm, fun a => (hmap a).1⟩
  · have hleft := hs.left_eq
    unfold left withdrawn deposited at hleft
    show (AList.lookup a (s.balance.insert _ _)).getD 0 =
      int64 (amountAt s.withdraws a - amountAt deposits a)
    rw [lookup_insert, (hmap a).1]
    unfold single
    by_cases ha : a = x.assetId
    · subst ha
      rw [if_pos rfl, if_pos rfl, Option.getD_some, hleft, int64_sub_int64]
      congr 1
      omega
    · rw [if_neg ha, if_neg ha, hleft, Int.add_zero]
  · have hsum := (hmap a).1
    have hnonneg := hs.deposited_nonneg a
    unfold deposited single at *
    rw [hsum]
    split <;> omega

theorem adjustVote_sameBooks {slateId : Nat} {amount : Int} (h : s.adjustVote slateId amount = .ok t) :
    SameBooks s t := by
  unfold EvaluationState.adjustVote at h
  split at h
  · rw [pure_eq_ok] at h
    subst h
    exact ⟨rfl, rfl, rfl⟩
  · simp only [eq_ok_iff] at h
    obtain ⟨_, _, rfl⟩ := h
    exact ⟨rfl, rfl, rfl⟩

theorem payYield_sameBooks {a : AssetRecord} {r r' : BalanceRecord}
    (h : payYield s a r = .ok (t, r')) :
    SameBooks s t ∧ r'.condition = r.condition := by
  unfold payYield at h
  split at h
  · simp only [bind_eq_ok] at h
    obtain ⟨yield, _, h⟩ := h
    split at h
    · obtain ⟨rfl, rfl⟩ := h
      exact ⟨⟨rfl, rfl, rfl⟩, rfl⟩
    · obtain ⟨rfl, rfl⟩ := h
      exact ⟨⟨rfl, rfl, rfl⟩, rfl⟩
  · obtain ⟨rfl, rfl⟩ := h
    exact ⟨⟨rfl, rfl, rfl⟩, rfl⟩

theorem withdraw_moved {op : WithdrawOperation} {condition : WithdrawCondition}
    (hapart : AddressesApart) (hs : Books s) (hid : op.balanceId = Fc.conditionAddress condition)
    (hfits : Fits op.amount) (h : WithdrawOperation.evaluate op s = .ok t) :
    Moved s t (single condition.assetId op.amount) 0 := by
  simp only [WithdrawOperation.evaluate, eq_ok_iff] at h
  obtain ⟨_, _, r, hr, _, _, _, _, a, _, _, _, s₁, hvote, ⟨s₂, r'⟩, hyield, s₃, hadd, rfl⟩ := h
  obtain ⟨hsame, hcondition⟩ := payYield_sameBooks hyield
  have hvoted := adjustVote_sameBooks hvote
  have hasset : r'.condition.assetId = condition.assetId := by
    rw [hcondition]
    exact hapart _ _ ((Holdings.getBalanceRecord_id hr).trans hid)
  have hmoved := addBalance_moved (hsame.books (hvoted.books hs)) hfits hadd
  rw [hasset] at hmoved
  exact Moved.after hvoted (Moved.after hsame (hmoved.before ⟨rfl, rfl, rfl⟩))

theorem deposit_moved {op : DepositOperation} (hapart : AddressesApart) (hs : Books s)
    (hfits : Fits op.amount) (h : DepositOperation.evaluate op s = .ok t) :
    Moved s t 0 (single op.condition.assetId op.amount) := by
  simp only [DepositOperation.evaluate, eq_ok_iff] at h
  obtain ⟨_, hpos, _, _, date, _, s₁, hsub, s₂, hvote, a, _, _, _, _, _, rfl⟩ := h
  have hasset : ((s.currentState.getBalanceRecord (Fc.conditionAddress op.condition)).getD
      { condition := op.condition }).condition.assetId = op.condition.assetId := by
    cases hr : s.currentState.getBalanceRecord (Fc.conditionAddress op.condition) with
    | none => rfl
    | some r => exact hapart _ _ (Holdings.getBalanceRecord_id hr)
  have hmoved := subBalance_moved hs hfits (Int.le_of_lt hpos) hsub
  rw [hasset] at hmoved
  exact (hmoved.before (adjustVote_sameBooks hvote)).before ⟨rfl, rfl, rfl⟩

theorem defineDelegateSlate_moved {op : DefineDelegateSlateOperation} (hs : Books s)
    (h : DefineDelegateSlateOperation.evaluate op s = .ok t) : Moved s t 0 0 := by
  simp only [DefineDelegateSlateOperation.evaluate, bind_eq_ok] at h
  obtain ⟨_, _, h⟩ := h
  split at h
  · rw [pure_eq_ok] at h
    subst h
    exact SameBooks.moved ⟨rfl, rfl, rfl⟩ hs
  · simp only [eq_ok_iff] at h
    obtain ⟨_, _, rfl⟩ := h
    exact SameBooks.moved ⟨rfl, rfl, rfl⟩ hs

theorem settleCover_moved {op : CoverOperation} {cover : CollateralRecord}
    (h : settleCover op cover s = .ok t) (hs : Books s)
    (hcollateral : Fits cover.collateralBalance) :
    Moved s t (if 0 < cover.payoffBalance then 0
      else single op.coverIndex.orderPrice.baseAssetId cover.collateralBalance) 0 := by
  unfold settleCover at h
  split at h
  next hleft =>
    simp only [eq_ok_iff] at h
    obtain ⟨_, _, rfl⟩ := h
    rw [if_pos hleft]
    exact SameBooks.moved ⟨rfl, rfl, rfl⟩ hs
  next hpaid =>
    rw [if_neg hpaid]
    exact addBalance_moved hs hcollateral h

theorem cover_moved {op : CoverOperation} {position : CollateralRecord} (hs : Books s)
    (hposition : s.currentState.getCollateralRecord op.coverIndex = some position)
    (hfits : Fits op.amount) (hcollateral : Fits position.collateralBalance)
    (h : CoverOperation.evaluate op s = .ok t) :
    0 ≤ op.amount ∧ ∃ payment, coverPayment op position s.currentState.now = .ok payment ∧
      Moved s t (if 0 < payment.payoffBalance then 0
        else single op.coverIndex.orderPrice.baseAssetId position.collateralBalance)
        (single op.coverIndex.orderPrice.quoteAssetId op.amount) := by
  simp only [CoverOperation.evaluate, eq_ok_iff] at h
  obtain ⟨_, _, _, _, _, hpos, _, _, s₁, hsub, cover, hcover, a, _, payment, hpayment, _, _, h⟩ := h
  have hmoved := subBalance_moved hs hfits hpos hsub
  obtain ⟨b, rfl⟩ := Effects.EvaluationState.subBalance_ok hsub
  have hsame : some cover = some position := hcover.symm.trans hposition
  cases hsame
  refine ⟨hpos, payment, hpayment, ?_⟩
  have hsettled := settleCover_moved h (hmoved.books.withLayer _) hcollateral
  have hboth := hmoved.trans hsettled.ofLayer
  rwa [zero_add, add_zero] at hboth

structure Overdrawn (s : EvaluationState) (a : Int) : Prop where
  left_eq : left s a = withdrawn s a - deposited s a
  withdrawn_nonneg : 0 ≤ withdrawn s a
  short : withdrawn s a < deposited s a
  deposited_fits : Fits (deposited s a)

theorem Books.overdrawn {a : Int} (h : Books s) (hnonneg : 0 ≤ withdrawn s a) (hleft : left s a < 0) :
    Overdrawn s a := by
  have hexact : left s a = withdrawn s a - deposited s a := by
    rw [h.left_eq]
    apply int64_of_fits
    have hwithdrawn := h.withdrawn_fits a
    have hdeposited := h.deposited_fits a
    have hpos := h.deposited_nonneg a
    unfold Fits at *
    omega
  exact ⟨hexact, hnonneg, by omega, h.deposited_fits a⟩

theorem Overdrawn.chargeTransactionFee {a id : Int} (h : Overdrawn s a)
    (ht : s.chargeTransactionFee id = .ok t) : Overdrawn t a := by
  simp only [EvaluationState.chargeTransactionFee, bind_eq_ok] at ht
  obtain ⟨r, _, ht⟩ := ht
  split at ht
  next hfee =>
    simp only [EvaluationState.subBalance, eq_ok_iff] at ht
    obtain ⟨_, _, deposits, hadd, rfl⟩ := ht
    obtain ⟨hleft, hnonneg, hshort, hfits⟩ := h
    have hbalance : (s.balance.lookup a).getD 0 = withdrawn s a - amountAt s.deposits a := hleft
    by_cases ha : a = r.id
    · subst ha
      have hlow : withdrawn s r.id < amountAt s.deposits r.id := hshort
      have hknown := addAsset_own hfits (Or.inl (by omega)) hadd
      obtain ⟨hsum, hsumFits⟩ : amountAt deposits r.id =
        amountAt s.deposits r.id + r.transactionFee ∧ Fits (amountAt deposits r.id) := hknown
      refine ⟨?_, hnonneg, ?_, hsumFits⟩
      · show (AList.lookup r.id (s.balance.insert _ _)).getD 0 = withdrawn s r.id - amountAt deposits r.id
        rw [AList.lookup_insert, Option.getD_some, hsum, hbalance, int64_of_fits]
        · omega
        · unfold Fits at *
          omega
      · show withdrawn s r.id < amountAt deposits r.id
        omega
    · have hsame := addAsset_other ha hadd
      refine ⟨?_, hnonneg, ?_, ?_⟩
      · show (AList.lookup a (s.balance.insert _ _)).getD 0 = withdrawn s a - amountAt deposits a
        rw [lookup_insert, if_neg ha, hsame]
        exact hbalance
      · show withdrawn s a < amountAt deposits a
        rw [hsame]
        exact hshort
      · show Fits (amountAt deposits a)
        rw [hsame]
        exact hfits
  next =>
    rw [pure_eq_ok] at ht
    subst ht
    exact h

theorem addAltFee_balance {id fee : Int} (h : s.addAltFee id fee = .ok t) : 0 ≤ fee := by
  simp only [EvaluationState.addAltFee, eq_ok_iff] at h
  obtain ⟨_, hfee, _⟩ := h
  exact hfee

theorem Overdrawn.refused {a : Int} (h : Overdrawn s a) : s.postEvaluate ≠ .ok t := by
  intro hpost
  simp only [EvaluationState.postEvaluate, bind_eq_ok] at hpost
  obtain ⟨charged, hcharged, paid, hpaid, -⟩ := hpost
  have hover : Overdrawn charged a :=
    foldlM_keeps (P := fun s => Overdrawn s a) (fun _ _ _ _ hv hw => hv.chargeTransactionFee hw) h
      hcharged
  have hneg : left charged a < 0 := by
    have hshort := hover.short
    have hleft := hover.left_eq
    omega
  unfold left at hneg
  cases hk : charged.balance.lookup a with
  | none =>
    rw [hk] at hneg
    exact absurd hneg (by decide)
  | some v =>
    rw [hk] at hneg
    have hlookup : (charged.balance.insert 0 ((charged.balance.lookup 0).getD 0)).lookup a =
        some v := by
      rw [lookup_insert]
      split
      next hzero => rw [← hzero, hk, Option.getD_some]
      next => exact hk
    obtain ⟨x, y, hfee⟩ := foldlM_mem_ok hpaid (mem_of_lookup hlookup)
    exact absurd (addAltFee_balance hfee) (Int.not_le.mpr hneg)

end Bts.Blockchain.TransactionBooks
