import Bts.Blockchain.Evaluate

namespace Bts.Blockchain.SlateVotes

open Base Result Word Maps Records Transactions Database Layers Rules Evaluation Operations Evaluate

def votesOf (votes : Map Int Int) (id : Int) : Int := (votes.lookup id).getD 0

/-- How often a slate names a delegate, for it or against it. -/
def timesNamed (slate : List Int) (id : Int) : Nat := (slate.map fun i => (i.natAbs : Int)).count id

/-- A slate names no delegate twice. -/
def NamesOnce (slate : List Int) : Prop := (slate.map fun i => (i.natAbs : Int)).Nodup
  deriving Decidable

theorem timesNamed_le_one {slate : List Int} (h : NamesOnce slate) (id : Int) :
    timesNamed slate id ≤ 1 :=
  List.nodup_iff_count_le_one.mp h id

theorem exists_named_twice {slate : List Int} (h : ¬ NamesOnce slate) :
    ∃ id, 2 ≤ timesNamed slate id := by
  unfold NamesOnce at h
  rw [List.nodup_iff_count_le_one] at h
  push Not at h
  exact h

theorem votesOf_addVotes (votes : Map Int Int) (delegate amount id : Int) :
    votesOf (EvaluationState.addVotes votes delegate amount) id =
      if id = delegate then int64 (votesOf votes id + amount) else votesOf votes id := by
  unfold votesOf EvaluationState.addVotes
  rw [lookup_insert]
  split
  next h =>
    subst h
    rfl
  next => rfl

theorem timesNamed_cons (i : Int) (rest : List Int) (id : Int) : timesNamed (i :: rest) id =
    timesNamed rest id + if id = (i.natAbs : Int) then 1 else 0 := by
  unfold timesNamed
  rw [List.map_cons, List.count_cons]
  by_cases h : id = (i.natAbs : Int)
  · rw [if_pos h, if_pos (beq_iff_eq.mpr h.symm)]
  · rw [if_neg h, if_neg fun heq => h (beq_iff_eq.mp heq).symm]

theorem votesOf_slate (slate : List Int) (amount : Int) (votes : Map Int Int) (id : Int) :
    votesOf (slate.foldl (fun votes i => EvaluationState.addVotes votes i.natAbs amount) votes) id =
      if timesNamed slate id = 0 then votesOf votes id
      else int64 (votesOf votes id + timesNamed slate id * amount) := by
  induction slate generalizing votes with
  | nil => rfl
  | cons i rest ih =>
    rw [List.foldl_cons, ih, votesOf_addVotes, timesNamed_cons]
    by_cases h : id = (i.natAbs : Int)
    · simp only [if_pos h]
      by_cases hrest : timesNamed rest id = 0
      · rw [if_pos hrest, hrest]
        simp
      · rw [if_neg hrest, if_neg (by omega), int64_add_int64]
        congr 1
        push_cast
        rw [Int.add_mul, Int.one_mul]
        omega
    · simp only [if_neg h, Nat.add_zero]

section Model

variable [Fc]

def votedSlate (c : ChainInterface) (slateId : Nat) : List Int :=
  if slateId = 0 then [] else (c.getDelegateSlate slateId).getD []

def slateOf (c : ChainInterface) (condition : WithdrawCondition) : List Int :=
  votedSlate c (if condition.assetId = 0 then condition.slateId else 0)

def depositRecord (op : DepositOperation) (s : EvaluationState) : BalanceRecord :=
  (s.currentState.getBalanceRecord (Fc.conditionAddress op.condition)).getD
    { condition := op.condition }

variable {s t : EvaluationState}

theorem adjustVote_votes {slateId : Nat} {amount : Int} (h : s.adjustVote slateId amount = .ok t)
    (id : Int) :
    votesOf t.netDelegateVotes id =
      if timesNamed (votedSlate s.currentState slateId) id = 0 then votesOf s.netDelegateVotes id
      else int64 (votesOf s.netDelegateVotes id +
        timesNamed (votedSlate s.currentState slateId) id * amount) := by
  unfold EvaluationState.adjustVote at h
  unfold votedSlate
  split at h
  next hzero =>
    rw [pure_eq_ok] at h
    subst h
    rw [if_pos hzero]
    rfl
  next hzero =>
    simp only [eq_ok_iff] at h
    obtain ⟨slate, hfound, rfl⟩ := h
    rw [if_neg hzero, hfound]
    exact votesOf_slate slate amount s.netDelegateVotes id

variable {op : DepositOperation}

theorem deposit_votes {slate : List Int} (h : DepositOperation.evaluate op s = .ok t)
    (hslate : slateOf s.currentState (depositRecord op s).condition = slate) (id : Int) :
    votesOf t.netDelegateVotes id =
      if timesNamed slate id = 0 then votesOf s.netDelegateVotes id
      else int64 (votesOf s.netDelegateVotes id + timesNamed slate id * op.amount) := by
  simp only [DepositOperation.evaluate, eq_ok_iff] at h
  obtain ⟨_, _, _, _, date, _, s₁, h₁, s₂, h₂, a, _, _, _, _, _, rfl⟩ := h
  simp only [EvaluationState.subBalance, eq_ok_iff] at h₁
  obtain ⟨_, _, _, _, rfl⟩ := h₁
  have hvotes := adjustVote_votes h₂ id
  subst hslate
  exact hvotes

theorem deposit_positive (h : DepositOperation.evaluate op s = .ok t) : 0 < op.amount := by
  simp only [DepositOperation.evaluate, eq_ok_iff] at h
  obtain ⟨_, hpos, _⟩ := h
  exact hpos

/-- A deposit adds no more than its amount to the votes of any delegate. -/
def OneVote (op : DepositOperation) (s t : EvaluationState) : Prop :=
  ∀ id, votesOf t.netDelegateVotes id - votesOf s.netDelegateVotes id ≤ op.amount

/-- The votes that a transaction counts are values of `int64_t`. -/
def VotesFit (s : EvaluationState) : Prop := ∀ id, Fits (votesOf s.netDelegateVotes id)

theorem deposit_oneVote {slate : List Int} (hs : VotesFit s)
    (h : DepositOperation.evaluate op s = .ok t)
    (hslate : slateOf s.currentState (depositRecord op s).condition = slate)
    (honce : NamesOnce slate) : OneVote op s t := by
  intro id
  have hpos := deposit_positive h
  have hfits := hs id
  have hle := timesNamed_le_one honce id
  rw [deposit_votes h hslate]
  split
  next => omega
  next hn =>
    obtain hone : timesNamed slate id = 1 := by omega
    rw [hone]
    unfold Fits at hfits
    unfold int64
    omega

def slateChain (slate : List Int) : ChainDatabase :=
  { assetDb := Table.empty.store { id := 0, symbol := blockchainSymbol, issuerAccountId := 0 }
    slateDb := (∅ : Map Nat (List Int)).insert 1 slate }

def slateState (slate : List Int) : EvaluationState :=
  { prev := .database (slateChain slate), chainId := 0 }

def slateDeposit : DepositOperation where
  amount := 1
  condition := { slateId := 1, data := .signature 0 none }

theorem slateDeposit_slate (slate : List Int) : slateOf (slateState slate).currentState
    (depositRecord slateDeposit (slateState slate)).condition = slate := rfl

theorem slateDeposit_accepted (slate : List Int) :
    ∃ t, DepositOperation.evaluate slateDeposit (slateState slate) = .ok t := by
  by_cases hid : Fc.conditionAddress slateDeposit.condition = 0
  · exact ⟨_, by
      simp only [DepositOperation.evaluate, EvaluationState.subBalance, EvaluationState.addProvided,
        hid]
      rfl⟩
  · exact ⟨_, by
      simp only [DepositOperation.evaluate, EvaluationState.subBalance, EvaluationState.addProvided,
        hid, ne_eq, not_false_eq_true, if_true]
      rfl⟩

/-- Every deposit with a slate of at most the size that `define_delegate_slate` accepts gives
each delegate at most one vote for a share exactly if the slate names no delegate twice. -/
theorem deposit_one_vote_iff {slate : List Int} (hsize : slate.length ≤ maxSlateSize) :
    (∀ (op : DepositOperation) (s t : EvaluationState), VotesFit s →
      DepositOperation.evaluate op s = .ok t →
      slateOf s.currentState (depositRecord op s).condition = slate → OneVote op s t) ↔
      NamesOnce slate := by
  constructor
  · intro hall
    by_contra honce
    obtain ⟨id, htwice⟩ := exists_named_twice honce
    obtain ⟨t, ht⟩ := slateDeposit_accepted slate
    have hfit : VotesFit (slateState slate) := by
      intro _
      change Fits 0
      decide
    have hone := hall slateDeposit (slateState slate) t hfit ht (slateDeposit_slate slate) id
    have hvotes := deposit_votes ht (slateDeposit_slate slate) id
    have hle : timesNamed slate id ≤ slate.length := by
      exact List.count_le_length.trans (List.length_map _).le
    have hmax : maxSlateSize = 111 := rfl
    rw [if_neg (by omega)] at hvotes
    change votesOf t.netDelegateVotes id = int64 (0 + timesNamed slate id * 1) at hvotes
    rw [hvotes] at hone
    change int64 _ - 0 ≤ 1 at hone
    unfold int64 at hone
    omega
  · intro honce op s t hs h hslate
    exact deposit_oneVote hs h hslate honce

end Model

theorem deposit_one_vote_iff_distinct :
    letI := Fc.plain
    NamesOnce [5, 3] ∧ ∃ t, DepositOperation.evaluate slateDeposit (slateState [5, 3]) = .ok t ∧
      OneVote slateDeposit (slateState [5, 3]) t := by
  let := Fc.plain
  have honce : NamesOnce [5, 3] := by decide
  have hsize : [5, 3].length ≤ maxSlateSize := by decide
  have hfit : VotesFit (slateState [5, 3]) := by
    intro _
    change Fits 0
    decide
  obtain ⟨t, ht⟩ := slateDeposit_accepted [5, 3]
  exact ⟨honce, t, ht, (deposit_one_vote_iff hsize).mpr honce _ _ t hfit ht rfl⟩

def delegateChain : @ChainDatabase Fc.plain :=
  letI := Fc.plain
  { assetDb := Table.empty.store { id := 0, symbol := blockchainSymbol, issuerAccountId := 0 }
    accountDb := Table.empty.store
      { id := 5, name := "delegate", ownerKey := 1, delegateInfo := some {} } }

def votesForTen (slate : List Int) : Option Int :=
  letI := Fc.plain
  let operations : List Operation :=
    [.defineDelegateSlate { supportedDelegates := slate },
      .deposit { amount := 10, condition := { slateId := 2, data := .signature 7 none } }]
  match operations.foldlM evaluateNext { prev := .database delegateChain, chainId := 0 } with
  | .ok t => some (votesOf t.netDelegateVotes 5)
  | .error _ => none

/-- A delegate that is named twice, for it or against it, has twenty votes from ten shares. -/
theorem deposit_counts_twice : votesForTen [5, 5] = some 20 ∧ votesForTen [5, -5] = some 20 := by
  decide +kernel

end Bts.Blockchain.SlateVotes
