import Bts.Base.Exec
import Bts.Blockchain.Pending

namespace Bts.Blockchain.Database

open Base Result Exec Maps Errors Amounts Records MarketRecords Transactions Pending

def forkBlockNumV049 : Nat := 316001
def forkBlockNumV0413 : Nat := 451500
def forkBlockNumV0424 : Nat := 991700
def forkBlockNumV0426 : Nat := 1246900
def forkBlockNumV0428 : Nat := 9999999
def forkBlockNumV0429 : Nat := 9999999
def numDelegates : Nat := 101
def blockIntervalSec : Nat := 10
def minFeeds : Nat := 51
def maxUndoHistory : Nat := 1616
def secondsPerDay : Nat := 86400
def blocksPerDay : Int := 8640
def blockchainSymbol : String := "BTS"

/-- What is known of a block of the fork tree. The set of next blocks is a list read
through membership. -/
structure BlockForkData where
  nextBlocks : List Nat := []
  isLinked : Bool := false
  isValid : Option Bool := none
  invalidReason : Option ChainError := none
  isIncluded : Bool := false
  isKnown : Bool := false

namespace BlockForkData

def invalid (d : BlockForkData) : Prop := d.isValid = some false
  deriving Decidable

def canLink (d : BlockForkData) : Prop := d.isLinked = true ∧ ¬ d.invalid
  deriving Decidable

end BlockForkData

variable [Fc]

/-- The blocks, the forks and the settings of `chain_database_impl`, which the changes
of a block do not touch. The last field is what a call reads from outside, the clock. -/
structure BlockStore where
  trackStats : Bool := true
  skipSignatureVerification : Bool := true
  chainId : Nat := 0
  undoStateDb : Map Nat PendingState := ∅
  forkNumberDb : Map Nat (List Nat) := ∅
  forkDb : Map Nat BlockForkData := ∅
  blockIdToBlockRecordDb : Map Nat BlockRecord := ∅
  blockIdToBlockDataDb : Map Nat FullBlock := ∅
  blockNumToIdDb : Map Nat Nat := ∅
  revalidatableFutureBlocksDb : Finset Nat := ∅
  headBlockHeader : SignedBlockHeader := {}
  headBlockId : Nat := 0
  wallClock : Nat := 0

structure ChainDatabase extends BlockStore where
  propertyDb : Map ChainProperty PropertyValue := ∅
  assetDb : Table AssetRecord.id := .empty
  symbolIndexDb : Map String Int := ∅
  accountDb : Table AccountRecord.id := .empty
  accountIndexDb : Map String Int := ∅
  addressToAccountDb : Map Nat Int := ∅
  delegateVoteIndexDb : List (Int × Int) := []
  balanceDb : Table BalanceRecord.balanceId := .empty
  slateDb : Map Nat (List Int) := ∅
  bidDb : Map MarketIndexKey OrderRecord := ∅
  askDb : Map MarketIndexKey OrderRecord := ∅
  relativeBidDb : Map MarketIndexKey OrderRecord := ∅
  relativeAskDb : Map MarketIndexKey OrderRecord := ∅
  shortDb : Map MarketIndexKey OrderRecord := ∅
  collateralDb : Map MarketIndexKey CollateralRecord := ∅
  collateralExpirationIndex : List ExpirationIndex := []
  feedDb : Table FeedRecord.feed := .empty
  marketStatusDb : Table MarketStatus.key := .empty
  marketHistoryDb : Map MarketHistoryKey MarketHistoryRecord := ∅
  slotRecordDb : Table SlotRecord.startTime := .empty
  burnDb : Map BurnRecordKey BurnRecordValue := ∅
  authDb : Map (Int × Nat) Int := ∅
  idToTransactionRecordDb : Map Nat TransactionRecord := ∅
  uniqueTransactions : Finset (Nat × Nat) := ∅
  marketTransactionsDb : Map Nat (List MarketTransaction) := ∅

abbrev DbAction (α : Type) := Action ChainError ChainDatabase α

def getSlotNumber (timestamp : Nat) : Nat := timestamp / blockIntervalSec
def getSlotStartTime (slotNumber : Nat) : Nat := slotNumber * blockIntervalSec

/-- `vote_del::operator <`: most votes first, the lowest id in ties. -/
def voteBefore (a b : Int × Int) : Prop := b.1 < a.1 ∨ (a.1 = b.1 ∧ a.2 < b.2)
  deriving Decidable

namespace BlockStore

def getHeadBlockNum (b : BlockStore) : Nat := b.headBlockHeader.blockNum

def now (b : BlockStore) : Nat :=
  if b.headBlockHeader.blockNum ≤ 0 then getSlotStartTime (getSlotNumber b.wallClock - 1)
  else b.headBlockHeader.timestamp

end BlockStore

namespace ChainDatabase

variable (db : ChainDatabase)

def getAssetRecordBySymbol (symbol : String) : Option AssetRecord :=
  (db.symbolIndexDb.lookup (if symbol = "BTSX" then blockchainSymbol else symbol)).bind
    db.assetDb.lookup

def getAccountRecordByName (name : String) : Option AccountRecord :=
  (db.accountIndexDb.lookup name).bind db.accountDb.lookup

def getAccountRecordByAddress (owner : Nat) : Option AccountRecord :=
  (db.addressToAccountDb.lookup owner).bind db.accountDb.lookup

/-- `get_transaction( id )`, asked with `exact = true` everywhere in the chain code. -/
def getTransaction (id : Nat) : Except ChainError (Option TransactionRecord) := do
  require (db.trackStats = true) (.assertion "my->_track_stats")
  match db.idToTransactionRecordDb.lookup id with
  | none => pure none
  | some r =>
    require (r.trx.id = id) (.assertion "trx_rec->trx.id() == trx_id")
    pure (some r)

def getSlotRecord (startTime : Nat) : Except ChainError (Option SlotRecord) := do
  require (db.trackStats = true) (.assertion "my->_track_stats")
  pure (db.slotRecordDb.lookup startTime)

def isKnownTransaction (expiration digest : Nat) : Prop :=
  (expiration, digest) ∈ db.uniqueTransactions
  deriving Decidable

def setProperty (id : ChainProperty) (value : PropertyValue) : ChainDatabase :=
  { db with propertyDb := putMap PropertyValue.isNull db.propertyDb id value }

def indexSymbol (index : Map String Int) (r : AssetRecord) : Map String Int :=
  if r.isNull then index.erase r.symbol else index.insert r.symbol r.id

def storeAssetRecord (r : AssetRecord) : ChainDatabase :=
  { db with
    assetDb := putTable AssetRecord.isNull db.assetDb r
    symbolIndexDb := indexSymbol db.symbolIndexDb r }

/-- `store_balance_record` keeps the records of empty balances. -/
def storeBalanceRecord (r : BalanceRecord) : ChainDatabase :=
  { db with balanceDb := db.balanceDb.store r }

def storeDelegateSlate (id : Nat) (supportedDelegates : List Int) : ChainDatabase :=
  { db with slateDb := putMap (· = []) db.slateDb id supportedDelegates }

def storeBidRecord (key : MarketIndexKey) (r : OrderRecord) : ChainDatabase :=
  { db with bidDb := putMap OrderRecord.isNull db.bidDb key r }

def storeRelativeBidRecord (key : MarketIndexKey) (r : OrderRecord) : ChainDatabase :=
  { db with relativeBidDb := putMap OrderRecord.isNull db.relativeBidDb key r }

def storeAskRecord (key : MarketIndexKey) (r : OrderRecord) : ChainDatabase :=
  { db with askDb := putMap OrderRecord.isNull db.askDb key r }

def storeRelativeAskRecord (key : MarketIndexKey) (r : OrderRecord) : ChainDatabase :=
  { db with relativeAskDb := putMap OrderRecord.isNull db.relativeAskDb key r }

def storeShortRecord (key : MarketIndexKey) (r : OrderRecord) : ChainDatabase :=
  { db with shortDb := putMap OrderRecord.isNull db.shortDb key r }

/-- The expiration index after `store_collateral_record`. It changes only where a
record was stored under the key before. -/
def indexExpiration (records : Map MarketIndexKey CollateralRecord) (index : List ExpirationIndex)
    (key : MarketIndexKey) (r : CollateralRecord) : List ExpirationIndex :=
  match records.lookup key with
  | none => index
  | some old =>
    if old.expiration = r.expiration then index
    else
      let quoteId := key.orderPrice.quoteAssetId
      let rest := index.filter (· ≠ ⟨quoteId, old.expiration, key⟩)
      if r.isNull then rest else rest.insert ⟨quoteId, r.expiration, key⟩

def storeCollateralRecord (key : MarketIndexKey) (r : CollateralRecord) : ChainDatabase :=
  { db with
    collateralDb := putMap CollateralRecord.isNull db.collateralDb key r
    collateralExpirationIndex :=
      indexExpiration db.collateralDb db.collateralExpirationIndex key r }

def storeMarketStatus (r : MarketStatus) : ChainDatabase :=
  { db with marketStatusDb := putTable MarketStatus.isNull db.marketStatusDb r }

def setFeed (r : FeedRecord) : ChainDatabase :=
  { db with feedDb := putTable FeedRecord.isNull db.feedDb r }

def authorize (assetId : Int) (owner : Nat) (oid : Int) : ChainDatabase :=
  { db with authDb := putMap (· = -1) db.authDb (assetId, owner) oid }

/-- The records of the statistics are stored only while they are tracked. -/
def storeSlotRecord (r : SlotRecord) : ChainDatabase :=
  { db with slotRecordDb :=
    if db.trackStats then putTable SlotRecord.isNull db.slotRecordDb r else db.slotRecordDb }

def storeMarketHistoryRecord (key : MarketHistoryKey) (r : MarketHistoryRecord) : ChainDatabase :=
  { db with marketHistoryDb :=
    if db.trackStats then putMap MarketHistoryRecord.isNull db.marketHistoryDb key r
    else db.marketHistoryDb }

def storeBurnRecord (key : BurnRecordKey) (r : BurnRecordValue) : ChainDatabase :=
  { db with burnDb :=
    if db.trackStats then putMap BurnRecordValue.isNull db.burnDb key r else db.burnDb }

def setDirtyMarkets (d : List AssetPair) : ChainDatabase :=
  db.setProperty .dirtyMarkets (.markets d)

end ChainDatabase

end Bts.Blockchain.Database
