import Bts.Blockchain.ExtendChain

namespace Bts.Blockchain.Genesis

open Base Result Exec Word Errors Amounts Records Transactions Database Rules Operations ExtendChain

def initialShares : Int := maxShares / 5
def sharedropTimestamp : Nat := 1415188800
def sharedropVestingDuration : Nat := 2 * 365 * secondsPerDay

structure NameConfig where
  name : String
  owner : Nat
  delegatePayRate : Nat

structure AssetConfig where
  symbol : String
  name : String
  description : String
  precision : Nat

/-- The genesis file, with the addresses it names already resolved. -/
structure GenesisConfig where
  timestamp : Nat
  names : List NameConfig
  balances : List (Nat × Int)
  marketAssets : List AssetConfig
  btsSharedrop : List (Nat × Int)

variable [Fc]

def nameRecord (timestamp : Nat) (name : NameConfig) (id : Nat) :
    Except ChainError AccountRecord := do
  let r : AccountRecord :=
    { id, name := name.name, ownerKey := name.owner
      registrationDate := timestamp, lastUpdate := timestamp }
  let r ← r.setActiveKey timestamp name.owner
  let delegate : AccountRecord :=
    { r with delegateInfo := some { payRate := name.delegatePayRate } }
  if isDelegateRate name.delegatePayRate then delegate.setSigningKey 0 name.owner else pure r

def storeName (timestamp : Nat) (entry : NameConfig × Nat) : DbAction Unit := do
  let r ← lift (nameRecord timestamp entry.1 entry.2)
  Stores.storeAccountRecord r

def addBalance (r : BalanceRecord) : DbAction Unit :=
  update fun db => db.storeBalanceRecord { r with
    balance := int64 (r.balance + ((db.balanceDb.lookup (BalanceRecord.balanceId r)).map (·.balance)).getD 0) }

def initialBalance (timestamp totalUnscaled : Nat) (item : Nat × Int) : BalanceRecord :=
  let scaled := mul128 (uint128 (item.2.tdiv 1000)) initialShares.toNat / totalUnscaled
  { condition := { data := .signature item.1 none }
    balance := int64 scaled
    lastUpdate := timestamp }

def sharedropBalance (item : Nat × Int) : BalanceRecord :=
  let original := item.2.tdiv 1000
  { condition :=
      { data := .vesting item.1 sharedropTimestamp sharedropVestingDuration original }
    balance := original
    lastUpdate := sharedropTimestamp }

def addRecord (total : Asset) (r : BalanceRecord) : Except ChainError Asset := do
  require (0 ≤ r.balance) (.assertion "ind.amount >= 0")
  Asset.add total { amount := r.balance, assetId := r.condition.assetId }

def sumBalances (db : ChainDatabase) : Except ChainError Asset :=
  (db.balanceDb.rows.entries.map (·.2)).foldlM addRecord {}

def baseAsset (timestamp : Nat) (supply : Int) : AssetRecord :=
  { id := 0, symbol := blockchainSymbol, name := "BitShares", description := "The Future of Banking"
    issuerAccountId := AssetRecord.godIssuerId, precision := blockchainPrecision.toNat
    registrationDate := timestamp, lastUpdate := timestamp
    currentShareSupply := supply, maximumShareSupply := maxShares }

def marketAsset (timestamp : Nat) (config : AssetConfig) (id : Nat) : AssetRecord :=
  { id, symbol := config.symbol, name := config.name, description := config.description
    issuerAccountId := AssetRecord.marketIssuerId, precision := config.precision
    registrationDate := timestamp, lastUpdate := timestamp, maximumShareSupply := maxShares }

/-- The base asset is what the balances and the delegates' pay hold. -/
def sanityCheck (db : ChainDatabase) : Except ChainError Unit := do
  let held ← ((db.balanceDb.rows.entries.map (·.2)).filter (·.condition.assetId = 0)).foldlM
    addRecord {}
  let total ← (db.accountDb.rows.entries.filterMap (·.2.delegateInfo)).foldlM
    (fun total d => Asset.add total { amount := d.payBalance }) held
  let base ← orThrow (db.assetDb.lookup 0) (.assertion "ar.valid()")
  require (base.currentShareSupply = total.amount)
    (.assertion "ar->current_share_supply == total.amount")
  require (base.currentShareSupply ≤ base.maximumShareSupply)
    (.assertion "ar->current_share_supply <= ar->maximum_share_supply")

def genesisProperties (config : GenesisConfig) (db : ChainDatabase) : ChainDatabase :=
  ((((db.setProperty .activeDelegateListId (.accounts (nextRoundActiveDelegates db))).setProperty
    .lastAssetId (.int config.marketAssets.length)).setProperty
    .lastAccountId (.int config.names.length)).setProperty
    .lastRandomSeedId (.hash 0)).setProperty .confirmationRequirement (.int (numDelegates * 2))

def initializeGenesis (config : GenesisConfig) (chainId : Nat) : DbAction Unit := do
  update fun db => { db with chainId }
  update (·.setProperty .chainId (.hash chainId))
  lift (require (numDelegates ≤ (config.names.filter (isDelegateRate ·.delegatePayRate)).length)
    (.assertion "genesis.json does not contain enough initial delegates"))
  Stores.storeAccountRecord { id := 0, name := "god", ownerKey := 0 }
  forEach (config.names.zipIdx 1) (storeName config.timestamp)
  let unscaled := (config.balances.map fun item => uint128 (item.2.tdiv 1000)).sum % 2 ^ 128
  forEach config.balances fun item => addBalance (initialBalance config.timestamp unscaled item)
  forEach config.btsSharedrop fun item => addBalance (sharedropBalance item)
  let db ← read id
  let total ← lift (sumBalances db)
  update (·.storeAssetRecord (baseAsset config.timestamp total.amount))
  forEach (config.marketAssets.zipIdx 1) fun entry =>
    update (·.storeAssetRecord (marketAsset config.timestamp entry.1 entry.2))
  update (storeFork 0 { isValid := some true, isIncluded := true, isLinked := true, isKnown := true })
  update (genesisProperties config)
  let db ← read id
  lift (sanityCheck db)

end Bts.Blockchain.Genesis
