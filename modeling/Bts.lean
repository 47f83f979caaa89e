import Bts.Blockchain.AccountNames
import Bts.Blockchain.AmountStrings
import Bts.Blockchain.BaseLedger
import Bts.Blockchain.CoverMarket
import Bts.Blockchain.CoverRuns
import Bts.Blockchain.DebtLedger
import Bts.Blockchain.DelegatePay
import Bts.Blockchain.InterestRates
import Bts.Blockchain.LayerLookups
import Bts.Blockchain.LayerStacks
import Bts.Blockchain.LoopPasses
import Bts.Blockchain.MarketHistory
import Bts.Blockchain.MarketKeys
import Bts.Blockchain.MatchAssertions
import Bts.Blockchain.MergedDebt
import Bts.Blockchain.OrderAmounts
import Bts.Blockchain.ParentSignatures
import Bts.Blockchain.Reopen
import Bts.Blockchain.ShortLimits
import Bts.Blockchain.SpotLedger
import Bts.Blockchain.UncrossedBooks
import Bts.Blockchain.Vesting
import Bts.Blockchain.YieldCurve
import Bts.Db.CachedLevelMap
import Bts.Net.AcceptedBlocks
import Bts.Net.ChainDownloader
import Bts.Net.ItemIds
import Bts.Wallet.CoverFees
