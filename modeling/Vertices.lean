import Vertices.EventQueue
import Vertices.TxnMap
import Vertices.Signature
import Vertices.Submission
import Vertices.Atomicity
import Vertices.PendingSlots
import Vertices.MnemonicRoundTrip
import Vertices.AccountSlice
import Vertices.IndexSafety
import Vertices.SilentErrors
import Vertices.WalletSlots
import Vertices.WalletErase
import Vertices.WalletLoad
import Vertices.PhraseAcceptance
import Vertices.AddressText
import Vertices.AccountRefresh
import Vertices.ReceiveBuffer
import Vertices.StateExtraction
import Vertices.AddressRoundTrip
import Vertices.CallEncoding
import Vertices.PayloadSize
import Vertices.EventSafety
import Vertices.OptIn
import Vertices.UnknownFields
import Vertices.ParseBounds
import Vertices.StringCalls
import Vertices.AccountHandles
import Vertices.WalletNames
import Vertices.WalletLengths
import Vertices.OfflineParams
import Vertices.Balances
import Vertices.Base64Text
import Vertices.Base64Capacity
import Vertices.Base32Text
import Vertices.PhraseAccess
import Vertices.Base2048RoundTrip
import Vertices.VacantFields
import Vertices.OutboxRuns
import Vertices.UnixExample
import Vertices.MainLoop
import Vertices.ExampleFiles
import Vertices.Lib.PairSplit
import Vertices.HttpCurl
import Vertices.HttpRequests
import Vertices.Lib.Heap
import Vertices.Lib.GrowVec
import Vertices.PhraseMemory
import Vertices.Keyring
import Vertices.SignedMeaning
import Vertices.ExampleMain
