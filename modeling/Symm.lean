import Symm.Broker.Allocation
import Symm.Broker.Book
import Symm.Broker.BookReaders
import Symm.Broker.CloseNow
import Symm.Broker.Consume
import Symm.Broker.Desk
import Symm.Broker.Finality
import Symm.Broker.Gate
import Symm.Broker.HeldQuantity
import Symm.Broker.Inventory
import Symm.Broker.Isolation
import Symm.Broker.Level3Covered
import Symm.Broker.Level3Live
import Symm.Broker.Level3Sockets
import Symm.Broker.Orders
import Symm.Broker.PaperWatch
import Symm.Broker.Pending
import Symm.Broker.Publishing
import Symm.Broker.Resting
import Symm.Broker.Restoring
import Symm.Broker.Sampling
import Symm.Broker.Seeding
import Symm.Broker.SeedingExact
import Symm.Broker.Statistics
import Symm.Broker.StoplossSpec
import Symm.Broker.StoredLot
import Symm.Broker.Trimming
import Symm.Broker.VenueMinimum
import Symm.Broker.VenueSize
import Symm.Broker.Vetting
import Symm.Broker.Walk
import Symm.Broker.Wallet
import Symm.Dashboard.Closes
import Symm.Dashboard.DeskStats
import Symm.Dashboard.Flat
import Symm.Dashboard.History
import Symm.Dashboard.Readout
import Symm.Dashboard.Rereading
import Symm.Dashboard.SeededPast
import Symm.Dashboard.Survival
import Symm.Kraken.Nonce
import Symm.Kraken.NonceOrder
import Symm.Kraken.NonceRestart
import Symm.Kraken.PlainDecimal
import Symm.Kraken.SignedBody
import Symm.Lib.Chunks
import Symm.Lib.FirstBest
import Symm.Lib.Js
import Symm.Lib.Json
import Symm.Lib.Machine
import Symm.Lib.Numerals
import Symm.Lib.Objects
import Symm.Lib.Offers
import Symm.Lib.Ring
import Symm.Lib.Samples
import Symm.Lib.Segments
import Symm.Lib.Threads
import Symm.Logic.Solver
import Symm.Network.Backoff
import Symm.Network.Client
import Symm.Network.Websocket
import Symm.Strategy.Entering
import Symm.Strategy.ExitDecision
import Symm.Strategy.ExitRace
import Symm.Strategy.Floors
import Symm.Strategy.Model
import Symm.Strategy.ModelSpec
import Symm.Strategy.NestedPaths
import Symm.Strategy.Reload
import Symm.Strategy.Scoring
import Symm.Strategy.Settlement
import Symm.Strategy.SharedPath
import Symm.Strategy.Stored
import Symm.Strategy.TokenPath
import Symm.Strategy.Training
import Symm.Strategy.TreeSpec
import Symm.Strategy.Verdict
import Symm.Tokenizer.Boundary
import Symm.Tokenizer.Cascade
import Symm.Tokenizer.Digrams
import Symm.Tokenizer.Growth
import Symm.Tokenizer.Histogram
import Symm.Tokenizer.Lossless
import Symm.Tokenizer.MDL
import Symm.Tokenizer.Meaning
import Symm.Tokenizer.Promotion
import Symm.Tokenizer.Rebuilt
import Symm.Tokenizer.References
import Symm.Tokenizer.Renaming
import Symm.Tokenizer.Repeat
import Symm.Tokenizer.Replay
import Symm.Tokenizer.Restart
import Symm.Tokenizer.RootRing
import Symm.Tokenizer.Segmenter
import Symm.Tokenizer.Sequencer
import Symm.Tokenizer.SequencerSpec
import Symm.Tokenizer.Sequitur
import Symm.Tokenizer.SequiturSpec
import Symm.Tokenizer.Symbol
import Symm.Tokenizer.Views
import Symm.Ui.Attached
import Symm.Ui.ClosedChunks
import Symm.Ui.ClosedListing
import Symm.Ui.FrameQueue
import Symm.Ui.PathFeed
import Symm.Ui.PathsListing
import Symm.Ui.SocketWorker
import Symm.Ui.Streams
import Symm.Ui.Trie
import Symm.Ui.TrieView
import Symm.Workbench.Cells
import Symm.Workbench.Remembered
import Symm.Workbench.ScrollBuffer
