import MaxminddbRust.Concurrent.Pool
import MaxminddbRust.Ip
import MaxminddbRust.Path
import MaxminddbRust.Meaning
import MaxminddbRust.Data.Decimal
import MaxminddbRust.Data.Memo
import MaxminddbRust.Decode
import MaxminddbRust.Data.BoundedQueue
import MaxminddbRust.PathCache
import MaxminddbRust.Source
import MaxminddbRust.ReaderIterator
import MaxminddbRust.Reader
import MaxminddbRust.ReaderSpec
import MaxminddbRust.ReaderSystem
import MaxminddbRust.Closing
import MaxminddbRust.Batch
import MaxminddbRust.AddressObject
import MaxminddbRust.Data.PrefixTree
import MaxminddbRust.SearchTree
import MaxminddbRust.Iteration
import MaxminddbRust.Data.Navigation
import MaxminddbRust.Selective
import MaxminddbRust.PathGrammar
import MaxminddbRust.SearchTreeSize
import MaxminddbRust.LengthHint
import MaxminddbRust.KeyCell
import MaxminddbRust.Concurrent.Eventually
import MaxminddbRust.Concurrent.Lock
import MaxminddbRust.PathLock
import MaxminddbRust.PathLockSafety
import MaxminddbRust.Concurrent.Linearizable
import MaxminddbRust.Linearizability
import MaxminddbRust.PathRefinement
import MaxminddbRust.Database
import MaxminddbRust.Opening
import MaxminddbRust.Concurrent.Part
import MaxminddbRust.KeyCaches
import MaxminddbRust.Process
import MaxminddbRust.Concurrent.Borrow
import MaxminddbRust.IteratorCell
import MaxminddbRust.NestedDecodes
import MaxminddbRust.Concurrent.Resources
import MaxminddbRust.SourceLifetime
