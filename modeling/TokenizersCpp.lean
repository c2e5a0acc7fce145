import TokenizersCpp.LongestMatch
import TokenizersCpp.InsertionLoop
import TokenizersCpp.Traversal
import TokenizersCpp.Interface
import TokenizersCpp.RwkvTrie
import TokenizersCpp.RwkvWorld
import TokenizersCpp.RwkvGreedy
import TokenizersCpp.RwkvRoundTrip
import TokenizersCpp.RwkvLoadOrder
import TokenizersCpp.RwkvLookup
import TokenizersCpp.RwkvLocality
import TokenizersCpp.RustFfi
import TokenizersCpp.Wrapper
import TokenizersCpp.BpeMerges
import TokenizersCpp.CAbi
import TokenizersCpp.HuggingFace
import TokenizersCpp.SentencePiece
import TokenizersCpp.Dispatch
import TokenizersCpp.TrieHistory
import TokenizersCpp.LeftmostScan
import TokenizersCpp.Padding
import TokenizersCpp.Pipeline
import TokenizersCpp.SampleLibrary
import TokenizersCpp.BpeLoader
import TokenizersCpp.BpeVocabulary
import TokenizersCpp.FlagValidation
import TokenizersCpp.IdConversion
import TokenizersCpp.Factories
import TokenizersCpp.EncodeFailures
import TokenizersCpp.BatchParity
import TokenizersCpp.IgnoreAdded
import TokenizersCpp.IgnoreSpecial
import TokenizersCpp.AbiOutputs
import TokenizersCpp.Ownership
import TokenizersCpp.Interleaving
import TokenizersCpp.SharedHandle
import TokenizersCpp.HandleIsolation
import TokenizersCpp.Separation
import TokenizersCpp.RawMemory
import TokenizersCpp.RawAbi
import TokenizersCpp.RawTokenizer
import TokenizersCpp.RawRwkv
import TokenizersCpp.Session
import TokenizersCpp.UnguardedHandle
import TokenizersCpp.Refinement
import TokenizersCpp.CContract
import TokenizersCpp.CClient
import TokenizersCpp.CLifetime
import TokenizersCpp.CThreads
import TokenizersCpp.Segmentation
import TokenizersCpp.RwkvSegmentation
import TokenizersCpp.BpeLayout
import TokenizersCpp.BatchSplitting
import TokenizersCpp.UntrustedText
