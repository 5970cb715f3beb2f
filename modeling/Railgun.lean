import Railgun.Framework.BigEndian
import Railgun.Framework.ByteCodec
import Railgun.Framework.Numeral
import Railgun.Framework.Positional
import Railgun.Framework.Ascii
import Railgun.Framework.OrdMap
import Railgun.Framework.GapFill
import Railgun.Framework.Height
import Railgun.Framework.Outcome
import Railgun.Framework.Retry
import Railgun.Framework.HashTree
import Railgun.Framework.Paging
import Railgun.Framework.Regroup
import Railgun.Framework.Bech32
import Railgun.Framework.Ladder
import Railgun.Framework.Edwards
import Railgun.Framework.Elimination
import Railgun.Framework.Hades
import Railgun.Impl.Types
import Railgun.Impl.Codec
import Railgun.Impl.Store
import Railgun.Impl.Poseidon
import Railgun.Impl.PoseidonT3
import Railgun.Impl.Tables
import Railgun.Impl.Merkle
import Railgun.Impl.Json
import Railgun.Impl.Note
import Railgun.Impl.Database
import Railgun.Impl.Sync
import Railgun.Impl.Subsquid
import Railgun.Impl.Client
import Railgun.Impl.Decoder
import Railgun.Impl.Address
import Railgun.Impl.BabyJubJub
import Railgun.Impl.Parameters
import Railgun.Impl.Derivation
import Railgun.Impl.Account
import Railgun.Impl.Base37
import Railgun.Impl.Aes
import Railgun.Spec.Calls
import Railgun.Spec.Derivation
import Railgun.Spec.Forest
import Railgun.Spec.Windows
import Railgun.Spec.Runs
import Railgun.Spec.Chain
import Railgun.Spec.Indexer
import Railgun.Spec.Client
import Railgun.Spec.World
import Railgun.Spec.Lifecycle
import Railgun.Spec.Wallet
import Railgun.Spec.Poseidon
import Railgun.Proof.Codec
import Railgun.Proof.Note
import Railgun.Proof.Path
import Railgun.Proof.Grammar
import Railgun.Proof.Derivation
import Railgun.Proof.Base37
import Railgun.Proof.Aes
import Railgun.Proof.Recovery
import Railgun.Proof.Address
import Railgun.Spec.Account
import Railgun.Proof.Account
import Railgun.Proof.ScalarField
import Railgun.Proof.Signature
import Railgun.Proof.Multiples
import Railgun.Proof.Elimination
import Railgun.Proof.Parameters
import Railgun.Proof.Permutation
import Railgun.Proof.Json
import Railgun.Proof.Store
import Railgun.Proof.Tables
import Railgun.Proof.Overlay
import Railgun.Proof.Forest
import Railgun.Proof.Refinement
import Railgun.Proof.Positions
import Railgun.Proof.Decoder
import Railgun.Proof.Batch
import Railgun.Proof.Merkle
import Railgun.Proof.Walk
import Railgun.Proof.Accumulator
import Railgun.Proof.Binding
import Railgun.Proof.Frontier
import Railgun.Proof.Window
import Railgun.Proof.Runs
import Railgun.Proof.Termination
import Railgun.Proof.Subsquid
import Railgun.Proof.World
import Railgun.Proof.Lifecycle
import Railgun.Proof.Spine
import Railgun.Proof.Root
import Railgun.Proof.Chain
import Railgun.Proof.Resumption
import Railgun.Proof.Client
import Railgun.Proof.Sessions
import Railgun.Proof.Wallet
import Railgun.Spec.Usage
import Railgun.Proof.Usage
import Railgun.Proof.Overlap
import Railgun.Proof.Gap
