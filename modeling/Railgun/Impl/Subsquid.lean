import Railgun.Impl.Sync

/-!
# The Subsquid source

The rows of the GraphQL API and their mapping to events, and the pages that a
source makes of them. The rows are what a request returns: the requests with
their retries are those of the client over a network, and the parsing of the
JSON into rows is left out.
-/

namespace Railgun

open BigEndian

/-! ## Rows -/

structure QueryVars where
  idGt : String
  blockNumberGte : U64
  blockNumberLte : U64
  limit : U64
  deriving DecidableEq

inductive TokenType
  | erc20
  | erc721
  | erc1155
  deriving DecidableEq, Repr

structure TokenInfo where
  tokenAddress : EvmAddress
  tokenType : TokenType

structure ShieldPreimage where
  npk : ByteArr 32
  value : U256
  token : TokenInfo

structure TransactCiphertextInner where
  iv : ByteArr 16
  tag : ByteArr 16
  data : List (ByteArr 32)

structure TransactCiphertextOuter where
  ciphertext : TransactCiphertextInner
  memo : Bytes
  blindedSenderViewingKey : ByteArr 32
  blindedReceiverViewingKey : ByteArr 32
  annotationData : Bytes

inductive CommitmentKind
  | shieldCommitment (preimage : ShieldPreimage) (shieldKey : ByteArr 32)
      (encryptedBundle : List (ByteArr 32))
  | transactCommitment (ciphertext : TransactCiphertextOuter)
  | legacy

/-- A row of the commitments. -/
structure CommitmentRow where
  id : String
  blockNumber : U64
  hash : U256
  treeNumber : U32
  treePosition : U32
  kind : CommitmentKind

structure NullifierRow where
  id : String
  nullifier : U256
  treeNumber : U32

/-! ## Mapping -/

/-- The body of a commitment; none for a legacy one or another token standard. -/
def CommitmentKind.body : CommitmentKind → Option NodeBody
  | .legacy => none
  | .transactCommitment ciphertext => some <| .transact
    { ciphertext :=
        { iv := ciphertext.ciphertext.iv
          tag := ciphertext.ciphertext.tag
          data := ciphertext.ciphertext.data.map (·.1) }
      memo := ciphertext.memo
      blindedSenderKey := ciphertext.blindedSenderViewingKey
      blindedReceiverKey := ciphertext.blindedReceiverViewingKey
      annotation := ciphertext.annotationData }
  | .shieldCommitment preimage shieldKey encryptedBundle =>
    if preimage.token.tokenType ≠ .erc20 then none
    else some <| .shield
      { npk := fromBeBytes 256 preimage.npk.1
        token := .erc20 preimage.token.tokenAddress
        value := preimage.value
        encryptedBundle := encryptedBundle
        shieldKey := shieldKey }

/-- The event of a commitment row, if it is one we keep; nothing where the
position's `expect` fails. -/
def mapCommitment (commitment : CommitmentRow) : Option (Option SyncEvent) := do
  let position ← NodePosition.normalized commitment.treeNumber commitment.treePosition
  return commitment.kind.body.map fun body =>
    .commitment { position, hash := commitment.hash, block := commitment.blockNumber, body }

def mapNullifier (row : NullifierRow) : SyncEvent :=
  .nullified
    { treeNumber := row.treeNumber
      nullifier := ⟨beBytes 32 row.nullifier, length_beBytes 32 row.nullifier⟩ }

/-! ## Pages -/

structure SubsquidSource where
  pageLimit : U64
  limit_pos : 0 < pageLimit

def defaultPageLimit : U64 := 20000

def SubsquidSource.new : SubsquidSource := ⟨defaultPageLimit, by decide⟩

/-- Asserts that pages are not empty. -/
def SubsquidSource.setPageLimit (pageLimit : U64) : Option SubsquidSource :=
  if h : 0 < pageLimit then some ⟨pageLimit, h⟩ else none

def SubsquidSource.vars (source : SubsquidSource) (cursor : Option String)
    (start stop : BlockNumber) : QueryVars :=
  { idGt := cursor.getD ""
    blockNumberGte := start
    blockNumberLte := stop
    limit := source.pageLimit }

/-- The page of some commitment rows: the cursor is of the last row, kept or not. -/
def commitmentsPage (rows : List CommitmentRow) : Option Page := do
  let events ← rows.mapM mapCommitment
  return { events := events.filterMap id, cursor := rows.getLast?.map (·.id) }

def nullifiersPage (rows : List NullifierRow) : Page :=
  { events := rows.map mapNullifier, cursor := rows.getLast?.map (·.id) }

/-- What a request for each kind of rows may return. -/
structure Indexer where
  commitments : QueryVars → List CommitmentRow → Prop
  nullifiers : QueryVars → List NullifierRow → Prop

/-- The source over an indexer. -/
def SubsquidSource.eventSource (source : SubsquidSource) (indexer : Indexer) : EventSource where
  fetchPage stream start stop cursor page :=
    match stream with
    | .commitments => ∃ rows, indexer.commitments (source.vars cursor start stop) rows ∧
        commitmentsPage rows = some page
    | .nullifiers => ∃ rows, indexer.nullifiers (source.vars cursor start stop) rows ∧
        nullifiersPage rows = page

end Railgun
