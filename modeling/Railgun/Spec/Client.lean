import Railgun.Impl.Client
import Railgun.Spec.Chain
import Railgun.Spec.Indexer

/-!
# The network's side

What the client asks of the network: it may fail at any time and in any way, but
the rows it does deliver are a page of those that were asked for
(`Network.Honest`). That it delivers within the retry budget is another matter
(`Network.Reliable`). Runs over it are one after the other, each with its own
settings and stopped anywhere (`Sessions`).
-/

namespace Railgun

open Paging

/-- What the server behind the network has. -/
structure Archive where
  commitments : IndexerTable CommitmentRow CommitmentRow.id
  nullifiers : IndexerTable NullifierRow NullifierRow.id
  head : BlockNumber

/-- The events that its rows map to, with their blocks. -/
def Archive.chain (archive : Archive) : Chain
  | .commitments => archive.commitments.rows.filterMap fun r => (mapCommitment r.2).join.map (r.1, ·)
  | .nullifiers => archive.nullifiers.rows.map fun r => (r.1, mapNullifier r.2)

/-- An indexer that returns any page of the rows. -/
def Archive.indexer (archive : Archive) : Indexer where
  commitments vars := IsPage CommitmentRow.id
    (archive.commitments.within vars.blockNumberGte vars.blockNumberLte) vars.limit.toNat vars.idGt
  nullifiers vars := IsPage NullifierRow.id
    (archive.nullifiers.within vars.blockNumberGte vars.blockNumberLte) vars.limit.toNat vars.idGt

/-- A reply with the data of a response. -/
def Response.Delivers {ρ : Type} (response : Response)
    (decode : Bytes → Except String (GraphqlResponse ρ)) (data : ρ) : Prop :=
  response.status.isSuccess ∧ ∃ bytes, response.body = .ok bytes ∧ decode bytes = .ok ⟨some data, none⟩

/-- The head that the rows of a response come to. -/
def headOf (transactions : List BlockRow) : BlockNumber := (transactions.head?.map (·.blockNumber)).getD 0

section
variable {σ : Type} (network : Network σ) (wire : Wire) (archive : Archive)

/-- A post is replied to with this data. -/
def Network.Delivers {ρ : Type} (decode : Bytes → Except String (GraphqlResponse ρ)) (url : String)
    (request : GraphqlRequest) (s : σ) (data : ρ) (s' : σ) : Prop :=
  ∃ response, network.post url request s = .ok response s' ∧ response.Delivers decode data

/-- What is delivered is right. -/
structure Network.Honest : Prop where
  commitments : ∀ {url vars s rows s'}, network.Delivers wire.commitments url (.commitments vars) s rows s' →
    archive.indexer.commitments vars rows
  nullifiers : ∀ {url vars s rows s'}, network.Delivers wire.nullifiers url (.nullifiers vars) s rows s' →
    archive.indexer.nullifiers vars rows
  blockNumber : ∀ {url s transactions s'},
    network.Delivers wire.blockNumber url .blockNumber s transactions s' → headOf transactions ≤ archive.head

variable (client : SubsquidClient)

/-- The state that a post after some others of the same request is made in. -/
def Network.attempt (request : GraphqlRequest) : σ → Nat → σ :=
  Retry.before (network.elapse client.retryDelay) (network.post client.url request)

/-- Of the posts of a request that the retry budget allows, one is delivered. -/
def Network.DeliversInTime {ρ : Type} (decode : Bytes → Except String (GraphqlResponse ρ))
    (request : GraphqlRequest) (s : σ) : Prop :=
  ∃ n ≤ client.maxRetries.toNat, ∃ data s',
    network.Delivers decode client.url request (network.attempt client request s n) data s'

/-- So is every request, and the head is the server's. -/
structure Network.Reliable : Prop where
  commitments : ∀ vars s, 0 < vars.limit →
    network.DeliversInTime client wire.commitments (.commitments vars) s
  nullifiers : ∀ vars s, 0 < vars.limit →
    network.DeliversInTime client wire.nullifiers (.nullifiers vars) s
  blockNumber : ∀ s, network.DeliversInTime client wire.blockNumber .blockNumber s
  current : ∀ {s transactions s'},
    network.Delivers wire.blockNumber client.url .blockNumber s transactions s' →
      headOf transactions = archive.head

end

/-- Where a run starts: `run_to_head_if_unsynced`, `run_to_head`, or `run` to a block up to `head`. -/
inductive HeadPhase.Starts (head : BlockNumber) : HeadPhase → Prop
  | checking : Starts head .checking
  | asking : Starts head .asking
  | running {target : BlockNumber} (h : target ≤ head) : Starts head (.running target .start)

/-- The databases that runs from one floor leave, from a new one on. The network
may have come to any state between them. -/
inductive Sessions {σ : Type} (tables : PoseidonTables) (serde : Serde MerkleAccumulatorState)
    (network : Network σ) (wire : Wire) (floor head : BlockNumber) : Database → Prop
  | new : Sessions tables serde network wire floor head Database.empty
  | run {db : Database} {client : SubsquidClient} {syncer : Syncer} {phase : HeadPhase} {s : σ}
      {session : Session σ} (h : Sessions tables serde network wire floor head db)
      (hfloor : syncer.floor = floor) (hstart : phase.Starts head)
      (hrun : Session.Run tables serde network wire client syncer ⟨phase, db, s⟩ session) :
    Sessions tables serde network wire floor head session.db

end Railgun
