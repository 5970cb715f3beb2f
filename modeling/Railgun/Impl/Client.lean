import Railgun.Framework.Retry
import Railgun.Impl.Subsquid

/-!
# The Subsquid client

The Subsquid source as it talks to its server. A request is posted and its
reply taken apart (`postOnce`), again after a failure as the client's settings
have it (`postRetry`); `latestBlock` and `fetchPage` are made of such requests.
`Syncer::run_to_head` asks for the head and runs to it, and
`run_to_head_if_unsynced` first looks whether it needs to.

The network is a parameter (`Network`): what it replies, whether it does, and
what has become of it after some time is its choice. So is what the HTTP and JSON
libraries read from a body (`Wire`).
-/

namespace Railgun

open Retry

/-! ## Requests and replies -/

/-- A query and its variables; the constructors stand for the three query texts. -/
inductive GraphqlRequest
  | commitments (vars : QueryVars)
  | nullifiers (vars : QueryVars)
  | blockNumber
  deriving DecidableEq

structure GraphQlError where
  message : String

structure GraphqlResponse (ρ : Type) where
  data : Option ρ
  errors : Option (List GraphQlError)

structure BlockRow where
  blockNumber : U64

abbrev StatusCode := BitVec 16

def StatusCode.isSuccess (status : StatusCode) : Bool := 200 ≤ status ∧ status < 300

/-- The status of a response, and its body or why it could not be read. -/
structure Response where
  status : StatusCode
  body : Except String Bytes

/-- Nanoseconds. -/
abbrev Duration := Nat

/-- A network in some state: what comes of a post to a URL, and of time. -/
structure Network (σ : Type) where
  post : String → GraphqlRequest → EStateM String σ Response
  elapse : Duration → σ → σ

/-- What is read from bytes: a text, the JSON of each response, and the text of a
status. -/
structure Wire where
  text : Bytes → String
  commitments : Bytes → Except String (GraphqlResponse (List CommitmentRow))
  nullifiers : Bytes → Except String (GraphqlResponse (List NullifierRow))
  blockNumber : Bytes → Except String (GraphqlResponse (List BlockRow))
  showStatus : StatusCode → String

/-- The errors of a source, among those of the `sync` crate. -/
inductive ClientError
  | http (message : String)
  | graphQl (message : String)
  | request (status : StatusCode) (body : String)
  deriving DecidableEq, Repr

/-- Its message. -/
def ClientError.toSyncError (wire : Wire) : ClientError → SyncError
  | .http message => .source message
  | .graphQl message => .source s!"graphql error: {message}"
  | .request status body => .source s!"request failed ({wire.showStatus status}): {body}"

/-- The data of a response, unless it came with errors, be it none. -/
def GraphqlResponse.extract {ρ : Type} (parsed : GraphqlResponse ρ) : Except ClientError ρ :=
  match parsed.errors, parsed.data with
  | some errors, _ => .error (.graphQl ("; ".intercalate (errors.map (·.message))))
  | none, some data => .ok data
  | none, none => .error (.graphQl "no data in response")

/-- What a response says: an error if its status is not of success, else its JSON. -/
def Response.parse {ρ : Type} (response : Response) (wire : Wire)
    (decode : Bytes → Except String (GraphqlResponse ρ)) : Except ClientError ρ :=
  if response.status.isSuccess then do
    let bytes ← response.body.mapError .http
    let parsed ← (decode bytes).mapError .http
    parsed.extract
  else .error (.request response.status ((response.body.map wire.text).toOption.getD ""))

/-! ## The client -/

def defaultMaxRetries : U64 := 3

/-- A second. -/
def defaultRetryDelay : Duration := 1000000000

structure SubsquidClient where
  url : String
  source : SubsquidSource
  maxRetries : U64
  retryDelay : Duration

namespace SubsquidClient

def new (url : String) : SubsquidClient := ⟨url, .new, defaultMaxRetries, defaultRetryDelay⟩

def setRetries (client : SubsquidClient) (maxRetries : U64) (retryDelay : Duration) : SubsquidClient :=
  { client with maxRetries, retryDelay }

variable {σ ρ : Type} (client : SubsquidClient) (network : Network σ) (wire : Wire)

/-- One post, and what its reply says. -/
def postOnce (decode : Bytes → Except String (GraphqlResponse ρ)) (request : GraphqlRequest) :
    EStateM ClientError σ ρ := do
  let response ← mapError .http (network.post client.url request)
  raising (response.parse wire decode)

/-- Posts again after a failure and a delay, within the retry budget. No failures exceed the largest
budget; none where their count overflows, which panics in debug builds and never ends in release
builds. -/
def postRetry (decode : Bytes → Except String (GraphqlResponse ρ)) (request : GraphqlRequest) :
    EStateM ClientError σ (Option ρ) := fun s =>
  match retry (network.elapse client.retryDelay) (client.postOnce network wire decode request)
    client.maxRetries.toNat s with
  | .ok data s => .ok (some data) s
  | .error e s => if client.maxRetries = BitVec.allOnes 64 then .ok none s else .error e s

/-- The block of the last transaction there is, or block 0. -/
def latestBlock : EStateM SyncError σ (Option BlockNumber) :=
  mapError (·.toSyncError wire) do
    let transactions ← client.postRetry network wire wire.blockNumber .blockNumber
    return transactions.map fun transactions => (transactions.head?.map (·.blockNumber)).getD 0

/-- A page of a stream; none where the mapping of its rows panics. -/
def fetchPage (stream : EventStream) (start stop : BlockNumber) (cursor : Option String) :
    EStateM SyncError σ (Option Page) :=
  let vars := client.source.vars cursor start stop
  mapError (·.toSyncError wire) do
    match stream with
    | .commitments =>
      return (← client.postRetry network wire wire.commitments (.commitments vars)).bind commitmentsPage
    | .nullifiers =>
      return (← client.postRetry network wire wire.nullifiers (.nullifiers vars)).map nullifiersPage

end SubsquidClient

/-! ## Runs to the head -/

/-- Where a run over a client has come to. -/
inductive HeadPhase
  /-- About to look whether the database is synced. -/
  | checking
  /-- About to ask for the head. -/
  | asking
  | running (target : BlockNumber) (phase : Phase)
  | returned (result : Except SyncError SyncSummary)

/-- A run, the database it is on, and the network it is over. -/
structure Session (σ : Type) where
  phase : HeadPhase
  db : Database
  network : σ

/-- What a run has returned. -/
def HeadPhase.result? : HeadPhase → Option (Except SyncError SyncSummary)
  | .running _ (.returned result) => some result
  | .returned result => some result
  | _ => none

/-- The look that `run_to_head_if_unsynced` takes. -/
def HeadPhase.check (db : Database) : HeadPhase :=
  match Commitments.isSynced db.read with
  | .error e => .returned (.error (.database e))
  | .ok false => .asking
  | .ok true =>
    match Commitments.syncedBlock db.read with
    | .error e => .returned (.error (.database e))
    | .ok watermark =>
      .returned (.ok { commitments := 0, nullifiers := 0, syncedTo := watermark.getD 0 })

section
variable {σ : Type} (tables : PoseidonTables) (serde : Serde MerkleAccumulatorState)
  (network : Network σ) (wire : Wire) (client : SubsquidClient) (syncer : Syncer)

/-- To the next `await` or transaction; no step where the run has returned, or panics. -/
def Session.step (session : Session σ) : Option (Session σ) :=
  match session.phase with
  | .checking => some { session with phase := .check session.db }
  | .asking =>
    match client.latestBlock network wire session.network with
    | .ok (some target) net => some { session with phase := .running target .start, network := net }
    | .ok none _ => none
    | .error e net => some { session with phase := .returned (.error e), network := net }
  | .running target .start =>
    some { session with phase := .running target (syncer.begin session.db target) }
  | .running target (.fetching window stream cursor summary) =>
    match client.fetchPage network wire stream window.start window.stop cursor session.network with
    | .ok (some page) net =>
      some { session with
        phase := .running target (Phase.receive window stream summary (.ok page)), network := net }
    | .ok none _ => none
    | .error e net =>
      some { session with
        phase := .running target (Phase.receive window stream summary (.error e)), network := net }
  | .running target (.committing window summary) =>
    let (phase, db) := syncer.commit tables serde session.db target window summary
    some { session with phase := .running target phase, db }
  | .running _ (.returned _) => none
  | .returned _ => none

/-- Some steps. -/
def Session.Run : Session σ → Session σ → Prop :=
  Relation.ReflTransGen fun session session' =>
    session.step tables serde network wire client syncer = some session'

end

end Railgun
