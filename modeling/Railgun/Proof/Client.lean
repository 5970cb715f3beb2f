import Railgun.Framework.Ascii
import Railgun.Proof.Chain
import Railgun.Proof.Subsquid
import Railgun.Spec.Client

/-!
# The client over its network

A request returns the data of the first reply that delivers any, or the error of
the last one its budget allows (`postRetry_outcome`). So over an honest network
the client's pages are those of a source over the archive behind it
(`fetchPage_refines`), which yields the events of the archive's rows
(`archive_yields`).
-/

namespace Railgun

open Retry Outcome Paging

/-! ## Requests -/

section
variable {σ ρ : Type} {client : SubsquidClient} {network : Network σ} {wire : Wire}
  {decode : Bytes → Except String (GraphqlResponse ρ)} {request : GraphqlRequest} {s s' : σ} {data : ρ}

theorem extract_eq_ok {parsed : GraphqlResponse ρ} :
    parsed.extract = .ok data ↔ parsed = ⟨some data, none⟩ := by
  obtain ⟨content, errors⟩ := parsed
  cases errors <;> cases content <;> simp [GraphqlResponse.extract]

theorem parse_eq_ok {response : Response} :
    response.parse wire decode = .ok data ↔ response.Delivers decode data := by
  rw [Response.parse, Response.Delivers]
  split
  · simp [bind_eq_ok, mapError_eq_ok, extract_eq_ok, *]
  · simp [*]

theorem postOnce_of_ok {response : Response} (h : network.post client.url request s = .ok response s') :
    client.postOnce network wire decode request s = raising (response.parse wire decode) s' :=
  run_bind_of_ok (mapError_ok_state h)

theorem postOnce_of_error {e : String} (h : network.post client.url request s = .error e s') :
    client.postOnce network wire decode request s = .error (.http e) s' :=
  run_bind_of_error (mapError_error_state h)

/-- A post succeeds with what its reply delivers. -/
theorem postOnce_eq_ok : client.postOnce network wire decode request s = .ok data s' ↔
    network.Delivers decode client.url request s data s' := by
  rw [Network.Delivers]
  cases h : network.post client.url request s with
  | error e s₁ => simp [postOnce_of_error h]
  | ok response s₁ =>
    have hparse : ∀ response : Response, response.parse wire decode = .ok data ↔
        response.Delivers decode data := fun _ => parse_eq_ok
    rw [postOnce_of_ok h]
    simp only [EStateM.Result.ok.injEq, ← hparse]
    cases hp : response.parse wire decode <;> simp [raising, reading, hp, and_comm]

/-- It leaves the network as the post does. -/
theorem stateOf_postOnce (s : σ) : stateOf (client.postOnce network wire decode request s) =
    stateOf (network.post client.url request s) := by
  cases h : network.post client.url request s with
  | error e s₁ => rw [postOnce_of_error h, stateOf, stateOf]
  | ok response s₁ =>
    rw [postOnce_of_ok h]
    cases response.parse wire decode <;> simp [raising, reading, stateOf]

theorem before_postOnce (n : Nat) (s : σ) :
    before (network.elapse client.retryDelay) (client.postOnce network wire decode request) s n =
      network.attempt client request s n := before_congr stateOf_postOnce n s

theorem postRetry_eq_ok : client.postRetry network wire decode request s = .ok (some data) s' ↔
    retry (network.elapse client.retryDelay) (client.postOnce network wire decode request)
      client.maxRetries.toNat s = .ok data s' := by
  rw [SubsquidClient.postRetry]
  generalize retry _ _ _ s = result
  cases result <;> by_cases hmax : client.maxRetries = BitVec.allOnes 64 <;> simp [-BitVec.reduceAllOnes, hmax]

theorem postRetry_eq_error {e : ClientError} :
    client.postRetry network wire decode request s = .error e s' ↔
      client.maxRetries ≠ BitVec.allOnes 64 ∧
      retry (network.elapse client.retryDelay) (client.postOnce network wire decode request)
        client.maxRetries.toNat s = .error e s' := by
  rw [SubsquidClient.postRetry]
  generalize retry _ _ _ s = result
  cases result <;> by_cases hmax : client.maxRetries = BitVec.allOnes 64 <;> simp [-BitVec.reduceAllOnes, hmax]

theorem postRetry_eq_none : client.postRetry network wire decode request s = .ok none s' ↔
    client.maxRetries = BitVec.allOnes 64 ∧ ∃ e,
      retry (network.elapse client.retryDelay) (client.postOnce network wire decode request)
        client.maxRetries.toNat s = .error e s' := by
  rw [SubsquidClient.postRetry]
  generalize retry _ _ _ s = result
  cases result <;> by_cases hmax : client.maxRetries = BitVec.allOnes 64 <;> simp [-BitVec.reduceAllOnes, hmax]

theorem postRetry_ok (h : network.DeliversInTime client decode request s) :
    ∃ data s', client.postRetry network wire decode request s = .ok (some data) s' := by
  obtain ⟨n, hn, data, s', h⟩ := h
  rw [← postOnce_eq_ok, ← before_postOnce] at h
  obtain ⟨data, s', h⟩ := retry_ok hn h
  exact ⟨data, s', postRetry_eq_ok.mpr h⟩

/-- What a request returns was delivered. -/
theorem delivers_of_postRetry (h : client.postRetry network wire decode request s = .ok (some data) s') :
    ∃ s₀, network.Delivers decode client.url request s₀ data s' := by
  obtain ⟨n, -, hok, -⟩ := retry_eq_ok_iff.mp (postRetry_eq_ok.mp h)
  exact ⟨_, postOnce_eq_ok.mp hok⟩

end

/-- A request returns the data of the first of its replies that delivers any, and stops there. If
none within the retry budget does it fails with the error of the last, but for the largest budget,
which it cannot exceed. -/
theorem postRetry_outcome {σ ρ : Type} (client : SubsquidClient) (network : Network σ) (wire : Wire)
    (decode : Bytes → Except String (GraphqlResponse ρ)) (request : GraphqlRequest) (s : σ) :
    (∀ data s', client.postRetry network wire decode request s = .ok (some data) s' ↔
      ∃ n ≤ client.maxRetries.toNat,
        network.Delivers decode client.url request (network.attempt client request s n) data s' ∧
        ∀ i < n, ∀ data s',
          ¬ network.Delivers decode client.url request (network.attempt client request s i) data s') ∧
    (∀ e s', client.postRetry network wire decode request s = .error e s' ↔
      client.maxRetries ≠ BitVec.allOnes 64 ∧
      (∀ i < client.maxRetries.toNat, ∀ data s',
        ¬ network.Delivers decode client.url request (network.attempt client request s i) data s') ∧
      client.postOnce network wire decode request
        (network.attempt client request s client.maxRetries.toNat) = .error e s') ∧
    ((∃ s', client.postRetry network wire decode request s = .ok none s') ↔
      client.maxRetries = BitVec.allOnes 64 ∧ ∀ i ≤ client.maxRetries.toNat, ∀ data s',
        ¬ network.Delivers decode client.url request (network.attempt client request s i) data s') := by
  have hdelivers : ∀ i data s', network.Delivers decode client.url request
      (network.attempt client request s i) data s' ↔ client.postOnce network wire decode request
        (before (network.elapse client.retryDelay) (client.postOnce network wire decode request) s i) =
          .ok data s' := fun i data s' => by
    rw [before_postOnce, postOnce_eq_ok]
  refine ⟨fun data s' => ?_, fun e s' => ?_, ?_⟩
  · rw [postRetry_eq_ok, retry_eq_ok_iff]
    simp only [hdelivers, ne_eq]
  · rw [postRetry_eq_error, retry_eq_error_iff]
    simp only [hdelivers, ne_eq, before_postOnce]
  · simp only [postRetry_eq_none, hdelivers, exists_and_left]
    refine and_congr_right fun _ => ⟨?_, fun h => ?_⟩
    · rintro ⟨s', e, h⟩ i hi data s'' hok
      obtain ⟨data, s'', hok⟩ := retry_ok hi hok
      rw [h] at hok
      cases hok
    · obtain ⟨n, hn, -, -, heq⟩ := retry_eq (network.elapse client.retryDelay)
        (client.postOnce network wire decode request) client.maxRetries.toNat s
      rw [heq]
      cases hm : client.postOnce network wire decode request
        (before (network.elapse client.retryDelay) (client.postOnce network wire decode request) s n) with
      | ok data s' => exact absurd hm (h n hn data s')
      | error e s' => exact ⟨s', e, rfl⟩

/-! ## Pages -/

section
variable {σ : Type} {client : SubsquidClient} {network : Network σ} {wire : Wire} {archive : Archive}

theorem run_bind_eq_ok {ε α β : Type} {m : EStateM ε σ α} {k : α → EStateM ε σ β} {s s'' : σ} {b : β} :
    (m >>= k) s = .ok b s'' ↔ ∃ a s', m s = .ok a s' ∧ k a s' = .ok b s'' := by
  cases h : m s with
  | ok a s' => simp [run_bind_of_ok h]
  | error e s' => simp [run_bind_of_error h]

theorem mapError_state_eq_ok {ε ε' α : Type} {f : ε → ε'} {m : EStateM ε σ α} {s s' : σ} {a : α} :
    mapError f m s = .ok a s' ↔ m s = .ok a s' := by
  cases h : m s <;> simp [mapError, h]

theorem latestBlock_eq_ok {s s' : σ} {target : BlockNumber} :
    client.latestBlock network wire s = .ok (some target) s' ↔ ∃ transactions,
      client.postRetry network wire wire.blockNumber .blockNumber s = .ok (some transactions) s' ∧
        headOf transactions = target := by
  rw [SubsquidClient.latestBlock, mapError_state_eq_ok, run_bind_eq_ok]
  constructor
  · rintro ⟨transactions, s₁, h, hpure⟩
    obtain ⟨hmap, rfl⟩ := EStateM.Result.ok.inj hpure
    obtain ⟨transactions, rfl, hhead⟩ := Option.map_eq_some_iff.mp hmap
    exact ⟨transactions, h, hhead⟩
  · rintro ⟨transactions, h, rfl⟩
    exact ⟨some transactions, s', h, rfl⟩

theorem fetchCommitments_eq_ok {start stop : BlockNumber} {cursor : Option String} {s s' : σ}
    {page : Page} :
    client.fetchPage network wire .commitments start stop cursor s = .ok (some page) s' ↔
      ∃ rows, client.postRetry network wire wire.commitments
        (.commitments (client.source.vars cursor start stop)) s = .ok (some rows) s' ∧
        commitmentsPage rows = some page := by
  rw [SubsquidClient.fetchPage, mapError_state_eq_ok, run_bind_eq_ok]
  constructor
  · rintro ⟨rows, s₁, h, hpure⟩
    obtain ⟨hbind, rfl⟩ := EStateM.Result.ok.inj hpure
    obtain ⟨rows, rfl, hpage⟩ := Option.bind_eq_some_iff.mp hbind
    exact ⟨rows, h, hpage⟩
  · rintro ⟨rows, h, hpage⟩
    exact ⟨some rows, s', h, congrArg (EStateM.Result.ok · s') hpage⟩

theorem fetchNullifiers_eq_ok {start stop : BlockNumber} {cursor : Option String} {s s' : σ}
    {page : Page} :
    client.fetchPage network wire .nullifiers start stop cursor s = .ok (some page) s' ↔
      ∃ rows, client.postRetry network wire wire.nullifiers
        (.nullifiers (client.source.vars cursor start stop)) s = .ok (some rows) s' ∧
        nullifiersPage rows = page := by
  rw [SubsquidClient.fetchPage, mapError_state_eq_ok, run_bind_eq_ok]
  constructor
  · rintro ⟨rows, s₁, h, hpure⟩
    obtain ⟨hmap, rfl⟩ := EStateM.Result.ok.inj hpure
    obtain ⟨rows, rfl, hpage⟩ := Option.map_eq_some_iff.mp hmap
    exact ⟨rows, h, hpage⟩
  · rintro ⟨rows, h, rfl⟩
    exact ⟨some rows, s', h, rfl⟩

theorem head_le (hhonest : network.Honest wire archive) {s s' : σ} {target : BlockNumber}
    (h : client.latestBlock network wire s = .ok (some target) s') : target ≤ archive.head := by
  obtain ⟨transactions, hpost, rfl⟩ := latestBlock_eq_ok.mp h
  obtain ⟨s₀, hdelivers⟩ := delivers_of_postRetry hpost
  exact hhonest.blockNumber hdelivers

/-- Over an honest network the client's pages are those of a source over the archive. -/
theorem fetchPage_refines (hhonest : network.Honest wire archive) {stream : EventStream}
    {start stop : BlockNumber} {cursor : Option String} {s s' : σ} {page : Page}
    (h : client.fetchPage network wire stream start stop cursor s = .ok (some page) s') :
    (client.source.eventSource archive.indexer).fetchPage stream start stop cursor page := by
  cases stream with
  | commitments =>
    obtain ⟨rows, hpost, hpage⟩ := fetchCommitments_eq_ok.mp h
    obtain ⟨s₀, hdelivers⟩ := delivers_of_postRetry hpost
    exact ⟨rows, hhonest.commitments hdelivers, hpage⟩
  | nullifiers =>
    obtain ⟨rows, hpost, hpage⟩ := fetchNullifiers_eq_ok.mp h
    obtain ⟨s₀, hdelivers⟩ := delivers_of_postRetry hpost
    exact ⟨rows, hhonest.nullifiers hdelivers, hpage⟩

end

/-! ## The archive's events -/

theorem take_one_isPage {ρ κ : Type} [LinearOrder κ] (key : ρ → κ) (rows : List ρ) {limit : Nat} (k : κ)
    (h : 0 < limit) : IsPage key rows limit k ((after key rows k).take 1) where
  first := List.take_prefix ..
  length_le := by
    rw [List.length_take]
    omega
  some_left hne he := hne ((List.take_eq_nil_iff.mp he).resolve_left (by decide))

theorem archive_serves_commitments (archive : Archive) :
    archive.commitments.Serves archive.indexer.commitments where
  page h := h
  answered _ hlimit := ⟨_, take_one_isPage _ _ _ hlimit⟩

theorem archive_serves_nullifiers (archive : Archive) :
    archive.nullifiers.Serves archive.indexer.nullifiers where
  page h := h
  answered _ hlimit := ⟨_, take_one_isPage _ _ _ hlimit⟩

theorem mem_within {ρ : Type} {name : ρ → String} {table : IndexerTable ρ name} {start stop : BlockNumber}
    {row : ρ} : row ∈ table.within start stop ↔
      ∃ block, (block, row) ∈ table.rows ∧ start ≤ block ∧ block ≤ stop := by
  simp [IndexerTable.within]

/-- The events of some rows are those that one of them maps to. -/
theorem mem_commitmentEvents : ∀ {rows : List CommitmentRow} {events : List SyncEvent},
    commitmentEvents rows = some events → ∀ event,
      event ∈ events ↔ ∃ row ∈ rows, mapCommitment row = some (some event)
  | [], events, h, event => by
    obtain rfl : [] = events := Option.some.inj h
    simp
  | row :: rows, events, h, event => by
    rw [show row :: rows = [row] ++ rows from rfl, commitmentEvents_append, Option.bind_eq_some_iff] at h
    obtain ⟨first, hfirst, h⟩ := h
    obtain ⟨rest, hrest, rfl⟩ := Option.map_eq_some_iff.mp h
    have hrow : event ∈ first ↔ mapCommitment row = some (some event) := by
      rw [commitmentEvents, List.mapM_cons] at hfirst
      cases hmap : mapCommitment row with
      | none => simp [hmap] at hfirst
      | some kept =>
        simp only [hmap, List.mapM_nil, Option.bind_eq_bind, Option.bind_some, Option.pure_def,
          Option.map_some, Option.some.injEq] at hfirst
        subst hfirst
        cases kept <;> simp [eq_comm]
    rw [List.mem_append, hrow, mem_commitmentEvents hrest, List.exists_mem_cons_iff]

/-- A source over the archive yields its events. -/
theorem archive_yields (source : SubsquidSource) (archive : Archive) :
    (source.eventSource archive.indexer).Yields archive.chain := by
  intro stream start stop events _ h event
  cases stream with
  | commitments =>
    have hevents := drain_sound (pagesOf_commitments source (archive_serves_commitments archive) start stop)
      (archive.commitments.within_ascending start stop) commitmentEvents_append h
    rw [Option.getD_none, archive.commitments.after_start] at hevents
    rw [mem_commitmentEvents hevents]
    simp only [mem_within, Archive.chain, List.mem_filterMap, Option.map_eq_some_iff, Option.join_eq_some_iff]
    constructor
    · rintro ⟨row, ⟨block, hmem, hlo, hhi⟩, hrow⟩
      exact ⟨block, ⟨_, hmem, event, hrow, rfl⟩, hlo, hhi⟩
    · rintro ⟨block, ⟨r, hmem, event', hrow, heq⟩, hlo, hhi⟩
      obtain ⟨rfl, rfl⟩ := Prod.mk.inj heq
      exact ⟨r.2, ⟨r.1, hmem, hlo, hhi⟩, hrow⟩
  | nullifiers =>
    have hevents := drain_sound (f := fun rows => some (rows.map mapNullifier))
      (pagesOf_nullifiers source (archive_serves_nullifiers archive) start stop)
      (archive.nullifiers.within_ascending start stop) (fun a b => congrArg some List.map_append) h
    rw [Option.getD_none, archive.nullifiers.after_start] at hevents
    rw [← Option.some.inj hevents]
    simp only [List.mem_map, mem_within, Archive.chain]
    constructor
    · rintro ⟨row, ⟨block, hmem, hlo, hhi⟩, rfl⟩
      exact ⟨block, ⟨_, hmem, rfl⟩, hlo, hhi⟩
    · rintro ⟨block, ⟨r, hmem, heq⟩, hlo, hhi⟩
      obtain ⟨rfl, rfl⟩ := Prod.mk.inj heq
      exact ⟨r.2, ⟨r.1, hmem, hlo, hhi⟩, rfl⟩

theorem archive_drains (source : SubsquidSource) (archive : Archive) :
    (source.eventSource archive.indexer).Drains := fun stream start stop => by
  cases stream with
  | commitments =>
    exact acc_follows (pagesOf_commitments source (archive_serves_commitments archive) start stop)
      (archive.commitments.within_ascending start stop) none
  | nullifiers =>
    exact acc_follows (pagesOf_nullifiers source (archive_serves_nullifiers archive) start stop)
      (archive.nullifiers.within_ascending start stop) none

/-! ## A network that loses every other request -/

/-- A shield of 7 at the first leaf of a tree. -/
def shieldRow (id : String) (block : U64) (tree : U32) : CommitmentRow :=
  ⟨id, block, 0, tree, 0, .shieldCommitment ⟨.replicate 32 0, 7, ⟨.replicate 20 0, .erc20⟩⟩
    (.replicate 32 0) [.replicate 32 0, .replicate 32 0]⟩

/-- Two shields, and a nullifier in the tree of the first. -/
def smallArchive : Archive where
  commitments := {
    rows := [(4, shieldRow "a" 4 0), (6, shieldRow "ab" 6 1)]
    ascending := by
      simp only [List.pairwise_cons]
      decide
    named := by decide }
  nullifiers := ⟨[(7, ⟨"c", 0, 0⟩)], List.pairwise_singleton .., by decide⟩
  head := 9

def braces (text : String) : String := "\x7b" ++ text ++ "\x7d"

def quoted (text : String) : String := "\"" ++ text ++ "\""

def zeroHex (n : Nat) : String := quoted ("0x" ++ String.ofList (List.replicate (2 * n) '0'))

/-- A response with a list of rows. -/
def dataBody (field rows : String) : Bytes :=
  Ascii.utf8 (braces ("\"data\":" ++ braces ("\"" ++ field ++ "\":[" ++ rows ++ "]")))

def rowText (row : CommitmentRow) : String := braces <|
  "\"__typename\":\"ShieldCommitment\",\"blockNumber\":" ++ quoted row.blockNumber.toNat.repr ++
  ",\"id\":" ++ quoted row.id ++ ",\"hash\":\"0\",\"treeNumber\":" ++ row.treeNumber.toNat.repr ++
  ",\"treePosition\":0,\"preimage\":" ++ braces ("\"value\":\"7\",\"token\":" ++
    braces ("\"tokenAddress\":" ++ zeroHex 20 ++ ",\"tokenSubID\":\"0\",\"tokenType\":\"ERC20\"") ++
    ",\"npk\":" ++ zeroHex 32) ++
  ",\"shieldKey\":" ++ zeroHex 32 ++ ",\"encryptedBundle\":[" ++ zeroHex 32 ++ "," ++ zeroHex 32 ++ "]"

def spentText : String := braces <|
  "\"id\":\"c\",\"nullifier\":\"0x0\",\"treeNumber\":0,\"blockNumber\":\"7\""

def headBody : Bytes := dataBody "transactions" (braces "\"blockNumber\":\"9\"")

/-- What is read from these bodies. -/
def smallWire : Wire where
  text bytes := String.ofList (bytes.map Ascii.char)
  commitments bytes :=
    if bytes = dataBody "commitments" "" then .ok ⟨some [], none⟩
    else if bytes = dataBody "commitments" (rowText (shieldRow "a" 4 0)) then
      .ok ⟨some [shieldRow "a" 4 0], none⟩
    else if bytes = dataBody "commitments" (rowText (shieldRow "ab" 6 1)) then
      .ok ⟨some [shieldRow "ab" 6 1], none⟩
    else .error "error decoding response body"
  nullifiers bytes :=
    if bytes = dataBody "nullifiers" "" then .ok ⟨some [], none⟩
    else if bytes = dataBody "nullifiers" spentText then .ok ⟨some [⟨"c", 0, 0⟩], none⟩
    else .error "error decoding response body"
  blockNumber bytes :=
    if bytes = headBody then .ok ⟨some [⟨9⟩], none⟩ else .error "error decoding response body"
  showStatus status := toString status.toNat

/-- The reply to a request: a page of one row, as far as there is one. -/
def smallReply : GraphqlRequest → Response
  | .commitments vars =>
    if vars.limit = 0 then ⟨400, .ok []⟩
    else match (after CommitmentRow.id (smallArchive.commitments.within vars.blockNumberGte vars.blockNumberLte)
      vars.idGt).head? with
    | some row => ⟨200, .ok (dataBody "commitments" (rowText row))⟩
    | none => ⟨200, .ok (dataBody "commitments" "")⟩
  | .nullifiers vars =>
    if vars.limit = 0 then ⟨400, .ok []⟩
    else match (after NullifierRow.id (smallArchive.nullifiers.within vars.blockNumberGte vars.blockNumberLte)
      vars.idGt).head? with
    | some _ => ⟨200, .ok (dataBody "nullifiers" spentText)⟩
    | none => ⟨200, .ok (dataBody "nullifiers" "")⟩
  | .blockNumber => ⟨200, .ok headBody⟩

/-- Its state counts the requests. -/
def lossy : Network Nat where
  post _ request s := if s % 2 = 0 then .error "connection reset" (s + 1) else .ok (smallReply request) (s + 1)
  elapse _ s := s

theorem lossy_delivers {ρ : Type} {decode : Bytes → Except String (GraphqlResponse ρ)} {url : String}
    {request : GraphqlRequest} {s s' : Nat} {data : ρ} :
    lossy.Delivers decode url request s data s' ↔
      s % 2 ≠ 0 ∧ s' = s + 1 ∧ (smallReply request).Delivers decode data := by
  rw [Network.Delivers, lossy]
  by_cases hs : s % 2 = 0 <;> simp [hs, eq_comm]

/-- A body that can be read delivers what is read from it. -/
theorem delivers_body {ρ : Type} {decode : Bytes → Except String (GraphqlResponse ρ)} {bytes : Bytes}
    {data data' : ρ} (h : decode bytes = .ok ⟨some data, none⟩) :
    (Response.mk 200 (.ok bytes)).Delivers decode data' ↔ data' = data := by
  constructor
  · rintro ⟨-, bytes', hbytes, hdecode⟩
    obtain rfl := Except.ok.inj hbytes
    rw [h] at hdecode
    exact (Option.some.inj (GraphqlResponse.mk.inj (Except.ok.inj hdecode)).1).symm
  · rintro rfl
    exact ⟨show StatusCode.isSuccess 200 = true by decide, bytes, rfl, h⟩

theorem decode_none : smallWire.commitments (dataBody "commitments" "") = .ok ⟨some [], none⟩ := by
  simp only [smallWire, if_true]

theorem decode_row {row : CommitmentRow} (h : row = shieldRow "a" 4 0 ∨ row = shieldRow "ab" 6 1) :
    smallWire.commitments (dataBody "commitments" (rowText row)) = .ok ⟨some [row], none⟩ := by
  rcases h with rfl | rfl
  · have hnone : dataBody "commitments" (rowText (shieldRow "a" 4 0)) ≠ dataBody "commitments" "" :=
      fun he => absurd (congrArg List.length he) (by decide +kernel)
    simp only [smallWire, if_neg hnone, if_true]
  · have hnone : dataBody "commitments" (rowText (shieldRow "ab" 6 1)) ≠ dataBody "commitments" "" :=
      fun he => absurd (congrArg List.length he) (by decide +kernel)
    have hother : dataBody "commitments" (rowText (shieldRow "ab" 6 1)) ≠
        dataBody "commitments" (rowText (shieldRow "a" 4 0)) :=
      fun he => absurd (congrArg List.length he) (by decide +kernel)
    simp only [smallWire, if_neg hnone, if_neg hother, if_true]

theorem decode_noNullifiers : smallWire.nullifiers (dataBody "nullifiers" "") = .ok ⟨some [], none⟩ := by
  simp only [smallWire, if_true]

theorem decode_spent : smallWire.nullifiers (dataBody "nullifiers" spentText) = .ok ⟨some [⟨"c", 0, 0⟩], none⟩ := by
  have hne : dataBody "nullifiers" spentText ≠ dataBody "nullifiers" "" := fun h =>
    absurd (congrArg List.length h) (by decide +kernel)
  simp only [smallWire, if_neg hne, if_true]

theorem decode_head : smallWire.blockNumber headBody = .ok ⟨some [⟨9⟩], none⟩ := by
  simp only [smallWire, if_true]

/-- What is left of a table's rows has rows of the table. -/
theorem mem_of_head {ρ : Type} {name : ρ → String} {table : IndexerTable ρ name} {start stop : BlockNumber}
    {k : String} {row : ρ} (h : (after name (table.within start stop) k).head? = some row) :
    row ∈ table.rows.map (·.2) := by
  have hmem : row ∈ table.within start stop := List.mem_of_mem_filter (List.mem_of_mem_head? h)
  obtain ⟨block, hrow, -, -⟩ := mem_within.mp hmem
  exact List.mem_map.mpr ⟨_, hrow, rfl⟩

theorem take_one_eq_toList {α : Type} (l : List α) : l.take 1 = l.head?.toList := by
  cases l <;> rfl

theorem reply_commitments {vars : QueryVars} {rows : List CommitmentRow} :
    (smallReply (.commitments vars)).Delivers smallWire.commitments rows ↔ vars.limit ≠ 0 ∧
      rows = (after CommitmentRow.id
        (smallArchive.commitments.within vars.blockNumberGte vars.blockNumberLte) vars.idGt).take 1 := by
  rw [smallReply, take_one_eq_toList]
  by_cases hlimit : vars.limit = 0
  · rw [if_pos hlimit]
    exact iff_of_false (fun h => absurd h.1 (by decide)) fun h => h.1 hlimit
  rw [if_neg hlimit, and_iff_right hlimit]
  cases h : (after CommitmentRow.id
    (smallArchive.commitments.within vars.blockNumberGte vars.blockNumberLte) vars.idGt).head? with
  | none => exact delivers_body decode_none
  | some row => exact delivers_body (decode_row (by simpa [smallArchive] using mem_of_head h))

theorem reply_nullifiers {vars : QueryVars} {rows : List NullifierRow} :
    (smallReply (.nullifiers vars)).Delivers smallWire.nullifiers rows ↔ vars.limit ≠ 0 ∧
      rows = (after NullifierRow.id
        (smallArchive.nullifiers.within vars.blockNumberGte vars.blockNumberLte) vars.idGt).take 1 := by
  rw [smallReply, take_one_eq_toList]
  by_cases hlimit : vars.limit = 0
  · rw [if_pos hlimit]
    exact iff_of_false (fun h => absurd h.1 (by decide)) fun h => h.1 hlimit
  rw [if_neg hlimit, and_iff_right hlimit]
  cases h : (after NullifierRow.id
    (smallArchive.nullifiers.within vars.blockNumberGte vars.blockNumberLte) vars.idGt).head? with
  | none => exact delivers_body decode_noNullifiers
  | some row =>
    obtain rfl : row = ⟨"c", 0, 0⟩ := by simpa [smallArchive] using mem_of_head h
    exact delivers_body decode_spent

theorem reply_blockNumber {transactions : List BlockRow} :
    (smallReply .blockNumber).Delivers smallWire.blockNumber transactions ↔ transactions = [⟨9⟩] :=
  delivers_body decode_head

theorem lossy_honest : lossy.Honest smallWire smallArchive where
  commitments h := by
    obtain ⟨-, -, h⟩ := lossy_delivers.mp h
    obtain ⟨hlimit, rfl⟩ := reply_commitments.mp h
    exact take_one_isPage _ _ _ (Nat.pos_of_ne_zero fun h => hlimit (BitVec.eq_of_toNat_eq h))
  nullifiers h := by
    obtain ⟨-, -, h⟩ := lossy_delivers.mp h
    obtain ⟨hlimit, rfl⟩ := reply_nullifiers.mp h
    exact take_one_isPage _ _ _ (Nat.pos_of_ne_zero fun h => hlimit (BitVec.eq_of_toNat_eq h))
  blockNumber h := by
    obtain ⟨-, -, h⟩ := lossy_delivers.mp h
    obtain rfl := reply_blockNumber.mp h
    exact BitVec.le_refl _

/-- With one retry every request is delivered. -/
theorem lossy_inTime {ρ : Type} {client : SubsquidClient} (hclient : 1 ≤ client.maxRetries.toNat)
    {decode : Bytes → Except String (GraphqlResponse ρ)} {request : GraphqlRequest} {data : ρ}
    (h : (smallReply request).Delivers decode data) (s : Nat) :
    lossy.DeliversInTime client decode request s := by
  by_cases hs : s % 2 = 0
  · refine ⟨1, hclient, data, s + 2, lossy_delivers.mpr ?_⟩
    have hattempt : lossy.attempt client request s 1 = s + 1 := by
      rw [Network.attempt, before, before, lossy]
      simp [hs, stateOf]
    rw [hattempt]
    exact ⟨by omega, rfl, h⟩
  · exact ⟨0, Nat.zero_le _, data, s + 1, lossy_delivers.mpr ⟨hs, rfl, h⟩⟩

theorem one_le_maxRetries (url : String) : 1 ≤ (SubsquidClient.new url).maxRetries.toNat :=
  show 1 ≤ defaultMaxRetries.toNat by decide

theorem lossy_reliable (url : String) : lossy.Reliable smallWire smallArchive (.new url) where
  commitments vars s hlimit := lossy_inTime (one_le_maxRetries url)
    (reply_commitments.mpr ⟨fun h => absurd hlimit (by rw [h]; decide), rfl⟩) s
  nullifiers vars s hlimit := lossy_inTime (one_le_maxRetries url)
    (reply_nullifiers.mpr ⟨fun h => absurd hlimit (by rw [h]; decide), rfl⟩) s
  blockNumber s := lossy_inTime (one_le_maxRetries url) (reply_blockNumber.mpr rfl) s
  current h := by
    obtain ⟨-, -, h⟩ := lossy_delivers.mp h
    obtain rfl := reply_blockNumber.mp h
    rfl

end Railgun
