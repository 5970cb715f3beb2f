import Railgun.Framework.Height
import Railgun.Impl.Tables

/-!
# The forest

What the commitments table is for: a forest of append-anywhere trees, a set of
spent nullifiers a tree, and the last block synced. A position holds the first
node put there; putting it there again changes nothing, and putting another
one there is refused. Lengths and the tree count are heights, not counters:
one past the highest position or tree that holds a node.
-/

namespace Railgun

open Height

/-- A node the table takes: its record can be written. -/
abbrev Admissible (node : Node) : Prop := (encodeNode node).isSome

/-- A shield of zero fields. -/
def bareNode (position : NodePosition) (hash : CommitmentHash) : Node :=
  ⟨position, hash, 0, .shield ⟨0, .erc20 (.replicate 20 0), 0, [], .replicate 32 0⟩⟩

/-- A forest: nodes by tree and position, nullifiers, and the watermark. -/
@[ext] structure Forest where
  node : U32 → Nat → Option Node
  nullified : U32 → Nullifier → Bool
  synced : Option BlockNumber
  placed : ∀ {t p n}, node t p = some n →
    n.position.treeNumber = t ∧ n.position.leafIndex.toNat = p
  admissible : ∀ {t p n}, node t p = some n → Admissible n

namespace Forest

def empty : Forest where
  node _ _ := none
  nullified _ _ := false
  synced := none
  placed h := nomatch h
  admissible h := nomatch h

/-- The node at the place of `n`. -/
def nodeAt (F : Forest) (n : Node) : Option Node :=
  F.node n.position.treeNumber n.position.leafIndex.toNat

/-- Puts a node in its place. -/
def store (F : Forest) (n : Node) (h : Admissible n) : Forest where
  node t p :=
    if t = n.position.treeNumber ∧ p = n.position.leafIndex.toNat then some n else F.node t p
  nullified := F.nullified
  synced := F.synced
  placed {t p m} hm := by
    split at hm
    · rename_i he
      cases hm
      exact ⟨he.1.symm, he.2.symm⟩
    · exact F.placed hm
  admissible {t p m} hm := by
    split at hm
    · cases hm
      exact h
    · exact F.admissible hm

def insertNullifier (F : Forest) (x : Nullified) : Forest where
  node := F.node
  nullified t y := if t = x.treeNumber ∧ y = x.nullifier then true else F.nullified t y
  synced := F.synced
  placed := F.placed
  admissible := F.admissible

def setSyncedBlock (F : Forest) (block : BlockNumber) : Forest where
  node := F.node
  nullified := F.nullified
  synced := some block
  placed := F.placed
  admissible := F.admissible

/-- Inserts a node: into a free place, or over itself. -/
def insertNode (F : Forest) (n : Node) : Except DatabaseError Unit × Forest :=
  if h : Admissible n then
    match F.nodeAt n with
    | none => (.ok (), F.store n h)
    | some m =>
      if m = n then (.ok (), F)
      else (.error (.commitmentConflict n.position.treeNumber n.position.leafIndex), F)
  else (.error (.panicked "stored blob length fits in u32"), F)

/-- One past the highest position of a tree that holds a node. -/
noncomputable def length (F : Forest) (t : U32) : Nat := height fun p => (F.node t p).isSome

/-- Tree `k` holds a node, and has a number after it: one past the last number
the count wraps to zero. -/
def HasTree (F : Forest) (k : Nat) : Prop :=
  ∃ t : U32, t.toNat = k ∧ t < BitVec.allOnes 32 ∧ ∃ p, (F.node t p).isSome

/-- One past the highest tree that holds a node. -/
noncomputable def count (F : Forest) : Nat := height F.HasTree

theorem isHeight_length (F : Forest) (t : U32) :
    IsHeight (fun p => (F.node t p).isSome) (F.length t) :=
  isHeight_height (b := 65536) fun p hp => by
    obtain ⟨n, hn⟩ := Option.isSome_iff_exists.mp hp
    rw [← (F.placed hn).2]
    exact n.position.leaf_lt

theorem lt_length {F : Forest} {t : U32} {p : Nat} {n : Node} (h : F.node t p = some n) :
    p < F.length t :=
  (F.isHeight_length t).lt p (by rw [h]; rfl)

theorem isHeight_count (F : Forest) : IsHeight F.HasTree F.count :=
  isHeight_height (b := 2 ^ 32) fun _ ⟨t, ht, _⟩ => ht ▸ t.isLt

theorem hasTree_lt {F : Forest} {k : Nat} (h : F.HasTree k) : k < 2 ^ 32 - 1 := by
  obtain ⟨t, rfl, ht, -⟩ := h
  exact ht

theorem length_le (F : Forest) (t : U32) : F.length t ≤ 65536 := by
  rcases (F.isHeight_length t).top with h | h
  · omega
  · obtain ⟨n, hn⟩ := Option.isSome_iff_exists.mp h
    have := n.position.leaf_lt
    rw [(F.placed hn).2] at this
    omega

theorem count_lt (F : Forest) : F.count < 2 ^ 32 := by
  rcases F.isHeight_count.top with h | h
  · omega
  · have := hasTree_lt h
    omega

/-- Storing raises a tree's length to cover the new node. -/
theorem length_store (F : Forest) (n : Node) (h : Admissible n) (t : U32) :
    (F.store n h).length t =
      if t = n.position.treeNumber then max (F.length t) (n.position.leafIndex.toNat + 1)
      else F.length t := by
  split
  · rename_i ht
    refine height_eq ((F.isHeight_length t).insert fun q => ?_)
    simp only [store, ht, true_and]
    split <;> simp [*]
  · rename_i ht
    simp only [length, store, ht, false_and, if_false]

theorem hasTree_store {F : Forest} {n : Node} {h : Admissible n} {k : Nat} :
    (F.store n h).HasTree k ↔
      k = n.position.treeNumber.toNat ∧ n.position.treeNumber < BitVec.allOnes 32 ∨ F.HasTree k := by
  simp only [HasTree, store]
  constructor
  · rintro ⟨t, rfl, ht, p, hp⟩
    split at hp
    · rename_i he
      exact .inl (by rw [← he.1]; exact ⟨rfl, ht⟩)
    · exact .inr ⟨t, rfl, ht, p, hp⟩
  · rintro (⟨rfl, ht⟩ | ⟨t, rfl, ht, p, hp⟩)
    · exact ⟨_, rfl, ht, n.position.leafIndex.toNat, by simp⟩
    · exact ⟨t, rfl, ht, p, by split <;> simp [hp]⟩

/-- Storing raises the tree count to cover the new node's tree. -/
theorem count_store (F : Forest) (n : Node) (h : Admissible n) :
    (F.store n h).count = max F.count (n.position.treeNumber + 1).toNat := by
  by_cases ht : n.position.treeNumber < BitVec.allOnes 32
  · have hsucc : (n.position.treeNumber + 1).toNat = n.position.treeNumber.toNat + 1 := by
      have : n.position.treeNumber.toNat < 2 ^ 32 - 1 := ht
      rw [BitVec.toNat_add]
      exact Nat.mod_eq_of_lt (show n.position.treeNumber.toNat + 1 < 2 ^ 32 by omega)
    rw [hsucc]
    exact height_eq (F.isHeight_count.insert fun k => hasTree_store.trans (by simp only [ht, and_true]))
  · have hlast : n.position.treeNumber + 1 = 0 := by
      have : n.position.treeNumber = BitVec.allOnes 32 := by
        refine BitVec.eq_of_toNat_eq ?_
        have hlt := n.position.treeNumber.isLt
        have hge : ¬ n.position.treeNumber.toNat < 2 ^ 32 - 1 := ht
        simp only [BitVec.toNat_allOnes]
        omega
      rw [this]
      rfl
    rw [hlast]
    refine (congrArg height (funext fun k => propext (hasTree_store.trans ?_))).trans
      (Nat.max_zero _).symm
    simp only [ht, and_false, false_or]

/-! ### Forests over forests -/

/-- All that `F` holds, `G` holds. -/
structure Within (F G : Forest) : Prop where
  node : ∀ {t p n}, F.node t p = some n → G.node t p = some n
  nullified : ∀ {t x}, F.nullified t x = true → G.nullified t x = true

theorem Within.refl (F : Forest) : F.Within F := ⟨id, id⟩

theorem Within.trans {F G H : Forest} (hFG : F.Within G) (hGH : G.Within H) : F.Within H :=
  ⟨fun h => hGH.node (hFG.node h), fun h => hGH.nullified (hFG.nullified h)⟩

theorem Within.length_le {F G : Forest} (h : F.Within G) (t : U32) : F.length t ≤ G.length t :=
  (F.isHeight_length t).mono (G.isHeight_length t) fun p hp => by
    obtain ⟨n, hn⟩ := Option.isSome_iff_exists.mp hp
    rw [h.node hn]
    rfl

theorem Within.count_le {F G : Forest} (h : F.Within G) : F.count ≤ G.count :=
  F.isHeight_count.mono G.isHeight_count fun k ⟨t, ht, hlt, p, hp⟩ => by
    obtain ⟨n, hn⟩ := Option.isSome_iff_exists.mp hp
    exact ⟨t, ht, hlt, p, by rw [h.node hn]; rfl⟩

/-- What either holds; where both hold a node, or have a watermark, the first's. -/
def join (F G : Forest) : Forest where
  node t p := (F.node t p).or (G.node t p)
  nullified t x := F.nullified t x || G.nullified t x
  synced := F.synced.or G.synced
  placed h := (Option.or_eq_some_iff.mp h).elim F.placed fun h => G.placed h.2
  admissible h := (Option.or_eq_some_iff.mp h).elim F.admissible fun h => G.admissible h.2

/-- A forest is within its join with another that has no other nodes in its places. -/
theorem within_join {F G : Forest} (h : ∀ {t p n m}, F.node t p = some n → G.node t p = some m → m = n) :
    G.Within (F.join G) where
  node {t p m} hm := by
    simp only [join]
    cases hn : F.node t p with
    | none => exact hm
    | some n => exact congrArg some (h hn hm).symm
  nullified hx := by simp [join, hx]

theorem length_join (F G : Forest) (t : U32) : (F.join G).length t = max (F.length t) (G.length t) :=
  height_eq ((F.isHeight_length t).union (G.isHeight_length t) fun q => by
    simp only [join, Option.isSome_or, Bool.or_eq_true])

theorem count_join (F G : Forest) : (F.join G).count = max F.count G.count := by
  refine height_eq (F.isHeight_count.union G.isHeight_count fun k => ?_)
  simp only [HasTree, join, Option.isSome_or, Bool.or_eq_true]
  constructor
  · rintro ⟨t, rfl, ht, p, hp | hp⟩
    · exact .inl ⟨t, rfl, ht, p, hp⟩
    · exact .inr ⟨t, rfl, ht, p, hp⟩
  · rintro (⟨t, rfl, ht, p, hp⟩ | ⟨t, rfl, ht, p, hp⟩)
    · exact ⟨t, rfl, ht, p, .inl hp⟩
    · exact ⟨t, rfl, ht, p, .inr hp⟩

/-- The nodes of a tree, in position order. -/
def leaves (F : Forest) (t : U32) : List Node := (List.range 65536).filterMap (F.node t)

theorem mem_leaves {F : Forest} {t : U32} {n : Node} :
    n ∈ F.leaves t ↔ F.node t n.position.leafIndex.toNat = some n := by
  rw [leaves, List.mem_filterMap]
  constructor
  · rintro ⟨p, -, hp⟩
    rwa [(F.placed hp).2]
  · exact fun h => ⟨_, List.mem_range.mpr n.position.leaf_lt, h⟩

/-- Strictly ascending positions. -/
theorem leaves_ascending (F : Forest) (t : U32) :
    (F.leaves t).Pairwise fun m n => m.position.leafIndex < n.position.leafIndex := by
  refine List.Pairwise.filterMap _ (fun p q hpq m hm n hn => ?_) List.pairwise_lt_range
  rw [BitVec.lt_def, (F.placed hm).2, (F.placed hn).2]
  exact hpq

end Forest

/-! ## Histories -/

/-- A typed mutation of the commitments table. -/
inductive Write
  | node (node : Node)
  | nullifier (nullified : Nullified)
  | synced (block : BlockNumber)
  deriving DecidableEq

/-- An inserted node's tree is not the last number. -/
def Write.InRange : Write → Prop
  | .node n => n.position.treeNumber < BitVec.allOnes 32
  | _ => True

instance Write.decidableInRange (write : Write) : Decidable write.InRange := by
  cases write <;> unfold Write.InRange <;> infer_instance

/-- The mutation, made to a store. -/
def Write.mutate {W : Type} [Reader W] [Writer W] : Write → EStateM DatabaseError W Unit
  | .node n => CommitmentsMut.insertNode n
  | .nullifier x => CommitmentsMut.insertNullifier x
  | .synced block => CommitmentsMut.setSyncedBlock block

/-- The mutation, made to a forest. -/
def Forest.write (F : Forest) : Write → Except DatabaseError Unit × Forest
  | .node n => F.insertNode n
  | .nullifier x => (.ok (), F.insertNullifier x)
  | .synced block => (.ok (), F.setSyncedBlock block)

/-- A computation's answer, and the store it leaves. -/
def answering {ε σ α : Type} (m : EStateM ε σ α) (s : σ) : Except ε α × σ :=
  match m s with
  | .ok value s => (.ok value, s)
  | .error error s => (.error error, s)

/-- Mutations of a store, one after the other whatever each returns. -/
def runWrites {W : Type} [Reader W] [Writer W] (w : W) :
    List Write → List (Except DatabaseError Unit) × W
  | [] => ([], w)
  | write :: writes =>
    let (answer, w) := answering write.mutate w
    let (answers, w) := runWrites w writes
    (answer :: answers, w)

def Forest.run (F : Forest) : List Write → List (Except DatabaseError Unit) × Forest
  | [] => ([], F)
  | write :: writes =>
    let (answer, F) := F.write write
    let (answers, F) := F.run writes
    (answer :: answers, F)

/-- The first node put at a position. -/
def firstNode (t p : U32) : List Write → Option Node
  | [] => none
  | .node n :: writes =>
    if n.position.treeNumber = t ∧ n.position.leafIndex = p ∧ (encodeNode n).isSome then some n
    else firstNode t p writes
  | _ :: writes => firstNode t p writes

/-- The last watermark set. -/
def lastSynced : List Write → Option BlockNumber
  | [] => none
  | .synced block :: writes => (lastSynced writes).or (some block)
  | _ :: writes => lastSynced writes

end Railgun
