import Railgun.Impl.Address

/-!
# The string form of addresses

The payload holds the seven low bytes of a chain id, so a parsed address is the
one that was shown, up to the rest of its chain id (`fromStr_toString`). The
decoder accepts either checksum and any left-over bits: a string that is
accepted is the one its address is shown as exactly when it carries the bech32m
checksum and only zeros, less than a symbol, are left over (`canonical_iff`).
-/

namespace Railgun

open BigEndian Outcome Regroup

/-! ## Network ids -/

/-- The seven bytes of the network id hold the chain id. -/
def ChainId.Fits : ChainId → Prop
  | .all => True
  | .evm id => id.toNat < 2 ^ 56

/-- What a network id holds of a chain hint. -/
def ChainId.masked : ChainId → ChainId
  | .all => .all
  | .evm id => .evm (id &&& 0x00ffffffffffffff)

theorem toNat_and_mask (id : U64) : (id &&& 0x00ffffffffffffff).toNat = id.toNat % 2 ^ 56 := by
  rw [BitVec.toNat_and]
  exact Nat.and_two_pow_sub_one_eq_mod id.toNat 56

theorem and_mask_eq_iff {id : U64} : id &&& 0x00ffffffffffffff = id ↔ id.toNat < 2 ^ 56 := by
  have hlt := id.isLt
  rw [← BitVec.toNat_inj, toNat_and_mask]
  omega

theorem ChainId.masked_eq_iff {chain : ChainId} : chain.masked = chain ↔ chain.Fits := by
  cases chain with
  | all => exact ⟨fun _ => trivial, fun _ => rfl⟩
  | evm id => rw [masked, ChainId.evm.injEq, and_mask_eq_iff, Fits]

theorem ChainId.fits_masked (chain : ChainId) : chain.masked.Fits := by
  cases chain with
  | all => trivial
  | evm id =>
    rw [masked, Fits, toNat_and_mask]
    exact Nat.mod_lt _ (by decide)

theorem ChainId.toNetworkId_masked (chain : ChainId) : chain.masked.toNetworkId = chain.toNetworkId := by
  cases chain with
  | all => rfl
  | evm id =>
    have := and_mask_eq_iff.mpr (fits_masked (.evm id))
    simp only [masked, toNetworkId, this]

/-- The mask is its own inverse. -/
theorem xorNetworkId_xorNetworkId (bytes : ByteArr 8) : xorNetworkId (xorNetworkId bytes) = bytes := by
  have hlen : bytes.1.length = networkIdXorKey.length := bytes.2
  refine Subtype.ext (List.ext_getElem ?_ fun i _ _ => ?_)
  · simp [xorNetworkId, hlen]
  · simp only [xorNetworkId, List.getElem_zipWith, BitVec.xor_assoc, BitVec.xor_self,
      BitVec.xor_zero]

/-- The type byte is zero when the other seven hold the number. -/
theorem chainType_eq_iff (value : U64) :
    (value >>> 56).setWidth 8 = chainTypeEvm ↔ value.toNat < 2 ^ 56 := by
  have hlt := value.isLt
  rw [← BitVec.toNat_inj, BitVec.toNat_setWidth, BitVec.toNat_ushiftRight, Nat.shiftRight_eq_div_pow,
    show chainTypeEvm.toNat = 0 from rfl]
  omega

theorem toNetworkId_evm (id : U64) :
    (ChainId.evm id).toNetworkId.1 = beBytes 8 (id &&& 0x00ffffffffffffff) := rfl

/-- Eight bytes of a number below `2 ^ 56` are its network id. -/
theorem toNetworkId_fromBeBytes {bytes : ByteArr 8} (h : (fromBeBytes 64 bytes.1).toNat < 2 ^ 56) :
    bytes = (ChainId.evm (fromBeBytes 64 bytes.1)).toNetworkId :=
  Subtype.ext (by rw [toNetworkId_evm, and_mask_eq_iff.mpr h, beBytes_fromBeBytes (by decide) bytes.2])

/-- A network id is read as the chain hint it is the id of. -/
theorem fromNetworkId_eq_ok {ε : Type} {bytes : ByteArr 8} {chain : ChainId} :
    (ChainId.fromNetworkId bytes : Except (RailgunAddressError ε) ChainId) = .ok chain ↔
      chain.Fits ∧ bytes = chain.toNetworkId := by
  rw [ChainId.fromNetworkId]
  constructor
  · intro h
    split at h
    · rename_i hall
      obtain rfl := Except.ok.inj h
      exact ⟨trivial, hall⟩
    · simp only at h
      split at h
      · rename_i htype
        rw [chainType_eq_iff] at htype
        obtain rfl := Except.ok.inj h
        rw [and_mask_eq_iff.mpr htype]
        exact ⟨htype, toNetworkId_fromBeBytes htype⟩
      · cases h
  · rintro ⟨hfits, rfl⟩
    cases chain with
    | all => exact if_pos rfl
    | evm id =>
      have hvalue : fromBeBytes 64 (ChainId.evm id).toNetworkId.1 = id := by
        rw [toNetworkId_evm, and_mask_eq_iff.mpr hfits, fromBeBytes_beBytes (by decide)]
      have hall : (ChainId.evm id).toNetworkId ≠ allChainsNetworkId := fun h => by
        have hmax : fromBeBytes 64 allChainsNetworkId.1 = 0xffffffffffffffff := by decide
        rw [h, hmax] at hvalue
        rw [ChainId.Fits, ← hvalue] at hfits
        exact absurd hfits (by decide)
      rw [if_neg hall]
      simp only [hvalue]
      rw [if_pos ((chainType_eq_iff id).mpr hfits), and_mask_eq_iff.mpr hfits]

/-- A network id that is read: of all chains, or of an EVM chain. -/
def KnownNetworkId (bytes : ByteArr 8) : Prop :=
  bytes = allChainsNetworkId ∨ bytes.1.head? = some chainTypeEvm

theorem toNetworkId_known (chain : ChainId) : KnownNetworkId chain.toNetworkId := by
  cases chain with
  | all => exact .inl rfl
  | evm id =>
    refine .inr ?_
    have hlt : (id &&& 0x00ffffffffffffff).toNat < 256 ^ 7 := ChainId.fits_masked (.evm id)
    rw [toNetworkId_evm, beBytes, toBE, Nat.div_eq_of_lt hlt]
    rfl

theorem exists_toNetworkId {bytes : ByteArr 8} (h : KnownNetworkId bytes) :
    ∃ chain : ChainId, chain.Fits ∧ bytes = chain.toNetworkId := by
  rcases h with h | h
  · exact ⟨.all, trivial, h⟩
  · have hlt : (fromBeBytes 64 bytes.1).toNat < 2 ^ 56 := by
      obtain ⟨rest, hrest⟩ := List.head?_eq_some_iff.mp h
      have hlen : rest.length = 7 := by
        have := bytes.2
        rw [hrest, List.length_cons] at this
        omega
      have hofBE := ofBE_lt rest
      rw [hlen] at hofBE
      rw [hrest, fromBeBytes, BitVec.toNat_ofNat, ofBE, show chainTypeEvm.toNat = 0 from rfl, Nat.zero_mul,
        Nat.zero_add]
      exact Nat.lt_of_le_of_lt (Nat.mod_le _ _) hofBE
    exact ⟨.evm (fromBeBytes 64 bytes.1), hlt, toNetworkId_fromBeBytes hlt⟩

/-! ## Payloads -/

/-- A payload that is read: 73 bytes, of the format's version, with a network
id that is known. -/
def IsPayload (payload : Bytes) : Prop :=
  payload.length = 73 ∧ payload.head? = some version ∧
    ∃ networkId : ByteArr 8, networkId.1 = (payload.drop 33).take 8 ∧ KnownNetworkId (xorNetworkId networkId)

namespace RailgunAddress

theorem length_payload (address : RailgunAddress) : address.payload.length = 73 := by
  rw [payload, List.length_cons, List.length_append, List.length_append, length_beBytes,
    (xorNetworkId _).2, address.viewingPubkey.2]

/-- A payload is its version, its keys and its network id. -/
theorem eq_fields {bytes : Bytes} (h : bytes.length = 73) : bytes =
    bytes.headD 0 :: ((bytes.drop 1).take 32 ++ (bytes.drop 33).take 8 ++ (bytes.drop 41).take 32) := by
  cases bytes with
  | nil => cases h
  | cons b rest =>
    rw [List.length_cons] at h
    have hlast : (rest.drop 40).take 32 = rest.drop 40 :=
      List.take_of_length_le (by rw [List.length_drop]; omega)
    have hdrop : rest.drop 40 = (rest.drop 32).drop 8 := by rw [List.drop_drop]
    refine congrArg (b :: ·) ?_
    show rest = rest.take 32 ++ (rest.drop 32).take 8 ++ (rest.drop 40).take 32
    rw [hlast, hdrop, List.append_assoc, List.take_append_drop, List.take_append_drop]

theorem fields_inj {b b' : Byte} {m m' : Bytes} {n n' : Bytes} {v v' : Bytes} (hm : m.length = m'.length)
    (hn : n.length = n'.length) (h : b :: (m ++ n ++ v) = b' :: (m' ++ n' ++ v')) :
    b = b' ∧ m = m' ∧ n = n' ∧ v = v' := by
  obtain ⟨hb, h⟩ := List.cons.inj h
  rw [List.append_assoc, List.append_assoc] at h
  obtain ⟨hm, h⟩ := List.append_inj h hm
  obtain ⟨hn, hv⟩ := List.append_inj h hn
  exact ⟨hb, hm, hn, hv⟩

/-- The fields of a payload are those of the address. -/
theorem payload_fields (address : RailgunAddress) :
    version = address.payload.headD 0 ∧ beBytes 32 address.masterKey = (address.payload.drop 1).take 32 ∧
      (xorNetworkId address.chain.toNetworkId).1 = (address.payload.drop 33).take 8 ∧
      address.viewingPubkey.1 = (address.payload.drop 41).take 32 := by
  have hlen := length_payload address
  refine fields_inj ?_ ?_ (eq_fields hlen)
  · rw [length_beBytes, List.length_take, List.length_drop, hlen]
    rfl
  · rw [(xorNetworkId _).2, List.length_take, List.length_drop, hlen]
    rfl

/-- A payload is read as the address it is the payload of. -/
theorem fromPayload_eq_ok {ε : Type} {bytes : Bytes} {address : RailgunAddress} :
    (fromPayload bytes : Except (RailgunAddressError ε) RailgunAddress) = .ok address ↔
      address.chain.Fits ∧ bytes = address.payload := by
  rw [fromPayload]
  constructor
  · intro h
    split at h
    · rename_i hlen
      simp only [bind_eq_ok, ensure_eq_ok, fromNetworkId_eq_ok, pure_eq_ok] at h
      obtain ⟨_, hversion, chain, ⟨hfits, hid⟩, rfl⟩ := h
      refine ⟨hfits, ?_⟩
      have hmaster : beBytes 32 (fromBeBytes 256 ((bytes.drop 1).take 32)) = (bytes.drop 1).take 32 :=
        beBytes_fromBeBytes (by decide) (by rw [List.length_take, List.length_drop]; omega)
      rw [payload, hmaster, ← hid, xorNetworkId_xorNetworkId, ← hversion]
      exact eq_fields hlen
    · cases h
  · rintro ⟨hfits, rfl⟩
    have hlen := length_payload address
    obtain ⟨hversion, hmaster, hid, hviewing⟩ := payload_fields address
    have hid : (⟨(address.payload.drop 33).take 8, by simp [hlen]⟩ : ByteArr 8) =
        xorNetworkId address.chain.toNetworkId := Subtype.ext hid.symm
    rw [dif_pos hlen]
    simp only [bind_eq_ok, ensure_eq_ok, fromNetworkId_eq_ok, pure_eq_ok]
    refine ⟨(), hversion.symm, address.chain, ⟨hfits, by rw [hid, xorNetworkId_xorNetworkId]⟩, ?_⟩
    simp only [← hmaster, fromBeBytes_beBytes (show 2 ^ 256 ≤ 256 ^ 32 by decide)]
    exact congrArg (fun v => RailgunAddress.mk address.masterKey v address.chain) (Subtype.ext hviewing.symm)

/-- What is read is the payload of an address. -/
theorem isPayload_iff {bytes : Bytes} :
    IsPayload bytes ↔ ∃ address : RailgunAddress, address.chain.Fits ∧ bytes = address.payload := by
  constructor
  · rintro ⟨hlen, hversion, networkId, hid, hknown⟩
    obtain ⟨chain, hfits, hchain⟩ := exists_toNetworkId hknown
    have hmaster : beBytes 32 (fromBeBytes 256 ((bytes.drop 1).take 32)) = (bytes.drop 1).take 32 :=
      beBytes_fromBeBytes (by decide) (by rw [List.length_take, List.length_drop]; omega)
    refine ⟨⟨fromBeBytes 256 ((bytes.drop 1).take 32), ⟨(bytes.drop 41).take 32, by simp [hlen]⟩, chain⟩,
      hfits, ?_⟩
    rw [payload, hmaster, ← hchain, xorNetworkId_xorNetworkId, hid]
    have hhead : bytes.headD 0 = version := by rw [List.headD_eq_head?_getD, hversion, Option.getD_some]
    rw [← hhead]
    exact eq_fields hlen
  · rintro ⟨address, -, rfl⟩
    obtain ⟨-, -, hid, -⟩ := payload_fields address
    refine ⟨length_payload address, rfl, xorNetworkId address.chain.toNetworkId, hid, ?_⟩
    rw [xorNetworkId_xorNetworkId]
    exact toNetworkId_known _

/-! ## Strings -/

theorem payload_masked (address : RailgunAddress) :
    ({ address with chain := address.chain.masked } : RailgunAddress).payload = address.payload := by
  rw [payload, payload, ChainId.toNetworkId_masked]

variable {ε : Type} (bech32 : Bech32Crate ε)

/-- The string an address is shown as. -/
def shown (address : RailgunAddress) : List Char :=
  Bech32.text .bech32m addressHrp.lower (pad 5 address.payload)

theorem length_shown (address : RailgunAddress) : address.shown.length ≤ Bech32.codeLength := by
  rw [shown, Bech32.length_text, length_pad, length_payload]
  decide

theorem toString_eq (address : RailgunAddress) : address.toString bech32 = some (.ofList address.shown) := by
  rw [toString, bech32.encode_eq]
  exact if_pos (length_shown address)

/-- What is accepted: under the prefix, the symbols of the payload of an
address whose chain id fits. -/
theorem fromStr_eq_ok {s : String} {address : RailgunAddress} :
    fromStr bech32 s = .ok address ↔ ∃ variant hrp xs, Bech32.Spells s.toList variant hrp xs ∧
      hrp.lower = addressHrp.lower ∧ address.chain.Fits ∧ pack 8 xs = address.payload := by
  simp only [fromStr, bind_eq_ok, mapError_eq_ok, ensure_eq_ok, fromPayload_eq_ok, Prod.exists,
    bech32.decode_eq_ok]
  constructor
  · rintro ⟨hrp, _, ⟨variant, xs, hs, rfl⟩, _, hhrp, hfits, hpayload⟩
    exact ⟨variant, hrp, xs, hs, hhrp, hfits, hpayload⟩
  · rintro ⟨variant, hrp, xs, hs, hhrp, hfits, hpayload⟩
    exact ⟨hrp, _, ⟨variant, xs, hs, rfl⟩, (), hhrp, hfits, hpayload⟩

/-- What is shown is parsed, up to the chain id's first byte. -/
theorem fromStr_shown (address : RailgunAddress) : fromStr bech32 (.ofList address.shown) =
    .ok { address with chain := address.chain.masked } := by
  obtain ⟨hrp, hlower, hs⟩ := Bech32.spells_text .bech32m addressHrp (pad 5 address.payload) (by decide)
    (by decide) (length_shown address)
  rw [fromStr_eq_ok, String.toList_ofList]
  exact ⟨_, hrp, _, hs, hlower, ChainId.fits_masked _,
    (pack_pad (by decide) (by decide) _).trans (payload_masked address).symm⟩

/-- An address survives its string form up to the first byte of its chain id:
it is parsed back exactly when the id fits seven bytes, and of the addresses
whose ids do, no two are shown as one string. -/
theorem fromStr_toString (address : RailgunAddress) :
    ∃ s, address.toString bech32 = some s ∧
      fromStr bech32 s = .ok { address with chain := address.chain.masked } ∧
      (fromStr bech32 s = .ok address ↔ address.chain.Fits) ∧
      ∀ other : RailgunAddress, other.toString bech32 = some s → other.chain.Fits → address.chain.Fits →
        other = address := by
  have hkept : ∀ address : RailgunAddress, fromStr bech32 (.ofList address.shown) = .ok address ↔
      address.chain.Fits := fun address => by
    rw [fromStr_shown, Except.ok.injEq, ← ChainId.masked_eq_iff]
    exact ⟨fun h => congrArg RailgunAddress.chain h, fun h => by rw [h]⟩
  refine ⟨_, toString_eq bech32 address, fromStr_shown bech32 address, hkept address,
    fun other hother hfits hfits' => ?_⟩
  rw [toString_eq, Option.some.injEq] at hother
  have h := (hkept other).mpr hfits
  rw [hother, (hkept address).mpr hfits'] at h
  exact (Except.ok.inj h).symm

/-- The crate's two functions, by what they document. -/
def bech32Codec : Bech32Crate Unit where
  decode s := match Bech32.parse s.toList with
    | some (_, hrp, xs) => .ok (hrp, pack 8 xs)
    | none => .error ()
  encodeBech32m hrp bytes :=
    let chars := Bech32.text .bech32m hrp.lower (pad 5 bytes)
    if chars.length ≤ Bech32.codeLength then some (.ofList chars) else none
  decode_eq_ok {s hrp bytes} := by
    simp only [← Bech32.parse_eq_some]
    constructor
    · intro h
      split at h
      · rename_i variant hrp' xs hs
        obtain ⟨rfl, rfl⟩ := Prod.mk.inj (Except.ok.inj h)
        exact ⟨variant, xs, hs, rfl⟩
      · cases h
    · rintro ⟨variant, xs, hs, rfl⟩
      rw [hs]
  encode_eq _ _ := rfl

/-- A chain id of eight bytes comes back as 0. -/
theorem fromStr_loses_chain : ¬ ∀ (ε : Type) (bech32 : Bech32Crate ε) (address : RailgunAddress),
    ∃ s, address.toString bech32 = some s ∧ fromStr bech32 s = .ok address := by
  intro h
  obtain ⟨s, hs, hp⟩ := h Unit bech32Codec ⟨0, .replicate 32 0, .evm (2 ^ 56)⟩
  rw [toString_eq, Option.some.injEq] at hs
  rw [← hs, fromStr_shown, Except.ok.injEq] at hp
  exact absurd (congrArg RailgunAddress.chain hp) (by decide)

/-! ## Canonical strings -/

/-- A string whose payload is read carries the bech32m checksum, and only
zeros, less than a symbol, beyond its payload. -/
def Canonical (s : String) : Prop :=
  ∀ variant hrp xs, Bech32.Spells s.toList variant hrp xs → hrp.lower = addressHrp.lower →
    IsPayload (pack 8 xs) → variant = .bech32m ∧ Regroup.Canonical 8 xs

/-- The symbols of an accepted string are those shown exactly when they are
canonical. -/
theorem lower_eq_shown_iff {s : String} {variant : Bech32.Variant} {hrp : Bech32.Hrp}
    {xs : List Bech32.Symbol} {address : RailgunAddress} (hs : Bech32.Spells s.toList variant hrp xs)
    (hhrp : hrp.lower = addressHrp.lower) (hpayload : pack 8 xs = address.payload) :
    s.toList.map Char.toLower = address.shown ↔ variant = .bech32m ∧ Regroup.Canonical 8 xs := by
  have htext := (Bech32.spells_iff.mp ⟨hrp, rfl, hs⟩).2.2
  rw [htext, shown, ← hpayload, hhrp, ← pad_pack_iff (by decide)]
  constructor
  · intro h
    obtain ⟨rfl, hxs⟩ := Bech32.text_inj h
    exact ⟨rfl, hxs.symm⟩
  · rintro ⟨rfl, hxs⟩
    rw [hxs]

theorem accepted_iff {s : String} : (∃ address, fromStr bech32 s = .ok address) ↔
    ∃ variant hrp xs, Bech32.Spells s.toList variant hrp xs ∧ hrp.lower = addressHrp.lower ∧
      IsPayload (pack 8 xs) := by
  simp only [fromStr_eq_ok, isPayload_iff]
  constructor
  · rintro ⟨address, variant, hrp, xs, hs, hhrp, hfits, hpayload⟩
    exact ⟨variant, hrp, xs, hs, hhrp, address, hfits, hpayload⟩
  · rintro ⟨variant, hrp, xs, hs, hhrp, address, hfits, hpayload⟩
    exact ⟨address, variant, hrp, xs, hs, hhrp, hfits, hpayload⟩

/-- The string is the one of every address it is parsed to, but for its case. -/
def ShownAs (s : String) : Prop :=
  ∀ address, fromStr bech32 s = .ok address →
    address.toString bech32 = some (.ofList (s.toList.map Char.toLower))

/-- The string is accepted exactly if it is, in one case, the bech32m encoding
of a payload. -/
def EncodesPayload (s : String) : Prop :=
  (∃ address, fromStr bech32 s = .ok address) ↔ Bech32.OneCase s.toList ∧ ∃ bytes, IsPayload bytes ∧
    bech32.encodeBech32m addressHrp bytes = some (.ofList (s.toList.map Char.toLower))

theorem shownAs_iff {s : String} : ShownAs bech32 s ↔ Canonical s := by
  simp only [ShownAs, toString_eq, Option.some.injEq, String.ofList_inj]
  constructor
  · intro h variant hrp xs hs hhrp hpayload
    obtain ⟨address, hfits, hpayload⟩ := isPayload_iff.mp hpayload
    exact (lower_eq_shown_iff hs hhrp hpayload).mp
      (h address ((fromStr_eq_ok bech32).mpr ⟨variant, hrp, xs, hs, hhrp, hfits, hpayload⟩)).symm
  · intro h address haddress
    obtain ⟨variant, hrp, xs, hs, hhrp, hfits, hpayload⟩ := (fromStr_eq_ok bech32).mp haddress
    exact ((lower_eq_shown_iff hs hhrp hpayload).mpr
      (h variant hrp xs hs hhrp (isPayload_iff.mpr ⟨address, hfits, hpayload⟩))).symm

theorem encodesPayload_iff {s : String} : EncodesPayload bech32 s ↔ Canonical s := by
  have hencode : ∀ address : RailgunAddress,
      bech32.encodeBech32m addressHrp address.payload = some (.ofList (s.toList.map Char.toLower)) ↔
        s.toList.map Char.toLower = address.shown := fun address => by
    rw [show bech32.encodeBech32m addressHrp address.payload = _ from toString_eq bech32 address,
      Option.some.injEq, String.ofList_inj, eq_comm]
  constructor
  · intro h variant hrp xs hs hhrp hpayload
    obtain ⟨-, bytes, hbytes, hs'⟩ := h.mp ((accepted_iff bech32).mpr ⟨variant, hrp, xs, hs, hhrp, hpayload⟩)
    obtain ⟨address, -, rfl⟩ := isPayload_iff.mp hbytes
    rw [hencode, (Bech32.spells_iff.mp ⟨hrp, rfl, hs⟩).2.2, hhrp] at hs'
    obtain ⟨rfl, rfl⟩ := Bech32.text_inj hs'
    exact ⟨rfl, (pad_pack_iff (by decide) _).mp (by rw [pack_pad (by decide) (by decide)])⟩
  · intro h
    constructor
    · rintro ⟨address, haddress⟩
      obtain ⟨variant, hrp, xs, hs, hhrp, hfits, hpayload⟩ := (fromStr_eq_ok bech32).mp haddress
      exact ⟨hs.oneCase, address.payload, isPayload_iff.mpr ⟨address, hfits, rfl⟩,
        (shownAs_iff bech32).mpr h address haddress⟩
    · rintro ⟨hcase, bytes, hbytes, hs⟩
      obtain ⟨address, hfits, rfl⟩ := isPayload_iff.mp hbytes
      rw [hencode] at hs
      have hlen : s.toList.length ≤ Bech32.codeLength := by
        rw [← List.length_map (f := Char.toLower), hs]
        exact length_shown address
      obtain ⟨hrp, hhrp, hs⟩ := Bech32.spells_iff.mpr ⟨hcase, hlen, hs⟩
      exact ⟨address, (fromStr_eq_ok bech32).mpr
        ⟨_, hrp, _, hs, hhrp, hfits, pack_pad (by decide) (by decide) _⟩⟩

/-- A string is the one its address is shown as, and is accepted only as the
encoding of a payload, exactly when it carries the bech32m checksum and no
left-over bits but less than a symbol of zeros; of such strings in lower case,
no two are parsed to one address. -/
theorem canonical_iff (s : String) :
    (ShownAs bech32 s ↔ Canonical s) ∧ (EncodesPayload bech32 s ↔ Canonical s) ∧
      ∀ t address, Canonical s → Canonical t → (∀ c ∈ s.toList, c.isUpper = false) →
        (∀ c ∈ t.toList, c.isUpper = false) → fromStr bech32 s = .ok address →
        fromStr bech32 t = .ok address → s = t := by
  refine ⟨shownAs_iff bech32, encodesPayload_iff bech32,
    fun t address hs ht hlower hlower' haddress haddress' => ?_⟩
  have hself : ∀ {u : String}, (∀ c ∈ u.toList, c.isUpper = false) →
      u.toList.map Char.toLower = u.toList := fun h =>
    (List.map_congr_left fun c hc => Bech32.toLower_of_not_isUpper (h c hc)).trans (List.map_id _)
  have h := (shownAs_iff bech32).mpr hs address haddress
  rw [(shownAs_iff bech32).mpr ht address haddress', Option.some.injEq, hself hlower, hself hlower',
    String.ofList_toList, String.ofList_toList] at h
  exact h.symm

/-- The address of the master key `[1; 32]` and the viewing key `[2; 32]` on chain 1. -/
def addressEvm1 : RailgunAddress := ⟨fromBeBytes 256 (List.replicate 32 1), .replicate 32 2, .evm 1⟩

example : addressEvm1.toString bech32Codec = some
    "0zk1qyqszqgpqyqszqgpqyqszqgpqyqszqgpqyqszqgpqyqszqgpqyqszunpd9kxwatwqypqyqszqgpqyqszqgpqyqszqgpqyqszqgpqyqszqgpqyqszqgpqy3t4umn" := by
  decide +kernel

/-- The string of that address but for its checksum, which is bech32's. -/
def bech32Evm1 : String :=
  "0zk1qyqszqgpqyqszqgpqyqszqgpqyqszqgpqyqszqgpqyqszqgpqyqszunpd9kxwatwqypqyqszqgpqyqszqgpqyqszqgpqyqszqgpqyqszqgpqyqszqgpqyyh9s73"

/-- A string under the other checksum is accepted. -/
theorem fromStr_accepts_bech32 : ¬ ∀ (ε : Type) (bech32 : Bech32Crate ε) (s : String), ShownAs bech32 s := by
  intro h
  have hs : Bech32.parse bech32Evm1.toList = some (.bech32, addressHrp, pad 5 addressEvm1.payload) := by
    decide +kernel
  rw [Bech32.parse_eq_some] at hs
  have hpayload : pack 8 (pad 5 addressEvm1.payload) = addressEvm1.payload :=
    pack_pad (by decide) (by decide) _
  obtain ⟨hvariant, -⟩ := (shownAs_iff bech32Codec).mp (h Unit bech32Codec bech32Evm1) _ _ _ hs rfl
    (isPayload_iff.mpr ⟨addressEvm1, show (1 : U64).toNat < 2 ^ 56 by decide, hpayload⟩)
  cases hvariant

end RailgunAddress

end Railgun
