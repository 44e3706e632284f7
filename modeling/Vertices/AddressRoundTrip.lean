/-
# `Vertices.AddressRoundTrip` — a key written as text, and read off it again

`vertices_account_new_from_bin` and `vertices_s_account_new_from_keys` write the key and
four bytes of its hash as base32 text, and hand the text to the functions that decode it.
The encoder's buffer starts from a `char`, which is signed, and is shifted on and on: of
all its bits only those that are still to be written count.
-/
import Vertices.AddressText
import Vertices.KeyImport

namespace Vertices

open BitString (bits groups)

/-! ## Encoding -/

/-- `buffer <<= 8; buffer |= data[next++] & 0xFF`. -/
theorem held_push_byte {buffer : Int32} {n : Nat} (hn : n + 8 ≤ 32) (b : UInt8) :
    held (buffer <<< 8 ||| b.toUInt32.toInt32) (n + 8) = held buffer n ++ bits 8 b.toNat :=
  held_shift_or (by decide) hn b.toNat_lt

/-- `buffer <<= pad`. -/
theorem held_push_zeros {buffer : Int32} {n k : Nat} (hk : k < 32) (hn : n + k ≤ 32) :
    held (buffer <<< Int32.ofNat k) (n + k) = held buffer n ++ List.replicate k false := by
  have hlow : (0 : Int32).toBitVec.toNat < 2 ^ k := Nat.two_pow_pos k
  calc held (buffer <<< Int32.ofNat k) (n + k)
      = held (buffer <<< Int32.ofNat k ||| 0) (n + k) := by rw [Int32.or_zero]
    _ = held buffer n ++ bits k 0 := held_shift_or hk hn hlow
    _ = held buffer n ++ List.replicate k false := by rw [BitString.bits_zero]

/-- `0x1F & (buffer >> (bitsLeft - 5))`. -/
theorem held_take_digit {buffer : Int32} {n : Nat} (h5 : 5 ≤ n) (hn : n ≤ 32) :
    ∃ d < 32, (0x1f &&& (buffer >>> Int32.ofNat (n - 5))).toNatClampNeg = d ∧
      held buffer n = bits 5 d ++ held buffer (n - 5) := by
  obtain ⟨k, rfl⟩ := Nat.exists_eq_add_of_le h5
  rw [Nat.add_sub_cancel_left, held_shiftRight (by omega) hn]
  generalize buffer >>> Int32.ofNat k = shifted
  have hmsb : (0x1f &&& shifted).toBitVec.msb = false := by
    rw [Int32.toBitVec_and, BitVec.msb_and]
    rfl
  have hmask : (0x1f &&& shifted).toNatClampNeg = (0x1f &&& shifted).toBitVec.toNat := by
    show (0x1f &&& shifted).toBitVec.toInt.toNat = _
    rw [BitVec.toInt_eq_toNat_of_msb hmsb, Int.toNat_natCast]
  refine ⟨(0x1f &&& shifted).toBitVec.toNat, ?_, hmask, ?_⟩
  · rw [Int32.toBitVec_and, BitVec.toNat_and]
    exact Nat.lt_of_le_of_lt Nat.and_le_left (by decide)
  · congr 1
    apply BitString.bits_congr
    intro i hi
    have hones : ∀ i < 5, (0x1f : Int32).toBitVec.getLsbD i = true := by decide
    rw [Int32.toBitVec_and, BitVec.testBit_toNat, BitVec.testBit_toNat, BitVec.getLsbD_and,
      hones i hi, Bool.true_and]

/-- One digit of the loop. -/
theorem encode_digit {data : List UInt8} {buffer : Int32} {n room : Nat} {rest : List UInt8}
    (h5 : 5 ≤ n) (hn : n ≤ 32)
    (hrest : rest = (groups 5 room (held buffer (n - 5) ++ byteBits data)).map fun d => b32Alphabet.getD d 0) :
    b32Alphabet.getD (0x1f &&& (buffer >>> Int32.ofNat (n - 5))).toNatClampNeg 0 :: rest =
      (groups 5 (room + 1) (held buffer n ++ byteBits data)).map fun d => b32Alphabet.getD d 0 := by
  obtain ⟨d, hd, hindex, hheld⟩ := held_take_digit h5 hn
  rw [hheld, List.append_assoc, BitString.groups_bits_append hd, List.map_cons, hindex, hrest]

/-- The loop writes the digits of the bits it holds and of the bytes to come, as far as there
is room.  It holds twelve bits at most, so none is shifted out. -/
theorem b32EncodeLoop_eq (room : Nat) {data : List UInt8} {buffer : Int32} {n : Nat} (hn : n ≤ 12) :
    b32EncodeLoop data buffer n room =
      (groups 5 (min room ((n + 8 * data.length + 4) / 5)) (held buffer n ++ byteBits data)).map
        fun d => b32Alphabet.getD d 0 := by
  induction room generalizing data buffer n with
  | zero => rw [Nat.zero_min, b32EncodeLoop, groups, List.map_nil]
  | succ room ih =>
      by_cases hmore : 0 < n ∨ data ≠ []
      · rw [b32EncodeLoop, if_pos hmore, b32Fill.eq_def]
        by_cases h5 : n < 5
        · rw [if_pos h5]
          cases data with
          | cons next data =>
              have hbits : held buffer n ++ byteBits (next :: data) =
                  held (buffer <<< 8 ||| next.toUInt32.toInt32) (n + 8) ++ byteBits data := by
                rw [held_push_byte (by omega) next, byteBits, List.flatMap_cons, List.append_assoc]
                rfl
              have hcount : (n + 8 * (next :: data).length + 4) / 5 =
                  (n + 8 - 5 + 8 * data.length + 4) / 5 + 1 := by
                rw [List.length_cons]
                omega
              rw [hbits, hcount, Nat.succ_min_succ]
              exact encode_digit (by omega) (by omega) (ih (by omega))
          | nil =>
              -- the last digit
              have hpos : 0 < n := hmore.resolve_right fun h => h rfl
              have hlen : (held buffer n).length = n := BitString.length_bits _ _
              have hpush : held (buffer <<< Int32.ofNat (5 - n)) (n + (5 - n)) =
                  held buffer n ++ List.replicate (5 - n) false := held_push_zeros (by omega) (by omega)
              rw [Nat.add_sub_cancel' h5.le] at hpush
              have hcount : (n + 8 * ([] : List UInt8).length + 4) / 5 = 0 + 1 := by
                rw [List.length_nil]
                omega
              have hfill : groups 5 (0 + 1) (held buffer n ++ byteBits []) =
                  groups 5 (0 + 1) (held (buffer <<< Int32.ofNat (5 - n)) 5 ++ byteBits []) := by
                rw [hpush, byteBits, List.flatMap_nil, List.append_nil, List.append_nil,
                  BitString.groups_append_zeros]
              rw [hcount, Nat.succ_min_succ, Nat.min_zero, hfill]
              refine encode_digit (Nat.le_refl 5) (by decide) ((ih (by decide)).trans ?_)
              rw [List.length_nil, Nat.min_zero]
        · have hcount : (n + 8 * data.length + 4) / 5 = (n - 5 + 8 * data.length + 4) / 5 + 1 := by omega
          rw [if_neg h5, hcount, Nat.succ_min_succ]
          exact encode_digit (Nat.le_of_not_lt h5) (by omega) (ih (by omega))
      · rw [not_or, not_not] at hmore
        have hzero : n = 0 := Nat.eq_zero_of_not_pos hmore.1
        rw [b32EncodeLoop, if_neg (not_or.mpr ⟨hmore.1, not_not.mpr hmore.2⟩), hmore.2, hzero,
          List.length_nil, Nat.min_zero, groups, List.map_nil]

/-- `int buffer = data[0]`: of the sign nothing is held. -/
theorem held_first (first : UInt8) : held first.toInt8.toInt32 8 = bits 8 first.toNat := by
  apply BitString.bits_congr
  intro i hi
  show _ = first.toBitVec.toNat.testBit i
  rw [BitVec.testBit_toNat, BitVec.testBit_toNat, Int8.toBitVec_toInt32, BitVec.getLsbD_signExtend,
    decide_eq_true (by omega), Bool.true_and, if_pos hi]
  rfl

@[simp] theorem length_b32Text (bytes : List UInt8) :
    (b32Text bytes).length = (8 * bytes.length + 4) / 5 := by
  rw [b32Text, List.length_map, BitString.length_groups]

/-- From the first byte on the loop writes the text, as far as there is room. -/
theorem b32EncodeLoop_text (first : UInt8) (rest : List UInt8) (room : Nat) :
    b32EncodeLoop rest first.toInt8.toInt32 8 room = (b32Text (first :: rest)).take room := by
  have hbits : held first.toInt8.toInt32 8 ++ byteBits rest = byteBits (first :: rest) := by
    rw [held_first]
    rfl
  have hcount : (8 + 8 * rest.length + 4) / 5 = (8 * (first :: rest).length + 4) / 5 := by
    rw [List.length_cons, Nat.mul_succ, Nat.add_comm 8]
  rw [b32EncodeLoop_eq room (by decide), hbits, hcount, b32Text, ← List.map_take,
    BitString.take_groups]

/-- The text of 36 bytes fits exactly, so that no padding is written. -/
theorem b32Encode_eq {bytes : List UInt8} (hlen : bytes.length = 36) :
    b32Encode bytes 58 = (.success, b32Text bytes) := by
  match bytes, hlen with
  | first :: rest, hlen =>
      have hfull : (b32Text (first :: rest)).length = 58 := by rw [length_b32Text, hlen]
      rw [b32Encode, if_neg (by rw [hlen]; decide)]
      dsimp only
      rw [b32EncodeLoop_text, List.take_of_length_le hfull.le, hfull, Nat.sub_self, b32Pad,
        List.append_nil]

/-! ## Decoding what was encoded -/

/-- The last four bytes of the hash of a key, of zeros where there is none. -/
def keyChecksum (H : MbedtlsSha512) (key : Vector UInt8 addressLength) : List UInt8 :=
  match sha512_256 H key.toList 32 with
  | .ok (_, hash) => (firstBytes 32 hash).toList.drop 28
  | .error _ => []

/-- The text is the address of the key, ended by `\0`, and the key is the key. -/
def AccountInfo.HoldsKey (info : AccountInfo) (key : Vector UInt8 addressLength)
    (checksum : List UInt8) : Prop :=
  info.publicB32.toList = b32Text (key.toList ++ checksum) ++ List.replicate 7 0 ∧
    (b32Text (key.toList ++ checksum)).length = 58 ∧ info.publicKey = key

theorem sha512_256_key (H : MbedtlsSha512) (key : Vector UInt8 addressLength) :
    ∃ code hash, sha512_256 H key.toList 32 = .ok (code, hash) ∧
      keyChecksum H key = (firstBytes 32 hash).toList.drop 28 := by
  have hlen : key.toList.length = 32 := key.length_toList
  cases hhash : sha512_256 H key.toList 32 with
  | ok r => exact ⟨r.1, r.2, rfl, by rw [keyChecksum, hhash]⟩
  | error fault =>
      rw [sha512_256, if_neg (by rw [hlen]; decide), if_neg (by rw [hlen]; decide)] at hhash
      split at hhash
      · cases hhash
      · split at hhash <;> cases hhash

theorem length_keyChecksum (H : MbedtlsSha512) (key : Vector UInt8 addressLength) :
    (keyChecksum H key).length = 4 := by
  obtain ⟨code, hash, -, hsum⟩ := sha512_256_key H key
  rw [hsum, List.length_drop, Vector.length_toList]

theorem toList_firstBytes {n : Nat} {bs : List UInt8} (h : bs.length ≤ n) :
    (firstBytes n bs).toList = bs ++ List.replicate (n - bs.length) 0 := by
  apply List.ext_getElem
  · rw [Vector.length_toList, List.length_append, List.length_replicate]
    omega
  · intro i hi hi'
    rw [Vector.getElem_toList]
    simp only [firstBytes, Vector.getElem_ofFn]
    rw [List.getD_eq_getElem?_getD]
    by_cases hin : i < bs.length
    · rw [List.getElem?_eq_getElem hin, Option.getD_some, List.getElem_append_left hin]
    · rw [List.getElem?_eq_none (Nat.le_of_not_lt hin), Option.getD_none,
        List.getElem_append_right (Nat.le_of_not_lt hin), List.getElem_replicate]

theorem b32Alphabet_ne_zero : ∀ d < 32, b32Alphabet.getD d 0 ≠ 0 := by decide +kernel

theorem zero_notMem_b32Text (bs : List UInt8) : (0 : UInt8) ∉ b32Text bs := by
  intro h
  obtain ⟨d, hd, hzero⟩ := List.mem_map.mp h
  exact b32Alphabet_ne_zero d (BitString.groups_lt hd) hzero

/-- The text that the two functions pass on. -/
def addressPtr (key : Vector UInt8 addressLength) (checksum : List UInt8) : B32Ptr :=
  ⟨firstBytes publicB32StrMaxLength (b32Text (key.toList ++ checksum)), []⟩

theorem length_key_checksum (key : Vector UInt8 addressLength) {checksum : List UInt8}
    (h : checksum.length = 4) : (key.toList ++ checksum).length = 36 := by
  rw [List.length_append, key.length_toList, h]

/-- The key that is read off the text is the key. -/
theorem fromB32Init_addressPtr (info : AccountInfo) (key : Vector UInt8 addressLength)
    {checksum : List UInt8} (h : checksum.length = 4) :
    ({ fromB32Init (addressPtr key checksum) info with
        publicB32 := (addressPtr key checksum).copied } : AccountInfo).HoldsKey key checksum := by
  have hbytes := length_key_checksum key h
  have hlen : (b32Text (key.toList ++ checksum)).length = 58 := by
    rw [b32Text, List.length_map, BitString.length_groups, hbytes]
  have hcopied : (addressPtr key checksum).copied.toList =
      b32Text (key.toList ++ checksum) ++ List.replicate 7 0 := by
    rw [addressPtr, toList_firstBytes (by rw [hlen]; decide), hlen]
    rfl
  have hbehind : (addressPtr key checksum).behind = [] := rfl
  have hstr : (addressPtr key checksum).str.bytes = b32Text (key.toList ++ checksum) := by
    rw [B32Ptr.str, hcopied, hbehind, List.append_nil, List.replicate_succ,
      bytes_cString_append (zero_notMem_b32Text _)]
  have hdecode := b32Decode_text hstr
  rw [hbytes] at hdecode
  have hkey : (fromB32Init (addressPtr key checksum) info).publicKey = key :=
    fromB32Init_publicKey info hdecode
  exact ⟨hcopied, hlen, hkey⟩

theorem AccountInfo.SameAddress.holdsKey {info info' : AccountInfo} (h : info.SameAddress info')
    {key : Vector UInt8 addressLength} {checksum : List UInt8} (hholds : info.HoldsKey key checksum) :
    info'.HoldsKey key checksum := by
  rw [HoldsKey, h.1, h.2]
  exact hholds

/-! ## Both functions -/

section

variable (H : MbedtlsSha512) (R : MpackReader) (key : Vector UInt8 addressLength) (reply : HttpReply)
  (p : Provider)

theorem b32Encode_key :
    b32Encode (key.toList ++ keyChecksum H key) 58 = (.success, b32Text (key.toList ++ keyChecksum H key)) :=
  b32Encode_eq (length_key_checksum key (length_keyChecksum H key))

theorem verticesAccountNewFromBin_eq (accounts : MAccounts) :
    verticesAccountNewFromBin H R key reply accounts p =
      accountNew R (addressPtr key (keyChecksum H key)) reply accounts p := by
  obtain ⟨code, hash, hhash, hsum⟩ := sha512_256_key H key
  have hencode := b32Encode_key H key
  rw [verticesAccountNewFromBin, hhash]
  dsimp only [bind, Except.bind]
  rw [← hsum, hencode, addressPtr]

theorem verticesSAccountNewFromKeys_eq (privateKey : Vector UInt8 addressLength) (name : CStr)
    (stack : AccountDetails) (wallet : SAccounts) :
    verticesSAccountNewFromKeys H R key privateKey name reply stack wallet p =
      sAccountNew R (addressPtr key (keyChecksum H key)) privateKey name reply stack wallet p := by
  obtain ⟨code, hash, hhash, hsum⟩ := sha512_256_key H key
  have hencode := b32Encode_key H key
  rw [verticesSAccountNewFromKeys, hhash]
  dsimp only [bind, Except.bind]
  rw [← hsum, hencode, addressPtr]

/-- What `provider_account_info_get` is called with, and what comes of it: the record holds
the key before and after, and is that of the new entry. -/
def NewFromBinStores (accounts : MAccounts) : Prop :=
  ∃ details : AccountDetails, details.info.HoldsKey key (keyChecksum H key) ∧
    (∀ fault, providerAccountInfoGet R p reply details = .error fault →
      verticesAccountNewFromBin H R key reply accounts p = .error fault) ∧
    ∀ err details' p', providerAccountInfoGet R p reply details = .ok (err, details', p') →
      ∃ i accounts', verticesAccountNewFromBin H R key reply accounts p =
          .ok (err, some i, accounts', p') ∧
        (accounts.get i).status = .none ∧ (accounts'.get i).status = .added ∧
        (accounts'.get i).account.info.HoldsKey key (keyChecksum H key)

/-- The same for the wallet, where the name is copied last. -/
def NewFromKeysStores (privateKey : Vector UInt8 addressLength) (name : CStr) (stack : AccountDetails)
    (wallet : SAccounts) (i : Fin secretAccountsMaximumCount) : Prop :=
  ∃ details : AccountDetails, details.info.HoldsKey key (keyChecksum H key) ∧
    (∀ fault, providerAccountInfoGet R p reply details = .error fault →
      verticesSAccountNewFromKeys H R key privateKey name reply stack wallet p = .error fault) ∧
    ∀ err details' p', providerAccountInfoGet R p reply details = .ok (err, details', p') →
      details'.info.HoldsKey key (keyChecksum H key) ∧
      (accountNameLength < name.strlen →
        verticesSAccountNewFromKeys H R key privateKey name reply stack wallet p = .error .outOfBounds) ∧
      (name.strlen ≤ accountNameLength → ∃ wallet',
        verticesSAccountNewFromKeys H R key privateKey name reply stack wallet p =
          .ok (err, some i, wallet', p') ∧
        (wallet'.get i).status = .added ∧ (wallet'.get i).vtcAccount = some details'.info)

variable {H R key reply p}

theorem newFromBinStores {accounts : MAccounts} (hfree : ∃ i, (accounts.get i).status = .none) :
    NewFromBinStores H R key reply p accounts := by
  cases hfind : accounts.findFinIdx? fun a => a.status == .none with
  | none =>
      obtain ⟨i, hi⟩ := hfree
      exact absurd hi (find_none_iff.mp hfind i)
  | some i =>
      have hstatus : (accounts.get i).status = .none := (findFree_eq_some.mp hfind).1
      let info := accounts[i].account.info
      let ptr := addressPtr key (keyChecksum H key)
      let details : AccountDetails :=
        { accounts[i].account with info := { fromB32Init ptr info with publicB32 := ptr.copied } }
      have hholds : details.info.HoldsKey key (keyChecksum H key) :=
        fromB32Init_addressPtr info key (length_keyChecksum H key)
      have hcall : verticesAccountNewFromBin H R key reply accounts p =
          (providerAccountInfoGet R p reply details).bind
            fun r => .ok (r.1, some i, accounts.set i ⟨r.2.1, .added⟩, r.2.2) := by
        rw [verticesAccountNewFromBin_eq, accountNew.eq_def, hfind]
        rfl
      refine ⟨details, hholds, ?_, ?_⟩
      · intro fault hget
        rw [hcall, hget]
        rfl
      · intro err details' p' hget
        refine ⟨i, accounts.set i ⟨details', .added⟩, ?_, hstatus, ?_, ?_⟩
        · rw [hcall, hget]
          rfl
        · rw [get_set, if_pos rfl]
        · rw [get_set, if_pos rfl]
          exact (providerAccountInfoGet_sameAddress hget).holdsKey hholds

theorem newFromKeysStores {privateKey : Vector UInt8 addressLength} {name : CStr}
    {stack : AccountDetails} {wallet : SAccounts} {i : Fin secretAccountsMaximumCount}
    (hfree : (wallet.get i).status = .none) (hfirst : ∀ j < i, (wallet.get j).status ≠ .none)
    (hptr : (wallet.get i).vtcAccount.isSome = true) :
    NewFromKeysStores H R key reply p privateKey name stack wallet i := by
  obtain ⟨info, hinfo⟩ := Option.isSome_iff_exists.mp hptr
  have hfind := findFree_eq_some.mpr ⟨hfree, hfirst⟩
  let ptr := addressPtr key (keyChecksum H key)
  let details : AccountDetails :=
    localDetails stack { fromB32Init ptr info with publicB32 := ptr.copied }
  have hholds : details.info.HoldsKey key (keyChecksum H key) :=
    fromB32Init_addressPtr info key (length_keyChecksum H key)
  have hcall : verticesSAccountNewFromKeys H R key privateKey name reply stack wallet p =
      (providerAccountInfoGet R p reply details).bind fun r =>
        (memcpy wallet[i].name 0 name.bytes).bind fun name =>
          .ok (r.1, some i, wallet.set i
            { privateKey, vtcAccount := some r.2.1.info, status := .added, name }, r.2.2) := by
    have hinfo : wallet[i].vtcAccount = some info := hinfo
    rw [verticesSAccountNewFromKeys_eq, sAccountNew.eq_def, hfind]
    dsimp only
    rw [hinfo]
    rfl
  refine ⟨details, hholds, ?_, ?_⟩
  · intro fault hget
    rw [hcall, hget]
    rfl
  · intro err details' p' hget
    refine ⟨(providerAccountInfoGet_sameAddress hget).holdsKey hholds, ?_, ?_⟩
    · intro hlong
      rw [hcall, hget]
      show (memcpy wallet[i].name 0 name.bytes).bind _ = _
      rw [memcpy, dif_neg (by rw [Nat.zero_add]; exact Nat.not_le.mpr hlong)]
      rfl
    · intro hname
      have hfits : 0 + name.bytes.length ≤ accountNameLength := by
        rw [Nat.zero_add]
        exact hname
      let account : SAccount :=
        { privateKey := privateKey, vtcAccount := some details'.info, status := .added,
          name := splice wallet[i].name 0 name.bytes hfits }
      refine ⟨wallet.set i account, ?_, ?_, ?_⟩
      · rw [hcall, hget]
        show (memcpy wallet[i].name 0 name.bytes).bind _ = _
        rw [memcpy_eq_ok.mpr ⟨hfits, rfl⟩]
        rfl
      · rw [get_set, if_pos rfl]
      · rw [get_set, if_pos rfl]

end

/-- **Addresses come back.**  Whatever the key and its hash, with a free entry in the table
the entry taken has the key's address as text and the key that is read off it, before the
account is asked for and after. -/
theorem address_round_trip (H : MbedtlsSha512) (R : MpackReader) (key : Vector UInt8 addressLength)
    (reply : HttpReply) (p : Provider) :
    (∀ accounts : MAccounts, (∃ i, (accounts.get i).status = .none) →
      NewFromBinStores H R key reply p accounts) ∧
    ∀ privateKey name stack (wallet : SAccounts) i, (wallet.get i).status = .none →
      (∀ j < i, (wallet.get j).status ≠ .none) → (wallet.get i).vtcAccount.isSome = true →
        NewFromKeysStores H R key reply p privateKey name stack wallet i :=
  ⟨fun _ hfree => newFromBinStores hfree,
    fun _ _ _ _ _ hfree hfirst hptr => newFromKeysStores hfree hfirst hptr⟩

/-- A key of bytes with the sign bit set, into empty tables, without a node. -/
theorem address_round_trip_signed :
    NewFromBinStores sha512OfZeros formatReader (Vector.replicate _ 0xff) ⟨[], .errorOffline, 0⟩ .zero
        accountInit ∧
      NewFromKeysStores sha512OfZeros formatReader (Vector.replicate _ 0xff) ⟨[], .errorOffline, 0⟩
        .zero (Vector.replicate _ 0) nameA .zero sAccountInit 0 := by
  obtain ⟨hbin, hkeys⟩ := address_round_trip sha512OfZeros formatReader (Vector.replicate _ 0xff)
    ⟨[], .errorOffline, 0⟩ .zero
  exact ⟨hbin accountInit ⟨0, by decide +kernel⟩,
    hkeys (Vector.replicate _ 0) nameA .zero sAccountInit 0 (by decide +kernel)
      (fun j hj => absurd hj (Nat.not_lt_zero j.val)) (by decide +kernel)⟩

end Vertices
