/-
# `Vertices.AddressText` — an address as text, as a key, and in the tables

An address is written as the base32 text of the key and four bytes of its hash.
`from_b32_init` takes the key out of whatever it is given: the code of the decoder is
dropped, and the four bytes are not looked at.
-/
import Vertices.Lib.BitString
import Vertices.MnemonicRoundTrip
import Vertices.WalletLoad
import Vertices.WalletSlots

namespace Vertices

open BitString (bits groups)
open Transition

/-! ## The text of RFC 4648 -/

/-- The bits of a byte string. -/
def byteBits (bs : List UInt8) : List Bool := bs.flatMap fun b => bits 8 b.toNat

@[simp] theorem length_byteBits (bs : List UInt8) : (byteBits bs).length = 8 * bs.length := by
  induction bs with
  | nil => rfl
  | cons b bs ih =>
      rw [byteBits, List.flatMap_cons, List.length_append, BitString.length_bits, List.length_cons,
        Nat.mul_succ, ← ih, Nat.add_comm]
      rfl

/-- The base32 text of a byte string, without padding. -/
def b32Text (bs : List UInt8) : List UInt8 :=
  (groups 5 ((8 * bs.length + 4) / 5) (byteBits bs)).map fun d => b32Alphabet.getD d 0

/-! ## Decoding a text -/

/-- The decoder takes the character `ch` as the digit `d`. -/
def ReadsDigit (ch : UInt8) (d : Nat) : Prop :=
  ch ≠ 0x3d ∧ b32Skipped ch = false ∧ ∃ digit, b32Digit ch = some digit ∧ digit.toNat = d ∧ d < 32

theorem ReadsDigit.of_ofNat {ch : UInt8} {d : Nat} (hd : d < 32)
    (h : ch ≠ 0x3d ∧ b32Skipped ch = false ∧ b32Digit ch = some (UInt8.ofNat d)) : ReadsDigit ch d := by
  obtain ⟨hend, hskip, hdigit⟩ := h
  refine ⟨hend, hskip, _, hdigit, ?_, hd⟩
  rw [UInt8.toNat_ofNat']
  exact Nat.mod_eq_of_lt (Nat.lt_of_lt_of_le hd (by decide))

theorem readsDigit_alphabet {d : Nat} (hd : d < 32) : ReadsDigit (b32Alphabet.getD d 0) d := by
  have hall : ∀ d : Fin 32, b32Alphabet.getD d.val 0 ≠ 0x3d ∧
      b32Skipped (b32Alphabet.getD d.val 0) = false ∧
      b32Digit (b32Alphabet.getD d.val 0) = some (UInt8.ofNat d.val) := by decide +kernel
  exact .of_ofNat hd (hall ⟨d, hd⟩)

/-- The bits that the decoder's buffer holds. -/
def held (buffer : Int32) (bitsLeft : Nat) : List Bool := bits bitsLeft buffer.toBitVec.toNat

/-- `buffer <<= k; buffer |= low`. -/
theorem held_shift_or {buffer low : Int32} {n k : Nat} (hk : k < 32) (hn : n + k ≤ 32)
    (hlow : low.toBitVec.toNat < 2 ^ k) :
    held (buffer <<< Int32.ofNat k ||| low) (n + k) = held buffer n ++ bits k low.toBitVec.toNat := by
  have hbit : ∀ i < 32, (buffer <<< Int32.ofNat k ||| low).toBitVec.toNat.testBit i =
      ((decide (k ≤ i) && buffer.toBitVec.toNat.testBit (i - k)) || low.toBitVec.toNat.testBit i) := by
    intro i hi
    have hmod : (BitVec.ofNat 32 k).toNat = k := Nat.mod_eq_of_lt (Nat.lt_trans hk (by decide))
    rw [BitVec.testBit_toNat, BitVec.testBit_toNat, BitVec.testBit_toNat, Int32.toBitVec_or,
      BitVec.getLsbD_or, Int32.toBitVec_shiftLeft, smod_ofNat hk, BitVec.shiftLeft_eq', hmod,
      BitVec.getLsbD_shiftLeft, decide_eq_true hi, Bool.true_and]
    by_cases hki : i < k
    · rw [decide_eq_true hki, decide_eq_false (Nat.not_le.mpr hki)]
      rfl
    · rw [decide_eq_false hki, decide_eq_true (Nat.le_of_not_lt hki)]
      rfl
  rw [held, BitString.bits_add]
  congr 1
  · apply BitString.bits_congr
    intro i hi
    have hhigh : low.toBitVec.toNat.testBit (k + i) = false :=
      Nat.testBit_lt_two_pow (Nat.lt_of_lt_of_le hlow (Nat.pow_le_pow_right Nat.two_pos (Nat.le_add_right k i)))
    rw [Nat.testBit_shiftRight, hbit (k + i) (by omega), hhigh, Bool.or_false, Nat.add_sub_cancel_left,
      decide_eq_true (Nat.le_add_right k i), Bool.true_and]
  · apply BitString.bits_congr
    intro i hi
    rw [hbit i (by omega), decide_eq_false (Nat.not_le.mpr hi), Bool.false_and, Bool.false_or]

/-- The bits above the `k` low ones, of which the sign is no part. -/
theorem held_shiftRight {buffer : Int32} {j k : Nat} (hk : k < 32) (hn : j + k ≤ 32) :
    held buffer (j + k) =
      bits j (buffer >>> Int32.ofNat k).toBitVec.toNat ++ held buffer k := by
  rw [held, BitString.bits_add]
  congr 1
  apply BitString.bits_congr
  intro i hi
  have hmod : (BitVec.ofNat 32 k).toNat = k := Nat.mod_eq_of_lt (Nat.lt_trans hk (by decide))
  rw [Nat.testBit_shiftRight, BitVec.testBit_toNat, BitVec.testBit_toNat, Int32.toBitVec_shiftRight,
    smod_ofNat hk, BitVec.sshiftRight_eq', hmod, BitVec.getLsbD_sshiftRight, if_pos (by omega),
    decide_eq_false (by omega)]
  rfl

/-- `buffer <<= 5; buffer |= ch`. -/
theorem held_push {buffer : Int32} {digit : UInt8} {n : Nat} (hn : n + 5 ≤ 32)
    (hd : digit.toNat < 32) :
    held (buffer <<< 5 ||| digit.toInt8.toInt32) (n + 5) = held buffer n ++ bits 5 digit.toNat := by
  have hall : ∀ d : Fin 32, (UInt8.ofNat d.val).toInt8.toInt32.toBitVec.toNat = d.val := by
    decide +kernel
  have hdigit : (UInt8.ofNat digit.toNat).toInt8.toInt32.toBitVec.toNat = digit.toNat :=
    hall ⟨digit.toNat, hd⟩
  rw [UInt8.ofNat_toNat] at hdigit
  have hlow : digit.toInt8.toInt32.toBitVec.toNat < 2 ^ 5 := by
    rw [hdigit]
    exact hd
  exact (held_shift_or (by decide) hn hlow).trans (by rw [hdigit])

/-- `(char) (buffer >> (bitsLeft - 8))`. -/
theorem held_take {buffer : Int32} {n : Nat} (h8 : 8 ≤ n) (hn : n ≤ 32) :
    held buffer n =
      bits 8 (buffer >>> Int32.ofNat (n - 8)).toInt8.toUInt8.toNat ++ held buffer (n - 8) := by
  obtain ⟨k, rfl⟩ := Nat.exists_eq_add_of_le h8
  rw [Nat.add_sub_cancel_left, held_shiftRight (by omega) hn]
  congr 1
  apply BitString.bits_congr
  intro i hi
  show _ = (buffer >>> Int32.ofNat k).toInt8.toBitVec.toNat.testBit i
  rw [Int32.toBitVec_toInt8, BitVec.testBit_toNat, BitVec.testBit_toNat, BitVec.getLsbD_signExtend,
    decide_eq_true hi, Bool.true_and, if_pos (by omega)]

/-- The decoder takes the characters as the digits: it passes over some, and over all behind
an `=`. -/
inductive ReadAs : List UInt8 → List Nat → Prop
  | nil : ReadAs [] []
  | stop (behind : List UInt8) : ReadAs (0x3d :: behind) []
  | skip {ch : UInt8} {chars : List UInt8} {ds : List Nat} (skipped : b32Skipped ch = true)
      (rest : ReadAs chars ds) : ReadAs (ch :: chars) ds
  | digit {ch : UInt8} {d : Nat} {chars : List UInt8} {ds : List Nat} (reads : ReadsDigit ch d)
      (rest : ReadAs chars ds) : ReadAs (ch :: chars) (d :: ds)

theorem ReadAs.of_forall₂ {chars : List UInt8} {ds : List Nat}
    (h : List.Forall₂ ReadsDigit chars ds) : ReadAs chars ds := by
  induction h with
  | nil => exact .nil
  | cons hd _ ih => exact .digit hd ih

/-- The decoder writes the whole bytes among the bits it holds and those to come, if it has
room for as many. -/
theorem b32Loop_reads {chars : List UInt8} {ds : List Nat} (h : ReadAs chars ds) :
    ∀ {bs : List UInt8} {rest : List Bool} {buffer : Int32} {bitsLeft room : Nat}, bitsLeft < 8 →
      rest.length < 8 → bs.length ≤ room →
      held buffer bitsLeft ++ ds.flatMap (bits 5) = byteBits bs ++ rest →
      b32Loop chars buffer bitsLeft room = (bs, true) := by
  have hend : ∀ {bs : List UInt8} {rest : List Bool} {buffer : Int32} {bitsLeft : Nat}, bitsLeft < 8 →
      held buffer bitsLeft ++ ([] : List Nat).flatMap (bits 5) = byteBits bs ++ rest → bs = [] := by
    intro bs rest buffer bitsLeft hbits heq
    have hlen := congrArg List.length heq
    rw [List.flatMap_nil, List.append_nil, held, BitString.length_bits, List.length_append,
      length_byteBits] at hlen
    exact List.length_eq_zero_iff.mp (by omega)
  induction h with
  | nil =>
      intro bs rest buffer bitsLeft room hbits _ _ heq
      rw [hend hbits heq]
      rfl
  | stop behind =>
      intro bs rest buffer bitsLeft room hbits _ _ heq
      rw [hend hbits heq, b32Loop, if_pos (.inr rfl)]
  | @skip ch chars ds hskip _ ih =>
      intro bs rest buffer bitsLeft room hbits hrest hroom heq
      have hend : ch ≠ 0x3d := by
        rintro rfl
        cases hskip
      rw [b32Loop]
      by_cases hstop : room = 0 ∨ ch = 0x3d
      · rw [hstop.resolve_right hend] at hroom
        rw [if_pos hstop, List.length_eq_zero_iff.mp (Nat.le_zero.mp hroom)]
      · rw [if_neg hstop, if_pos hskip]
        exact ih hbits hrest hroom heq
  | @digit ch d chars ds hd _ ih =>
      intro bs rest buffer bitsLeft room hbits hrest hroom heq
      obtain ⟨hend, hskip, digit, hdigit, rfl, hlt⟩ := hd
      have hpush : held (buffer <<< 5 ||| digit.toInt8.toInt32) (bitsLeft + 5) =
          held buffer bitsLeft ++ bits 5 digit.toNat := held_push (by omega) hlt
      rw [List.flatMap_cons, ← List.append_assoc, ← hpush] at heq
      generalize hnext : buffer <<< 5 ||| digit.toInt8.toInt32 = next at heq
      rw [b32Loop]
      by_cases hstop : room = 0 ∨ ch = 0x3d
      · rw [hstop.resolve_right hend] at hroom
        rw [if_pos hstop, List.length_eq_zero_iff.mp (Nat.le_zero.mp hroom)]
      · rw [if_neg hstop, hskip, if_neg Bool.false_ne_true, hdigit]
        dsimp only
        rw [hnext]
        split
        · next h8 =>
            rw [held_take h8 (by omega), List.append_assoc] at heq
            cases bs with
            | nil =>
                -- less than a byte is left over
                have hlen := congrArg List.length heq
                rw [List.length_append, BitString.length_bits, byteBits, List.flatMap_nil,
                  List.nil_append] at hlen
                omega
            | cons b bs =>
                rw [byteBits, List.flatMap_cons, List.append_assoc] at heq
                obtain ⟨hbyte, heq⟩ :=
                  List.append_inj heq (by rw [BitString.length_bits, BitString.length_bits])
                have hb := BitString.bits_inj (UInt8.toNat_lt _) (UInt8.toNat_lt _) hbyte
                rw [List.length_cons] at hroom
                rw [UInt8.toNat_inj.mp hb, ih (by omega) hrest (by omega) heq]
        · next h8 => exact ih (Nat.lt_of_not_le h8) hrest hroom heq

/-- What spells the digits of a byte string is read back. -/
theorem b32Decode_spelled {s : CStr} {bs : List UInt8}
    (h : ReadAs s.bytes (groups 5 ((8 * bs.length + 4) / 5) (byteBits bs))) {outputSize : Nat}
    (hroom : bs.length ≤ outputSize) : b32Decode s outputSize = (.success, bs) := by
  have hlen : (byteBits bs).length ≤ 5 * ((8 * bs.length + 4) / 5) := by
    rw [length_byteBits]
    omega
  have hspelled : held 0 0 ++ (groups 5 ((8 * bs.length + 4) / 5) (byteBits bs)).flatMap (bits 5) = _ :=
    BitString.flatMap_groups hlen
  have hrest : (List.replicate (5 * ((8 * bs.length + 4) / 5) - (byteBits bs).length) false).length < 8 := by
    rw [List.length_replicate, length_byteBits]
    omega
  rw [b32Decode, b32Loop_reads h (by decide) hrest hroom hspelled]
  rfl

/-- What was written as text is read back. -/
theorem b32Decode_text {s : CStr} {bs : List UInt8} (h : s.bytes = b32Text bs) :
    b32Decode s bs.length = (.success, bs) := by
  refine b32Decode_spelled ?_ le_rfl
  rw [h, b32Text]
  refine .of_forall₂ ?_
  rw [List.forall₂_map_left_iff, List.forall₂_same]
  exact fun d hd => readsDigit_alphabet (BitString.groups_lt hd)

/-! ## Addresses -/

/-- The last four bytes of the hash of a key. -/
def addressChecksum (H : MbedtlsSha512) (key : List UInt8) : Option (List UInt8) :=
  match sha512_256 H key 32 with
  | .ok (.success, hash) => some (hash.drop 28)
  | _ => none

/-- `text` is the address of the key. -/
def IsAddress (H : MbedtlsSha512) (key text : List UInt8) : Prop :=
  ∃ checksum, addressChecksum H key = some checksum ∧ text = b32Text (key ++ checksum)

/-- The stored text is the address of the stored key. -/
def AccountInfo.Agrees (H : MbedtlsSha512) (info : AccountInfo) : Prop :=
  IsAddress H info.publicKey.toList (cString info.publicB32.toList).bytes

/-- The string is an address, in capitals and without any other character. -/
def B32Ptr.Canonical (H : MbedtlsSha512) (publicB32 : B32Ptr) : Prop :=
  ∃ key : Vector UInt8 addressLength, IsAddress H key.toList publicB32.str.bytes

/-- The decoder rejects the string, or it decodes to less than 36 bytes, or the last four
are not those of the hash. -/
def B32Ptr.Unusable (H : MbedtlsSha512) (publicB32 : B32Ptr) : Prop :=
  (b32Decode publicB32.str 36).1 ≠ .success ∨ (b32Decode publicB32.str 36).2.length < 36 ∨
    addressChecksum H ((b32Decode publicB32.str 36).2.take 32) ≠
      some ((b32Decode publicB32.str 36).2.drop 32)

theorem length_addressChecksum {H : MbedtlsSha512} {key checksum : List UInt8}
    (h : addressChecksum H key = some checksum) : checksum.length = 4 := by
  rw [addressChecksum] at h
  split at h
  · next hash hhash =>
      cases h
      rw [sha512_256] at hhash
      split at hhash
      · cases hhash
      · split at hhash
        · cases hhash
        · split at hhash
          · cases hhash
          · next digest hdigest =>
              rw [if_pos (by decide)] at hhash
              cases hhash
              rw [List.length_drop, List.length_take, List.length_append, Vector.length_toList,
                List.length_replicate]
              rfl
  · cases h

section

variable {H : MbedtlsSha512} {publicB32 : B32Ptr}

theorem IsAddress.length_eq {key text : List UInt8} (hkey : key.length = 32)
    (h : IsAddress H key text) : text.length = 58 := by
  obtain ⟨checksum, hsum, rfl⟩ := h
  rw [b32Text, List.length_map, BitString.length_groups, List.length_append, hkey,
    length_addressChecksum hsum]

/-- An address is decoded to its key and the four bytes. -/
theorem IsAddress.decode {key : List UInt8} (hkey : key.length = 32)
    (h : IsAddress H key publicB32.str.bytes) :
    ∃ checksum, addressChecksum H key = some checksum ∧
      b32Decode publicB32.str 36 = (.success, key ++ checksum) := by
  obtain ⟨checksum, hsum, htext⟩ := h
  have hdecode := b32Decode_text htext
  rw [List.length_append, hkey, length_addressChecksum hsum] at hdecode
  exact ⟨checksum, hsum, hdecode⟩

/-- An address is not unusable. -/
theorem B32Ptr.Canonical.not_unusable (h : publicB32.Canonical H) : ¬ publicB32.Unusable H := by
  obtain ⟨key, hkey⟩ := h
  obtain ⟨checksum, hsum, hdecode⟩ := hkey.decode key.length_toList
  have hlen : (key.toList ++ checksum).length = 36 := by
    rw [List.length_append, key.length_toList, length_addressChecksum hsum]
  rw [Unusable, hdecode, List.take_left' key.length_toList, List.drop_left' key.length_toList, hsum]
  rintro (herr | hshort | hother)
  · exact herr rfl
  · exact absurd hlen (Nat.ne_of_lt hshort)
  · exact hother rfl

/-- A string that ends within the bytes copied is copied whole. -/
theorem str_eq_copied_of_copied (h : (cString publicB32.copied.toList).strlen < publicB32StrMaxLength) :
    publicB32.str = cString publicB32.copied.toList := by
  apply CStr.ext
  show List.takeWhile _ (_ ++ _) = List.takeWhile _ _
  rw [List.takeWhile_append, if_neg]
  intro hwhole
  have hlen : (List.takeWhile (· != 0) publicB32.copied.toList).length < publicB32StrMaxLength := h
  rw [hwhole, Vector.length_toList] at hlen
  exact Nat.lt_irrefl _ hlen

theorem str_eq_copied_of_str (h : publicB32.str.strlen < publicB32StrMaxLength) :
    publicB32.str = cString publicB32.copied.toList := by
  apply str_eq_copied_of_copied
  have hle : (List.takeWhile (· != 0) publicB32.copied.toList).length ≤
      (List.takeWhile (· != 0) (publicB32.copied.toList ++ publicB32.behind)).length := by
    rw [List.takeWhile_append]
    split
    · next hwhole =>
        rw [hwhole, List.length_append]
        exact Nat.le_add_right _ _
    · exact Nat.le_refl _
  exact Nat.lt_of_le_of_lt hle h

/-- Of the bytes decoded the first are the key. -/
theorem fromB32Init_publicKey (info : AccountInfo) {key : Vector UInt8 addressLength}
    {err : RetCode} {checksum : List UInt8}
    (h : b32Decode publicB32.str 36 = (err, key.toList ++ checksum)) :
    (fromB32Init publicB32 info).publicKey = key := by
  rw [fromB32Init, h]
  ext i hi
  have hik : i < key.toList.length := by
    rw [Vector.length_toList]
    exact hi
  rw [Vector.getElem_ofFn, List.getD_eq_getElem?_getD, List.getElem?_append_left hik,
    List.getElem?_eq_getElem hik, Vector.getElem_toList, Option.getD_some]

/-- What is stored agrees exactly if the string was an address. -/
theorem fromB32Init_agrees_iff (info : AccountInfo) :
    ({ fromB32Init publicB32 info with publicB32 := publicB32.copied } : AccountInfo).Agrees H ↔
      publicB32.Canonical H := by
  constructor
  · intro h
    have hlen := h.length_eq Vector.length_toList
    have hshort : (cString publicB32.copied.toList).strlen < publicB32StrMaxLength := by
      rw [CStr.strlen, hlen]
      decide
    refine ⟨(fromB32Init publicB32 info).publicKey, ?_⟩
    rw [str_eq_copied_of_copied hshort]
    exact h
  · rintro ⟨key, hkey⟩
    have hlen := hkey.length_eq key.length_toList
    have hshort : publicB32.str.strlen < publicB32StrMaxLength := by
      rw [CStr.strlen, hlen]
      decide
    obtain ⟨checksum, hsum, hdecode⟩ := hkey.decode key.length_toList
    rw [AccountInfo.Agrees, fromB32Init_publicKey info hdecode, ← str_eq_copied_of_str hshort]
    exact hkey

theorem AccountInfo.SameAddress.agrees_iff {info info' : AccountInfo} (h : info.SameAddress info') :
    info'.Agrees H ↔ info.Agrees H := by
  rw [AccountInfo.Agrees, AccountInfo.Agrees, h.1, h.2]

end

/-! ## The tables -/

/-- Every public account that is in use agrees. -/
def AccountsAgree (H : MbedtlsSha512) (accounts : MAccounts) : Prop :=
  ∀ i, (accounts.get i).status = .added → (accounts.get i).account.info.Agrees H

/-- Every wallet account that is in use agrees. -/
def WalletAgrees (H : MbedtlsSha512) (wallet : SAccounts) : Prop :=
  ∀ i info, (wallet.get i).status = .added → (wallet.get i).vtcAccount = some info → info.Agrees H

def Registry.AddressesAgree (H : MbedtlsSha512) (t : Registry) : Prop :=
  AccountsAgree H t.accounts ∧ WalletAgrees H t.wallet

/-- The string of a call that creates an account. -/
def RegistryCall.newString : RegistryCall → Option B32Ptr
  | .accountNew publicB32 _ | .sAccountNew publicB32 _ _ _ _ => some publicB32
  | _ => none

/-- An account is created only from an address, or where its table is full; a table is
loaded only if it agrees. -/
def RegistryCall.KeepsAddresses (H : MbedtlsSha512) (S : Sodium) (t : Registry) :
    RegistryCall → Prop
  | .accountNew publicB32 _ => (∀ i, (t.accounts.get i).status ≠ .none) ∨ publicB32.Canonical H
  | .sAccountNew publicB32 _ _ _ _ =>
      (∀ i, (t.wallet.get i).status ≠ .none) ∨ publicB32.Canonical H
  | .sAccountLoad sodiumInit env password =>
      ∀ wallet, Vertices.sAccountLoad S sodiumInit env t.file password t.wallet =
        .ok (.success, wallet) → WalletAgrees H wallet
  | .verticesWalletLoad sodiumInit env password =>
      ∀ wallet, Vertices.verticesWalletLoad S sodiumInit env t.file password t.wallet =
        .ok (.success, wallet) → WalletAgrees H wallet
  | _ => True

/-- An unusable string is refused: an error, and nothing changes. -/
def RegistryCall.Refuses (H : MbedtlsSha512) (R : MpackReader) (S : Sodium) (t : Registry)
    (call : RegistryCall) : Prop :=
  ∀ publicB32, call.newString = some publicB32 → publicB32.Unusable H →
    ∃ err, err ≠ .success ∧ call.run R S t = .ok (err, t)

section

variable {H : MbedtlsSha512} {R : MpackReader} {S : Sodium} {t t' : Registry}

theorem AccountsAgree.set {accounts : MAccounts} (h : AccountsAgree H accounts) {i : Nat}
    (hi : i < accountsMaximumCount) {a : LocalAccount} :
    AccountsAgree H (accounts.set i a hi) ↔ (a.status = .added → a.account.info.Agrees H) := by
  constructor
  · intro hset
    have hentry := hset ⟨i, hi⟩
    rwa [get_set, if_pos rfl] at hentry
  · intro ha j
    rw [get_set]
    split
    · exact ha
    · exact h j

theorem WalletAgrees.set {wallet : SAccounts} (h : WalletAgrees H wallet) {i : Nat}
    (hi : i < secretAccountsMaximumCount) {a : SAccount} :
    WalletAgrees H (wallet.set i a hi) ↔
      ∀ info, a.status = .added → a.vtcAccount = some info → info.Agrees H := by
  constructor
  · intro hset
    have hentry := hset ⟨i, hi⟩
    rwa [get_set, if_pos rfl] at hentry
  · intro ha j
    rw [get_set]
    split
    · exact ha
    · exact h j

theorem find_none_iff {α : Type} {n : Nat} {v : Vector α n} {status : α → AccountStatus} :
    v.findFinIdx? (fun a => status a == .none) = none ↔ ∀ i, status (v.get i) ≠ .none := by
  rw [Vector.findFinIdx?_eq_none_iff]
  constructor
  · intro h i hi
    exact h (v.get i) (Vector.getElem_mem i.isLt) (beq_iff_eq.mpr hi)
  · intro h a ha hnone
    obtain ⟨i, hi, rfl⟩ := Vector.getElem_of_mem ha
    exact h ⟨i, hi⟩ (beq_iff_eq.mp hnone)

theorem find_some_not_full {α : Type} {n : Nat} {v : Vector α n} (status : α → AccountStatus)
    {i : Fin n} (h : v.findFinIdx? (fun a => status a == .none) = some i) :
    ¬ ∀ i, status (v.get i) ≠ .none := by
  intro hfull
  rw [find_none_iff.mpr hfull] at h
  cases h

theorem keeps_accountNew {publicB32 : B32Ptr} {reply : HttpReply} {err : RetCode}
    {slot : Option (Fin accountsMaximumCount)} {accounts : MAccounts} {p : Provider}
    (ht : t.AddressesAgree H)
    (hnew : accountNew R publicB32 reply t.accounts t.provider = .ok (err, slot, accounts, p)) :
    Registry.AddressesAgree H { t with accounts := accounts, provider := p } ↔
      (∀ i, (t.accounts.get i).status ≠ .none) ∨ publicB32.Canonical H := by
  rw [accountNew.eq_def] at hnew
  split at hnew
  · next hfull =>
      obtain ⟨-, -, rfl, -⟩ := pure_eq_ok4.mp hnew
      exact iff_of_true ht (.inl (find_none_iff.mp hfull))
  · next i hfree =>
      obtain ⟨⟨err'', details, p'⟩, hget, hnew⟩ := bind_eq_ok.mp hnew
      obtain ⟨-, -, rfl, -⟩ := pure_eq_ok4.mp hnew
      have hnotfull := find_some_not_full LocalAccount.status hfree
      have hsame := providerAccountInfoGet_sameAddress hget
      rw [or_iff_right hnotfull, ← fromB32Init_agrees_iff t.accounts[i].account.info]
      show AccountsAgree H (t.accounts.set i.val ⟨details, .added⟩ i.isLt) ∧ WalletAgrees H t.wallet ↔ _
      rw [and_iff_left ht.2, ht.1.set, hsame.agrees_iff]
      exact forall_prop_of_true rfl

theorem keeps_sAccountNew {publicB32 : B32Ptr} {privateKey : Vector UInt8 addressLength}
    {name : CStr} {reply : HttpReply} {stack : AccountDetails} {err : RetCode}
    {slot : Option (Fin secretAccountsMaximumCount)} {wallet : SAccounts} {p : Provider}
    (ht : t.AddressesAgree H)
    (hnew : sAccountNew R publicB32 privateKey name reply stack t.wallet t.provider =
      .ok (err, slot, wallet, p)) :
    Registry.AddressesAgree H { t with wallet := wallet, provider := p } ↔
      (∀ i, (t.wallet.get i).status ≠ .none) ∨ publicB32.Canonical H := by
  rw [sAccountNew.eq_def] at hnew
  split at hnew
  · next hfull =>
      obtain ⟨-, -, rfl, -⟩ := pure_eq_ok4.mp hnew
      exact iff_of_true ht (.inl (find_none_iff.mp hfull))
  · next i hfree =>
      split at hnew
      · cases hnew
      · next info hinfo =>
          obtain ⟨⟨err'', details, p'⟩, hget, hnew⟩ := bind_eq_ok.mp hnew
          obtain ⟨name', -, hnew⟩ := bind_eq_ok.mp hnew
          obtain ⟨-, -, rfl, -⟩ := pure_eq_ok4.mp hnew
          have hnotfull := find_some_not_full SAccount.status hfree
          have hsame := providerAccountInfoGet_sameAddress hget
          rw [or_iff_right hnotfull, ← fromB32Init_agrees_iff info]
          show AccountsAgree H t.accounts ∧ WalletAgrees H (t.wallet.set i.val _ i.isLt) ↔ _
          rw [and_iff_right ht.1, ht.2.set]
          constructor
          · intro hset
            exact hsame.agrees_iff.mp (hset details.info rfl rfl)
          · intro hagrees info' _ hinfo'
            cases hinfo'
            exact hsame.agrees_iff.mpr hagrees

theorem accountsAgree_accountInit : AccountsAgree H accountInit := by
  intro i hi
  change ((Vector.replicate accountsMaximumCount LocalAccount.zero)[i.val]).status = .added at hi
  rw [Vector.getElem_replicate] at hi
  cases hi

theorem walletAgrees_sAccountInit : WalletAgrees H sAccountInit := by
  intro i info hi
  change ((Vector.replicate secretAccountsMaximumCount (_ : SAccount))[i.val]).status = .added at hi
  rw [Vector.getElem_replicate] at hi
  cases hi

theorem AccountsAgree.accountFree {accounts : MAccounts} (h : AccountsAgree H accounts)
    (account : AccountPtr) : AccountsAgree H (accountFree account accounts).2 := by
  cases account with
  | mAccount i => exact (h.set i.isLt).mpr AccountStatus.noConfusion
  | other info => exact h

theorem WalletAgrees.sAccountFree {wallet : SAccounts} (h : WalletAgrees H wallet)
    (account : SAccountPtr) : WalletAgrees H (sAccountFree account wallet).2 := by
  cases account with
  | sAccount i =>
      refine (h.set i.isLt).mpr ?_
      intro info hadded
      cases hadded
  | other => exact h

theorem AccountsAgree.sWalletFree {accounts : MAccounts} (h : AccountsAgree H accounts) :
    AccountsAgree H (Vertices.sWalletFree accounts).2 := by
  intro i
  have hentry : (Vertices.sWalletFree accounts).2.get i =
      if i.val < secretAccountsMaximumCount then .zero else accounts.get i :=
    Vector.getElem_ofFn i.isLt
  rw [hentry]
  split
  · exact AccountStatus.noConfusion
  · exact h i

theorem AccountsAgree.accountUpdate {accounts accounts' : MAccounts} {account : AccountPtr}
    {reply : HttpReply} {p p' : Provider} {err : RetCode} (h : AccountsAgree H accounts)
    (hupdate : accountUpdate R account reply accounts p = .ok (err, accounts', p')) :
    AccountsAgree H accounts' := by
  cases account with
  | mAccount i =>
      obtain ⟨⟨err', details, p''⟩, hget, hupdate⟩ := bind_eq_ok.mp hupdate
      obtain ⟨-, rfl, -⟩ := pure_eq_ok3.mp hupdate
      refine (h.set i.isLt).mpr fun hadded => ?_
      exact (providerAccountInfoGet_sameAddress hget).agrees_iff.mpr (h i hadded)
  | other info =>
      obtain ⟨-, rfl, -⟩ := pure_eq_ok3.mp hupdate
      exact h

theorem WalletAgrees.sAccountUpdate {wallet wallet' : SAccounts} {addresses : EntryAddresses}
    {account : SAccountPtr} {reply : HttpReply} {stack : AccountDetails} {p p' : Provider} {err : RetCode}
    (h : WalletAgrees H wallet)
    (hupdate : sAccountUpdate R addresses account reply stack wallet p = .ok (err, wallet', p')) :
    WalletAgrees H wallet' := by
  rcases sAccountUpdate_cases hupdate with rfl | ⟨i, info, code, details, hinfo, hget, rfl⟩
  · exact h
  · refine (h.set i.isLt).mpr fun info' hadded hinfo' => ?_
    cases hinfo'
    exact (providerAccountInfoGet_sameAddress hget).agrees_iff.mpr (h i info hadded hinfo)

/-- A load leaves a table that agrees exactly if it does not bring one that does not. -/
theorem walletAgrees_load_iff {sodiumInit : Bool} {env : LoadEnv secretAccountsMaximumCount}
    {file : Option (List UInt8)} {password : CStr} {wallet wallet' : SAccounts} {err : RetCode}
    (h : WalletAgrees H wallet)
    (hload : sAccountLoad S sodiumInit env file password wallet = .ok (err, wallet')) :
    WalletAgrees H wallet' ↔ ∀ loaded,
      sAccountLoad S sodiumInit env file password wallet = .ok (.success, loaded) →
        WalletAgrees H loaded := by
  rw [hload]
  constructor
  · intro hagrees loaded heq
    cases heq
    exact hagrees
  · intro hloaded
    by_cases herr : err = .success
    · exact hloaded wallet' (by rw [herr])
    · rw [(sAccountLoad_cases hload).2 herr]
      exact h

/-- One call keeps the addresses exactly if it may. -/
theorem keepsAddresses_iff {call : RegistryCall} (ht : t.AddressesAgree H)
    (h : RegistryStep R S t call t') : t'.AddressesAgree H ↔ call.KeepsAddresses H S t := by
  cases h.effect with
  | accountNew hnew => exact keeps_accountNew ht hnew
  | sAccountNew hnew => exact keeps_sAccountNew ht hnew
  | sAccountLoad hload => exact (and_iff_right ht.1).trans (walletAgrees_load_iff ht.2 hload)
  | verticesWalletLoad hload =>
      exact (and_iff_right ht.1).trans (walletAgrees_load_iff walletAgrees_sAccountInit hload)
  | accountInit => exact iff_of_true ⟨accountsAgree_accountInit, ht.2⟩ trivial
  | accountFree account => exact iff_of_true ⟨ht.1.accountFree account, ht.2⟩ trivial
  | accountUpdate hupdate => exact iff_of_true ⟨ht.1.accountUpdate hupdate, ht.2⟩ trivial
  | sAccountInit => exact iff_of_true ⟨ht.1, walletAgrees_sAccountInit⟩ trivial
  | sAccountUpdate hupdate => exact iff_of_true ⟨ht.1, ht.2.sAccountUpdate hupdate⟩ trivial
  | sAccountFree account => exact iff_of_true ⟨ht.1, ht.2.sAccountFree account⟩ trivial
  | sWalletFree => exact iff_of_true ⟨ht.1.sWalletFree, ht.2⟩ trivial
  | _ => exact iff_of_true ht trivial

/-- Where the addresses are kept, a string that is no address meets a full table. -/
theorem refuses_of_keeps {call : RegistryCall} (h : call.KeepsAddresses H S t) :
    call.Refuses H R S t := by
  intro publicB32 hcall hunusable
  cases call with
  | accountNew publicB32 reply =>
      cases hcall
      rcases h with hfull | hcanonical
      · refine ⟨.errorNoMem, RetCode.noConfusion, ?_⟩
        rw [RegistryCall.run, Vertices.accountNew, find_none_iff.mpr hfull]
        rfl
      · exact absurd hunusable hcanonical.not_unusable
  | sAccountNew publicB32 privateKey name reply stack =>
      cases hcall
      rcases h with hfull | hcanonical
      · refine ⟨.errorNoMem, RetCode.noConfusion, ?_⟩
        rw [RegistryCall.run, Vertices.sAccountNew, find_none_iff.mpr hfull]
        rfl
      · exact absurd hunusable hcanonical.not_unusable
  | _ => cases hcall

end

/-! ## Every run -/

/-- After `vertices_new`, the addresses agree in every state of a run and every unusable
string is refused, exactly if each account is created from an address or refused for want
of an entry, and each table loaded agrees. -/
theorem addresses_agree_iff (H : MbedtlsSha512) (R : MpackReader) (S : Sodium)
    (calls : List RegistryCall) :
    ((∀ before after u, calls = before ++ after → Run (RegistryStep R S) .start before u →
        u.AddressesAgree H) ∧
      ∀ before call after u v, calls = before ++ call :: after →
        Run (RegistryStep R S) .start before u → RegistryStep R S u call v →
          call.Refuses H R S u) ↔
    ∀ before call after u v, calls = before ++ call :: after →
      Run (RegistryStep R S) .start before u → RegistryStep R S u call v →
        call.KeepsAddresses H S u := by
  have hstart : Registry.start.AddressesAgree H :=
    ⟨accountsAgree_accountInit, walletAgrees_sAccountInit⟩
  have hstep : ∀ t call t', t.AddressesAgree H → RegistryStep R S t call t' →
      (t'.AddressesAgree H ↔ call.KeepsAddresses H S t) :=
    fun t call t' ht hstep => keepsAddresses_iff ht hstep
  have halways := Run.always_iff_at calls hstep hstart
  constructor
  · intro h
    exact halways.mp h.1
  · intro h
    refine ⟨halways.mpr h, ?_⟩
    intro before call after u v hcalls hu hstep
    exact refuses_of_keeps (h before call after u v hcalls hu hstep)

/-! ## Two strings -/

/-- The address of the key that is all zero. -/
def zeroAddress : B32Ptr where
  copied := Vector.ofFn fun i =>
    (lit "AAAAAAAAAAAAAAAAAAAAAAAAAAAAAAAAAAAAAAAAAAAAAAAAAAAAY5HFKQ").getD i.val 0
  behind := []

example : zeroAddress.Canonical sha512OfZeros :=
  ⟨.replicate _ 0, [0x0c, 0x74, 0xe5, 0x54], by decide +kernel, by decide +kernel⟩

/-- No character at all. -/
def emptyAddress : B32Ptr := ⟨Vector.replicate _ 0, []⟩

/-- The empty string takes an entry, and the call is a success. -/
theorem empty_address_accepted :
    emptyAddress.Unusable sha512OfZeros ∧
      ∃ t, RegistryCall.run formatReader oneSodium .start (.accountNew emptyAddress ⟨[], .success, 200⟩) =
          .ok (.success, t) ∧
        (t.accounts.get 0).status = .added ∧ ¬ t.AddressesAgree sha512OfZeros := by
  have hseen : (RegistryCall.run formatReader oneSodium .start
      (.accountNew emptyAddress ⟨[], .success, 200⟩)).map (fun r =>
        (r.1, (r.2.accounts.get 0).status, (r.2.accounts.get 0).account.info.publicB32)) =
      .ok (.success, .added, Vector.replicate _ 0) := by decide +kernel
  refine ⟨.inr (.inl (by decide +kernel)), ?_⟩
  cases hrun : RegistryCall.run formatReader oneSodium .start
      (.accountNew emptyAddress ⟨[], .success, 200⟩) with
  | error f =>
      rw [hrun] at hseen
      cases hseen
  | ok r =>
      obtain ⟨err, t⟩ := r
      rw [hrun, Except.map, Except.ok.injEq, Prod.mk.injEq, Prod.mk.injEq] at hseen
      obtain ⟨herr, hadded, htext⟩ := hseen
      have herr : err = .success := herr
      subst herr
      refine ⟨t, rfl, hadded, fun h => ?_⟩
      have hlen := (h.1 0 hadded).length_eq Vector.length_toList
      rw [htext] at hlen
      revert hlen
      decide +kernel

end Vertices
