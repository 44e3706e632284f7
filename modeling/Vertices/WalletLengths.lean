/-
# `Vertices.WalletLengths` — the lengths of a wallet's file

`load_account_data` reads what there is, and `decrypt` subtracts the nonce and the MAC from
that length without asking whether they are in it.  Behind the decryption the table is copied
at its own size.  The two subtractions are unsigned, of 32 bits.

    `decrypt_short`         with a nonce and less than a MAC the box does not open
    `lengths_within_iff`    the files with which no length is beyond what was read
-/
import Vertices.WalletLoad

namespace Vertices

/-! ## The lengths as computed -/

/-- `ciphertext_len - NONCE_SIZE`. -/
def openLength (ciphertextLen : Nat) : UInt32 := UInt32.ofNat ciphertextLen - UInt32.ofNat nonceSize

/-- `ciphertext_len - MAC_SIZE - NONCE_SIZE`, as the `int` that `plaintext_len` is. -/
def plaintextLen (ciphertextLen : Nat) : Int32 :=
  (UInt32.ofNat ciphertextLen - UInt32.ofNat macSize - UInt32.ofNat nonceSize).toInt32

/-- The table in the file of the wallet. -/
abbrev tableLength : Nat := plaintextLength secretAccountsMaximumCount

/-- The length of a box is within what was read, or wraps. -/
theorem openLength_le_iff {len : Nat} (h : len < 2 ^ 32) :
    (openLength len).toNat ≤ len ↔ nonceSize ≤ len := by
  have hlen : (UInt32.ofNat len).toNat = len := UInt32.toNat_ofNat_of_lt' h
  have hnonce : (UInt32.ofNat nonceSize).toNat = 24 := rfl
  rw [openLength, UInt32.toNat_sub, hlen, hnonce]
  show _ ↔ 24 ≤ len
  omega

section

variable {S : Sodium} {env : LoadEnv secretAccountsMaximumCount} {bs opened : List UInt8}
  {password : CStr}

/-- What is read is all of the file behind the salt, up to a whole table. -/
theorem length_ciphertextRead (bs : List UInt8) :
    (ciphertextRead secretAccountsMaximumCount bs).length =
      min (tableLength + macSize + nonceSize) (bs.length - saltSize) := by
  rw [ciphertextRead, List.length_take, List.length_drop]

theorem ciphertextRead_lt (bs : List UInt8) :
    (ciphertextRead secretAccountsMaximumCount bs).length < 2 ^ 32 := by
  rw [length_ciphertextRead]
  exact Nat.lt_of_le_of_lt (Nat.min_le_left _ _) (by decide)

theorem nonceSize_le_iff : nonceSize ≤ (ciphertextRead secretAccountsMaximumCount bs).length ↔
    saltSize + nonceSize ≤ bs.length := by
  rw [length_ciphertextRead]
  show 24 ≤ min (840 + 16 + 24) (bs.length - 16) ↔ 16 + 24 ≤ bs.length
  omega

theorem whole_table_iff :
    (ciphertextRead secretAccountsMaximumCount bs).length = tableLength + macSize + nonceSize ↔
      saltSize + nonceSize + macSize + tableLength ≤ bs.length := by
  rw [length_ciphertextRead]
  show min (840 + 16 + 24) (bs.length - 16) = 840 + 16 + 24 ↔ 16 + 24 + 16 + 840 ≤ bs.length
  omega

/-- A box is shorter than what was read, by the nonce and the MAC. -/
theorem BoxOpens.length (hS : S.Lawful) (h : BoxOpens S env bs password opened) :
    opened.length + macSize + nonceSize = (ciphertextRead secretAccountsMaximumCount bs).length := by
  obtain ⟨key, -, hlong, hopen⟩ := h
  have hlen := hS.length_open hopen
  rw [List.length_drop] at hlen
  omega

/-- With less than a MAC behind the nonce. -/
theorem decrypt_short (hS : S.Lawful) {m : Nat} {ciphertext : List UInt8} {key : Vector UInt8 keySize}
    {plaintext : Vector UInt8 m} (hlong : nonceSize ≤ ciphertext.length)
    (hshort : ciphertext.length < nonceSize + macSize) :
    decrypt S ciphertext key plaintext = .ok (.errorInternal, plaintext) := by
  have hnone : S.secretboxOpenEasy (ciphertext.drop nonceSize) (nonceOf ciphertext) key = none := by
    cases hopen : S.secretboxOpenEasy (ciphertext.drop nonceSize) (nonceOf ciphertext) key with
    | none => rfl
    | some opened =>
        have hlen := hS.length_open hopen
        rw [List.length_drop] at hlen
        omega
  rw [decrypt, if_neg (Nat.not_lt.mpr hlong), hnone]
  rfl

/-- A box that opens is loaded. -/
theorem BoxOpens.load (hS : S.Lawful) (h : BoxOpens S env bs password opened) (accounts : SAccounts) :
    ∃ accounts', loadAccountData S env (some bs) password accounts = .ok (.success, accounts') := by
  have hlen := h.length hS
  have hbound : (ciphertextRead secretAccountsMaximumCount bs).length ≤ tableLength + macSize + nonceSize := by
    rw [length_ciphertextRead]
    exact Nat.min_le_left _ _
  have hfits : 0 + opened.length ≤ tableLength := by omega
  obtain ⟨key, hkey, hlong, hopen⟩ := h
  rw [ciphertextRead] at hlong hopen
  rw [loadAccountData.eq_def, if_neg (by decide)]
  dsimp only
  rw [deriveKey, hkey]
  dsimp only
  rw [decrypt, if_neg (Nat.not_lt.mpr hlong), hopen]
  dsimp only
  rw [memcpy, dif_pos hfits]
  exact ⟨_, rfl⟩

end

/-! ## Within what was read -/

/-- A key is derived from the password and what was read of the salt. -/
def KeyDerived (S : Sodium) (env : LoadEnv secretAccountsMaximumCount) (bs : List UInt8) (password : CStr)
    (key : Vector UInt8 keySize) : Prop :=
  S.pwhash password.bytes (fread env.salt bs) = some key

/-- The lengths of a load of the file `bs` stay within what was read of it. -/
structure LengthsWithin (S : Sodium) (env : LoadEnv secretAccountsMaximumCount) (bs : List UInt8)
    (password : CStr) : Prop where
  -- `decrypt` returns an error if there is no nonce and MAC
  rejects : ∀ key, KeyDerived S env bs password key →
    (ciphertextRead secretAccountsMaximumCount bs).length < nonceSize + macSize →
      ∃ err plaintext, err ≠ .success ∧
        decrypt S (ciphertextRead secretAccountsMaximumCount bs) key env.plaintext = .ok (err, plaintext)
  -- `crypto_secretbox_open_easy` is given no more than was read
  opens : ∀ key, KeyDerived S env bs password key →
    (openLength (ciphertextRead secretAccountsMaximumCount bs).length).toNat ≤
      (ciphertextRead secretAccountsMaximumCount bs).length
  -- what is copied to the table and the records was decrypted
  copies : ∀ accounts accounts', loadAccountData S env (some bs) password accounts = .ok (.success, accounts') →
    (tableLength : Int) ≤ (plaintextLen (ciphertextRead secretAccountsMaximumCount bs).length).toInt ∧
      ∃ opened, BoxOpens S env bs password opened ∧ opened.length = tableLength ∧
        accounts' = ((walletLayout _).decode opened).1.zipWith StoredAccount.withRecord
          ((walletLayout _).decode opened).2

/-- There is a salt and a nonce; and if what follows opens, it is a whole table. -/
def LongEnough (S : Sodium) (env : LoadEnv secretAccountsMaximumCount) (bs : List UInt8)
    (password : CStr) : Prop :=
  (∀ key, ¬ KeyDerived S env bs password key) ∨
    saltSize + nonceSize ≤ bs.length ∧
      ((∃ opened, BoxOpens S env bs password opened) →
        saltSize + nonceSize + macSize + tableLength ≤ bs.length)

/-- The lengths computed in a load stay within what was read exactly if no key is derived, or
the file has a salt and a nonce, and a whole table if its box opens. -/
theorem lengths_within_iff {S : Sodium} (hS : S.Lawful) (env : LoadEnv secretAccountsMaximumCount)
    (bs : List UInt8) (password : CStr) :
    LengthsWithin S env bs password ↔ LongEnough S env bs password := by
  constructor
  · intro h
    by_cases hkey : ∃ key, KeyDerived S env bs password key
    · obtain ⟨key, hkey⟩ := hkey
      refine .inr ⟨?_, ?_⟩
      · have hopens := h.opens key hkey
        rw [openLength_le_iff (ciphertextRead_lt bs)] at hopens
        exact nonceSize_le_iff.mp hopens
      · rintro ⟨opened, hopened⟩
        obtain ⟨accounts', hload⟩ := hopened.load hS sAccountInit
        obtain ⟨-, opened', hopened', hwhole, -⟩ := h.copies _ _ hload
        rw [← whole_table_iff, ← hopened'.length hS, hwhole]
    · exact .inl (not_exists.mp hkey)
  · intro h
    constructor
    · intro key hkey hshort
      rcases h with hnone | ⟨hlong, -⟩
      · exact absurd hkey (hnone key)
      · exact ⟨_, _, RetCode.noConfusion, decrypt_short hS (nonceSize_le_iff.mpr hlong) hshort⟩
    · intro key hkey
      rcases h with hnone | ⟨hlong, -⟩
      · exact absurd hkey (hnone key)
      · exact (openLength_le_iff (ciphertextRead_lt bs)).mpr (nonceSize_le_iff.mpr hlong)
    · intro accounts accounts' hload
      rcases loadAccountData_table hload with ⟨hne, -⟩ | ⟨-, table, htable, rfl⟩
      · exact absurd rfl hne
      · obtain ⟨bs', opened, hfile, hopened, rfl⟩ := htable
        cases hfile
        have hwhole : (ciphertextRead secretAccountsMaximumCount bs).length =
            tableLength + macSize + nonceSize := by
          rcases h with hnone | ⟨-, hwhole⟩
          · obtain ⟨key, hkey, -⟩ := hopened
            exact absurd hkey (hnone key)
          · exact whole_table_iff.mpr (hwhole ⟨opened, hopened⟩)
        have hlen := hopened.length hS
        rw [hwhole] at hlen
        have hlen : opened.length = tableLength := by omega
        refine ⟨?_, opened, hopened, hlen, ?_⟩
        · rw [hwhole]
          decide
        · rw [hlen, List.drop_of_length_le env.plaintext.length_toList.le, List.append_nil]

/-! ## Short files -/

theorem oneSodium_lawful : oneSodium.Lawful := sampleSodium_lawful _ _ (by decide +kernel)

/-- A salt and a nonce, and no box. -/
theorem lengths_within_iff_nonce :
    LengthsWithin oneSodium zeroLoadEnv (List.replicate 40 0) (cString (lit "pw")) := by
  rw [lengths_within_iff oneSodium_lawful]
  refine .inr ⟨by decide, ?_⟩
  rintro ⟨opened, hopened⟩
  have hlen : opened.length + 16 + 24 = 24 :=
    (hopened.length oneSodium_lawful).trans (by decide +kernel)
  omega

/-- A file that ends behind the salt: the box is taken to be almost 4 GiB long.  And a file with
a box of one account: of the table, most is what the buffer held. -/
theorem short_files_out_of_bounds :
    (openLength (ciphertextRead secretAccountsMaximumCount (List.replicate 16 0)).length).toNat =
        4294967272 ∧
      loadAccountData oneSodium zeroLoadEnv (some (List.replicate 16 0)) (cString (lit "pw")) sAccountInit =
        .error .outOfBounds ∧
      ¬ LengthsWithin oneSodium zeroLoadEnv (List.replicate 16 0) (cString (lit "pw")) ∧
      BoxOpens oneSodium zeroLoadEnv (List.replicate 40 0 ++ oneBox) (cString (lit "pw")) onePlaintext ∧
      onePlaintext.length < tableLength ∧
      ¬ LengthsWithin oneSodium zeroLoadEnv (List.replicate 40 0 ++ oneBox) (cString (lit "pw")) := by
  have hkey : ∀ bs, fread zeroLoadEnv.salt bs = Vector.replicate _ 0 →
      KeyDerived oneSodium zeroLoadEnv bs (cString (lit "pw")) oneKey := by
    intro bs hsalt
    have hpassword : (cString (lit "pw")).bytes = lit "pw" := by decide +kernel
    rw [KeyDerived, hsalt, hpassword]
    simp [oneSodium, sampleSodium]
  have hshort : KeyDerived oneSodium zeroLoadEnv (List.replicate 16 0) (cString (lit "pw")) oneKey :=
    hkey _ (by decide +kernel)
  have hboxed : BoxOpens oneSodium zeroLoadEnv (List.replicate 40 0 ++ oneBox) (cString (lit "pw"))
      onePlaintext :=
    ⟨oneKey, hkey _ (by decide +kernel), by decide +kernel, by decide +kernel⟩
  have hone : onePlaintext.length < tableLength := by decide +kernel
  refine ⟨by decide +kernel, by decide +kernel, fun h => ?_, hboxed, hone, fun h => ?_⟩
  · have hopens := h.opens _ hshort
    rw [openLength_le_iff (ciphertextRead_lt _), nonceSize_le_iff] at hopens
    revert hopens
    decide
  · obtain ⟨accounts', hload⟩ := hboxed.load oneSodium_lawful sAccountInit
    obtain ⟨-, opened, hopened, hwhole, -⟩ := h.copies _ _ hload
    rw [hopened.unique hboxed] at hwhole
    exact absurd hwhole (Nat.ne_of_lt hone)

end Vertices
