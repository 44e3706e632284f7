/-
# `Vertices.WalletLoad` — a wallet that cannot be loaded

`load_account_data` writes to the table only once the file has been opened under the
password, so `s_account_load` leaves the wallet as it is when it fails.
`vertices_wallet_load` does not: it has emptied the wallet before.
-/
import Vertices.KeyImport

namespace Vertices

/-! ## Files that open -/

/-- The file has a salt and a nonce, and what follows opens under the key of the password
and the salt. -/
def Opens (S : Sodium) (n : Nat) (file : Option (List UInt8)) (password : CStr) : Prop :=
  ∃ bs key opened, file = some bs ∧ saltSize + nonceSize ≤ bs.length ∧
    S.pwhash password.bytes (fread (Vector.replicate _ 0) bs) = some key ∧
    S.secretboxOpenEasy ((bs.drop (saltSize + nonceSize)).take (plaintextLength n + macSize))
      (nonceOf (bs.drop saltSize)) key = some opened

theorem fread_long {k : Nat} (v w : Vector UInt8 k) {bs : List UInt8} (h : k ≤ bs.length) :
    fread v bs = fread w bs := by
  ext i hi
  have hib : i < bs.length := Nat.lt_of_lt_of_le hi h
  simp [fread, hib]

theorem nonceOf_take {m : Nat} (h : nonceSize ≤ m) (c : List UInt8) :
    nonceOf (c.take m) = nonceOf c := by
  ext i hi
  have him : i < m := Nat.lt_of_lt_of_le hi h
  simp [nonceOf, List.getElem?_take_of_lt him]

/-- What `decrypt` is given to open. -/
theorem drop_nonce (n : Nat) (bs : List UInt8) :
    ((bs.drop saltSize).take (plaintextLength n + macSize + nonceSize)).drop nonceSize =
      (bs.drop (saltSize + nonceSize)).take (plaintextLength n + macSize) := by
  rw [List.drop_take, List.drop_drop, Nat.add_sub_cancel]

theorem ciphertext_short_iff {n : Nat} {bs : List UInt8} :
    ((bs.drop saltSize).take (plaintextLength n + macSize + nonceSize)).length < nonceSize ↔
      bs.length < saltSize + nonceSize := by
  have hnonce : 0 < nonceSize := Nat.succ_pos _
  rw [List.length_take, List.length_drop]
  omega

/-- There is a table to load exactly if the file opens. -/
theorem loadsTable_iff_opens {S : Sodium} {n : Nat} {env : LoadEnv n} {file : Option (List UInt8)}
    {password : CStr} : (∃ table, LoadsTable S env file password table) ↔ Opens S n file password := by
  -- the salt that is read, when all of it is
  have hsalt : ∀ {bs : List UInt8}, saltSize + nonceSize ≤ bs.length →
      fread env.salt bs = fread (Vector.replicate _ 0) bs :=
    fun hlong => fread_long _ _ (Nat.le_trans (Nat.le_add_right _ _) hlong)
  constructor
  · rintro ⟨table, bs, opened, hfile, ⟨key, hpwhash, hlong, hopened⟩, -⟩
    rw [ciphertextRead, ← Nat.not_lt, ciphertext_short_iff, Nat.not_lt] at hlong
    rw [ciphertextRead, drop_nonce, nonceOf_take (Nat.le_add_left _ _)] at hopened
    rw [hsalt hlong] at hpwhash
    exact ⟨bs, key, opened, hfile, hlong, hpwhash, hopened⟩
  · rintro ⟨bs, key, opened, hfile, hlong, hpwhash, hopened⟩
    refine ⟨_, bs, opened, hfile, ⟨key, ?_, ?_, ?_⟩, rfl⟩
    · rw [hsalt hlong, hpwhash]
    · rw [ciphertextRead, ← Nat.not_lt, ciphertext_short_iff, Nat.not_lt]
      exact hlong
    · rw [ciphertextRead, drop_nonce, nonceOf_take (Nat.le_add_left _ _), hopened]

theorem loadAccountData_success_iff {S : Sodium} {n : Nat} {env : LoadEnv n}
    {file : Option (List UInt8)} {password : CStr} {accounts accounts' : Vector SAccount n}
    {err : RetCode} (h : loadAccountData S env file password accounts = .ok (err, accounts')) :
    err = .success ↔ Opens S n file password := by
  have hopens : (∃ table, LoadsTable S env file password table) ↔ Opens S n file password :=
    loadsTable_iff_opens
  rw [← hopens]
  rcases loadAccountData_table h with ⟨herr, -, hnone⟩ | ⟨hsuccess, table, htable, -⟩
  · exact iff_of_false herr (not_exists.mpr hnone)
  · exact iff_of_true hsuccess ⟨table, htable⟩

/-! ## Loading the wallet -/

section

variable {S : Sodium} {sodiumInit : Bool} {env : LoadEnv secretAccountsMaximumCount}
  {file : Option (List UInt8)} {password : CStr} {wallet wallet' : SAccounts} {err : RetCode}

/-- `s_account_load` by itself: a failure changes nothing. -/
theorem sAccountLoad_cases
    (h : sAccountLoad S sodiumInit env file password wallet = .ok (err, wallet')) :
    (err = .success ↔ sodiumInit = true ∧ Opens S secretAccountsMaximumCount file password) ∧
      (err ≠ .success → wallet' = wallet) := by
  rw [sAccountLoad] at h
  split at h
  · next hinit =>
      refine ⟨?_, fun herr => ?_⟩
      · rw [loadAccountData_success_iff h]
        exact (and_iff_right hinit).symm
      · rcases loadAccountData_table h with ⟨-, hsame, -⟩ | ⟨hsuccess, -⟩
        · exact hsame
        · exact absurd hsuccess herr
  · next hinit =>
      obtain ⟨rfl, rfl⟩ := pure_eq_ok2.mp h
      exact ⟨iff_of_false RetCode.noConfusion fun hcond => hinit hcond.1, fun _ => rfl⟩

/-- `vertices_wallet_load` leaves the wallet as it was, if it returns an error, exactly
where it returns none or the wallet was empty already. -/
theorem wallet_load_unchanged_iff
    (h : verticesWalletLoad S sodiumInit env file password wallet = .ok (err, wallet')) :
    (err ≠ .success → wallet' = wallet) ↔
      (sodiumInit = true ∧ Opens S secretAccountsMaximumCount file password) ∨
        wallet = sAccountInit := by
  obtain ⟨hsuccess, hsame⟩ := sAccountLoad_cases h
  rw [← hsuccess]
  constructor
  · intro hunchanged
    by_cases herr : err = .success
    · exact .inl herr
    · exact .inr ((hunchanged herr).symm.trans (hsame herr))
  · rintro (herr | rfl) hne
    · exact absurd herr hne
    · exact hsame hne

end

/-! ## A saved wallet -/

/-- The key of the password "shosha_dragon" and a zero salt. -/
def dragonKey : Vector UInt8 keySize :=
  #v[0x43, 0xcd, 0x6c, 0x64, 0xfc, 0xce, 0xd9, 0x71, 0xd9, 0xcc, 0xcf, 0x20, 0xe3, 0x5e, 0x61, 0x79,
    0x71, 0x12, 0x83, 0x60, 0x7e, 0xba, 0x75, 0xdb, 0xfe, 0xdd, 0x01, 0x15, 0x5b, 0x28, 0xce, 0xb5]

/-- What a wallet is encrypted with under this key and a zero nonce, eight bytes at a time. -/
def dragonStream : List UInt8 := List.flatMap (ByteOrder.beBytes 8) [
  0xb39849edefb7e679, 0x73bb4fc9bd33039f, 0xe812c5f99891e24a, 0x37fe4277d89f8ff4, 0x36337592c922c6aa,
  0x297e32540a5d9417, 0x2c695e1720695c67, 0xa87e5f763eccf06a, 0x25987feb001e6844, 0xb134b11d165d1ce0,
  0xdfd7fc66de831739, 0x3aaa7dabf9050bb9, 0xeda1ad74938286b1, 0x139791dcd72a5732, 0x018f42a19bae7aee,
  0xb672f6576bddbf1a, 0x3d06aa4ae9b0c7bf, 0x65a1f6d1f218ba64, 0xc8cb4a446d722d6d, 0xff85cacd11d809d5,
  0xfb77249f483da48e, 0xc7ad88d51704dfb6, 0x3e617f2660aa1679, 0x9705fe827070a5d9, 0x1a0b195aeeb77d7f,
  0x3805f8b1055ea2e2, 0x79b81550e8f270b1, 0x1d58c6c53d9947db, 0x90653e9307f3101d, 0x93e797e8388c8dcf,
  0x8de4afb53a978be2, 0xe6679d98fec23d4d, 0x43b7fd4fb6e623c8, 0xc84923badf73b057, 0x3a291c29c4c4ceb1,
  0x5750031179a174f4, 0x03d5518fbe5d1060, 0x23ee3ff1517a3bd2, 0x5d0ea6b4b9b7134a, 0x1b7a001d5da4351e,
  0xf92f94d3900b8e95, 0xcbe20571a492ea28, 0xd00de262ca394e57, 0x2acea6921e4c00da, 0xe128264ffdf4d1a7,
  0x9f29a177fbde6f5f, 0x9a2e1795864966bb, 0x42c884f1a71a63b8, 0x6cd4d71c70b7ceb8, 0xcb7d519b4e418e59,
  0x9b0b30c46a8c0fdc, 0xa711c0f31318b904, 0x3d2d577314416dad, 0x8e3d5db87e174d2e, 0xf53b65675c3dfe3f,
  0xbb091d779c9c7cae, 0x4be348605ebd8a63, 0x693ebd8c83c3af1b, 0xf8cf18eb5a2a8a53, 0x62dd5dacc4c1088b,
  0x15269b4b953da853, 0x0885401f25c7729e, 0xfb5c39037211d5fb, 0x8a7996a0d7235267, 0x5393942ad68f40fd,
  0xfcd0a6508e38792c, 0xc40dc2c3059796ae, 0xb4a8edb3bfd47028, 0x4c253ed1ff6be8b6, 0x45ed06eda9ae5fa6,
  0x9bb3f988fd09fb61, 0x2706db0185b7e4cf, 0x2927672c337b398e, 0x5dd700583ab17c29, 0xef515b07fd997c3d,
  0xa0d5e44339490a8d, 0xd0a7ff583ebef040, 0xf1a430ba7acb32b8, 0xde42f3a47e03fed4, 0x0ad6e7f14692dc19,
  0x69b123c310d828d2, 0xec93d2759f28918a, 0xdefba0b850257378, 0x4bdc1c929b46cdc5, 0xe3d5349d9fd1008b,
  0x431554da56c2e4a1, 0x6df02c967d79f2b0, 0x1325d9894ac5ce4b, 0x2f1b23b09418f85e, 0xe050ede8d3be6c73,
  0xbd05e90f2b460d52, 0x3eede06597ec6ea8, 0x54dd1ac8c95a6425, 0x6781051aa61f60d5, 0x8564e69c888a1b9a,
  0x54eba06bd1130281, 0xe10cd7c4a7ea63d0, 0x4c865048e218364c, 0x003868738485bf0e, 0x9b639f1f8d5e954c,
  0x63a33665f2933c48, 0xe39fb55423b6580e, 0x033092723b868ae9, 0xcb0fa9dcd70b5d16, 0xbaed100bf456db59]

/-- The box of a wallet: its authenticator, and the encrypted wallet. -/
def dragonBox (mac plaintext : List UInt8) : List UInt8 :=
  mac ++ List.zipWith (· ^^^ ·) plaintext dragonStream

/-- The keys of the zero seed, and two Algos. -/
def dragonInfo : AccountInfo where
  publicB32 := firstBytes _ (lit "HNVCPPGOW2SC2YVDVDICU3YNONSTEFLXDXREHJR2YBEKDC2Z3IUZSC6YGI")
  publicKey := (zeroEd25519.seedKeypair zeroSeed).1
  amount := 2000000

def dragon : SAccount where
  privateKey := zeroSeed
  vtcAccount := some dragonInfo
  status := .added
  name := firstBytes _ (lit "dragon")

def dragonWallet : SAccounts := sAccountInit.set 0 dragon

def dragonPlaintext : List UInt8 :=
  (walletLayout secretAccountsMaximumCount).encode
    (dragonWallet.map SAccount.stored, (Vector.replicate _ AccountDetails.zero.info).set 0 dragonInfo)
    (Vector.replicate _ (Vector.replicate _ 0), Vector.replicate _ (Vector.replicate _ 0))

def dragonFile : List UInt8 :=
  List.replicate (saltSize + nonceSize) 0 ++ dragonBox [
    0x89, 0x74, 0x24, 0x2f, 0x8e, 0x9e, 0xe3, 0x4c, 0x5f, 0xf9, 0x63, 0xb3, 0x25, 0xda, 0x76, 0xf6]
    dragonPlaintext

/-- libsodium on it. -/
def dragonSodium : Sodium :=
  sampleSodium (lit "shosha_dragon") dragonKey dragonPlaintext (dragonFile.drop (saltSize + nonceSize))

/-- Random bytes that are all zero, for a wallet. -/
def zeroWalletEnv : SaveEnv secretAccountsMaximumCount where
  salt := Vector.replicate _ 0
  nonce := Vector.replicate _ 0
  pointers := Vector.replicate _ (Vector.replicate _ 0)
  padding := Vector.replicate _ (Vector.replicate _ 0)
  opens := true

/-- Buffers of zeros. -/
def zeroLoadEnv : LoadEnv secretAccountsMaximumCount := ⟨Vector.replicate _ 0, Vector.replicate _ 0⟩

/-- The wallet with the account is saved in the file, and loaded from it over any other. -/
theorem dragon_file : dragonSodium.Lawful ∧
    saveAccountData dragonSodium zeroWalletEnv none (cString (lit "shosha_dragon")) dragonWallet =
      .ok (.success, some dragonFile) ∧
    ∀ wallet, verticesWalletLoad dragonSodium true zeroLoadEnv (some dragonFile)
      (cString (lit "shosha_dragon")) wallet = .ok (.success, dragonWallet) := by
  have hlength : (dragonFile.drop (saltSize + nonceSize)).length = dragonPlaintext.length + macSize := by
    decide +kernel
  have hlawful : dragonSodium.Lawful := sampleSodium_lawful _ _ hlength
  have hsaved : saveAccountData dragonSodium zeroWalletEnv none (cString (lit "shosha_dragon"))
      dragonWallet = .ok (.success, some dragonFile) := by decide +kernel
  exact ⟨hlawful, hsaved, fun _ => loadAccountData_written hlawful hsaved zeroLoadEnv sAccountInit⟩

/-- A wallet with another key. -/
def keyedWallet : SAccounts :=
  sAccountInit.set (0 : Fin secretAccountsMaximumCount)
    { SAccount.zero with privateKey := Vector.replicate _ 1, status := .added }

/-- The file is loaded over a wallet with a key; and no file over an empty wallet. -/
theorem wallet_load_unchanged_iff_two :
    (∃ wallet', verticesWalletLoad dragonSodium true zeroLoadEnv (some dragonFile)
        (cString (lit "shosha_dragon")) keyedWallet = .ok (.success, wallet') ∧
      wallet' = dragonWallet ∧
      Opens dragonSodium secretAccountsMaximumCount (some dragonFile) (cString (lit "shosha_dragon"))) ∧
    ∃ err wallet', verticesWalletLoad dragonSodium true zeroLoadEnv none
        (cString (lit "shosha_dragon")) sAccountInit = .ok (err, wallet') ∧
      err ≠ .success ∧ wallet' = sAccountInit := by
  have hload := dragon_file.2.2 keyedWallet
  have hmissing : verticesWalletLoad dragonSodium true zeroLoadEnv none
      (cString (lit "shosha_dragon")) sAccountInit = .ok (.errorInternal, sAccountInit) := rfl
  have hkeyed : keyedWallet ≠ sAccountInit := by decide +kernel
  constructor
  · refine ⟨_, hload, rfl, ?_⟩
    rcases (wallet_load_unchanged_iff hload).mp (fun herr => absurd rfl herr) with ⟨-, hopens⟩ | hsame
    · exact hopens
    · exact absurd hsame hkeyed
  · exact ⟨_, _, hmissing, RetCode.noConfusion,
      (wallet_load_unchanged_iff hmissing).mpr (.inr rfl) RetCode.noConfusion⟩

/-! ## A missing file -/

/-- The file is missing, the call fails, and the key is gone. -/
theorem failed_load_empties :
    ∃ wallet', verticesWalletLoad oneSodium true zeroLoadEnv none (cString (lit "pw")) keyedWallet =
      .ok (.errorInternal, wallet') ∧
      (keyedWallet.get 0).privateKey = Vector.replicate _ 1 ∧
      (wallet'.get 0).privateKey = Vector.replicate _ 0 :=
  ⟨_, rfl, by decide +kernel, by decide +kernel⟩

end Vertices
