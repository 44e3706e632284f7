/-
# `Vertices.Storage` — `src/account_storage.c` and `src/utils/secretbox.c`

The wallet's file is a salt and, encrypted under a key derived from the password and this
salt, the table as it lies in memory followed by the records its pointers lead to.  The
pointers are saved with the table; after a load they are replaced.

libsodium is outside the repository: `Sodium` is what the SDK calls of it.  What a buffer
held before it is read into, and the bytes of pointers and padding, are arguments.
-/
import Vertices.Account
import Vertices.Lib.Layout

namespace Vertices

abbrev keySize : Nat := 32
abbrev nonceSize : Nat := 24
abbrev saltSize : Nat := 16
abbrev macSize : Nat := 16

/-! ## Encryption -/

/-- `crypto_pwhash` with the interactive limits, `crypto_secretbox_easy` and
`crypto_secretbox_open_easy`; `none` is a return value other than 0. -/
structure Sodium where
  pwhash : (password : List UInt8) → (salt : Vector UInt8 saltSize) → Option (Vector UInt8 keySize)
  secretboxEasy : (m : List UInt8) → (n : Vector UInt8 nonceSize) → (k : Vector UInt8 keySize) →
    Option (List UInt8)
  secretboxOpenEasy : (c : List UInt8) → (n : Vector UInt8 nonceSize) → (k : Vector UInt8 keySize) →
    Option (List UInt8)

/-- A box is the message and a MAC, and opens to the message. -/
structure Sodium.Lawful (S : Sodium) : Prop where
  length_easy {m c : List UInt8} {n : Vector UInt8 nonceSize} {k : Vector UInt8 keySize} :
    S.secretboxEasy m n k = some c → c.length = m.length + macSize
  open_easy {m c : List UInt8} {n : Vector UInt8 nonceSize} {k : Vector UInt8 keySize} :
    S.secretboxEasy m n k = some c → S.secretboxOpenEasy c n k = some m
  length_open {m c : List UInt8} {n : Vector UInt8 nonceSize} {k : Vector UInt8 keySize} :
    S.secretboxOpenEasy c n k = some m → c.length = m.length + macSize

/-- `derive_key`. -/
def deriveKey (S : Sodium) (password : CStr) (salt : Vector UInt8 saltSize) :
    RetCode × Option (Vector UInt8 keySize) :=
  match S.pwhash password.bytes salt with
  | none => (.errorInternal, none)
  | some key => (.success, some key)

/-- `encrypt`: the nonce, then the box. -/
def encrypt (S : Sodium) (plaintext : List UInt8) (key : Vector UInt8 keySize)
    (nonce : Vector UInt8 nonceSize) : RetCode × List UInt8 :=
  match S.secretboxEasy plaintext nonce key with
  | none => (.errorInternal, [])
  | some c => (.success, nonce.toList ++ c)

/-- The nonce at the beginning of a ciphertext. -/
def nonceOf (ciphertext : List UInt8) : Vector UInt8 nonceSize :=
  Vector.ofFn fun i => ciphertext.getD i.val 0

/-- `decrypt`, into a buffer.  `ciphertext_len - NONCE_SIZE` is unsigned: with less than
a nonce, the box to open is almost 4 GiB long. -/
def decrypt (S : Sodium) {m : Nat} (ciphertext : List UInt8) (key : Vector UInt8 keySize)
    (plaintext : Vector UInt8 m) : Except Fault (RetCode × Vector UInt8 m) :=
  if ciphertext.length < nonceSize then throw .outOfBounds
  else
    match S.secretboxOpenEasy (ciphertext.drop nonceSize) (nonceOf ciphertext) key with
    | none => return (.errorInternal, plaintext)
    | some opened => do
        let plaintext ← memcpy plaintext 0 opened
        return (.success, plaintext)

/-! ## The layout of the table -/

/-- The value of an `enum account_status_e`. -/
def AccountStatus.toUInt32 : AccountStatus → UInt32
  | .none => 0
  | .added => 1
  | .other status _ => status

def AccountStatus.ofUInt32 (status : UInt32) : AccountStatus :=
  if h : 2 ≤ status then .other status h
  else if status = 0 then .none
  else .added

theorem AccountStatus.ofUInt32_toUInt32 (status : AccountStatus) : .ofUInt32 status.toUInt32 = status := by
  cases status with
  | none => rfl
  | added => rfl
  | other status h => exact dif_pos h

/-- `account_info_t`: two arrays of characters, three bytes of padding, the amount. -/
def accountInfoLayout : Layout AccountInfo (Vector UInt8 3) :=
  .map (.pair (.bytes publicB32StrMaxLength)
      (.pair (.bytes addressLength) (.pair (.gap 3) .uint32)))
    (fun x => { publicB32 := x.1, publicKey := x.2.1, amount := x.2.2.2.toInt32 })
    (fun info => (info.publicB32, info.publicKey, (), info.amount.toUInt32))
    (fun padding => ((), (), padding, ()))
    (fun _ => rfl)

/-- What an `s_account_t` holds itself. -/
structure StoredAccount where
  privateKey : Vector UInt8 addressLength
  status : AccountStatus
  name : Vector UInt8 accountNameLength

/-- `s_account_t`: the key, the pointer, the status, the name. -/
def sAccountLayout : Layout StoredAccount (Vector UInt8 8) :=
  .map (.pair (.bytes addressLength) (.pair (.gap 8) (.pair .uint32 (.bytes accountNameLength))))
    (fun x => { privateKey := x.1, status := .ofUInt32 x.2.2.1, name := x.2.2.2 })
    (fun a => (a.privateKey, (), a.status.toUInt32, a.name))
    (fun pointer => ((), pointer, (), ()))
    (fun a => by rw [AccountStatus.ofUInt32_toUInt32])

/-- The accounts, then their records. -/
def walletLayout (n : Nat) : Layout (Vector StoredAccount n × Vector AccountInfo n)
    (Vector (Vector UInt8 8) n × Vector (Vector UInt8 3) n) :=
  .pair (.array sAccountLayout n) (.array accountInfoLayout n)

/-- `plaintext_len_1 + plaintext_len_2`. -/
abbrev plaintextLength (n : Nat) : Nat := n * 64 + n * 104

theorem size_walletLayout (n : Nat) : (walletLayout n).size = plaintextLength n := rfl

def SAccount.stored (a : SAccount) : StoredAccount := ⟨a.privateKey, a.status, a.name⟩

def StoredAccount.withRecord (a : StoredAccount) (info : AccountInfo) : SAccount :=
  ⟨a.privateKey, some info, a.status, a.name⟩

/-! ## Saving and loading -/

/-- What `save_account_data` takes from elsewhere: the two strings of random bytes, the
bytes of the table and of the records that are no field of them, and whether the file can
be opened. -/
structure SaveEnv (n : Nat) where
  salt : Vector UInt8 saltSize
  nonce : Vector UInt8 nonceSize
  pointers : Vector (Vector UInt8 8) n
  padding : Vector (Vector UInt8 3) n
  opens : Bool

/-- The records that are copied, `accounts[i].vtc_account` for each `i`. -/
def records {n : Nat} (accounts : Vector SAccount n) : Except Fault (Vector AccountInfo n) :=
  if h : ∀ i : Fin n, (accounts.get i).vtcAccount.isSome then
    .ok (Vector.ofFn fun i => (accounts.get i).vtcAccount.get (h i))
  else .error .nullDeref

/-- `save_account_data`: its code and the file.  The lengths are `int`s. -/
def saveAccountData (S : Sodium) {n : Nat} (env : SaveEnv n) (file : Option (List UInt8))
    (password : CStr) (accounts : Vector SAccount n) :
    Except Fault (RetCode × Option (List UInt8)) :=
  if 2 ^ 31 ≤ plaintextLength n + macSize + nonceSize then throw .outOfBounds
  else
    match deriveKey S password env.salt with
    | (err, none) => return (err, file)
    | (_, some key) => do
        let infos ← records accounts
        let plaintext := (walletLayout n).encode (accounts.map SAccount.stored, infos)
          (env.pointers, env.padding)
        let (err, ciphertext) := encrypt S plaintext key env.nonce
        if err ≠ .success then return (err, file)
        else if env.opens then return (err, some (env.salt.toList ++ ciphertext))
        else return (.errorInternal, file)

/-- What the buffers of `load_account_data` hold before they are read into. -/
structure LoadEnv (n : Nat) where
  salt : Vector UInt8 saltSize
  plaintext : Vector UInt8 (plaintextLength n)

/-- `fread` into an array: as many bytes as there are. -/
def fread {k : Nat} (array : Vector UInt8 k) (bs : List UInt8) : Vector UInt8 k :=
  Vector.ofFn fun i => bs.getD i.val (array.get i)

/-- `load_account_data`; `none` is a file that cannot be opened. -/
def loadAccountData (S : Sodium) {n : Nat} (env : LoadEnv n) (file : Option (List UInt8))
    (password : CStr) (accounts : Vector SAccount n) :
    Except Fault (RetCode × Vector SAccount n) :=
  if 2 ^ 31 ≤ plaintextLength n + macSize + nonceSize then throw .outOfBounds
  else
    match file with
    | none => return (.errorInternal, accounts)
    | some bs =>
        let salt := fread env.salt bs
        let ciphertext := (bs.drop saltSize).take (plaintextLength n + macSize + nonceSize)
        match deriveKey S password salt with
        | (err, none) => return (err, accounts)
        | (_, some key) => do
            let (err, plaintext) ← decrypt S ciphertext key env.plaintext
            if err ≠ .success then return (err, accounts)
            else
              let (stored, infos) := (walletLayout n).decode plaintext.toList
              return (err, stored.zipWith StoredAccount.withRecord infos)

theorem deriveKey_none {S : Sodium} {password : CStr} {salt : Vector UInt8 saltSize} {err : RetCode}
    (h : deriveKey S password salt = (err, none)) : err = .errorInternal := by
  rw [deriveKey] at h
  split at h
  · exact (Prod.mk.inj h).1.symm
  · cases h

theorem deriveKey_some {S : Sodium} {password : CStr} {salt : Vector UInt8 saltSize} {err : RetCode}
    {key : Vector UInt8 keySize} (h : deriveKey S password salt = (err, some key)) :
    err = .success ∧ S.pwhash password.bytes salt = some key := by
  rw [deriveKey] at h
  split at h
  · cases h
  · next key' hkey =>
      cases h
      exact ⟨rfl, hkey⟩

/-- Only a null record is followed to nowhere. -/
theorem saveAccountData_ne_nullDeref {S : Sodium} {n : Nat} {env : SaveEnv n}
    {file : Option (List UInt8)} {password : CStr} {accounts : Vector SAccount n}
    (hsome : ∀ i : Fin n, (accounts.get i).vtcAccount.isSome = true) :
    saveAccountData S env file password accounts ≠ .error .nullDeref := by
  intro h
  have hrecords : ∃ infos, records accounts = .ok infos := ⟨_, dif_pos hsome⟩
  obtain ⟨infos, hinfos⟩ := hrecords
  rw [saveAccountData.eq_def, hinfos] at h
  split at h
  · cases h
  · split at h
    · cases h
    · dsimp only [bind, Except.bind] at h
      split at h
      · cases h
      · split at h
        · cases h
        · cases h

/-! ## What is loaded -/

/-- What is read of the file behind the salt. -/
def ciphertextRead (n : Nat) (bs : List UInt8) : List UInt8 :=
  (bs.drop saltSize).take (plaintextLength n + macSize + nonceSize)

/-- The key is derived, and the box behind the nonce opens to this. -/
def BoxOpens (S : Sodium) {n : Nat} (env : LoadEnv n) (bs : List UInt8) (password : CStr)
    (opened : List UInt8) : Prop :=
  ∃ key, S.pwhash password.bytes (fread env.salt bs) = some key ∧
    nonceSize ≤ (ciphertextRead n bs).length ∧
    S.secretboxOpenEasy ((ciphertextRead n bs).drop nonceSize) (nonceOf (ciphertextRead n bs)) key =
      some opened

/-- The table and the records that are loaded: what was opened, and behind it what the
buffer held. -/
def LoadsTable (S : Sodium) {n : Nat} (env : LoadEnv n) (file : Option (List UInt8)) (password : CStr)
    (table : Vector StoredAccount n × Vector AccountInfo n) : Prop :=
  ∃ bs opened, file = some bs ∧ BoxOpens S env bs password opened ∧
    table = (walletLayout n).decode (opened ++ env.plaintext.toList.drop opened.length)

section

variable {S : Sodium} {n : Nat} {env : LoadEnv n} {file : Option (List UInt8)} {password : CStr}

theorem BoxOpens.unique {bs opened opened' : List UInt8} (h : BoxOpens S env bs password opened)
    (h' : BoxOpens S env bs password opened') : opened = opened' := by
  obtain ⟨key, hkey, -, hopen⟩ := h
  obtain ⟨key', hkey', -, hopen'⟩ := h'
  cases hkey.symm.trans hkey'
  exact Option.some.inj (hopen.symm.trans hopen')

theorem LoadsTable.unique {table table' : Vector StoredAccount n × Vector AccountInfo n}
    (h : LoadsTable S env file password table) (h' : LoadsTable S env file password table') :
    table = table' := by
  obtain ⟨bs, opened, hfile, hopens, htable⟩ := h
  obtain ⟨bs', opened', hfile', hopens', htable'⟩ := h'
  cases hfile.symm.trans hfile'
  rw [htable, htable', hopens.unique hopens']

theorem decrypt_cases {m : Nat} {ciphertext : List UInt8} {key : Vector UInt8 keySize}
    {plaintext plaintext' : Vector UInt8 m} {err : RetCode}
    (h : decrypt S ciphertext key plaintext = .ok (err, plaintext')) :
    nonceSize ≤ ciphertext.length ∧
      ((err = .errorInternal ∧ plaintext' = plaintext ∧
          S.secretboxOpenEasy (ciphertext.drop nonceSize) (nonceOf ciphertext) key = none) ∨
        err = .success ∧ ∃ opened,
          S.secretboxOpenEasy (ciphertext.drop nonceSize) (nonceOf ciphertext) key = some opened ∧
            opened.length ≤ m ∧ plaintext'.toList = opened ++ plaintext.toList.drop opened.length) := by
  rw [decrypt] at h
  split at h
  · cases h
  · next hlong =>
      refine ⟨Nat.le_of_not_lt hlong, ?_⟩
      split at h
      · next hnone =>
          obtain ⟨rfl, rfl⟩ := pure_eq_ok2.mp h
          exact .inl ⟨rfl, rfl, hnone⟩
      · next opened hopened =>
          obtain ⟨copied, hcopy, h⟩ := bind_eq_ok.mp h
          obtain ⟨rfl, rfl⟩ := pure_eq_ok2.mp h
          obtain ⟨hfits, rfl⟩ := memcpy_eq_ok.mp hcopy
          refine .inr ⟨rfl, opened, hopened, (Nat.zero_add _).symm.trans_le hfits, ?_⟩
          rw [toList_splice, List.take_zero, List.nil_append, Nat.zero_add]

/-- A load that returns has loaded the table it decrypts, or there is none and it has an
error. -/
theorem loadAccountData_table {accounts accounts' : Vector SAccount n} {err : RetCode}
    (h : loadAccountData S env file password accounts = .ok (err, accounts')) :
    (err ≠ .success ∧ accounts' = accounts ∧ ∀ table, ¬ LoadsTable S env file password table) ∨
      err = .success ∧ ∃ table, LoadsTable S env file password table ∧
        accounts' = table.1.zipWith StoredAccount.withRecord table.2 := by
  rw [loadAccountData.eq_def] at h
  split at h
  · cases h
  · split at h
    · obtain ⟨rfl, rfl⟩ := pure_eq_ok2.mp h
      refine .inl ⟨RetCode.noConfusion, rfl, ?_⟩
      rintro table ⟨bs, opened, hfile, -⟩
      cases hfile
    · next bs =>
        dsimp only at h
        split at h
        · next err' hkey =>
            obtain ⟨rfl, rfl⟩ := pure_eq_ok2.mp h
            refine .inl ⟨?_, rfl, ?_⟩
            · rw [deriveKey_none hkey]
              exact RetCode.noConfusion
            · rintro table ⟨bs', opened, hfile, ⟨key, hpwhash, -⟩, -⟩
              cases hfile
              rw [deriveKey, hpwhash] at hkey
              cases hkey
        · next err' key hkey =>
            obtain ⟨-, hpwhash⟩ := deriveKey_some hkey
            obtain ⟨⟨code, plaintext⟩, hdec, h⟩ := bind_eq_ok.mp h
            obtain ⟨hlong, ⟨rfl, -, hnone⟩ | ⟨rfl, opened, hopened, -, hplain⟩⟩ := decrypt_cases hdec
            · obtain ⟨rfl, rfl⟩ := pure_eq_ok2.mp h
              refine .inl ⟨RetCode.noConfusion, rfl, ?_⟩
              rintro table ⟨bs', opened, hfile, ⟨key', hpwhash', -, hopened⟩, -⟩
              cases hfile
              cases hpwhash.symm.trans hpwhash'
              cases hnone.symm.trans hopened
            · obtain ⟨rfl, rfl⟩ := pure_eq_ok2.mp h
              refine .inr ⟨rfl, _, ⟨bs, opened, rfl, ⟨key, hpwhash, hlong, hopened⟩, rfl⟩, ?_⟩
              rw [hplain]

end

/-! ## The round trip -/

section

variable {S : Sodium} {n k : Nat}

theorem fread_append (array v : Vector UInt8 k) (bs : List UInt8) :
    fread array (v.toList ++ bs) = v := by
  ext i hi
  have hv : i < v.toList.length := by
    rw [Vector.length_toList]
    exact hi
  rw [fread, Vector.getElem_ofFn, List.getD_eq_getElem?_getD, List.getElem?_append_left hv,
    List.getElem?_eq_getElem hv, Vector.getElem_toList, Option.getD_some]

theorem nonceOf_append (nonce : Vector UInt8 nonceSize) (c : List UInt8) :
    nonceOf (nonce.toList ++ c) = nonce := by
  ext i hi
  have hv : i < nonce.toList.length := by
    rw [Vector.length_toList]
    exact hi
  rw [nonceOf, Vector.getElem_ofFn, List.getD_eq_getElem?_getD, List.getElem?_append_left hv,
    List.getElem?_eq_getElem hv, Vector.getElem_toList, Option.getD_some]

/-- What `encrypt` made under a key, `decrypt` opens with it. -/
theorem decrypt_encrypt (hS : S.Lawful) {plaintext ciphertext : List UInt8}
    {key : Vector UInt8 keySize} {nonce : Vector UInt8 nonceSize}
    (h : encrypt S plaintext key nonce = (.success, ciphertext)) (buffer : Vector UInt8 k)
    (hlen : plaintext.length = k) :
    ciphertext.length = plaintext.length + macSize + nonceSize ∧
      ∃ opened, decrypt S ciphertext key buffer = .ok (.success, opened) ∧
        opened.toList = plaintext := by
  rw [encrypt] at h
  split at h
  · cases h
  · next c hc =>
      cases h
      have hnonce : nonce.toList.length = nonceSize := nonce.length_toList
      have hclen := hS.length_easy hc
      obtain ⟨opened, hcopy, hopened⟩ := memcpy_whole buffer hlen
      refine ⟨?_, opened, ?_, hopened⟩
      · rw [List.length_append, hnonce, hclen, Nat.add_comm]
      · have hlong : ¬ (nonce.toList ++ c).length < nonceSize := by
          rw [List.length_append, hnonce]
          exact Nat.not_lt.mpr (Nat.le_add_right _ _)
        rw [decrypt, if_neg hlong, List.drop_left' hnonce, nonceOf_append, hS.open_easy hc]
        dsimp only
        rw [hcopy]
        rfl

/-- A saved table has a record for every account, and these come back with it. -/
theorem records_withRecord {accounts : Vector SAccount n} {infos : Vector AccountInfo n}
    (h : records accounts = .ok infos) :
    (accounts.map SAccount.stored).zipWith StoredAccount.withRecord infos = accounts := by
  rw [records] at h
  split at h
  · next hsome =>
      cases h
      ext i hi
      have hinfo := Option.some_get (hsome ⟨i, hi⟩)
      rw [Vector.getElem_zipWith, Vector.getElem_map, Vector.getElem_ofFn, StoredAccount.withRecord,
        hinfo]
      rfl
  · cases h

/-- What a save that succeeds has written. -/
theorem saveAccountData_written {env : SaveEnv n} {file saved : Option (List UInt8)} {password : CStr}
    {accounts : Vector SAccount n}
    (h : saveAccountData S env file password accounts = .ok (.success, saved)) :
    ∃ key infos ciphertext, plaintextLength n + macSize + nonceSize < 2 ^ 31 ∧
      deriveKey S password env.salt = (.success, some key) ∧ records accounts = .ok infos ∧
      encrypt S ((walletLayout n).encode (accounts.map SAccount.stored, infos)
        (env.pointers, env.padding)) key env.nonce = (.success, ciphertext) ∧
      saved = some (env.salt.toList ++ ciphertext) := by
  rw [saveAccountData] at h
  split at h
  · cases h
  · next hint =>
      split at h
      · next err hkey =>
          exact RetCode.noConfusion ((deriveKey_none hkey).symm.trans (pure_eq_ok2.mp h).1)
      · next err key hkey =>
          obtain ⟨infos, hinfos, h⟩ := bind_eq_ok.mp h
          dsimp only at h
          split at h
          · next herr => exact absurd (pure_eq_ok2.mp h).1 herr
          · next herr =>
              split at h
              · obtain ⟨-, rfl⟩ := pure_eq_ok2.mp h
                rw [(deriveKey_some hkey).1] at hkey
                exact ⟨key, infos, _, Nat.lt_of_not_le hint, hkey, hinfos,
                  Prod.ext (not_not.mp herr) rfl, rfl⟩
              · exact absurd (pure_eq_ok2.mp h).1 RetCode.noConfusion

/-- It is read back under the same password. -/
theorem loadAccountData_written (hS : S.Lawful) {env : SaveEnv n} {file saved : Option (List UInt8)}
    {password : CStr} {accounts : Vector SAccount n}
    (h : saveAccountData S env file password accounts = .ok (.success, saved)) (env' : LoadEnv n)
    (accounts' : Vector SAccount n) :
    loadAccountData S env' saved password accounts' = .ok (.success, accounts) := by
  obtain ⟨key, infos, ciphertext, hint, hkey, hinfos, henc, rfl⟩ := saveAccountData_written h
  have hplain := (walletLayout n).length_encode (accounts.map SAccount.stored, infos)
    (env.pointers, env.padding)
  rw [size_walletLayout] at hplain
  obtain ⟨hclen, opened, hdec, hopened⟩ := decrypt_encrypt hS henc env'.plaintext hplain
  rw [hplain] at hclen
  have hsalt : env.salt.toList.length = saltSize := env.salt.length_toList
  rw [loadAccountData, if_neg (Nat.not_le.mpr hint)]
  dsimp only
  rw [fread_append, List.drop_left' hsalt, List.take_of_length_le hclen.le, hkey]
  dsimp only
  rw [hdec]
  show Except.ok (RetCode.success, ((walletLayout n).decode opened.toList).1.zipWith
    StoredAccount.withRecord ((walletLayout n).decode opened.toList).2) = _
  rw [hopened, (walletLayout n).decode_encode, records_withRecord hinfos]

end

/-- **What is saved is loaded.**  A file that `save_account_data` wrote is read back under
the same password as the table it was made of, records included, whatever the destination
and the buffers held. -/
theorem load_account_data_saved {S : Sodium} (hS : S.Lawful) {n : Nat} {env : SaveEnv n}
    {file saved : Option (List UInt8)} {password : CStr} {accounts : Vector SAccount n}
    (h : saveAccountData S env file password accounts = .ok (.success, saved))
    (env' : LoadEnv n) (accounts' : Vector SAccount n) :
    loadAccountData S env' saved password accounts' = .ok (.success, accounts) :=
  loadAccountData_written hS h env' accounts'

/-! ## One account -/

/-- A key, a name, and a balance. -/
def oneAccount : Vector SAccount 1 := Vector.singleton {
  privateKey := Vector.replicate _ 1
  vtcAccount := some { AccountDetails.zero.info with amount := 5 }
  status := .added
  name := Vector.ofFn fun i => if i.val = 0 then 0x61 else 0 }

/-- Random bytes that are all zero, and so are the others. -/
def zeroSaveEnv : SaveEnv 1 where
  salt := Vector.replicate _ 0
  nonce := Vector.replicate _ 0
  pointers := Vector.replicate _ (Vector.replicate _ 0)
  padding := Vector.replicate _ (Vector.replicate _ 0)
  opens := true

/-- The bytes of `oneAccount`. -/
def onePlaintext : List UInt8 :=
  List.replicate 32 1 ++ List.replicate 8 0 ++ [1, 0, 0, 0, 0x61] ++ List.replicate 119 0 ++
    [5, 0, 0, 0]

/-- The key of the password "pw" and a zero salt. -/
def oneKey : Vector UInt8 keySize :=
  #v[0x00, 0x90, 0x59, 0xb9, 0xd6, 0x0b, 0xd9, 0xf0, 0x5b, 0x84, 0xd5, 0xf2, 0xf1, 0xdd, 0x7a, 0x01,
    0xcf, 0xd0, 0xb4, 0x14, 0x2c, 0x45, 0x0c, 0x98, 0xb7, 0x14, 0x71, 0xe3, 0xbd, 0x2f, 0x25, 0x61]

/-- The box of `onePlaintext` under this key and a zero nonce. -/
def oneBox : List UInt8 :=
  [0x67, 0xfa, 0xa8, 0xe8, 0xf3, 0xfa, 0xe2, 0x69, 0xe7, 0xe8, 0xb7, 0x7d, 0xf5, 0x4c, 0x83, 0xf5,
    0x87, 0x5e, 0xbf, 0xc8, 0x00, 0x2b, 0x8c, 0x8c, 0x5c, 0xdf, 0xd7, 0x1c, 0xf5, 0x8a, 0x63, 0xb2,
    0x76, 0xdb, 0x9c, 0x5e, 0x20, 0xe3, 0x67, 0x47, 0x13, 0x82, 0xaa, 0xc4, 0xcf, 0x95, 0x00, 0xe1,
    0xc1, 0x90, 0xf0, 0x30, 0xf3, 0x77, 0x8f, 0xf4, 0xfc, 0xe4, 0xb5, 0xbe, 0x43, 0x50, 0x2e, 0x13,
    0x44, 0x44, 0x9d, 0xc6, 0xd9, 0x15, 0x0a, 0x73, 0x3d, 0xe2, 0x0e, 0x06, 0x6e, 0xe4, 0x21, 0xfe,
    0xa2, 0x65, 0x68, 0x66, 0x70, 0x08, 0xaa, 0xc5, 0x93, 0x0a, 0xe1, 0xa9, 0x97, 0x27, 0x9c, 0xa4,
    0x24, 0x2d, 0x5b, 0x51, 0x7a, 0x4c, 0xb3, 0x41, 0x3c, 0x82, 0x19, 0x5b, 0xa4, 0x92, 0xad, 0x9e,
    0x41, 0x31, 0xa5, 0x2c, 0x87, 0x95, 0xa8, 0x0d, 0x34, 0x81, 0x5d, 0xd7, 0xb6, 0x77, 0x57, 0xf3,
    0xe2, 0x9a, 0x93, 0xf3, 0x5a, 0xd2, 0xe8, 0xfd, 0x34, 0x75, 0xcd, 0xf1, 0x98, 0x9a, 0xce, 0xb5,
    0x7b, 0x42, 0xc2, 0xe5, 0x68, 0xee, 0x6f, 0x06, 0x82, 0xe0, 0x52, 0x32, 0x97, 0x7c, 0x18, 0xed,
    0x78, 0x55, 0x75, 0x90, 0xea, 0xbc, 0x89, 0x4b, 0x81, 0xd4, 0x38, 0x2a, 0x0e, 0xaf, 0x66, 0xb7,
    0x9d, 0x8b, 0x43, 0x58, 0x7d, 0xcc, 0xb8, 0x90]

/-- libsodium as far as one message goes: the password has this key with a zero salt, and
the message this box under a zero nonce.  Nothing else is encrypted. -/
def sampleSodium (password : List UInt8) (key : Vector UInt8 keySize) (message box : List UInt8) :
    Sodium where
  pwhash p salt := if p = password ∧ salt = Vector.replicate _ 0 then some key else none
  secretboxEasy m n k :=
    if m = message ∧ n = Vector.replicate _ 0 ∧ k = key then some box else none
  secretboxOpenEasy c n k :=
    if c = box ∧ n = Vector.replicate _ 0 ∧ k = key then some message else none

theorem sampleSodium_lawful (password : List UInt8) (key : Vector UInt8 keySize)
    {message box : List UInt8} (hlen : box.length = message.length + macSize) :
    (sampleSodium password key message box).Lawful := by
  constructor
  · intro m c n k h
    obtain ⟨⟨rfl, -, -⟩, hc⟩ := Option.ite_none_right_eq_some.mp h
    cases hc
    exact hlen
  · intro m c n k h
    obtain ⟨⟨rfl, rfl, rfl⟩, hc⟩ := Option.ite_none_right_eq_some.mp h
    cases hc
    exact if_pos ⟨rfl, rfl, rfl⟩
  · intro m c n k h
    obtain ⟨⟨rfl, -, -⟩, hm⟩ := Option.ite_none_right_eq_some.mp h
    cases hm
    exact hlen

/-- libsodium on the account. -/
def oneSodium : Sodium := sampleSodium (lit "pw") oneKey onePlaintext oneBox

/-- The account is saved, and loaded over an empty one. -/
theorem load_account_data_saved_one :
    ∃ saved, saveAccountData oneSodium zeroSaveEnv none (cString (lit "pw")) oneAccount =
        .ok (.success, saved) ∧
      loadAccountData oneSodium ⟨Vector.replicate _ 0, Vector.replicate _ 0⟩ saved
        (cString (lit "pw")) (Vector.singleton .zero) = .ok (.success, oneAccount) := by
  have hlen : oneBox.length = onePlaintext.length + macSize := by decide +kernel
  have hsave : saveAccountData oneSodium zeroSaveEnv none (cString (lit "pw")) oneAccount =
      .ok (.success, some (List.replicate 40 0 ++ oneBox)) := by decide +kernel
  exact ⟨_, hsave, load_account_data_saved (sampleSodium_lawful _ _ hlen) hsave _ _⟩

end Vertices
