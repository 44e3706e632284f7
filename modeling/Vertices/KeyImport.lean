/-
# `Vertices.KeyImport` — an account made from a phrase, and the phrase asked back

`src/vertices.c`: a phrase is decoded to a seed, the seed makes the keys, and the keys an
account of the wallet; the other way, the seed is read off the private key and written as
words.  Decoding never succeeds, so no account is ever made from a phrase.
-/
import Vertices.PhraseAcceptance
import Vertices.Wallet

namespace Vertices

/-! ## Importing -/

/-- `crypto_sign_ed25519_seed_keypair` and `crypto_sign_ed25519_sk_to_seed`, with the
bytes they read: the public key, the private key, and the seed. -/
structure Ed25519 where
  seedKeypair : Vector UInt8 32 → Vector UInt8 32 × Vector UInt8 64
  skToSeed : Vector UInt8 32 → Vector UInt8 32

/-- The first bytes of a buffer. -/
def firstBytes (n : Nat) (bs : List UInt8) : Vector UInt8 n :=
  Vector.ofFn fun i => bs.getD i.val 0

/-- `vertices_account_new_from_bin`. -/
def verticesAccountNewFromBin (H : MbedtlsSha512) (R : MpackReader)
    (publicKey : Vector UInt8 addressLength) (reply : HttpReply) (accounts : MAccounts) (p : Provider) :
    Except Fault (RetCode × Option (Fin accountsMaximumCount) × MAccounts × Provider) := do
  -- the array for the hash is zeroed, and the code dropped
  let (_, hash) ← sha512_256 H publicKey.toList 32
  let checksum := (firstBytes 32 hash).toList.drop 28
  let (_, encoded) := b32Encode (publicKey.toList ++ checksum) 58
  accountNew R ⟨firstBytes publicB32StrMaxLength encoded, []⟩ reply accounts p

/-- `vertices_s_account_new_from_keys`: the address is written with its checksum, and read
again by `s_account_new`. -/
def verticesSAccountNewFromKeys (H : MbedtlsSha512) (R : MpackReader)
    (publicKey privateKey : Vector UInt8 addressLength) (name : CStr) (reply : HttpReply)
    (stack : AccountDetails) (wallet : SAccounts) (p : Provider) :
    Except Fault (RetCode × Option (Fin secretAccountsMaximumCount) × SAccounts × Provider) := do
  let (_, hash) ← sha512_256 H publicKey.toList 32
  let checksum := (firstBytes 32 hash).toList.drop 28
  let (_, encoded) := b32Encode (publicKey.toList ++ checksum) 58
  sAccountNew R ⟨firstBytes publicB32StrMaxLength encoded, []⟩ privateKey name reply stack wallet p

/-- `vertices_s_account_new_from_mnemonic`: its code and the tables. -/
def verticesSAccountNewFromMnemonic (H : MbedtlsSha512) (E : Ed25519) (R : MpackReader)
    (sodiumInit : Bool) (pointers : RecordPointers) (mnemonic name : CStr) (reply : HttpReply)
    (stack : AccountDetails) (wallet : SAccounts) (p : Provider) :
    Except Fault (RetCode × Option (Fin secretAccountsMaximumCount) × SAccounts × Provider) :=
  if accountNameLength < name.strlen then return (.errorInvalidParam, none, wallet, p)
  else do
    if ← sAccountExists pointers wallet name then return (.sameMemExist, none, wallet, p)
    else do
      let words ← initializeMnemonic
      let (err, seed) ← seedFromMnemonic H words mnemonic
      if err ≠ .success then return (err, none, wallet, p)
      else if sodiumInit = false then return (.errorInternal, none, wallet, p)
      else do
        let (pk, sk) := E.seedKeypair (firstBytes 32 (seed.getD []))
        -- of the private key `s_account_new` copies the first half
        verticesSAccountNewFromKeys H R pk (firstBytes addressLength sk.toList) name reply stack
          wallet p

/-! ## Exporting -/

/-- `vertices_mnemonic_from_sk`: its code, and the mnemonic if it sets one. -/
def verticesMnemonicFromSk (H : MbedtlsSha512) (E : Ed25519) (sodiumInit : Bool)
    (sk : Vector UInt8 addressLength) : Except Fault (RetCode × Option CStr) :=
  if sodiumInit = false then return (.errorInternal, none)
  else do
    let words ← initializeMnemonic
    let (err, mnemonic) ← mnemonicFromSeed H words (E.skToSeed sk).toList
    return (err, some mnemonic)

/-- `vertices_mnemonic_from_account`. -/
def verticesMnemonicFromAccount (H : MbedtlsSha512) (E : Ed25519) (sodiumInit : Bool)
    (pointers : RecordPointers) (name : CStr) (wallet : SAccounts) :
    Except Fault (RetCode × Option CStr) :=
  if accountNameLength < name.strlen then return (.errorInvalidParam, none)
  else do
    if ← sAccountExists pointers wallet name then
      match ← sAccountGetByName pointers wallet name with
      | (.success, some account) => verticesMnemonicFromSk H E sodiumInit account.privateKey
      | (err, _) => return (err, none)
    else return (.errorNotFound, none)

/-! ## Both -/

/-- The words of a phrase, between blanks and line feeds. -/
def phraseWords (m : CStr) : List CStr :=
  ((m.bytes.splitOnP fun c => c == 0x20 || c == 0x0a).filter (· ≠ [])).map cString

section

variable (H : MbedtlsSha512) (E : Ed25519) (R : MpackReader) (S : Sodium) (pointers : RecordPointers)
  (m name : CStr) (wallet : SAccounts)

/-- The account is found in the wallet, and its phrase has the words of `m`. -/
def Exports : Prop :=
  ∃ m', verticesMnemonicFromAccount H E true pointers name wallet = .ok (.success, some m') ∧
    phraseWords m' = phraseWords m

/-- The account made from `m` has its words, before and after the wallet is saved and
loaded with a password. -/
def ExportsImported (reply : HttpReply) (stack : AccountDetails) (p : Provider) : Prop :=
  ∃ err slot wallet' p',
    verticesSAccountNewFromMnemonic H E R true pointers m name reply stack wallet p =
      .ok (err, slot, wallet', p') ∧
    Exports H E pointers m name wallet' ∧
    ∀ env file saved password env' loaded pointers',
      sAccountSave S true env file password wallet' = .ok (.success, saved) →
        verticesWalletLoad S true env' saved password wallet' = .ok (.success, loaded) →
          Exports H E pointers' m name loaded

variable {H E R S pointers m name wallet}

theorem seedFromMnemonic_fails {err : RetCode} {seed : Option (List UInt8)}
    (h : seedFromMnemonic H { wordVec := englishVec, wordMap := englishVec.zipIdx } m =
      .ok (err, seed)) : err = .errorInternal := by
  by_cases hnil : makeWordVector m = []
  · rw [seedFromMnemonic, hnil] at h
    cases h
  · by_cases hlen : (makeWordVector m).length = 25
    · rw [seedFromMnemonic_25 hlen] at h
      cases h
    · rw [seedFromMnemonic_returns hnil hlen] at h
      cases h
      rfl

/-- Under a new name the phrase is decoded; an error is passed on, and so is the end of
the process. -/
theorem newFromMnemonic_eq {reply : HttpReply} {stack : AccountDetails} {sodiumInit : Bool}
    {p : Provider} (hshort : ¬ accountNameLength < name.strlen)
    (hname : sAccountExists pointers wallet name = .ok false) :
    verticesSAccountNewFromMnemonic H E R sodiumInit pointers m name reply stack wallet p =
      (seedFromMnemonic H { wordVec := englishVec, wordMap := englishVec.zipIdx } m).bind
        fun r => .ok (r.1, none, wallet, p) := by
  rw [verticesSAccountNewFromMnemonic, if_neg hshort, hname, initializeMnemonic_eq]
  dsimp only [bind, Except.bind]
  cases hseed : seedFromMnemonic H { wordVec := englishVec, wordMap := englishVec.zipIdx } m with
  | error f => rfl
  | ok r =>
      obtain ⟨err, seed⟩ := r
      have herr : err ≠ .success := by
        rw [seedFromMnemonic_fails hseed]
        exact RetCode.noConfusion
      exact if_pos herr

/-- Whatever the phrase, an import that returns has left the wallet as it was. -/
theorem newFromMnemonic_unchanged {reply : HttpReply} {stack : AccountDetails} {sodiumInit : Bool}
    {wallet' : SAccounts} {p p' : Provider} {err : RetCode}
    {slot : Option (Fin secretAccountsMaximumCount)}
    (h : verticesSAccountNewFromMnemonic H E R sodiumInit pointers m name reply stack wallet p =
      .ok (err, slot, wallet', p')) : slot = none ∧ wallet' = wallet := by
  by_cases hshort : accountNameLength < name.strlen
  · rw [verticesSAccountNewFromMnemonic, if_pos hshort] at h
    obtain ⟨-, rfl, rfl, -⟩ := pure_eq_ok4.mp h
    exact ⟨rfl, rfl⟩
  cases hname : sAccountExists pointers wallet name with
  | error f =>
      rw [verticesSAccountNewFromMnemonic, if_neg hshort, hname] at h
      cases h
  | ok found =>
      cases found with
      | true =>
          rw [verticesSAccountNewFromMnemonic, if_neg hshort, hname] at h
          obtain ⟨-, rfl, rfl, -⟩ := pure_eq_ok4.mp h
          exact ⟨rfl, rfl⟩
      | false =>
          rw [newFromMnemonic_eq hshort hname] at h
          obtain ⟨r, -, h⟩ := bind_eq_ok.mp h
          obtain ⟨-, rfl, rfl, -⟩ := pure_eq_ok4.mp h
          exact ⟨rfl, rfl⟩

/-- No name that is not in the wallet has a phrase. -/
theorem not_exports (hname : sAccountExists pointers wallet name ≠ .ok true) :
    ¬ Exports H E pointers m name wallet := by
  rintro ⟨m', hexport, -⟩
  rw [verticesMnemonicFromAccount] at hexport
  split at hexport
  · cases hexport
  · obtain ⟨found, hfound, hexport⟩ := bind_eq_ok.mp hexport
    split at hexport
    · next hexists =>
        rw [hexists] at hfound
        exact hname hfound
    · cases hexport

end

/-- **No phrase is ever exported after its import**: from no wallet that does not hold the
name already. -/
theorem import_never_exported (H : MbedtlsSha512) (E : Ed25519) (R : MpackReader) (S : Sodium)
    (pointers : RecordPointers) (m name : CStr) (wallet : SAccounts) (reply : HttpReply)
    (stack : AccountDetails) (p : Provider) (hname : sAccountExists pointers wallet name ≠ .ok true) :
    ¬ ExportsImported H E R S pointers m name wallet reply stack p := by
  rintro ⟨err, slot, wallet', p', himport, hexports, -⟩
  obtain ⟨-, rfl⟩ := newFromMnemonic_unchanged himport
  exact not_exports hname hexports

/-! ## The zero seed -/

/-- libsodium on the zero seed: its public key, and the private key that begins with the
seed. -/
def zeroEd25519 : Ed25519 where
  seedKeypair seed :=
    let pk := #v[
      0x3b, 0x6a, 0x27, 0xbc, 0xce, 0xb6, 0xa4, 0x2d, 0x62, 0xa3, 0xa8, 0xd0, 0x2a, 0x6f, 0x0d, 0x73,
      0x65, 0x32, 0x15, 0x77, 0x1d, 0xe2, 0x43, 0xa6, 0x3a, 0xc0, 0x48, 0xa1, 0x8b, 0x59, 0xda, 0x29]
    (pk, seed ++ pk)
  skToSeed sk := sk

def nameA : CStr := cString (lit "a")

/-- The phrase of the zero seed, in the wallet of `s_account_init`. -/
theorem import_never_exported_zero :
    ¬ ExportsImported sha512OfZeros zeroEd25519 formatReader oneSodium noPointers zeroMnemonic nameA
      sAccountInit ⟨[], .errorOffline, 0⟩ .zero .zero :=
  import_never_exported _ _ _ _ _ _ _ _ _ _ _ (by decide +kernel)

/-- With blanks between its words the phrase is not accepted; with line feeds the import
does not return. -/
theorem zero_phrase_not_imported :
    IsPhrase sha512OfZeros zeroSeed (phraseWords zeroMnemonic) ∧
      IsPhrase sha512OfZeros zeroSeed (phraseWords zeroLines) ∧
      (∀ i, (sAccountInit.get i).status = .none ∧ (sAccountInit.get i).vtcAccount.isSome) ∧
      sAccountExists noPointers sAccountInit nameA = .ok false ∧
      verticesSAccountNewFromMnemonic sha512OfZeros zeroEd25519 formatReader true noPointers zeroMnemonic
        nameA ⟨[], .errorOffline, 0⟩ .zero sAccountInit .zero =
          .ok (.errorInternal, none, sAccountInit, .zero) ∧
      verticesSAccountNewFromMnemonic sha512OfZeros zeroEd25519 formatReader true noPointers zeroLines
        nameA ⟨[], .errorOffline, 0⟩ .zero sAccountInit .zero = .error .outOfBounds ∧
      ¬ ExportsImported sha512OfZeros zeroEd25519 formatReader oneSodium noPointers zeroMnemonic nameA
        sAccountInit ⟨[], .errorOffline, 0⟩ .zero .zero ∧
      ¬ ExportsImported sha512OfZeros zeroEd25519 formatReader oneSodium noPointers zeroLines nameA
        sAccountInit ⟨[], .errorOffline, 0⟩ .zero .zero := by
  have hlines : IsPhrase sha512OfZeros zeroSeed (phraseWords zeroLines) :=
    ⟨UInt16.ofNat (0x3af : Nat), by decide +kernel, by decide +kernel⟩
  have hblanks : IsPhrase sha512OfZeros zeroSeed (phraseWords zeroMnemonic) :=
    ⟨UInt16.ofNat (0x3af : Nat), by decide +kernel, by decide +kernel⟩
  have hfree : ∀ i, (sAccountInit.get i).status = .none ∧ (sAccountInit.get i).vtcAccount.isSome := by
    decide +kernel
  have hname : sAccountExists noPointers sAccountInit nameA = .ok false := by decide +kernel
  have hshort : ¬ accountNameLength < nameA.strlen := by decide +kernel
  have hnot : ∀ m, ¬ ExportsImported sha512OfZeros zeroEd25519 formatReader oneSodium noPointers m nameA
      sAccountInit ⟨[], .errorOffline, 0⟩ .zero .zero := by
    rintro m ⟨err, slot, wallet', p', himport, hexports, -⟩
    obtain ⟨-, rfl⟩ := newFromMnemonic_unchanged himport
    refine not_exports ?_ hexports
    rw [hname]
    decide
  refine ⟨hblanks, hlines, hfree, hname, ?_, ?_, hnot zeroMnemonic, hnot zeroLines⟩
  · have hseed : seedFromMnemonic sha512OfZeros
        { wordVec := englishVec, wordMap := englishVec.zipIdx } zeroMnemonic =
          .ok (.errorInternal, none) :=
      seedFromMnemonic_returns (by decide +kernel) (by decide +kernel)
    rw [newFromMnemonic_eq hshort hname, hseed]
    rfl
  · have htokens : makeWordVector zeroLines = phraseWords zeroLines := by decide +kernel
    have hlen : (makeWordVector zeroLines).length = 25 := by rw [htokens, hlines.length_eq]
    have hknown : ∀ w ∈ makeWordVector zeroLines, w ∈ englishVec := by
      rw [htokens]
      exact hlines.known
    rw [newFromMnemonic_eq hshort hname, seedFromMnemonic_25 hlen, if_pos hknown]
    rfl

end Vertices
