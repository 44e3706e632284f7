/-
# `Vertices.WalletNames` — two accounts under one name

An account of the wallet is asked for by its name.  `vertices_s_account_new_from_mnemonic`
looks whether the name is taken; `vertices_s_account_new_from_keys`, which it calls and which
the application may call, does not, and neither does a load.

    `namesUnique_step_iff`      what each call has to see to, for names to stay unique
    `wallet_names_unique_iff`   the same for runs; and who sees to it
-/
import Vertices.WalletLookup
import Vertices.WalletLoad

namespace Vertices

open Transition

/-! ## Names -/

/-- No two entries in use have the same name. -/
def TableNamesUnique (table : Vector StoredAccount secretAccountsMaximumCount) : Prop :=
  ∀ i j, (table.get i).status = .added → (table.get j).status = .added →
    cString (table.get i).name.toList = cString (table.get j).name.toList → i = j

/-- No two accounts of the wallet have the same name. -/
def NamesUnique (wallet : SAccounts) : Prop := TableNamesUnique (wallet.map SAccount.stored)

theorem get_map_stored (wallet : SAccounts) (i : Fin secretAccountsMaximumCount) :
    (wallet.map SAccount.stored).get i = (wallet.get i).stored :=
  Vector.getElem_map _ i.isLt

theorem namesUnique_iff {wallet : SAccounts} : NamesUnique wallet ↔
    ∀ i j, (wallet.get i).status = .added → (wallet.get j).status = .added →
      cString (wallet.get i).name.toList = cString (wallet.get j).name.toList → i = j := by
  rw [NamesUnique, TableNamesUnique]
  simp only [get_map_stored, SAccount.stored]

theorem map_stored_withRecord (stored : Vector StoredAccount secretAccountsMaximumCount)
    (infos : Vector AccountInfo secretAccountsMaximumCount) :
    (stored.zipWith StoredAccount.withRecord infos).map SAccount.stored = stored := by
  ext i hi : 1
  rw [Vector.getElem_map, Vector.getElem_zipWith]
  rfl

theorem namesUnique_sAccountInit : NamesUnique sAccountInit := by
  rw [namesUnique_iff]
  intro i j hi
  rw [get_sAccountInit] at hi
  cases hi

/-- An account in a free entry: its name has to be new. -/
theorem namesUnique_set_iff {wallet : SAccounts} (h : NamesUnique wallet)
    {i : Fin secretAccountsMaximumCount} (hi : (wallet.get i).status = .none) {a : SAccount}
    (ha : a.status = .added) :
    NamesUnique (wallet.set i.val a i.isLt) ↔
      ∀ j, (wallet.get j).status = .added →
        cString (wallet.get j).name.toList ≠ cString a.name.toList := by
  rw [namesUnique_iff] at h ⊢
  have hself := get_set_self wallet i a
  have hother : ∀ j, (wallet.get j).status = .added → i.val ≠ j.val ∧
      (wallet.set i.val a i.isLt).get j = wallet.get j := by
    intro j hj
    have hne : i.val ≠ j.val := by
      intro hij
      rw [← Fin.ext hij, hi] at hj
      cases hj
    exact ⟨hne, (get_set wallet i.isLt j a).trans (if_neg hne)⟩
  have hcases : ∀ j, ((wallet.set i.val a i.isLt).get j).status = .added →
      j = i ∨ (wallet.get j).status = .added := by
    intro j hj
    rw [get_set] at hj
    split at hj
    · next hij => exact .inl (Fin.ext hij).symm
    · exact .inr hj
  constructor
  · intro hunique j hj hsame
    obtain ⟨hne, hget⟩ := hother j hj
    have hji := hunique j i (hget ▸ hj) (by rw [hself, ha]) (by rw [hget, hself, hsame])
    exact hne (congrArg Fin.val hji).symm
  · intro hnew j k hj hk hsame
    rcases hcases j hj with rfl | hj' <;> rcases hcases k hk with rfl | hk'
    · rfl
    · rw [hself, (hother k hk').2] at hsame
      exact absurd hsame.symm (hnew k hk')
    · rw [hself, (hother j hj').2] at hsame
      exact absurd hsame (hnew j hj')
    · rw [(hother j hj').2, (hother k hk').2] at hsame
      exact h j k hj' hk' hsame

theorem namesUnique_free {wallet : SAccounts} (h : NamesUnique wallet) (account : SAccountPtr) :
    NamesUnique (sAccountFree account wallet).2 := by
  cases account with
  | other => exact h
  | sAccount i =>
      rw [namesUnique_iff] at h ⊢
      intro j k hj hk hsame
      rw [get_sAccountFree] at hj hk hsame
      split at hj
      · cases hj
      · split at hk
        · cases hk
        · next hij hik =>
            rw [if_neg hij, get_sAccountFree, if_neg hik] at hsame
            exact h j k hj hk hsame

/-! ## The application's calls -/

/-- A call of the application on its wallet, with what it takes from outside. -/
inductive WalletCall where
  | sAccountNewFromMnemonic (sodiumInit : Bool) (pointers : RecordPointers) (mnemonic name : CStr)
      (reply : HttpReply) (stack : AccountDetails)
  | sAccountNewFromKeys (publicKey privateKey : Vector UInt8 addressLength) (name : CStr)
      (reply : HttpReply) (stack : AccountDetails)
  | sAccountFree (account : SAccountPtr)
  | walletSave (sodiumInit : Bool) (env : SaveEnv secretAccountsMaximumCount) (password : CStr)
  | walletLoad (sodiumInit : Bool) (env : LoadEnv secretAccountsMaximumCount) (password : CStr)

def WalletCall.run (H : MbedtlsSha512) (E : Ed25519) (R : MpackReader) (S : Sodium) (t : Registry) :
    WalletCall → Except Fault (RetCode × Registry)
  | .sAccountNewFromMnemonic sodiumInit pointers mnemonic name reply stack => do
      let (err, _, wallet, p) ← verticesSAccountNewFromMnemonic H E R sodiumInit pointers mnemonic name
        reply stack t.wallet t.provider
      return (err, { t with wallet := wallet, provider := p })
  | .sAccountNewFromKeys publicKey privateKey name reply stack => do
      let (err, _, wallet, p) ← verticesSAccountNewFromKeys H R publicKey privateKey name reply stack
        t.wallet t.provider
      return (err, { t with wallet := wallet, provider := p })
  | .sAccountFree account => RegistryCall.run R S t (.sAccountFree account)
  | .walletSave sodiumInit env password => RegistryCall.run R S t (.sAccountSave sodiumInit env password)
  | .walletLoad sodiumInit env password =>
      RegistryCall.run R S t (.verticesWalletLoad sodiumInit env password)

/-- One call that returns. -/
def WalletStep (H : MbedtlsSha512) (E : Ed25519) (R : MpackReader) (S : Sodium) (t : Registry)
    (call : WalletCall) (t' : Registry) : Prop :=
  ∃ err, call.run H E R S t = .ok (err, t')

/-- No account has the name that an account stored under `name` will be read under. -/
def NewName (wallet : SAccounts) (name : CStr) : Prop :=
  ∀ i, (wallet.get i).status = .none → (∀ j < i, (wallet.get j).status ≠ .none) →
    ∀ j, (wallet.get j).status = .added → cString (wallet.get j).name.toList ≠
      cString (name.bytes ++ (wallet.get i).name.toList.drop name.strlen)

/-- Keys are added under a new name, and a file is loaded if its names are unique. -/
def WalletCall.KeepsNames (S : Sodium) (t : Registry) : WalletCall → Prop
  | .sAccountNewFromKeys _ _ name _ _ => NewName t.wallet name
  | .walletLoad sodiumInit env password => sodiumInit = true →
      ∀ table, LoadsTable S env t.file password table → TableNamesUnique table.1
  | _ => True

section

variable {H : MbedtlsSha512} {E : Ed25519} {R : MpackReader} {S : Sodium} {t t' : Registry}

/-- The address is written, and `s_account_new` called. -/
theorem newFromKeys_eq (H : MbedtlsSha512) (publicKey : Vector UInt8 addressLength) :
    ∃ publicB32, ∀ R privateKey name reply stack wallet p,
      verticesSAccountNewFromKeys H R publicKey privateKey name reply stack wallet p =
        sAccountNew R publicB32 privateKey name reply stack wallet p := by
  have hhash : ∃ r, sha512_256 H publicKey.toList 32 = .ok r := by
    have hlen : publicKey.toList.length = 32 := publicKey.length_toList
    rw [sha512_256, if_neg (by rw [hlen]; decide), if_neg (by rw [hlen]; decide)]
    split
    · exact ⟨_, rfl⟩
    · exact ⟨_, if_pos (by decide)⟩
  obtain ⟨⟨code, hash⟩, hhash⟩ := hhash
  refine ⟨⟨firstBytes publicB32StrMaxLength
    (b32Encode (publicKey.toList ++ (firstBytes 32 hash).toList.drop 28) 58).2, []⟩, ?_⟩
  intro R privateKey name reply stack wallet p
  rw [verticesSAccountNewFromKeys, hhash]
  rfl

theorem walletStep_newFromKeys (publicKey : Vector UInt8 addressLength) :
    ∃ publicB32, ∀ E R S t privateKey name reply stack t',
      WalletStep H E R S t (.sAccountNewFromKeys publicKey privateKey name reply stack) t' ↔
        RegistryStep R S t (.sAccountNew publicB32 privateKey name reply stack) t' := by
  obtain ⟨publicB32, heq⟩ := newFromKeys_eq H publicKey
  refine ⟨publicB32, ?_⟩
  intro E R S t privateKey name reply stack t'
  rw [WalletStep, RegistryStep, WalletCall.run, RegistryCall.run, heq]

/-- Keys stored in an entry. -/
theorem namesUnique_newFromKeys_iff (h : NamesUnique t.wallet) {publicB32 : B32Ptr}
    {privateKey : Vector UInt8 addressLength} {name : CStr} {reply : HttpReply} {stack : AccountDetails}
    (hstep : RegistryStep R S t (.sAccountNew publicB32 privateKey name reply stack) t') :
    NamesUnique t'.wallet ↔ NewName t.wallet name := by
  rcases hstep.stores with ⟨hsame, hfull⟩ | ⟨i, a, hi, hstored, hset⟩
  · rw [hsame]
    exact iff_of_true h fun i hi => absurd hi (hfull i)
  · rw [hset, namesUnique_set_iff h hi.1 hstored.status, hstored.name]
    constructor
    · intro hnew k hk hkfirst
      obtain rfl := hi.unique ⟨hk, hkfirst⟩
      exact hnew
    · intro hnew
      exact hnew i hi.1 hi.2

theorem namesUnique_load_iff {sodiumInit : Bool} {env : LoadEnv secretAccountsMaximumCount}
    {file : Option (List UInt8)} {password : CStr} {wallet wallet' : SAccounts} {err : RetCode}
    (h : verticesWalletLoad S sodiumInit env file password wallet = .ok (err, wallet')) :
    NamesUnique wallet' ↔
      (sodiumInit = true → ∀ table, LoadsTable S env file password table → TableNamesUnique table.1) := by
  rw [verticesWalletLoad, sAccountLoad] at h
  split at h
  · next hinit =>
      rcases loadAccountData_table h with ⟨-, rfl, hnone⟩ | ⟨-, table, htable, rfl⟩
      · exact iff_of_true namesUnique_sAccountInit fun _ table htable => absurd htable (hnone table)
      · rw [NamesUnique, map_stored_withRecord]
        constructor
        · intro hunique _ table' htable'
          exact htable.unique htable' ▸ hunique
        · intro hunique
          exact hunique hinit table htable
  · next hinit =>
      obtain ⟨-, rfl⟩ := pure_eq_ok2.mp h
      exact iff_of_true namesUnique_sAccountInit fun hsodium => absurd hsodium hinit

/-- What one call does to unique names. -/
theorem namesUnique_step_iff {call : WalletCall} (h : NamesUnique t.wallet)
    (hstep : WalletStep H E R S t call t') : NamesUnique t'.wallet ↔ call.KeepsNames S t := by
  cases call with
  | sAccountNewFromMnemonic sodiumInit pointers mnemonic name reply stack =>
      obtain ⟨err, hstep⟩ := hstep
      obtain ⟨⟨code, slot, wallet, p⟩, hnew, hstep⟩ := bind_eq_ok.mp hstep
      obtain ⟨-, rfl⟩ := pure_eq_ok2.mp hstep
      obtain ⟨-, rfl⟩ := newFromMnemonic_unchanged hnew
      exact iff_of_true h trivial
  | sAccountNewFromKeys publicKey privateKey name reply stack =>
      obtain ⟨publicB32, hiff⟩ := walletStep_newFromKeys (H := H) publicKey
      exact namesUnique_newFromKeys_iff h ((hiff _ _ _ _ _ _ _ _ _).mp hstep)
  | sAccountFree account =>
      obtain ⟨err, hstep⟩ := hstep
      obtain ⟨-, rfl⟩ := pure_eq_ok2.mp hstep
      exact iff_of_true (namesUnique_free h account) trivial
  | walletSave sodiumInit env password =>
      obtain ⟨err, hstep⟩ := hstep
      obtain ⟨r, -, hstep⟩ := bind_eq_ok.mp hstep
      obtain ⟨-, rfl⟩ := pure_eq_ok2.mp hstep
      exact iff_of_true h trivial
  | walletLoad sodiumInit env password =>
      obtain ⟨err, hstep⟩ := hstep
      obtain ⟨⟨code, wallet⟩, hload, hstep⟩ := bind_eq_ok.mp hstep
      obtain ⟨-, rfl⟩ := pure_eq_ok2.mp hstep
      exact namesUnique_load_iff hload

/-! ## Who sees to it -/

/-- A file saved with unique names is loaded with unique names, under its password. -/
theorem saved_names_unique (hS : S.Lawful) {wallet : SAccounts} (h : NamesUnique wallet)
    {sodiumInit : Bool} {env : SaveEnv secretAccountsMaximumCount} {file saved : Option (List UInt8)}
    {password : CStr} (hsave : sAccountSave S sodiumInit env file password wallet = .ok (.success, saved))
    {env' : LoadEnv secretAccountsMaximumCount}
    {table : Vector StoredAccount secretAccountsMaximumCount × Vector AccountInfo secretAccountsMaximumCount}
    (htable : LoadsTable S env' saved password table) : TableNamesUnique table.1 := by
  rw [sAccountSave] at hsave
  split at hsave
  · have hload := loadAccountData_written hS hsave env' sAccountInit
    rcases loadAccountData_table hload with ⟨hne, -⟩ | ⟨-, table', htable', hwallet⟩
    · exact absurd rfl hne
    · rw [hwallet, NamesUnique, map_stored_withRecord] at h
      exact htable'.unique htable ▸ h
  · exact absurd (pure_eq_ok2.mp hsave).1 RetCode.noConfusion

/-- A name shorter than the field is missed in no entry that has it. -/
theorem ne_of_hasNameAt_false {pointers : RecordPointers} {wallet : SAccounts}
    {j : Fin secretAccountsMaximumCount} {name : CStr} (hshort : name.strlen < accountNameLength)
    (h : hasNameAt pointers wallet name j = .ok false) (hj : (wallet.get j).status = .added) :
    cString (wallet.get j).name.toList ≠ name := by
  intro hname
  have hmem : (0 : UInt8) ∈ (wallet.get j).name.toList := by
    by_contra hmem
    have hlen : name.strlen = accountNameLength := by
      rw [← hname, CStr.strlen, bytes_cString hmem, Vector.length_toList]
    exact Nat.lt_irrefl _ (hlen ▸ hshort)
  obtain ⟨hzero, hread⟩ : 0 ∈ nameMemory pointers wallet j ∧
      readAt pointers wallet j = cString (wallet.get j).name.toList := readAt_of_mem hmem
  rw [hasNameAt_eq_true.mpr ⟨hj, hzero, hread.trans hname⟩] at h
  cases h

/-- The check that the import of a phrase makes is enough, for a name that ends in the field. -/
theorem newName_of_not_exists {pointers : RecordPointers} {wallet : SAccounts} (h : BlankNames wallet)
    {name : CStr} (hshort : name.strlen < accountNameLength)
    (hname : sAccountExists pointers wallet name = .ok false) : NewName wallet name := by
  intro i hi _ j hj
  have hread : cString (name.bytes ++ (wallet.get i).name.toList.drop name.strlen) = name := by
    rw [h i hi, Vector.toList_replicate, List.drop_replicate]
    cases accountNameLength - name.strlen with
    | zero =>
        rw [List.replicate_zero, List.append_nil]
        exact CStr.ext (bytes_cString name.noNul)
    | succ k => exact CStr.ext (bytes_cString_append name.noNul _)
  rw [hread]
  exact ne_of_hasNameAt_false hshort (sAccountExists_eq_false.mp hname j) hj

end

/-- The names in an initially empty wallet stay unique in exactly the runs in which keys are
added under new names only and no file is loaded that has a name twice.  A file saved by the
wallet has not, and for keys the check made for phrases would be enough, if the name is
shorter than its field. -/
theorem wallet_names_unique_iff (H : MbedtlsSha512) (E : Ed25519) (R : MpackReader) (S : Sodium)
    (calls : List WalletCall) {t : Registry} (ht : t.wallet = sAccountInit) :
    ((∀ before after u, calls = before ++ after → Run (WalletStep H E R S) t before u →
        NamesUnique u.wallet) ↔
      ∀ before call after u v, calls = before ++ call :: after → Run (WalletStep H E R S) t before u →
        WalletStep H E R S u call v → call.KeepsNames S u) ∧
    (∀ (u : Registry) sodiumInit env password saved, S.Lawful → NamesUnique u.wallet →
      sAccountSave S sodiumInit env u.file password u.wallet = .ok (.success, saved) →
        ∀ sodiumInit' env', (WalletCall.walletLoad sodiumInit' env' password).KeepsNames S
          { u with file := saved }) ∧
    ∀ (u : Registry) pointers publicKey privateKey name reply stack, BlankNames u.wallet →
      name.strlen < accountNameLength → sAccountExists pointers u.wallet name = .ok false →
        (WalletCall.sAccountNewFromKeys publicKey privateKey name reply stack).KeepsNames S u := by
  refine ⟨Run.always_iff_at calls (fun _ _ _ h hstep => namesUnique_step_iff h hstep)
    (ht ▸ namesUnique_sAccountInit), ?_, ?_⟩
  · intro u sodiumInit env password saved hS h hsave sodiumInit' env' _ table htable
    exact saved_names_unique hS h hsave htable
  · intro u pointers publicKey privateKey name reply stack hblank hshort hname
    exact newName_of_not_exists hblank hshort hname

/-! ## Two accounts -/

/-- Keys added under a name, the node not reached. -/
def newKeys (key : UInt8) (name : CStr) : WalletCall :=
  .sAccountNewFromKeys (Vector.replicate _ 0) (Vector.replicate _ key) name ⟨[], .errorOffline, 0⟩ .zero

/-- Two of them, in an empty wallet: each takes the first free entry. -/
theorem newKeys_two {name name' : CStr} (hshort : name.strlen < accountNameLength)
    (hshort' : name'.strlen < accountNameLength) (key key' : UInt8) :
    ∃ t₁ t₂, WalletStep sha512OfZeros zeroEd25519 formatReader oneSodium .start (newKeys key name) t₁ ∧
      WalletStep sha512OfZeros zeroEd25519 formatReader oneSodium t₁ (newKeys key' name') t₂ ∧
      BlankNames t₁.wallet ∧
      ((t₂.wallet.get 0).status = .added ∧ cString (t₂.wallet.get 0).name.toList = name ∧
        (t₂.wallet.get 0).privateKey = Vector.replicate _ key) ∧
      (t₂.wallet.get 1).status = .added ∧ cString (t₂.wallet.get 1).name.toList = name' ∧
        (t₂.wallet.get 1).privateKey = Vector.replicate _ key' := by
  obtain ⟨publicB32, hiff⟩ := walletStep_newFromKeys (H := sha512OfZeros) (Vector.replicate _ 0)
  -- what is written over a blank field is read back
  have hread : ∀ {i n k c}, Stored publicB32 k n (Registry.start.wallet.get i) c →
      n.strlen < accountNameLength → cString c.name.toList = n := by
    intro i n k c hstored hn
    have hblank : (Registry.start.wallet.get i).name = Vector.replicate _ 0 :=
      blankNames_sAccountInit i (free_start i)
    rw [hstored.name, hblank, Vector.toList_replicate, List.drop_replicate,
      show accountNameLength - n.strlen = accountNameLength - n.strlen - 1 + 1 by omega]
    exact CStr.ext (bytes_cString_append n.noNul _)
  obtain ⟨t₁, hstep₁⟩ := sAccountNew_offline (R := formatReader) (S := oneSodium) firstFree_start
    (record_start 0) hshort.le publicB32 (Vector.replicate _ key) .zero
  obtain ⟨i, a, hi, hstored₁, hset₁⟩ := hstep₁.stored ⟨0, free_start 0⟩
  obtain rfl := firstFree_start.unique hi
  have hget₁ : t₁.wallet.get 0 = a := by rw [hset₁, get_set_self]
  have hnext : t₁.wallet.get 1 = Registry.start.wallet.get 1 := by
    rw [hset₁, get_set, if_neg (by decide)]
  have hfirst : FirstFree t₁.wallet 1 := by
    refine ⟨(congrArg SAccount.status hnext).trans (free_start 1), fun j hj => ?_⟩
    show (t₁.wallet.get j).status ≠ .none
    rw [show j = 0 from Fin.ext (Nat.lt_one_iff.mp hj), hget₁, hstored₁.status]
    exact AccountStatus.noConfusion
  obtain ⟨t₂, hstep₂⟩ := sAccountNew_offline (R := formatReader) (S := oneSodium) hfirst
    (hnext ▸ record_start 1) hshort'.le publicB32 (Vector.replicate _ key') .zero
  obtain ⟨k, b, hk, hstored₂, hset₂⟩ := hstep₂.stored ⟨1, hfirst.1⟩
  obtain rfl := hfirst.unique hk
  have hold : t₂.wallet.get 0 = a := by rw [hset₂, get_set, if_neg (by decide), hget₁]
  have hnew : t₂.wallet.get 1 = b := by rw [hset₂, get_set_self]
  refine ⟨t₁, t₂, (hiff _ _ _ _ _ _ _ _ _).mpr hstep₁, (hiff _ _ _ _ _ _ _ _ _).mpr hstep₂,
    ?_, ?_, ?_⟩
  · refine blankNames_step blankNames_sAccountInit ?_ hstep₁
    exact not_false
  · rw [hold]
    exact ⟨hstored₁.status, hread hstored₁ hshort, hstored₁.privateKey⟩
  · rw [hnew]
    exact ⟨hstored₂.status, hread (hnext ▸ hstored₂) hshort', hstored₂.privateKey⟩

def nameB : CStr := cString (lit "b")

theorem short_names : nameA.strlen < accountNameLength ∧ nameB.strlen < accountNameLength ∧
    nameA ≠ nameB := by
  decide +kernel

/-- An account "a" and an account "b". -/
theorem wallet_names_unique_iff_two :
    ∃ t, Run (WalletStep sha512OfZeros zeroEd25519 formatReader oneSodium) .start
        [newKeys 1 nameA, newKeys 2 nameB] t ∧
      (t.wallet.get 0).status = .added ∧ (t.wallet.get 1).status = .added ∧ NamesUnique t.wallet := by
  obtain ⟨hshort, hshort', -⟩ := short_names
  obtain ⟨t₁, t₂, hstep₁, hstep₂, hblank, ⟨hadded, -⟩, hadded', -⟩ := newKeys_two hshort hshort' 1 2
  have hrun : Run (WalletStep sha512OfZeros zeroEd25519 formatReader oneSodium) .start
      [newKeys 1 nameA, newKeys 2 nameB] t₂ := .cons hstep₁ (.single hstep₂)
  have hseen : ((newKeys 1 nameA).run sha512OfZeros zeroEd25519 formatReader oneSodium .start).map
      (fun r => sAccountExists noPointers r.2.wallet nameB) = .ok (.ok false) := by decide +kernel
  obtain ⟨hiff, -, hcheck⟩ := wallet_names_unique_iff sha512OfZeros zeroEd25519 formatReader oneSodium
    [newKeys 1 nameA, newKeys 2 nameB] (t := .start) rfl
  refine ⟨t₂, hrun, hadded, hadded', hiff.mpr ?_ [newKeys 1 nameA, newKeys 2 nameB] [] t₂ rfl hrun⟩
  intro before call after u v hcalls hbefore _
  match before with
  | [] =>
      cases hcalls
      cases hbefore
      exact hcheck _ noPointers _ _ _ _ _ blankNames_sAccountInit hshort (not_present_start _ nameA)
  | [_] =>
      cases hcalls
      obtain ⟨err₁, hnew₁⟩ := hstep₁
      cases hbefore with
      | cons hstep hnil =>
          cases hnil
          obtain ⟨err, hnew⟩ := hstep
          cases hnew₁.symm.trans hnew
          rw [hnew₁] at hseen
          exact hcheck _ noPointers _ _ _ _ _ hblank hshort' (Except.ok.inj hseen)
  | _ :: _ :: before => cases before <;> cases hcalls

/-- Two accounts with different keys, both called "a". -/
theorem two_accounts_one_name :
    ∃ t, Run (WalletStep sha512OfZeros zeroEd25519 formatReader oneSodium) .start
        [newKeys 1 nameA, newKeys 2 nameA] t ∧
      (∀ i ∈ [0, 1], (t.wallet.get i).status = .added ∧ cString (t.wallet.get i).name.toList = nameA) ∧
      (t.wallet.get 0).privateKey ≠ (t.wallet.get 1).privateKey ∧ ¬ NamesUnique t.wallet := by
  obtain ⟨hshort, -, -⟩ := short_names
  obtain ⟨t₁, t, hstep₁, hstep₂, -, ⟨hadded, hname, hkey⟩, hadded', hname', hkey'⟩ :=
    newKeys_two hshort hshort 1 2
  refine ⟨t, .cons hstep₁ (.single hstep₂), ?_, ?_, ?_⟩
  · intro i hi
    rcases List.mem_cons.mp hi with rfl | hi
    · exact ⟨hadded, hname⟩
    · rw [List.mem_singleton.mp hi]
      exact ⟨hadded', hname'⟩
  · rw [hkey, hkey']
    decide
  · rw [namesUnique_iff]
    intro hunique
    have hsame := hunique 0 1 hadded hadded' (hname.trans hname'.symm)
    cases hsame

end Vertices
