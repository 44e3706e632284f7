/-
# `Vertices.Keyring` — who the accounts are

What the tables of `account.c` are for, without balances, applications and bytes: which
address each public entry stands for, which key and name each wallet entry has, and what
wallet the file brings back.

    KeyringStep                   what a call does to a keyring
    registry_refines_keyring      the calls of the SDK do nothing else, in any run
    identities_kept               an entry in use keeps its identity until it is given up
    identities_asked_for          and has the one that was asked for
    load_restores_last_save       a load brings back what was saved last
-/
import Vertices.AccountHandles
import Vertices.WalletLengths
import Vertices.WalletLookup

namespace Vertices

open Transition Function

/-! ## The keyring -/

/-- The address of an account, as text and as key. -/
structure Identity where
  publicB32 : Vector UInt8 publicB32StrMaxLength
  publicKey : Vector UInt8 addressLength
  deriving DecidableEq

def AccountInfo.identity (info : AccountInfo) : Identity := ⟨info.publicB32, info.publicKey⟩

/-- What an address text is made to stand for. -/
def B32Ptr.identity (publicB32 : B32Ptr) : Identity :=
  ⟨publicB32.copied, (fromB32Init publicB32 AccountDetails.zero.info).publicKey⟩

/-- Whose a public entry is, if it is in use. -/
def LocalAccount.owner (a : LocalAccount) : Option Identity :=
  match a.status with
  | .none => none
  | _ => some a.account.info.identity

/-- A wallet entry; `identity` is missing behind a null pointer. -/
structure Secret where
  privateKey : Vector UInt8 addressLength
  status : AccountStatus
  name : Vector UInt8 accountNameLength
  identity : Option Identity

def SAccount.secret (a : SAccount) : Secret :=
  ⟨a.privateKey, a.status, a.name, a.vtcAccount.map AccountInfo.identity⟩

/-- The wallet's file: there is none, or what was saved last with its password, or something
that was written by others. -/
inductive Backup where
  | missing
  | saved (password : CStr) (wallet : Fin secretAccountsMaximumCount → Secret)
  | foreign

/-- What a load with the password brings is not known. -/
def Backup.Unknown : Backup → CStr → Prop
  | .missing, _ => False
  | .saved password _, password' => password ≠ password'
  | .foreign, _ => True

structure Keyring where
  accounts : Fin accountsMaximumCount → Option Identity
  wallet : Fin secretAccountsMaximumCount → Secret
  backup : Backup

/-- Calls that no entry is taken, filled or given up by. -/
def RegistryCall.Asks : RegistryCall → Prop
  | .accountUpdate _ _ | .accountHasApp _ _ | .accountBalance _ | .sAccountExists _ _
  | .sAccountGetByName _ _ | .sAccountUpdate _ _ _ _ | .accountFree (.other _)
  | .sAccountFree (.other _ _) => True
  | _ => False

/-- A load, with the state of libsodium and the password. -/
inductive RegistryCall.LoadsWith : RegistryCall → Bool → CStr → Prop
  | sAccountLoad (sodiumInit : Bool) (env : LoadEnv secretAccountsMaximumCount) (password : CStr) :
      LoadsWith (.sAccountLoad sodiumInit env password) sodiumInit password
  | verticesWalletLoad (sodiumInit : Bool) (env : LoadEnv secretAccountsMaximumCount)
      (password : CStr) : LoadsWith (.verticesWalletLoad sodiumInit env password) sodiumInit password

/-- What a call that returns a code does to a keyring. -/
inductive KeyringStep (k : Keyring) : RegistryCall × RetCode → Keyring → Prop
  | asked {call : RegistryCall} {err : RetCode} (h : call.Asks) : KeyringStep k (call, err) k
  -- the public accounts
  | emptied {err : RetCode} : KeyringStep k (.accountInit, err) { k with accounts := fun _ => none }
  | opened {publicB32 : B32Ptr} {reply : HttpReply} {err : RetCode} {i : Fin accountsMaximumCount}
      (hfirst : IsFirst (fun j => k.accounts j = none) i) :
      KeyringStep k (.accountNew publicB32 reply, err)
        { k with accounts := update k.accounts i (some publicB32.identity) }
  | full {publicB32 : B32Ptr} {reply : HttpReply} {err : RetCode} (hfull : ∀ j, k.accounts j ≠ none) :
      KeyringStep k (.accountNew publicB32 reply, err) k
  | closed {err : RetCode} (i : Fin accountsMaximumCount) :
      KeyringStep k (.accountFree (.mAccount i), err) { k with accounts := update k.accounts i none }
  | lowClosed {err : RetCode} : KeyringStep k (.sWalletFree, err)
      { k with accounts := fun i => if i.val < secretAccountsMaximumCount then none else k.accounts i }
  -- the wallet
  | walletEmptied {err : RetCode} : KeyringStep k (.sAccountInit, err)
      { k with wallet := fun i => (sAccountInit.get i).secret }
  | stored {publicB32 : B32Ptr} {privateKey : Vector UInt8 addressLength} {name : CStr}
      {reply : HttpReply} {stack : AccountDetails} {err : RetCode} {i : Fin secretAccountsMaximumCount}
      {field : Vector UInt8 accountNameLength}
      (hfirst : IsFirst (fun j => (k.wallet j).status = .none) i) (hfits : name.strlen ≤ accountNameLength)
      (hname : field.toList = name.bytes ++ (k.wallet i).name.toList.drop name.strlen) :
      KeyringStep k (.sAccountNew publicB32 privateKey name reply stack, err)
        { k with wallet := update k.wallet i ⟨privateKey, .added, field, some publicB32.identity⟩ }
  | walletFull {publicB32 : B32Ptr} {privateKey : Vector UInt8 addressLength} {name : CStr}
      {reply : HttpReply} {stack : AccountDetails} {err : RetCode}
      (hfull : ∀ j, (k.wallet j).status ≠ .none) :
      KeyringStep k (.sAccountNew publicB32 privateKey name reply stack, err) k
  | freed {err : RetCode} (i : Fin secretAccountsMaximumCount) :
      KeyringStep k (.sAccountFree (.sAccount i), err)
        { k with wallet := update k.wallet i SAccount.zero.secret }
  -- the file
  | saved {env : SaveEnv secretAccountsMaximumCount} {password : CStr}
      (hrecords : ∀ i, (k.wallet i).identity ≠ none) :
      KeyringStep k (.sAccountSave true env password, .success)
        { k with backup := .saved password k.wallet }
  | notSaved {sodiumInit : Bool} {env : SaveEnv secretAccountsMaximumCount} {password : CStr}
      {err : RetCode} (herr : err ≠ .success) : KeyringStep k (.sAccountSave sodiumInit env password, err) k
  | restored {call : RegistryCall} {password : CStr} {wallet : Fin secretAccountsMaximumCount → Secret}
      (hcall : call.LoadsWith true password) (hbackup : k.backup = .saved password wallet) :
      KeyringStep k (call, .success) { k with wallet := wallet }
  | foreign {call : RegistryCall} {password : CStr} (hcall : call.LoadsWith true password)
      (hother : k.backup.Unknown password) (wallet : Fin secretAccountsMaximumCount → Secret) :
      KeyringStep k (call, .success) { k with wallet := wallet }
  | notLoaded {sodiumInit : Bool} {env : LoadEnv secretAccountsMaximumCount} {password : CStr}
      {err : RetCode} (herr : err ≠ .success)
      (hother : sodiumInit = true → ∀ wallet, k.backup ≠ .saved password wallet) :
      KeyringStep k (.sAccountLoad sodiumInit env password, err) k
  | emptiedAndNotLoaded {sodiumInit : Bool} {env : LoadEnv secretAccountsMaximumCount} {password : CStr}
      {err : RetCode} (herr : err ≠ .success)
      (hother : sodiumInit = true → ∀ wallet, k.backup ≠ .saved password wallet) :
      KeyringStep k (.verticesWalletLoad sodiumInit env password, err)
        { k with wallet := fun i => (sAccountInit.get i).secret }
  | removed {err : RetCode} : KeyringStep k (.fileReplaced none, err) { k with backup := .missing }
  | replaced {err : RetCode} (bs : List UInt8) :
      KeyringStep k (.fileReplaced (some bs), err) { k with backup := .foreign }

/-- A backup is what a save made the file of. -/
def Backup.IsOf (S : Sodium) (file : Option (List UInt8)) : Backup → Prop
  | .missing => file = none
  | .saved password wallet => ∃ env old, ∃ saved : SAccounts,
      saveAccountData S env old password saved = .ok (.success, file) ∧
        wallet = fun i => (saved.get i).secret
  | .foreign => True

/-- The keyring of the tables. -/
structure Represents (S : Sodium) (k : Keyring) (t : Registry) : Prop where
  accounts : k.accounts = fun i => (t.accounts.get i).owner
  wallet : k.wallet = fun i => (t.wallet.get i).secret
  backup : k.backup.IsOf S t.file

/-- The call returns the code. -/
def RegistryReturns (R : MpackReader) (S : Sodium) (t : Registry) (call : RegistryCall × RetCode)
    (t' : Registry) : Prop :=
  call.1.run R S t = .ok (call.2, t')

/-! ## What the calls do -/

theorem owner_eq_none {a : LocalAccount} : a.owner = none ↔ a.status = .none := by
  rw [LocalAccount.owner]
  split
  · next h => exact iff_of_true rfl h
  · next h => exact iff_of_false nofun h

theorem map_get_set {α β : Type} {n : Nat} (f : α → β) (v : Vector α n) (i : Fin n) (a : α) :
    (fun j => f ((v.set i.val a i.isLt).get j)) = update (fun j => f (v.get j)) i (f a) := by
  funext j
  rw [get_set, update_apply]
  by_cases h : i.val = j.val
  · rw [if_pos h, if_pos (Fin.ext h.symm)]
  · rw [if_neg h, if_neg fun hj => h (congrArg Fin.val hj.symm)]

/-- An entry that is replaced by one of the same owner. -/
theorem update_get_self {α β : Type} {n : Nat} (f : α → β) (v : Vector α n) (i : Fin n) :
    update (fun j => f (v.get j)) i (f (v.get i)) = fun j => f (v.get j) := update_eq_self i _

section

variable {R : MpackReader} {S : Sodium} {p p' : Provider} {reply : HttpReply} {err : RetCode}

/-- The entry taken is the first free one, and the address is the one that was asked for. -/
theorem accountNew_opens {publicB32 : B32Ptr} {accounts accounts' : MAccounts}
    {slot : Option (Fin accountsMaximumCount)}
    (h : accountNew R publicB32 reply accounts p = .ok (err, slot, accounts', p')) :
    (accounts' = accounts ∧ ∀ j, (accounts.get j).owner ≠ none) ∨
      ∃ i a, IsFirst (fun j => (accounts.get j).owner = none) i ∧
        a.owner = some publicB32.identity ∧ accounts' = accounts.set i.val a i.isLt := by
  rw [accountNew.eq_def] at h
  split at h
  · next hfind =>
      obtain ⟨-, -, rfl, -⟩ := pure_eq_ok4.mp h
      exact .inl ⟨rfl, fun j hj => findFree_eq_none.mp hfind j (owner_eq_none.mp hj)⟩
  · next i hfind =>
      obtain ⟨⟨code, d, p₁⟩, hget, h⟩ := bind_eq_ok.mp h
      obtain ⟨-, -, rfl, -⟩ := pure_eq_ok4.mp h
      obtain ⟨hfree, hfirst⟩ := findFree_eq_some.mp hfind
      obtain ⟨htext, hkey⟩ := providerAccountInfoGet_sameAddress hget
      refine .inr ⟨i, ⟨d, .added⟩, ⟨owner_eq_none.mpr hfree, ?_⟩, ?_, rfl⟩
      · exact fun j hj hnone => hfirst j hj (owner_eq_none.mp hnone)
      · exact congrArg some (congrArg₂ Identity.mk htext hkey)

/-- An update leaves every owner. -/
theorem accountUpdate_owner {account : AccountPtr} {accounts accounts' : MAccounts}
    (h : accountUpdate R account reply accounts p = .ok (err, accounts', p')) :
    (fun i => (accounts'.get i).owner) = fun i => (accounts.get i).owner := by
  cases account with
  | other info =>
      obtain ⟨-, rfl, -⟩ := pure_eq_ok3.mp h
      rfl
  | mAccount i =>
      obtain ⟨⟨code, d, p₁⟩, hget, h⟩ := bind_eq_ok.mp h
      obtain ⟨-, rfl, -⟩ := pure_eq_ok3.mp h
      obtain ⟨htext, hkey⟩ := providerAccountInfoGet_sameAddress hget
      have howner : (LocalAccount.mk d (accounts.get i).status).owner = (accounts.get i).owner := by
        have hidentity : d.info.identity = (accounts.get i).account.info.identity :=
          congrArg₂ Identity.mk htext hkey
        rw [LocalAccount.owner, LocalAccount.owner, hidentity]
      have hset := map_get_set LocalAccount.owner accounts i ⟨d, (accounts.get i).status⟩
      rw [howner, update_get_self] at hset
      exact hset

theorem sWalletFree_owner (accounts : MAccounts) :
    (fun i => ((sWalletFree accounts).2.get i).owner) = fun i =>
      if i.val < secretAccountsMaximumCount then none else (accounts.get i).owner := by
  funext i
  have hget : (sWalletFree accounts).2.get i =
      if i.val < secretAccountsMaximumCount then .zero else accounts.get i := Vector.getElem_ofFn i.isLt
  rw [hget]
  split <;> rfl

/-- So does an update of the wallet. -/
theorem sAccountUpdate_secret {addresses : EntryAddresses} {account : SAccountPtr}
    {stack : AccountDetails} {wallet wallet' : SAccounts}
    (h : sAccountUpdate R addresses account reply stack wallet p = .ok (err, wallet', p')) :
    (fun i => (wallet'.get i).secret) = fun i => (wallet.get i).secret := by
  rcases sAccountUpdate_cases h with rfl | ⟨i, info, code, d, hinfo, hget, rfl⟩
  · rfl
  · obtain ⟨htext, hkey⟩ := providerAccountInfoGet_sameAddress hget
    have hsecret : SAccount.secret { wallet.get i with vtcAccount := some d.info } =
        (wallet.get i).secret := by
      have hidentity : d.info.identity = info.identity := congrArg₂ Identity.mk htext hkey
      rw [SAccount.secret, SAccount.secret, hinfo, Option.map_some, Option.map_some, hidentity]
    have hset := map_get_set SAccount.secret wallet i { wallet.get i with vtcAccount := some d.info }
    rw [hsecret, update_get_self] at hset
    exact hset

theorem Stored.secret_eq {publicB32 : B32Ptr} {privateKey : Vector UInt8 addressLength}
    {name : CStr} {old a : SAccount} (h : Stored publicB32 privateKey name old a) :
    a.secret = ⟨privateKey, .added, a.name, some publicB32.identity⟩ := by
  obtain ⟨info, hinfo, htext, hkey⟩ := h.address
  have hidentity : info.identity = publicB32.identity := congrArg₂ Identity.mk htext hkey
  rw [SAccount.secret, h.status, h.privateKey, hinfo, Option.map_some, hidentity]

/-- A save that fails leaves the file. -/
theorem sAccountSave_failed {sodiumInit : Bool} {env : SaveEnv secretAccountsMaximumCount}
    {file file' : Option (List UInt8)} {password : CStr} {wallet : SAccounts}
    (h : sAccountSave S sodiumInit env file password wallet = .ok (err, file')) (herr : err ≠ .success) :
    file' = file := by
  rw [sAccountSave] at h
  split at h
  · rw [saveAccountData] at h
    split at h
    · cases h
    · split at h
      · exact (pure_eq_ok2.mp h).2.symm
      · obtain ⟨infos, -, h⟩ := bind_eq_ok.mp h
        dsimp only at h
        split at h
        · exact (pure_eq_ok2.mp h).2.symm
        · next hboxed =>
            split at h
            · exact absurd ((pure_eq_ok2.mp h).1.symm.trans (not_not.mp hboxed)) herr
            · exact (pure_eq_ok2.mp h).2.symm
  · exact (pure_eq_ok2.mp h).2.symm

/-- A save that succeeds has been let, and every entry has its record. -/
theorem sAccountSave_succeeded {sodiumInit : Bool} {env : SaveEnv secretAccountsMaximumCount}
    {file file' : Option (List UInt8)} {password : CStr} {wallet : SAccounts}
    (h : sAccountSave S sodiumInit env file password wallet = .ok (.success, file')) :
    sodiumInit = true ∧ saveAccountData S env file password wallet = .ok (.success, file') ∧
      ∀ i, (wallet.get i).secret.identity ≠ none := by
  rw [sAccountSave] at h
  split at h
  · next hinit =>
      refine ⟨hinit, h, fun i => ?_⟩
      obtain ⟨-, infos, -, -, -, hinfos, -⟩ := saveAccountData_written h
      rw [records] at hinfos
      split at hinfos
      · next hall =>
          intro hnone
          have hsome := hall i
          rw [Option.map_eq_none_iff.mp hnone] at hsome
          cases hsome
      · cases hinfos
  · cases (pure_eq_ok2.mp h).1

/-- With the password of the backup, a load brings it back. -/
theorem Represents.load {k : Keyring} {t : Registry} (hS : S.Lawful) (h : Represents S k t)
    (env : LoadEnv secretAccountsMaximumCount) {password : CStr}
    {wallet : Fin secretAccountsMaximumCount → Secret} (hbackup : k.backup = .saved password wallet)
    (old : SAccounts) : ∃ loaded : SAccounts,
      sAccountLoad S true env t.file password old = .ok (.success, loaded) ∧
        wallet = fun i => (loaded.get i).secret := by
  have hof := h.backup
  rw [hbackup] at hof
  obtain ⟨env', file, saved, hsave, rfl⟩ := hof
  exact ⟨saved, loadAccountData_written hS hsave env old, rfl⟩

/-- A load that succeeds has a file, and libsodium let it. -/
theorem sAccountLoad_succeeded {sodiumInit : Bool} {env : LoadEnv secretAccountsMaximumCount}
    {file : Option (List UInt8)} {password : CStr} {old wallet : SAccounts}
    (h : sAccountLoad S sodiumInit env file password old = .ok (.success, wallet)) :
    sodiumInit = true ∧ file ≠ none := by
  obtain ⟨hinit, bs, -, -, hfile, -⟩ := (sAccountLoad_cases h).1.mp rfl
  exact ⟨hinit, hfile ▸ Option.some_ne_none bs⟩

/-- A load of either kind that succeeds. -/
theorem Represents.loads {k : Keyring} {t : Registry}
    (hS : ∀ password wallet, k.backup = .saved password wallet → S.Lawful)
    (h : Represents S k t) {call : RegistryCall} {sodiumInit : Bool}
    {env : LoadEnv secretAccountsMaximumCount} {password : CStr} {old wallet : SAccounts}
    (hcall : call.LoadsWith sodiumInit password)
    (hload : sAccountLoad S sodiumInit env t.file password old = .ok (.success, wallet)) :
    KeyringStep k (call, .success) { k with wallet := fun i => (wallet.get i).secret } := by
  obtain ⟨rfl, hfile⟩ := sAccountLoad_succeeded hload
  obtain ⟨accounts, secrets, backup⟩ := k
  cases backup with
  | missing => exact absurd h.backup hfile
  | foreign => exact .foreign (k := ⟨_, _, .foreign⟩) hcall trivial _
  | saved password' saved =>
      by_cases hsame : password' = password
      · subst hsame
        obtain ⟨loaded, hok, rfl⟩ := h.load (hS _ _ rfl) env rfl old
        obtain ⟨-, rfl⟩ := pure_eq_ok2.mp (hok.symm.trans hload)
        exact .restored hcall rfl
      · exact .foreign (k := ⟨_, _, .saved _ _⟩) hcall hsame _

/-- One that fails had not the password of the backup, or libsodium would not let it. -/
theorem Represents.load_failed {k : Keyring} {t : Registry}
    (hS : ∀ password wallet, k.backup = .saved password wallet → S.Lawful)
    (h : Represents S k t) {sodiumInit : Bool} {env : LoadEnv secretAccountsMaximumCount}
    {password : CStr} {old wallet : SAccounts}
    (hload : sAccountLoad S sodiumInit env t.file password old = .ok (err, wallet))
    (herr : err ≠ .success) (hinit : sodiumInit = true) (saved : Fin secretAccountsMaximumCount → Secret) :
    k.backup ≠ .saved password saved := by
  intro hbackup
  subst hinit
  obtain ⟨loaded, hok, -⟩ := h.load (hS _ _ hbackup) env hbackup old
  exact herr (pure_eq_ok2.mp (hok.symm.trans hload)).1.symm

/-- Each call of the SDK is a step of the keyring. -/
theorem Represents.step {k : Keyring} {t t' : Registry} {call : RegistryCall}
    (hS : ∀ password wallet, k.backup = .saved password wallet → S.Lawful) (h : Represents S k t)
    (hrun : call.run R S t = .ok (err, t')) :
    ∃ k', KeyringStep k (call, err) k' ∧ Represents S k' t' := by
  obtain ⟨accounts, wallet, backup⟩ := k
  obtain ⟨rfl, rfl, hbackup⟩ := h
  have h : Represents S ⟨_, _, backup⟩ t := ⟨rfl, rfl, hbackup⟩
  have hstep : RegistryStep R S t call t' := ⟨err, hrun⟩
  cases hstep.effect with
  | accountInit =>
      refine ⟨_, .emptied, funext fun i => ?_, rfl, hbackup⟩
      rw [get_accountInit]
      rfl
  | accountNew hcall =>
      rcases accountNew_opens hcall with ⟨rfl, hfull⟩ | ⟨i, a, hfirst, howner, rfl⟩
      · exact ⟨_, .full hfull, rfl, rfl, hbackup⟩
      · refine ⟨_, .opened hfirst, ?_, rfl, hbackup⟩
        exact howner ▸ (map_get_set LocalAccount.owner t.accounts i a).symm
  | accountFree account =>
      cases account with
      | other info => exact ⟨_, .asked trivial, h⟩
      | mAccount i =>
          exact ⟨_, .closed i, (map_get_set LocalAccount.owner t.accounts i .zero).symm, rfl, hbackup⟩
  | accountUpdate hcall =>
      exact ⟨_, .asked trivial, (accountUpdate_owner hcall).symm, rfl, hbackup⟩
  | accountHasApp account appId => exact ⟨_, .asked trivial, h⟩
  | accountBalance account => exact ⟨_, .asked trivial, h⟩
  | sAccountInit => exact ⟨_, .walletEmptied, rfl, rfl, hbackup⟩
  | sAccountNew hcall =>
      rcases sAccountNew_cases hcall with
        ⟨-, -, rfl, hfull⟩ | ⟨i, a, -, -, hfree, hfirst, hstored, rfl⟩
      · exact ⟨_, .walletFull hfull, rfl, rfl, hbackup⟩
      · refine ⟨_, .stored ⟨hfree, hfirst⟩ hstored.fits hstored.name, rfl, ?_, hbackup⟩
        exact hstored.secret_eq ▸ (map_get_set SAccount.secret t.wallet i a).symm
  | sAccountExists pointers name => exact ⟨_, .asked trivial, h⟩
  | sAccountGetByName pointers name => exact ⟨_, .asked trivial, h⟩
  | sAccountUpdate hcall =>
      exact ⟨_, .asked trivial, rfl, (sAccountUpdate_secret hcall).symm, hbackup⟩
  | @sAccountLoad sodiumInit env password code wallet hload =>
      rw [RegistryCall.run, hload] at hrun
      obtain ⟨rfl, -⟩ := pure_eq_ok2.mp hrun
      by_cases herr : code = .success
      · subst herr
        exact ⟨_, h.loads hS (.sAccountLoad sodiumInit env password) hload, rfl, rfl, hbackup⟩
      · obtain rfl := (sAccountLoad_cases hload).2 herr
        exact ⟨_, .notLoaded herr (h.load_failed hS hload herr), rfl, rfl, hbackup⟩
  | @sAccountSave sodiumInit env password code file hsave =>
      rw [RegistryCall.run, hsave] at hrun
      obtain ⟨rfl, -⟩ := pure_eq_ok2.mp hrun
      by_cases herr : code = .success
      · subst herr
        obtain ⟨rfl, hsaved, hrecords⟩ := sAccountSave_succeeded hsave
        exact ⟨_, .saved hrecords, rfl, rfl, env, t.file, t.wallet, hsaved, rfl⟩
      · have hfile := sAccountSave_failed hsave herr
        subst hfile
        exact ⟨_, .notSaved herr, rfl, rfl, hbackup⟩
  | @verticesWalletLoad sodiumInit env password code wallet hload =>
      rw [RegistryCall.run, hload] at hrun
      obtain ⟨rfl, -⟩ := pure_eq_ok2.mp hrun
      by_cases herr : code = .success
      · subst herr
        exact ⟨_, h.loads hS (.verticesWalletLoad sodiumInit env password) hload, rfl, rfl, hbackup⟩
      · obtain rfl := (sAccountLoad_cases hload).2 herr
        exact ⟨_, .emptiedAndNotLoaded herr (h.load_failed hS hload herr), rfl, rfl, hbackup⟩
  | sAccountFree account =>
      cases account with
      | other => exact ⟨_, .asked trivial, h⟩
      | sAccount i =>
          exact ⟨_, .freed i, rfl, (map_get_set SAccount.secret t.wallet i .zero).symm, hbackup⟩
  | sWalletFree => exact ⟨_, .lowClosed, (sWalletFree_owner t.accounts).symm, rfl, hbackup⟩
  | fileReplaced file =>
      cases file with
      | none => exact ⟨_, .removed, rfl, rfl, rfl⟩
      | some bs => exact ⟨_, .replaced bs, rfl, rfl, trivial⟩

end

/-! ## Runs -/

def Keyring.start : Keyring where
  accounts _ := none
  wallet i := (sAccountInit.get i).secret
  backup := .missing

theorem represents_start (S : Sodium) : Represents S .start .start where
  accounts := by
    funext i
    show none = (accountInit.get i).owner
    rw [get_accountInit]
    rfl
  wallet := rfl
  backup := rfl

/-- In every run the tables are those of a keyring that the same calls were made on, with the
same codes. -/
theorem registry_refines_keyring (R : MpackReader) {S : Sodium} (hS : S.Lawful)
    {calls : List (RegistryCall × RetCode)} {t : Registry}
    (hrun : Run (RegistryReturns R S) .start calls t) :
    ∃ k, Run KeyringStep .start calls k ∧ Represents S k t := by
  have hsim : ∀ t call t' k, Represents S k t → RegistryReturns R S t call t' →
      ∃ k', KeyringStep k call k' ∧ Represents S k' t' := by
    intro t call t' k h hcall
    exact h.step (fun _ _ _ => hS) hcall
  exact hrun.simulate (fun t k => Represents S k t) hsim (represents_start S)

/-- The account "dragon" is stored, the node answering with its balance. -/
def newDragon : RegistryCall :=
  .sAccountNew ⟨dragonInfo.publicB32, []⟩ dragon.privateKey (cString (lit "dragon"))
    ⟨[[0x81, 0xa4] ++ lit "algo" ++ [0xce, 0x00, 0x1e, 0x84, 0x80]], .success, 200⟩ .zero

/-- It is saved with its wallet, the entry freed, and the wallet loaded. -/
def dragonCalls : List (RegistryCall × RetCode) := [
  (newDragon, .success),
  (.sAccountSave true zeroWalletEnv (cString (lit "shosha_dragon")), .success),
  (.sAccountFree (.sAccount 0), .success),
  (.verticesWalletLoad true zeroLoadEnv (cString (lit "shosha_dragon")), .success)]

theorem dragonCalls_run :
    ∃ t, Run (RegistryReturns formatReader dragonSodium) .start dragonCalls t ∧
      t.wallet = dragonWallet := by
  obtain ⟨-, hsaved, hload⟩ := dragon_file
  have hseen : (newDragon.run formatReader dragonSodium .start).map
      (fun r => (r.1, r.2.wallet, r.2.file)) = .ok (.success, dragonWallet, none) := by decide +kernel
  cases hnew : newDragon.run formatReader dragonSodium .start with
  | error f =>
      rw [hnew] at hseen
      cases hseen
  | ok r =>
      obtain ⟨err, accounts, wallet, p, file⟩ := r
      rw [hnew] at hseen
      cases hseen
      have hsave : (RegistryCall.sAccountSave true zeroWalletEnv (cString (lit "shosha_dragon"))).run
          formatReader dragonSodium ⟨accounts, dragonWallet, p, none⟩ =
            .ok (.success, ⟨accounts, dragonWallet, p, some dragonFile⟩) :=
        bind_eq_ok.mpr ⟨_, hsaved, rfl⟩
      refine ⟨⟨accounts, dragonWallet, p, some dragonFile⟩, .cons hnew (.cons hsave (.cons rfl (.single ?_))),
        rfl⟩
      exact bind_eq_ok.mpr ⟨_, hload _, rfl⟩

/-- The keyring of this run has the account again. -/
theorem registry_refines_keyring_dragon :
    ∃ t k, Run (RegistryReturns formatReader dragonSodium) .start dragonCalls t ∧
      Run KeyringStep .start dragonCalls k ∧ Represents dragonSodium k t ∧
      k.wallet 0 = dragon.secret := by
  obtain ⟨t, hrun, hwallet⟩ := dragonCalls_run
  obtain ⟨k, hk, hrepresents⟩ := registry_refines_keyring formatReader dragon_file.1 hrun
  refine ⟨t, k, hrun, hk, hrepresents, ?_⟩
  rw [hrepresents.wallet, hwallet, dragonWallet]
  exact congrArg SAccount.secret (get_set_self sAccountInit 0 dragon)

/-! ## Entries in use -/

/-- A call that gives up public entry `i`. -/
def RegistryCall.Closes (i : Fin accountsMaximumCount) : RegistryCall → Prop
  | .accountInit => True
  | .accountFree (.mAccount j) => j = i
  | .sWalletFree => i.val < secretAccountsMaximumCount
  | _ => False

/-- A call that gives up wallet entry `i`. -/
def RegistryCall.Forgets (i : Fin secretAccountsMaximumCount) : RegistryCall → Prop
  | .sAccountInit | .sAccountLoad _ _ _ | .verticesWalletLoad _ _ _ => True
  | .sAccountFree (.sAccount j) => j = i
  | _ => False

theorem RegistryCall.LoadsWith.forgets {call : RegistryCall} {sodiumInit : Bool} {password : CStr}
    (h : call.LoadsWith sodiumInit password) (i : Fin secretAccountsMaximumCount) : call.Forgets i := by
  cases h <;> trivial

/-- The keyring of the tables, of whatever origin the file. -/
def Registry.keyring (t : Registry) : Keyring where
  accounts i := (t.accounts.get i).owner
  wallet i := (t.wallet.get i).secret
  backup := .foreign

theorem RegistryStep.keyring {R : MpackReader} {S : Sodium} {t t' : Registry} {call : RegistryCall}
    (h : RegistryStep R S t call t') :
    ∃ err k, KeyringStep t.keyring (call, err) k ∧ k.accounts = t'.keyring.accounts ∧
      k.wallet = t'.keyring.wallet := by
  obtain ⟨err, hcall⟩ := h
  have hrepresents : Represents S t.keyring t := ⟨rfl, rfl, trivial⟩
  have hsaved : ∀ password wallet, t.keyring.backup = .saved password wallet → S.Lawful := by
    intro password wallet hbackup
    change Backup.foreign = _ at hbackup
    cases hbackup
  obtain ⟨k, hk, hk'⟩ := hrepresents.step hsaved hcall
  exact ⟨err, k, hk, hk'.accounts, hk'.wallet⟩

section

variable {k k' : Keyring} {call : RegistryCall} {err : RetCode}

theorem KeyringStep.account_kept {i : Fin accountsMaximumCount} {id : Identity}
    (h : KeyringStep k (call, err) k') (hkept : ¬ call.Closes i) (hi : k.accounts i = some id) :
    k'.accounts i = some id := by
  cases h with
  | emptied => exact absurd trivial hkept
  | @opened _ _ _ j hfirst =>
      have hne : i ≠ j := by
        rintro rfl
        exact Option.some_ne_none id (hi.symm.trans hfirst.1)
      exact (update_of_ne hne _ _).trans hi
  | closed j => exact (update_of_ne (fun hij => hkept hij.symm) _ _).trans hi
  | lowClosed => exact (if_neg hkept).trans hi
  | _ => exact hi

theorem KeyringStep.secret_kept {i : Fin secretAccountsMaximumCount} (h : KeyringStep k (call, err) k')
    (hkept : ¬ call.Forgets i) (hi : (k.wallet i).status ≠ .none) : k'.wallet i = k.wallet i := by
  cases h with
  | walletEmptied => exact absurd trivial hkept
  | @stored _ _ _ _ _ _ j _ hfirst _ _ =>
      have hne : i ≠ j := by
        rintro rfl
        exact hi hfirst.1
      exact update_of_ne hne _ _
  | freed j => exact update_of_ne (fun hij => hkept hij.symm) _ _
  | restored hcall _ => exact absurd (hcall.forgets i) hkept
  | foreign hcall _ _ => exact absurd (hcall.forgets i) hkept
  | notLoaded _ _ => exact absurd trivial hkept
  | emptiedAndNotLoaded _ _ => exact absurd trivial hkept
  | _ => rfl

/-- Only `account_new` makes an owner, and of the address it is given. -/
theorem KeyringStep.owner_new {i : Fin accountsMaximumCount} {id : Identity}
    (h : KeyringStep k (call, err) k') (hi : k'.accounts i = some id) :
    k.accounts i = some id ∨
      ∃ publicB32 reply, call = .accountNew publicB32 reply ∧ publicB32.identity = id := by
  cases h with
  | emptied => cases hi
  | @opened publicB32 reply _ j hfirst =>
      dsimp only at hi
      by_cases hij : i = j
      · subst hij
        rw [update_self] at hi
        exact .inr ⟨publicB32, reply, rfl, Option.some.inj hi⟩
      · rw [update_of_ne hij] at hi
        exact .inl hi
  | closed j =>
      dsimp only at hi
      by_cases hij : i = j
      · subst hij
        rw [update_self] at hi
        cases hi
      · rw [update_of_ne hij] at hi
        exact .inl hi
  | lowClosed =>
      change (if _ then none else _) = _ at hi
      split at hi
      · cases hi
      · exact .inl hi
  | _ => exact .inl hi

/-- Where a wallet entry can come from: it was stored with this key for this address, or it
was loaded. -/
def RegistryCall.Brings (a : Secret) (call : RegistryCall) : Prop :=
  (∃ publicB32 name reply stack, call = .sAccountNew publicB32 a.privateKey name reply stack ∧
    a.identity = some publicB32.identity ∧ name.bytes <+: a.name.toList) ∨
  ∃ sodiumInit password, call.LoadsWith sodiumInit password

theorem KeyringStep.secret_new {i : Fin secretAccountsMaximumCount} (h : KeyringStep k (call, err) k')
    (hi : (k'.wallet i).status ≠ .none) :
    (k'.wallet i = k.wallet i ∧ (k.wallet i).status ≠ .none) ∨ call.Brings (k'.wallet i) := by
  cases h with
  | walletEmptied =>
      dsimp only at hi
      exact absurd (by rw [get_sAccountInit]; rfl) hi
  | @stored publicB32 privateKey name reply stack _ j field hfirst hfits hname =>
      dsimp only at hi ⊢
      by_cases hij : i = j
      · subst hij
        rw [update_self]
        exact .inr (.inl ⟨publicB32, name, reply, stack, rfl, rfl, _, hname.symm⟩)
      · rw [update_of_ne hij] at hi ⊢
        exact .inl ⟨rfl, hi⟩
  | freed j =>
      dsimp only at hi ⊢
      by_cases hij : i = j
      · subst hij
        rw [update_self] at hi
        exact absurd rfl hi
      · rw [update_of_ne hij] at hi ⊢
        exact .inl ⟨rfl, hi⟩
  | restored hcall _ => exact .inr (.inr ⟨_, _, hcall⟩)
  | foreign hcall _ _ => exact .inr (.inr ⟨_, _, hcall⟩)
  | emptiedAndNotLoaded _ _ =>
      dsimp only at hi
      exact absurd (by rw [get_sAccountInit]; rfl) hi
  | _ => exact .inl ⟨rfl, hi⟩

end

section

variable {R : MpackReader} {S : Sodium} {t t' : Registry} {calls : List RegistryCall}

/-- Whatever is called otherwise, and whatever the node answers, an entry in use stands for
the address it stood for, until it is given up; a wallet entry has the same key and name. -/
theorem identities_kept (hrun : Run (RegistryStep R S) t calls t') :
    (∀ i id, (t.accounts.get i).owner = some id → (∀ call ∈ calls, ¬ call.Closes i) →
      (t'.accounts.get i).owner = some id) ∧
    ∀ i, (t.wallet.get i).status ≠ .none → (∀ call ∈ calls, ¬ call.Forgets i) →
      (t'.wallet.get i).secret = (t.wallet.get i).secret := by
  constructor
  · intro i id hi hkept
    refine hrun.preserves (P := fun u => (u.accounts.get i).owner = some id) ?_ hkept hi
    intro u call v hu hcall hstep
    obtain ⟨err, k, hk, haccounts, -⟩ := hstep.keyring
    exact (congrFun haccounts i).symm.trans (hk.account_kept hcall hu)
  · intro i hi hkept
    refine hrun.preserves (P := fun u => (u.wallet.get i).secret = (t.wallet.get i).secret) ?_
      hkept rfl
    intro u call v hu hcall hstep
    obtain ⟨err, k, hk, -, hwallet⟩ := hstep.keyring
    have hstatus : ((u.wallet.get i).secret).status ≠ .none := by
      rw [hu]
      exact hi
    exact (congrFun hwallet i).symm.trans ((hk.secret_kept hcall hstatus).trans hu)

/-- The public account stays while the wallet account is made. -/
theorem identities_kept_two :
    ∃ t t' call call' id, twoAccounts = [call, call'] ∧
      Run (RegistryStep formatReader oneSodium) .start [call] t ∧
      Run (RegistryStep formatReader oneSodium) t [call'] t' ∧
      (t.accounts.get 0).owner = some id ∧ (t'.accounts.get 0).owner = some id := by
  have hok : (Registry.runAll formatReader oneSodium twoAccounts .start).isOk = true := by
    decide +kernel
  cases hall : Registry.runAll formatReader oneSodium twoAccounts .start with
  | error f =>
      rw [hall] at hok
      cases hok
  | ok t' =>
      cases Registry.run_of_runAll hall with
      | @cons _ t _ _ _ hfirst hrest =>
          have hseen : (RegistryCall.run formatReader oneSodium .start
              (.accountNew ⟨Vector.replicate _ 0, []⟩ ⟨[], .errorOffline, 0⟩)).map
                (fun r => (r.2.accounts.get 0).owner.isSome) = .ok true := by decide +kernel
          obtain ⟨err, hcall⟩ := id hfirst
          rw [hcall] at hseen
          obtain ⟨id, hid⟩ := Option.isSome_iff_exists.mp (Except.ok.inj hseen)
          refine ⟨t, t', _, _, id, rfl, .single hfirst, hrest, hid, (identities_kept hrest).1 0 id hid ?_⟩
          rw [List.forall_mem_singleton]
          exact not_false

/-- Nobody has an entry who was not asked for: the owner of a public entry is the address of
an `account_new`, and a wallet entry has the key and the name of an `s_account_new` for the
address it stands for, unless a wallet has been loaded. -/
theorem identities_asked_for (hrun : Run (RegistryStep R S) .start calls t) :
    (∀ i id, (t.accounts.get i).owner = some id →
      ∃ publicB32 reply, .accountNew publicB32 reply ∈ calls ∧ publicB32.identity = id) ∧
    ∀ i, (t.wallet.get i).status ≠ .none →
      ∃ call ∈ calls, call.Brings (t.wallet.get i).secret := by
  -- from any tables, an entry is as it was or was asked for since
  suffices h : ∀ {u calls t}, Run (RegistryStep R S) u calls t →
      (∀ i id, (t.accounts.get i).owner = some id → (u.accounts.get i).owner = some id ∨
        ∃ publicB32 reply, .accountNew publicB32 reply ∈ calls ∧ publicB32.identity = id) ∧
      ∀ i, (t.wallet.get i).status ≠ .none →
        ((t.wallet.get i).secret = (u.wallet.get i).secret ∧ (u.wallet.get i).status ≠ .none) ∨
          ∃ call ∈ calls, call.Brings (t.wallet.get i).secret by
    obtain ⟨haccounts, hwallet⟩ := h hrun
    constructor
    · intro i id hi
      rcases haccounts i id hi with hstart | hasked
      · rw [show Registry.start.accounts = accountInit from rfl, get_accountInit] at hstart
        cases hstart
      · exact hasked
    · intro i hi
      rcases hwallet i hi with ⟨-, hstart⟩ | hasked
      · exact absurd (free_start i) hstart
      · exact hasked
  intro u calls t hrun
  induction hrun with
  | nil u => exact ⟨fun i id hi => .inl hi, fun i hi => .inl ⟨rfl, hi⟩⟩
  | @cons u v t call calls hstep _ ih =>
      obtain ⟨err, k, hk, haccounts, hwallet⟩ := hstep.keyring
      constructor
      · intro i id hi
        rcases ih.1 i id hi with hv | ⟨publicB32, reply, hmem, hid⟩
        · rcases hk.owner_new ((congrFun haccounts i).trans hv) with hu | ⟨publicB32, reply, rfl, hid⟩
          · exact .inl hu
          · exact .inr ⟨publicB32, reply, List.mem_cons_self, hid⟩
        · exact .inr ⟨publicB32, reply, List.mem_cons_of_mem _ hmem, hid⟩
      · intro i hi
        rcases ih.2 i hi with ⟨hsame, hv⟩ | ⟨call', hmem, hbrings⟩
        · have hi' : k.wallet i = (v.wallet.get i).secret := congrFun hwallet i
          have hstatus : (k.wallet i).status ≠ .none := by
            rw [hi']
            exact hv
          rw [hsame]
          rcases hk.secret_new hstatus with ⟨heq, hu⟩ | hbrings
          · exact .inl ⟨hi'.symm.trans heq, hu⟩
          · exact .inr ⟨call, List.mem_cons_self, hi' ▸ hbrings⟩
        · exact .inr ⟨call', List.mem_cons_of_mem _ hmem, hbrings⟩

/-- The wallet account of the two is the one that was made. -/
theorem identities_asked_for_two :
    ∃ t, Run (RegistryStep formatReader oneSodium) .start twoAccounts t ∧
      (t.wallet.get 0).status = .added ∧
      ∃ call ∈ twoAccounts, call.Brings (t.wallet.get 0).secret := by
  have hseen : (Registry.runAll formatReader oneSodium twoAccounts .start).map
      (fun t => (t.wallet.get 0).status) = .ok .added := by decide +kernel
  cases hall : Registry.runAll formatReader oneSodium twoAccounts .start with
  | error f =>
      rw [hall] at hseen
      cases hseen
  | ok t =>
      rw [hall] at hseen
      have hrun := Registry.run_of_runAll hall
      have hadded : (t.wallet.get 0).status = .added := Except.ok.inj hseen
      exact ⟨t, hrun, hadded, (identities_asked_for hrun).2 0 (by rw [hadded]; exact nofun)⟩

/-! ## The last save -/

/-- A call that returns, and leaves the file: it is no save that succeeds, and nobody else
writes it. -/
def KeepsFile (R : MpackReader) (S : Sodium) (t : Registry) (call : RegistryCall) (t' : Registry) : Prop :=
  ∃ err, call.run R S t = .ok (err, t') ∧
    (∀ sodiumInit env password, call = .sAccountSave sodiumInit env password → err ≠ .success) ∧
    ∀ file, call ≠ .fileReplaced file

theorem KeepsFile.file_eq {call : RegistryCall} (h : KeepsFile R S t call t') : t'.file = t.file := by
  obtain ⟨err, hcall, hsave, hreplaced⟩ := h
  cases call with
  | sAccountSave sodiumInit env password =>
      obtain ⟨⟨code, file⟩, hrun, h⟩ := bind_eq_ok.mp hcall
      obtain ⟨rfl, rfl⟩ := pure_eq_ok2.mp h
      exact sAccountSave_failed hrun (hsave _ _ _ rfl)
  | fileReplaced file => exact absurd rfl (hreplaced file)
  | _ =>
      have heffect := RegistryStep.effect ⟨err, hcall⟩
      cases heffect
      rfl

/-- Whatever happens to the tables between, a load with the password of the last save that
succeeded succeeds, and brings back the wallet of that time, balances included. -/
theorem load_restores_last_save (R : MpackReader) {S : Sodium} (hS : S.Lawful) {t t₁ t₂ : Registry}
    {env : SaveEnv secretAccountsMaximumCount} {password : CStr} {between : List RegistryCall}
    {call : RegistryCall}
    (hsave : (RegistryCall.sAccountSave true env password).run R S t = .ok (.success, t₁))
    (hbetween : Run (KeepsFile R S) t₁ between t₂) (hcall : call.LoadsWith true password) :
    call.run R S t₂ = .ok (.success, { t₂ with wallet := t.wallet }) := by
  obtain ⟨⟨code, file⟩, hsaved, h⟩ := bind_eq_ok.mp hsave
  obtain ⟨rfl, rfl⟩ := pure_eq_ok2.mp h
  have hfile : t₂.file = file := by
    refine hbetween.invariant (P := fun u => u.file = file) ?_ rfl
    intro u call v hu hstep
    exact hstep.file_eq.trans hu
  have hload : ∀ env' old, sAccountLoad S true env' t₂.file password old = .ok (.success, t.wallet) := by
    intro env' old
    rw [hfile]
    exact loadAccountData_written hS (sAccountSave_succeeded hsaved).2.1 env' old
  cases hcall with
  | sAccountLoad _ env' _ =>
      rw [RegistryCall.run, hload]
      rfl
  | verticesWalletLoad _ env' _ =>
      rw [RegistryCall.run, verticesWalletLoad, hload]
      rfl

end

/-- The wallet of the account "dragon" is saved, the entry lost with its pointer, and found
again with its balance. -/
theorem load_restores_last_save_dragon :
    ∃ t₁ t₂, (RegistryCall.sAccountSave true zeroWalletEnv (cString (lit "shosha_dragon"))).run
        formatReader dragonSodium { Registry.start with wallet := dragonWallet } = .ok (.success, t₁) ∧
      KeepsFile formatReader dragonSodium t₁ (.sAccountFree (.sAccount 0)) t₂ ∧ ¬ Usable t₂.wallet ∧
      (RegistryCall.verticesWalletLoad true zeroLoadEnv (cString (lit "shosha_dragon"))).run formatReader
        dragonSodium t₂ = .ok (.success, { t₂ with wallet := dragonWallet }) := by
  obtain ⟨hlawful, hsaved, -⟩ := dragon_file
  have hsave : (RegistryCall.sAccountSave true zeroWalletEnv (cString (lit "shosha_dragon"))).run
      formatReader dragonSodium { Registry.start with wallet := dragonWallet } = .ok (.success, _) :=
    bind_eq_ok.mpr ⟨_, hsaved, rfl⟩
  have hkeeps : ∀ t, KeepsFile formatReader dragonSodium t (.sAccountFree (.sAccount 0))
      { t with wallet := (sAccountFree (.sAccount 0) t.wallet).2 } :=
    fun t => ⟨.success, rfl, fun _ _ _ => RegistryCall.noConfusion, fun _ => RegistryCall.noConfusion⟩
  refine ⟨_, _, hsave, hkeeps _, not_usable_free _ 0, ?_⟩
  exact load_restores_last_save formatReader hlawful hsave (.single (hkeeps _))
    (.verticesWalletLoad true zeroLoadEnv (cString (lit "shosha_dragon")))

end Vertices
