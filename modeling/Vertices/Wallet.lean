/-
# `Vertices.Wallet` — the wallet's calls, and the two tables under all of them

The rest of `src/account.c`: an account is found by its name, and the wallet is read from
and written to its file.  `Registry` is all that these functions keep between calls, and
`RegistryCall` a call of any of them.
-/
import Vertices.CallRecord
import Vertices.Storage
import Vertices.Lib.Transition

namespace Vertices

open Transition

/-! ## What a request leaves alone -/

/-- The same address, as text and as key. -/
def AccountInfo.SameAddress (info info' : AccountInfo) : Prop :=
  info'.publicB32 = info.publicB32 ∧ info'.publicKey = info.publicKey

/-- A callback changes the amount at most. -/
theorem handle_sameAddress {event : Event} {s s' : AccountParser} {err : RetCode}
    (h : accountCallbacks.handle event s = .ok (err, s')) :
    s.account.info.SameAddress s'.account.info := by
  have hedit := handle_edit h
  generalize s'.account = d at hedit ⊢
  cases hedit <;> exact ⟨rfl, rfl⟩

/-- No answer of the node changes the address of the account it is for. -/
theorem providerAccountInfoGet_sameAddress {R : MpackReader} {p p' : Provider} {reply : HttpReply}
    {d d' : AccountDetails} {err : RetCode}
    (h : providerAccountInfoGet R p reply d = .ok (err, d', p')) :
    d.info.SameAddress d'.info := by
  obtain ⟨p₁, -, h⟩ := bind_eq_ok.mp h
  split at h
  · obtain ⟨⟨code, d₁⟩, hparse, h⟩ := bind_eq_ok.mp h
    obtain ⟨-, rfl, -⟩ := pure_eq_ok3.mp h
    obtain ⟨⟨code', reader, s⟩, hwalk, hs⟩ := bind_eq_ok.mp hparse
    obtain ⟨-, rfl⟩ := pure_eq_ok2.mp hs
    have hkeeps : ∀ event s err s', d.info.SameAddress s.account.info →
        accountCallbacks.handle event s = .ok (err, s') → d.info.SameAddress s'.account.info := by
      intro event s err s' hs hcall
      obtain ⟨htext, hkey⟩ := handle_sameAddress hcall
      exact ⟨htext.trans hs.1, hkey.trans hs.2⟩
    exact parseElement_leaves hkeeps 32 _ _ ⟨rfl, rfl⟩ _ _ _ hwalk
  · obtain ⟨-, rfl, -⟩ := pure_eq_ok3.mp h
    exact ⟨rfl, rfl⟩

/-! ## Names -/

/-- The bytes of the pointers `vtc_account`. -/
abbrev RecordPointers := Vector (Vector UInt8 8) secretAccountsMaximumCount

def noPointers : RecordPointers := Vector.replicate _ (Vector.replicate _ 0)

/-- The entries of `s_accounts` behind `i`, as they lie in memory. -/
def entriesBehind (pointers : RecordPointers) (accounts : SAccounts)
    (i : Fin secretAccountsMaximumCount) : List UInt8 :=
  ((List.finRange _).filter (i < ·)).flatMap fun j =>
    sAccountLayout.encode (accounts.get j).stored (pointers.get j)

/-- `s_accounts` from the name of an entry on.  A name of `ACCOUNT_NAME_LENGTH` characters
has no end of its own: the next entry's key follows. -/
def nameMemory (pointers : RecordPointers) (accounts : SAccounts)
    (i : Fin secretAccountsMaximumCount) : List UInt8 :=
  (accounts.get i).name.toList ++ entriesBehind pointers accounts i

/-- `strcmp(s, account_name) == 0`, where this is the memory from `s` on. -/
def strcmpEq (s : List UInt8) (accountName : CStr) : Except Fault Bool :=
  if (0 : UInt8) ∈ s then return cString s = accountName
  else if s <+: accountName.bytes then throw .outOfBounds
  else return false

/-- The loop of `s_account_exists` and `s_account_get_by_name`, over the entries left. -/
def findByName (pointers : RecordPointers) (accounts : SAccounts) (accountName : CStr) :
    List (Fin secretAccountsMaximumCount) → Except Fault (Option (Fin secretAccountsMaximumCount))
  | [] => return none
  | i :: rest => do
      let same ← strcmpEq (nameMemory pointers accounts i) accountName
      if same = true ∧ (accounts.get i).status = .added then return some i
      else findByName pointers accounts accountName rest

/-- `s_account_exists`. -/
def sAccountExists (pointers : RecordPointers) (accounts : SAccounts) (accountName : CStr) :
    Except Fault Bool := do
  let found ← findByName pointers accounts accountName (List.finRange _)
  return found.isSome

/-- `s_account_get_by_name`: its code and the copy of the entry. -/
def sAccountGetByName (pointers : RecordPointers) (accounts : SAccounts) (accountName : CStr) :
    Except Fault (RetCode × Option SAccount) := do
  match ← findByName pointers accounts accountName (List.finRange _) with
  | none => return (.errorNotFound, none)
  | some i => return (.success, some (accounts.get i))

/-! ## The file -/

/-- `s_account_load`; `sodiumInit` says that `sodium_init` has not failed. -/
def sAccountLoad (S : Sodium) (sodiumInit : Bool) (env : LoadEnv secretAccountsMaximumCount)
    (file : Option (List UInt8)) (password : CStr) (accounts : SAccounts) :
    Except Fault (RetCode × SAccounts) :=
  if sodiumInit then loadAccountData S env file password accounts
  else return (.errorInternal, accounts)

/-- `s_account_save`. -/
def sAccountSave (S : Sodium) (sodiumInit : Bool) (env : SaveEnv secretAccountsMaximumCount)
    (file : Option (List UInt8)) (password : CStr) (accounts : SAccounts) :
    Except Fault (RetCode × Option (List UInt8)) :=
  if sodiumInit then saveAccountData S env file password accounts
  else return (.errorInternal, file)

/-- `vertices_wallet_load`: the wallet is emptied, then loaded. -/
def verticesWalletLoad (S : Sodium) (sodiumInit : Bool) (env : LoadEnv secretAccountsMaximumCount)
    (file : Option (List UInt8)) (password : CStr) (_accounts : SAccounts) :
    Except Fault (RetCode × SAccounts) :=
  sAccountLoad S sodiumInit env file password sAccountInit

/-! ## Public accounts -/

/-- `account_balance`: its code, and the amount where there is one. -/
def accountBalance (account : AccountPtr) (accounts : MAccounts) : RetCode × Option Int32 :=
  match account with
  | .mAccount i => (.success, some (accounts.get i).account.info.amount)
  | .other _ => (.errorInvalidParam, none)

/-! ## All the calls -/

/-- What the calls keep: both tables, the provider, and the wallet's file. -/
structure Registry where
  accounts : MAccounts
  wallet : SAccounts
  provider : Provider
  file : Option (List UInt8)

/-- After `vertices_new`, with no file. -/
def Registry.start : Registry := ⟨accountInit, sAccountInit, .zero, none⟩

/-- A call, with what it takes from outside: the answer of the node, the memory of a local
record, addresses, the randomness.  `fileReplaced` is no call: the file is anybody's. -/
inductive RegistryCall where
  | accountInit
  | accountNew (publicB32 : B32Ptr) (reply : HttpReply)
  | accountFree (account : AccountPtr)
  | accountUpdate (account : AccountPtr) (reply : HttpReply)
  | accountHasApp (account : AccountPtr) (appId : UInt64)
  | accountBalance (account : AccountPtr)
  | sAccountInit
  | sAccountNew (publicB32 : B32Ptr) (privateKey : Vector UInt8 addressLength) (name : CStr)
      (reply : HttpReply) (stack : AccountDetails)
  | sAccountExists (pointers : RecordPointers) (name : CStr)
  | sAccountGetByName (pointers : RecordPointers) (name : CStr)
  | sAccountUpdate (addresses : EntryAddresses) (account : SAccountPtr) (reply : HttpReply)
      (stack : AccountDetails)
  | sAccountLoad (sodiumInit : Bool) (env : LoadEnv secretAccountsMaximumCount) (password : CStr)
  | sAccountSave (sodiumInit : Bool) (env : SaveEnv secretAccountsMaximumCount) (password : CStr)
  | verticesWalletLoad (sodiumInit : Bool) (env : LoadEnv secretAccountsMaximumCount) (password : CStr)
  | sAccountFree (account : SAccountPtr)
  | sWalletFree
  | fileReplaced (file : Option (List UInt8))

/-- The code the call returns, and what it leaves. -/
def RegistryCall.run (R : MpackReader) (S : Sodium) (t : Registry) :
    RegistryCall → Except Fault (RetCode × Registry)
  | .accountInit => return (.success, { t with accounts := Vertices.accountInit })
  | .accountNew publicB32 reply => do
      let (err, _, accounts, p) ← Vertices.accountNew R publicB32 reply t.accounts t.provider
      return (err, { t with accounts := accounts, provider := p })
  | .accountFree account =>
      let (err, accounts) := Vertices.accountFree account t.accounts
      return (err, { t with accounts := accounts })
  | .accountUpdate account reply => do
      let (err, accounts, p) ← Vertices.accountUpdate R account reply t.accounts t.provider
      return (err, { t with accounts := accounts, provider := p })
  | .accountHasApp account appId => do
      let _ ← Vertices.accountHasApp account appId t.accounts
      return (.success, t)
  | .accountBalance account => return ((Vertices.accountBalance account t.accounts).1, t)
  | .sAccountInit => return (.success, { t with wallet := Vertices.sAccountInit })
  | .sAccountNew publicB32 privateKey name reply stack => do
      let (err, _, wallet, p) ←
        Vertices.sAccountNew R publicB32 privateKey name reply stack t.wallet t.provider
      return (err, { t with wallet := wallet, provider := p })
  | .sAccountExists pointers name => do
      let _ ← Vertices.sAccountExists pointers t.wallet name
      return (.success, t)
  | .sAccountGetByName pointers name => do
      let (err, _) ← Vertices.sAccountGetByName pointers t.wallet name
      return (err, t)
  | .sAccountUpdate addresses account reply stack => do
      let (err, wallet, p) ←
        Vertices.sAccountUpdate R addresses account reply stack t.wallet t.provider
      return (err, { t with wallet := wallet, provider := p })
  | .sAccountLoad sodiumInit env password => do
      let (err, wallet) ← Vertices.sAccountLoad S sodiumInit env t.file password t.wallet
      return (err, { t with wallet := wallet })
  | .sAccountSave sodiumInit env password => do
      let (err, file) ← Vertices.sAccountSave S sodiumInit env t.file password t.wallet
      return (err, { t with file := file })
  | .verticesWalletLoad sodiumInit env password => do
      let (err, wallet) ← Vertices.verticesWalletLoad S sodiumInit env t.file password t.wallet
      return (err, { t with wallet := wallet })
  | .sAccountFree account =>
      let (err, wallet) := Vertices.sAccountFree account t.wallet
      return (err, { t with wallet := wallet })
  | .sWalletFree =>
      let (err, accounts) := Vertices.sWalletFree t.accounts
      return (err, { t with accounts := accounts })
  | .fileReplaced file => return (.success, { t with file := file })

/-- One call that returns. -/
def RegistryStep (R : MpackReader) (S : Sodium) (t : Registry) (call : RegistryCall)
    (t' : Registry) : Prop :=
  ∃ err, call.run R S t = .ok (err, t')

/-- What a call that returns has done to the tables, the provider and the file. -/
inductive RegistryEffect (R : MpackReader) (S : Sodium) (t : Registry) : RegistryCall → Registry → Prop
  | accountInit : RegistryEffect R S t .accountInit { t with accounts := Vertices.accountInit }
  | accountNew {publicB32 reply err slot accounts p}
      (h : Vertices.accountNew R publicB32 reply t.accounts t.provider = .ok (err, slot, accounts, p)) :
      RegistryEffect R S t (.accountNew publicB32 reply) { t with accounts := accounts, provider := p }
  | accountFree (account : AccountPtr) : RegistryEffect R S t (.accountFree account)
      { t with accounts := (Vertices.accountFree account t.accounts).2 }
  | accountUpdate {account reply err accounts p}
      (h : Vertices.accountUpdate R account reply t.accounts t.provider = .ok (err, accounts, p)) :
      RegistryEffect R S t (.accountUpdate account reply) { t with accounts := accounts, provider := p }
  | accountHasApp (account : AccountPtr) (appId : UInt64) :
      RegistryEffect R S t (.accountHasApp account appId) t
  | accountBalance (account : AccountPtr) : RegistryEffect R S t (.accountBalance account) t
  | sAccountInit : RegistryEffect R S t .sAccountInit { t with wallet := Vertices.sAccountInit }
  | sAccountNew {publicB32 privateKey name reply stack err slot wallet p}
      (h : Vertices.sAccountNew R publicB32 privateKey name reply stack t.wallet t.provider =
        .ok (err, slot, wallet, p)) :
      RegistryEffect R S t (.sAccountNew publicB32 privateKey name reply stack)
        { t with wallet := wallet, provider := p }
  | sAccountExists (pointers : RecordPointers) (name : CStr) :
      RegistryEffect R S t (.sAccountExists pointers name) t
  | sAccountGetByName (pointers : RecordPointers) (name : CStr) :
      RegistryEffect R S t (.sAccountGetByName pointers name) t
  | sAccountUpdate {addresses account reply stack err wallet p}
      (h : Vertices.sAccountUpdate R addresses account reply stack t.wallet t.provider =
        .ok (err, wallet, p)) :
      RegistryEffect R S t (.sAccountUpdate addresses account reply stack)
        { t with wallet := wallet, provider := p }
  | sAccountLoad {sodiumInit env password err wallet}
      (h : Vertices.sAccountLoad S sodiumInit env t.file password t.wallet = .ok (err, wallet)) :
      RegistryEffect R S t (.sAccountLoad sodiumInit env password) { t with wallet := wallet }
  | sAccountSave {sodiumInit env password err file}
      (h : Vertices.sAccountSave S sodiumInit env t.file password t.wallet = .ok (err, file)) :
      RegistryEffect R S t (.sAccountSave sodiumInit env password) { t with file := file }
  | verticesWalletLoad {sodiumInit env password err wallet}
      (h : Vertices.verticesWalletLoad S sodiumInit env t.file password t.wallet = .ok (err, wallet)) :
      RegistryEffect R S t (.verticesWalletLoad sodiumInit env password) { t with wallet := wallet }
  | sAccountFree (account : SAccountPtr) : RegistryEffect R S t (.sAccountFree account)
      { t with wallet := (Vertices.sAccountFree account t.wallet).2 }
  | sWalletFree :
      RegistryEffect R S t .sWalletFree { t with accounts := (Vertices.sWalletFree t.accounts).2 }
  | fileReplaced (file : Option (List UInt8)) :
      RegistryEffect R S t (.fileReplaced file) { t with file := file }

theorem RegistryStep.effect {R : MpackReader} {S : Sodium} {t t' : Registry} {call : RegistryCall}
    (h : RegistryStep R S t call t') : RegistryEffect R S t call t' := by
  obtain ⟨err, h⟩ := h
  cases call with
  | accountInit | accountFree _ | accountBalance _ | sAccountInit | sAccountFree _ | sWalletFree
  | fileReplaced _ =>
      obtain ⟨-, rfl⟩ := pure_eq_ok2.mp h
      constructor
  | accountHasApp _ _ | sAccountExists _ _ | sAccountGetByName _ _ =>
      obtain ⟨r, -, h⟩ := bind_eq_ok.mp h
      obtain ⟨-, rfl⟩ := pure_eq_ok2.mp h
      constructor
  | accountNew _ _ | accountUpdate _ _ | sAccountNew _ _ _ _ _ | sAccountUpdate _ _ _ _
  | sAccountLoad _ _ _ | sAccountSave _ _ _ | verticesWalletLoad _ _ _ =>
      obtain ⟨r, hcall, h⟩ := bind_eq_ok.mp h
      obtain ⟨-, rfl⟩ := pure_eq_ok2.mp h
      constructor
      exact hcall

/-- The calls, one after the other. -/
def Registry.runAll (R : MpackReader) (S : Sodium) (calls : List RegistryCall) (t : Registry) :
    Except Fault Registry :=
  match calls with
  | [] => return t
  | call :: calls => do
      let (_, t) ← call.run R S t
      t.runAll R S calls

theorem Registry.run_of_runAll {R : MpackReader} {S : Sodium} {calls : List RegistryCall} :
    ∀ {t t' : Registry}, t.runAll R S calls = .ok t' → Run (RegistryStep R S) t calls t' := by
  induction calls with
  | nil =>
      intro t t' h
      cases pure_eq_ok.mp h
      exact .nil t
  | cons call calls ih =>
      intro t t' h
      obtain ⟨⟨err, u⟩, hcall, h⟩ := bind_eq_ok.mp h
      exact .cons ⟨err, hcall⟩ (ih h)

end Vertices
