/-
# `Vertices.Account` — `src/account.c`, and the account request of the provider

Two tables: `m_accounts` keeps the public accounts with everything the parser
extracts; a wallet account keeps the generic part only, and its record for the parser
is a local variable of `s_account_new` and `s_account_update`, which nothing
initialises but its first member.
-/
import Vertices.Provider
import Vertices.Parser
import Vertices.Base32

namespace Vertices

abbrev accountsMaximumCount : Nat := 10
abbrev secretAccountsMaximumCount : Nat := 5
abbrev accountNameLength : Nat := 20

instance : NeZero accountsMaximumCount := ⟨by decide⟩

instance : NeZero secretAccountsMaximumCount := ⟨by decide⟩

/-- `enum account_status_e`.  `other` is a value the enumeration does not name, as a
wallet file may hold. -/
inductive AccountStatus where
  | none
  | added
  | other (status : UInt32) (h : 2 ≤ status)
  deriving DecidableEq, Repr

/-- `local_accounts_t`. -/
structure LocalAccount where
  account : AccountDetails
  status : AccountStatus
  deriving DecidableEq

def LocalAccount.zero : LocalAccount := ⟨.zero, .none⟩

/-- `m_accounts`. -/
abbrev MAccounts := Vector LocalAccount accountsMaximumCount

/-- `s_account_t`, with the record `vtc_account` points to; `none` is a null pointer. -/
structure SAccount where
  privateKey : Vector UInt8 addressLength
  vtcAccount : Option AccountInfo
  status : AccountStatus
  name : Vector UInt8 accountNameLength
  deriving DecidableEq

/-- `s_accounts`. -/
abbrev SAccounts := Vector SAccount secretAccountsMaximumCount

/-- An `account_info_t *`: into `m_accounts`, or elsewhere. -/
inductive AccountPtr where
  | mAccount (i : Fin accountsMaximumCount)
  | other (info : AccountInfo)

/-- An `s_account_t *`: into `s_accounts`, or elsewhere, as the copy is that
`s_account_new` hands out.  The `vtc_account` of a copy is that of `entry`, or leads to a
record that is no entry's. -/
inductive SAccountPtr where
  | sAccount (i : Fin secretAccountsMaximumCount)
  | other (account : SAccount) (entry : Option (Fin secretAccountsMaximumCount))

/-- The addresses of the entries of `s_accounts`, as bytes. -/
abbrev EntryAddresses := Vector (Vector UInt8 8) secretAccountsMaximumCount

/-- A `public_b32` of the caller: the bytes that are copied, and those behind them, where
the string may go on. -/
structure B32Ptr where
  copied : Vector UInt8 publicB32StrMaxLength
  behind : List UInt8

def B32Ptr.str (publicB32 : B32Ptr) : CStr := cString (publicB32.copied.toList ++ publicB32.behind)

/-- What the pointer points to. -/
def AccountPtr.info (ptr : AccountPtr) (accounts : MAccounts) : AccountInfo :=
  match ptr with
  | .mAccount i => accounts[i].account.info
  | .other info => info

def SAccountPtr.account (ptr : SAccountPtr) (accounts : SAccounts) : SAccount :=
  match ptr with
  | .sAccount i => accounts[i]
  | .other account _ => account

/-- The entry whose record the pointer's `vtc_account` is. -/
def SAccountPtr.entry : SAccountPtr → Option (Fin secretAccountsMaximumCount)
  | .sAccount i => some i
  | .other _ entry => entry

/-- What its `vtc_account` points to. -/
def SAccountPtr.record (ptr : SAccountPtr) (accounts : SAccounts) : Option AccountInfo :=
  match ptr.entry with
  | some i => accounts[i].vtcAccount
  | none => (ptr.account accounts).vtcAccount

/-! ## Fetching an account -/

/-- `provider_account_info_get`.  The code of the parser is dropped. -/
def providerAccountInfoGet (R : MpackReader) (p : Provider) (reply : HttpReply)
    (account : AccountDetails) : Except Fault (RetCode × AccountDetails × Provider) := do
  let p ← httpReceive p reply
  if reply.err = .success then
    let (_, account) ← parserAccountMpack R (p.rxBuf.toList.take p.responseSize) account
    return (reply.err, account, p)
  else return (reply.err, account, p)

/-- `from_b32_init`: the first 32 of the at most 36 bytes the text decodes to. -/
def fromB32Init (publicB32 : B32Ptr) (info : AccountInfo) : AccountInfo :=
  let result := (b32Decode publicB32.str 36).2
  { info with publicKey := Vector.ofFn fun i => result.getD i.val 0 }

/-! ## Public accounts -/

/-- `account_new`: its code, the entry handed out, and the tables. -/
def accountNew (R : MpackReader) (publicB32 : B32Ptr) (reply : HttpReply)
    (accounts : MAccounts) (p : Provider) :
    Except Fault (RetCode × Option (Fin accountsMaximumCount) × MAccounts × Provider) :=
  match accounts.findFinIdx? fun a => a.status == .none with
  | none => return (.errorNoMem, none, accounts, p)
  | some i => do
      let details := accounts[i].account
      let info := { fromB32Init publicB32 details.info with publicB32 := publicB32.copied }
      let (err, details, p) ← providerAccountInfoGet R p reply { details with info := info }
      return (err, some i, accounts.set i ⟨details, .added⟩, p)

/-- `account_free`. -/
def accountFree (account : AccountPtr) (accounts : MAccounts) : RetCode × MAccounts :=
  match account with
  | .mAccount i => (.success, accounts.set i .zero)
  | .other _ => (.errorNotFound, accounts)

/-- `account_update`. -/
def accountUpdate (R : MpackReader) (account : AccountPtr) (reply : HttpReply)
    (accounts : MAccounts) (p : Provider) : Except Fault (RetCode × MAccounts × Provider) :=
  match account with
  | .mAccount i => do
      let (err, details, p) ← providerAccountInfoGet R p reply accounts[i].account
      return (err, accounts.set i { accounts[i] with account := details }, p)
  | .other _ => return (.errorInvalidParam, accounts, p)

/-- `account_init`. -/
def accountInit : MAccounts := Vector.replicate _ .zero

/-- The loop of `account_has_app` from entry `j` on, `n` entries to go. -/
def hasAppFrom (details : AccountDetails) (appId : UInt64) (j : Nat) : Nat → Except Fault Bool
  | 0 => return false
  | n + 1 => do
      let a ← subscript appsMaxCount j
      if details.appsLocal[a].appId = appId then return true
      else hasAppFrom details appId (j + 1) n

theorem hasAppFrom_succ (details : AccountDetails) (appId : UInt64) (j n : Nat) :
    hasAppFrom details appId j (n + 1) = (subscript appsMaxCount j >>= fun a =>
      if (details.appsLocal.get a).appId = appId then return true
      else hasAppFrom details appId (j + 1) n) := rfl

/-- `account_has_app`. -/
def accountHasApp (account : AccountPtr) (appId : UInt64) (accounts : MAccounts) :
    Except Fault Bool :=
  match account with
  | .mAccount i => hasAppFrom accounts[i].account appId 0 accounts[i].account.appIdx
  | .other _ => return false

/-! ## Wallet accounts -/

/-- The local `accountDetails`: `stack` is what the memory held before, all of it kept
but the generic part. -/
def localDetails (stack : AccountDetails) (info : AccountInfo) : AccountDetails :=
  { stack with info := info }

/-- All bytes zero. -/
def SAccount.zero : SAccount where
  privateKey := Vector.replicate _ 0
  vtcAccount := none
  status := .none
  name := Vector.replicate _ 0

/-- `s_account_init`: every pointer to a zeroed record of its own. -/
def sAccountInit : SAccounts :=
  Vector.replicate _ { SAccount.zero with vtcAccount := some AccountDetails.zero.info }

/-- `s_account_new`: its code and the tables; the caller's copy is the entry taken. -/
def sAccountNew (R : MpackReader) (publicB32 : B32Ptr) (privateKey : Vector UInt8 addressLength)
    (name : CStr) (reply : HttpReply) (stack : AccountDetails) (accounts : SAccounts) (p : Provider) :
    Except Fault (RetCode × Option (Fin secretAccountsMaximumCount) × SAccounts × Provider) :=
  match accounts.findFinIdx? fun a => a.status == .none with
  | none => return (.errorNoMem, none, accounts, p)
  | some i =>
      match accounts[i].vtcAccount with
      | none => throw .nullDeref
      | some info => do
          let info := { fromB32Init publicB32 info with publicB32 := publicB32.copied }
          let (err, details, p) ← providerAccountInfoGet R p reply (localDetails stack info)
          let name ← memcpy accounts[i].name 0 name.bytes
          let account : SAccount :=
            { privateKey := privateKey, vtcAccount := some details.info, status := .added,
              name := name }
          return (err, some i, accounts.set i account, p)

/-- `s_account_exists_by_addr(*account)`.  It takes the address of a pointer, and is given
the pointer: the account's first bytes, its key, are compared with the entries' addresses. -/
def sAccountExistsByAddr (addresses : EntryAddresses) (account : SAccount) : Bool :=
  (List.finRange secretAccountsMaximumCount).any fun i =>
    (addresses.get i).toList == account.privateKey.toList.take 8

/-- `s_account_update`; the code of the request is dropped. -/
def sAccountUpdate (R : MpackReader) (addresses : EntryAddresses) (account : SAccountPtr)
    (reply : HttpReply) (stack : AccountDetails) (accounts : SAccounts) (p : Provider) :
    Except Fault (RetCode × SAccounts × Provider) :=
  if sAccountExistsByAddr addresses (account.account accounts) then
    match account.record accounts with
    | none => throw .nullDeref
    | some info => do
        let (_, details, p) ← providerAccountInfoGet R p reply (localDetails stack info)
        -- the record of no entry is not kept here
        match account.entry with
        | none => return (.success, accounts, p)
        | some i =>
            return (.success, accounts.set i { accounts[i] with vtcAccount := some details.info }, p)
  else return (.errorInvalidParam, accounts, p)

/-- If the update changes the table, then in the record of one entry, to what was fetched
for it. -/
theorem sAccountUpdate_cases {R : MpackReader} {addresses : EntryAddresses} {account : SAccountPtr}
    {reply : HttpReply} {stack : AccountDetails} {accounts accounts' : SAccounts} {p p' : Provider}
    {err : RetCode} (h : sAccountUpdate R addresses account reply stack accounts p =
      .ok (err, accounts', p')) :
    accounts' = accounts ∨
      ∃ (i : Fin secretAccountsMaximumCount) (info : AccountInfo) (code : RetCode)
        (details : AccountDetails),
        (accounts.get i).vtcAccount = some info ∧
        providerAccountInfoGet R p reply (localDetails stack info) = .ok (code, details, p') ∧
        accounts' = accounts.set i.val { accounts.get i with vtcAccount := some details.info } i.isLt := by
  rw [sAccountUpdate] at h
  split at h
  · split at h
    · cases h
    · next info hrecord =>
        obtain ⟨⟨code, details, q⟩, hget, h⟩ := bind_eq_ok.mp h
        dsimp only at h
        split at h
        · exact .inl (pure_eq_ok3.mp h).2.1.symm
        · next i hentry =>
            obtain ⟨-, rfl, rfl⟩ := pure_eq_ok3.mp h
            rw [SAccountPtr.record, hentry] at hrecord
            exact .inr ⟨i, info, code, details, hrecord, hget, rfl⟩
  · exact .inl (pure_eq_ok3.mp h).2.1.symm

/-- `s_account_free`: the pointer of the entry is zeroed with the rest. -/
def sAccountFree (account : SAccountPtr) (accounts : SAccounts) : RetCode × SAccounts :=
  match account with
  | .sAccount i => (.success, accounts.set i .zero)
  | .other _ _ => (.errorNotFound, accounts)

/-- `s_wallet_free`: it zeroes entries of `m_accounts`, as many as the wallet has. -/
def sWalletFree (accounts : MAccounts) : RetCode × MAccounts :=
  (.success, Vector.ofFn fun i =>
    if i.val < secretAccountsMaximumCount then .zero else accounts[i])

end Vertices
