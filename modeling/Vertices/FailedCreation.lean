/-
# `Vertices.FailedCreation` — accounts that could not be fetched

`account_new` and `s_account_new` mark an entry before anything is asked of the node, fill
it, and return the code of the request.  A request that fails leaves the entry taken.

    `accountNew_cases`, `sAccountNew_cases`   what the two do to their tables
    `failed_creation_iff`                     when a failure takes no entry, and how many
                                              are left after some
-/
import Vertices.KeyImport
import Vertices.WalletSlots
import Vertices.WalletErase

namespace Vertices

open Transition

/-! ## What a creation does -/

section Creation

variable {R : MpackReader} {p p' : Provider} {reply : HttpReply} {err : RetCode}

/-- The request has the code of the HTTP client. -/
theorem providerAccountInfoGet_code {d d' : AccountDetails}
    (h : providerAccountInfoGet R p reply d = .ok (err, d', p')) : err = reply.err := by
  obtain ⟨p₁, -, h⟩ := bind_eq_ok.mp h
  split at h
  · obtain ⟨r, -, h⟩ := bind_eq_ok.mp h
    exact (pure_eq_ok3.mp h).1.symm
  · exact (pure_eq_ok3.mp h).1.symm

/-- Without a free entry nothing is done; otherwise the first is taken, whatever the code. -/
theorem accountNew_cases {publicB32 : B32Ptr} {accounts accounts' : MAccounts}
    {slot : Option (Fin accountsMaximumCount)}
    (h : accountNew R publicB32 reply accounts p = .ok (err, slot, accounts', p')) :
    (slot = none ∧ err = .errorNoMem ∧ accounts' = accounts ∧ ∀ j, (accounts.get j).status ≠ .none) ∨
      ∃ (i : Fin accountsMaximumCount) (d : AccountDetails), slot = some i ∧ err = reply.err ∧
        (accounts.get i).status = .none ∧ accounts' = accounts.set i.val ⟨d, .added⟩ i.isLt := by
  rw [accountNew.eq_def] at h
  split at h
  · next hfind =>
      obtain ⟨rfl, rfl, rfl, -⟩ := pure_eq_ok4.mp h
      exact .inl ⟨rfl, rfl, rfl, findFree_eq_none.mp hfind⟩
  · next i hfind =>
      obtain ⟨⟨code, d, p₁⟩, hget, h⟩ := bind_eq_ok.mp h
      obtain ⟨rfl, rfl, rfl, -⟩ := pure_eq_ok4.mp h
      exact .inr ⟨i, d, rfl, providerAccountInfoGet_code hget, (findFree_eq_some.mp hfind).1, rfl⟩

/-- The entry `old`, after an account was stored in it: of the name, no more is written than
its characters. -/
structure Stored (publicB32 : B32Ptr) (privateKey : Vector UInt8 addressLength) (name : CStr)
    (old a : SAccount) : Prop where
  status : a.status = .added
  privateKey : a.privateKey = privateKey
  fits : name.strlen ≤ accountNameLength
  name : a.name.toList = name.bytes ++ old.name.toList.drop name.strlen
  address : ∃ info, a.vtcAccount = some info ∧ info.publicB32 = publicB32.copied ∧
    info.publicKey = (fromB32Init publicB32 info).publicKey

theorem sAccountNew_cases {publicB32 : B32Ptr} {privateKey : Vector UInt8 addressLength} {name : CStr}
    {stack : AccountDetails} {wallet wallet' : SAccounts} {slot : Option (Fin secretAccountsMaximumCount)}
    (h : sAccountNew R publicB32 privateKey name reply stack wallet p = .ok (err, slot, wallet', p')) :
    (slot = none ∧ err = .errorNoMem ∧ wallet' = wallet ∧ ∀ j, (wallet.get j).status ≠ .none) ∨
      ∃ (i : Fin secretAccountsMaximumCount) (a : SAccount), slot = some i ∧ err = reply.err ∧
        (wallet.get i).status = .none ∧ (∀ j < i, (wallet.get j).status ≠ .none) ∧
        Stored publicB32 privateKey name (wallet.get i) a ∧ wallet' = wallet.set i.val a i.isLt := by
  rw [sAccountNew.eq_def] at h
  split at h
  · next hfind =>
      obtain ⟨rfl, rfl, rfl, -⟩ := pure_eq_ok4.mp h
      exact .inl ⟨rfl, rfl, rfl, findFree_eq_none.mp hfind⟩
  · next i hfind =>
      obtain ⟨hfree, hfirst⟩ := findFree_eq_some.mp hfind
      split at h
      · cases h
      · next info hinfo =>
          obtain ⟨⟨code, details, p₁⟩, hget, h⟩ := bind_eq_ok.mp h
          obtain ⟨copied, hcopy, h⟩ := bind_eq_ok.mp h
          obtain ⟨rfl, rfl, rfl, -⟩ := pure_eq_ok4.mp h
          obtain ⟨hfits, rfl⟩ := memcpy_eq_ok.mp hcopy
          obtain ⟨htext, hkey⟩ := providerAccountInfoGet_sameAddress hget
          refine .inr ⟨i, _, rfl, providerAccountInfoGet_code hget, hfree, hfirst, ?_, rfl⟩
          refine ⟨rfl, rfl, (Nat.zero_add _).symm.trans_le hfits, ?_, details.info, rfl, htext, hkey⟩
          rw [toList_splice, List.take_zero, List.nil_append, Nat.zero_add]
          rfl

end Creation

/-! ## Entries taken -/

/-- `account_new` or `s_account_new`. -/
def RegistryCall.creates : RegistryCall → Bool
  | .accountNew _ _ | .sAccountNew _ _ _ _ _ => true
  | _ => false

/-- The request succeeds, or there is no entry to take. -/
def RegistryCall.TakesNoSlot (t : Registry) : RegistryCall → Prop
  | .accountNew _ reply => reply.err = .success ∨ ∀ j, (t.accounts.get j).status ≠ .none
  | .sAccountNew _ _ _ reply _ => reply.err = .success ∨ ∀ j, (t.wallet.get j).status ≠ .none
  | _ => True

/-- The tables of both kinds of account. -/
def Registry.SameTables (t t' : Registry) : Prop := t'.accounts = t.accounts ∧ t'.wallet = t.wallet

/-- A creation that fails. -/
def FailedCreation (R : MpackReader) (S : Sodium) (t : Registry) (call : RegistryCall)
    (t' : Registry) : Prop :=
  call.creates = true ∧ ∃ err, err ≠ .success ∧ call.run R S t = .ok (err, t')

/-- The entries still free. -/
def freeEntries {α : Type} {n : Nat} (status : α → AccountStatus) (table : Vector α n) : Nat :=
  table.countP fun a => status a == .none

section

variable {R : MpackReader} {S : Sodium} {t t' : Registry}

/-- One entry less. -/
theorem freeEntries_set {α : Type} {n : Nat} {status : α → AccountStatus} {table : Vector α n}
    {i : Fin n} {a : α} (hfree : status (table.get i) = .none) (ha : status a = .added) :
    freeEntries status (table.set i.val a i.isLt) = freeEntries status table - 1 := by
  have hold : (status table[i.val] == .none) = true := beq_iff_eq.mpr hfree
  have hnew : (status a == .none) = false := by
    rw [ha]
    rfl
  rw [freeEntries, Vector.countP_set, hold, hnew]
  rfl

theorem freeEntries_eq_zero {α : Type} {n : Nat} {status : α → AccountStatus} {table : Vector α n} :
    freeEntries status table = 0 ↔ ∀ j, status (table.get j) ≠ .none := by
  rw [freeEntries, Vector.countP_eq_zero]
  constructor
  · intro h j hnone
    exact h _ (Vector.getElem_mem j.isLt) (beq_iff_eq.mpr hnone)
  · intro h a ha hnone
    obtain ⟨j, hj, rfl⟩ := Vector.getElem_of_mem ha
    exact h ⟨j, hj⟩ (beq_iff_eq.mp hnone)

theorem set_ne_self {α : Type} {n : Nat} (status : α → AccountStatus) {table : Vector α n} {i : Fin n}
    {a : α} (hfree : status (table.get i) = .none) (ha : status a = .added) :
    table.set i.val a i.isLt ≠ table := by
  intro hsame
  have hget := get_set_self table i a
  rw [hsame] at hget
  rw [hget, ha] at hfree
  cases hfree

/-- A failed creation takes no entry exactly if it finds none. -/
theorem takesNoSlot_iff {call : RegistryCall} {err : RetCode} (hcreates : call.creates = true)
    (h : call.run R S t = .ok (err, t')) :
    (err ≠ .success → t.SameTables t') ↔ call.TakesNoSlot t := by
  cases call with
  | accountNew publicB32 reply =>
      obtain ⟨⟨code, slot, accounts, p⟩, hnew, h⟩ := bind_eq_ok.mp h
      obtain ⟨rfl, rfl⟩ := pure_eq_ok2.mp h
      rcases accountNew_cases hnew with ⟨-, -, rfl, hfull⟩ | ⟨i, d, -, hcode, hfree, rfl⟩
      · exact iff_of_true (fun _ => ⟨rfl, rfl⟩) (.inr hfull)
      · constructor
        · intro hsame
          by_contra hno
          have hfailed : code ≠ .success := fun hok => hno (.inl (hcode.symm.trans hok))
          exact set_ne_self LocalAccount.status hfree rfl (hsame hfailed).1
        · rintro (hok | hfull) hfailed
          · exact absurd (hcode.trans hok) hfailed
          · exact absurd hfree (hfull i)
  | sAccountNew publicB32 privateKey name reply stack =>
      obtain ⟨⟨code, slot, wallet, p⟩, hnew, h⟩ := bind_eq_ok.mp h
      obtain ⟨rfl, rfl⟩ := pure_eq_ok2.mp h
      rcases sAccountNew_cases hnew with ⟨-, -, rfl, hfull⟩ | ⟨i, a, -, hcode, hfree, -, hstored, rfl⟩
      · exact iff_of_true (fun _ => ⟨rfl, rfl⟩) (.inr hfull)
      · constructor
        · intro hsame
          by_contra hno
          have hfailed : code ≠ .success := fun hok => hno (.inl (hcode.symm.trans hok))
          exact set_ne_self SAccount.status hfree hstored.status (hsame hfailed).2
        · rintro (hok | hfull) hfailed
          · exact absurd (hcode.trans hok) hfailed
          · exact absurd hfree (hfull i)
  | _ => cases hcreates

/-- Each failure takes an entry, as long as there is one. -/
theorem freeEntries_step {call : RegistryCall} (h : FailedCreation R S t call t') :
    freeEntries LocalAccount.status t'.accounts =
        freeEntries LocalAccount.status t.accounts - (if call.onAccounts = true then 1 else 0) ∧
      freeEntries SAccount.status t'.wallet =
        freeEntries SAccount.status t.wallet - (if call.onWallet = true then 1 else 0) := by
  obtain ⟨hcreates, err, -, h⟩ := h
  cases call with
  | accountNew publicB32 reply =>
      obtain ⟨⟨code, slot, accounts, p⟩, hnew, h⟩ := bind_eq_ok.mp h
      obtain ⟨rfl, rfl⟩ := pure_eq_ok2.mp h
      refine ⟨?_, rfl⟩
      rcases accountNew_cases hnew with ⟨-, -, rfl, hfull⟩ | ⟨i, d, -, -, hfree, rfl⟩
      · rw [freeEntries_eq_zero.mpr hfull, Nat.zero_sub]
      · exact freeEntries_set hfree rfl
  | sAccountNew publicB32 privateKey name reply stack =>
      obtain ⟨⟨code, slot, wallet, p⟩, hnew, h⟩ := bind_eq_ok.mp h
      obtain ⟨rfl, rfl⟩ := pure_eq_ok2.mp h
      refine ⟨rfl, ?_⟩
      rcases sAccountNew_cases hnew with ⟨-, -, rfl, hfull⟩ | ⟨i, a, -, -, hfree, -, hstored, rfl⟩
      · rw [freeEntries_eq_zero.mpr hfull, Nat.zero_sub]
      · exact freeEntries_set hfree hstored.status
  | _ => cases hcreates

theorem freeEntries_run {calls : List RegistryCall} (hrun : Run (FailedCreation R S) t calls t') :
    freeEntries LocalAccount.status t'.accounts =
        freeEntries LocalAccount.status t.accounts - calls.countP RegistryCall.onAccounts ∧
      freeEntries SAccount.status t'.wallet =
        freeEntries SAccount.status t.wallet - calls.countP RegistryCall.onWallet := by
  induction hrun with
  | nil t => exact ⟨rfl, rfl⟩
  | cons hstep _ ih =>
      obtain ⟨haccounts, hwallet⟩ := freeEntries_step hstep
      rw [haccounts, hwallet] at ih
      rw [List.countP_cons, List.countP_cons, ih.1, ih.2]
      constructor
      · omega
      · omega

end

/-- An import that returns an error can be tried again: the name is not taken by it. -/
theorem newFromMnemonic_retry {H : MbedtlsSha512} {E : Ed25519} {R : MpackReader}
    {pointers : RecordPointers} {m name : CStr} {sodiumInit : Bool} {reply : HttpReply} {stack : AccountDetails} {wallet wallet' : SAccounts}
    {p p' : Provider} {err : RetCode} {slot : Option (Fin secretAccountsMaximumCount)}
    (h : verticesSAccountNewFromMnemonic H E R sodiumInit pointers m name reply stack wallet p =
      .ok (err, slot, wallet', p')) (herr : err ≠ .sameMemExist) (m' : CStr) (sodiumInit' : Bool)
    (reply' : HttpReply) (stack' : AccountDetails) (result) :
    verticesSAccountNewFromMnemonic H E R sodiumInit' pointers m' name reply' stack' wallet' p' ≠
      .ok (.sameMemExist, result) := by
  obtain ⟨-, rfl⟩ := newFromMnemonic_unchanged h
  intro hretry
  by_cases hshort : accountNameLength < name.strlen
  · rw [verticesSAccountNewFromMnemonic, if_pos hshort] at hretry
    cases hretry
  cases hname : sAccountExists pointers wallet' name with
  | error f =>
      rw [verticesSAccountNewFromMnemonic, if_neg hshort, hname] at h
      cases h
  | ok found =>
      cases found with
      | true =>
          rw [verticesSAccountNewFromMnemonic, if_neg hshort, hname] at h
          exact herr (pure_eq_ok4.mp h).1.symm
      | false =>
          rw [newFromMnemonic_eq hshort hname] at hretry
          obtain ⟨⟨code, seed⟩, hseed, hretry⟩ := bind_eq_ok.mp hretry
          have hcode := seedFromMnemonic_fails hseed
          rw [hcode] at hretry
          cases hretry

/-- A creation that fails leaves both tables as they were exactly if its request succeeds —
then it does not fail — or there was no free entry.  So every failed creation takes an entry
until there is none, when they are refused.  An import from a phrase that returns an error can
be tried again; one of 25 known words, between line feeds, does not return: it writes past
the block of the seed. -/
theorem failed_creation_iff (H : MbedtlsSha512) (E : Ed25519) (R : MpackReader) (S : Sodium)
    (t : Registry) :
    (∀ (call : RegistryCall) err t', call.creates = true → call.run R S t = .ok (err, t') →
      ((err ≠ .success → t.SameTables t') ↔ call.TakesNoSlot t)) ∧
    (∀ calls t', Run (FailedCreation R S) t calls t' →
      freeEntries LocalAccount.status t'.accounts =
          freeEntries LocalAccount.status t.accounts - calls.countP RegistryCall.onAccounts ∧
        freeEntries SAccount.status t'.wallet =
          freeEntries SAccount.status t.wallet - calls.countP RegistryCall.onWallet) ∧
    ∀ pointers m name sodiumInit reply stack err slot wallet' p',
      verticesSAccountNewFromMnemonic H E R sodiumInit pointers m name reply stack t.wallet t.provider =
        .ok (err, slot, wallet', p') → err ≠ .sameMemExist →
      ∀ m' sodiumInit' reply' stack' result,
        verticesSAccountNewFromMnemonic H E R sodiumInit' pointers m' name reply' stack' wallet' p' ≠
          .ok (.sameMemExist, result) :=
  ⟨fun _ _ _ hcreates h => takesNoSlot_iff hcreates h, fun _ _ hrun => freeEntries_run hrun,
    fun _ _ _ _ _ _ _ _ _ _ h herr => newFromMnemonic_retry h herr⟩

/-! ## Offline -/

/-- An account asked for while the node is not reached. -/
def newOffline : RegistryCall := .accountNew ⟨Vector.replicate _ 0, []⟩ ⟨[], .errorOffline, 0⟩

theorem newOffline_fails (R : MpackReader) (S : Sodium) (t : Registry) :
    ∃ t', FailedCreation R S t newOffline t' := by
  have hnew : ∃ err slot accounts p, err ≠ .success ∧
      accountNew R ⟨Vector.replicate _ 0, []⟩ ⟨[], .errorOffline, 0⟩ t.accounts t.provider =
        .ok (err, slot, accounts, p) := by
    rw [accountNew.eq_def]
    split
    · exact ⟨_, _, _, _, RetCode.noConfusion, rfl⟩
    · exact ⟨.errorOffline, _, _, _, RetCode.noConfusion, rfl⟩
  obtain ⟨err, slot, accounts, p, herr, hnew⟩ := hnew
  refine ⟨{ t with accounts := accounts, provider := p }, rfl, err, herr, ?_⟩
  rw [newOffline, RegistryCall.run, hnew]
  rfl

/-- Any number of them, one after the other. -/
theorem newOffline_run (R : MpackReader) (S : Sodium) (n : Nat) :
    ∀ t : Registry, ∃ u, Run (FailedCreation R S) t (List.replicate n newOffline) u := by
  induction n with
  | zero =>
      intro t
      exact ⟨t, .nil t⟩
  | succ n ih =>
      intro t
      obtain ⟨t', hstep⟩ := newOffline_fails R S t
      obtain ⟨u, hrun⟩ := ih t'
      exact ⟨u, .cons hstep hrun⟩

/-- Ten accounts that could not be fetched, and there is no room for an eleventh: not even
once the node is back. -/
theorem offline_creations_fill_table :
    ∃ t u, FailedCreation formatReader oneSodium .start newOffline t ∧
      ¬ Registry.start.SameTables t ∧
      Run (FailedCreation formatReader oneSodium) .start (List.replicate 10 newOffline) u ∧
      (RegistryCall.accountNew ⟨Vector.replicate _ 0, []⟩ ⟨[], .success, 200⟩).run formatReader
        oneSodium u = .ok (.errorNoMem, u) := by
  obtain ⟨t, hstep⟩ := newOffline_fails formatReader oneSodium .start
  obtain ⟨u, hrun⟩ := newOffline_run formatReader oneSodium 10 .start
  obtain ⟨hcreates, err, herr, h⟩ := hstep
  refine ⟨t, u, ⟨hcreates, err, herr, h⟩, ?_, hrun, ?_⟩
  · intro hsame
    rcases (takesNoSlot_iff hcreates h).mp fun _ => hsame with hok | hfull
    · cases hok
    · exact hfull 0 (by decide +kernel)
  · have hfree : freeEntries LocalAccount.status u.accounts = 0 := (freeEntries_run hrun).1
    have hfind : u.accounts.findFinIdx? (fun a => a.status == .none) = none :=
      findFree_eq_none.mpr (freeEntries_eq_zero.mp hfree)
    rw [RegistryCall.run, accountNew.eq_def, hfind]
    rfl

end Vertices
