/-
# `Vertices.WalletErase` — freeing the wallet

The calls come in two families, `account_*` over `m_accounts` and `s_account_*`,
`s_wallet_*` over `s_accounts`, and each leaves the other's table alone.  The exception
is `s_wallet_free`: it zeroes the wrong one.
-/
import Vertices.Wallet

namespace Vertices

open Transition

/-! ## The two families -/

/-- `account_*`. -/
def RegistryCall.onAccounts : RegistryCall → Bool
  | .accountInit | .accountNew _ _ | .accountFree _ | .accountUpdate _ _ | .accountHasApp _ _
  | .accountBalance _ => true
  | .sAccountInit | .sAccountNew _ _ _ _ _ | .sAccountExists _ _ | .sAccountGetByName _ _
  | .sAccountUpdate _ _ _ _ | .sAccountLoad _ _ _ | .sAccountSave _ _ _ | .verticesWalletLoad _ _ _
  | .sAccountFree _ | .sWalletFree | .fileReplaced _ => false

/-- `s_account_*`, `s_wallet_*`, and `vertices_wallet_load`, which is made of them. -/
def RegistryCall.onWallet : RegistryCall → Bool
  | .sAccountInit | .sAccountNew _ _ _ _ _ | .sAccountExists _ _ | .sAccountGetByName _ _
  | .sAccountUpdate _ _ _ _ | .sAccountLoad _ _ _ | .sAccountSave _ _ _ | .verticesWalletLoad _ _ _
  | .sAccountFree _ | .sWalletFree => true
  | .accountInit | .accountNew _ _ | .accountFree _ | .accountUpdate _ _ | .accountHasApp _ _
  | .accountBalance _ | .fileReplaced _ => false

/-- Nothing is left of the wallet's accounts. -/
def Erased (wallet : SAccounts) : Prop :=
  ∀ i : Fin secretAccountsMaximumCount,
    (wallet.get i).status = .none ∧ (wallet.get i).privateKey = Vector.replicate _ 0

/-- No account is found, whatever the name. -/
def NothingFound (wallet : SAccounts) : Prop :=
  ∀ pointers accountName a, sAccountGetByName pointers wallet accountName ≠ .ok (.success, a)

/-- The entries of `m_accounts` below the number of the wallet's entries are zero. -/
def LowEntriesZero (accounts : MAccounts) : Prop :=
  ∀ i : Fin accountsMaximumCount, i.val < secretAccountsMaximumCount → accounts.get i = .zero

/-- The call, from `t` to `t'`, keeps the tables apart, and erases the wallet if it is to
free it. -/
structure KeptApart (t : Registry) (call : RegistryCall) (t' : Registry) : Prop where
  accounts : call.onWallet = true → t'.accounts = t.accounts
  wallet : call.onAccounts = true → t'.wallet = t.wallet
  erased : call = .sWalletFree → Erased t'.wallet ∧ NothingFound t'.wallet

/-! ## Finding in an erased wallet -/

theorem findByName_added {pointers : RecordPointers} {accounts : SAccounts} {accountName : CStr}
    {j : Fin secretAccountsMaximumCount} :
    ∀ {is : List (Fin secretAccountsMaximumCount)},
      findByName pointers accounts accountName is = .ok (some j) → (accounts.get j).status = .added := by
  intro is
  induction is with
  | nil =>
      intro h
      cases h
  | cons i is ih =>
      intro h
      obtain ⟨same, -, h⟩ := bind_eq_ok.mp h
      split at h
      · next hfound =>
          cases pure_eq_ok.mp h
          exact hfound.2
      · exact ih h

theorem nothingFound_of_erased {wallet : SAccounts} (h : Erased wallet) : NothingFound wallet := by
  intro pointers accountName a hget
  obtain ⟨found, hfind, hget⟩ := bind_eq_ok.mp hget
  cases found with
  | none => cases pure_eq_ok2.mp hget |>.1
  | some i =>
      have hadded := findByName_added hfind
      rw [(h i).1] at hadded
      cases hadded

/-! ## One call -/

theorem sWalletFree_accounts_iff {accounts : MAccounts} :
    (sWalletFree accounts).2 = accounts ↔ LowEntriesZero accounts := by
  constructor
  · intro h i hi
    rw [← h]
    show (Vector.ofFn _)[i.val] = _
    rw [Vector.getElem_ofFn, if_pos hi]
  · intro h
    apply Vector.ext
    intro i hi
    show (Vector.ofFn _)[i] = _
    rw [Vector.getElem_ofFn]
    split
    · next hlow => exact (h ⟨i, hi⟩ hlow).symm
    · rfl

section

variable {R : MpackReader} {S : Sodium} {t t' : Registry}

/-- Only `s_wallet_free` does not keep the tables apart, unless there is nothing to free
in either. -/
theorem keptApart_iff {call : RegistryCall} (h : RegistryStep R S t call t') :
    KeptApart t call t' ↔ (call = .sWalletFree → Erased t.wallet ∧ LowEntriesZero t.accounts) := by
  cases h.effect with
  | sWalletFree =>
      constructor
      · rintro ⟨haccounts, -, herased⟩ -
        exact ⟨(herased rfl).1, sWalletFree_accounts_iff.mp (haccounts rfl)⟩
      · intro hcond
        obtain ⟨herased, hzero⟩ := hcond rfl
        exact ⟨fun _ => sWalletFree_accounts_iff.mpr hzero, fun _ => rfl,
          fun _ => ⟨herased, nothingFound_of_erased herased⟩⟩
  | accountInit | accountFree _ | accountBalance _ | accountNew _ | accountUpdate _
  | accountHasApp _ _ =>
      exact iff_of_true ⟨Bool.noConfusion, fun _ => rfl, RegistryCall.noConfusion⟩
        RegistryCall.noConfusion
  | _ =>
      exact iff_of_true ⟨fun _ => rfl, Bool.noConfusion, RegistryCall.noConfusion⟩
        RegistryCall.noConfusion

/-! ## Every run -/

/-- From whatever tables a run starts, every call of it keeps them apart if and only if
each `s_wallet_free` comes when the wallet holds no account and no key, and `m_accounts`
nothing in the entries that are zeroed. -/
theorem tables_kept_apart_iff (R : MpackReader) (S : Sodium) (t : Registry)
    (calls : List RegistryCall) :
    (∀ before call after u v, calls = before ++ call :: after →
      Run (RegistryStep R S) t before u → RegistryStep R S u call v → KeptApart u call v) ↔
    ∀ before after u, calls = before ++ .sWalletFree :: after →
      Run (RegistryStep R S) t before u → Erased u.wallet ∧ LowEntriesZero u.accounts := by
  constructor
  · intro h before after u hcalls hrun
    have hstep : RegistryStep R S u .sWalletFree
        { u with accounts := (sWalletFree u.accounts).2 } := ⟨.success, rfl⟩
    exact (keptApart_iff hstep).mp (h before _ after u _ hcalls hrun hstep) rfl
  · intro h before call after u v hcalls hrun hstep
    refine (keptApart_iff hstep).mpr fun hcall => ?_
    subst hcall
    exact h before after u hcalls hrun

end

/-! ## One account of each kind -/

/-- A public account, then a wallet account "a" with a key, the node not reached. -/
def twoAccounts : List RegistryCall := [
  .accountNew ⟨Vector.replicate _ 0, []⟩ ⟨[], .errorOffline, 0⟩,
  .sAccountNew ⟨Vector.replicate _ 0, []⟩ (Vector.replicate _ 1) (cString (lit "a"))
    ⟨[], .errorOffline, 0⟩ .zero]

/-- `s_wallet_free` wipes the public account, and leaves the key to be found. -/
theorem wallet_free_wipes_accounts :
    ∃ t t', Run (RegistryStep formatReader oneSodium) .start twoAccounts t ∧
      RegistryStep formatReader oneSodium t .sWalletFree t' ∧
      (t.accounts.get 0).status = .added ∧ (t'.accounts.get 0).status = .none ∧
      (t'.wallet.get 0).privateKey = Vector.replicate _ 1 ∧
      (sAccountGetByName noPointers t'.wallet (cString (lit "a"))).map Prod.fst = .ok .success := by
  have hseen : (Registry.runAll formatReader oneSodium twoAccounts .start).map (fun t =>
      ((t.accounts.get 0).status, ((sWalletFree t.accounts).2.get 0).status,
        (t.wallet.get 0).privateKey,
        (sAccountGetByName noPointers t.wallet (cString (lit "a"))).map Prod.fst)) =
      .ok (.added, .none, Vector.replicate _ 1, .ok .success) := by decide +kernel
  cases hrun : Registry.runAll formatReader oneSodium twoAccounts .start with
  | error f =>
      rw [hrun] at hseen
      cases hseen
  | ok t =>
      rw [hrun, Except.map, Except.ok.injEq, Prod.mk.injEq, Prod.mk.injEq, Prod.mk.injEq] at hseen
      obtain ⟨hadded, hwiped, hkey, hfound⟩ := hseen
      exact ⟨t, _, Registry.run_of_runAll hrun, ⟨.success, rfl⟩, hadded, hwiped, hkey, hfound⟩

end Vertices
