/-
# `Vertices.WalletSlots` — the record behind a wallet entry

Every entry of the wallet points to a record of its own, allocated by `s_account_init` or
by a load.  `s_account_new` and `save_account_data` follow the pointer without looking.
All calls keep it but one: `s_account_free` zeroes the entry with its pointer.
-/
import Vertices.Wallet

namespace Vertices

open Transition

/-- No entry's `vtc_account` is null. -/
def Usable (wallet : SAccounts) : Prop :=
  ∀ i : Fin secretAccountsMaximumCount, (wallet.get i).vtcAccount.isSome = true

/-- `s_account_free` of an entry of the wallet. -/
def RegistryCall.FreesEntry (call : RegistryCall) : Prop :=
  ∃ i, call = .sAccountFree (.sAccount i)

/-! ## What the calls do to the pointers -/

theorem usable_sAccountInit : Usable sAccountInit := by
  intro i
  show ((Vector.replicate secretAccountsMaximumCount (_ : SAccount))[i.val]).vtcAccount.isSome = true
  rw [Vector.getElem_replicate]
  rfl

theorem get_set {α : Type} {n i : Nat} (v : Vector α n) (hi : i < n) (j : Fin n) (a : α) :
    (v.set i a hi).get j = if i = j.val then a else v.get j :=
  Vector.getElem_set hi j.isLt

theorem get_set_self {α : Type} {n : Nat} (v : Vector α n) (i : Fin n) (a : α) :
    (v.set i.val a i.isLt).get i = a := (get_set v i.isLt i a).trans (if_pos rfl)

theorem Usable.set {wallet : SAccounts} (h : Usable wallet) {i : Nat}
    (hi : i < secretAccountsMaximumCount) {a : SAccount} (ha : a.vtcAccount.isSome = true) :
    Usable (wallet.set i a hi) := by
  intro j
  rw [get_set]
  split
  · exact ha
  · exact h j

theorem usable_withRecord (stored : Vector StoredAccount secretAccountsMaximumCount)
    (infos : Vector AccountInfo secretAccountsMaximumCount) :
    Usable (stored.zipWith StoredAccount.withRecord infos) := by
  intro i
  show (stored.zipWith StoredAccount.withRecord infos)[i.val].vtcAccount.isSome = true
  rw [Vector.getElem_zipWith]
  rfl

/-- The wallet without entry `i`. -/
theorem get_sAccountFree (wallet : SAccounts) (i j : Fin secretAccountsMaximumCount) :
    (sAccountFree (.sAccount i) wallet).2.get j = if i.val = j.val then .zero else wallet.get j :=
  get_set wallet i.isLt j .zero

theorem not_usable_free (wallet : SAccounts) (i : Fin secretAccountsMaximumCount) :
    ¬ Usable (sAccountFree (.sAccount i) wallet).2 := by
  intro h
  have hi := h i
  rw [get_sAccountFree, if_pos rfl] at hi
  cases hi

section

variable {R : MpackReader} {S : Sodium} {t t' : Registry}

theorem Usable.sAccountLoad {sodiumInit : Bool} {env : LoadEnv secretAccountsMaximumCount}
    {file : Option (List UInt8)} {password : CStr} {wallet wallet' : SAccounts} {err : RetCode}
    (hw : Usable wallet)
    (h : sAccountLoad S sodiumInit env file password wallet = .ok (err, wallet')) :
    Usable wallet' := by
  rw [Vertices.sAccountLoad] at h
  split at h
  · rcases loadAccountData_table h with ⟨-, rfl, -⟩ | ⟨-, table, -, rfl⟩
    · exact hw
    · exact usable_withRecord table.1 table.2
  · obtain ⟨-, rfl⟩ := pure_eq_ok2.mp h
    exact hw

/-- One call keeps the pointers, unless it frees an entry. -/
theorem usable_step_iff {call : RegistryCall} (hw : Usable t.wallet)
    (h : RegistryStep R S t call t') : Usable t'.wallet ↔ ¬ call.FreesEntry := by
  cases h.effect with
  | sAccountFree account =>
      cases account with
      | sAccount i =>
          exact iff_of_false (not_usable_free t.wallet i) (not_not.mpr ⟨i, rfl⟩)
      | other =>
          refine iff_of_true hw ?_
          rintro ⟨i, hi⟩
          cases hi
  | sAccountNew hnew =>
      refine iff_of_true ?_ (by rintro ⟨i, hi⟩; cases hi)
      rw [sAccountNew.eq_def] at hnew
      split at hnew
      · obtain ⟨-, -, rfl, -⟩ := pure_eq_ok4.mp hnew
        exact hw
      · split at hnew
        · cases hnew
        · obtain ⟨r, -, hnew⟩ := bind_eq_ok.mp hnew
          obtain ⟨name', -, hnew⟩ := bind_eq_ok.mp hnew
          obtain ⟨-, -, rfl, -⟩ := pure_eq_ok4.mp hnew
          exact hw.set (Fin.isLt _) rfl
  | sAccountUpdate hupdate =>
      refine iff_of_true ?_ (by rintro ⟨i, hi⟩; cases hi)
      rcases sAccountUpdate_cases hupdate with rfl | ⟨i, info, code, details, -, -, rfl⟩
      · exact hw
      · exact hw.set i.isLt rfl
  | sAccountInit => exact iff_of_true usable_sAccountInit (by rintro ⟨i, hi⟩; cases hi)
  | sAccountLoad hload => exact iff_of_true (hw.sAccountLoad hload) (by rintro ⟨i, hi⟩; cases hi)
  | verticesWalletLoad hload =>
      exact iff_of_true (usable_sAccountInit.sAccountLoad hload) (by rintro ⟨i, hi⟩; cases hi)
  | _ => exact iff_of_true hw (by rintro ⟨i, hi⟩; cases hi)

end

/-! ## What the pointers are needed for -/

/-- `s_account_new` stores the keys and the address in an entry of its own, whenever the
node's answer can be received and the name is no longer than its field. -/
def StoresKeys (R : MpackReader) (wallet : SAccounts) (p : Provider) : Prop :=
  ∀ publicB32 privateKey (name : CStr) reply stack,
    (∀ d, ∃ r, providerAccountInfoGet R p reply d = .ok r) → name.strlen ≤ accountNameLength →
    ∃ err i wallet' p' info,
      sAccountNew R publicB32 privateKey name reply stack wallet p = .ok (err, some i, wallet', p') ∧
      (wallet'.get i).status = .added ∧ (wallet'.get i).privateKey = privateKey ∧
      (wallet'.get i).vtcAccount = some info ∧ info.publicB32 = publicB32.copied ∧
      info.publicKey = (fromB32Init publicB32 info).publicKey

/-- `s_account_save` follows no null pointer. -/
def SavesSafely (wallet : SAccounts) : Prop :=
  ∀ S sodiumInit env file password,
    sAccountSave S sodiumInit env file password wallet ≠ .error .nullDeref

theorem savesSafely_iff {wallet : SAccounts} : SavesSafely wallet ↔ Usable wallet := by
  constructor
  · intro h
    by_contra hw
    let S : Sodium := ⟨fun _ _ => some (Vector.replicate _ 0), fun _ _ _ => none, fun _ _ _ => none⟩
    let env : SaveEnv secretAccountsMaximumCount := ⟨Vector.replicate _ 0, Vector.replicate _ 0,
      Vector.replicate _ (Vector.replicate _ 0), Vector.replicate _ (Vector.replicate _ 0), true⟩
    have hrecords : records wallet = .error .nullDeref := dif_neg hw
    refine h S true env none (cString []) ?_
    rw [sAccountSave, if_pos rfl, saveAccountData.eq_def, if_neg (by decide), hrecords]
    rfl
  · intro hw S sodiumInit env file password h
    rw [sAccountSave] at h
    split at h
    · exact saveAccountData_ne_nullDeref hw h
    · cases h

/-- The first free entry, as `account_new` and `s_account_new` look for it. -/
theorem findFree_eq_some {α : Type} {n : Nat} {wallet : Vector α n} {status : α → AccountStatus}
    {i : Fin n} :
    wallet.findFinIdx? (fun a => status a == .none) = some i ↔
      status (wallet.get i) = .none ∧ ∀ j < i, status (wallet.get j) ≠ .none := by
  have hp : ∀ a : α, (status a == .none) = true ↔ status a = .none := fun a => beq_iff_eq
  rw [Vector.findFinIdx?, Option.map_eq_some_iff]
  constructor
  · rintro ⟨k, hk, rfl⟩
    obtain ⟨hstatus, hbefore⟩ := Array.findFinIdx?_eq_some_iff.mp hk
    refine ⟨(hp _).mp hstatus, fun j hj hnone => ?_⟩
    exact hbefore (j.cast wallet.size_toArray.symm) hj ((hp _).mpr hnone)
  · rintro ⟨hstatus, hbefore⟩
    refine ⟨i.cast wallet.size_toArray.symm, Array.findFinIdx?_eq_some_iff.mpr ⟨?_, ?_⟩, rfl⟩
    · exact (hp _).mpr hstatus
    · intro j hj hnone
      exact hbefore (j.cast wallet.size_toArray) hj ((hp _).mp hnone)

theorem findFree_eq_none {α : Type} {n : Nat} {wallet : Vector α n} {status : α → AccountStatus} :
    wallet.findFinIdx? (fun a => status a == .none) = none ↔ ∀ j, status (wallet.get j) ≠ .none := by
  have hp : ∀ a : α, (status a == .none) = true ↔ status a = .none := fun a => beq_iff_eq
  rw [Vector.findFinIdx?_eq_none_iff]
  constructor
  · intro h j hj
    exact h _ (Vector.getElem_mem j.isLt) ((hp _).mpr hj)
  · intro h a ha hnone
    obtain ⟨j, hj, rfl⟩ := Vector.getElem_of_mem ha
    exact h ⟨j, hj⟩ ((hp _).mp hnone)

theorem findFree_of_free {wallet : SAccounts} {j : Fin secretAccountsMaximumCount}
    (h : (wallet.get j).status = .none) :
    ∃ k, k.val ≤ j.val ∧ wallet.findFinIdx? (fun a => a.status == .none) = some k := by
  cases hfind : wallet.findFinIdx? (fun a => a.status == .none) with
  | none => exact absurd h (findFree_eq_none.mp hfind j)
  | some k =>
      refine ⟨k, ?_, rfl⟩
      by_contra hlt
      exact (findFree_eq_some.mp hfind).2 j (Nat.lt_of_not_le hlt) h

theorem sAccountNew_null {R : MpackReader} {wallet : SAccounts} {i : Fin secretAccountsMaximumCount}
    (hi : wallet.findFinIdx? (fun a => a.status == .none) = some i)
    (hnull : (wallet.get i).vtcAccount = none) (publicB32 : B32Ptr)
    (privateKey : Vector UInt8 addressLength) (name : CStr) (reply : HttpReply)
    (stack : AccountDetails) (p : Provider) :
    sAccountNew R publicB32 privateKey name reply stack wallet p = .error .nullDeref := by
  have hnull : wallet[i].vtcAccount = none := hnull
  rw [sAccountNew.eq_def, hi]
  dsimp only
  rw [hnull]
  rfl

theorem storesKeys_of_record {R : MpackReader} {wallet : SAccounts} {p : Provider}
    {i : Fin secretAccountsMaximumCount} {info : AccountInfo}
    (hi : wallet.findFinIdx? (fun a => a.status == .none) = some i)
    (hinfo : (wallet.get i).vtcAccount = some info) : StoresKeys R wallet p := by
  intro publicB32 privateKey name reply stack hfetch hname
  obtain ⟨⟨err, details, p'⟩, hget⟩ := hfetch
    (localDetails stack { fromB32Init publicB32 info with publicB32 := publicB32.copied })
  have hinfo : wallet[i].vtcAccount = some info := hinfo
  have hfits : 0 + name.bytes.length ≤ accountNameLength := by
    rw [Nat.zero_add]
    exact hname
  obtain ⟨htext, hkey⟩ := providerAccountInfoGet_sameAddress hget
  refine ⟨err, i, wallet.set i { privateKey, vtcAccount := some details.info, status := .added, name := splice wallet[i].name 0 name.bytes hfits },
    p', details.info, ?_, ?_, ?_, ?_, htext, hkey⟩
  · rw [sAccountNew.eq_def, hi]
    dsimp only
    rw [hinfo]
    dsimp only
    rw [hget]
    show (memcpy wallet[i].name 0 name.bytes >>= _) = _
    rw [memcpy, dif_pos hfits]
    rfl
  all_goals rw [get_set, if_pos rfl]

/-- Right after `s_account_free` the keys are stored only in an entry before the freed
one. -/
theorem storesKeys_freed_iff {R : MpackReader} {wallet : SAccounts} {p : Provider}
    (hw : Usable wallet) (i : Fin secretAccountsMaximumCount) :
    StoresKeys R (sAccountFree (.sAccount i) wallet).2 p ↔ ∃ j < i, (wallet.get j).status = .none := by
  have hfreed : (sAccountFree (.sAccount i) wallet).2.get i = .zero := by
    rw [get_sAccountFree, if_pos rfl]
  have hkept : ∀ j < i, (sAccountFree (.sAccount i) wallet).2.get j = wallet.get j := by
    intro j hj
    rw [get_sAccountFree, if_neg (Nat.ne_of_gt hj)]
  generalize (sAccountFree (.sAccount i) wallet).2 = freed at hfreed hkept ⊢
  constructor
  · intro h
    by_contra hnone
    rw [not_exists] at hnone
    have hfirst : ∀ j < i, (freed.get j).status ≠ .none := by
      intro j hj hstatus
      rw [hkept j hj] at hstatus
      exact hnone j ⟨hj, hstatus⟩
    have hfind := findFree_eq_some.mpr ⟨congrArg SAccount.status hfreed, hfirst⟩
    have hnull : (freed.get i).vtcAccount = none := congrArg SAccount.vtcAccount hfreed
    have hanswer : ∀ d, ∃ r, providerAccountInfoGet R p ⟨[], .errorOffline, 0⟩ d = .ok r :=
      fun d => ⟨_, rfl⟩
    obtain ⟨err, k, wallet', p', info, hnew, -⟩ := h ⟨Vector.replicate _ 0, []⟩ (Vector.replicate _ 0)
      (cString []) _ .zero hanswer (Nat.zero_le _)
    rw [sAccountNew_null hfind hnull] at hnew
    cases hnew
  · rintro ⟨j, hj, hstatus⟩
    rw [← hkept j hj] at hstatus
    obtain ⟨k, hk, hfind⟩ := findFree_of_free hstatus
    have hki : k < i := Nat.lt_of_le_of_lt hk hj
    obtain ⟨info, hinfo⟩ := Option.isSome_iff_exists.mp (hw k)
    rw [← hkept k hki] at hinfo
    exact storesKeys_of_record hfind hinfo

/-- The wallet's pointers are never null in exactly the runs that free no entry.  Where
they are not, `s_account_new` and `s_account_save` have what they follow; and once an
entry is freed, the next account is stored only if an earlier entry is free as well. -/
theorem wallet_slots_usable_iff (R : MpackReader) (S : Sodium) {t t' : Registry}
    {calls : List RegistryCall} (ht : t.wallet = sAccountInit)
    (hrun : Run (RegistryStep R S) t calls t') :
    ((∀ before after u, calls = before ++ after → Run (RegistryStep R S) t before u →
        Usable u.wallet) ↔ ∀ call ∈ calls, ¬ call.FreesEntry) ∧
    (SavesSafely t'.wallet ↔ Usable t'.wallet) ∧
    (Usable t'.wallet →
      (∀ i, (t'.wallet.get i).status = .none → StoresKeys R t'.wallet t'.provider) ∧
      ∀ i, StoresKeys R (sAccountFree (.sAccount i) t'.wallet).2 t'.provider ↔
        ∃ j < i, (t'.wallet.get j).status = .none) := by
  have husable : Usable t.wallet := ht ▸ usable_sAccountInit
  refine ⟨Run.always_iff (fun u c u' hu hstep => usable_step_iff hu hstep) hrun husable,
    savesSafely_iff, fun hw => ⟨fun i hi => ?_, fun i => storesKeys_freed_iff hw i⟩⟩
  obtain ⟨k, -, hfind⟩ := findFree_of_free hi
  obtain ⟨info, hinfo⟩ := Option.isSome_iff_exists.mp (hw k)
  exact storesKeys_of_record hfind hinfo

/-! ## An entry freed -/

/-- An account without a name, the node not reached. -/
def newUnnamed : RegistryCall :=
  .sAccountNew ⟨Vector.replicate _ 0, []⟩ (Vector.replicate _ 0) (cString []) ⟨[], .errorOffline, 0⟩ .zero

theorem newUnnamed_runs : ∃ err t, newUnnamed.run formatReader oneSodium .start = .ok (err, t) := by
  have hok : (newUnnamed.run formatReader oneSodium .start).isOk = true := by decide +kernel
  cases hrun : newUnnamed.run formatReader oneSodium .start with
  | error f =>
      rw [hrun] at hok
      cases hok
  | ok r => exact ⟨r.1, r.2, rfl⟩

/-- A new account, and no entry freed. -/
theorem wallet_slots_usable_iff_unnamed :
    ∃ t, Run (RegistryStep formatReader oneSodium) .start [newUnnamed] t ∧ Usable t.wallet ∧
      SavesSafely t.wallet := by
  obtain ⟨err, t, hstep⟩ := newUnnamed_runs
  have hrun : Run (RegistryStep formatReader oneSodium) .start [newUnnamed] t := .single ⟨err, hstep⟩
  obtain ⟨hiff, hsaves, -⟩ := wallet_slots_usable_iff formatReader oneSodium rfl hrun
  have husable : Usable t.wallet := by
    refine hiff.mpr ?_ [newUnnamed] [] t rfl hrun
    rw [List.forall_mem_singleton]
    rintro ⟨i, hi⟩
    cases hi
  exact ⟨t, hrun, husable, hsaves.mpr husable⟩

/-- The account is freed again: now no other is created, and the wallet is not saved. -/
theorem freed_entry_unusable :
    ∃ t, Run (RegistryStep formatReader oneSodium) .start [newUnnamed, .sAccountFree (.sAccount 0)] t ∧
      ¬ Usable t.wallet ∧ newUnnamed.run formatReader oneSodium t = .error .nullDeref ∧
      ¬ SavesSafely t.wallet := by
  obtain ⟨err, t, hstep⟩ := newUnnamed_runs
  have hfree : RegistryStep formatReader oneSodium t (.sAccountFree (.sAccount 0))
      { t with wallet := (sAccountFree (.sAccount 0) t.wallet).2 } := ⟨.success, rfl⟩
  have hunusable := not_usable_free t.wallet 0
  have hfreed : (sAccountFree (.sAccount 0) t.wallet).2.get 0 = .zero := get_sAccountFree t.wallet 0 0
  have hfirst : ∀ j < 0, ((sAccountFree (.sAccount 0) t.wallet).2.get j).status ≠ .none :=
    fun j hj => absurd hj (Fin.not_lt_zero j)
  have hfind := findFree_eq_some.mpr ⟨congrArg SAccount.status hfreed, hfirst⟩
  refine ⟨_, .cons ⟨err, hstep⟩ (.single hfree), hunusable, ?_, fun h => hunusable (savesSafely_iff.mp h)⟩
  rw [newUnnamed, RegistryCall.run, sAccountNew_null hfind (congrArg SAccount.vtcAccount hfreed)]
  rfl

end Vertices
