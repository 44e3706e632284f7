/-
# `Vertices.AccountHandles` — the handles of public accounts

An account's handle is the address of its entry in `m_accounts`, and this address is all
that `account_exists` looks at.  Whether the entry is in use stands in its status, which
`account_new` reads and nobody else.

A run remembers, beside the tables, the handles that are live: handed out by `account_new`
and not freed since.  The status always agrees with that; `account_exists` does not.
-/
import Mathlib.Data.Fintype.Card
import Vertices.FailedCreation

namespace Vertices

open Transition

/-! ## Live handles -/

/-- The tables, and the entries whose handles are live, the last one first. -/
structure HandleState where
  registry : Registry
  live : List (Fin accountsMaximumCount)

/-- After `account_init`. -/
def HandleState.start : HandleState := ⟨.start, []⟩

/-- The handle is live. -/
def AccountPtr.IsLive (account : AccountPtr) (live : List (Fin accountsMaximumCount)) : Prop :=
  ∃ i ∈ live, account = .mAccount i

/-- The entry that `account_new` hands out. -/
def handedOut (R : MpackReader) (t : Registry) (publicB32 : B32Ptr) (reply : HttpReply) :
    Option (Fin accountsMaximumCount) :=
  match accountNew R publicB32 reply t.accounts t.provider with
  | .ok (_, slot, _, _) => slot
  | .error _ => none

/-- The live handles after a call of `account_*`. -/
def RegistryCall.liveAfter (R : MpackReader) (t : HandleState) : RegistryCall → List (Fin accountsMaximumCount)
  | .accountInit => []
  | .accountNew publicB32 reply => (handedOut R t.registry publicB32 reply).toList ++ t.live
  | .accountFree (.mAccount i) => t.live.filter (· ≠ i)
  | _ => t.live

/-- A call of `account_*` that returns. -/
def HandleStep (R : MpackReader) (S : Sodium) (t : HandleState) (call : RegistryCall) (t' : HandleState) :
    Prop :=
  call.onAccounts = true ∧ RegistryStep R S t.registry call t'.registry ∧ t'.live = call.liveAfter R t

/-- `account_exists`. -/
def accountExists : AccountPtr → Bool
  | .mAccount _ => true
  | .other _ => false

/-- The call takes its handle for an account's: it gets past the check, or answers that the
account has the application. -/
def RegistryCall.Accepts (t : Registry) : RegistryCall → Prop
  | .accountFree account => (Vertices.accountFree account t.accounts).1 = .success
  | .accountUpdate account _ => accountExists account = true
  | .accountBalance account => (Vertices.accountBalance account t.accounts).1 = .success
  | .accountHasApp account appId => Vertices.accountHasApp account appId t.accounts = .ok true
  | _ => False

/-- The handle a call is given. -/
def RegistryCall.handle? : RegistryCall → Option AccountPtr
  | .accountFree account | .accountUpdate account _ | .accountBalance account
  | .accountHasApp account _ => some account
  | _ => none

/-- The functions that take a handle and do more than look for an application. -/
def RegistryCall.takesEntry (call : RegistryCall) (i : Fin accountsMaximumCount) : Prop :=
  call = .accountFree (.mAccount i) ∨ (∃ reply, call = .accountUpdate (.mAccount i) reply) ∨
    call = .accountBalance (.mAccount i)

theorem accountUpdate_cases {R : MpackReader} {account : AccountPtr} {reply : HttpReply}
    {accounts accounts' : MAccounts} {p p' : Provider} {err : RetCode}
    (h : accountUpdate R account reply accounts p = .ok (err, accounts', p')) :
    (accountExists account = false ∧ err = .errorInvalidParam ∧ accounts' = accounts) ∨
      ∃ (i : Fin accountsMaximumCount) (d : AccountDetails), account = .mAccount i ∧
        providerAccountInfoGet R p reply (accounts.get i).account = .ok (err, d, p') ∧
        accounts' = accounts.set i.val { accounts.get i with account := d } i.isLt := by
  cases account with
  | mAccount i =>
      obtain ⟨⟨code, d, p₁⟩, hget, h⟩ := bind_eq_ok.mp h
      obtain ⟨rfl, rfl, rfl⟩ := pure_eq_ok3.mp h
      exact .inr ⟨i, d, rfl, hget, rfl⟩
  | other info =>
      obtain ⟨rfl, rfl, -⟩ := pure_eq_ok3.mp h
      exact .inl ⟨rfl, rfl, rfl⟩

/-! ## What a call does to the table -/

/-- The entries and the live handles after a call of `account_*`. -/
inductive HandleEffect (t : HandleState) :
    RegistryCall → MAccounts → List (Fin accountsMaximumCount) → Prop
  | emptied : HandleEffect t .accountInit accountInit []
  | nothing {call} : HandleEffect t call t.registry.accounts t.live
  | taken {publicB32 reply i d} (hfree : (t.registry.accounts.get i).status = .none) :
      HandleEffect t (.accountNew publicB32 reply) (t.registry.accounts.set i.val ⟨d, .added⟩ i.isLt)
        (i :: t.live)
  | freed {i} : HandleEffect t (.accountFree (.mAccount i))
      (t.registry.accounts.set i.val .zero i.isLt) (t.live.filter (· ≠ i))
  | updated {i reply d} : HandleEffect t (.accountUpdate (.mAccount i) reply)
      (t.registry.accounts.set i.val { t.registry.accounts.get i with account := d } i.isLt) t.live

theorem HandleStep.effect {R : MpackReader} {S : Sodium} {t t' : HandleState} {call : RegistryCall}
    (h : HandleStep R S t call t') : HandleEffect t call t'.registry.accounts t'.live := by
  obtain ⟨hkind, hcall, hlive⟩ := h
  rw [hlive]
  generalize t'.registry = registry at hcall
  cases hcall.effect with
  | accountInit => exact .emptied
  | @accountNew publicB32 reply err slot accounts p h =>
      have hslot : handedOut R t.registry publicB32 reply = slot := by
        rw [handedOut, h]
      rw [RegistryCall.liveAfter, hslot]
      rcases accountNew_cases h with ⟨rfl, -, rfl, -⟩ | ⟨i, d, rfl, -, hfree, rfl⟩
      · exact .nothing
      · exact .taken hfree
  | accountFree account =>
      cases account with
      | other info => exact .nothing
      | mAccount i => exact .freed
  | accountUpdate h =>
      rcases accountUpdate_cases h with ⟨-, -, rfl⟩ | ⟨i, d, rfl, -, rfl⟩
      · exact .nothing
      · exact .updated
  | accountHasApp _ _ | accountBalance _ => exact .nothing
  | sAccountInit | sAccountNew _ | sAccountExists _ _ | sAccountGetByName _ _ | sAccountUpdate _
  | sAccountLoad _ | sAccountSave _ | verticesWalletLoad _ | sAccountFree _ | sWalletFree
  | fileReplaced _ => cases hkind

/-! ## What the steps keep -/

/-- No handle is live twice, and the status says which are. -/
structure HandleState.Consistent (t : HandleState) : Prop where
  nodup : t.live.Nodup
  status : ∀ i, (t.registry.accounts.get i).status = if i ∈ t.live then .added else .none

/-- An entry that is not in use is zero. -/
def HandleState.Tidy (t : HandleState) : Prop := ∀ i, i ∉ t.live → t.registry.accounts.get i = .zero

theorem get_accountInit (i : Fin accountsMaximumCount) : accountInit.get i = .zero :=
  Vector.getElem_replicate _

theorem HandleState.consistent_start : HandleState.start.Consistent where
  nodup := List.nodup_nil
  status i := by
    show (accountInit.get i).status = _
    rw [get_accountInit]
    rfl

theorem HandleState.tidy_start : HandleState.start.Tidy := fun i _ => get_accountInit i

section

variable {R : MpackReader} {S : Sodium} {t t' : HandleState}

theorem HandleState.Consistent.not_live (ht : t.Consistent) {i : Fin accountsMaximumCount}
    (h : (t.registry.accounts.get i).status = .none) : i ∉ t.live := by
  intro hlive
  rw [ht.status i, if_pos hlive] at h
  cases h

/-- The status of an entry after one is written. -/
theorem status_set (accounts : MAccounts) (i j : Fin accountsMaximumCount) (a : LocalAccount) :
    ((accounts.set i.val a i.isLt).get j).status = if i = j then a.status else (accounts.get j).status := by
  rw [get_set]
  by_cases hij : i = j
  · rw [if_pos hij, if_pos (congrArg Fin.val hij)]
  · rw [if_neg hij, if_neg fun hval => hij (Fin.ext hval)]

theorem HandleEffect.consistent {call : RegistryCall} {accounts : MAccounts}
    {live : List (Fin accountsMaximumCount)} (h : HandleEffect t call accounts live)
    (ht : t.Consistent) :
    live.Nodup ∧ ∀ j, (accounts.get j).status = if j ∈ live then .added else .none := by
  cases h with
  | emptied =>
      refine ⟨List.nodup_nil, fun j => ?_⟩
      rw [get_accountInit]
      rfl
  | nothing => exact ⟨ht.nodup, ht.status⟩
  | @taken _ _ i d hfree =>
      refine ⟨List.nodup_cons.mpr ⟨ht.not_live hfree, ht.nodup⟩, fun j => ?_⟩
      rw [status_set, ht.status j]
      by_cases hij : i = j
      · rw [if_pos hij, if_pos (hij ▸ List.mem_cons_self)]
      · have hmem : j ∈ i :: t.live ↔ j ∈ t.live :=
          List.mem_cons.trans (or_iff_right fun hji => hij hji.symm)
        rw [if_neg hij]
        exact if_congr hmem.symm rfl rfl
  | @freed i =>
      refine ⟨ht.nodup.filter _, fun j => ?_⟩
      rw [status_set, ht.status j]
      by_cases hij : i = j
      · have hgone : j ∉ t.live.filter (· ≠ i) := fun hmem =>
          of_decide_eq_true (List.mem_filter.mp hmem).2 hij.symm
        rw [if_pos hij, if_neg hgone]
        rfl
      · have hmem : j ∈ t.live.filter (· ≠ i) ↔ j ∈ t.live :=
          List.mem_filter.trans (and_iff_left (decide_eq_true fun hji => hij hji.symm))
        rw [if_neg hij]
        exact if_congr hmem.symm rfl rfl
  | @updated i =>
      refine ⟨ht.nodup, fun j => ?_⟩
      rw [status_set, ← ht.status j]
      by_cases hij : i = j
      · rw [if_pos hij, hij]
      · rw [if_neg hij]

theorem HandleState.Consistent.step {call : RegistryCall} (ht : t.Consistent)
    (hstep : HandleStep R S t call t') : t'.Consistent :=
  ⟨(hstep.effect.consistent ht).1, (hstep.effect.consistent ht).2⟩

/-- Only an update writes to an entry that is not in use. -/
theorem HandleEffect.tidy {call : RegistryCall} {accounts : MAccounts}
    {live : List (Fin accountsMaximumCount)} (h : HandleEffect t call accounts live) (ht : t.Tidy)
    (hcall : ∀ i, call.takesEntry i → i ∈ t.live) : ∀ j, j ∉ live → accounts.get j = .zero := by
  intro j
  cases h with
  | emptied => exact fun _ => get_accountInit j
  | nothing => exact ht j
  | @taken _ _ i =>
      intro hj
      have hij : i.val ≠ j.val := fun hij => hj (Fin.ext hij ▸ List.mem_cons_self)
      rw [get_set, if_neg hij]
      exact ht j fun hmem => hj (List.mem_cons_of_mem _ hmem)
  | @freed i =>
      intro hj
      rw [get_set]
      split
      · rfl
      · next hij =>
          refine ht j fun hmem => hj (List.mem_filter.mpr ⟨hmem, decide_eq_true ?_⟩)
          exact fun hji => hij (congrArg Fin.val hji.symm)
  | @updated i reply =>
      intro hj
      have hi : i ∈ t.live := hcall i (.inr (.inl ⟨reply, rfl⟩))
      have hij : i.val ≠ j.val := fun hij => hj (Fin.ext hij ▸ hi)
      rw [get_set, if_neg hij]
      exact ht j hj

/-- A handle that is accepted is live, if no dead handle comes to `account_free`,
`account_update` or `account_balance`. -/
theorem HandleState.Tidy.accepts {call : RegistryCall} (ht : t.Tidy)
    (hcall : ∀ i, call.takesEntry i → i ∈ t.live) (haccepts : call.Accepts t.registry)
    {account : AccountPtr} (hhandle : call.handle? = some account) : account.IsLive t.live := by
  cases account with
  | other info =>
      cases call with
      | accountFree _ | accountUpdate _ _ | accountBalance _ | accountHasApp _ _ =>
          cases hhandle
          cases haccepts
      | _ => cases hhandle
  | mAccount i =>
      refine ⟨i, ?_, rfl⟩
      cases call with
      | accountFree _ =>
          cases hhandle
          exact hcall i (.inl rfl)
      | accountUpdate _ reply =>
          cases hhandle
          exact hcall i (.inr (.inl ⟨reply, rfl⟩))
      | accountBalance _ =>
          cases hhandle
          exact hcall i (.inr (.inr rfl))
      | accountHasApp _ appId =>
          cases hhandle
          by_contra hdead
          have hnothing : Vertices.accountHasApp (.mAccount i) appId t.registry.accounts =
              hasAppFrom (t.registry.accounts.get i).account appId 0
                (t.registry.accounts.get i).account.appIdx := rfl
          rw [RegistryCall.Accepts, hnothing, ht i hdead] at haccepts
          cases haccepts
      | _ => cases hhandle

/-- A live account has an entry of its own, and a new one is refused exactly when every entry
is live. -/
theorem HandleState.Consistent.accountNew (ht : t.Consistent) {publicB32 : B32Ptr} {reply : HttpReply}
    {err : RetCode} {slot : Option (Fin accountsMaximumCount)} {accounts : MAccounts} {p : Provider}
    (h : accountNew R publicB32 reply t.registry.accounts t.registry.provider =
      .ok (err, slot, accounts, p)) :
    (slot = none ↔ t.live.length = accountsMaximumCount) ∧ (slot = none → err = .errorNoMem) ∧
      (err = .errorNoMem → slot = none ∨ reply.err = .errorNoMem) ∧ ∀ i, slot = some i → i ∉ t.live := by
  have hfull : (∀ i, i ∈ t.live) ↔ t.live.length = accountsMaximumCount := by
    rw [← List.toFinset_card_of_nodup ht.nodup]
    constructor
    · intro hall
      rw [Finset.eq_univ_of_forall fun i => List.mem_toFinset.mpr (hall i), Finset.card_univ,
        Fintype.card_fin]
    · intro hcard i
      have huniv := (Finset.card_eq_iff_eq_univ t.live.toFinset).mp (hcard.trans (Fintype.card_fin _).symm)
      exact List.mem_toFinset.mp (huniv ▸ Finset.mem_univ i)
  rcases accountNew_cases h with ⟨rfl, rfl, -, hused⟩ | ⟨i, d, rfl, rfl, hfree, -⟩
  · have hall : ∀ i, i ∈ t.live := by
      intro i
      by_contra hdead
      exact hused i ((ht.status i).trans (if_neg hdead))
    refine ⟨iff_of_true rfl (hfull.mp hall), fun _ => rfl, fun _ => .inl rfl, ?_⟩
    intro i hi
    cases hi
  · have hdead := ht.not_live hfree
    refine ⟨iff_of_false (Option.some_ne_none i) fun hlen => hdead (hfull.mpr hlen i),
      fun hnone => absurd hnone (Option.some_ne_none i), .inr, ?_⟩
    intro j hj
    cases hj
    exact hdead

/-- In every run of `account_*`, live accounts never share a handle, and a new account is
refused exactly when all entries are live.  Only live handles are accepted in exactly the
runs in which `account_free`, `account_update` and `account_balance` are given no entry whose
account is not live. -/
theorem live_handles_accepted_iff (R : MpackReader) (S : Sodium) {calls : List RegistryCall}
    {t : HandleState} (hrun : Run (HandleStep R S) .start calls t) :
    (t.live.Nodup ∧ ∀ publicB32 reply err slot accounts p,
      accountNew R publicB32 reply t.registry.accounts t.registry.provider =
          .ok (err, slot, accounts, p) →
        (slot = none ↔ t.live.length = accountsMaximumCount) ∧ (slot = none → err = .errorNoMem) ∧
          (err = .errorNoMem → slot = none ∨ reply.err = .errorNoMem) ∧
          ∀ i, slot = some i → i ∉ t.live) ∧
    ((∀ before call after u v, calls = before ++ call :: after →
        Run (HandleStep R S) .start before u → HandleStep R S u call v →
        call.Accepts u.registry → ∀ account, call.handle? = some account → account.IsLive u.live) ↔
      ∀ before call after u v, calls = before ++ call :: after →
        Run (HandleStep R S) .start before u → HandleStep R S u call v →
        ∀ i, call.takesEntry i → i ∈ u.live) := by
  have hconsistent : ∀ {calls u}, Run (HandleStep R S) .start calls u → u.Consistent :=
    fun hrun => hrun.invariant (P := HandleState.Consistent) (fun ht hs => ht.step hs)
      HandleState.consistent_start
  refine ⟨⟨(hconsistent hrun).nodup, fun _ _ _ _ _ _ h => (hconsistent hrun).accountNew h⟩, ?_, ?_⟩
  · intro h before call after u v hcalls hu hstep i htakes
    have haccepts : call.Accepts u.registry ∧ call.handle? = some (.mAccount i) := by
      rcases htakes with rfl | ⟨reply, rfl⟩ | rfl
      · exact ⟨rfl, rfl⟩
      · exact ⟨rfl, rfl⟩
      · exact ⟨rfl, rfl⟩
    obtain ⟨j, hj, hij⟩ := h before call after u v hcalls hu hstep haccepts.1 _ haccepts.2
    cases hij
    exact hj
  · intro h before call after u v hcalls hu hstep haccepts account hhandle
    have hkeep : ∀ (s : HandleState) (c : RegistryCall) (s' : HandleState), s.Consistent ∧ s.Tidy →
        (∀ i, c.takesEntry i → i ∈ s.live) → HandleStep R S s c s' → s'.Consistent ∧ s'.Tidy :=
      fun s c s' hs hok hst => ⟨hs.1.step hst, hst.effect.tidy hs.2 hok⟩
    have htidy : u.Consistent ∧ u.Tidy := by
      refine hu.preserves_at hkeep ?_ ⟨HandleState.consistent_start, HandleState.tidy_start⟩
      intro before' call' after' w x hsplit hw hwx
      refine h before' call' (after' ++ call :: after) w x ?_ hw hwx
      rw [hcalls, hsplit, List.append_assoc, List.cons_append]
    exact htidy.2.accepts (h before call after u v hcalls hu hstep) haccepts hhandle

end

/-! ## A handle used after it is freed -/

theorem HandleStep.deterministic {R : MpackReader} {S : Sodium} {t u v : HandleState}
    {call : RegistryCall} (h : HandleStep R S t call u) (h' : HandleStep R S t call v) : u = v := by
  obtain ⟨-, ⟨err, hu⟩, hlive⟩ := h
  obtain ⟨-, ⟨err', hv⟩, hlive'⟩ := h'
  obtain ⟨uregistry, ulive⟩ := u
  obtain ⟨vregistry, vlive⟩ := v
  obtain ⟨-, rfl⟩ := Prod.mk.inj (Except.ok.inj (hu.symm.trans hv))
  exact congrArg _ (hlive.trans hlive'.symm)

/-- The node answers with an application, 1. -/
def oneAppReply : HttpReply := ⟨[[0x81, 0xa4, 0x61, 0x70, 0x70, 0x6c, 0x81, 0x01, 0x80]], .success, 200⟩

/-- An account is created, its handle given to every function, and freed. -/
def usedHandle : List RegistryCall :=
  [.accountNew ⟨Vector.replicate _ 0, []⟩ oneAppReply, .accountUpdate (.mAccount 0) oneAppReply,
    .accountHasApp (.mAccount 0) 1, .accountBalance (.mAccount 0), .accountFree (.mAccount 0)]

/-- The handle is accepted by every function, and is live then. -/
theorem live_handles_accepted_iff_used :
    ∃ u t, Run (HandleStep formatReader oneSodium) .start (usedHandle.take 2) u ∧ u.live = [0] ∧
      (RegistryCall.accountHasApp (.mAccount 0) 1).Accepts u.registry ∧
      Run (HandleStep formatReader oneSodium) .start usedHandle t ∧ t.live = [] ∧
      ∀ before call after v w, usedHandle = before ++ call :: after →
        Run (HandleStep formatReader oneSodium) .start before v →
        HandleStep formatReader oneSodium v call w → call.Accepts v.registry →
        ∀ account, call.handle? = some account → account.IsLive v.live := by
  have hseen : (Registry.runAll formatReader oneSodium (usedHandle.take 2) .start >>= fun t =>
      accountHasApp (.mAccount 0) 1 t.accounts) = .ok true := by decide +kernel
  have hslot : handedOut formatReader .start ⟨Vector.replicate _ 0, []⟩ oneAppReply = some 0 := by
    decide +kernel
  obtain ⟨r₂, hrun, hseen⟩ := bind_eq_ok.mp hseen
  obtain ⟨⟨err₁, r₁⟩, h₁, hrun⟩ := bind_eq_ok.mp hrun
  obtain ⟨⟨err₂, r⟩, h₂, hrun⟩ := bind_eq_ok.mp hrun
  cases pure_eq_ok.mp hrun
  have h₃ : (RegistryCall.accountHasApp (.mAccount 0) 1).run formatReader oneSodium r₂ =
      .ok (.success, r₂) := bind_eq_ok.mpr ⟨true, hseen, rfl⟩
  -- the entry taken is live in each of the calls that are given its handle
  let ok : HandleState → RegistryCall → Prop := fun t call => ∀ i, call.takesEntry i → i ∈ t.live
  have hok : ∀ {call : RegistryCall} (r : Registry), (∀ i, call.handle? = some (.mAccount i) → i = 0) →
      ok ⟨r, [0]⟩ call := by
    intro call r hhandle i htakes
    rw [hhandle i (by rcases htakes with rfl | ⟨reply, rfl⟩ | rfl <;> rfl)]
    exact List.mem_singleton_self 0
  have hstep₁ : guard ok (HandleStep formatReader oneSodium) .start
      (.accountNew ⟨Vector.replicate _ 0, []⟩ oneAppReply) ⟨r₁, [0]⟩ := by
    refine ⟨fun i htakes => ?_, rfl, ⟨err₁, h₁⟩, ?_⟩
    · rcases htakes with htakes | ⟨reply, htakes⟩ | htakes <;> cases htakes
    · show [0] = (handedOut formatReader .start _ _).toList ++ []
      rw [hslot]
      rfl
  have hstep₂ : guard ok (HandleStep formatReader oneSodium) ⟨r₁, [0]⟩
      (.accountUpdate (.mAccount 0) oneAppReply) ⟨r₂, [0]⟩ :=
    ⟨hok r₁ (by rintro _ ⟨⟩; rfl), rfl, ⟨err₂, h₂⟩, rfl⟩
  have hstep₃ : guard ok (HandleStep formatReader oneSodium) ⟨r₂, [0]⟩
      (.accountHasApp (.mAccount 0) 1) ⟨r₂, [0]⟩ :=
    ⟨hok r₂ (by rintro _ ⟨⟩; rfl), rfl, ⟨.success, h₃⟩, rfl⟩
  have hstep₄ : guard ok (HandleStep formatReader oneSodium) ⟨r₂, [0]⟩
      (.accountBalance (.mAccount 0)) ⟨r₂, [0]⟩ :=
    ⟨hok r₂ (by rintro _ ⟨⟩; rfl), rfl, ⟨.success, rfl⟩, rfl⟩
  have hstep₅ : guard ok (HandleStep formatReader oneSodium) ⟨r₂, [0]⟩
      (.accountFree (.mAccount 0)) ⟨{ r₂ with accounts := r₂.accounts.set 0 .zero }, []⟩ :=
    ⟨hok r₂ (by rintro _ ⟨⟩; rfl), rfl, ⟨.success, rfl⟩, by rfl⟩
  have hguarded : Run (guard ok (HandleStep formatReader oneSodium)) .start usedHandle _ :=
    .cons hstep₁ (.cons hstep₂ (.cons hstep₃ (.cons hstep₄ (.single hstep₅))))
  have hused : Run (HandleStep formatReader oneSodium) .start usedHandle _ :=
    .cons hstep₁.2 (.cons hstep₂.2 (.cons hstep₃.2 (.cons hstep₄.2 (.single hstep₅.2))))
  refine ⟨_, _, .cons hstep₁.2 (.single hstep₂.2), rfl, hseen, hused, rfl, ?_⟩
  refine (live_handles_accepted_iff formatReader oneSodium hused).2.mpr ?_
  intro before call after v w hcalls hv _
  have hdet : ∀ s call t t', HandleStep formatReader oneSodium s call t →
      HandleStep formatReader oneSodium s call t' → t = t' := fun _ _ _ _ => HandleStep.deterministic
  exact hguarded.ok_at hdet before call after v hcalls hv

/-- An account is created, freed, and updated all the same. -/
def updateFreed : List RegistryCall :=
  [newOffline, .accountFree (.mAccount 0), .accountUpdate (.mAccount 0) oneAppReply]

/-- No handle is live, and that of the account is still accepted by every function: it even
has the application. -/
theorem freed_handle_accepted :
    ∃ t, Run (HandleStep formatReader oneSodium) .start updateFreed t ∧ t.live = [] ∧
      ¬ (AccountPtr.mAccount 0).IsLive t.live ∧
      (RegistryCall.accountFree (.mAccount 0)).Accepts t.registry ∧
      (RegistryCall.accountUpdate (.mAccount 0) oneAppReply).Accepts t.registry ∧
      (RegistryCall.accountBalance (.mAccount 0)).Accepts t.registry ∧
      (RegistryCall.accountHasApp (.mAccount 0) 1).Accepts t.registry := by
  have hseen : (Registry.runAll formatReader oneSodium updateFreed .start >>= fun t =>
      accountHasApp (.mAccount 0) 1 t.accounts) = .ok true := by decide +kernel
  have hslot : handedOut formatReader .start ⟨Vector.replicate _ 0, []⟩ ⟨[], .errorOffline, 0⟩ =
      some 0 := by decide +kernel
  obtain ⟨r₃, hrun, hseen⟩ := bind_eq_ok.mp hseen
  obtain ⟨⟨err₁, r₁⟩, h₁, hrun⟩ := bind_eq_ok.mp hrun
  obtain ⟨⟨err₂, r₂⟩, h₂, hrun⟩ := bind_eq_ok.mp hrun
  obtain ⟨⟨err₃, r⟩, h₃, hrun⟩ := bind_eq_ok.mp hrun
  cases pure_eq_ok.mp hrun
  have hlive : newOffline.liveAfter formatReader .start = [0] := by
    show (handedOut formatReader .start _ _).toList ++ [] = _
    rw [hslot]
    rfl
  have hstep₁ : HandleStep formatReader oneSodium .start newOffline ⟨r₁, [0]⟩ :=
    ⟨rfl, ⟨err₁, h₁⟩, hlive.symm⟩
  have hstep₂ : HandleStep formatReader oneSodium ⟨r₁, [0]⟩ (.accountFree (.mAccount 0)) ⟨r₂, []⟩ :=
    ⟨rfl, ⟨err₂, h₂⟩, by rfl⟩
  have hstep₃ : HandleStep formatReader oneSodium ⟨r₂, []⟩
      (.accountUpdate (.mAccount 0) oneAppReply) ⟨r₃, []⟩ := ⟨rfl, ⟨err₃, h₃⟩, rfl⟩
  refine ⟨⟨r₃, []⟩, .cons hstep₁ (.cons hstep₂ (.single hstep₃)), rfl, ?_, rfl, rfl, rfl, hseen⟩
  rintro ⟨i, hi, -⟩
  exact List.not_mem_nil hi

end Vertices
