/-
# `Vertices.OptIn` — when `transaction_appl` asks to opt in

`account_has_app` compares the handle with the entries of `m_accounts`.  The
`vtc_account` of a wallet account is a record of its own: it is found in no entry, and
whatever the node has said of it, the call asks to opt in.  For a public account the
answer is what its record lists, which is more than what was last fetched where an
earlier response had more, and less where the entries ran out, a byte slice came, or a key
in front of the applications is not known.
-/
import Vertices.AppListing
import Vertices.WalletSlots
import Vertices.Transaction

namespace Vertices

open MsgPack Transition

/-! ## What `on_complete` is set to -/

/-- `on_complete` in `transaction_appl`. -/
def setOnComplete (sender : AccountPtr) (appId : UInt64) (accounts : MAccounts) :
    Except Fault TxOnComplete :=
  (accountHasApp sender appId accounts).map applOnComplete

/-- The transaction `transaction_appl` hands to the encoder has this `on_complete`. -/
theorem transactionAppl_setOnComplete {c : Config} (env : Env) (sender : AccountPtr)
    (appId : UInt64) (params : Option AppValues) (reply : HttpReply) (s : Sdk c) :
    transactionAppl env sender appId params reply s =
      if s.Occupied s.mTxBufferIdx then return (.errorNoMem, s)
      else do
        let onComplete ← setOnComplete sender appId s.mAccounts
        let txFull := Transaction.new (sender.info s.mAccounts).publicKey none
          (.appl { appId := appId, onComplete := onComplete, keyValues := params })
        let (err, txFull, provider) ← providerTxParamsLoad env.cJSON_Parse s.mProvider reply txFull
        if paramsUsable err = false then return (err, s.loaded provider)
        else do
          let (err, slot) ← encodeTx env.writer txFull ((s.loaded provider).slot s.mTxBufferIdx)
          if err ≠ .success then return (err, (s.loaded provider).setSlot s.mTxBufferIdx slot)
          else return ((s.loaded provider).setSlot s.mTxBufferIdx slot).scheduleReadyToSign := by
  unfold transactionAppl
  split
  · rfl
  · have htaken : accountHasApp sender appId s.takeSlot.mAccounts =
        accountHasApp sender appId s.mAccounts := rfl
    dsimp only
    rw [htaken, setOnComplete]
    cases accountHasApp sender appId s.mAccounts <;> rfl

/-- `on_complete` is to opt in exactly for an application that is not among `ids`. -/
def OptsInAsNeeded (sender : AccountPtr) (accounts : MAccounts) (ids : List UInt64)
    (appId : UInt64) : Prop :=
  ∃ onComplete, setOnComplete sender appId accounts = .ok onComplete ∧
    (onComplete = .optIn ↔ appId ∉ ids)

theorem applOnComplete_eq_optIn {hasApp : Bool} : applOnComplete hasApp = .optIn ↔ hasApp = false := by
  cases hasApp <;> decide

/-- The loop finds what stands in the entries from `j` on. -/
theorem hasAppFrom_eq {d : AccountDetails} {appId : UInt64} (n : Nat) :
    ∀ {j : Nat}, j + n ≤ appsMaxCount → hasAppFrom d appId j n =
      .ok (decide (appId ∈ ((d.appsLocal.toList.drop j).take n).map AppsLocalState.appId)) := by
  induction n with
  | zero =>
      intro j _
      rfl
  | succ n ih =>
      intro j hj
      have hlt : j < appsMaxCount := by omega
      have hdrop : d.appsLocal.toList.drop j = d.appsLocal.get ⟨j, hlt⟩ :: d.appsLocal.toList.drop (j + 1) := by
        rw [List.drop_eq_getElem_cons (by rw [Vector.length_toList]; exact hlt), Vector.getElem_toList]
        rfl
      rw [hasAppFrom_succ, subscript_of_lt hlt, hdrop, List.take_succ_cons, List.map_cons]
      show (if (d.appsLocal.get ⟨j, hlt⟩).appId = appId then _ else _) = _
      split
      · next hid =>
          rw [decide_eq_true (List.mem_cons.mpr (.inl hid.symm))]
          rfl
      · next hid =>
          rw [ih (by omega)]
          congr 2
          rw [List.mem_cons, eq_comm (a := appId), or_iff_right hid]

/-- `account_has_app` looks through the ids of the record. -/
theorem accountHasApp_public {accounts : MAccounts} {i : Fin accountsMaximumCount}
    (hfits : (accounts.get i).account.Fits) (appId : UInt64) :
    accountHasApp (.mAccount i) appId accounts =
      .ok (decide (appId ∈ (accounts.get i).account.appIds)) := by
  have hfrom : hasAppFrom (accounts.get i).account appId 0 (accounts.get i).account.appIdx =
      .ok (decide (appId ∈ (((accounts.get i).account.appsLocal.toList.drop 0).take
        (accounts.get i).account.appIdx).map AppsLocalState.appId)) :=
    hasAppFrom_eq _ ((Nat.zero_add _).trans_le hfits.appIdx)
  rw [List.drop_zero] at hfrom
  exact hfrom

theorem optsInAsNeeded_public {accounts : MAccounts} {i : Fin accountsMaximumCount}
    (hfits : (accounts.get i).account.Fits) (ids : List UInt64) (appId : UInt64) :
    OptsInAsNeeded (.mAccount i) accounts ids appId ↔
      (appId ∈ (accounts.get i).account.appIds ↔ appId ∈ ids) := by
  have hset : setOnComplete (.mAccount i) appId accounts =
      .ok (applOnComplete (decide (appId ∈ (accounts.get i).account.appIds))) := by
    rw [setOnComplete, accountHasApp_public hfits]
    rfl
  have hopt : applOnComplete (decide (appId ∈ (accounts.get i).account.appIds)) = .optIn ↔
      appId ∉ (accounts.get i).account.appIds := by
    rw [applOnComplete_eq_optIn, decide_eq_false_iff_not]
  rw [OptsInAsNeeded, hset]
  constructor
  · rintro ⟨onComplete, hok, hneeded⟩
    cases hok
    exact not_iff_not.mp (hopt.symm.trans hneeded)
  · exact fun h => ⟨_, rfl, hopt.trans (not_congr h)⟩

/-- A wallet account always opts in. -/
theorem optsInAsNeeded_wallet (info : AccountInfo) (accounts : MAccounts) (ids : List UInt64)
    (appId : UInt64) : OptsInAsNeeded (.other info) accounts ids appId ↔ appId ∉ ids := by
  constructor
  · rintro ⟨onComplete, hok, hneeded⟩
    cases hok
    exact hneeded.mp rfl
  · exact fun h => ⟨.optIn, rfl, fun _ => h, fun _ => rfl⟩

/-! ## The records of the public accounts -/

section Records

variable {R : MpackReader} {S : Sodium}

theorem parserAccountMpack_fits {buf : List UInt8} {d d' : AccountDetails} {err : RetCode}
    (hd : d.Fits) (h : parserAccountMpack R buf d = .ok (err, d')) : d'.Fits := by
  have hroom : ∀ m ∈ accountCalls R buf d, ¬ m.NameWithoutRoom := by
    intro m hm hname
    rw [(parserAccountMpack_outOfBounds_iff hd).mpr ⟨m, hm, hname⟩] at h
    cases h
  exact (accountCalls_safe hd hroom).2 err d' h

/-- A fetch parses the body into the record, or leaves the record as it is. -/
theorem providerAccountInfoGet_cases {p p' : Provider} {reply : HttpReply} {d d' : AccountDetails}
    {err : RetCode} (h : providerAccountInfoGet R p reply d = .ok (err, d', p')) :
    err = reply.err ∧ ((err = .success ∧ ∃ code,
      parserAccountMpack R (p'.rxBuf.toList.take p'.responseSize) d = .ok (code, d')) ∨
      (err ≠ .success ∧ d' = d)) := by
  obtain ⟨p₁, -, h⟩ := bind_eq_ok.mp h
  split at h
  · next herr =>
      obtain ⟨⟨code, d₁⟩, hparse, h⟩ := bind_eq_ok.mp h
      obtain ⟨rfl, rfl, rfl⟩ := pure_eq_ok3.mp h
      exact ⟨rfl, .inl ⟨herr, code, hparse⟩⟩
  · next herr =>
      obtain ⟨rfl, rfl, rfl⟩ := pure_eq_ok3.mp h
      exact ⟨rfl, .inr ⟨herr, rfl⟩⟩

/-- The calls that neither fetch for the account `i` nor take its entry from it. -/
def RegistryCall.Spares (i : Fin accountsMaximumCount) : RegistryCall → Prop
  | .accountInit | .sWalletFree => False
  | .accountFree account => account ≠ .mAccount i
  | .accountUpdate account reply => account = .mAccount i → reply.err ≠ .success
  | _ => True

/-- What a call makes of the entry of a public account. -/
inductive EntryEffect (R : MpackReader) (t : Registry) (i : Fin accountsMaximumCount) :
    RegistryCall → LocalAccount → Prop
  | same {call : RegistryCall} : EntryEffect R t i call (t.accounts.get i)
  | zeroed {call : RegistryCall} (taken : ¬ call.Spares i) : EntryEffect R t i call .zero
  | created {publicB32 : B32Ptr} {reply : HttpReply} {info : AccountInfo} {err : RetCode}
      {d : AccountDetails} {p : Provider} (free : (t.accounts.get i).status = .none)
      (fetch : providerAccountInfoGet R t.provider reply
        { (t.accounts.get i).account with info := info } = .ok (err, d, p)) :
      EntryEffect R t i (.accountNew publicB32 reply) ⟨d, .added⟩
  | updated {reply : HttpReply} {err : RetCode} {d : AccountDetails} {p : Provider}
      (fetch : providerAccountInfoGet R t.provider reply (t.accounts.get i).account =
        .ok (err, d, p)) :
      EntryEffect R t i (.accountUpdate (.mAccount i) reply) { t.accounts.get i with account := d }

theorem RegistryEffect.entry {t t' : Registry} {call : RegistryCall} (h : RegistryEffect R S t call t')
    (i : Fin accountsMaximumCount) : EntryEffect R t i call (t'.accounts.get i) := by
  cases h with
  | accountInit =>
      have hentry : (Vertices.accountInit).get i = .zero := Vector.getElem_replicate _
      rw [hentry]
      exact .zeroed not_false
  | accountNew h =>
      unfold Vertices.accountNew at h
      split at h
      · cases pure_eq_ok.mp h
        exact .same
      · next j hfind =>
          obtain ⟨⟨err, d, p⟩, hget, h⟩ := bind_eq_ok.mp h
          cases pure_eq_ok.mp h
          rw [get_set]
          split
          · next hij =>
              obtain rfl : j = i := Fin.ext hij
              exact .created (findFree_eq_some.mp hfind).1 hget
          · exact .same
  | accountFree account =>
      cases account with
      | other _ => exact .same
      | mAccount j =>
          show EntryEffect R t i _ ((t.accounts.set j .zero).get i)
          rw [get_set]
          split
          · next hij =>
              obtain rfl : j = i := Fin.ext hij
              exact .zeroed (not_not.mpr rfl)
          · exact .same
  | @accountUpdate account _ _ _ _ h =>
      cases account with
      | other _ =>
          cases pure_eq_ok.mp h
          exact .same
      | mAccount j =>
          obtain ⟨⟨err, d, p⟩, hget, h⟩ := bind_eq_ok.mp h
          cases pure_eq_ok.mp h
          rw [get_set]
          split
          · next hij =>
              obtain rfl : j = i := Fin.ext hij
              exact .updated hget
          · exact .same
  | sWalletFree =>
      have hentry : (Vertices.sWalletFree t.accounts).2.get i =
          if i.val < secretAccountsMaximumCount then .zero else t.accounts.get i :=
        Vector.getElem_ofFn _
      rw [hentry]
      split
      · exact .zeroed not_false
      · exact .same
  | accountHasApp _ _ | accountBalance _ | sAccountInit | sAccountNew _ | sAccountExists _ _
  | sAccountGetByName _ _ | sAccountUpdate _ | sAccountLoad _ | sAccountSave _
  | verticesWalletLoad _ | sAccountFree _ | fileReplaced _ => exact .same

/-- What the zeroed record has, and every change of the generic part and every fetch
keeps, the records of all public accounts have. -/
theorem RegistryEffect.records {P : AccountDetails → Prop} (hzero : P .zero)
    (hinfo : ∀ d info, P d → P { d with info := info })
    (hfetch : ∀ p reply d err d' p', P d → providerAccountInfoGet R p reply d = .ok (err, d', p') →
      P d')
    {t t' : Registry} {call : RegistryCall} (h : RegistryEffect R S t call t')
    (ht : ∀ i, P (t.accounts.get i).account) : ∀ i, P (t'.accounts.get i).account := by
  intro i
  have hentry := h.entry i
  generalize t'.accounts.get i = entry at hentry ⊢
  cases hentry with
  | same => exact ht i
  | zeroed _ => exact hzero
  | created _ fetch => exact hfetch _ _ _ _ _ _ (hinfo _ _ (ht i)) fetch
  | updated fetch => exact hfetch _ _ _ _ _ _ (ht i) fetch

/-- Until its next fetch the entry of an account stays what it is. -/
theorem RegistryEffect.spares {t t' : Registry} {call : RegistryCall} {i : Fin accountsMaximumCount}
    (h : RegistryEffect R S t call t') (hspares : call.Spares i)
    (hadded : (t.accounts.get i).status = .added) : t'.accounts.get i = t.accounts.get i := by
  have hentry := h.entry i
  generalize t'.accounts.get i = entry at hentry ⊢
  cases hentry with
  | same => rfl
  | zeroed taken => exact absurd hspares taken
  | created free _ =>
      rw [free] at hadded
      cases hadded
  | updated fetch =>
      obtain ⟨rfl, ⟨hsuccess, -⟩ | ⟨-, rfl⟩⟩ := providerAccountInfoGet_cases fetch
      · exact absurd hsuccess (hspares rfl)
      · rfl

/-- In every run the counters of the public accounts fit. -/
theorem registry_fits {calls : List RegistryCall} {t : Registry}
    (hrun : Run (RegistryStep R S) .start calls t) (i : Fin accountsMaximumCount) :
    (t.accounts.get i).account.Fits := by
  have hfetch : ∀ p reply d err d' p', AccountDetails.Fits d →
      providerAccountInfoGet R p reply d = .ok (err, d', p') → d'.Fits := by
    intro p reply d err d' p' hd h
    obtain ⟨-, ⟨-, code, hparse⟩ | ⟨-, rfl⟩⟩ := providerAccountInfoGet_cases h
    · exact parserAccountMpack_fits hd hparse
    · exact hd
  have hstep : ∀ {t t' : Registry} {call : RegistryCall},
      (∀ i, (t.accounts.get i).account.Fits) → RegistryStep R S t call t' →
      ∀ i, (t'.accounts.get i).account.Fits := fun ht hs =>
    hs.effect.records .zero (fun _ _ => fits_info.mpr) hfetch ht
  exact hrun.invariant (P := fun t => ∀ i, (t.accounts.get i).account.Fits) (fun ht hs => hstep ht hs)
    accountInit_fits i

end Records

/-! ## The last fetch -/

/-- The node's answer is `acc`, fetched for the public account `i` that was handed out, and
these are the accounts after. -/
inductive Fetched (R : MpackReader) (t : Registry) (i : Fin accountsMaximumCount)
    (acc : AccountInformation) : MAccounts → Prop
  | new {publicB32 : B32Ptr} {reply : HttpReply} {accounts : MAccounts} {p : Provider}
      {rest : List UInt8}
      (call : accountNew R publicB32 reply t.accounts t.provider = .ok (.success, some i, accounts, p))
      (body : Reads (p.rxBuf.toList.take p.responseSize) [acc.value] rest) :
      Fetched R t i acc accounts
  | update {reply : HttpReply} {accounts : MAccounts} {p : Provider} {rest : List UInt8}
      (added : (t.accounts.get i).status = .added)
      (call : accountUpdate R (.mAccount i) reply t.accounts t.provider = .ok (.success, accounts, p))
      (body : Reads (p.rxBuf.toList.take p.responseSize) [acc.value] rest) :
      Fetched R t i acc accounts

/-- The application ids of the account. -/
def AccountInformation.ids (acc : AccountInformation) : List UInt64 := acc.states.map LocalState.id

section LastFetch

variable {R : MpackReader} (hR : R.Lawful) {t : Registry} {i : Fin accountsMaximumCount}
  {acc : AccountInformation} {accounts : MAccounts}

include hR

omit hR in
/-- A fetch parses the answer into the record of the account. -/
theorem Fetched.parses (h : Fetched R t i acc accounts) : ∃ info reply d p rest,
    providerAccountInfoGet R t.provider reply { (t.accounts.get i).account with info := info } =
      .ok (.success, d, p) ∧
    Reads (p.rxBuf.toList.take p.responseSize) [acc.value] rest ∧ accounts.get i = ⟨d, .added⟩ := by
  cases h with
  | new call body =>
      unfold accountNew at call
      split at call
      · cases pure_eq_ok.mp call
      · obtain ⟨⟨err, d, p'⟩, hget, call⟩ := bind_eq_ok.mp call
        cases pure_eq_ok.mp call
        exact ⟨_, _, d, _, _, hget, body, get_set_self _ _ _⟩
  | update added call body =>
      obtain ⟨⟨err, d, p'⟩, hget, call⟩ := bind_eq_ok.mp call
      cases pure_eq_ok.mp call
      refine ⟨(t.accounts.get i).account.info, _, d, _, _, hget, body, ?_⟩
      rw [get_set_self]
      exact congrArg (LocalAccount.mk d) added

/-- The record after a fetch lists what it listed before, and the new ids it takes. -/
theorem Fetched.appIds (h : Fetched R t i acc accounts) (hplain : acc.HasSlice → acc.Plain)
    (hfits : (t.accounts.get i).account.Fits) :
    (accounts.get i).account.Fits ∧
      (accounts.get i).account.appIds = acc.listAfter (t.accounts.get i).account.appIds := by
  obtain ⟨info, reply, d, p, rest, hget, hbody, hentry⟩ := h.parses
  obtain ⟨-, ⟨-, code, hparse⟩ | ⟨hne, -⟩⟩ := providerAccountInfoGet_cases hget
  · have hids := parserAccountMpack_appIds hR hplain hbody (fits_info.mpr hfits) hparse
    rw [hentry]
    exact ⟨parserAccountMpack_fits (fits_info.mpr hfits) hparse, hids⟩
  · exact absurd rfl hne

omit hR in
/-- The account is one that was handed out. -/
theorem Fetched.added (h : Fetched R t i acc accounts) : (accounts.get i).status = .added := by
  obtain ⟨_, _, d, _, _, -, -, hentry⟩ := h.parses
  exact congrArg LocalAccount.status hentry

omit hR in
theorem spares_run {S : Sodium} {t₁ t₂ : Registry} {later : List RegistryCall}
    (hlater : ∀ call ∈ later, call.Spares i) (hrun : Run (RegistryStep R S) t₁ later t₂)
    (hadded : (t₁.accounts.get i).status = .added) : t₂.accounts.get i = t₁.accounts.get i := by
  have hstep : ∀ t call t', t.accounts.get i = t₁.accounts.get i → call.Spares i →
      RegistryStep R S t call t' → t'.accounts.get i = t₁.accounts.get i := by
    intro t call t' ht hspares hstep
    rw [hstep.effect.spares hspares (by rw [ht]; exact hadded), ht]
  exact hrun.preserves hstep hlater rfl

/-- **A wallet account opts in as needed only where it has not opted in.**  A public
account does so exactly for the applications that are both listed in its record and
among those last fetched, or neither. -/
theorem opt_in_as_needed_iff (S : Sodium) :
    (∀ info accounts ids appId, OptsInAsNeeded (.other info) accounts ids appId ↔ appId ∉ ids) ∧
      ∀ {calls : List RegistryCall} {t : Registry}, Run (RegistryStep R S) .start calls t →
        ∀ {i acc accounts}, Fetched R t i acc accounts → (acc.HasSlice → acc.Plain) →
          ∀ {t₁ t₂ : Registry} {later : List RegistryCall}, t₁.accounts = accounts →
            (∀ call ∈ later, call.Spares i) → Run (RegistryStep R S) t₁ later t₂ → ∀ appId,
              (OptsInAsNeeded (.mAccount i) t₂.accounts acc.ids appId ↔
                (appId ∈ ((t.accounts.get i).account.appIds ++ acc.takenIds).take appsMaxCount ↔
                  appId ∈ acc.ids)) := by
  refine ⟨optsInAsNeeded_wallet, ?_⟩
  rintro calls t hrun i acc _ hfetched hplain t₁ t₂ later rfl hspares hlater appId
  have hsame : t₂.accounts.get i = t₁.accounts.get i := spares_run hspares hlater hfetched.added
  obtain ⟨hfits, hids⟩ := hfetched.appIds hR hplain (registry_fits hrun i)
  rw [← hsame] at hfits hids
  rw [optsInAsNeeded_public hfits, hids]
  rfl

end LastFetch

/-! ## Two applications -/

/-- The application 7 with an integer variable, the application 8 with a byte slice, and a
key the parser does not know. -/
def twoApps : AccountInformation where
  before := [.field (.algo 5)]
  localStates := some [⟨7, none, some [⟨lit "k", 2, .int 9, true⟩], true⟩,
    ⟨8, none, some [⟨lit "k", 1, .slice (lit "v") false, false⟩], true⟩]
  after := [.unknown assetPair]

def twoAppsBuffer : List UInt8 :=
  [0x83, 0xa4] ++ lit "algo" ++ [0x05, 0xa4] ++ lit "appl" ++
    [0x82, 0x07, 0x81, 0xa3] ++ lit "tkv" ++
      [0x81, 0xa1] ++ lit "k" ++ [0x82, 0xa2] ++ lit "tt" ++ [0x02, 0xa2] ++ lit "ui" ++ [0x09] ++
    [0x08, 0x81, 0xa3] ++ lit "tkv" ++
      [0x81, 0xa1] ++ lit "k" ++ [0x82, 0xa2] ++ lit "tb" ++ [0xa1] ++ lit "v" ++ [0xa2] ++ lit "tt" ++ [0x01] ++
    [0xa5] ++ lit "asset" ++ [0x80]

/-- The account of the zero key is fetched, and has these applications. -/
def newWithApps : RegistryCall :=
  .accountNew ⟨Vector.replicate _ 0, []⟩ ⟨[twoAppsBuffer], .success, 200⟩

theorem reads_twoApps : Reads twoAppsBuffer [twoApps.value] [] := decode_eq_some_iff.mp (by rfl)

theorem twoApps_plain : twoApps.Plain where
  states state hstate v hv := by
    simp only [twoApps, AccountInformation.states, Option.getD_some, List.mem_cons,
      List.not_mem_nil, or_false] at hstate
    rcases hstate with rfl | rfl
    · cases List.mem_singleton.mp hv
      exact ⟨by decide, fun _ _ hval => nomatch hval⟩
    · cases List.mem_singleton.mp hv
      refine ⟨by decide, fun tb binary hval => ?_⟩
      cases hval
      decide
  after p hp := by
    cases List.mem_singleton.mp hp
    exact .map (List.forall_mem_nil _)

/-- Of the applications just fetched, the one with the byte slice is opted in to again. -/
theorem opt_in_as_needed_iff_two_apps :
    ∃ accounts, Fetched formatReader .start 0 twoApps accounts ∧
      OptsInAsNeeded (.mAccount 0) accounts twoApps.ids 7 ∧
      ¬ OptsInAsNeeded (.mAccount 0) accounts twoApps.ids 8 := by
  have hseen : (accountNew formatReader ⟨Vector.replicate _ 0, []⟩ ⟨[twoAppsBuffer], .success, 200⟩
      accountInit .zero).map (fun r => (r.1, r.2.1,
        r.2.2.2.rxBuf.toList.take r.2.2.2.responseSize)) = .ok (.success, some 0, twoAppsBuffer) := by
    decide +kernel
  cases hnew : accountNew formatReader ⟨Vector.replicate _ 0, []⟩ ⟨[twoAppsBuffer], .success, 200⟩
      accountInit .zero with
  | error f =>
      rw [hnew] at hseen
      cases hseen
  | ok r =>
      obtain ⟨err, slot, accounts, p⟩ := r
      rw [hnew] at hseen
      simp only [Except.map, Except.ok.injEq, Prod.mk.injEq] at hseen
      obtain ⟨rfl, rfl, hbody⟩ := hseen
      have hreads : Reads (p.rxBuf.toList.take p.responseSize) [twoApps.value] [] := by
        rw [hbody]
        exact reads_twoApps
      have hfetched : Fetched formatReader .start 0 twoApps accounts := .new hnew hreads
      have hlater : Run (RegistryStep formatReader oneSodium)
          { Registry.start with accounts := accounts } [] { Registry.start with accounts := accounts } :=
        .nil _
      have hneeded : ∀ appId, OptsInAsNeeded (.mAccount 0) accounts twoApps.ids appId ↔
          (appId ∈ ([] ++ twoApps.takenIds).take appsMaxCount ↔ appId ∈ twoApps.ids) :=
        (opt_in_as_needed_iff formatReader_lawful oneSodium).2 (.nil _) hfetched
          (fun _ => twoApps_plain) (by rfl) (List.forall_mem_nil _) hlater
      exact ⟨accounts, hfetched, (hneeded 7).mpr (by decide), mt (hneeded 8).mp (by decide)⟩

/-- A wallet account opts in to an application it has.  A public account does not opt in to
one it had before the last fetch. -/
theorem opt_in_against_information :
    ¬ OptsInAsNeeded (.other AccountDetails.zero.info) accountInit twoApps.ids 7 ∧
      ∃ t accounts, Run (RegistryStep formatReader oneSodium) .start [newWithApps] t ∧
        Fetched formatReader t 0 ⟨[], none, []⟩ accounts ∧
        ¬ OptsInAsNeeded (.mAccount 0) accounts (AccountInformation.ids ⟨[], none, []⟩) 7 := by
  constructor
  · rintro ⟨onComplete, hset, hneeded⟩
    cases hset
    exact absurd (hneeded.mp rfl) (by decide)
  · -- an answer without local states, after one with an application
    have hseen : (do
        let new ← newWithApps.run formatReader oneSodium .start
        let updated ← accountUpdate formatReader (.mAccount 0) ⟨[[0x80]], .success, 200⟩ new.2.accounts
          new.2.provider
        let onComplete ← setOnComplete (.mAccount 0) 7 updated.2.1
        return ((updated.1, (new.2.accounts.get 0).status),
          updated.2.2.rxBuf.toList.take updated.2.2.responseSize, onComplete)) =
        Except.ok ((RetCode.success, AccountStatus.added), [0x80], TxOnComplete.noop) := by
      decide +kernel
    obtain ⟨⟨err₁, t⟩, hnew, hseen⟩ := bind_eq_ok.mp hseen
    obtain ⟨⟨err₂, accounts, p⟩, hupdate, hseen⟩ := bind_eq_ok.mp hseen
    obtain ⟨onComplete, hset, hseen⟩ := bind_eq_ok.mp hseen
    obtain ⟨hcode, hbody, rfl⟩ := pure_eq_ok3.mp hseen
    obtain ⟨rfl, hadded⟩ := Prod.mk.inj hcode
    have hempty : Reads [0x80] [AccountInformation.value ⟨[], none, []⟩] [] :=
      decode_eq_some_iff.mp (by rfl)
    have hreads : Reads (p.rxBuf.toList.take p.responseSize)
        [AccountInformation.value ⟨[], none, []⟩] [] := by
      rw [hbody]
      exact hempty
    refine ⟨t, accounts, .single ⟨err₁, hnew⟩, .update hadded hupdate hreads, ?_⟩
    · rintro ⟨onComplete, hset', hneeded⟩
      cases hset.symm.trans hset'
      exact absurd (hneeded.mpr (by decide)) (by decide)

end Vertices
