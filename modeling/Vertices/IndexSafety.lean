/-
# `Vertices.IndexSafety` — the subscripts of the account parser

Two counters index the arrays of a record: `app_idx`, which grows at the end of an
application, and `key_values.count`, which grows at the end of a variable.  Neither end
is checked; what keeps the counters in range is how the steps follow one another: an
application is entered only below `APPS_MAX_COUNT`, and a variable only by its name.

    `AccountParser.Fits`       the counters fit the arrays, with room in an application
                               or a variable being read
    `Made.NameWithoutRoom`     the one call that leaves the arrays: the check of a name is
                               made, its error noted, and the name written all the same

Every callback keeps `Fits`, but for that call.  The record a wallet account is fetched
into comes from the stack, and nothing makes it fit.
-/
import Vertices.CallRecord
import Vertices.Account
import Vertices.Lib.Transition

namespace Vertices

open Transition

/-! ## The invariant -/

/-- The counters of a record fit its arrays. -/
structure AccountDetails.Fits (d : AccountDetails) : Prop where
  appIdx : d.appIdx ≤ appsMaxCount
  kvCount : ∀ a : Fin appsMaxCount, d.appsLocal[a].keyValues.count ≤ appsKvMaxCount

theorem AccountDetails.Fits.zero : AccountDetails.zero.Fits where
  appIdx := Nat.zero_le _
  kvCount a := by simp [AccountDetails.zero, AppValues.zero]

/-- A step inside a variable. -/
def ParserAccountStep.inVar : ParserAccountStep → Bool
  | .appKvVar | .appKvType | .appKvValueInt | .appKvValueSlice => true
  | _ => false

/-- A step inside an application. -/
def ParserAccountStep.inApp : ParserAccountStep → Bool
  | .applId | .appSch | .appSchNui | .appSchNbs | .appKv => true
  | step => step.inVar

/-- The counters fit, and where the step is inside an application or a variable they
leave room for it. -/
structure AccountParser.Fits (s : AccountParser) : Prop where
  account : s.account.Fits
  app : s.step.inApp = true → s.account.appIdx < appsMaxCount
  var : s.step.inVar = true → ∀ a : Fin appsMaxCount, a.val = s.account.appIdx →
    s.kvCount a < appsKvMaxCount

/-- A string at the step that takes the name of a variable, and the application has all
the variables there is room for. -/
structure Made.NameWithoutRoom (m : Made AccountParser) : Prop where
  string : m.event.isString = true
  step : m.before.step = .appKv
  full : ∃ a : Fin appsMaxCount, a.val = m.before.account.appIdx ∧
    appsKvMaxCount ≤ m.before.kvCount a

instance : DecidablePred Made.NameWithoutRoom := fun m =>
  decidable_of_iff (m.event.isString = true ∧ m.before.step = .appKv ∧
      ∃ a : Fin appsMaxCount, a.val = m.before.account.appIdx ∧
        appsKvMaxCount ≤ m.before.kvCount a)
    ⟨fun ⟨hs, hstep, hfull⟩ => ⟨hs, hstep, hfull⟩, fun ⟨hs, hstep, hfull⟩ => ⟨hs, hstep, hfull⟩⟩

/-! ## What the callbacks change -/

namespace AccountParser

variable {s : AccountParser} {a : Fin appsMaxCount}

theorem app_eq_ok (h : s.account.appIdx < appsMaxCount) : s.app = .ok ⟨s.account.appIdx, h⟩ :=
  subscript_of_lt h

@[simp] theorem goto_account (step : ParserAccountStep) : (s.goto step).account = s.account := rfl

@[simp] theorem goto_step (step : ParserAccountStep) : (s.goto step).step = step := rfl

@[simp] theorem goto_kvCount (step : ParserAccountStep) (b : Fin appsMaxCount) :
    (s.goto step).kvCount b = s.kvCount b := rfl

@[simp] theorem modifyApp_appIdx (f : AppsLocalState → AppsLocalState) :
    (s.modifyApp a f).account.appIdx = s.account.appIdx := rfl

@[simp] theorem modifyValue_appIdx (idx : Fin appsKvMaxCount) (f : AppKeyValue → AppKeyValue) :
    (s.modifyValue a idx f).account.appIdx = s.account.appIdx := rfl

/-- A change of the application that adds `n` to its count. -/
theorem modifyApp_kvCount {f : AppsLocalState → AppsLocalState} {n : Nat}
    (hf : ∀ app, (f app).keyValues.count = app.keyValues.count + n) (b : Fin appsMaxCount) :
    (s.modifyApp a f).kvCount b = if b = a then s.kvCount a + n else s.kvCount b := by
  rw [kvCount, modifyApp, Fin.getElem_fin, Vector.getElem_set]
  by_cases h : b = a
  · rw [if_pos h, if_pos (congrArg Fin.val h.symm), hf]
    rfl
  · rw [if_neg h, if_neg (fun hv => h (Fin.ext hv.symm))]
    rfl

@[simp] theorem modifyValue_kvCount (idx : Fin appsKvMaxCount) (f : AppKeyValue → AppKeyValue)
    (b : Fin appsMaxCount) : (s.modifyValue a idx f).kvCount b = s.kvCount b := by
  rw [modifyValue, modifyApp_kvCount (n := 0)]
  · split
    · next h => rw [h, Nat.add_zero]
    · rfl
  · exact fun _ => rfl

/-- Counters as before, and room where the new step needs it. -/
theorem Fits.of_counts {s' : AccountParser} (h : s.Fits)
    (hidx : s'.account.appIdx = s.account.appIdx) (hkv : ∀ b, s'.kvCount b = s.kvCount b)
    (happ : s'.step.inApp = true → s.account.appIdx < appsMaxCount)
    (hvar : s'.step.inVar = true → ∀ a : Fin appsMaxCount, a.val = s.account.appIdx →
      s.kvCount a < appsKvMaxCount) : s'.Fits where
  account := by
    refine ⟨hidx ▸ h.account.appIdx, fun b => ?_⟩
    have hb : s.kvCount b ≤ appsKvMaxCount := h.account.kvCount b
    rw [← hkv b] at hb
    exact hb
  app hstep := hidx ▸ happ hstep
  var hstep b hb := by
    rw [hkv b]
    exact hvar hstep b (hb.trans hidx)

/-- No step inside an application: nothing to ask but of the record. -/
theorem Fits.outside {step : ParserAccountStep} {d : AccountDetails} (hd : d.Fits)
    (hstep : step.inApp = false) (hvar : step.inVar = false) : Fits ⟨step, d⟩ where
  account := hd
  app h := nomatch hstep.symm.trans h
  var h := nomatch hvar.symm.trans h

end AccountParser

/-! ## Every callback keeps the invariant -/

/-- The call stays inside the arrays, and so will the next. -/
structure StaysFit (result : Except Fault (RetCode × AccountParser)) : Prop where
  inRange : result ≠ .error .outOfBounds
  fits : ∀ err s, result = .ok (err, s) → s.Fits

section Callbacks

variable {s : AccountParser}

theorem StaysFit.pure {err : RetCode} (h : s.Fits) : StaysFit (pure (err, s)) where
  inRange := nofun
  fits _ _ hs := by
    cases pure_eq_ok.mp hs
    exact h

theorem StaysFit.nullDeref : StaysFit (throw .nullDeref) where
  inRange := nofun
  fits _ _ hs := absurd hs (throw_ne_ok _ _)

theorem lookupKey_staysFit {step : ParserAccountStep} {d : AccountDetails}
    {data : Option (List UInt8)} {length : Nat} {keys : List (String × ParserAccountStep)}
    {unknown : RetCode} (h : AccountParser.Fits ⟨step, d⟩)
    (hkeys : ∀ found ∈ keys.map Prod.snd, (found.inApp = true → step.inApp = true) ∧
      (found.inVar = true → step.inVar = true)) :
    StaysFit (lookupKey ⟨step, d⟩ data length keys unknown) := by
  cases data with
  | none => exact .nullDeref
  | some data =>
      rw [lookupKey]
      split
      · next found hfound =>
          obtain ⟨happ, hvar⟩ := hkeys found (matchKey_mem hfound)
          exact .pure (h.of_counts rfl (fun _ => rfl) (fun hs => h.app (happ hs))
            fun hs => h.var (hvar hs))
      · exact .pure h

theorem storeValue_staysFit {f : AppKeyValue → AppKeyValue} (h : s.Fits) (happ : s.step.inApp = true)
    (hvar : s.step.inVar = true) : StaysFit (storeValue s f) := by
  have hroom := h.var hvar ⟨s.account.appIdx, h.app happ⟩ rfl
  have hs : storeValue s f = pure (.success,
      (s.modifyValue ⟨s.account.appIdx, h.app happ⟩ ⟨_, hroom⟩ f).goto .appKvVar) := by
    rw [storeValue, s.app_eq_ok (h.app happ)]
    show (if appsKvMaxCount < s.kvCount _ then _ else _) = _
    rw [if_neg (Nat.not_lt.mpr hroom.le), subscript_of_lt hroom]
    rfl
  rw [hs]
  exact .pure (h.of_counts (by simp) (by simp) (fun _ => h.app happ) fun _ => h.var hvar)

theorem uintElement_staysFit {value : UInt64} (h : s.Fits) : StaysFit (uintElement s value) := by
  obtain ⟨step, d⟩ := s
  cases step with
  | algo | ebase | ern =>
      exact .pure (.outside ⟨h.account.appIdx, h.account.kvCount⟩ rfl rfl)
  | appl =>
      show StaysFit (if d.appIdx < appsMaxCount then _ else _)
      split
      · next hlt =>
          rw [AccountParser.app_eq_ok hlt]
          refine .pure (h.of_counts (by simp) (fun b => ?_) (fun _ => hlt) nofun)
          rw [AccountParser.goto_kvCount, AccountParser.modifyApp_kvCount (n := 0)]
          · split
            · next hb => rw [hb, Nat.add_zero]
            · rfl
          · exact fun _ => rfl
      · exact .pure h
  | appKvType | appKvValueInt => exact storeValue_staysFit h rfl rfl
  | appSchNui | appSchNbs =>
      exact .pure (h.of_counts rfl (fun _ => rfl) (fun _ => h.app rfl) nofun)
  | _ => exact .pure h

theorem finishMap_staysFit (h : s.Fits) : StaysFit (finishMap s) := by
  obtain ⟨step, d⟩ := s
  cases step with
  | appKvVar =>
      have hroom := h.var rfl ⟨d.appIdx, h.app rfl⟩ rfl
      show StaysFit (AccountParser.app _ >>= _)
      rw [AccountParser.app_eq_ok (h.app rfl)]
      refine .pure ⟨⟨h.account.appIdx, fun b => ?_⟩, fun _ => h.app rfl, nofun⟩
      show AccountParser.kvCount _ b ≤ _
      rw [AccountParser.goto_kvCount, AccountParser.modifyApp_kvCount (n := 1)]
      · split
        · exact hroom
        · exact h.account.kvCount b
      · exact fun _ => rfl
  | appKv | appSch =>
      exact .pure (h.of_counts rfl (fun _ => rfl) (fun _ => h.app rfl) nofun)
  | applId => exact .pure (.outside ⟨h.app rfl, h.account.kvCount⟩ rfl rfl)
  | _ => exact .pure (.outside h.account rfl rfl)

theorem stringElement_staysFit {data : Option (List UInt8)} {length : Nat} (h : s.Fits)
    (hroom : ¬ Made.NameWithoutRoom ⟨.string data length, s⟩) :
    StaysFit (stringElement s data length) := by
  obtain ⟨step, d⟩ := s
  cases step with
  | root | applId | appSch | appKvVar | tsch =>
      exact lookupKey_staysFit h (by decide)
  | appKv =>
      have happ := h.app rfl
      have hlt : AccountParser.kvCount ⟨.appKv, d⟩ ⟨d.appIdx, happ⟩ < appsKvMaxCount :=
        Nat.lt_of_not_le fun hle => hroom ⟨rfl, rfl, ⟨d.appIdx, happ⟩, rfl, hle⟩
      show StaysFit (AccountParser.app _ >>= _)
      rw [AccountParser.app_eq_ok happ]
      show StaysFit (subscript appsKvMaxCount _ >>= _)
      rw [subscript_of_lt hlt]
      cases data with
      | none => exact .nullDeref
      | some data =>
          refine .pure (h.of_counts (by simp) (by simp) (fun _ => happ) fun _ a ha => ?_)
          rw [show a = ⟨d.appIdx, happ⟩ from Fin.ext ha]
          exact hlt
  | _ => exact .pure h

/-- Every callback keeps the invariant, unless it is given a name without room. -/
theorem handle_staysFit {event : Event} (h : s.Fits)
    (hroom : ¬ Made.NameWithoutRoom ⟨event, s⟩) : StaysFit (accountCallbacks.handle event s) := by
  cases event with
  | uint value => exact uintElement_staysFit h
  | string data length => exact stringElement_staysFit h hroom
  | finishMap => exact finishMap_staysFit h
  | nil | bool _ | int _ | startMap _ | startArray _ | finishArray => exact .pure h

end Callbacks

/-- A name without room is written past the array. -/
theorem Made.NameWithoutRoom.outOfBounds {m : Made AccountParser} (h : m.NameWithoutRoom) :
    accountCallbacks.handle m.event m.before = .error .outOfBounds := by
  obtain ⟨event, s⟩ := m
  obtain ⟨hevent, hstep, a, ha, hfull⟩ := h
  dsimp only at hevent hstep ha hfull
  have hsub : subscript appsKvMaxCount (s.kvCount a) = .error .outOfBounds := by
    rw [subscript, dif_neg (Nat.not_lt.mpr hfull)]
  have happ : s.app = .ok a := subscript_eq_ok.mpr ha
  cases event with
  | string data length =>
      show stringElement s data length = _
      rw [stringElement, hstep]
      show (s.app >>= _) = _
      rw [happ]
      show (subscript appsKvMaxCount (s.kvCount a) >>= _) = _
      rw [hsub]
      rfl
  | _ => exact nomatch hevent

/-! ## Parses of one record -/

section Parses

variable {R : MpackReader}

/-- A call that stays inside the arrays, from a record whose counters fit to one whose
counters fit. -/
structure Made.Safe (m : Made AccountParser) : Prop where
  inRange : accountCallbacks.handle m.event m.before ≠ .error .outOfBounds
  before : m.before.account.Fits
  after : ∀ err s, accountCallbacks.handle m.event m.before = .ok (err, s) → s.account.Fits

/-- The calls of a parse of an account. -/
def accountCalls (R : MpackReader) (buf : List UInt8) (d : AccountDetails) :
    List (Made AccountParser) :=
  madeCalls R accountCallbacks buf ⟨.root, d⟩

/-- With room for every name, every call is safe, and the record fits again. -/
theorem accountCalls_safe {buf : List UInt8} {d : AccountDetails} (hd : d.Fits)
    (hroom : ∀ m ∈ accountCalls R buf d, ¬ m.NameWithoutRoom) :
    (∀ m ∈ accountCalls R buf d, m.Safe) ∧
      ∀ err d', parserAccountMpack R buf d = .ok (err, d') → d'.Fits := by
  have hcb : ∀ event s err s', AccountParser.Fits s → ¬ Made.NameWithoutRoom ⟨event, s⟩ →
      accountCallbacks.handle event s = .ok (err, s') → s'.Fits := fun _ _ _ _ hs hr =>
    (handle_staysFit hs hr).fits _ _
  have hstart : AccountParser.Fits ⟨.root, d⟩ := .outside hd rfl rfl
  obtain ⟨hbefore, hend⟩ := parse_invariant hcb hstart hroom
  constructor
  · intro m hm
    obtain ⟨hrange, hfits⟩ := handle_staysFit (hbefore m hm) (hroom m hm)
    exact ⟨hrange, (hbefore m hm).account, fun err s hs => (hfits err s hs).account⟩
  · intro err d' h
    obtain ⟨⟨err', reader, s'⟩, hparse, h⟩ := bind_eq_ok.mp h
    obtain ⟨-, rfl⟩ := pure_eq_ok2.mp h
    exact (hend _ _ _ hparse).account

/-- The parse leaves the arrays exactly when a name comes without room. -/
theorem parserAccountMpack_outOfBounds_iff {buf : List UInt8} {d : AccountDetails} (hd : d.Fits) :
    parserAccountMpack R buf d = .error .outOfBounds ↔
      ∃ m ∈ accountCalls R buf d, m.NameWithoutRoom := by
  have hparse : parserAccountMpack R buf d = .error .outOfBounds ↔
      parseElement R accountCallbacks 32 (mpackReaderInitData buf) ⟨.root, d⟩ = .error .outOfBounds := by
    rw [parserAccountMpack]
    cases parseElement R accountCallbacks 32 (mpackReaderInitData buf) ⟨.root, d⟩ with
    | error f =>
        constructor <;>
          · intro h
            cases h
            rfl
    | ok p => exact ⟨nofun, nofun⟩
  rw [hparse, parse_error_iff]
  constructor
  · rintro ⟨m, hm, herr⟩
    by_contra hno
    have hroom : ∀ m ∈ accountCalls R buf d, ¬ m.NameWithoutRoom := fun m hm hname =>
      hno ⟨m, hm, hname⟩
    exact ((accountCalls_safe hd hroom).1 m hm).inRange herr
  · rintro ⟨m, hm, hname⟩
    exact ⟨m, hm, hname.outOfBounds⟩

/-- The calls of parses one after the other into the same record; a fault ends them. -/
def parsesCalls (R : MpackReader) : List (List UInt8) → AccountDetails → List (Made AccountParser)
  | [], _ => []
  | buf :: bufs, d =>
      accountCalls R buf d ++
        match parserAccountMpack R buf d with
        | .ok (_, d') => parsesCalls R bufs d'
        | .error _ => []

theorem parsesCalls_safe : ∀ {bufs : List (List UInt8)} {d : AccountDetails}, d.Fits →
    (∀ m ∈ parsesCalls R bufs d, ¬ m.NameWithoutRoom) → ∀ m ∈ parsesCalls R bufs d, m.Safe := by
  intro bufs
  induction bufs with
  | nil =>
      intro d _ _
      exact List.forall_mem_nil _
  | cons buf bufs ih =>
      intro d hd hroom
      rw [parsesCalls, List.forall_mem_append] at hroom ⊢
      obtain ⟨hsafe, hfits⟩ := accountCalls_safe hd hroom.1
      refine ⟨hsafe, ?_⟩
      have hrest := hroom.2
      split
      · next err d' hparse =>
          rw [hparse] at hrest
          exact ih (hfits err d' hparse) hrest
      · exact List.forall_mem_nil _

end Parses

/-! ## The callers -/

/-- The tables of accounts, and the provider. -/
structure Tables where
  accounts : MAccounts
  wallet : SAccounts
  provider : Provider

/-- The functions that change the tables, with what they are called with.  `stack` is
what the memory of the local `accountDetails` holds, `loaded` what the wallet's file makes
of the table. -/
inductive AccountCall where
  | accountInit
  | accountNew (publicB32 : B32Ptr) (reply : HttpReply)
  | accountFree (account : AccountPtr)
  | accountUpdate (account : AccountPtr) (reply : HttpReply)
  | sAccountNew (publicB32 : B32Ptr) (privateKey : Vector UInt8 addressLength) (name : CStr)
      (reply : HttpReply) (stack : AccountDetails)
  | sAccountUpdate (addresses : EntryAddresses) (account : SAccountPtr) (reply : HttpReply)
      (stack : AccountDetails)
  | sAccountFree (account : SAccountPtr)
  | sAccountInit
  | sAccountLoad (loaded : SAccounts)
  | sWalletFree

/-- The tables after the call. -/
def AccountCall.run (R : MpackReader) (t : Tables) : AccountCall → Except Fault Tables
  | .accountInit => return { t with accounts := Vertices.accountInit }
  | .accountNew publicB32 reply => do
      let (_, _, accounts, p) ← Vertices.accountNew R publicB32 reply t.accounts t.provider
      return { t with accounts := accounts, provider := p }
  | .accountFree account => return { t with accounts := (Vertices.accountFree account t.accounts).2 }
  | .accountUpdate account reply => do
      let (_, accounts, p) ← Vertices.accountUpdate R account reply t.accounts t.provider
      return { t with accounts := accounts, provider := p }
  | .sAccountNew publicB32 privateKey name reply stack => do
      let (_, _, wallet, p) ←
        Vertices.sAccountNew R publicB32 privateKey name reply stack t.wallet t.provider
      return { t with wallet := wallet, provider := p }
  | .sAccountUpdate addresses account reply stack => do
      let (_, wallet, p) ←
        Vertices.sAccountUpdate R addresses account reply stack t.wallet t.provider
      return { t with wallet := wallet, provider := p }
  | .sAccountFree account => return { t with wallet := (Vertices.sAccountFree account t.wallet).2 }
  | .sAccountInit => return { t with wallet := Vertices.sAccountInit }
  | .sAccountLoad loaded => return { t with wallet := loaded }
  | .sWalletFree => return { t with accounts := (Vertices.sWalletFree t.accounts).2 }

/-- What `provider_account_info_get` is called with: the node's reply and the record.
`none` where the function returns before. -/
def AccountCall.request (t : Tables) : AccountCall → Option (HttpReply × AccountDetails)
  | .accountNew publicB32 reply =>
      (t.accounts.findFinIdx? fun a => a.status == .none).map fun i =>
        let details := (t.accounts.get i).account
        (reply, { details with
          info := { fromB32Init publicB32 details.info with publicB32 := publicB32.copied } })
  | .accountUpdate (.mAccount i) reply => some (reply, (t.accounts.get i).account)
  | .sAccountNew publicB32 _ _ reply stack => do
      let i ← t.wallet.findFinIdx? fun a => a.status == .none
      let info ← (t.wallet.get i).vtcAccount
      return (reply, localDetails stack { fromB32Init publicB32 info with publicB32 := publicB32.copied })
  | .sAccountUpdate addresses account reply stack =>
      if sAccountExistsByAddr addresses (account.account t.wallet) then
        (account.record t.wallet).map fun info => (reply, localDetails stack info)
      else none
  | .accountInit | .accountFree _ | .accountUpdate (.other _) _ | .sAccountFree _ | .sAccountInit
  | .sAccountLoad _ | .sWalletFree => none

/-- The memory a wallet account's local record takes. -/
def AccountCall.stack : AccountCall → Option AccountDetails
  | .sAccountNew _ _ _ _ stack | .sAccountUpdate _ _ _ stack => some stack
  | _ => none

section Callers

variable {R : MpackReader} {t t' : Tables}

/-- The calls of the parse in `provider_account_info_get`. -/
def fetchCalls (R : MpackReader) (p : Provider) (reply : HttpReply) (d : AccountDetails) :
    List (Made AccountParser) :=
  match httpReceive p reply with
  | .error _ => []
  | .ok p =>
      if reply.err = .success then accountCalls R (p.rxBuf.toList.take p.responseSize) d else []

/-- The calls of the parse that the function leads to, if it does. -/
def AccountCall.callbackCalls (R : MpackReader) (t : Tables) (call : AccountCall) :
    List (Made AccountParser) :=
  match call.request t with
  | none => []
  | some (reply, d) => fetchCalls R t.provider reply d

/-- The record handed to the provider fits, and all the callbacks do with it is safe. -/
structure AccountCall.Safe (R : MpackReader) (t : Tables) (call : AccountCall) : Prop where
  established : ∀ reply d, call.request t = some (reply, d) → d.Fits
  safe : ∀ m ∈ call.callbackCalls R t, m.Safe

/-- The stack happens to hold counters that fit, and no name comes without room. -/
structure AccountCall.HasRoom (R : MpackReader) (t : Tables) (call : AccountCall) : Prop where
  stack : (call.request t).isSome = true → ∀ stack, call.stack = some stack → stack.Fits
  names : ∀ m ∈ call.callbackCalls R t, ¬ m.NameWithoutRoom

/-- One call. -/
def AccountStep (R : MpackReader) (t : Tables) (call : AccountCall) (t' : Tables) : Prop :=
  call.run R t = .ok t'

/-- Every public account's counters fit. -/
def Tables.Fit (t : Tables) : Prop := ∀ i : Fin accountsMaximumCount, (t.accounts.get i).account.Fits

theorem accountInit_fits (i : Fin accountsMaximumCount) : (accountInit.get i).account.Fits := by
  show (Vector.replicate accountsMaximumCount LocalAccount.zero)[i.val].account.Fits
  rw [Vector.getElem_replicate]
  exact .zero

theorem fits_info {d : AccountDetails} {info : AccountInfo} :
    ({ d with info := info } : AccountDetails).Fits ↔ d.Fits :=
  ⟨fun h => ⟨h.appIdx, h.kvCount⟩, fun h => ⟨h.appIdx, h.kvCount⟩⟩

/-- The record of a wallet account fits exactly when the stack does. -/
theorem established_stack {call : AccountCall} {stack : AccountDetails} {reply : HttpReply}
    {d : AccountDetails} (hs : call.stack = some stack) (hreq : call.request t = some (reply, d)) :
    d.Fits ↔ stack.Fits := by
  cases call with
  | sAccountNew publicB32 privateKey name reply' stack' =>
      cases hs
      obtain ⟨i, -, hreq⟩ := Option.bind_eq_some_iff.mp hreq
      obtain ⟨info, -, hreq⟩ := Option.bind_eq_some_iff.mp hreq
      cases hreq
      exact fits_info
  | sAccountUpdate addresses account reply' stack' =>
      cases hs
      rw [AccountCall.request] at hreq
      split at hreq
      · obtain ⟨info, -, hreq⟩ := Option.map_eq_some_iff.mp hreq
        cases hreq
        exact fits_info
      · cases hreq
  | accountInit | accountNew _ _ | accountFree _ | accountUpdate _ _ | sAccountFree _
  | sAccountInit | sAccountLoad _ | sWalletFree => exact nomatch hs

/-- The record of a public account fits with the table. -/
theorem established_table {call : AccountCall} {reply : HttpReply} {d : AccountDetails}
    (ht : t.Fit) (hs : call.stack = none) (hreq : call.request t = some (reply, d)) : d.Fits := by
  cases call with
  | accountNew publicB32 reply' =>
      obtain ⟨i, -, hreq⟩ := Option.map_eq_some_iff.mp hreq
      cases hreq
      exact fits_info.mpr (ht i)
  | accountUpdate account reply' =>
      cases account with
      | other => exact nomatch hreq
      | mAccount i =>
          cases hreq
          exact ht i
  | sAccountNew _ _ _ _ _ | sAccountUpdate _ _ _ _ => exact nomatch hs
  | accountInit | accountFree _ | sAccountFree _ | sAccountInit | sAccountLoad _ | sWalletFree =>
      exact nomatch hreq

/-- What is fetched into a record that fits, with room for every name. -/
theorem fetchCalls_safe {p : Provider} {reply : HttpReply} {d : AccountDetails} (hd : d.Fits)
    (hroom : ∀ m ∈ fetchCalls R p reply d, ¬ m.NameWithoutRoom) :
    (∀ m ∈ fetchCalls R p reply d, m.Safe) ∧
      ∀ err d' p', providerAccountInfoGet R p reply d = .ok (err, d', p') → d'.Fits := by
  unfold fetchCalls at hroom ⊢
  cases hrecv : httpReceive p reply with
  | error f =>
      refine ⟨List.forall_mem_nil _, fun err d' p' h => ?_⟩
      rw [providerAccountInfoGet, hrecv] at h
      exact nomatch h
  | ok p₁ =>
      rw [hrecv] at hroom
      dsimp only at hroom ⊢
      by_cases herr : reply.err = .success
      · rw [if_pos herr] at hroom ⊢
        obtain ⟨hsafe, hfits⟩ := accountCalls_safe hd hroom
        refine ⟨hsafe, fun err d' p' h => ?_⟩
        obtain ⟨p₂, hp₂, h⟩ := bind_eq_ok.mp h
        cases hrecv.symm.trans hp₂
        rw [if_pos herr] at h
        obtain ⟨⟨err₁, d₁⟩, hparse, h⟩ := bind_eq_ok.mp h
        obtain ⟨-, rfl, -⟩ := pure_eq_ok3.mp h
        exact hfits _ _ hparse
      · rw [if_neg herr]
        refine ⟨List.forall_mem_nil _, fun err d' p' h => ?_⟩
        obtain ⟨p₂, -, h⟩ := bind_eq_ok.mp h
        rw [if_neg herr] at h
        obtain ⟨-, rfl, -⟩ := pure_eq_ok3.mp h
        exact hd

theorem Tables.Fit.established (ht : t.Fit) {call : AccountCall} (hroom : call.HasRoom R t)
    {reply : HttpReply} {d : AccountDetails} (hreq : call.request t = some (reply, d)) : d.Fits := by
  cases hs : call.stack with
  | none => exact established_table ht hs hreq
  | some stack =>
      exact (established_stack hs hreq).mpr (hroom.stack (Option.isSome_of_eq_some hreq) stack hs)

/-- With the condition, the call is safe and the fetched record fits. -/
theorem AccountCall.HasRoom.fetch {call : AccountCall} (hroom : call.HasRoom R t) (ht : t.Fit)
    {reply : HttpReply} {d : AccountDetails} (hreq : call.request t = some (reply, d)) :
    (∀ m ∈ call.callbackCalls R t, m.Safe) ∧
      ∀ err d' p', providerAccountInfoGet R t.provider reply d = .ok (err, d', p') → d'.Fits := by
  have hcalls : call.callbackCalls R t = fetchCalls R t.provider reply d := by
    rw [callbackCalls, hreq]
  rw [hcalls]
  exact fetchCalls_safe (ht.established hroom hreq) (hcalls ▸ hroom.names)

theorem AccountCall.HasRoom.safe {call : AccountCall} (hroom : call.HasRoom R t) (ht : t.Fit) :
    call.Safe R t where
  established _ _ hreq := ht.established hroom hreq
  safe := by
    cases hreq : call.request t with
    | none =>
        rw [callbackCalls, hreq]
        exact List.forall_mem_nil _
    | some req => exact (hroom.fetch ht hreq).1

/-- A safe call has met the condition. -/
theorem AccountCall.Safe.hasRoom {call : AccountCall} (h : call.Safe R t) : call.HasRoom R t where
  stack hsome stack hs := by
    obtain ⟨⟨reply, d⟩, hreq⟩ := Option.isSome_iff_exists.mp hsome
    exact (established_stack hs hreq).mp (h.established reply d hreq)
  names m hm hname := (h.safe m hm).inRange hname.outOfBounds

theorem Tables.Fit.set (ht : t.Fit) {i : Nat} (hi : i < accountsMaximumCount) {a : LocalAccount}
    (ha : a.account.Fits) (j : Fin accountsMaximumCount) :
    ((t.accounts.set i a hi).get j).account.Fits := by
  show ((t.accounts.set i a hi)[j.val]).account.Fits
  rw [Vector.getElem_set]
  split
  · exact ha
  · exact ht j

/-- Under the condition, every call leaves counters that fit. -/
theorem AccountCall.HasRoom.fit {call : AccountCall} (hroom : call.HasRoom R t) (ht : t.Fit)
    (h : AccountStep R t call t') : t'.Fit := by
  cases call with
  | accountInit =>
      cases pure_eq_ok.mp h
      exact accountInit_fits
  | accountNew publicB32 reply =>
      obtain ⟨⟨err, slot, accounts, p⟩, hnew, h⟩ := bind_eq_ok.mp h
      cases pure_eq_ok.mp h
      unfold Vertices.accountNew at hnew
      split at hnew
      · cases pure_eq_ok.mp hnew
        exact ht
      · next i hi =>
          obtain ⟨⟨err₁, d', p'⟩, hget, hnew⟩ := bind_eq_ok.mp hnew
          cases pure_eq_ok.mp hnew
          refine ht.set i.isLt ((hroom.fetch ht ?_).2 _ _ _ hget)
          rw [request, hi]
          rfl
  | accountFree account =>
      cases pure_eq_ok.mp h
      cases account with
      | mAccount i => exact ht.set i.isLt .zero
      | other => exact ht
  | accountUpdate account reply =>
      obtain ⟨⟨err, accounts, p⟩, hupdate, h⟩ := bind_eq_ok.mp h
      cases pure_eq_ok.mp h
      cases account with
      | other =>
          cases pure_eq_ok.mp hupdate
          exact ht
      | mAccount i =>
          obtain ⟨⟨err₁, d', p'⟩, hget, hupdate⟩ := bind_eq_ok.mp hupdate
          cases pure_eq_ok.mp hupdate
          exact ht.set i.isLt ((hroom.fetch ht rfl).2 _ _ _ hget)
  | sAccountNew _ _ _ _ _ | sAccountUpdate _ _ _ _ =>
      obtain ⟨_, -, h⟩ := bind_eq_ok.mp h
      cases pure_eq_ok.mp h
      exact ht
  | sAccountFree _ | sAccountInit | sAccountLoad _ =>
      cases pure_eq_ok.mp h
      exact ht
  | sWalletFree =>
      cases pure_eq_ok.mp h
      intro i
      show (Vertices.sWalletFree t.accounts).2[i].account.Fits
      rw [Vertices.sWalletFree, Fin.getElem_fin, Vector.getElem_ofFn]
      split
      · exact .zero
      · exact ht i

/-- **The subscripts stay in range exactly while no name comes without room**, in every
sequence of parses of one record, and in every run of the functions that own the
records, if the stack holds counters that fit where a wallet account is fetched. -/
theorem account_subscripts_safe_iff (R : MpackReader) :
    (∀ {d : AccountDetails}, d.Fits → ∀ bufs,
      (∀ m ∈ parsesCalls R bufs d, m.Safe) ↔ ∀ m ∈ parsesCalls R bufs d, ¬ m.NameWithoutRoom) ∧
    ∀ {wallet : SAccounts} {p : Provider} {calls : List AccountCall} {t : Tables},
      Run (guard (fun t call => call.HasRoom R t) (AccountStep R)) ⟨accountInit, wallet, p⟩ calls t →
      t.Fit ∧ ∀ call : AccountCall, call.Safe R t ↔ call.HasRoom R t := by
  constructor
  · intro d hd bufs
    exact ⟨fun h m hm hname => (h m hm).inRange hname.outOfBounds, parsesCalls_safe hd⟩
  · intro wallet p calls t hrun
    have ht : t.Fit := hrun.invariant (fun ht hstep => hstep.1.fit ht hstep.2) accountInit_fits
    exact ⟨ht, fun call => ⟨AccountCall.Safe.hasRoom, fun h => h.safe ht⟩⟩

end Callers

/-! ## Nine variables -/

/-- An application with `n` variables, of a type and no value, named a, b, … -/
def varsBuffer (n : Nat) : List UInt8 :=
  [0x81, 0xa4] ++ lit "appl" ++ [0x81, 0x07, 0x81, 0xa3] ++ lit "tkv" ++ [0x80 + UInt8.ofNat n] ++
    (List.range n).flatMap fun i =>
      [0xa1, 0x61 + UInt8.ofNat i, 0x81, 0xa2] ++ lit "tt" ++ [0x02]

/-- The node answers with it. -/
def varsReply (n : Nat) : HttpReply := ⟨[varsBuffer n], .success, 200⟩

/-- The tables at the start. -/
def Tables.start : Tables := ⟨accountInit, sAccountInit, .zero⟩

/-- The account of the zero key is fetched. -/
def newAccount (n : Nat) : AccountCall := .accountNew ⟨Vector.replicate _ 0, []⟩ (varsReply n)

/-- Two variables, fetched twice into the same record. -/
theorem account_subscripts_safe_iff_refetched :
    (∀ m ∈ parsesCalls formatReader [varsBuffer 2, varsBuffer 2] .zero, m.Safe) ∧
      ∃ t, Run (AccountStep formatReader) .start [newAccount 2] t ∧ t.Fit ∧
        (newAccount 2).Safe formatReader .start := by
  obtain ⟨hparses, hruns⟩ := account_subscripts_safe_iff formatReader
  have hroom : (newAccount 2).HasRoom formatReader .start :=
    ⟨fun _ _ hs => (nomatch hs), by decide +kernel⟩
  have hnew : ((newAccount 2).run formatReader .start).isOk = true := by decide +kernel
  cases hstep : (newAccount 2).run formatReader .start with
  | error f =>
      rw [hstep] at hnew
      exact nomatch hnew
  | ok t =>
      refine ⟨(hparses .zero _).mpr (by decide +kernel), t, .cons hstep (.nil t), ?_, ?_⟩
      · exact (hruns (.cons ⟨hroom, hstep⟩ (.nil t))).1
      · exact ((hruns (.nil _)).2 _).mpr hroom

/-- A wallet account, fetched into memory where `app_idx` reads 4. -/
def newSecretAccount : AccountCall :=
  .sAccountNew ⟨Vector.replicate _ 0, []⟩ (Vector.replicate _ 0) (cString []) (varsReply 0)
    { AccountDetails.zero with appIdx := 4 }

/-- The ninth variable is written past the array; and nothing establishes the counters of
a wallet account's record. -/
theorem nine_variables_unsafe :
    (∃ m ∈ (newAccount 9).callbackCalls formatReader .start,
      accountCallbacks.handle m.event m.before = .error .outOfBounds) ∧
      ¬ (newAccount 9).Safe formatReader .start ∧ ¬ newSecretAccount.Safe formatReader .start := by
  have hname : ∃ m ∈ (newAccount 9).callbackCalls formatReader .start, m.NameWithoutRoom := by
    decide +kernel
  obtain ⟨m, hm, hname⟩ := hname
  refine ⟨⟨m, hm, hname.outOfBounds⟩, fun h => (h.safe m hm).inRange hname.outOfBounds, fun h => ?_⟩
  have hfits : AccountDetails.Fits { AccountDetails.zero with appIdx := 4 } :=
    h.hasRoom.stack (by decide +kernel) _ rfl
  exact absurd hfits.appIdx (by decide)

end Vertices
