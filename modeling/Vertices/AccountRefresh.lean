/-
# `Vertices.AccountRefresh` — an account fetched into a record that was in use

`parser_account_mpack` writes what it finds and resets nothing.  The ends of maps count
`app_idx` and `key_values.count` up from where the record has them, and a number the
response leaves out stays what it was.
-/
import Vertices.RunPairs
import Vertices.IndexSafety
import Vertices.AccountSlice

namespace Vertices

open MsgPack

/-! ## The fields of a response -/

/-- An application as its counter shows it. -/
structure ParsedApp where
  appId : UInt64
  count : Nat
  values : List AppKeyValue
  deriving DecidableEq

/-- The fields a response decides: the numbers, `app_idx` and the first `app_idx` entries of
`apps_local`, each with the variables that are counted. -/
structure ParsedFields where
  amount : Int32
  rewards : Int32
  rewardBase : Int32
  appIdx : Nat
  apps : List ParsedApp
  deriving DecidableEq

def AppsLocalState.parsed (app : AppsLocalState) : ParsedApp where
  appId := app.appId
  count := app.keyValues.count
  values := app.keyValues.values.toList.take app.keyValues.count

def AccountDetails.parsed (d : AccountDetails) : ParsedFields where
  amount := d.info.amount
  rewards := d.rewards
  rewardBase := d.rewardBase
  appIdx := d.appIdx
  apps := (d.appsLocal.toList.take d.appIdx).map AppsLocalState.parsed

/-- The outcome of a parse, as far as the response decides it. -/
def refreshed (R : MpackReader) (buf : List UInt8) (d : AccountDetails) : Except Fault ParsedFields :=
  (parserAccountMpack R buf d).map fun r => r.2.parsed

/-- The response replaces what `d` held: the outcome is that of the zeroed record. -/
def Replaces (R : MpackReader) (buf : List UInt8) (d : AccountDetails) : Prop :=
  refreshed R buf d = refreshed R buf .zero

/-! ## A record that holds an address and nothing else -/

/-- All bytes zero but those of the address. -/
def AccountDetails.Blank (d : AccountDetails) : Prop :=
  d = { AccountDetails.zero with info := { d.info with amount := 0 } }

/-- The record of another address. -/
def readdress (info : AccountInfo) (s : AccountParser) : AccountParser :=
  { s with account := { s.account with info := { info with amount := s.account.info.amount } } }

section Readdress

variable {info : AccountInfo}

theorem lookupKey_readdress (s : AccountParser) (data : Option (List UInt8)) (length : Nat)
    (keys : List (String × ParserAccountStep)) (unknown : RetCode) :
    lookupKey (readdress info s) data length keys unknown =
      (lookupKey s data length keys unknown).map fun r => (r.1, readdress info r.2) := by
  cases data with
  | none => rfl
  | some data =>
      rw [lookupKey, lookupKey]
      cases matchKey data length keys <;> rfl

theorem storeValue_readdress (s : AccountParser) (f : AppKeyValue → AppKeyValue) :
    storeValue (readdress info s) f =
      (storeValue s f).map fun r => (r.1, readdress info r.2) := by
  show (AccountParser.app s >>= _) = Except.map _ (AccountParser.app s >>= _)
  cases AccountParser.app s with
  | error _ => rfl
  | ok a =>
      show (if appsKvMaxCount < s.kvCount a then _ else subscript _ (s.kvCount a) >>= _) =
        Except.map _ (if appsKvMaxCount < s.kvCount a then _ else subscript _ (s.kvCount a) >>= _)
      split
      · rfl
      · cases subscript appsKvMaxCount (s.kvCount a) <;> rfl

theorem uintElement_readdress (s : AccountParser) (value : UInt64) :
    uintElement (readdress info s) value =
      (uintElement s value).map fun r => (r.1, readdress info r.2) := by
  obtain ⟨step, d⟩ := s
  cases step with
  | appl =>
      show (if d.appIdx < appsMaxCount then AccountParser.app ⟨.appl, d⟩ >>= _ else _) =
        Except.map _ (if d.appIdx < appsMaxCount then AccountParser.app ⟨.appl, d⟩ >>= _ else _)
      split
      · cases AccountParser.app ⟨.appl, d⟩ <;> rfl
      · rfl
  | appKvType | appKvValueInt => exact storeValue_readdress _ _
  | _ => rfl

theorem stringElement_readdress (s : AccountParser) (data : Option (List UInt8)) (length : Nat) :
    stringElement (readdress info s) data length =
      (stringElement s data length).map fun r => (r.1, readdress info r.2) := by
  obtain ⟨step, d⟩ := s
  cases step with
  | root | applId | appSch | appKvVar | tsch => exact lookupKey_readdress _ _ _ _ _
  | appKv =>
      show (AccountParser.app ⟨.appKv, d⟩ >>= _) = Except.map _ (AccountParser.app ⟨.appKv, d⟩ >>= _)
      cases AccountParser.app ⟨.appKv, d⟩ with
      | error _ => rfl
      | ok a =>
          show (subscript _ (AccountParser.kvCount ⟨.appKv, d⟩ a) >>= _) =
            Except.map _ (subscript _ (AccountParser.kvCount ⟨.appKv, d⟩ a) >>= _)
          cases subscript appsKvMaxCount (AccountParser.kvCount ⟨.appKv, d⟩ a) with
          | error _ => rfl
          | ok idx => cases data <;> rfl
  | _ => rfl

theorem finishMap_readdress (s : AccountParser) :
    finishMap (readdress info s) = (finishMap s).map fun r => (r.1, readdress info r.2) := by
  obtain ⟨step, d⟩ := s
  cases step with
  | appKvVar =>
      show (AccountParser.app ⟨.appKvVar, d⟩ >>= _) =
        Except.map _ (AccountParser.app ⟨.appKvVar, d⟩ >>= _)
      cases AccountParser.app ⟨.appKvVar, d⟩ <;> rfl
  | _ => rfl

/-- No callback looks at the address. -/
theorem accountCallbacks_commutes (info : AccountInfo) :
    Commutes accountCallbacks (readdress info) := by
  intro event s
  cases event with
  | uint value => exact uintElement_readdress s value
  | string data length => exact stringElement_readdress s data length
  | finishMap => exact finishMap_readdress s
  | nil | bool _ | int _ | startMap _ | startArray _ | finishArray => rfl

end Readdress

/-- Any response at all replaces what a blank record held. -/
theorem AccountDetails.Blank.replaces {d : AccountDetails} (h : d.Blank) (R : MpackReader)
    (buf : List UInt8) : Replaces R buf d := by
  have hstart : (⟨.root, d⟩ : AccountParser) = readdress d.info ⟨.root, .zero⟩ :=
    congrArg (AccountParser.mk .root) h
  rw [Replaces, refreshed, refreshed, parserAccountMpack, parserAccountMpack, hstart,
    parseElement_changed (accountCallbacks_commutes d.info)]
  cases parseElement R accountCallbacks 32 (mpackReaderInitData buf) ⟨.root, .zero⟩ <;> rfl

/-! ## A used record beside a cleared one -/

/-- The record with its counters at 0. -/
def AccountDetails.cleared (d : AccountDetails) : AccountDetails :=
  { d with
    appIdx := 0
    appsLocal := d.appsLocal.map fun app => { app with keyValues := { app.keyValues with count := 0 } } }

/-- `s` from the cleared record, `t` from `d` itself: the counters of `t` are those of `s`
on top of those of `d`, and the numbers are the same. -/
structure Beside (d : AccountDetails) (s t : AccountParser) : Prop where
  info : t.account.info = s.account.info
  rewards : t.account.rewards = s.account.rewards
  rewardBase : t.account.rewardBase = s.account.rewardBase
  appIdx : t.account.appIdx = d.appIdx + s.account.appIdx
  kvCount : ∀ i j : Fin appsMaxCount, j.val = d.appIdx + i.val →
    t.kvCount j = d.appsLocal[j].keyValues.count + s.kvCount i

/-- Inside a variable there is an entry for it. -/
def Roomy (t : AccountParser) : Prop := t.step.inVar = true →
  ∃ b : Fin appsMaxCount, b.val = t.account.appIdx ∧ t.kvCount b < appsKvMaxCount

/-- The two parsers are at the same step, side by side. -/
structure InStep (d : AccountDetails) (s t : AccountParser) : Prop where
  step : t.step = s.step
  beside : Beside d s t
  roomy : Roomy t

/-- The record was in use, and now every entry for an application is taken. -/
def FullUp (d : AccountDetails) (t : AccountParser) : Prop :=
  0 < d.appIdx ∧ appsMaxCount ≤ t.account.appIdx

section Together

variable {d : AccountDetails} {s t s' t' : AccountParser} {err err' : RetCode}

theorem Beside.cleared (d : AccountDetails) : Beside d ⟨.root, d.cleared⟩ ⟨.root, d⟩ where
  info := rfl
  rewards := rfl
  rewardBase := rfl
  appIdx := rfl
  kvCount i j _ := by simp [AccountParser.kvCount, AccountDetails.cleared]

theorem Beside.goto (h : Beside d s t) (step : ParserAccountStep) :
    Beside d (s.goto step) (t.goto step) where
  info := h.info
  rewards := h.rewards
  rewardBase := h.rewardBase
  appIdx := h.appIdx
  kvCount := h.kvCount

/-- The application being parsed, changed in both records so that its count grows alike. -/
theorem Beside.modifyApp {a b : Fin appsMaxCount} {f g : AppsLocalState → AppsLocalState} {n : Nat}
    (h : Beside d s t) (ha : a.val = s.account.appIdx) (hb : b.val = t.account.appIdx)
    (hf : ∀ app, (f app).keyValues.count = app.keyValues.count + n)
    (hg : ∀ app, (g app).keyValues.count = app.keyValues.count + n) :
    Beside d (s.modifyApp a f) (t.modifyApp b g) where
  info := h.info
  rewards := h.rewards
  rewardBase := h.rewardBase
  appIdx := h.appIdx
  kvCount i j hij := by
    have hidx := h.appIdx
    have hsame : j = b ↔ i = a := by
      rw [Fin.ext_iff, Fin.ext_iff]
      omega
    rw [AccountParser.modifyApp_kvCount hf, AccountParser.modifyApp_kvCount hg]
    by_cases hi : i = a
    · rw [if_pos hi, if_pos (hsame.mpr hi), h.kvCount a b (by omega), hsame.mpr hi, Nat.add_assoc]
    · rw [if_neg hi, if_neg fun hj => hi (hsame.mp hj), h.kvCount i j hij]

theorem Beside.modifyValue {a b : Fin appsMaxCount} {idx idx' : Fin appsKvMaxCount}
    {f g : AppKeyValue → AppKeyValue} (h : Beside d s t) (ha : a.val = s.account.appIdx)
    (hb : b.val = t.account.appIdx) :
    Beside d (s.modifyValue a idx f) (t.modifyValue b idx' g) :=
  h.modifyApp (n := 0) ha hb (fun _ => rfl) fun _ => rfl

/-- Outside the variables nothing is asked of the entries. -/
theorem Roomy.outside (h : t.step.inVar = false) : Roomy t := fun hvar => nomatch h.symm.trans hvar

theorem Roomy.goto {step : ParserAccountStep} (h : Roomy t)
    (hstep : step.inVar = true → t.step.inVar = true) : Roomy (t.goto step) := fun hvar =>
  h (hstep hvar)

theorem lookupKey_together {step : ParserAccountStep} {a a' : AccountDetails}
    {data : Option (List UInt8)} {length : Nat} {keys : List (String × ParserAccountStep)}
    {unknown : RetCode} (h : InStep d ⟨step, a⟩ ⟨step, a'⟩)
    (hkeys : ∀ found ∈ keys.map Prod.snd, found.inVar = true → step.inVar = true)
    (hs : lookupKey ⟨step, a⟩ data length keys unknown = .ok (err, s'))
    (ht : lookupKey ⟨step, a'⟩ data length keys unknown = .ok (err', t')) :
    err = err' ∧ InStep d s' t' := by
  cases data with
  | none => exact absurd hs (throw_ne_ok _ _)
  | some data =>
      rw [lookupKey] at hs ht
      split at hs
      · next found hfound =>
          rw [hfound] at ht
          cases pure_eq_ok.mp hs
          cases pure_eq_ok.mp ht
          exact ⟨rfl, rfl, h.beside.goto found, h.roomy.goto (hkeys _ (matchKey_mem hfound))⟩
      · next hfound =>
          rw [hfound] at ht
          cases pure_eq_ok.mp hs
          cases pure_eq_ok.mp ht
          exact ⟨rfl, h⟩

/-- `t` has an entry for the variable, and then so has `s`. -/
theorem storeValue_together {f : AppKeyValue → AppKeyValue} (h : InStep d s t)
    (hvar : t.step.inVar = true) (hs : storeValue s f = .ok (err, s'))
    (ht : storeValue t f = .ok (err', t')) : err = err' ∧ InStep d s' t' := by
  obtain ⟨b, hb, hroom⟩ := h.roomy hvar
  have hidx := h.beside.appIdx
  have hlt : s.account.appIdx < appsMaxCount := by
    have := b.isLt
    omega
  have hcount := h.beside.kvCount ⟨s.account.appIdx, hlt⟩ b (by rw [hb, hidx])
  have hstore : ∀ {u : AccountParser} {a : Fin appsMaxCount} {code u'}, a.val = u.account.appIdx →
      u.kvCount a < appsKvMaxCount → storeValue u f = .ok (code, u') →
      code = .success ∧ ∃ idx, u' = (u.modifyValue a idx f).goto .appKvVar := by
    intro u a code u' ha hroom hu
    have happ : u.app = .ok a := subscript_eq_ok.mpr ha
    rw [storeValue, happ] at hu
    change (if appsKvMaxCount < u.kvCount a then _ else subscript _ (u.kvCount a) >>= _) = _ at hu
    rw [if_neg (Nat.not_lt.mpr hroom.le), subscript_of_lt hroom] at hu
    cases pure_eq_ok.mp hu
    exact ⟨rfl, _, rfl⟩
  obtain ⟨rfl, idx, rfl⟩ := hstore (a := ⟨s.account.appIdx, hlt⟩) rfl (by omega) hs
  obtain ⟨rfl, idx', rfl⟩ := hstore hb hroom ht
  refine ⟨rfl, rfl, (h.beside.modifyValue rfl hb).goto _, fun _ => ⟨b, hb, ?_⟩⟩
  rw [AccountParser.goto_kvCount, AccountParser.modifyValue_kvCount]
  exact hroom

theorem uintElement_together {value : UInt64} (h : InStep d s t)
    (hs : uintElement s value = .ok (err, s')) (ht : uintElement t value = .ok (err', t')) :
    (err = err' ∧ InStep d s' t') ∨ FullUp d t' := by
  obtain ⟨step, a⟩ := s
  obtain ⟨step', a'⟩ := t
  have hstep := h.step
  have hbeside := h.beside
  cases (hstep : step' = step)
  cases step with
  | algo =>
      cases pure_eq_ok.mp hs
      cases pure_eq_ok.mp ht
      refine .inl ⟨rfl, rfl, ⟨?_, hbeside.rewards, hbeside.rewardBase, hbeside.appIdx,
        hbeside.kvCount⟩, .outside rfl⟩
      exact congrArg (fun info : AccountInfo => { info with amount := uint64ToInt32 value })
        hbeside.info
  | ebase =>
      cases pure_eq_ok.mp hs
      cases pure_eq_ok.mp ht
      exact .inl ⟨rfl, rfl, ⟨hbeside.info, hbeside.rewards, rfl, hbeside.appIdx, hbeside.kvCount⟩,
        .outside rfl⟩
  | ern =>
      cases pure_eq_ok.mp hs
      cases pure_eq_ok.mp ht
      exact .inl ⟨rfl, rfl, ⟨hbeside.info, rfl, hbeside.rewardBase, hbeside.appIdx, hbeside.kvCount⟩,
        .outside rfl⟩
  | appl =>
      have hidx := hbeside.appIdx
      change (if a.appIdx < appsMaxCount then _ else _) = _ at hs
      change (if a'.appIdx < appsMaxCount then _ else _) = _ at ht
      split at ht
      · next hlt' =>
          have hlt : a.appIdx < appsMaxCount := by
            dsimp only at hidx
            omega
          rw [if_pos hlt, AccountParser.app_eq_ok hlt] at hs
          rw [AccountParser.app_eq_ok hlt'] at ht
          cases pure_eq_ok.mp hs
          cases pure_eq_ok.mp ht
          have hmodify : Beside d
              (AccountParser.modifyApp ⟨.appl, a⟩ ⟨a.appIdx, hlt⟩ fun app => { app with appId := value })
              (AccountParser.modifyApp ⟨.appl, a'⟩ ⟨a'.appIdx, hlt'⟩
                fun app => { app with appId := value }) :=
            hbeside.modifyApp (n := 0) rfl rfl (fun _ => rfl) fun _ => rfl
          exact .inl ⟨rfl, rfl, hmodify.goto _, .outside rfl⟩
      · next hfull =>
          cases pure_eq_ok.mp ht
          dsimp only at hidx
          split at hs
          · exact .inr ⟨by omega, Nat.not_lt.mp hfull⟩
          · cases pure_eq_ok.mp hs
            exact .inl ⟨rfl, h⟩
  | appKvType | appKvValueInt =>
      exact .inl (storeValue_together h rfl hs ht)
  | appSchNui | appSchNbs =>
      cases pure_eq_ok.mp hs
      cases pure_eq_ok.mp ht
      exact .inl ⟨rfl, rfl, hbeside.goto _, .outside rfl⟩
  | _ =>
      cases pure_eq_ok.mp hs
      cases pure_eq_ok.mp ht
      exact .inl ⟨rfl, h⟩

theorem stringElement_together {data : Option (List UInt8)} {length : Nat} (h : InStep d s t)
    (hs : stringElement s data length = .ok (err, s'))
    (ht : stringElement t data length = .ok (err', t')) : err = err' ∧ InStep d s' t' := by
  obtain ⟨step, a⟩ := s
  obtain ⟨step', a'⟩ := t
  have hstep := h.step
  cases (hstep : step' = step)
  cases step with
  | root | applId | appSch | appKvVar | tsch => exact lookupKey_together h (by decide) hs ht
  | appKv =>
      obtain ⟨i, hi, hs⟩ := bind_eq_ok.mp hs
      obtain ⟨idx, hidx, hs⟩ := bind_eq_ok.mp hs
      obtain ⟨j, hj, ht⟩ := bind_eq_ok.mp ht
      obtain ⟨idx', hidx', ht⟩ := bind_eq_ok.mp ht
      have hi' : i.val = a.appIdx := subscript_eq_ok.mp hi
      have hj' : j.val = a'.appIdx := subscript_eq_ok.mp hj
      have hroom : AccountParser.kvCount ⟨.appKv, a⟩ i < appsKvMaxCount :=
        subscript_eq_ok.mp hidx ▸ idx.isLt
      have hroom' : AccountParser.kvCount ⟨.appKv, a'⟩ j < appsKvMaxCount :=
        subscript_eq_ok.mp hidx' ▸ idx'.isLt
      cases data with
      | none => exact absurd hs (throw_ne_ok _ _)
      | some data =>
          dsimp only at hs ht
          rw [if_neg (Nat.not_le.mpr hroom)] at hs
          rw [if_neg (Nat.not_le.mpr hroom')] at ht
          cases pure_eq_ok.mp hs
          cases pure_eq_ok.mp ht
          refine ⟨rfl, rfl, (h.beside.modifyValue hi' hj').goto _, fun _ => ⟨j, hj', ?_⟩⟩
          rw [AccountParser.goto_kvCount, AccountParser.modifyValue_kvCount]
          exact hroom'
  | _ =>
      cases pure_eq_ok.mp hs
      cases pure_eq_ok.mp ht
      exact ⟨rfl, h⟩

theorem finishMap_together (h : InStep d s t) (hs : finishMap s = .ok (err, s'))
    (ht : finishMap t = .ok (err', t')) : err = err' ∧ InStep d s' t' := by
  obtain ⟨step, a⟩ := s
  obtain ⟨step', a'⟩ := t
  have hstep := h.step
  have hbeside := h.beside
  cases (hstep : step' = step)
  cases step with
  | appKvVar =>
      obtain ⟨i, hi, hs⟩ := bind_eq_ok.mp hs
      obtain ⟨j, hj, ht⟩ := bind_eq_ok.mp ht
      cases pure_eq_ok.mp hs
      cases pure_eq_ok.mp ht
      exact ⟨rfl, rfl, (hbeside.modifyApp (n := 1) (subscript_eq_ok.mp hi) (subscript_eq_ok.mp hj)
        (fun _ => rfl) fun _ => rfl).goto _, .outside rfl⟩
  | applId =>
      cases pure_eq_ok.mp hs
      cases pure_eq_ok.mp ht
      refine ⟨rfl, rfl, ⟨hbeside.info, hbeside.rewards, hbeside.rewardBase, ?_, hbeside.kvCount⟩,
        .outside rfl⟩
      exact congrArg Nat.succ hbeside.appIdx
  | _ =>
      cases pure_eq_ok.mp hs
      cases pure_eq_ok.mp ht
      exact ⟨rfl, rfl, hbeside.goto _, .outside rfl⟩

/-- `app_idx` never goes down. -/
theorem handle_appIdx_le {event : Event} (h : accountCallbacks.handle event s = .ok (err, s')) :
    s.account.appIdx ≤ s'.account.appIdx := by
  have hedit := handle_edit h
  generalize s'.account = d' at hedit ⊢
  cases hedit with
  | nextEntry => exact Nat.le_succ _
  | _ => exact le_rfl

/-- The two runs stay side by side until the used record is full. -/
theorem accountCallbacks_lockstep (d : AccountDetails) :
    Lockstep accountCallbacks (InStep d) (FullUp d) where
  together event s t err s' err' t' h hs ht := by
    cases event with
    | uint value => exact uintElement_together h hs ht
    | string data length => exact .inl (stringElement_together h hs ht)
    | finishMap => exact .inl (finishMap_together h hs ht)
    | nil | bool _ | int _ | startMap _ | startArray _ | finishArray =>
        cases pure_eq_ok.mp hs
        cases pure_eq_ok.mp ht
        exact .inl ⟨rfl, h⟩
  lost event t err t' hfull ht := ⟨hfull.1, hfull.2.trans (handle_appIdx_le ht)⟩

end Together

/-- The same response, parsed into the cleared record and into the used one. -/
theorem parserAccountMpack_beside {R : MpackReader} {buf : List UInt8} {d e t : AccountDetails}
    {err err' : RetCode} (hs : parserAccountMpack R buf d.cleared = .ok (err, e))
    (ht : parserAccountMpack R buf d = .ok (err', t)) :
    Beside d ⟨.root, e⟩ ⟨.root, t⟩ ∨ 0 < d.appIdx ∧ appsMaxCount ≤ t.appIdx := by
  obtain ⟨⟨e₁, r₁, s'⟩, hs₁, hs⟩ := bind_eq_ok.mp hs
  obtain ⟨⟨e₂, r₂, t'⟩, ht₁, ht⟩ := bind_eq_ok.mp ht
  cases pure_eq_ok.mp hs
  cases pure_eq_ok.mp ht
  have hstart : InStep d ⟨.root, d.cleared⟩ ⟨.root, d⟩ := ⟨rfl, .cleared d, .outside rfl⟩
  rcases parseElement_abreast (accountCallbacks_lockstep d) 32 _ _ _ hstart _ _ _ _ _ _ hs₁ ht₁ with
    ⟨-, -, hin⟩ | hfull
  · exact .inl (hin.beside.goto .root)
  · exact .inr hfull

/-! ## What a response leaves -/

/-- What an application looks like when it is read from its counter. -/
def App.parsed (app : App) : ParsedApp where
  appId := app.id
  count := app.vars.length
  values := app.vars.map Variable.stored

theorem table_take {α : Type} {n : Nat} (old : Vector α n) {l : List α} (h : l.length ≤ n) :
    (table old l).toList.take l.length = l := by
  apply List.ext_getElem
  · rw [List.length_take, Vector.length_toList, Nat.min_eq_left h]
  · intro i hi hi'
    rw [List.getElem_take, Vector.getElem_toList]
    exact (table_get old l ⟨i, hi'.trans_le h⟩).trans (List.getD_eq_getElem _ _ hi')

theorem App.parsed_slot (app : App) (old : AppsLocalState) : (app.slot old).parsed = app.parsed := by
  have hvalues : (table old.keyValues.values (app.vars.map Variable.stored)).toList.take
      app.vars.length = app.vars.map Variable.stored := by
    have htake := table_take old.keyValues.values (l := app.vars.map Variable.stored)
      (by rw [List.length_map]; exact app.few)
    rwa [List.length_map] at htake
  rw [App.slot, slotWith, AppsLocalState.parsed, App.parsed, hvalues]

theorem AccountMap.few (acc : AccountMap) : acc.apps.length ≤ appsMaxCount := by
  rw [AccountMap.apps]
  cases hf : acc.fields.findSome? Field.appl? with
  | none => exact Nat.zero_le _
  | some apps =>
      obtain ⟨f, -, hpick⟩ := List.exists_of_findSome?_eq_some hf
      cases f with
      | appl apps' =>
          cases hpick
          exact apps'.few
      | _ => cases hpick

/-- The applications of the record are those of the response. -/
theorem parsed_apps_foldl (acc : AccountMap) {d : AccountDetails} (h : d.appIdx = 0) :
    (acc.fields.foldl Field.store d).parsed.apps = acc.apps.map App.parsed := by
  obtain ⟨hidx, happs⟩ := apps_foldl acc h
  have htake : (table d.appsLocal (appSlots d.slot 0 acc.apps)).toList.take acc.apps.length =
      appSlots d.slot 0 acc.apps := by
    have htake := table_take d.appsLocal (l := appSlots d.slot 0 acc.apps)
      (by rw [length_appSlots]; exact acc.few)
    rwa [length_appSlots] at htake
  rw [AccountDetails.parsed, hidx, happs]
  dsimp only
  rw [htake]
  apply List.ext_getElem?
  intro i
  rw [List.getElem?_map, List.getElem?_map, getElem?_appSlots, Option.map_map]
  congr 1
  funext app
  exact app.parsed_slot _

/-- The response has an entry under `key`. -/
def AccountMap.Has (acc : AccountMap) (key : String) : Prop := key ∈ acc.fields.map Field.key

/-- A number after the response: the same from two records if the response has it, or if
the records agree on it. -/
theorem Reading.get_foldl_eq_iff {α β : Type} (r : Reading α β) {key : String} (acc : AccountMap)
    {d d' : AccountDetails} (hkey : ∀ f, (r.pick f).isSome ↔ Field.key f = key)
    (hconv : r.conv d = r.conv d') :
    r.get (acc.fields.foldl Field.store d) = r.get (acc.fields.foldl Field.store d') ↔
      (¬ acc.Has key → r.get d = r.get d') := by
  rw [r.get_foldl acc.distinct, r.get_foldl acc.distinct, hconv]
  cases hf : acc.fields.findSome? r.pick with
  | none =>
      have habsent : ¬ acc.Has key := by
        intro hhas
        obtain ⟨f, hf', hk⟩ := List.mem_map.mp hhas
        have hsome := (hkey f).mpr hk
        rw [List.findSome?_eq_none_iff.mp hf f hf'] at hsome
        exact nomatch hsome
      exact ⟨fun h _ => h, fun h => h habsent⟩
  | some a =>
      obtain ⟨f, hf', hpick⟩ := List.exists_of_findSome?_eq_some hf
      have hhas : acc.Has key := (hkey f).mp (by rw [hpick]; rfl) ▸ List.mem_map_of_mem hf'
      exact ⟨fun _ habsent => absurd hhas habsent, fun _ => rfl⟩

/-- The variables counted in an entry that shows an application. -/
theorem count_of_parsed {d : AccountDetails} {apps : List App}
    (h : d.parsed.apps = apps.map App.parsed) {i : Nat} {app : App} (hi : apps[i]? = some app) :
    (d.slot i).keyValues.count = app.vars.length := by
  have hget : ((d.appsLocal.toList.take d.appIdx)[i]?).map AppsLocalState.parsed =
      some app.parsed := by
    rw [← List.getElem?_map, show List.map _ _ = d.parsed.apps from rfl, h, List.getElem?_map, hi]
    rfl
  obtain ⟨slot, hslot, hparsed⟩ := Option.map_eq_some_iff.mp hget
  obtain ⟨hlt, hslot⟩ := List.getElem?_eq_some_iff.mp hslot
  rw [List.length_take, Vector.length_toList] at hlt
  rw [List.getElem_take, Vector.getElem_toList] at hslot
  rw [AccountDetails.slot_eq d (by omega), hslot]
  exact congrArg ParsedApp.count hparsed

/-! ## When a response replaces -/

/-- What a response without byte slices needs of the record: `app_idx` is 0, no variable is
counted in the entries it fills, and the numbers it leaves out are 0. -/
structure AccountDetails.ReadyFor (acc : AccountMap) (d : AccountDetails) : Prop where
  clear : d.ClearFor acc.apps.length
  amount : ¬ acc.Has "algo" → d.info.amount = 0
  rewards : ¬ acc.Has "ern" → d.rewards = 0
  rewardBase : ¬ acc.Has "ebase" → d.rewardBase = 0

theorem AccountDetails.cleared_clearFor (d : AccountDetails) (n : Nat) : d.cleared.ClearFor n := by
  refine ⟨rfl, fun i _ => ?_⟩
  by_cases hi : i < appsMaxCount
  · rw [AccountDetails.slot_eq _ hi, AccountDetails.cleared, Vector.getElem_map]
  · rw [AccountDetails.slot, Vector.getElem?_eq_none (Nat.not_lt.mp hi)]
    rfl

/-- The fields of an account with integers only. -/
theorem AccountMap.intsOnly {acc : AccountMap} (h : ¬ acc.HasSlice) : ∀ f ∈ acc.fields, f.IntsOnly := by
  intro f hf
  cases f with
  | appl apps =>
      have happs := AccountMap.apps_of_mem hf
      intro app happ v hv
      by_contra hint
      exact h (AccountMap.hasSlice_iff.mpr ⟨app, happs ▸ happ, v, hv, hint⟩)
  | _ => trivial

theorem AccountDetails.ClearFor.clearIn {acc : AccountMap} {d : AccountDetails}
    (h : d.ClearFor acc.apps.length) : ∀ f ∈ acc.fields, f.ClearIn d := by
  intro f hf
  cases f with
  | appl apps =>
      rw [AccountMap.apps_of_mem hf] at h
      exact h
  | _ => trivial

section Refresh

variable {R : MpackReader} (hR : R.Lawful) {acc : AccountMap} (hno : ¬ acc.HasSlice)
  {buf rest : List UInt8} (hbuf : Reads buf [acc.value] rest) {d : AccountDetails}

/-- The numbers agree after the response if they are 0 where it leaves them out. -/
theorem numbers_foldl_iff (acc : AccountMap) (d : AccountDetails) :
    ((acc.fields.foldl Field.store d).info.amount =
        (acc.fields.foldl Field.store AccountDetails.zero).info.amount ↔
      (¬ acc.Has "algo" → d.info.amount = 0)) ∧
    ((acc.fields.foldl Field.store d).rewards =
        (acc.fields.foldl Field.store AccountDetails.zero).rewards ↔
      (¬ acc.Has "ern" → d.rewards = 0)) ∧
    ((acc.fields.foldl Field.store d).rewardBase =
        (acc.fields.foldl Field.store AccountDetails.zero).rewardBase ↔
      (¬ acc.Has "ebase" → d.rewardBase = 0)) := by
  have halgo : ∀ f : Field, (f.algo?).isSome ↔ f.key = "algo" := by
    intro f
    cases f <;> simp [Field.algo?, Field.key]
  have hern : ∀ f : Field, (f.ern?).isSome ↔ f.key = "ern" := by
    intro f
    cases f <;> simp [Field.ern?, Field.key]
  have hebase : ∀ f : Field, (f.ebase?).isSome ↔ f.key = "ebase" := by
    intro f
    cases f <;> simp [Field.ebase?, Field.key]
  refine ⟨?_, ?_, ?_⟩
  · rw [← Int32.toInt_inj, ← Int32.toInt_inj (x := d.info.amount)]
    exact amountReading.get_foldl_eq_iff acc halgo rfl
  · rw [← Int32.toInt_inj, ← Int32.toInt_inj (x := d.rewards)]
    exact rewardsReading.get_foldl_eq_iff acc hern rfl
  · rw [← Int32.toInt_inj, ← Int32.toInt_inj (x := d.rewardBase)]
    exact rewardBaseReading.get_foldl_eq_iff acc hebase rfl

include hR hno hbuf

/-- The outcome from a record that is clear for the response. -/
theorem refreshed_of_clear (hd : d.ClearFor acc.apps.length) :
    refreshed R buf d = .ok (acc.fields.foldl Field.store d).parsed := by
  rw [refreshed, parserAccountMpack_ints hR (AccountMap.intsOnly hno) hbuf hd.clearIn]
  rfl

theorem replaces_of_readyFor (hd : d.ReadyFor acc) : Replaces R buf d := by
  obtain ⟨hamount, hrewards, hbase⟩ := numbers_foldl_iff acc d
  have hidx : (acc.fields.foldl Field.store d).appIdx =
      (acc.fields.foldl Field.store AccountDetails.zero).appIdx := by
    rw [(apps_foldl acc hd.clear.appIdx).1, (apps_foldl acc rfl).1]
  have happs : (acc.fields.foldl Field.store d).parsed.apps =
      (acc.fields.foldl Field.store AccountDetails.zero).parsed.apps := by
    rw [parsed_apps_foldl acc hd.clear.appIdx, parsed_apps_foldl acc rfl]
  rw [Replaces, refreshed_of_clear hR hno hbuf hd.clear,
    refreshed_of_clear hR hno hbuf (AccountDetails.clearFor_zero _), Except.ok.injEq,
    ParsedFields.mk.injEq]
  exact ⟨hamount.mpr hd.amount, hrewards.mpr hd.rewards, hbase.mpr hd.rewardBase, hidx, happs⟩

/-- The other way round: the run from `d` beside the run from the cleared record. -/
theorem readyFor_of_replaces (hroom : acc.apps.length < appsMaxCount ∨ d.appIdx = 0)
    (h : Replaces R buf d) : d.ReadyFor acc := by
  have hclear := d.cleared_clearFor acc.apps.length
  have hs : parserAccountMpack R buf d.cleared =
      .ok (.success, acc.fields.foldl Field.store d.cleared) :=
    parserAccountMpack_ints hR (AccountMap.intsOnly hno) hbuf hclear.clearIn
  rw [Replaces, refreshed_of_clear hR hno hbuf (AccountDetails.clearFor_zero _), refreshed] at h
  cases ht : parserAccountMpack R buf d with
  | error f =>
      rw [ht] at h
      exact nomatch h
  | ok r =>
      obtain ⟨err, t⟩ := r
      rw [ht] at h
      have hparsed : t.parsed = (acc.fields.foldl Field.store AccountDetails.zero).parsed :=
        Except.ok.inj h
      have hidx : t.appIdx = acc.apps.length :=
        (congrArg ParsedFields.appIdx hparsed).trans (apps_foldl acc rfl).1
      have happs : t.parsed.apps = acc.apps.map App.parsed :=
        (congrArg ParsedFields.apps hparsed).trans (parsed_apps_foldl acc rfl)
      rcases parserAccountMpack_beside hs ht with hb | ⟨hused, hfull⟩
      · have hzero : d.appIdx = 0 := by
          have hsum := hb.appIdx
          dsimp only at hsum
          rw [(apps_foldl acc hclear.appIdx).1, hidx] at hsum
          omega
        obtain ⟨hamount, hrewards, hbase⟩ := numbers_foldl_iff acc d.cleared
        refine ⟨⟨hzero, fun i hi => ?_⟩, hamount.mp ?_, hrewards.mp ?_, hbase.mp ?_⟩
        · have hlt : i < appsMaxCount := hi.trans_le acc.few
          have hget : acc.apps[i]? = some acc.apps[i] := List.getElem?_eq_getElem hi
          have hsum := hb.kvCount ⟨i, hlt⟩ ⟨i, hlt⟩ (by rw [hzero, Nat.zero_add])
          have hcount : (t.slot i).keyValues.count = acc.apps[i].vars.length :=
            count_of_parsed happs hget
          have hcount' : ((acc.fields.foldl Field.store d.cleared).slot i).keyValues.count =
              acc.apps[i].vars.length :=
            count_of_parsed (parsed_apps_foldl acc hclear.appIdx) hget
          rw [AccountDetails.slot_eq _ hlt] at hcount hcount' ⊢
          dsimp only [AccountParser.kvCount, Fin.getElem_fin] at hsum
          omega
        · exact (congrArg AccountInfo.amount hb.info).symm.trans
            (congrArg ParsedFields.amount hparsed)
        · exact hb.rewards.symm.trans (congrArg ParsedFields.rewards hparsed)
        · exact hb.rewardBase.symm.trans (congrArg ParsedFields.rewardBase hparsed)
      · omega

end Refresh

/-- `app_idx` is at least what it was. -/
theorem parserAccountMpack_appIdx_le {R : MpackReader} {buf : List UInt8} {d t : AccountDetails}
    {err : RetCode} (h : parserAccountMpack R buf d = .ok (err, t)) : d.appIdx ≤ t.appIdx := by
  obtain ⟨⟨e, r, s⟩, hs, h⟩ := bind_eq_ok.mp h
  cases pure_eq_ok.mp h
  have hcb : ∀ event (s : AccountParser) err s', d.appIdx ≤ s.account.appIdx →
      accountCallbacks.handle event s = .ok (err, s') → d.appIdx ≤ s'.account.appIdx :=
    fun _ _ _ _ hle hs => hle.trans (handle_appIdx_le hs)
  exact parseElement_leaves (P := fun s : AccountParser => d.appIdx ≤ s.account.appIdx) hcb 32 _ _ le_rfl
    _ _ _ hs

/-- There is always a record the response does not replace: one with more applications. -/
theorem exists_not_replaces {R : MpackReader} {buf : List UInt8} {p : ParsedFields}
    (h : refreshed R buf .zero = .ok p) : ∃ d, ¬ Replaces R buf d := by
  refine ⟨{ AccountDetails.zero with appIdx := p.appIdx + 1 }, fun hreplaces => ?_⟩
  rw [Replaces, h, refreshed] at hreplaces
  cases ht : parserAccountMpack R buf { AccountDetails.zero with appIdx := p.appIdx + 1 } with
  | error f =>
      rw [ht] at hreplaces
      exact nomatch hreplaces
  | ok r =>
      have hle : p.appIdx + 1 ≤ r.2.appIdx := parserAccountMpack_appIdx_le ht
      rw [ht] at hreplaces
      have hidx : r.2.appIdx = p.appIdx := congrArg ParsedFields.appIdx (Except.ok.inj hreplaces)
      omega

/-- **Any response replaces what a blank record held, and one without byte slices what a
ready record held.**  Into a record that is not ready it does not, unless it fills all the
entries and some were taken.  No response replaces whatever there was. -/
theorem account_refresh_replaces_iff {R : MpackReader} (hR : R.Lawful) (d : AccountDetails) :
    (∀ buf, d.Blank → Replaces R buf d) ∧
      (∀ (acc : AccountMap) (buf rest : List UInt8), Reads buf [acc.value] rest → ¬ acc.HasSlice →
        (d.ReadyFor acc → Replaces R buf d) ∧
          (acc.apps.length < appsMaxCount ∨ d.appIdx = 0 → (Replaces R buf d ↔ d.ReadyFor acc))) ∧
      ∀ buf p, refreshed R buf .zero = .ok p → ∃ d', ¬ Replaces R buf d' := by
  refine ⟨fun buf hblank => hblank.replaces R buf, ?_, fun buf p h => exists_not_replaces h⟩
  intro acc buf rest hbuf hno
  refine ⟨replaces_of_readyFor hR hno hbuf, fun hroom => ⟨?_, ?_⟩⟩
  · exact readyFor_of_replaces hR hno hbuf hroom
  · exact replaces_of_readyFor hR hno hbuf

/-- Variables of an earlier use, none of them counted. -/
def staleValues : AppValues where
  count := 0
  values := Vector.replicate _ ⟨Vector.replicate _ 1, .integer, Vector.replicate _ 7⟩

/-- A record with counters at 0 and the entries of an earlier use. -/
def staleAccount : AccountDetails :=
  { AccountDetails.zero with
    info := { AccountDetails.zero.info with amount := 77 }
    appsLocal := Vector.replicate _ { appId := 99, keyValues := staleValues } }

theorem account_refresh_replaces_iff_stale :
    Reads intBuffer [intAccount.value] [] ∧ Replaces formatReader intBuffer staleAccount := by
  have hreads : Reads intBuffer [intAccount.value] [] := decode_eq_some_iff.mp (by rfl)
  have hready : staleAccount.ReadyFor intAccount := by
    refine ⟨⟨rfl, fun i _ => ?_⟩, fun habsent => ?_, fun _ => rfl, fun _ => rfl⟩
    · rw [AccountDetails.slot, staleAccount, Vector.getElem?_replicate]
      split <;> rfl
    · exact absurd List.mem_cons_self habsent
  exact ⟨hreads, ((account_refresh_replaces_iff formatReader_lawful staleAccount).2.1 intAccount
    intBuffer [] hreads intAccount_noSlice).1 hready⟩

/-- The same response again lists its application twice; a response that leaves the amount
out leaves the old one in place. -/
theorem refresh_accumulates :
    formatReader.Lawful ∧ Reads intBuffer [intAccount.value] [] ∧
      ∃ once, parserAccountMpack formatReader intBuffer .zero = .ok (.success, once) ∧
        once.parsed.apps.map ParsedApp.appId = [7] ∧
        (refreshed formatReader intBuffer once).map (fun p => p.apps.map ParsedApp.appId) = .ok [7, 7] ∧
        (refreshed formatReader [0x80] once).map ParsedFields.amount = .ok 5 ∧
        (refreshed formatReader [0x80] .zero).map ParsedFields.amount = .ok 0 ∧
        ¬ Replaces formatReader intBuffer once := by
  have hrun : (parserAccountMpack formatReader intBuffer .zero).map
      (fun r => (r.1, r.2.parsed.apps.map ParsedApp.appId,
        (refreshed formatReader intBuffer r.2).map fun p => p.apps.map ParsedApp.appId,
        (refreshed formatReader [0x80] r.2).map ParsedFields.amount)) =
      .ok (.success, [7], .ok [7, 7], .ok 5) := by
    decide +kernel
  cases hp : parserAccountMpack formatReader intBuffer .zero with
  | error e =>
      rw [hp] at hrun
      exact nomatch hrun
  | ok r =>
      obtain ⟨err, once⟩ := r
      rw [hp] at hrun
      simp only [Except.map, Except.ok.injEq, Prod.mk.injEq] at hrun
      obtain ⟨rfl, honce, htwice, hamount⟩ := hrun
      refine ⟨formatReader_lawful, decode_eq_some_iff.mp (by rfl), once, rfl, honce, htwice, hamount,
        by decide +kernel, fun hreplaces => ?_⟩
      have hsame : (refreshed formatReader intBuffer once).map (fun p => p.apps.map ParsedApp.appId) =
          .ok [7] := by
        rw [hreplaces, refreshed, hp]
        exact congrArg Except.ok honce
      exact absurd (htwice.symm.trans hsame) (by decide)

end Vertices
