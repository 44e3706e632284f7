/-
# `Vertices.AppListing` — the applications a fetch leaves in a record

Of a record `account_has_app` reads `app_idx` and the ids before it.  A parse changes
these at two places only: an integer after `appl` is the id of the entry at `app_idx`,
and the end of an application counts it.  `Listing` is the machine that does this and
nothing else.  The parser does what it does, as long as it does not fault, from any
record and with anything in the variables.

    `parserAccountMpack_appIds`   a response appends its local states, up to the first
                                  with a byte slice and as far as there is room; behind a
                                  key that is not known it appends none
-/
import Vertices.UnknownFields

namespace Vertices

open MsgPack

/-! ## The machine -/

/-- The applications of the record, by their ids. -/
def AccountDetails.appIds (d : AccountDetails) : List UInt64 :=
  (d.appsLocal.toList.take d.appIdx).map AppsLocalState.appId

/-- The step, the ids that are counted, and the id of the entry being parsed. -/
structure Listing where
  step : ParserAccountStep
  listed : List UInt64
  current : UInt64

namespace Listing

def goto (t : Listing) (step : ParserAccountStep) : Listing := { t with step := step }

def uintElement (t : Listing) (value : UInt64) : Except Fault (RetCode × Listing) :=
  match t.step with
  | .algo | .ebase | .ern => return (.success, t.goto .root)
  | .appl =>
      if t.listed.length < appsMaxCount then
        return (.success, { t with step := .applId, current := value })
      else return (.errorNoMem, t)
  | .appKvType | .appKvValueInt => return (.success, t.goto .appKvVar)
  | .appSchNui | .appSchNbs => return (.success, t.goto .appSch)
  | .root | .applId | .appSch | .appKv | .appKvVar | .appKvValueSlice | .tsch | .tschNui =>
      return (.success, t)

def lookupKey (t : Listing) (data : Option (List UInt8)) (length : Nat)
    (keys : List (String × ParserAccountStep)) (unknown : RetCode) :
    Except Fault (RetCode × Listing) :=
  match data with
  | none => throw .nullDeref
  | some data =>
      match matchKey data length keys with
      | some step => return (.success, t.goto step)
      | none => return (unknown, t)

def stringElement (t : Listing) (data : Option (List UInt8)) (length : Nat) :
    Except Fault (RetCode × Listing) :=
  match t.step with
  | .root => t.lookupKey data length rootKeys .errorNotFound
  | .applId => t.lookupKey data length applIdKeys .errorNotFound
  | .appSch => t.lookupKey data length appSchKeys .errorNotFound
  | .appKv => return (.success, t.goto .appKvVar)
  | .appKvVar => t.lookupKey data length appKvVarKeys .errorNotFound
  | .tsch => t.lookupKey data length tschKeys .success
  | .algo | .appl | .appSchNui | .appSchNbs | .appKvType | .appKvValueInt | .appKvValueSlice
  | .ebase | .ern | .tschNui => return (.success, t)

def finishMap (t : Listing) : Except Fault (RetCode × Listing) :=
  match t.step with
  | .appKvVar => return (.success, t.goto .appKv)
  | .appKv | .appSch => return (.success, t.goto .applId)
  | .applId => return (.success, { t with step := .appl, listed := t.listed ++ [t.current] })
  | .root | .algo | .appl | .appSchNui | .appSchNbs | .appKvType | .appKvValueInt
  | .appKvValueSlice | .ebase | .ern | .tsch | .tschNui => return (.success, t.goto .root)

end Listing

def listingCallbacks : Callbacks Listing where
  nilElement t := return (.success, t)
  boolElement t _ := return (.success, t)
  intElement t _ := return (.success, t)
  uintElement := Listing.uintElement
  stringElement := Listing.stringElement
  startMap t _ := return (.success, t)
  startArray t _ := return (.success, t)
  finishMap := Listing.finishMap
  finishArray t := return (.success, t)

/-! ## The parser does what the machine does -/

/-- The machine shows the step and the ids of the parser. -/
structure Lists (s : AccountParser) (t : Listing) : Prop where
  step : t.step = s.step
  ids : t.listed = s.account.appIds
  current : s.step.inApp = true → ∀ a : Fin appsMaxCount, a.val = s.account.appIdx →
    t.current = (s.account.appsLocal.get a).appId

section Simulation

variable {s s' : AccountParser} {t : Listing} {a : Fin appsMaxCount} {err : RetCode}

theorem length_appIds {d : AccountDetails} (h : d.appIdx ≤ appsMaxCount) :
    d.appIds.length = d.appIdx := by
  rw [AccountDetails.appIds, List.length_map, List.length_take, Vector.length_toList]
  exact Nat.min_eq_left h

/-- What is written at `app_idx` is behind the ids. -/
theorem appIds_modifyApp (ha : a.val = s.account.appIdx) (f : AppsLocalState → AppsLocalState) :
    (s.modifyApp a f).account.appIds = s.account.appIds := by
  rw [AccountDetails.appIds, AccountDetails.appIds, AccountParser.modifyApp]
  dsimp only
  rw [Vector.toList_set, ha, List.take_set_of_le le_rfl]

theorem get_modifyApp (f : AppsLocalState → AppsLocalState) :
    (s.modifyApp a f).account.appsLocal.get a = f (s.account.appsLocal.get a) := by
  show (s.account.appsLocal.set a (f s.account.appsLocal[a]))[a.val] = f s.account.appsLocal[a.val]
  exact Vector.getElem_set_self _

/-- The end of an application counts its id. -/
theorem appIds_succ {d : AccountDetails} {a : Fin appsMaxCount} (ha : a.val = d.appIdx) :
    ({ d with appIdx := d.appIdx + 1 } : AccountDetails).appIds =
      d.appIds ++ [(d.appsLocal.get a).appId] := by
  have hget : d.appsLocal.toList[d.appIdx]? = some (d.appsLocal.get a) := by
    rw [← ha, Vector.getElem?_toList]
    exact Vector.getElem?_eq_getElem a.isLt
  rw [AccountDetails.appIds, AccountDetails.appIds]
  dsimp only
  rw [List.take_add_one, hget, List.map_append]
  rfl

theorem Lists.goto (h : Lists s t) {step : ParserAccountStep}
    (hstep : step.inApp = true → s.step.inApp = true) : Lists (s.goto step) (t.goto step) where
  step := rfl
  ids := h.ids
  current hin := h.current (hstep hin)

/-- A change of the variables of the application being parsed. -/
theorem Lists.modifyApp (h : Lists s t) (ha : a.val = s.account.appIdx)
    {f : AppsLocalState → AppsLocalState} (hf : ∀ app, (f app).appId = app.appId) :
    Lists (s.modifyApp a f) t where
  step := h.step
  ids := h.ids.trans (appIds_modifyApp ha f).symm
  current hin b hb := by
    obtain rfl : b = a := Fin.ext (hb.trans ha.symm)
    rw [h.current hin b ha, get_modifyApp, hf]

theorem Lists.modifyValue (h : Lists s t) (ha : a.val = s.account.appIdx)
    (idx : Fin appsKvMaxCount) (f : AppKeyValue → AppKeyValue) : Lists (s.modifyValue a idx f) t :=
  h.modifyApp ha fun _ => rfl

theorem lookupKey_lists {step : ParserAccountStep} {d : AccountDetails}
    {data : Option (List UInt8)} {length : Nat} {keys : List (String × ParserAccountStep)}
    {unknown : RetCode} (h : Lists ⟨step, d⟩ t)
    (hkeys : ∀ found ∈ keys.map Prod.snd, found.inApp = true → step.inApp = true)
    (hs : lookupKey ⟨step, d⟩ data length keys unknown = .ok (err, s')) :
    ∃ t', t.lookupKey data length keys unknown = .ok (err, t') ∧ Lists s' t' := by
  cases data with
  | none => exact absurd hs (throw_ne_ok _ _)
  | some data =>
      cases hfound : matchKey data length keys with
      | some found =>
          simp only [Vertices.lookupKey, hfound] at hs
          obtain ⟨rfl, rfl⟩ := pure_eq_ok2.mp hs
          simp only [Listing.lookupKey, hfound]
          exact ⟨_, rfl, h.goto (hkeys found (matchKey_mem hfound))⟩
      | none =>
          simp only [Vertices.lookupKey, hfound] at hs
          obtain ⟨rfl, rfl⟩ := pure_eq_ok2.mp hs
          simp only [Listing.lookupKey, hfound]
          exact ⟨t, rfl, h⟩

theorem storeValue_lists {f : AppKeyValue → AppKeyValue} (h : Lists s t) (hfits : s.Fits)
    (hin : s.step.inApp = true) (hs : storeValue s f = .ok (err, s')) :
    err = .success ∧ Lists s' (t.goto .appKvVar) := by
  obtain ⟨b, hb, hs⟩ := bind_eq_ok.mp hs
  have hcount : s.kvCount b ≤ appsKvMaxCount := hfits.account.kvCount b
  rw [if_neg (Nat.not_lt.mpr hcount)] at hs
  obtain ⟨idx, -, hs⟩ := bind_eq_ok.mp hs
  obtain ⟨rfl, rfl⟩ := pure_eq_ok2.mp hs
  exact ⟨rfl, (h.modifyValue (subscript_eq_ok.mp hb) idx f).goto fun _ => hin⟩

theorem uintElement_lists {value : UInt64} (h : Lists s t) (hfits : s.Fits)
    (hs : uintElement s value = .ok (err, s')) :
    ∃ t', t.uintElement value = .ok (err, t') ∧ Lists s' t' := by
  obtain ⟨step, d⟩ := s
  obtain ⟨step', listed, current⟩ := t
  obtain rfl : step' = step := h.step
  cases step' with
  | algo | ebase | ern =>
      obtain ⟨rfl, rfl⟩ := pure_eq_ok2.mp hs
      exact ⟨_, rfl, rfl, h.ids, nofun⟩
  | appl =>
      have hlen : listed.length = d.appIdx :=
        (congrArg List.length h.ids).trans (length_appIds hfits.account.appIdx)
      change (if d.appIdx < appsMaxCount then _ else _) = _ at hs
      show ∃ t', (if listed.length < appsMaxCount then _ else _) = _ ∧ _
      rw [hlen]
      split at hs
      · next hlt =>
          rw [if_pos hlt]
          rw [AccountParser.app_eq_ok hlt] at hs
          obtain ⟨rfl, rfl⟩ := pure_eq_ok2.mp hs
          refine ⟨_, rfl, rfl, h.ids.trans ?_, fun _ b hb => ?_⟩
          · exact (appIds_modifyApp (s := ⟨.appl, d⟩) (a := ⟨d.appIdx, hlt⟩) rfl
              fun app => { app with appId := value }).symm
          · obtain rfl : b = ⟨d.appIdx, hlt⟩ := Fin.ext hb
            exact (congrArg AppsLocalState.appId (get_modifyApp (s := ⟨.appl, d⟩)
              fun app => { app with appId := value })).symm
      · next hfull =>
          obtain ⟨rfl, rfl⟩ := pure_eq_ok2.mp hs
          rw [if_neg hfull]
          exact ⟨_, rfl, h⟩
  | appKvType | appKvValueInt =>
      obtain ⟨rfl, hlists⟩ := storeValue_lists h hfits rfl hs
      exact ⟨_, rfl, hlists⟩
  | appSchNui | appSchNbs =>
      obtain ⟨rfl, rfl⟩ := pure_eq_ok2.mp hs
      exact ⟨_, rfl, h.goto fun _ => rfl⟩
  | _ =>
      obtain ⟨rfl, rfl⟩ := pure_eq_ok2.mp hs
      exact ⟨_, rfl, h⟩

theorem stringElement_lists {data : Option (List UInt8)} {length : Nat} (h : Lists s t)
    (hs : stringElement s data length = .ok (err, s')) :
    ∃ t', t.stringElement data length = .ok (err, t') ∧ Lists s' t' := by
  obtain ⟨step, d⟩ := s
  obtain ⟨step', listed, current⟩ := t
  obtain rfl : step' = step := h.step
  cases step' with
  | root | applId | appSch | appKvVar | tsch => exact lookupKey_lists h (by decide) hs
  | appKv =>
      obtain ⟨b, hb, hs⟩ := bind_eq_ok.mp hs
      obtain ⟨idx, hidx, hs⟩ := bind_eq_ok.mp hs
      have hroom : ¬ appsKvMaxCount ≤ AccountParser.kvCount ⟨.appKv, d⟩ b := by
        rw [← subscript_eq_ok.mp hidx]
        exact Nat.not_le.mpr idx.isLt
      cases data with
      | none => exact absurd hs (throw_ne_ok _ _)
      | some data =>
          rw [if_neg hroom] at hs
          obtain ⟨rfl, rfl⟩ := pure_eq_ok2.mp hs
          exact ⟨_, rfl, (h.modifyValue (subscript_eq_ok.mp hb) idx _).goto fun _ => rfl⟩
  | _ =>
      obtain ⟨rfl, rfl⟩ := pure_eq_ok2.mp hs
      exact ⟨_, rfl, h⟩

theorem finishMap_lists (h : Lists s t) (hfits : s.Fits) (hs : finishMap s = .ok (err, s')) :
    ∃ t', t.finishMap = .ok (err, t') ∧ Lists s' t' := by
  obtain ⟨step, d⟩ := s
  obtain ⟨step', listed, current⟩ := t
  obtain rfl : step' = step := h.step
  cases step' with
  | appKvVar =>
      obtain ⟨b, hb, hs⟩ := bind_eq_ok.mp hs
      obtain ⟨rfl, rfl⟩ := pure_eq_ok2.mp hs
      refine ⟨_, rfl, Lists.goto ?_ fun _ => rfl⟩
      exact h.modifyApp (subscript_eq_ok.mp hb) fun _ => rfl
  | appKv | appSch =>
      obtain ⟨rfl, rfl⟩ := pure_eq_ok2.mp hs
      exact ⟨_, rfl, h.goto fun _ => rfl⟩
  | applId =>
      obtain ⟨rfl, rfl⟩ := pure_eq_ok2.mp hs
      refine ⟨_, rfl, rfl, ?_, nofun⟩
      have hcurrent := h.current rfl ⟨d.appIdx, hfits.app rfl⟩ rfl
      have hids := h.ids
      dsimp only at hcurrent hids ⊢
      rw [hids, hcurrent]
      exact (appIds_succ rfl).symm
  | _ =>
      obtain ⟨rfl, rfl⟩ := pure_eq_ok2.mp hs
      exact ⟨_, rfl, h.goto nofun⟩

end Simulation

/-- **The parser does what the machine does.** -/
theorem accountCallbacks_simulates :
    Simulates accountCallbacks listingCallbacks fun s t => s.Fits ∧ Lists s t := by
  rintro event s t err s' ⟨hfits, h⟩ hs
  have hroom : ¬ Made.NameWithoutRoom ⟨event, s⟩ := fun hname => by
    rw [hname.outOfBounds] at hs
    cases hs
  have hfits' : s'.Fits := (handle_staysFit hfits hroom).fits err s' hs
  suffices hlists : ∃ t', listingCallbacks.handle event t = .ok (err, t') ∧ Lists s' t' by
    obtain ⟨t', ht, hlists⟩ := hlists
    exact ⟨t', ht, hfits', hlists⟩
  cases event with
  | uint value => exact uintElement_lists h hfits hs
  | string data length => exact stringElement_lists h hs
  | finishMap => exact finishMap_lists h hfits hs
  | nil | bool _ | int _ | startMap _ | startArray _ | finishArray =>
      obtain ⟨rfl, rfl⟩ := pure_eq_ok2.mp hs
      exact ⟨t, rfl, h⟩

/-! ## An account's information -/

/-- An entry of the account's map other than the applications, known or not. -/
inductive OtherPair where
  | field (f : OtherField)
  | unknown (p : UnknownPair)

def OtherPair.entry : OtherPair → Value × Value
  | .field f => f.entry
  | .unknown p => (.str p.key, p.value)

def OtherPair.isKnown : OtherPair → Bool
  | .field _ => true
  | .unknown _ => false

/-- An account's information: its local states, if it has any, and the entries before and
behind them. -/
structure AccountInformation where
  before : List OtherPair
  localStates : Option (List LocalState)
  after : List OtherPair

def AccountInformation.appl (acc : AccountInformation) : List (Value × Value) :=
  (acc.localStates.map fun states =>
    (.str (lit "appl"), .map (states.map LocalState.entry))).toList

def AccountInformation.value (acc : AccountInformation) : Value :=
  .map (acc.before.map OtherPair.entry ++ acc.appl ++ acc.after.map OtherPair.entry)

def AccountInformation.states (acc : AccountInformation) : List LocalState :=
  acc.localStates.getD []

/-- The loop gets to the applications. -/
def AccountInformation.reachesAppl (acc : AccountInformation) : Bool := acc.before.all OtherPair.isKnown

def VarValue.isInt : VarValue → Bool
  | .int _ => true
  | .slice _ _ => false

/-- All its variables are integers. -/
def LocalState.intsOnly (state : LocalState) : Bool := state.vars.all fun v => v.value.isInt

/-- The local states before the first with a byte slice, by their ids, and none of them
behind an unknown key. -/
def AccountInformation.takenIds (acc : AccountInformation) : List UInt64 :=
  if acc.reachesAppl then (acc.states.takeWhile LocalState.intsOnly).map LocalState.id else []

/-- What a record with the ids `listed` lists after the response. -/
def AccountInformation.listAfter (acc : AccountInformation) (listed : List UInt64) : List UInt64 :=
  (listed ++ acc.takenIds).take appsMaxCount

theorem listingCallbacks_skipsSchemas (listed : List UInt64) (current : UInt64) :
    SkipsSchemas listingCallbacks fun step => ⟨step, listed, current⟩ where
  startMap _ _ := rfl
  key {step step' key} h := by
    have hkey : ∀ (keys : List (String × ParserAccountStep)) unknown,
        matchKey key key.length keys = some step' →
        Listing.lookupKey ⟨step, listed, current⟩ (some key) key.length keys unknown =
          .ok (.success, ⟨step', listed, current⟩) := by
      intro keys unknown hk
      simp only [Listing.lookupKey, hk]
      rfl
    cases step with
    | root | applId | appSch | appKvVar | tsch => exact hkey _ _ h
    | _ => exact nomatch h
  number := by rintro step (rfl | rfl) n <;> rfl
  finish := rfl
  totalKey := by
    rintro step key hmiss (rfl | rfl)
    · show Listing.lookupKey _ (some key) key.length tschKeys _ = _
      simp only [Listing.lookupKey, show matchKey key key.length tschKeys = none from hmiss]
      rfl
    · rfl
  totalNumber := by rintro step (rfl | rfl) n <;> rfl
  totalFinish := by rintro step (rfl | rfl) <;> rfl

section Aligned

variable {R : MpackReader} (hR : R.Lawful) {levels : Nat} {listed : List UInt64} {current : UInt64}

include hR

theorem lists_key {step step' : ParserAccountStep} {key : List UInt8}
    (h : matchKey key key.length (keysAt step) = some step') :
    Walks R listingCallbacks (levels + 1) (.str key) ⟨step, listed, current⟩
      ⟨step', listed, current⟩ :=
  .str hR ((listingCallbacks_skipsSchemas listed current).key h)

theorem lists_otherField (f : OtherField) :
    WalksPairs R listingCallbacks (levels + 2) [f.entry] ⟨.root, listed, current⟩
      ⟨.root, listed, current⟩ := by
  cases f with
  | algo n =>
      have hkey : Walks R listingCallbacks (levels + 2) (.str (lit "algo"))
          ⟨.root, listed, current⟩ ⟨.algo, listed, current⟩ := lists_key hR (by decide)
      exact .cons hkey (walks_uint hR n rfl) .nil
  | ebase n =>
      have hkey : Walks R listingCallbacks (levels + 2) (.str (lit "ebase"))
          ⟨.root, listed, current⟩ ⟨.ebase, listed, current⟩ := lists_key hR (by decide)
      exact .cons hkey (walks_uint hR n rfl) .nil
  | ern n =>
      have hkey : Walks R listingCallbacks (levels + 2) (.str (lit "ern"))
          ⟨.root, listed, current⟩ ⟨.ern, listed, current⟩ := lists_key hR (by decide)
      exact .cons hkey (walks_uint hR n rfl) .nil
  | tsch schema =>
      have hkey : Walks R listingCallbacks (levels + 2) (.str (lit "tsch"))
          ⟨.root, listed, current⟩ ⟨.tsch, listed, current⟩ := lists_key hR (by decide)
      exact .cons hkey (walks_tsch hR (listingCallbacks_skipsSchemas listed current) schema) .nil

theorem lists_otherFields (fields : List OtherField) :
    WalksPairs R listingCallbacks (levels + 2) (fields.map OtherField.entry)
      ⟨.root, listed, current⟩ ⟨.root, listed, current⟩ := by
  induction fields with
  | nil => exact .nil
  | cons f fields ih => exact (lists_otherField hR f).append ih

/-- The type of a variable. -/
theorem lists_type (v : Variable) :
    WalksPairs R listingCallbacks (levels + 1) [v.typePair] ⟨.appKvVar, listed, current⟩
      ⟨.appKvVar, listed, current⟩ := by
  have hkey : Walks R listingCallbacks (levels + 1) (.str (lit "tt"))
      ⟨.appKvVar, listed, current⟩ ⟨.appKvType, listed, current⟩ := lists_key hR (by decide)
  exact .cons hkey (walks_uint hR v.tt rfl) .nil

theorem lists_variable {v : Variable} (hv : v.value.isInt = true) :
    WalksPairs R listingCallbacks (levels + 2) [v.entry] ⟨.appKv, listed, current⟩
      ⟨.appKv, listed, current⟩ := by
  have hname : Walks R listingCallbacks (levels + 2) (.str v.name) ⟨.appKv, listed, current⟩
      ⟨.appKvVar, listed, current⟩ := .str hR rfl
  have hint : WalksPairs R listingCallbacks (levels + 1) [v.value.pair]
      ⟨.appKvVar, listed, current⟩ ⟨.appKvVar, listed, current⟩ := by
    cases hval : v.value with
    | int ui =>
        have hkey : Walks R listingCallbacks (levels + 1) (.str (lit "ui"))
            ⟨.appKvVar, listed, current⟩ ⟨.appKvValueInt, listed, current⟩ :=
          lists_key hR (by decide)
        exact .cons hkey (walks_uint hR ui rfl) .nil
    | slice _ _ =>
        rw [hval] at hv
        exact nomatch hv
  have hpairs : WalksPairs R listingCallbacks (levels + 1) v.pairs
      ⟨.appKvVar, listed, current⟩ ⟨.appKvVar, listed, current⟩ := by
    rw [Variable.pairs]
    split
    · exact (lists_type hR v).append hint
    · exact hint.append (lists_type hR v)
  exact .cons hname (.map hR rfl hpairs rfl) .nil

theorem lists_variables {vars : List Variable} (hv : ∀ v ∈ vars, v.value.isInt = true) :
    WalksPairs R listingCallbacks (levels + 2) (vars.map Variable.entry)
      ⟨.appKv, listed, current⟩ ⟨.appKv, listed, current⟩ := by
  induction vars with
  | nil => exact .nil
  | cons v vars ih =>
      exact (lists_variable hR (hv v List.mem_cons_self)).append
        (ih fun w hw => hv w (List.mem_cons_of_mem _ hw))

theorem lists_schemaPairs (state : LocalState) :
    WalksPairs R listingCallbacks (levels + 2) state.schemaPairs ⟨.applId, listed, current⟩
      ⟨.applId, listed, current⟩ := by
  rw [LocalState.schemaPairs]
  cases state.hsch with
  | none => exact .nil
  | some schema =>
      have hkey : Walks R listingCallbacks (levels + 2) (.str (lit "hsch"))
          ⟨.applId, listed, current⟩ ⟨.appSch, listed, current⟩ := lists_key hR (by decide)
      exact .cons hkey (walks_hsch hR (listingCallbacks_skipsSchemas listed current) schema) .nil

theorem lists_variablePairs {state : LocalState} (hint : state.intsOnly = true) :
    WalksPairs R listingCallbacks (levels + 3) state.variablePairs ⟨.applId, listed, current⟩
      ⟨.applId, listed, current⟩ := by
  have hint : ∀ v ∈ state.vars, v.value.isInt = true := List.all_eq_true.mp hint
  rw [LocalState.vars] at hint
  rw [LocalState.variablePairs]
  cases htkv : state.tkv with
  | none => exact .nil
  | some vars =>
      rw [htkv] at hint
      have hkey : Walks R listingCallbacks (levels + 3) (.str (lit "tkv"))
          ⟨.applId, listed, current⟩ ⟨.appKv, listed, current⟩ := lists_key hR (by decide)
      exact .cons hkey (.map hR rfl (lists_variables hR hint) rfl) .nil

/-- The id of a local state, where there is room. -/
theorem lists_id (hroom : listed.length < appsMaxCount) (state : LocalState) :
    Walks R listingCallbacks (levels + 1) state.entry.1 ⟨.appl, listed, current⟩
      ⟨.applId, listed, state.id⟩ :=
  walks_uint hR state.id (if_pos hroom)

/-- A local state whose variables are integers is listed. -/
theorem lists_localState {state : LocalState} (hroom : listed.length < appsMaxCount)
    (hint : state.intsOnly = true) :
    WalksPairs R listingCallbacks (levels + 4) [state.entry] ⟨.appl, listed, current⟩
      ⟨.appl, listed ++ [state.id], state.id⟩ := by
  have hpairs : WalksPairs R listingCallbacks (levels + 3) state.pairs
      ⟨.applId, listed, state.id⟩ ⟨.applId, listed, state.id⟩ := by
    rw [LocalState.pairs]
    split
    · exact (lists_schemaPairs hR state).append (lists_variablePairs hR hint)
    · exact (lists_variablePairs hR hint).append (lists_schemaPairs hR state)
  exact .cons (lists_id hR hroom state) (.map hR rfl hpairs rfl) .nil

theorem lists_localStates : ∀ {states : List LocalState} {listed : List UInt64} (current : UInt64),
    listed.length + states.length ≤ appsMaxCount → (∀ state ∈ states, state.intsOnly = true) →
    ∃ current', WalksPairs R listingCallbacks (levels + 4) (states.map LocalState.entry)
      ⟨.appl, listed, current⟩ ⟨.appl, listed ++ states.map LocalState.id, current'⟩ := by
  intro states
  induction states with
  | nil =>
      intro listed current _ _
      rw [List.map_nil, List.map_nil, List.append_nil]
      exact ⟨current, .nil⟩
  | cons state states ih =>
      intro listed current hlen hint
      rw [List.length_cons] at hlen
      have hlen' : (listed ++ [state.id]).length + states.length ≤ appsMaxCount := by
        rw [List.length_append, List.length_singleton]
        omega
      obtain ⟨current', htail⟩ := ih state.id hlen' fun other hother =>
        hint other (List.mem_cons_of_mem _ hother)
      rw [List.append_assoc, List.singleton_append] at htail
      exact ⟨current', (lists_localState hR (by omega) (hint state List.mem_cons_self)).append htail⟩

end Aligned

/-! ## Where the ids stay as they are -/

/-- Outside the applications, or at the next one with every entry taken. -/
def Settled (listed : List UInt64) (t : Listing) : Prop :=
  t.listed = listed ∧ (t.step.Outside ∨ t.step = .appl ∧ appsMaxCount ≤ listed.length)

/-- The string does not lead back to the applications, or there is no room there. -/
def Settling (listed : List UInt64) (s : List UInt8) : Prop :=
  TakenForAppl s → appsMaxCount ≤ listed.length

theorem Settled.lookupKey {listed : List UInt64} {t : Listing} {data : List UInt8}
    {keys : List (String × ParserAccountStep)} {unknown : RetCode} (ht : Settled listed t)
    (hkeys : ∀ step, matchKey data data.length keys = some step →
      step.Outside ∨ step = .appl ∧ appsMaxCount ≤ listed.length) :
    ∃ err t', t.lookupKey (some data) data.length keys unknown = .ok (err, t') ∧ Settled listed t' := by
  rw [Listing.lookupKey]
  cases hm : matchKey data data.length keys with
  | none => exact ⟨unknown, t, rfl, ht⟩
  | some step => exact ⟨.success, t.goto step, rfl, ht.1, hkeys step hm⟩

theorem callbacksKeep_settled (listed : List UInt64) :
    CallbacksKeep listingCallbacks (Settling listed) (Settled listed) where
  nilElement _ := rfl
  boolElement _ _ := rfl
  intElement _ _ := rfl
  startArray _ _ := rfl
  finishArray _ := rfl
  uintElement {ctx} value ht := by
    obtain ⟨step, l, current⟩ := ctx
    obtain ⟨rfl, hstep⟩ := ht
    rcases hstep with hout | ⟨rfl, hfull⟩
    · cases step with
      | root | algo | ebase | ern | tsch | tschNui | appKvValueSlice =>
          exact ⟨_, _, rfl, rfl, .inl trivial⟩
      | _ => exact hout.elim
    · exact ⟨_, _, if_neg (Nat.not_lt.mpr hfull), rfl, .inr ⟨rfl, hfull⟩⟩
  stringElement {ctx s} hS ht := by
    obtain ⟨step, l, current⟩ := ctx
    obtain ⟨rfl, hstep⟩ := ht
    rcases hstep with hout | ⟨rfl, hfull⟩
    · cases step with
      | root =>
          refine Settled.lookupKey ⟨rfl, .inl trivial⟩ fun step hm => ?_
          have hmem := matchKey_mem hm
          simp only [rootKeys, List.map_cons, List.map_nil, List.mem_cons, List.not_mem_nil,
            or_false] at hmem
          rcases hmem with rfl | rfl | rfl | rfl | rfl
          case inr.inl => exact .inr ⟨rfl, hS hm⟩
          all_goals exact .inl trivial
      | tsch =>
          refine Settled.lookupKey ⟨rfl, .inl trivial⟩ fun step hm => ?_
          have hmem := matchKey_mem hm
          rw [tschKeys, List.map_singleton, List.mem_singleton] at hmem
          rw [hmem]
          exact .inl trivial
      | algo | ebase | ern | tschNui | appKvValueSlice => exact ⟨_, _, rfl, rfl, .inl trivial⟩
      | _ => exact hout.elim
    · exact ⟨_, _, rfl, rfl, .inr ⟨rfl, hfull⟩⟩
  startMap _ _ := rfl
  finishMap {ctx} ht := by
    obtain ⟨step, l, current⟩ := ctx
    obtain ⟨rfl, hstep⟩ := ht
    rcases hstep with hout | ⟨rfl, hfull⟩
    · cases step with
      | root | algo | ebase | ern | tsch | tschNui | appKvValueSlice =>
          exact ⟨_, _, rfl, rfl, .inl trivial⟩
      | _ => exact hout.elim
    · exact ⟨_, _, rfl, rfl, .inl trivial⟩

/-- `Strays`, towards a list of ids that stays. -/
abbrev Settles (R : MpackReader) (levels : Nat) (listed : List UInt64) (v : Value) (t : Listing) :
    Prop :=
  Strays R listingCallbacks (Settling listed) (Settled listed) levels v t

theorem innerKeys_settling (listed : List UInt64) : ∀ key ∈ innerKeys, Settling listed (lit key) :=
  fun key hkey htaken => absurd htaken (innerKeys_plain key hkey)

section Settling

variable {R : MpackReader} (hR : R.Lawful) {levels : Nat} {listed : List UInt64} {current : UInt64}

include hR

/-- After the key of a byte slice the step is outside. -/
theorem settles_variable {v : Variable} (hin : v.In (Settling listed))
    (hv : v.value.isInt = false) :
    Settles R (levels + 2) listed v.entry.2 ⟨.appKvVar, listed, current⟩ := by
  cases hval : v.value with
  | int ui =>
      rw [hval] at hv
      exact nomatch hv
  | slice tb binary =>
      have hkey : Walks R listingCallbacks (levels + 1) (.str (lit "tb"))
          ⟨.appKvVar, listed, current⟩ ⟨.appKvValueSlice, listed, current⟩ :=
        lists_key hR (by decide)
      have hslice : Settles R (levels + 1) listed (if binary then .bin tb else .str tb)
          ⟨.appKvValueSlice, listed, current⟩ :=
        .of_stringsIn hR (callbacksKeep_settled listed) (hin.slice hval) ⟨rfl, .inl trivial⟩
      rw [Variable.entry, Variable.pairs, hval]
      split
      · exact .map hR (callbacksKeep_settled listed) rfl (lists_type hR v) hkey hslice
          (List.forall_mem_nil _)
      · refine .map hR (callbacksKeep_settled listed) rfl .nil hkey hslice fun w hw => ?_
        simp only [Variable.typePair, flatten, List.mem_cons, List.not_mem_nil, or_false] at hw
        rcases hw with rfl | rfl
        · exact stringsIn_key (innerKeys_settling listed) "tt" (by decide)
        · exact .uint _

theorem settles_variables {vars : List Variable} (hin : ∀ v ∈ vars, v.In (Settling listed))
    (hv : ∃ v ∈ vars, ¬ v.value.isInt = true) :
    Settles R (levels + 3) listed (.map (vars.map Variable.entry)) ⟨.appKv, listed, current⟩ := by
  obtain ⟨before, v, after, rfl, hint, hv⟩ := exists_first hv
  have hname : Walks R listingCallbacks (levels + 2) (.str v.name) ⟨.appKv, listed, current⟩
      ⟨.appKvVar, listed, current⟩ := .str hR rfl
  rw [List.map_append, List.map_cons]
  exact .map hR (callbacksKeep_settled listed) rfl (lists_variables hR hint) hname
    (settles_variable hR (hin v (by simp)) (Bool.eq_false_iff.mpr hv))
    (stringsIn_flatten fun w hw => (hin w (by simp [hw])).entry (innerKeys_settling listed))

theorem settles_localState {state : LocalState} (hin : ∀ v ∈ state.vars, v.In (Settling listed))
    (hv : state.intsOnly = false) :
    Settles R (levels + 4) listed state.entry.2 ⟨.applId, listed, current⟩ := by
  have hv : ∃ v ∈ state.vars, ¬ v.value.isInt = true := by
    simpa [LocalState.intsOnly] using hv
  rw [LocalState.vars] at hin hv
  cases htkv : state.tkv with
  | none =>
      rw [htkv] at hv
      obtain ⟨v, hmem, -⟩ := hv
      exact absurd hmem List.not_mem_nil
  | some vars =>
      rw [htkv, Option.getD_some] at hin hv
      have hkey : Walks R listingCallbacks (levels + 3) (.str (lit "tkv"))
          ⟨.applId, listed, current⟩ ⟨.appKv, listed, current⟩ := lists_key hR (by decide)
      have hvars : Settles R (levels + 3) listed (.map (vars.map Variable.entry))
          ⟨.appKv, listed, current⟩ := settles_variables hR hin hv
      rw [LocalState.entry, LocalState.pairs, LocalState.variablePairs, htkv]
      split
      · exact .map hR (callbacksKeep_settled listed) rfl (lists_schemaPairs hR state) hkey hvars
          (List.forall_mem_nil _)
      · exact .map hR (callbacksKeep_settled listed) rfl .nil hkey hvars
          (stringsIn_schemaPairs (innerKeys_settling listed) state)

/-- The entries run out within local states whose variables are integers. -/
theorem settles_full {taken rest : List LocalState} (hlen : listed.length ≤ appsMaxCount)
    (htaken : ∀ state ∈ taken, state.intsOnly = true)
    (hfull : appsMaxCount ≤ listed.length + taken.length) :
    Settles R (levels + 5) ((listed ++ taken.map LocalState.id).take appsMaxCount)
      (.map ((taken ++ rest).map LocalState.entry)) ⟨.appl, listed, current⟩ := by
  let fitting := taken.take (appsMaxCount - listed.length)
  let after := listed ++ fitting.map LocalState.id
  have hafter : (listed ++ taken.map LocalState.id).take appsMaxCount = after := by
    rw [List.take_append, List.take_of_length_le hlen, ← List.map_take]
  have hfit : listed.length + fitting.length = appsMaxCount := by
    rw [List.length_take]
    omega
  have hsplit : fitting ++ (taken.drop (appsMaxCount - listed.length) ++ rest) = taken ++ rest := by
    rw [← List.append_assoc, List.take_append_drop]
  obtain ⟨current', hwalk⟩ : ∃ current', WalksPairs R listingCallbacks (levels + 4)
      (fitting.map LocalState.entry) ⟨.appl, listed, current⟩ ⟨.appl, after, current'⟩ :=
    lists_localStates hR current hfit.le fun state hs => htaken state (List.mem_of_mem_take hs)
  have hroom : appsMaxCount ≤ after.length := by
    rw [List.length_append, List.length_map]
    exact hfit.ge
  have hin : ∀ v : Variable, v.In (Settling after) := fun v =>
    ⟨fun _ => hroom, fun _ _ _ _ => hroom⟩
  rw [hafter, ← hsplit, List.map_append]
  exact .map_of_keeps hR (callbacksKeep_settled after) rfl hwalk ⟨rfl, .inr ⟨rfl, hroom⟩⟩
    (stringsIn_flatten fun state _ =>
      stringsIn_localState (innerKeys_settling after) fun v _ => hin v)

/-- A local state with a byte slice follows local states that fit. -/
theorem settles_slice {taken rest : List LocalState} {state : LocalState}
    (hroom : listed.length + taken.length < appsMaxCount)
    (htaken : ∀ state ∈ taken, state.intsOnly = true) (hslice : state.intsOnly = false)
    (hplain : ∀ other ∈ state :: rest, ∀ v ∈ other.vars, v.Plain) :
    Settles R (levels + 5) (listed ++ taken.map LocalState.id)
      (.map ((taken ++ state :: rest).map LocalState.entry)) ⟨.appl, listed, current⟩ := by
  obtain ⟨current', hwalk⟩ : ∃ current', WalksPairs R listingCallbacks (levels + 4)
      (taken.map LocalState.entry) ⟨.appl, listed, current⟩
      ⟨.appl, listed ++ taken.map LocalState.id, current'⟩ :=
    lists_localStates hR current hroom.le htaken
  have hin : ∀ other ∈ state :: rest, ∀ v ∈ other.vars,
      v.In (Settling (listed ++ taken.map LocalState.id)) := by
    intro other ho v hv
    have hp := hplain other ho v hv
    exact ⟨fun h => absurd h hp.1, fun tb binary hval h => absurd h (hp.2 tb binary hval)⟩
  have hid : Walks R listingCallbacks (levels + 4) state.entry.1
      ⟨.appl, listed ++ taken.map LocalState.id, current'⟩
      ⟨.applId, listed ++ taken.map LocalState.id, state.id⟩ := by
    refine lists_id hR ?_ state
    rw [List.length_append, List.length_map]
    exact hroom
  rw [List.map_append, List.map_cons]
  exact .map hR (callbacksKeep_settled _) rfl hwalk hid
    (settles_localState hR (hin state List.mem_cons_self) hslice)
    (stringsIn_flatten fun other ho => stringsIn_localState (innerKeys_settling _)
      (hin other (List.mem_cons_of_mem _ ho)))

/-- The local states of an account: they are listed to the last, or the list is settled, as
no entry is left or there is a byte slice. -/
theorem lists_states {states : List LocalState} (hlen : listed.length ≤ appsMaxCount)
    (hplain : (∃ state ∈ states, state.intsOnly = false) →
      ∀ state ∈ states, ∀ v ∈ state.vars, v.Plain) :
    let after := (listed ++ (states.takeWhile LocalState.intsOnly).map LocalState.id).take appsMaxCount
    (∃ current', Walks R listingCallbacks (levels + 5) (.map (states.map LocalState.entry))
      ⟨.appl, listed, current⟩ ⟨.root, after, current'⟩) ∨
    Settles R (levels + 5) after (.map (states.map LocalState.entry)) ⟨.appl, listed, current⟩ ∧
      (appsMaxCount ≤ after.length ∨ ∃ state ∈ states, state.intsOnly = false) := by
  have htaken : ∀ state ∈ states.takeWhile LocalState.intsOnly, state.intsOnly = true :=
    fun state hs => List.mem_takeWhile_imp hs
  have hstates : states.takeWhile LocalState.intsOnly ++ states.dropWhile LocalState.intsOnly =
      states := List.takeWhile_append_dropWhile
  generalize states.takeWhile LocalState.intsOnly = taken at htaken hstates
  intro after
  by_cases hfull : appsMaxCount ≤ listed.length + taken.length
  · have hroom : appsMaxCount ≤ after.length := by
      rw [List.length_take, List.length_append, List.length_map, min_eq_left hfull]
    refine .inr ⟨?_, .inl hroom⟩
    rw [← hstates]
    exact settles_full hR hlen htaken hfull
  · have hafter : after = listed ++ taken.map LocalState.id := by
      refine List.take_of_length_le ?_
      rw [List.length_append, List.length_map]
      omega
    rw [hafter]
    cases hdrop : states.dropWhile LocalState.intsOnly with
    | nil =>
        rw [hdrop, List.append_nil] at hstates
        subst hstates
        obtain ⟨current', hwalk⟩ : ∃ current', WalksPairs R listingCallbacks (levels + 4)
            (taken.map LocalState.entry) ⟨.appl, listed, current⟩
            ⟨.appl, listed ++ taken.map LocalState.id, current'⟩ :=
          lists_localStates hR current (Nat.le_of_not_le hfull) htaken
        exact .inl ⟨current', .map hR rfl hwalk rfl⟩
    | cons state rest =>
        have hslice : state.intsOnly = false := by
          have hhead := List.head?_dropWhile_not LocalState.intsOnly states
          rw [hdrop] at hhead
          exact hhead
        rw [hdrop] at hstates
        have hmem : ∀ other ∈ state :: rest, other ∈ states := fun other ho =>
          hstates ▸ List.mem_append_right taken ho
        have hsome : ∃ state ∈ states, state.intsOnly = false :=
          ⟨state, hmem state List.mem_cons_self, hslice⟩
        refine .inr ⟨?_, .inr hsome⟩
        rw [← hstates]
        exact settles_slice hR (Nat.lt_of_not_le hfull) htaken hslice fun other ho =>
          hplain hsome other (hmem other ho)

end Settling

/-- The loop gets to a local state with a byte slice among its variables. -/
def AccountInformation.HasSlice (acc : AccountInformation) : Prop :=
  acc.reachesAppl = true ∧ ∃ state ∈ acc.states, state.intsOnly = false

/-- No name, no byte slice and no string in an unknown pair behind is taken for `appl`. -/
structure AccountInformation.Plain (acc : AccountInformation) : Prop where
  states : ∀ state ∈ acc.states, ∀ v ∈ state.vars, v.Plain
  after : ∀ p, .unknown p ∈ acc.after → PlainValue p.value

/-- The fields in front of the first unknown pair, and that pair where there is one. -/
theorem known_or_unknown (pairs : List OtherPair) :
    (∃ fields : List OtherField, pairs = fields.map .field) ∨
      ∃ (fields : List OtherField) (p : UnknownPair) (behind : List OtherPair),
        pairs = fields.map .field ++ .unknown p :: behind := by
  induction pairs with
  | nil => exact .inl ⟨[], rfl⟩
  | cons e pairs ih =>
      cases e with
      | unknown p => exact .inr ⟨[], p, pairs, rfl⟩
      | field f =>
          rcases ih with ⟨fields, rfl⟩ | ⟨fields, p, behind, rfl⟩
          · exact .inl ⟨f :: fields, rfl⟩
          · exact .inr ⟨f :: fields, p, behind, rfl⟩

theorem map_entry_field (fields : List OtherField) :
    (fields.map OtherPair.field).map OtherPair.entry = fields.map OtherField.entry := by
  rw [List.map_map]
  rfl

theorem exists_unread_others (pairs : List OtherPair) :
    ∃ (fields : List OtherField) (behind : List (Value × Value)), Unread behind ∧
      pairs.map OtherPair.entry = fields.map OtherField.entry ++ behind := by
  rcases known_or_unknown pairs with ⟨fields, rfl⟩ | ⟨fields, p, behind, rfl⟩
  · refine ⟨fields, [], .inl rfl, ?_⟩
    rw [map_entry_field, List.append_nil]
  · refine ⟨fields, _, .inr ⟨p, behind.map OtherPair.entry, rfl⟩, ?_⟩
    rw [List.map_append, map_entry_field]
    rfl

/-- The pairs behind the applications do not lead back to them. -/
theorem stringsIn_others {pairs : List OtherPair} {listed : List UInt64}
    (h : appsMaxCount ≤ listed.length ∨ ∀ p, .unknown p ∈ pairs → PlainValue p.value) :
    ∀ w ∈ flatten (pairs.map OtherPair.entry), StringsIn (Settling listed) w := by
  refine stringsIn_flatten fun e he => ?_
  cases e with
  | field f => exact stringsIn_otherField (innerKeys_settling listed) f
  | unknown p =>
      have hkey : ¬ TakenForAppl p.key := fun htaken => nomatch p.matchKey_key.symm.trans htaken
      refine ⟨.str fun htaken => absurd htaken hkey, ?_⟩
      rcases h with hfull | hplain
      · exact stringsIn_of_forall (fun _ _ => hfull) p.value
      · exact (hplain p he).mono fun s hs htaken => absurd htaken hs

theorem listAfter_of_reaches {acc : AccountInformation} (h : acc.reachesAppl = true)
    (listed : List UInt64) : acc.listAfter listed =
      (listed ++ (acc.states.takeWhile LocalState.intsOnly).map LocalState.id).take appsMaxCount := by
  rw [AccountInformation.listAfter, AccountInformation.takenIds, if_pos h]

theorem listAfter_of_not_reaches {acc : AccountInformation} (h : ¬ acc.reachesAppl = true)
    {listed : List UInt64} (hlen : listed.length ≤ appsMaxCount) : acc.listAfter listed = listed := by
  rw [AccountInformation.listAfter, AccountInformation.takenIds, if_neg h, List.append_nil,
    List.take_of_length_le hlen]

section Response

variable {R : MpackReader} (hR : R.Lawful)

include hR

/-- The loop walks over the first pairs and does not get past the next. -/
theorem parse_listing_unread {kvs behind : List (Value × Value)} {listed after : List UInt64}
    {current current' : UInt64}
    (hkvs : WalksPairs R listingCallbacks 31 kvs ⟨.root, listed, current⟩ ⟨.root, after, current'⟩)
    (hbehind : Unread behind) {buf rest : List UInt8} (hbuf : Reads buf [.map (kvs ++ behind)] rest) :
    ∃ err reader t, parseElement R listingCallbacks 32 ⟨buf, true⟩ ⟨.root, listed, current⟩ =
      .ok (err, reader, t) ∧ t.listed = after := by
  have hkey : ∀ p : UnknownPair,
      Listing.stringElement ⟨.root, after, current'⟩ (some p.key) p.key.length =
        .ok (.errorNotFound, ⟨.root, after, current'⟩) := by
    intro p
    show Listing.lookupKey _ (some p.key) p.key.length rootKeys _ = _
    simp only [Listing.lookupKey, p.matchKey_key]
    rfl
  obtain ⟨reader, hparse⟩ := parseElement_unread hR (fun _ => rfl) hkvs hkey rfl hbehind hbuf
  exact ⟨.success, reader, _, hparse, rfl⟩

/-- Past the applications the loop goes on over the fields it knows, or it has strayed. -/
theorem parse_listing_states {fields : List OtherField} {states : List LocalState}
    {after : List OtherPair} {listed : List UInt64} (current : UInt64)
    (hlen : listed.length ≤ appsMaxCount)
    (hplain : (∃ state ∈ states, state.intsOnly = false) →
      (∀ state ∈ states, ∀ v ∈ state.vars, v.Plain) ∧
        ∀ p, .unknown p ∈ after → PlainValue p.value)
    {buf rest : List UInt8} (hbuf : Reads buf [.map (fields.map OtherField.entry ++
      (.str (lit "appl"), .map (states.map LocalState.entry)) :: after.map OtherPair.entry)] rest) :
    ∃ err reader t, parseElement R listingCallbacks 32 ⟨buf, true⟩ ⟨.root, listed, current⟩ =
      .ok (err, reader, t) ∧ t.listed =
        (listed ++ (states.takeWhile LocalState.intsOnly).map LocalState.id).take appsMaxCount := by
  have hfields : WalksPairs R listingCallbacks 31 (fields.map OtherField.entry)
      ⟨.root, listed, current⟩ ⟨.root, listed, current⟩ := lists_otherFields hR fields
  have hkey : Walks R listingCallbacks 31 (.str (lit "appl")) ⟨.root, listed, current⟩
      ⟨.appl, listed, current⟩ := lists_key hR (by decide)
  have hstates := @lists_states R hR 26 listed current states hlen fun hslice => (hplain hslice).1
  rcases hstates with ⟨current', hwalk⟩ | ⟨hsettles, hstays⟩
  · generalize (listed ++ (states.takeWhile LocalState.intsOnly).map LocalState.id).take appsMaxCount
      = listed' at hwalk ⊢
    obtain ⟨fields', unread, hunread, hafter⟩ := exists_unread_others after
    have hothers : WalksPairs R listingCallbacks 31 (fields'.map OtherField.entry)
        ⟨.root, listed', current'⟩ ⟨.root, listed', current'⟩ := lists_otherFields hR fields'
    rw [hafter, ← List.cons_append, ← List.append_assoc] at hbuf
    exact parse_listing_unread hR (hfields.append (.cons hkey hwalk hothers)) hunread hbuf
  · have hbehind := stringsIn_others (hstays.imp_right fun hslice => (hplain hslice).2)
    obtain ⟨err, reader, t, hparse, hsettled, -⟩ :=
      Strays.map hR (callbacksKeep_settled _) rfl hfields hkey hsettles hbehind 0 buf [] rest hbuf
        (Nat.zero_le _) (List.forall_mem_nil _)
    exact ⟨err, reader, t, hparse, hsettled.1⟩

/-- What the machine lists of a response. -/
theorem parse_listing {acc : AccountInformation} {listed : List UInt64} (current : UInt64)
    (hlen : listed.length ≤ appsMaxCount) (hplain : acc.HasSlice → acc.Plain)
    {buf rest : List UInt8} (hbuf : Reads buf [acc.value] rest) :
    ∃ err reader t, parseElement R listingCallbacks 32 ⟨buf, true⟩ ⟨.root, listed, current⟩ =
      .ok (err, reader, t) ∧ t.listed = acc.listAfter listed := by
  obtain ⟨before, localStates, after⟩ := acc
  rw [AccountInformation.value] at hbuf
  rcases known_or_unknown before with ⟨fields, rfl⟩ | ⟨fields, p, behind, rfl⟩
  · have hreaches : AccountInformation.reachesAppl ⟨fields.map .field, localStates, after⟩ = true := by
      simp [AccountInformation.reachesAppl, OtherPair.isKnown]
    rw [listAfter_of_reaches hreaches]
    rw [map_entry_field, List.append_assoc] at hbuf
    cases localStates with
    | none =>
        obtain ⟨fields', unread, hunread, hafter⟩ := exists_unread_others after
        have hpairs : WalksPairs R listingCallbacks 31
            (fields.map OtherField.entry ++ fields'.map OtherField.entry)
            ⟨.root, listed, current⟩ ⟨.root, listed, current⟩ :=
          (lists_otherFields hR fields).append (lists_otherFields hR fields')
        have hnone : (listed ++ []).take appsMaxCount = listed := by
          rw [List.append_nil, List.take_of_length_le hlen]
        have hbuf : Reads buf [.map (fields.map OtherField.entry ++ after.map OtherPair.entry)] rest :=
          hbuf
        rw [hafter, ← List.append_assoc] at hbuf
        obtain ⟨err, reader, t, hparse, hlisted⟩ := parse_listing_unread hR hpairs hunread hbuf
        exact ⟨err, reader, t, hparse, hlisted.trans hnone.symm⟩
    | some states =>
        exact parse_listing_states hR current hlen (fun hslice =>
          ⟨(hplain ⟨hreaches, hslice⟩).states, (hplain ⟨hreaches, hslice⟩).after⟩) hbuf
  · have hnot : ¬ AccountInformation.reachesAppl
        ⟨fields.map .field ++ .unknown p :: behind, localStates, after⟩ = true := by
      simp [AccountInformation.reachesAppl, OtherPair.isKnown]
    rw [listAfter_of_not_reaches hnot hlen]
    rw [List.map_append, map_entry_field, List.append_assoc, List.append_assoc] at hbuf
    exact parse_listing_unread hR (lists_otherFields hR fields) (.inr ⟨p, _, rfl⟩) hbuf

end Response

/-- The ids of the record after a response, whatever was in the record. -/
theorem parserAccountMpack_appIds {R : MpackReader} (hR : R.Lawful) {acc : AccountInformation}
    (hplain : acc.HasSlice → acc.Plain) {buf rest : List UInt8} (hbuf : Reads buf [acc.value] rest)
    {d d' : AccountDetails} {err : RetCode} (hd : d.Fits)
    (h : parserAccountMpack R buf d = .ok (err, d')) : d'.appIds = acc.listAfter d.appIds := by
  obtain ⟨⟨e, reader, s⟩, hs, h⟩ := bind_eq_ok.mp h
  obtain ⟨-, rfl⟩ := pure_eq_ok2.mp h
  have hstart : AccountParser.Fits ⟨.root, d⟩ ∧ Lists ⟨.root, d⟩ ⟨.root, d.appIds, 0⟩ :=
    ⟨.outside hd rfl rfl, rfl, rfl, nofun⟩
  obtain ⟨t, ht, -, hlists⟩ := parseElement_simulates (R := R) accountCallbacks_simulates 32
    (mpackReaderInitData buf) _ _ hstart _ _ _ hs
  have hlen : d.appIds.length ≤ appsMaxCount := (length_appIds hd.appIdx).trans_le hd.appIdx
  rw [← hlists.ids]
  obtain ⟨e', reader', t', hparse, hlisted⟩ := parse_listing hR 0 hlen hplain hbuf
  rw [mpackReaderInitData, hparse] at ht
  cases ht
  exact hlisted

end Vertices
