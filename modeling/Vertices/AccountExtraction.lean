/-
# `Vertices.AccountExtraction` — the parser takes over an account, if it has no byte slice

The step of the parser follows the nesting of the map as long as every variable is an
integer.  `finish_map` leaves a variable's map by the step `FIELD_APP_KV_VAR`, to which
`uint_element` returns after a type and after an integer; nothing returns to it after a
byte slice.  From there the end of the map leads to the root, and the entry is never
counted.
-/
import Mathlib.Data.List.GetD
import Vertices.AccountResponse

namespace Vertices

open MsgPack

/-! ## Arrays filled from the front -/

/-- The array that starts with `l`; behind it stands what stood in `old`. -/
def table {α : Type} {n : Nat} (old : Vector α n) (l : List α) : Vector α n :=
  Vector.ofFn fun i => l.getD i old[i]

@[simp] theorem table_get {α : Type} {n : Nat} (old : Vector α n) (l : List α) (i : Fin n) :
    (table old l)[i] = l.getD i old[i] := by
  simp [table]

@[simp] theorem table_nil {α : Type} {n : Nat} (old : Vector α n) : table old [] = old := by
  apply Vector.ext
  intro i hi
  rw [table, Vector.getElem_ofFn]
  rfl

/-- Writing the entry after `l`, whatever was there. -/
theorem table_set {α : Type} {n : Nat} (old : Vector α n) (l t : List α) (a : α) (h : l.length < n) :
    (table old (l ++ t)).set l.length a = table old (l ++ a :: t.tail) := by
  apply Vector.ext
  intro i hi
  rw [Vector.getElem_set, table, table, Vector.getElem_ofFn, Vector.getElem_ofFn]
  split
  · next h0 => simp [← h0]
  · next h0 =>
      rw [List.getD_eq_getElem?_getD, List.getD_eq_getElem?_getD]
      congr 1
      rcases Nat.lt_or_gt_of_ne h0 with hlt | hgt
      · obtain ⟨m, hm⟩ := Nat.exists_eq_add_of_lt hlt
        have hsub : i - l.length = m + 1 := by omega
        rw [List.getElem?_append_right hlt.le, List.getElem?_append_right hlt.le, hsub,
          List.getElem?_cons_succ, List.getElem?_tail]
      · rw [List.getElem?_append_left hgt, List.getElem?_append_left hgt]

/-- The entry after `l`. -/
theorem table_last {α : Type} {n : Nat} (old : Vector α n) (l t : List α) (h : l.length < n) :
    (table old (l ++ t))[l.length] = t.headD old[l.length] := by
  rw [table, Vector.getElem_ofFn, List.getD_append_right _ _ _ _ le_rfl, Nat.sub_self]
  cases t <;> rfl

/-! ## The record while an application is parsed -/

/-- All bytes zero. -/
def AppsLocalState.zero : AppsLocalState := { appId := 0, keyValues := .zero }

/-- `apps_local[i]`, as long as there is such an entry. -/
def AccountDetails.slot (a : AccountDetails) (i : Nat) : AppsLocalState := a.appsLocal[i]?.getD .zero

theorem AccountDetails.slot_eq (a : AccountDetails) {i : Nat} (h : i < appsMaxCount) :
    a.slot i = a.appsLocal[i] := by
  simp [slot, h]

/-- `app_idx` is `idx`, and `apps_local` starts with `slots`. -/
def withApps (a : AccountDetails) (idx : Nat) (slots : List AppsLocalState) : AccountDetails :=
  { a with appIdx := idx, appsLocal := table a.appsLocal slots }

/-- The entry `old` with `count` variables counted and `kvs` written. -/
def slotWith (old : AppsLocalState) (id : UInt64) (count : Nat) (kvs : List AppKeyValue) :
    AppsLocalState :=
  { appId := id, keyValues := { count := count, values := table old.keyValues.values kvs } }

/-- The parser at `step`, with `done` parsed before and `slot` being parsed. -/
def inApp (step : ParserAccountStep) (a : AccountDetails) (done : List AppsLocalState)
    (slot : AppsLocalState) : AccountParser :=
  { step := step, account := withApps a done.length (done ++ [slot]) }

/-- The parser between two applications. -/
def betweenApps (a : AccountDetails) (done : List AppsLocalState) : AccountParser :=
  { step := .appl, account := withApps a done.length done }

/-- The parser between two variables of the application `id`. -/
def betweenVars (a : AccountDetails) (done : List AppsLocalState) (id : UInt64)
    (kvs : List AppKeyValue) : AccountParser :=
  inApp .appKv a done (slotWith (a.slot done.length) id kvs.length kvs)

/-- The parser at `step`, with the variable `kv` being parsed. -/
def inVar (step : ParserAccountStep) (a : AccountDetails) (done : List AppsLocalState) (id : UInt64)
    (kvs : List AppKeyValue) (kv : AppKeyValue) : AccountParser :=
  inApp step a done (slotWith (a.slot done.length) id kvs.length (kvs ++ [kv]))

/-- The entry `old` when only its name is stored. -/
def named (old : AppKeyValue) (name : List UInt8) : AppKeyValue :=
  { old with name := storedName name name.length }

/-- What is stored for a variable; of a byte slice, the value is not. -/
def Variable.stored (v : Variable) : AppKeyValue :=
  match v.value with
  | .int ui => { named .zero v.name with type := .ofUInt64 v.tt, value := uint64Bytes ui }
  | .slice _ _ => { named .zero v.name with type := .ofUInt64 v.tt }

def Variable.IsInt (v : Variable) : Prop := ∃ ui, v.value = .int ui

/-- What an application leaves of the entry `old`. -/
def App.slot (app : App) (old : AppsLocalState) : AppsLocalState :=
  slotWith old app.id app.vars.length (app.vars.map Variable.stored)

/-- What applications leave of the entries `old`, from the entry `k` on. -/
def appSlots (old : Nat → AppsLocalState) : Nat → List App → List AppsLocalState
  | _, [] => []
  | k, app :: apps => app.slot (old k) :: appSlots old (k + 1) apps

@[simp] theorem length_appSlots (old : Nat → AppsLocalState) (k : Nat) (apps : List App) :
    (appSlots old k apps).length = apps.length := by
  induction apps generalizing k with
  | nil => rfl
  | cons app apps ih => rw [appSlots, List.length_cons, List.length_cons, ih]

theorem getElem?_appSlots (old : Nat → AppsLocalState) (k : Nat) (apps : List App) (i : Nat) :
    (appSlots old k apps)[i]? = apps[i]?.map fun app => app.slot (old (k + i)) := by
  induction apps generalizing k i with
  | nil => rfl
  | cons app apps ih =>
      cases i with
      | zero => rfl
      | succ i =>
          rw [appSlots, List.getElem?_cons_succ, List.getElem?_cons_succ, ih, Nat.add_right_comm,
            Nat.add_assoc]

theorem AccountParser.app_eq {s : AccountParser} {n : Nat} (h : s.account.appIdx = n)
    (hn : n < appsMaxCount) : s.app = .ok ⟨n, hn⟩ := by
  rw [AccountParser.app, h]
  exact subscript_val ⟨n, hn⟩

/-- The application being parsed, changed. -/
theorem modifyApp_withApps {step : ParserAccountStep} {a : AccountDetails} {idx : Nat}
    {done t : List AppsLocalState} (hd : done.length < appsMaxCount)
    (f : AppsLocalState → AppsLocalState) :
    AccountParser.modifyApp ⟨step, withApps a idx (done ++ t)⟩ ⟨done.length, hd⟩ f =
      ⟨step, withApps a idx (done ++ f (t.headD (a.slot done.length)) :: t.tail)⟩ := by
  simp only [AccountParser.modifyApp, withApps, Fin.getElem_fin]
  rw [table_last, table_set, AccountDetails.slot_eq a hd]

theorem kvCount_inApp {step : ParserAccountStep} {a : AccountDetails} {done : List AppsLocalState}
    {slot : AppsLocalState} (hd : done.length < appsMaxCount) :
    (inApp step a done slot).kvCount ⟨done.length, hd⟩ = slot.keyValues.count := by
  simp only [AccountParser.kvCount, inApp, withApps, Fin.getElem_fin]
  rw [table_last]
  rfl

/-- The variable being parsed, changed. -/
theorem modifyValue_inApp {step : ParserAccountStep} {a : AccountDetails} {done : List AppsLocalState}
    {old : AppsLocalState} {id : UInt64} {count : Nat} {kvs t : List AppKeyValue}
    (hd : done.length < appsMaxCount) (hk : kvs.length < appsKvMaxCount)
    (f : AppKeyValue → AppKeyValue) :
    (inApp step a done (slotWith old id count (kvs ++ t))).modifyValue ⟨done.length, hd⟩
        ⟨kvs.length, hk⟩ f =
      inApp step a done (slotWith old id count
        (kvs ++ f (t.headD old.keyValues.values[kvs.length]) :: t.tail)) := by
  rw [AccountParser.modifyValue, inApp, modifyApp_withApps hd]
  simp only [List.headD_cons, List.tail_cons, slotWith, Fin.getElem_fin]
  rw [table_last, table_set]
  rfl

/-! ## Keys -/

/-- The keys a step knows. -/
def keysAt : ParserAccountStep → List (String × ParserAccountStep)
  | .root => rootKeys
  | .applId => applIdKeys
  | .appSch => appSchKeys
  | .appKvVar => appKvVarKeys
  | .tsch => tschKeys
  | _ => []

theorem lookupKey_known {s : AccountParser} {key : List UInt8} {step : ParserAccountStep}
    {keys : List (String × ParserAccountStep)} {unknown : RetCode}
    (h : matchKey key key.length keys = some step) :
    lookupKey s (some key) key.length keys unknown = .ok (.success, s.goto step) := by
  simp only [lookupKey, h]
  rfl

theorem stringElement_key {step step' : ParserAccountStep} {acc : AccountDetails} {key : List UInt8}
    (h : matchKey key key.length (keysAt step) = some step') :
    stringElement ⟨step, acc⟩ (some key) key.length = .ok (.success, ⟨step', acc⟩) := by
  cases step with
  | root | applId | appSch | appKvVar | tsch => exact lookupKey_known h
  | _ => exact nomatch h

section Aligned

variable {R : MpackReader} (hR : R.Lawful) {levels : Nat}

include hR

theorem walks_key {step step' : ParserAccountStep} {acc : AccountDetails} {key : List UInt8}
    (h : matchKey key key.length (keysAt step) = some step') :
    Walks R accountCallbacks (levels + 1) (.str key) ⟨step, acc⟩ ⟨step', acc⟩ :=
  .str hR (stringElement_key h)

theorem walks_uint {σ : Type} {cb : Callbacks σ} {s s' : σ} (n : UInt64)
    (h : cb.uintElement s n = .ok (.success, s')) :
    Walks R cb (levels + 1) (.uint n.toNat) s s' :=
  .uint hR (by rw [UInt64.ofNat_toNat]; exact h)

/-! ## Schemas -/

omit hR in
/-- In a schema only the step `cb` is at changes: `f step` is the context at `step`. -/
structure SkipsSchemas {σ : Type} (cb : Callbacks σ) (f : ParserAccountStep → σ) : Prop where
  startMap : ∀ step n, cb.startMap (f step) n = .ok (.success, f step)
  key : ∀ {step step' key}, matchKey key key.length (keysAt step) = some step' →
    cb.stringElement (f step) (some key) key.length = .ok (.success, f step')
  number : ∀ {step}, step = .appSchNui ∨ step = .appSchNbs → ∀ n,
    cb.uintElement (f step) n = .ok (.success, f .appSch)
  finish : cb.finishMap (f .appSch) = .ok (.success, f .applId)
  totalKey : ∀ {step key}, matchKey key key.length (keysAt step) = none →
    step = .tsch ∨ step = .tschNui →
    cb.stringElement (f step) (some key) key.length = .ok (.success, f step)
  totalNumber : ∀ {step}, step = .tsch ∨ step = .tschNui → ∀ n,
    cb.uintElement (f step) n = .ok (.success, f step)
  totalFinish : ∀ {step}, step = .tsch ∨ step = .tschNui →
    cb.finishMap (f step) = .ok (.success, f .root)

omit hR in
theorem accountCallbacks_skipsSchemas (acc : AccountDetails) :
    SkipsSchemas accountCallbacks fun step => ⟨step, acc⟩ where
  startMap _ _ := rfl
  key := stringElement_key
  number := by rintro step (rfl | rfl) n <;> rfl
  finish := rfl
  totalKey := by
    rintro step key hmiss (rfl | rfl)
    · show lookupKey _ (some key) key.length tschKeys _ = _
      simp only [lookupKey, show matchKey key key.length tschKeys = none from hmiss]
      rfl
    · rfl
  totalNumber := by rintro step (rfl | rfl) n <;> rfl
  totalFinish := by rintro step (rfl | rfl) <;> rfl

section Schemas

variable {σ : Type} {cb : Callbacks σ} {f : ParserAccountStep → σ} (hcb : SkipsSchemas cb f)

include hcb

/-- The schema of an application is skipped. -/
theorem walks_hsch (schema : Schema) :
    Walks R cb (levels + 2) schema.value (f .appSch) (f .applId) := by
  have hpairs : WalksPairs R cb (levels + 1)
      (schema.map fun kv => (.str kv.1.text, .uint kv.2.toNat)) (f .appSch) (f .appSch) := by
    induction schema with
    | nil => exact .nil
    | cons kv schema ih =>
        obtain ⟨key, n⟩ := kv
        cases key with
        | nui =>
            have hkey : Walks R cb (levels + 1) (.str (lit "nui")) (f .appSch) (f .appSchNui) :=
              .str hR (hcb.key (by decide))
            exact .cons hkey (walks_uint hR n (hcb.number (.inl rfl) n)) ih
        | nbs =>
            have hkey : Walks R cb (levels + 1) (.str (lit "nbs")) (f .appSch) (f .appSchNbs) :=
              .str hR (hcb.key (by decide))
            exact .cons hkey (walks_uint hR n (hcb.number (.inr rfl) n)) ih
  exact .map hR (hcb.startMap _ _) hpairs hcb.finish

/-- The total schema is skipped: after `nui` the step no longer looks at keys. -/
theorem walks_tsch (schema : Schema) :
    Walks R cb (levels + 2) schema.value (f .tsch) (f .root) := by
  have hpairs : ∀ (schema : Schema) step, step = .tsch ∨ step = .tschNui → ∃ step',
      (step' = .tsch ∨ step' = .tschNui) ∧ WalksPairs R cb (levels + 1)
        (schema.map fun kv => (.str kv.1.text, .uint kv.2.toNat)) (f step) (f step') := by
    intro schema
    induction schema with
    | nil => exact fun step hs => ⟨step, hs, .nil⟩
    | cons kv schema ih =>
        obtain ⟨key, n⟩ := kv
        intro step hs
        cases hm : matchKey key.text key.text.length (keysAt step) with
        | none =>
            have hkey : Walks R cb (levels + 1) (.str key.text) (f step) (f step) :=
              .str hR (hcb.totalKey hm hs)
            obtain ⟨step', hs', h⟩ := ih step hs
            exact ⟨step', hs', .cons hkey (walks_uint hR n (hcb.totalNumber hs n)) h⟩
        | some found =>
            have hfound : found = .tschNui := by
              rcases hs with rfl | rfl
              · simpa [keysAt, tschKeys] using matchKey_mem hm
              · exact nomatch hm
            have hkey : Walks R cb (levels + 1) (.str key.text) (f step) (f found) :=
              .str hR (hcb.key hm)
            subst hfound
            obtain ⟨step', hs', h⟩ := ih .tschNui (.inr rfl)
            exact ⟨step', hs', .cons hkey (walks_uint hR n (hcb.totalNumber (.inr rfl) n)) h⟩
  obtain ⟨step', hs', h⟩ := hpairs schema .tsch (.inl rfl)
  exact .map hR (hcb.startMap _ _) h (hcb.totalFinish hs')

end Schemas

/-! ## Variables -/

omit hR in
/-- A type or an integer is stored in the variable being parsed. -/
theorem storeValue_inVar {step : ParserAccountStep} {a : AccountDetails} {done : List AppsLocalState}
    {id : UInt64} {kvs : List AppKeyValue} {kv : AppKeyValue} (hd : done.length < appsMaxCount)
    (hk : kvs.length < appsKvMaxCount) (f : AppKeyValue → AppKeyValue) :
    storeValue (inVar step a done id kvs kv) f = .ok (.success, inVar .appKvVar a done id kvs (f kv)) := by
  have happ : (inVar step a done id kvs kv).app = .ok ⟨done.length, hd⟩ :=
    AccountParser.app_eq rfl hd
  have hcount : (inVar step a done id kvs kv).kvCount ⟨done.length, hd⟩ = kvs.length :=
    kvCount_inApp hd
  have hidx : subscript appsKvMaxCount kvs.length = .ok ⟨kvs.length, hk⟩ :=
    subscript_val ⟨kvs.length, hk⟩
  rw [storeValue, happ]
  show (if appsKvMaxCount < _ then _ else _) = _
  rw [hcount, if_neg (by omega), hidx]
  show Except.ok (RetCode.success, AccountParser.goto _ _) = _
  rw [inVar, modifyValue_inApp hd hk]
  rfl

omit hR in
/-- The name of a variable opens the next entry. -/
theorem stringElement_name {a : AccountDetails} {done : List AppsLocalState} {id : UInt64}
    {kvs : List AppKeyValue} (hd : done.length < appsMaxCount) (hk : kvs.length < appsKvMaxCount)
    (name : List UInt8) :
    stringElement (betweenVars a done id kvs) (some name) name.length =
      .ok (.success, inVar .appKvVar a done id kvs
        (named (a.slot done.length).keyValues.values[kvs.length] name)) := by
  have happ : (betweenVars a done id kvs).app = .ok ⟨done.length, hd⟩ := AccountParser.app_eq rfl hd
  have hcount : (betweenVars a done id kvs).kvCount ⟨done.length, hd⟩ = kvs.length :=
    kvCount_inApp hd
  have hidx : subscript appsKvMaxCount kvs.length = .ok ⟨kvs.length, hk⟩ :=
    subscript_val ⟨kvs.length, hk⟩
  have hval : (inApp .appKv a done
      (slotWith (a.slot done.length) id kvs.length (kvs ++ []))).modifyValue
        ⟨done.length, hd⟩ ⟨kvs.length, hk⟩
        (fun kv => { kv with name := storedName name name.length }) =
      inApp .appKv a done (slotWith (a.slot done.length) id kvs.length
        (kvs ++ [named (a.slot done.length).keyValues.values[kvs.length] name])) :=
    modifyValue_inApp hd hk _
  rw [List.append_nil] at hval
  show (AccountParser.app _ >>= _) = _
  rw [happ]
  show (subscript appsKvMaxCount (AccountParser.kvCount _ _) >>= _) = _
  rw [hcount, hidx]
  show Except.ok (if appsKvMaxCount ≤ kvs.length then _ else _,
    AccountParser.goto (AccountParser.modifyValue _ _ _ _) _) = _
  rw [if_neg (by omega), betweenVars, hval]
  rfl

omit hR in
/-- The end of a variable's map counts the variable. -/
theorem finishMap_inVar {a : AccountDetails} {done : List AppsLocalState} {id : UInt64}
    {kvs : List AppKeyValue} {kv : AppKeyValue} (hd : done.length < appsMaxCount) :
    finishMap (inVar .appKvVar a done id kvs kv) =
      .ok (.success, betweenVars a done id (kvs ++ [kv])) := by
  have happ : (inVar .appKvVar a done id kvs kv).app = .ok ⟨done.length, hd⟩ :=
    AccountParser.app_eq rfl hd
  show (AccountParser.app _ >>= _) = _
  rw [happ]
  show Except.ok (RetCode.success, AccountParser.goto (AccountParser.modifyApp _ _ _) _) = _
  rw [inVar, inApp, modifyApp_withApps hd, betweenVars, List.length_append, List.length_singleton]
  rfl

/-- The type of a variable. -/
theorem walks_type {a : AccountDetails} {done : List AppsLocalState} {id : UInt64}
    {kvs : List AppKeyValue} {kv : AppKeyValue} (hd : done.length < appsMaxCount)
    (hk : kvs.length < appsKvMaxCount) (v : Variable) :
    WalksPairs R accountCallbacks (levels + 1) [v.typePair] (inVar .appKvVar a done id kvs kv)
      (inVar .appKvVar a done id kvs { kv with type := .ofUInt64 v.tt }) := by
  have hkey : Walks R accountCallbacks (levels + 1) (.str (lit "tt"))
      (inVar .appKvVar a done id kvs kv) (inVar .appKvType a done id kvs kv) :=
    walks_key hR (by decide)
  exact .cons hkey (walks_uint hR v.tt (storeValue_inVar hd hk _)) .nil

/-- The integer of a variable. -/
theorem walks_int {a : AccountDetails} {done : List AppsLocalState} {id : UInt64}
    {kvs : List AppKeyValue} {kv : AppKeyValue} (hd : done.length < appsMaxCount)
    (hk : kvs.length < appsKvMaxCount) (ui : UInt64) :
    WalksPairs R accountCallbacks (levels + 1) [(VarValue.int ui).pair]
      (inVar .appKvVar a done id kvs kv)
      (inVar .appKvVar a done id kvs { kv with value := uint64Bytes ui }) := by
  have hkey : Walks R accountCallbacks (levels + 1) (.str (lit "ui"))
      (inVar .appKvVar a done id kvs kv) (inVar .appKvValueInt a done id kvs kv) :=
    walks_key hR (by decide)
  exact .cons hkey (walks_uint hR ui (storeValue_inVar hd hk _)) .nil

/-- An integer variable becomes the next entry. -/
theorem walks_variable {a : AccountDetails} {done : List AppsLocalState} {id : UInt64}
    {kvs : List AppKeyValue} {v : Variable} (hd : done.length < appsMaxCount)
    (hk : kvs.length < appsKvMaxCount) (hv : v.IsInt) :
    WalksPairs R accountCallbacks (levels + 2) [v.entry] (betweenVars a done id kvs)
      (betweenVars a done id (kvs ++ [v.stored])) := by
  obtain ⟨ui, hv⟩ := hv
  let old := (a.slot done.length).keyValues.values[kvs.length]
  have hname : Walks R accountCallbacks (levels + 2) (.str v.name) (betweenVars a done id kvs)
      (inVar .appKvVar a done id kvs (named old v.name)) := .str hR (stringElement_name hd hk v.name)
  -- the type and the integer overwrite what the entry held
  have hpairs : WalksPairs R accountCallbacks (levels + 1) v.pairs
      (inVar .appKvVar a done id kvs (named old v.name)) (inVar .appKvVar a done id kvs v.stored) := by
    rw [Variable.pairs, Variable.stored, hv]
    split
    · exact (walks_type hR hd hk v).append (walks_int hR hd hk ui)
    · exact (walks_int hR hd hk ui).append (walks_type hR hd hk v)
  exact .cons hname (.map hR rfl hpairs (finishMap_inVar hd)) .nil

theorem walks_variables {a : AccountDetails} {done : List AppsLocalState} {id : UInt64}
    (hd : done.length < appsMaxCount) : ∀ {vars : List Variable} {kvs : List AppKeyValue},
      kvs.length + vars.length ≤ appsKvMaxCount → (∀ v ∈ vars, v.IsInt) →
      WalksPairs R accountCallbacks (levels + 2) (vars.map Variable.entry)
        (betweenVars a done id kvs) (betweenVars a done id (kvs ++ vars.map Variable.stored)) := by
  intro vars
  induction vars with
  | nil =>
      intro kvs _ _
      rw [List.map_nil, List.map_nil, List.append_nil]
      exact .nil
  | cons v vars ih =>
      intro kvs hlen hint
      rw [List.length_cons] at hlen
      have hlen' : (kvs ++ [v.stored]).length + vars.length ≤ appsKvMaxCount := by
        rw [List.length_append, List.length_singleton]
        omega
      have htail : WalksPairs R accountCallbacks (levels + 2) (vars.map Variable.entry)
          (betweenVars a done id (kvs ++ [v.stored]))
          (betweenVars a done id ((kvs ++ [v.stored]) ++ vars.map Variable.stored)) :=
        ih hlen' fun w hw => hint w (List.mem_cons_of_mem _ hw)
      rw [List.append_assoc, List.singleton_append] at htail
      exact (walks_variable hR hd (by omega) (hint v List.mem_cons_self)).append htail

/-! ## Applications -/

omit hR in
/-- The id of an application opens the next slot, if no variable is counted there. -/
theorem uintElement_id {a : AccountDetails} {done : List AppsLocalState}
    (hd : done.length < appsMaxCount) (hzero : (a.slot done.length).keyValues.count = 0)
    (id : UInt64) :
    uintElement (betweenApps a done) id =
      .ok (.success, inApp .applId a done (slotWith (a.slot done.length) id 0 [])) := by
  have happ : (betweenApps a done).app = .ok ⟨done.length, hd⟩ := AccountParser.app_eq rfl hd
  have hmod : AccountParser.modifyApp ⟨.appl, withApps a done.length (done ++ [])⟩ ⟨done.length, hd⟩
      (fun app => { app with appId := id }) =
        inApp .appl a done (slotWith (a.slot done.length) id 0 []) := by
    rw [modifyApp_withApps hd, slotWith, table_nil, ← hzero]
    rfl
  rw [List.append_nil] at hmod
  show (if _ < appsMaxCount then _ else _) = _
  rw [if_pos (show (betweenApps a done).account.appIdx < appsMaxCount from hd), happ]
  show Except.ok (RetCode.success, AccountParser.goto (AccountParser.modifyApp _ _ _) _) = _
  rw [betweenApps, hmod]
  rfl

theorem walks_schemaPairs {acc : AccountDetails} (app : App) :
    WalksPairs R accountCallbacks (levels + 2) app.schemaPairs ⟨.applId, acc⟩ ⟨.applId, acc⟩ := by
  rw [App.schemaPairs]
  cases app.hsch with
  | none => exact .nil
  | some schema =>
      have hkey : Walks R accountCallbacks (levels + 2) (.str (lit "hsch")) ⟨.applId, acc⟩
          ⟨.appSch, acc⟩ := walks_key hR (by decide)
      exact .cons hkey (walks_hsch hR (accountCallbacks_skipsSchemas acc) schema) .nil

theorem walks_variablePairs {a : AccountDetails} {done : List AppsLocalState} (app : App)
    (hd : done.length < appsMaxCount) (hint : ∀ v ∈ app.vars, v.IsInt) :
    WalksPairs R accountCallbacks (levels + 3) app.variablePairs
      (inApp .applId a done (slotWith (a.slot done.length) app.id 0 []))
      (inApp .applId a done (app.slot (a.slot done.length))) := by
  have hfew := app.few
  rw [App.slot]
  rw [App.vars] at hint ⊢
  rw [App.variablePairs]
  cases htkv : app.tkv with
  | none => exact .nil
  | some vars =>
      rw [htkv, Option.getD_some] at hfew hint
      have hkey : Walks R accountCallbacks (levels + 3) (.str (lit "tkv"))
          (inApp .applId a done (slotWith (a.slot done.length) app.id 0 []))
          (betweenVars a done app.id []) := walks_key hR (by decide)
      have hvars : WalksPairs R accountCallbacks (levels + 2) (vars.map Variable.entry)
          (betweenVars a done app.id []) (betweenVars a done app.id ([] ++ vars.map Variable.stored)) :=
        walks_variables hR hd (by rw [List.length_nil, Nat.zero_add]; exact hfew) hint
      rw [List.nil_append, betweenVars, betweenVars, List.length_map] at hvars
      exact .cons hkey (.map hR rfl hvars rfl) .nil

/-- An application whose variables are integers fills the next slot. -/
theorem walks_app {a : AccountDetails} {done : List AppsLocalState} (app : App)
    (hd : done.length < appsMaxCount) (hzero : (a.slot done.length).keyValues.count = 0)
    (hint : ∀ v ∈ app.vars, v.IsInt) :
    WalksPairs R accountCallbacks (levels + 4) [app.entry] (betweenApps a done)
      (betweenApps a (done ++ [app.slot (a.slot done.length)])) := by
  have hid : Walks R accountCallbacks (levels + 4) (.uint app.id.toNat) (betweenApps a done)
      (inApp .applId a done (slotWith (a.slot done.length) app.id 0 [])) :=
    walks_uint hR app.id (uintElement_id hd hzero app.id)
  have hpairs : WalksPairs R accountCallbacks (levels + 3) app.pairs
      (inApp .applId a done (slotWith (a.slot done.length) app.id 0 []))
      (inApp .applId a done (app.slot (a.slot done.length))) := by
    rw [App.pairs]
    split
    · exact (walks_schemaPairs hR app).append (walks_variablePairs hR app hd hint)
    · exact (walks_variablePairs hR app hd hint).append (walks_schemaPairs hR app)
  have hfinish : finishMap (inApp .applId a done (app.slot (a.slot done.length))) =
      .ok (.success, betweenApps a (done ++ [app.slot (a.slot done.length)])) := by
    rw [betweenApps, List.length_append]
    rfl
  exact .cons hid (.map hR rfl hpairs hfinish) .nil

theorem walks_apps {a : AccountDetails} : ∀ {apps : List App} {done : List AppsLocalState},
    done.length + apps.length ≤ appsMaxCount →
    (∀ i < apps.length, (a.slot (done.length + i)).keyValues.count = 0) →
    (∀ app ∈ apps, ∀ v ∈ app.vars, v.IsInt) →
    WalksPairs R accountCallbacks (levels + 4) (apps.map App.entry) (betweenApps a done)
      (betweenApps a (done ++ appSlots a.slot done.length apps)) := by
  intro apps
  induction apps with
  | nil =>
      intro done _ _ _
      rw [List.map_nil, appSlots, List.append_nil]
      exact .nil
  | cons app apps ih =>
      intro done hlen hzero hint
      rw [List.length_cons] at hlen
      have hdone : (done ++ [app.slot (a.slot done.length)]).length = done.length + 1 := by
        rw [List.length_append, List.length_singleton]
      have hzero' : ∀ i < apps.length, (a.slot ((done ++ [app.slot (a.slot done.length)]).length +
          i)).keyValues.count = 0 := by
        intro i hi
        rw [hdone, Nat.add_right_comm, Nat.add_assoc]
        exact hzero (i + 1) (by rw [List.length_cons]; omega)
      have htail : WalksPairs R accountCallbacks (levels + 4) (apps.map App.entry)
          (betweenApps a (done ++ [app.slot (a.slot done.length)])) (betweenApps a
            ((done ++ [app.slot (a.slot done.length)]) ++
              appSlots a.slot (done ++ [app.slot (a.slot done.length)]).length apps)) :=
        ih (by omega) hzero' fun b hb => hint b (List.mem_cons_of_mem _ hb)
      rw [hdone, List.append_assoc, List.singleton_append] at htail
      have hhead : WalksPairs R accountCallbacks (levels + 4) [app.entry] (betweenApps a done)
          (betweenApps a (done ++ [app.slot (a.slot done.length)])) :=
        walks_app hR app (by omega) (hzero 0 (by rw [List.length_cons]; omega))
          (hint app List.mem_cons_self)
      exact hhead.append htail

/-! ## The account -/

/-- What a field leaves in the record. -/
def Field.store (acc : AccountDetails) : Field → AccountDetails
  | .algo n => { acc with info := { acc.info with amount := uint64ToInt32 (UInt64.ofNat n.val) } }
  | .ebase n => { acc with rewardBase := uint64ToInt32 (UInt64.ofNat n.val) }
  | .ern n => { acc with rewards := uint64ToInt32 (UInt64.ofNat n.val) }
  | .tsch _ => acc
  | .appl apps => withApps acc apps.list.length (appSlots acc.slot 0 apps.list)

/-- Every variable of every application is an integer. -/
def Field.IntsOnly : Field → Prop
  | .appl apps => ∀ app ∈ apps.list, ∀ v ∈ app.vars, v.IsInt
  | _ => True

/-- No application has been parsed, and no variable is counted in the first `n` entries. -/
structure AccountDetails.ClearFor (n : Nat) (a : AccountDetails) : Prop where
  appIdx : a.appIdx = 0
  count : ∀ i < n, (a.slot i).keyValues.count = 0

omit hR in
/-- Where no application has been parsed, the first is next. -/
theorem AccountDetails.ClearFor.betweenApps {n : Nat} {a : AccountDetails} (h : a.ClearFor n) :
    (⟨.appl, a⟩ : AccountParser) = betweenApps a [] := by
  rw [Vertices.betweenApps, withApps, List.length_nil, table_nil, ← h.appIdx]

/-- `apps_local` has room for the applications of the field. -/
def Field.ClearIn (a : AccountDetails) : Field → Prop
  | .appl apps => a.ClearFor apps.list.length
  | _ => True

theorem walks_field {acc : AccountDetails} (f : Field) (hint : f.IntsOnly)
    (hclear : f.ClearIn acc) :
    WalksPairs R accountCallbacks (levels + 5) [f.entry] ⟨.root, acc⟩ ⟨.root, f.store acc⟩ := by
  cases f with
  | algo n =>
      have hkey : Walks R accountCallbacks (levels + 5) (.str (lit "algo")) ⟨.root, acc⟩
          ⟨.algo, acc⟩ := walks_key hR (by decide)
      exact .cons hkey (.uint hR rfl) .nil
  | ebase n =>
      have hkey : Walks R accountCallbacks (levels + 5) (.str (lit "ebase")) ⟨.root, acc⟩
          ⟨.ebase, acc⟩ := walks_key hR (by decide)
      exact .cons hkey (.uint hR rfl) .nil
  | ern n =>
      have hkey : Walks R accountCallbacks (levels + 5) (.str (lit "ern")) ⟨.root, acc⟩
          ⟨.ern, acc⟩ := walks_key hR (by decide)
      exact .cons hkey (.uint hR rfl) .nil
  | tsch schema =>
      have hkey : Walks R accountCallbacks (levels + 5) (.str (lit "tsch")) ⟨.root, acc⟩
          ⟨.tsch, acc⟩ := walks_key hR (by decide)
      exact .cons hkey (walks_tsch hR (accountCallbacks_skipsSchemas acc) schema) .nil
  | appl apps =>
      have hkey : Walks R accountCallbacks (levels + 5) (.str (lit "appl")) ⟨.root, acc⟩
          ⟨.appl, acc⟩ := walks_key hR (by decide)
      rw [AccountDetails.ClearFor.betweenApps hclear] at hkey
      have happs : WalksPairs R accountCallbacks (levels + 4) (apps.list.map App.entry)
          (betweenApps acc []) (betweenApps acc ([] ++ appSlots acc.slot 0 apps.list)) := by
        refine walks_apps hR (by rw [List.length_nil, Nat.zero_add]; exact apps.few) ?_ hint
        intro i hi
        rw [List.length_nil, Nat.zero_add]
        exact hclear.count i hi
      rw [List.nil_append] at happs
      have hfinish : finishMap (betweenApps acc (appSlots acc.slot 0 apps.list)) =
          .ok (.success, ⟨.root, Field.store acc (.appl apps)⟩) := by
        rw [Field.store, betweenApps, length_appSlots]
        rfl
      exact .cons hkey (.map hR rfl happs hfinish) .nil

omit hR in
theorem AccountDetails.ClearFor.store {n : Nat} {acc : AccountDetails} {f : Field}
    (h : acc.ClearFor n) (hf : f.key ≠ "appl") : (f.store acc).ClearFor n := by
  cases f with
  | appl _ => exact absurd rfl hf
  | _ => exact ⟨h.appIdx, h.count⟩

omit hR in
theorem AccountDetails.ClearFor.foldl {n : Nat} : ∀ {fields : List Field} {acc : AccountDetails},
    acc.ClearFor n → (∀ f ∈ fields, f.key ≠ "appl") → (fields.foldl Field.store acc).ClearFor n := by
  intro fields
  induction fields with
  | nil =>
      intro acc h _
      exact h
  | cons f fields ih =>
      intro acc h hf
      rw [List.foldl_cons]
      exact ih (h.store (hf f List.mem_cons_self)) fun g hg => hf g (List.mem_cons_of_mem _ hg)

omit hR in
theorem Field.ClearIn.store {acc : AccountDetails} {f g : Field} (h : g.ClearIn acc)
    (hf : g.key = "appl" → f.key ≠ "appl") : g.ClearIn (f.store acc) := by
  cases g with
  | appl _ => exact AccountDetails.ClearFor.store h (hf rfl)
  | _ => trivial

theorem walks_fields : ∀ {fields : List Field} {acc : AccountDetails},
    (fields.map Field.key).Nodup → (∀ f ∈ fields, f.IntsOnly) → (∀ f ∈ fields, f.ClearIn acc) →
    WalksPairs R accountCallbacks (levels + 5) (fields.map Field.entry) ⟨.root, acc⟩
      ⟨.root, fields.foldl Field.store acc⟩ := by
  intro fields acc hn hint hclear
  have hone : ∀ acc (f : Field), f.IntsOnly ∧ f.ClearIn acc →
      WalksPairs R accountCallbacks (levels + 5) [f.entry] ⟨.root, acc⟩ ⟨.root, f.store acc⟩ :=
    fun acc f hf => walks_field hR f hf.1 hf.2
  have hnext : ∀ acc (f g : Field), f.key ≠ g.key → g.IntsOnly ∧ g.ClearIn acc →
      g.IntsOnly ∧ g.ClearIn (f.store acc) := fun acc f g hne hg =>
    ⟨hg.1, hg.2.store fun hg' hf => hne (hf.trans hg'.symm)⟩
  exact .foldl (f := AccountParser.mk .root) hone hnext (List.pairwise_map.mp hn)
    fun f hf => ⟨hint f hf, hclear f hf⟩

end Aligned

/-- The run of the parser on an account without byte slices. -/
theorem parserAccountMpack_ints {R : MpackReader} (hR : R.Lawful) {acc : AccountMap}
    (hint : ∀ f ∈ acc.fields, f.IntsOnly) {buf rest : List UInt8}
    (hbuf : Reads buf [acc.value] rest) {d : AccountDetails}
    (hclear : ∀ f ∈ acc.fields, f.ClearIn d) :
    parserAccountMpack R buf d = .ok (.success, acc.fields.foldl Field.store d) := by
  have hpairs : WalksPairs R accountCallbacks 31 (acc.fields.map Field.entry)
      ⟨.root, d⟩ ⟨.root, acc.fields.foldl Field.store d⟩ :=
    walks_fields hR acc.distinct hint hclear
  have hmap : Walks R accountCallbacks 32 acc.value ⟨.root, d⟩
      ⟨.root, acc.fields.foldl Field.store d⟩ := .map hR rfl hpairs rfl
  obtain ⟨bs', _, hparse⟩ := hmap buf [] rest hbuf
  rw [parserAccountMpack, mpackReaderInitData, hparse]
  rfl

theorem AccountDetails.clearFor_zero (n : Nat) : AccountDetails.zero.ClearFor n := by
  refine ⟨rfl, fun i _ => ?_⟩
  rw [AccountDetails.slot, AccountDetails.zero, Vector.getElem?_replicate]
  split <;> rfl

theorem Field.clearIn_zero (f : Field) : f.ClearIn .zero := by
  cases f with
  | appl apps => exact AccountDetails.clearFor_zero _
  | _ => trivial

/-! ## Reading the record -/

/-- A part of the record and the entry of the map that decides it.  What it puts there
may depend on what stands in the record beside that part. -/
structure Reading (α β : Type) where
  get : AccountDetails → β
  pick : Field → Option α
  conv : AccountDetails → α → β
  get_store : ∀ acc f, get (Field.store acc f) = ((pick f).map (conv acc)).getD (get acc)
  conv_store : ∀ acc f, pick f = none → conv (Field.store acc f) = conv acc
  same_key : ∀ f g, (pick f).isSome → (pick g).isSome → f.key = g.key

/-- The part is what the map last said of it, and the map says it once. -/
theorem Reading.get_foldl {α β : Type} (r : Reading α β) :
    ∀ {fields : List Field} {acc : AccountDetails}, (fields.map Field.key).Nodup →
      r.get (fields.foldl Field.store acc) =
        ((fields.findSome? r.pick).map (r.conv acc)).getD (r.get acc) := by
  intro fields
  induction fields with
  | nil =>
      intro acc _
      rfl
  | cons f fields ih =>
      intro acc hn
      rw [List.map_cons, List.nodup_cons] at hn
      rw [List.foldl_cons, ih hn.2, r.get_store, List.findSome?_cons]
      cases hf : r.pick f with
      | none =>
          rw [r.conv_store acc f hf]
          rfl
      | some a =>
          have hnone : fields.findSome? r.pick = none := by
            rw [List.findSome?_eq_none_iff]
            intro g hg
            by_contra hne
            have hsome := Option.isSome_iff_ne_none.mpr hne
            exact hn.1 (r.same_key f g (by rw [hf]; rfl) hsome ▸ List.mem_map_of_mem hg)
          rw [hnone]
          rfl

/-- The cast keeps a number below `2 ^ 31`. -/
theorem toInt_uint64ToInt32 (n : Fin (2 ^ 31)) :
    (uint64ToInt32 (UInt64.ofNat n.val)).toInt = (n.val : Int) := by
  have hn := n.isLt
  have hnat : (UInt64.ofNat n.val).toUInt32.toBitVec.toNat = n.val := by
    rw [UInt32.toNat_toBitVec, UInt64.toNat_toUInt32, UInt64.toNat_ofNat']
    omega
  show BitVec.toInt (UInt64.ofNat n.val).toUInt32.toBitVec = _
  rw [BitVec.toInt_eq_toNat_of_lt (by omega), hnat]

theorem toList_storedName (name : List UInt8) :
    (storedName name name.length).toList =
      (name.take (appsKvNameMaxLength - 1)).rightpad appsKvNameMaxLength 0 := by
  apply List.ext_getElem
  · simp only [Vector.length_toList, List.rightpad, List.length_append, List.length_take,
      List.length_replicate]
    omega
  · intro i hi hi'
    rw [Vector.length_toList] at hi
    simp only [storedName, Vector.getElem_toList, Vector.getElem_ofFn, List.rightpad]
    by_cases h : i < (name.take (appsKvNameMaxLength - 1)).length
    · rw [List.getElem_append_left h, List.getElem_take]
      rw [List.length_take] at h
      rw [if_pos (by split <;> omega), List.getD_eq_getElem _ _ (by omega)]
    · rw [List.getElem_append_right (Nat.not_lt.mp h), List.getElem_replicate]
      rw [List.length_take] at h
      rw [if_neg (by split <;> omega)]

theorem extractedVariable_stored {v : Variable} (hv : v.IsInt) : ExtractedVariable v v.stored := by
  obtain ⟨ui, hv⟩ := hv
  have hstored : v.stored = ⟨storedName v.name v.name.length, .ofUInt64 v.tt, uint64Bytes ui⟩ := by
    rw [Variable.stored, hv]
    rfl
  refine ⟨?_, ?_, ?_⟩
  · rw [hstored]
    exact toList_storedName v.name
  · rw [hstored]
  · rw [hv, hstored]
    exact valueUint_uint64Bytes _ _ ui

theorem extractedApp_slot {app : App} {old : AppsLocalState} (hint : ∀ v ∈ app.vars, v.IsInt) :
    ExtractedApp app (app.slot old) where
  id := rfl
  count := rfl
  values j v hj := by
    have hget : (app.slot old).keyValues.values[j] = v.stored := by
      rw [App.slot, slotWith, table_get, List.getD_eq_getElem?_getD, List.getElem?_map, hj]
      rfl
    rw [hget]
    exact extractedVariable_stored (hint v (List.mem_of_getElem? hj))

/-- `algo` and `info.amount`. -/
def amountReading : Reading Nat Int where
  get acc := acc.info.amount.toInt
  pick := Field.algo?
  conv _ := Nat.cast
  get_store acc f := by
    cases f with
    | algo n => exact toInt_uint64ToInt32 n
    | _ => rfl
  conv_store _ _ _ := rfl
  same_key f g := by cases f <;> cases g <;> simp [Field.algo?, Field.key]

/-- `ebase` and `reward_base`. -/
def rewardBaseReading : Reading Nat Int where
  get acc := acc.rewardBase.toInt
  pick := Field.ebase?
  conv _ := Nat.cast
  get_store acc f := by
    cases f with
    | ebase n => exact toInt_uint64ToInt32 n
    | _ => rfl
  conv_store _ _ _ := rfl
  same_key f g := by cases f <;> cases g <;> simp [Field.ebase?, Field.key]

/-- `ern` and `rewards`. -/
def rewardsReading : Reading Nat Int where
  get acc := acc.rewards.toInt
  pick := Field.ern?
  conv _ := Nat.cast
  get_store acc f := by
    cases f with
    | ern n => exact toInt_uint64ToInt32 n
    | _ => rfl
  conv_store _ _ _ := rfl
  same_key f g := by cases f <;> cases g <;> simp [Field.ern?, Field.key]

/-- `appl`, and `app_idx` with `apps_local`. -/
def appsReading : Reading (List App) (Nat × Vector AppsLocalState appsMaxCount) where
  get acc := (acc.appIdx, acc.appsLocal)
  pick := Field.appl?
  conv acc apps := (apps.length, table acc.appsLocal (appSlots acc.slot 0 apps))
  get_store _ f := by cases f <;> rfl
  conv_store acc f hf := by
    cases f with
    | appl _ => cases hf
    | _ => rfl
  same_key f g := by cases f <;> cases g <;> simp [Field.appl?, Field.key]

theorem getD_map_cast (o : Option Nat) : (o.map (Nat.cast : Nat → Int)).getD 0 = (o.getD 0 : Nat) := by
  cases o <;> rfl

/-- From a record without applications: those of the map, over what stood in `apps_local`. -/
theorem apps_foldl (acc : AccountMap) {d : AccountDetails} (h : d.appIdx = 0) :
    (acc.fields.foldl Field.store d).appIdx = acc.apps.length ∧
      (acc.fields.foldl Field.store d).appsLocal =
        table d.appsLocal (appSlots d.slot 0 acc.apps) := by
  have hget : appsReading.get (acc.fields.foldl Field.store d) = _ :=
    appsReading.get_foldl acc.distinct
  rw [AccountMap.apps]
  cases hf : acc.fields.findSome? Field.appl? with
  | none =>
      rw [show acc.fields.findSome? appsReading.pick = none from hf] at hget
      exact ⟨(congrArg Prod.fst hget).trans h, (congrArg Prod.snd hget).trans (table_nil _).symm⟩
  | some apps =>
      rw [show acc.fields.findSome? appsReading.pick = some apps from hf] at hget
      exact ⟨congrArg Prod.fst hget, congrArg Prod.snd hget⟩

/-- What the fields leave is what the map says. -/
theorem extracted_store {acc : AccountMap} (hint : ∀ app ∈ acc.apps, ∀ v ∈ app.vars, v.IsInt) :
    Extracted acc (acc.fields.foldl Field.store AccountDetails.zero) := by
  refine ⟨?_, ?_, ?_, (apps_foldl acc rfl).1, fun i app hi => ?_⟩
  · exact (amountReading.get_foldl acc.distinct).trans (getD_map_cast _)
  · exact (rewardBaseReading.get_foldl acc.distinct).trans (getD_map_cast _)
  · exact (rewardsReading.get_foldl acc.distinct).trans (getD_map_cast _)
  · rw [(apps_foldl acc rfl).2, table_get, List.getD_eq_getElem?_getD, getElem?_appSlots, hi]
    exact extractedApp_slot (hint app (List.mem_of_getElem? hi))

end Vertices
