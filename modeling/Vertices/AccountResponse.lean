/-
# `Vertices.AccountResponse` — the account a node answers with, and its extraction

The node sends a map whose keys come in any order.  `AccountMap` is such a map with
what the SDK looks at, `AccountMap.value` its MessagePack form, and `Extracted` says
what a record holds that has taken all of it over.
-/
import Vertices.Walk

namespace Vertices

open MsgPack

/-! ## The map -/

/-- The keys of a schema: the number of integers and the number of byte slices. -/
inductive SchemaKey where
  | nui
  | nbs
  deriving DecidableEq, Repr

def SchemaKey.text : SchemaKey → List UInt8
  | .nui => lit "nui"
  | .nbs => lit "nbs"

/-- `hsch`, `tsch`. -/
abbrev Schema := List (SchemaKey × UInt64)

def Schema.value (schema : Schema) : Value :=
  .map (schema.map fun kv => (.str kv.1.text, .uint kv.2.toNat))

/-- The value of an application's variable.  A byte slice is a string of the format, or
binary. -/
inductive VarValue where
  | int (ui : UInt64)
  | slice (tb : List UInt8) (binary : Bool)
  deriving DecidableEq, Repr

/-- The value's own entry of the variable's map. -/
def VarValue.pair : VarValue → Value × Value
  | .int ui => (.str (lit "ui"), .uint ui.toNat)
  | .slice tb binary => (.str (lit "tb"), if binary then .bin tb else .str tb)

/-- A variable under its name; `tt` is its type, before or after the value. -/
structure Variable where
  name : List UInt8
  tt : UInt64
  value : VarValue
  typeFirst : Bool
  deriving DecidableEq, Repr

def Variable.typePair (v : Variable) : Value × Value := (.str (lit "tt"), .uint v.tt.toNat)

def Variable.pairs (v : Variable) : List (Value × Value) :=
  if v.typeFirst then [v.typePair, v.value.pair] else [v.value.pair, v.typePair]

def Variable.entry (v : Variable) : Value × Value := (.str v.name, .map v.pairs)

/-- An application's local state: its schema and its variables, in either order. -/
structure App where
  id : UInt64
  hsch : Option Schema
  tkv : Option (List Variable)
  schemaFirst : Bool
  few : (tkv.getD []).length ≤ appsKvMaxCount

def App.vars (app : App) : List Variable := app.tkv.getD []

def App.schemaPairs (app : App) : List (Value × Value) :=
  (app.hsch.map fun schema => (.str (lit "hsch"), Schema.value schema)).toList

def App.variablePairs (app : App) : List (Value × Value) :=
  (app.tkv.map fun vars => (.str (lit "tkv"), .map (vars.map Variable.entry))).toList

def App.pairs (app : App) : List (Value × Value) :=
  if app.schemaFirst then app.schemaPairs ++ app.variablePairs
  else app.variablePairs ++ app.schemaPairs

def App.entry (app : App) : Value × Value := (.uint app.id.toNat, .map app.pairs)

/-- The applications of an account. -/
structure Apps where
  list : List App
  few : list.length ≤ appsMaxCount

/-- An entry of the account's map. -/
inductive Field where
  | algo (n : Fin (2 ^ 31))
  | ebase (n : Fin (2 ^ 31))
  | ern (n : Fin (2 ^ 31))
  | tsch (schema : Schema)
  | appl (apps : Apps)

def Field.key : Field → String
  | .algo _ => "algo"
  | .ebase _ => "ebase"
  | .ern _ => "ern"
  | .tsch _ => "tsch"
  | .appl _ => "appl"

def Field.value : Field → Value
  | .algo n | .ebase n | .ern n => .uint n.val
  | .tsch schema => schema.value
  | .appl apps => .map (apps.list.map App.entry)

def Field.entry (f : Field) : Value × Value := (.str (lit f.key), f.value)

/-- The account's map: each key at most once, in any order. -/
structure AccountMap where
  fields : List Field
  distinct : (fields.map Field.key).Nodup

def AccountMap.value (acc : AccountMap) : Value := .map (acc.fields.map Field.entry)

def Field.algo? : Field → Option Nat
  | .algo n => some n.val
  | _ => none

def Field.ebase? : Field → Option Nat
  | .ebase n => some n.val
  | _ => none

def Field.ern? : Field → Option Nat
  | .ern n => some n.val
  | _ => none

def Field.appl? : Field → Option (List App)
  | .appl apps => some apps.list
  | _ => none

/-- What the map says, 0 or nothing where it is silent. -/
def AccountMap.algo (acc : AccountMap) : Nat := (acc.fields.findSome? Field.algo?).getD 0

def AccountMap.ebase (acc : AccountMap) : Nat := (acc.fields.findSome? Field.ebase?).getD 0

def AccountMap.ern (acc : AccountMap) : Nat := (acc.fields.findSome? Field.ern?).getD 0

def AccountMap.apps (acc : AccountMap) : List App := (acc.fields.findSome? Field.appl?).getD []

/-- Some variable is a byte slice. -/
def AccountMap.HasSlice (acc : AccountMap) : Prop :=
  ∃ app ∈ acc.apps, ∃ v ∈ app.vars, ∃ tb binary, v.value = .slice tb binary

/-! ## Any number of applications

The arrays of a record have room for `APPS_MAX_COUNT` applications of `APPS_KV_MAX_COUNT`
variables; an account may have more. -/

/-- An application's local state. -/
structure LocalState where
  id : UInt64
  hsch : Option Schema
  tkv : Option (List Variable)
  schemaFirst : Bool

def LocalState.vars (state : LocalState) : List Variable := state.tkv.getD []

def LocalState.schemaPairs (state : LocalState) : List (Value × Value) :=
  (state.hsch.map fun schema => (.str (lit "hsch"), Schema.value schema)).toList

def LocalState.variablePairs (state : LocalState) : List (Value × Value) :=
  (state.tkv.map fun vars => (.str (lit "tkv"), .map (vars.map Variable.entry))).toList

def LocalState.pairs (state : LocalState) : List (Value × Value) :=
  if state.schemaFirst then state.schemaPairs ++ state.variablePairs
  else state.variablePairs ++ state.schemaPairs

def LocalState.entry (state : LocalState) : Value × Value :=
  (.uint state.id.toNat, .map state.pairs)

/-- A local state that fits an entry of the record. -/
def App.toLocalState (app : App) : LocalState := ⟨app.id, app.hsch, app.tkv, app.schemaFirst⟩

/-- The other entries of the account's map. -/
inductive OtherField where
  | algo (n : UInt64)
  | ebase (n : UInt64)
  | ern (n : UInt64)
  | tsch (schema : Schema)

def OtherField.entry : OtherField → Value × Value
  | .algo n => (.str (lit "algo"), .uint n.toNat)
  | .ebase n => (.str (lit "ebase"), .uint n.toNat)
  | .ern n => (.str (lit "ern"), .uint n.toNat)
  | .tsch schema => (.str (lit "tsch"), schema.value)

/-! ## The record -/

/-- `kv` is the variable `v`: its name cut to seven characters, its type, and its
integer or the first eight of its bytes. -/
structure ExtractedVariable (v : Variable) (kv : AppKeyValue) : Prop where
  name : kv.name.toList = (v.name.take (appsKvNameMaxLength - 1)).rightpad appsKvNameMaxLength 0
  type : kv.type = .ofUInt64 v.tt
  value : match v.value with
    | .int ui => kv.valueUint = ui
    | .slice tb _ => tb.take appsKvSliceMaxSize <+: kv.valueSlice.toList

/-- `slot` is the application `app`: one entry for each variable, in order. -/
structure ExtractedApp (app : App) (slot : AppsLocalState) : Prop where
  id : slot.appId = app.id
  count : slot.keyValues.count = app.vars.length
  values : ∀ (j : Fin appsKvMaxCount) v, app.vars[j.val]? = some v →
    ExtractedVariable v slot.keyValues.values[j]

/-- `details` has taken over what `acc` says. -/
structure Extracted (acc : AccountMap) (details : AccountDetails) : Prop where
  amount : details.info.amount.toInt = acc.algo
  rewardBase : details.rewardBase.toInt = acc.ebase
  rewards : details.rewards.toInt = acc.ern
  appIdx : details.appIdx = acc.apps.length
  appsLocal : ∀ (i : Fin appsMaxCount) app, acc.apps[i.val]? = some app →
    ExtractedApp app details.appsLocal[i]

end Vertices
