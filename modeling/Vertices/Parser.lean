/-
# `Vertices.Parser` — `src/algorand/algorand_parser.c`, the account parser

Two parts.  `parseElement` walks a MessagePack value and reports each element to a
table of callbacks; it knows nothing of accounts and is generic in the callbacks'
context.  The callbacks of an account flatten the nested maps into one global step,
moved by the strings, the integers and the ends of maps as they come.

The nesting of the map does not reach the callbacks.  A string where the step
expects none is not an error: it falls through.
-/
import Vertices.Mpack

namespace Vertices

open MsgPack

/-! ## Walking a value -/

/-- `callbacks_t`. -/
structure Callbacks (σ : Type) where
  nilElement : σ → Except Fault (RetCode × σ)
  boolElement : σ → Bool → Except Fault (RetCode × σ)
  intElement : σ → Int → Except Fault (RetCode × σ)
  uintElement : σ → UInt64 → Except Fault (RetCode × σ)
  stringElement : σ → Option (List UInt8) → Nat → Except Fault (RetCode × σ)
  startMap : σ → Nat → Except Fault (RetCode × σ)
  startArray : σ → Nat → Except Fault (RetCode × σ)
  finishMap : σ → Except Fault (RetCode × σ)
  finishArray : σ → Except Fault (RetCode × σ)

section Walk

variable {σ : Type}

/-- What parsing one element yields: the code, the reader and the context. -/
abbrev Parsed (σ : Type) := RetCode × ReaderState × σ

/-- `while (count-- > 0)` of an array; the code it leaves behind is overwritten by
`finish_array`. -/
def arrayLoop (element : ReaderState → σ → Except Fault (Parsed σ)) :
    Nat → ReaderState → σ → Except Fault (ReaderState × σ)
  | 0, reader, ctx => return (reader, ctx)
  | count + 1, reader, ctx => do
      let (err, reader, ctx) ← element reader ctx
      if reader.ok = false ∨ err ≠ .success then return (reader, ctx)
      else arrayLoop element count reader ctx

/-- `while (count--)` of a map.  Between the key and the value only the code is
checked, not the reader. -/
def mapLoop (element : ReaderState → σ → Except Fault (Parsed σ)) :
    Nat → ReaderState → σ → Except Fault (ReaderState × σ)
  | 0, reader, ctx => return (reader, ctx)
  | count + 1, reader, ctx => do
      let (err, reader, ctx) ← element reader ctx
      if err ≠ .success then return (reader, ctx)
      else do
        let (err, reader, ctx) ← element reader ctx
        if reader.ok = false ∨ err ≠ .success then return (reader, ctx)
        else mapLoop element count reader ctx

/-- A scalar: the callback's code, the reader as it is. -/
def scalarElement (reader : ReaderState) (result : Except Fault (RetCode × σ)) : Except Fault (Parsed σ) := do
  let (err, ctx) ← result
  return (err, reader, ctx)

/-- The `switch` on the type of the tag. -/
def switchTag (cb : Callbacks σ) (element : ReaderState → σ → Except Fault (Parsed σ)) (tag : Tag)
    (reader : ReaderState) (ctx : σ) : Except Fault (Parsed σ) :=
  match tag with
  | .nil => scalarElement reader (cb.nilElement ctx)
  | .bool b => scalarElement reader (cb.boolElement ctx b)
  | .int i => scalarElement reader (cb.intElement ctx i)
  | .uint n => scalarElement reader (cb.uintElement ctx (UInt64.ofNat n))
  | .str length =>
      let (data, reader) := mpackReadBytesInplace reader length
      scalarElement reader (cb.stringElement ctx data length)
  | .array count => do
      let (err, ctx) ← cb.startArray ctx count
      if err ≠ .success then return (err, reader, ctx)
      else do
        let (reader, ctx) ← arrayLoop element count reader ctx
        scalarElement reader (cb.finishArray ctx)
  | .map count => do
      let (err, ctx) ← cb.startMap ctx count
      if err ≠ .success then return (err, reader, ctx)
      else do
        let (reader, ctx) ← mapLoop element count reader ctx
        scalarElement reader (cb.finishMap ctx)
  | .float _ | .double _ | .bin _ | .ext _ _ => return (.success, reader.flagError, ctx)

/-- `parse_element` with `32 - depth` levels left.  With none left the reader is put
in error, so that the tag read next is no tag and the element counts as parsed. -/
def parseElement (R : MpackReader) (cb : Callbacks σ) : Nat → ReaderState → σ → Except Fault (Parsed σ)
  | 0, reader, ctx => return (.success, reader.flagError, ctx)
  | levels + 1, reader, ctx =>
      let (tag, reader) := R.mpackReadTag reader
      if reader.ok = false then return (.success, reader, ctx)
      else switchTag cb (parseElement R cb levels) tag reader ctx

end Walk

/-! ## The account callbacks -/

/-- `parser_account_step_t`. -/
inductive ParserAccountStep where
  | root
  | algo
  | appl
  | applId
  | appSch
  | appSchNui
  | appSchNbs
  | appKv
  | appKvVar
  | appKvType
  | appKvValueInt
  | appKvValueSlice
  | ebase
  | ern
  | tsch
  | tschNui
  deriving DecidableEq, Repr

/-- The context of the callbacks: `m_parsing_account_step` and the account. -/
structure AccountParser where
  step : ParserAccountStep
  account : AccountDetails
  deriving DecidableEq

namespace AccountParser

/-- `apps_local[app_idx]`. -/
def app (s : AccountParser) : Except Fault (Fin appsMaxCount) :=
  subscript appsMaxCount s.account.appIdx

/-- The entry's `key_values.count`. -/
def kvCount (s : AccountParser) (a : Fin appsMaxCount) : Nat :=
  s.account.appsLocal[a].keyValues.count

/-- `apps_local[app_idx]` changed by `f`. -/
def modifyApp (s : AccountParser) (a : Fin appsMaxCount) (f : AppsLocalState → AppsLocalState) :
    AccountParser :=
  { s with account := { s.account with
      appsLocal := s.account.appsLocal.set a (f s.account.appsLocal[a]) } }

/-- `apps_local[app_idx].key_values.values[idx]` changed by `f`. -/
def modifyValue (s : AccountParser) (a : Fin appsMaxCount) (idx : Fin appsKvMaxCount)
    (f : AppKeyValue → AppKeyValue) : AccountParser :=
  s.modifyApp a fun app => { app with keyValues := { app.keyValues with
    values := app.keyValues.values.set idx (f app.keyValues.values[idx]) } }

def goto (s : AccountParser) (step : ParserAccountStep) : AccountParser := { s with step := step }

end AccountParser

/-- The cast `(int32_t) value`. -/
def uint64ToInt32 (value : UInt64) : Int32 := value.toUInt32.toInt32

/-- The two cases of `uint_element` that store into the variable being parsed.  `count`
may be one past the last variable: the comparison is `>`. -/
def storeValue (s : AccountParser) (f : AppKeyValue → AppKeyValue) :
    Except Fault (RetCode × AccountParser) := do
  let a ← s.app
  if appsKvMaxCount < s.kvCount a then return (.errorNoMem, s)
  else do
    let idx ← subscript appsKvMaxCount (s.kvCount a)
    return (.success, (s.modifyValue a idx f).goto .appKvVar)

/-- `uint_element`. -/
def uintElement (s : AccountParser) (value : UInt64) : Except Fault (RetCode × AccountParser) :=
  match s.step with
  | .algo => return (.success,
      { step := .root, account := { s.account with
          info := { s.account.info with amount := uint64ToInt32 value } } })
  | .appl =>
      if s.account.appIdx < appsMaxCount then do
        let a ← s.app
        return (.success, (s.modifyApp a fun app => { app with appId := value }).goto .applId)
      else return (.errorNoMem, s)
  | .ebase => return (.success,
      { step := .root, account := { s.account with rewardBase := uint64ToInt32 value } })
  | .ern => return (.success,
      { step := .root, account := { s.account with rewards := uint64ToInt32 value } })
  | .appKvType => storeValue s fun kv => { kv with type := .ofUInt64 value }
  | .appKvValueInt => storeValue s fun kv => { kv with value := uint64Bytes value }
  | .appSchNui | .appSchNbs => return (.success, s.goto .appSch)
  -- the root, the steps that take no integer, and those whose integer is ignored
  | .root | .applId | .appSch | .appKv | .appKvVar | .appKvValueSlice | .tsch | .tschNui =>
      return (.success, s)

/-- The first of the keys that `strncmp` does not tell from the data, with the step it
leads to. -/
def matchKey (data : List UInt8) (length : Nat) :
    List (String × ParserAccountStep) → Option ParserAccountStep
  | [] => none
  | (key, step) :: keys =>
      if strncmpEq data (lit key) length then some step else matchKey data length keys

theorem matchKey_mem {data : List UInt8} {length : Nat} {step : ParserAccountStep}
    {keys : List (String × ParserAccountStep)} (h : matchKey data length keys = some step) :
    step ∈ keys.map Prod.snd := by
  induction keys with
  | nil => exact nomatch h
  | cons entry keys ih =>
      rw [matchKey] at h
      split at h
      · cases h
        exact List.mem_cons_self
      · exact List.mem_cons_of_mem _ (ih h)

/-- A step that looks the string up among `keys`. -/
def lookupKey (s : AccountParser) (data : Option (List UInt8)) (length : Nat)
    (keys : List (String × ParserAccountStep)) (unknown : RetCode) :
    Except Fault (RetCode × AccountParser) :=
  match data with
  | none => throw .nullDeref
  | some data =>
      match matchKey data length keys with
      | some step => return (.success, s.goto step)
      | none => return (unknown, s)

/-- `memset` and `memcpy` of a variable's name. -/
def storedName (data : List UInt8) (length : Nat) : Vector UInt8 appsKvNameMaxLength :=
  let n := if length < appsKvNameMaxLength - 1 then length else appsKvNameMaxLength - 1
  Vector.ofFn fun i => if i.val < n then data.getD i.val 0 else 0

/-- The keys of the root map. -/
def rootKeys : List (String × ParserAccountStep) :=
  [("algo", .algo), ("appl", .appl), ("ebase", .ebase), ("ern", .ern), ("tsch", .tsch)]

/-- The keys of an application. -/
def applIdKeys : List (String × ParserAccountStep) := [("hsch", .appSch), ("tkv", .appKv)]

/-- The keys of an application's schema. -/
def appSchKeys : List (String × ParserAccountStep) := [("nui", .appSchNui), ("nbs", .appSchNbs)]

/-- The keys of a variable. -/
def appKvVarKeys : List (String × ParserAccountStep) :=
  [("tt", .appKvType), ("tb", .appKvValueSlice), ("ui", .appKvValueInt)]

/-- The keys of the total schema. -/
def tschKeys : List (String × ParserAccountStep) := [("nui", .tschNui)]

/-- `string_element`. -/
def stringElement (s : AccountParser) (data : Option (List UInt8)) (length : Nat) :
    Except Fault (RetCode × AccountParser) :=
  match s.step with
  | .root => lookupKey s data length rootKeys .errorNotFound
  | .applId => lookupKey s data length applIdKeys .errorNotFound
  | .appSch => lookupKey s data length appSchKeys .errorNotFound
  | .appKv => do
      let a ← s.app
      -- the error is noted, the name is written all the same
      let err := if appsKvMaxCount ≤ s.kvCount a then RetCode.errorNoMem else .success
      let idx ← subscript appsKvMaxCount (s.kvCount a)
      match data with
      | none => throw .nullDeref
      | some data =>
          let s := s.modifyValue a idx fun kv => { kv with name := storedName data length }
          return (err, s.goto .appKvVar)
  | .appKvVar => lookupKey s data length appKvVarKeys .errorNotFound
  | .tsch => lookupKey s data length tschKeys .success
  | .algo | .appl | .appSchNui | .appSchNbs | .appKvType | .appKvValueInt | .appKvValueSlice
  | .ebase | .ern | .tschNui => return (.success, s)

/-- `finish_map`. -/
def finishMap (s : AccountParser) : Except Fault (RetCode × AccountParser) :=
  match s.step with
  | .appKvVar => do
      let a ← s.app
      let s := s.modifyApp a fun app =>
        { app with keyValues := { app.keyValues with count := app.keyValues.count + 1 } }
      return (.success, s.goto .appKv)
  | .appKv | .appSch => return (.success, s.goto .applId)
  | .applId => return (.success,
      { step := .appl, account := { s.account with appIdx := s.account.appIdx + 1 } })
  | .root | .algo | .appl | .appSchNui | .appSchNbs | .appKvType | .appKvValueInt
  | .appKvValueSlice | .ebase | .ern | .tsch | .tschNui => return (.success, s.goto .root)

/-- `m_callbacks`. -/
def accountCallbacks : Callbacks AccountParser where
  nilElement s := return (.success, s)
  boolElement s _ := return (.success, s)
  intElement s _ := return (.success, s)
  uintElement := uintElement
  stringElement := stringElement
  startMap s _ := return (.success, s)
  startArray s _ := return (.success, s)
  finishMap := finishMap
  finishArray s := return (.success, s)

/-- `parser_account_mpack`. -/
def parserAccountMpack (R : MpackReader) (buf : List UInt8) (account : AccountDetails) :
    Except Fault (RetCode × AccountDetails) := do
  let (err, _, s) ← parseElement R accountCallbacks 32 (mpackReaderInitData buf)
    { step := .root, account := account }
  return (err, s.account)

end Vertices
