/-
# `Vertices.Application` — `parser_application_json`, and the request for an application

The entries of `global-state` are taken one by one.  The index written to is
`global_states->count`, which nobody compares with the size of the array; a key is
decoded into 16 bytes of the stack, and the code of `b64_decode` is not looked at.

The tree of the answer is not freed, and the functions return from the middle of the
loop, with the entry that failed half written.
-/
import Vertices.Provider

namespace Vertices

/-- `sizeof key_str`. -/
abbrev keyStrSize : Nat := 16

/-- `key_str`, zeroed, after `b64_decode`. -/
def decodedKey (key : CStr) : Except Fault (Vector UInt8 keyStrSize) :=
  let (_, out, _) := b64Decode key key.strlen keyStrSize
  memcpy (Vector.replicate _ 0) 0 out

/-- `global_states->values[i]` changed by `f`. -/
def AppValues.modify (states : AppValues) (i : Fin appsKvMaxCount) (f : AppKeyValue → AppKeyValue) :
    AppValues :=
  { states with values := states.values.setIfInBounds i.val (f (states.values.get i)) }

/-- The `memcpy` of `key_str` into the name. -/
def nameOf (keyStr : Vector UInt8 keyStrSize) : Vector UInt8 appsKvNameMaxLength :=
  Vector.ofFn fun i => keyStr.toList.getD i.val 0

/-- What a value stores, or the code the function returns with.  Both types of value are
marked as integers. -/
def globalValue (value : CJson) (kv : AppKeyValue) : Except Fault (RetCode × AppKeyValue) :=
  match value.numberItem "type" with
  | none => return (.success, kv)
  | some type =>
      if type = 2 then
        match value.numberItem "uint" with
        | none => return (.errorNotFound, kv)
        | some integer =>
            return (.success, { kv with type := .integer, value := uint64Bytes (intToUInt64 integer) })
      else if type = 1 then
        match value.stringItem "bytes" with
        | none => return (.errorNotFound, kv)
        | some bytes => do
            -- no more than there is space for
            let slice ← memcpy kv.value 0 (bytes.bytes.take appsKvSliceMaxSize)
            return (.success, { kv with type := .integer, value := slice })
      else return (.success, kv)

/-- The value of the entry at `i`, and the count. -/
def storeGlobal (i : Fin appsKvMaxCount) (value : CJson) (states : AppValues) :
    Except Fault (RetCode × AppValues) := do
  let (err, kv) ← globalValue value (states.values.get i)
  if err ≠ .success then return (err, states)
  else return (.success, { states.modify i (fun _ => kv) with count := states.count + 1 })

/-- One entry of `global-state`; the loop goes on while the code is `VTC_SUCCESS`. -/
def globalEntry (element : CJson) (states : AppValues) : Except Fault (RetCode × AppValues) :=
  match element.stringItem "key" with
  | none => return (.success, states)
  | some key => do
      let keyStr ← decodedKey key
      let i ← subscript appsKvMaxCount states.count
      let states := states.modify i fun kv => { kv with name := nameOf keyStr }
      match element.getObjectItemCaseSensitive "value" with
      | none => return (.errorNotFound, states)
      | some value => storeGlobal i value states

/-- `for (int i = 0; i < size; ++i)`. -/
def globalLoop : List CJson → AppValues → Except Fault (RetCode × AppValues)
  | [], states => return (.success, states)
  | element :: elements, states => do
      let (err, states) ← globalEntry element states
      if err ≠ .success then return (err, states)
      else globalLoop elements states

/-- `parser_application_json`. -/
def parserApplicationJson (cJSON_Parse : CJsonParse) (buf : CStr) (states : AppValues) :
    Except Fault (RetCode × AppValues) :=
  match cJSON_Parse buf with
  | none => return (.errorInternal, states)
  | some json =>
      match json.getObjectItemCaseSensitive "params" with
      | none => return (.errorNotFound, states)
      | some params =>
          match params.getObjectItemCaseSensitive "global-state" with
          | some (.array globals) => globalLoop globals states
          | _ => return (.success, states)

/-- `provider_application_info_get`. -/
def providerApplicationInfoGet (cJSON_Parse : CJsonParse) (p : Provider) (reply : HttpReply)
    (states : AppValues) : Except Fault (RetCode × AppValues × Provider) := do
  let p ← httpReceive p reply
  if reply.err = .success then
    let (err, states) ← parserApplicationJson cJSON_Parse p.rxString states
    return (err, states, p)
  else return (reply.err, states, p)

end Vertices
