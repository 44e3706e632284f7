/-
# `Vertices.GlobalState` — the bounds of an application's answer, and what is taken from it

Whoever deploys an application chooses how many entries its state has and how long their
keys are.  Both are written where the answer says: an entry behind the last one, a key
into 16 bytes that `b64_decode` compares with an estimate of its length.
-/
import Vertices.Application

namespace Vertices

/-! ## The length of a decoded key -/

theorem length_b64Bytes (ds : List UInt8) :
    (b64Bytes ds).length = ds.length / 4 * 3 + (ds.length % 4 - 1) := by
  fun_induction b64Bytes ds with
  | case1 a b c d rest ih =>
      simp only [List.length_cons, ih]
      omega
  | case2 a b c => simp
  | case3 a b => simp
  | case4 ds h₄ h₃ h₂ =>
      match ds, h₂, h₃, h₄ with
      | [], _, _, _ => simp
      | [a], _, _, _ => simp
      | [a, b], h₂, _, _ => exact absurd rfl (h₂ a b)
      | [a, b, c], _, h₃, _ => exact absurd rfl (h₃ a b c)
      | a :: b :: c :: d :: rest, _, _, h₄ => exact absurd rfl (h₄ a b c d rest)

/-- The characters before the first one that is no digit. -/
def b64Digits (s : CStr) : List UInt8 := s.bytes.takeWhile fun c => pr2six c ≤ 63

/-- The check of the size lets the key through, and it has more digits than 16 bytes hold. -/
def OverflowsKeyStr (key : CStr) : Prop :=
  (key.strlen / 4 * 3 + (2 ^ 64 - 1)) % 2 ^ 64 ≤ keyStrSize ∧ 22 < (b64Digits key).length

instance (key : CStr) : Decidable (OverflowsKeyStr key) := inferInstanceAs (Decidable (_ ∧ _))

/-- The check of the size lets one to five groups of four through. -/
theorem sizeCheck_iff {n : Nat} (hsize : n < 2 ^ 64) :
    (n / 4 * 3 + (2 ^ 64 - 1)) % 2 ^ 64 ≤ keyStrSize ↔ 4 ≤ n ∧ n < 24 := by
  by_cases hshort : n < 4
  · -- the subtraction wraps
    rw [Nat.div_eq_of_lt hshort]
    exact iff_of_false (by decide) (by omega)
  · have hwrap : n / 4 * 3 + (2 ^ 64 - 1) = n / 4 * 3 - 1 + 2 ^ 64 := by omega
    rw [hwrap, Nat.add_mod_right, Nat.mod_eq_of_lt (by omega)]
    simp only [keyStrSize]
    omega

/-- Of all the keys that a `size_t` can measure these are the ones of 23 digits. -/
theorem overflowsKeyStr_iff {key : CStr} (hsize : key.strlen < 2 ^ 64) :
    OverflowsKeyStr key ↔ key.strlen = 23 ∧ ∀ c ∈ key.bytes, pr2six c ≤ 63 := by
  have hle : (b64Digits key).length ≤ key.strlen := (List.takeWhile_prefix _).length_le
  rw [OverflowsKeyStr, sizeCheck_iff hsize]
  constructor
  · rintro ⟨hcheck, hdigits⟩
    have hlen : key.strlen = 23 := by omega
    refine ⟨hlen, ?_⟩
    have hwhole : b64Digits key = key.bytes :=
      (List.takeWhile_prefix _).eq_of_length (Nat.le_antisymm hle (hlen.trans_le hdigits))
    intro c hc
    have hall := List.takeWhile_eq_self_iff.mp hwhole c hc
    simpa using hall
  · rintro ⟨hlen, hall⟩
    have hwhole : b64Digits key = key.bytes :=
      List.takeWhile_eq_self_iff.mpr fun c hc => by simpa using hall c hc
    rw [hwhole, ← CStr.strlen, hlen]
    exact ⟨by decide, by decide⟩

/-- An empty key, and one that fails the check, leave `key_str` as it is. -/
theorem decodedKey_refused {key : CStr}
    (h : key.strlen = 0 ∨ keyStrSize < (key.strlen / 4 * 3 + (2 ^ 64 - 1)) % 2 ^ 64) :
    decodedKey key = .ok (Vector.replicate _ 0) := by
  rw [decodedKey, b64Decode]
  by_cases hzero : key.strlen = 0
  · rw [if_pos hzero]
    exact memcpy_nil _
  · rw [if_neg hzero, if_pos (h.resolve_left hzero)]
    exact memcpy_nil _

theorem decodedKey_decoded {key : CStr}
    (h : ¬ (key.strlen = 0 ∨ keyStrSize < (key.strlen / 4 * 3 + (2 ^ 64 - 1)) % 2 ^ 64)) :
    decodedKey key =
      memcpy (Vector.replicate _ 0) 0 (b64Bytes ((b64Digits key).map pr2six)) := by
  obtain ⟨hzero, hcheck⟩ := not_or.mp h
  rw [decodedKey, b64Decode, if_neg hzero, if_neg hcheck]
  rfl

/-- The key is decoded into `key_str`, or past its end. -/
theorem decodedKey_cases (key : CStr) :
    (¬ OverflowsKeyStr key ∧ ∃ keyStr, decodedKey key = .ok keyStr) ∨
      (OverflowsKeyStr key ∧ decodedKey key = .error .outOfBounds) := by
  by_cases hrefused : key.strlen = 0 ∨ keyStrSize < (key.strlen / 4 * 3 + (2 ^ 64 - 1)) % 2 ^ 64
  · refine .inl ⟨?_, _, decodedKey_refused hrefused⟩
    rintro ⟨hcheck, -⟩
    rcases hrefused with hzero | hrefused
    · rw [hzero] at hcheck
      exact absurd hcheck (by decide)
    · exact absurd hcheck (Nat.not_le.mpr hrefused)
  · have hlen := length_b64Bytes ((b64Digits key).map pr2six)
    rw [List.length_map] at hlen
    rw [decodedKey_decoded hrefused]
    by_cases hdigits : 22 < (b64Digits key).length
    · refine .inr ⟨⟨Nat.le_of_not_lt (not_or.mp hrefused).2, hdigits⟩, ?_⟩
      rw [memcpy, dif_neg]
      rw [hlen]
      simp only [keyStrSize]
      omega
    · refine .inl ⟨fun h => hdigits h.2, _, memcpy_eq_ok.mpr ⟨?_, rfl⟩⟩
      rw [hlen]
      simp only [keyStrSize]
      omega

/-! ## The entries -/

/-- `type` and what it asks for are there, or there is no `type`. -/
def valueAccepted (value : CJson) : Bool :=
  match value.numberItem "type" with
  | none => true
  | some type =>
      if type = 2 then (value.numberItem "uint").isSome
      else if type = 1 then (value.stringItem "bytes").isSome
      else true

/-- The entry has a value, and that is accepted. -/
def entryAccepted (element : CJson) : Bool :=
  ((element.getObjectItemCaseSensitive "value").map valueAccepted).getD false

/-- The keys that are decoded: up to the first entry whose value is not accepted. -/
def attemptedKeys : List CJson → List CStr
  | [] => []
  | element :: elements =>
      match element.stringItem "key" with
      | none => attemptedKeys elements
      | some key => key :: if entryAccepted element then attemptedKeys elements else []

/-- The entries of `global-state`. -/
def globalEntries (json : Option CJson) : List CJson :=
  match (json.bind fun json => json.getObjectItemCaseSensitive "params").bind fun params =>
      params.getObjectItemCaseSensitive "global-state" with
  | some (.array globals) => globals
  | _ => []

@[simp] theorem AppValues.count_modify (states : AppValues) (i : Fin appsKvMaxCount)
    (f : AppKeyValue → AppKeyValue) : (states.modify i f).count = states.count := rfl

/-- The bytes copied of a slice fit. -/
theorem memcpy_slice (slice : Vector UInt8 appsKvSliceMaxSize) (bytes : List UInt8) :
    ∃ slice', memcpy slice 0 (bytes.take appsKvSliceMaxSize) = .ok slice' := by
  have hfits : 0 + (bytes.take appsKvSliceMaxSize).length ≤ appsKvSliceMaxSize := by
    rw [Nat.zero_add]
    exact List.length_take_le _ _
  exact ⟨_, memcpy_eq_ok.mpr ⟨hfits, rfl⟩⟩

theorem globalValue_ok (value : CJson) (kv : AppKeyValue) :
    ∃ err kv', globalValue value kv = .ok (err, kv') ∧
      (err = .success ↔ valueAccepted value = true) := by
  rw [globalValue, valueAccepted]
  cases value.numberItem "type" with
  | none => exact ⟨_, _, rfl, iff_of_true rfl rfl⟩
  | some type =>
      dsimp only
      by_cases hint : type = 2
      · rw [if_pos hint, if_pos hint]
        cases value.numberItem "uint" with
        | none => exact ⟨_, _, rfl, iff_of_false nofun nofun⟩
        | some integer => exact ⟨_, _, rfl, iff_of_true rfl rfl⟩
      · rw [if_neg hint, if_neg hint]
        by_cases hslice : type = 1
        · rw [if_pos hslice, if_pos hslice]
          cases value.stringItem "bytes" with
          | none => exact ⟨_, _, rfl, iff_of_false nofun nofun⟩
          | some bytes =>
              obtain ⟨slice, hslice'⟩ := memcpy_slice kv.value bytes.bytes
              refine ⟨.success, { kv with type := .integer, value := slice }, ?_, iff_of_true rfl rfl⟩
              dsimp only
              rw [hslice']
              rfl
        · rw [if_neg hslice, if_neg hslice]
          exact ⟨_, _, rfl, iff_of_true rfl rfl⟩

theorem storeGlobal_ok (i : Fin appsKvMaxCount) (value : CJson) (states : AppValues) :
    ∃ err states', storeGlobal i value states = .ok (err, states') ∧
      (err = .success ↔ valueAccepted value = true) ∧
      states'.count = if valueAccepted value then states.count + 1 else states.count := by
  obtain ⟨err, kv, hvalue, herr⟩ := globalValue_ok value (states.values.get i)
  rw [storeGlobal, hvalue]
  by_cases hsuccess : err = .success
  · refine ⟨_, _, if_neg (not_not.mpr hsuccess), iff_of_true rfl (herr.mp hsuccess), ?_⟩
    rw [if_pos (herr.mp hsuccess)]
  · refine ⟨_, _, if_pos hsuccess, herr, ?_⟩
    rw [if_neg fun h => hsuccess (herr.mpr h)]

/-- An entry with a key is written behind the last one, if that is within the array. -/
theorem globalEntry_cases {element : CJson} {key : CStr} (hkey : element.stringItem "key" = some key)
    (states : AppValues) :
    ((¬ OverflowsKeyStr key ∧ states.count < appsKvMaxCount) ∧
      ∃ err states', globalEntry element states = .ok (err, states') ∧
        (err = .success ↔ entryAccepted element = true) ∧
        states'.count = if entryAccepted element then states.count + 1 else states.count) ∨
    (¬ (¬ OverflowsKeyStr key ∧ states.count < appsKvMaxCount) ∧
      globalEntry element states = .error .outOfBounds) := by
  rw [globalEntry, hkey]
  dsimp only
  rcases decodedKey_cases key with ⟨hfits, keyStr, hdecoded⟩ | ⟨hover, hdecoded⟩
  · by_cases hcount : states.count < appsKvMaxCount
    · refine .inl ⟨⟨hfits, hcount⟩, ?_⟩
      rw [hdecoded, subscript_of_lt hcount, entryAccepted]
      cases element.getObjectItemCaseSensitive "value" with
      | none => exact ⟨_, _, rfl, iff_of_false nofun nofun, rfl⟩
      | some value => exact storeGlobal_ok _ value (states.modify _ _)
    · refine .inr ⟨fun h => hcount h.2, ?_⟩
      rw [hdecoded, subscript, dif_neg hcount]
      rfl
  · refine .inr ⟨fun h => h.1 hover, ?_⟩
    rw [hdecoded]
    rfl

/-- The loop goes on after an entry that was taken. -/
theorem globalLoop_next {element : CJson} {states states' : AppValues} (elements : List CJson)
    (h : globalEntry element states = .ok (.success, states')) :
    globalLoop (element :: elements) states = globalLoop elements states' := by
  rw [globalLoop, h]
  rfl

/-- It ends with the code of one that was not. -/
theorem globalLoop_stop {element : CJson} {states states' : AppValues} {err : RetCode}
    (elements : List CJson) (h : globalEntry element states = .ok (err, states'))
    (herr : err ≠ .success) :
    globalLoop (element :: elements) states = .ok (err, states') := by
  rw [globalLoop, h]
  exact if_pos herr

/-- The loop stays within the array exactly if the keys it decodes do. -/
theorem globalLoop_iff (elements : List CJson) {states : AppValues}
    (hcount : states.count ≤ appsKvMaxCount) :
    (∃ err states', globalLoop elements states = .ok (err, states') ∧
        states'.count ≤ appsKvMaxCount) ↔
      states.count + (attemptedKeys elements).length ≤ appsKvMaxCount ∧
        ∀ key ∈ attemptedKeys elements, ¬ OverflowsKeyStr key := by
  induction elements generalizing states with
  | nil => exact iff_of_true ⟨_, _, rfl, hcount⟩ ⟨hcount, fun key hkey => nomatch hkey⟩
  | cons element elements ih =>
      rw [attemptedKeys]
      cases hkey : element.stringItem "key" with
      | none =>
          have hentry : globalEntry element states = .ok (.success, states) := by
            rw [globalEntry, hkey]
            rfl
          rw [globalLoop_next elements hentry]
          exact ih hcount
      | some key =>
          dsimp only
          rw [List.length_cons, List.forall_mem_cons]
          rcases globalEntry_cases hkey states with
            ⟨⟨hfits, hlt⟩, err, states₁, hentry, herr, hnext⟩ | ⟨hnot, hentry⟩
          · by_cases haccepted : entryAccepted element = true
            · rw [if_pos haccepted] at hnext ⊢
              cases herr.mpr haccepted
              rw [globalLoop_next elements hentry, ih (by omega), hnext]
              constructor
              · exact fun ⟨hle, hall⟩ => ⟨by omega, hfits, hall⟩
              · exact fun ⟨hle, _, hall⟩ => ⟨by omega, hall⟩
            · rw [if_neg haccepted] at hnext ⊢
              rw [globalLoop_stop elements hentry fun h => haccepted (herr.mp h)]
              refine iff_of_true ⟨_, _, rfl, hnext.trans_le hcount⟩ ⟨hlt, hfits, ?_⟩
              exact fun key hkey => nomatch hkey
          · rw [globalLoop, hentry]
            refine iff_of_false (fun ⟨_, _, h, _⟩ => nomatch h) ?_
            rintro ⟨hle, hfits, -⟩
            exact hnot ⟨hfits, by omega⟩

/-- **Bounds of an application's answer.**  Whatever the answer, its entries are written
within the array and its keys within `key_str`, and `count` is no larger than the array,
exactly if the entries that are reached fit behind the ones already there and none of their
keys has 23 digits. -/
theorem application_within_buffers_iff (cJSON_Parse : CJsonParse) (buf : CStr) {states : AppValues}
    (hcount : states.count ≤ appsKvMaxCount) :
    (∃ err states', parserApplicationJson cJSON_Parse buf states = .ok (err, states') ∧
        states'.count ≤ appsKvMaxCount) ↔
      states.count + (attemptedKeys (globalEntries (cJSON_Parse buf))).length ≤ appsKvMaxCount ∧
        ∀ key ∈ attemptedKeys (globalEntries (cJSON_Parse buf)), ¬ OverflowsKeyStr key := by
  -- an answer without the array is read as one without entries
  have hnone (err : RetCode) :
      (∃ err' states', (Except.ok (err, states) : Except Fault (RetCode × AppValues)) =
          .ok (err', states') ∧ states'.count ≤ appsKvMaxCount) ↔
        states.count + (attemptedKeys []).length ≤ appsKvMaxCount ∧
          ∀ key ∈ attemptedKeys [], ¬ OverflowsKeyStr key :=
    iff_of_true ⟨err, states, rfl, hcount⟩ ⟨hcount, fun _ hkey => nomatch hkey⟩
  rw [parserApplicationJson, globalEntries]
  cases cJSON_Parse buf with
  | none => exact hnone _
  | some json =>
      rw [Option.bind_some]
      dsimp only
      cases json.getObjectItemCaseSensitive "params" with
      | none => exact hnone _
      | some params =>
          rw [Option.bind_some]
          dsimp only
          cases params.getObjectItemCaseSensitive "global-state" with
          | none => exact hnone .success
          | some globals =>
              cases globals with
              | array globals => exact globalLoop_iff globals hcount
              | _ => exact hnone .success

/-! ## Answers of nine entries, and with a long key -/

/-- The text of an answer, from the texts of its keys and of their values. -/
def stateText (entries : List (List UInt8 × List UInt8)) : List UInt8 :=
  lit "\x7b\"params\":\x7b\"global-state\":[" ++
    List.intercalate (lit ",") (entries.map fun (key, value) =>
      lit "\x7b\"key\":\"" ++ key ++ lit "\",\"value\":" ++ value ++ lit "\x7d") ++
    lit "]\x7d\x7d"

def stateJson (entries : List (List UInt8 × CJson)) : CJson :=
  .object [(cString (lit "params"), .object [(cString (lit "global-state"), .array
    (entries.map fun (key, value) =>
      .object [(cString (lit "key"), .string (cString key)), (cString (lit "value"), value)]))])]

/-- A value of type 2. -/
def sevenText : List UInt8 := lit "\x7b\"type\":2,\"uint\":7\x7d"

def sevenJson : CJson :=
  .object [(cString (lit "type"), .number (Rat.ofInt (2 : Nat))),
    (cString (lit "uint"), .number (Rat.ofInt (7 : Nat)))]

/-- cJSON on the answer with the value seven under each of the keys. -/
def parseSevens (keys : List (List UInt8)) : CJsonParse := fun s =>
  if s.bytes = stateText (keys.map (·, sevenText)) then some (stateJson (keys.map (·, sevenJson)))
  else none

def sevensText (keys : List (List UInt8)) : CStr := cString (stateText (keys.map (·, sevenText)))

/-- One entry, after seven others. -/
theorem application_within_buffers_iff_one :
    ∃ err states', parserApplicationJson (parseSevens [lit "YQ=="]) (sevensText [lit "YQ=="])
        { AppValues.zero with count := 7 } = .ok (err, states') ∧ states'.count ≤ appsKvMaxCount :=
  (application_within_buffers_iff (parseSevens [lit "YQ=="]) (sevensText [lit "YQ=="])
    (by decide : ({ AppValues.zero with count := 7 } : AppValues).count ≤ appsKvMaxCount)).mpr
    (by decide +kernel)

/-- An application with nine entries, and one with a key of 23 digits. -/
theorem nine_entries_overrun :
    (¬ ∃ err states', parserApplicationJson (parseSevens (List.replicate 9 (lit "YQ==")))
        (sevensText (List.replicate 9 (lit "YQ=="))) .zero = .ok (err, states') ∧
        states'.count ≤ appsKvMaxCount) ∧
    (¬ ∃ err states', parserApplicationJson (parseSevens [List.replicate 23 65])
        (sevensText [List.replicate 23 65]) .zero = .ok (err, states') ∧
        states'.count ≤ appsKvMaxCount) := by
  have hnine : parserApplicationJson (parseSevens (List.replicate 9 (lit "YQ==")))
      (sevensText (List.replicate 9 (lit "YQ=="))) .zero = .error .outOfBounds := by decide +kernel
  have hlong : parserApplicationJson (parseSevens [List.replicate 23 65])
      (sevensText [List.replicate 23 65]) .zero = .error .outOfBounds := by decide +kernel
  rw [hnine, hlong]
  have hnot : ¬ ∃ err states', (Except.error Fault.outOfBounds : Except Fault (RetCode × AppValues)) =
      .ok (err, states') ∧ states'.count ≤ appsKvMaxCount := fun ⟨_, _, h, _⟩ => nomatch h
  exact ⟨hnot, hnot⟩

end Vertices
