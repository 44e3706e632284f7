/-
# `Vertices.StateExtraction` — what is taken from an application's answer

Every entry that is well formed is stored, in its place, with its name and its value.  Of
the value only integers come out as they are: a byte slice is marked as an integer, and an
integer passes through the `int` of cJSON.  Of the names those are lost whose base64 text
is too short, or a little too long, for the check of the size.
-/
import Vertices.GlobalState
import Vertices.TxParams
import Vertices.Lib.SixBit

namespace Vertices

/-! ## Base64 text -/

def b64Char (digit : UInt8) : UInt8 := base64Table.getD digit.toNat 0

/-- The characters that stand for `bytes`, without the signs that fill up the last group. -/
def b64Chars (bytes : List UInt8) : List UInt8 := (SixBit.digits bytes).map b64Char

/-- The sign that fills up, `=`. -/
abbrev b64Pad : UInt8 := 61

def b64Text (bytes : List UInt8) : List UInt8 :=
  b64Chars bytes ++ List.replicate ((3 - bytes.length % 3) % 3) b64Pad

/-- Each character has the place of its digit in the table, and `=` is no digit. -/
theorem pr2six_alphabet :
    (∀ n < 64, pr2six (base64Table.getD n 0) = UInt8.ofNat n) ∧ ¬ pr2six b64Pad ≤ 63 := by
  decide +kernel

theorem pr2six_b64Char {d : UInt8} (hd : d.toNat < 64) : pr2six (b64Char d) = d := by
  have htable := pr2six_alphabet.1 d.toNat hd
  rwa [UInt8.ofNat_toNat] at htable

/-- The end of the digits is found, with and without signs behind them. -/
theorem takeWhile_b64Chars (bytes : List UInt8) (pads : Nat) :
    (b64Chars bytes ++ List.replicate pads b64Pad).takeWhile (fun c => pr2six c ≤ 63) =
      b64Chars bytes := by
  rw [List.takeWhile_append_of_pos]
  · have hpad : ¬ pr2six b64Pad ≤ 63 := pr2six_alphabet.2
    cases pads with
    | zero => rw [List.replicate_zero, List.takeWhile_nil, List.append_nil]
    | succ pads =>
        rw [List.replicate_succ, List.takeWhile_cons_of_neg (by simpa using hpad), List.append_nil]
  · intro c hc
    obtain ⟨d, hd, rfl⟩ := List.mem_map.mp hc
    have hlt := SixBit.digits_lt bytes d hd
    rw [pr2six_b64Char hlt]
    exact decide_eq_true (UInt8.le_iff_toNat_le.mpr (Nat.le_of_lt_succ hlt))

theorem map_pr2six_b64Chars (bytes : List UInt8) :
    (b64Chars bytes).map pr2six = SixBit.digits bytes := by
  have hback : ∀ d ∈ SixBit.digits bytes, (pr2six ∘ b64Char) d = id d := by
    intro d hd
    rw [Function.comp_apply, pr2six_b64Char (SixBit.digits_lt bytes d hd), id]
  rw [b64Chars, List.map_map, List.map_congr_left hback, List.map_id]

/-- The digits are decoded to what they stand for. -/
theorem b64Bytes_digits (bytes : List UInt8) : b64Bytes (SixBit.digits bytes) = bytes := by
  fun_induction SixBit.digits bytes with
  | case1 a b c rest ih =>
      rw [b64Bytes, SixBit.first_byte, SixBit.second_byte, SixBit.third_byte, ih]
  | case2 a b => rw [b64Bytes, SixBit.first_byte, SixBit.second_byte]
  | case3 a => rw [b64Bytes, SixBit.first_byte]
  | case4 => rfl

/-! ## Entries -/

/-- The value of an entry: an integer that a double holds exactly, or a byte slice as it is
in the text. -/
inductive GlobalValue where
  | uint (n : Nat) (h : n < 2 ^ 53)
  | bytes (slice : CStr)

/-- A well-formed entry.  `text` is `key` in base64, of which the signs at the end may be
left out. -/
structure GlobalVar where
  text : CStr
  key : List UInt8
  isText : text.bytes = b64Text key ∨ text.bytes = b64Chars key
  key_le : key.length ≤ keyStrSize
  value : GlobalValue

/-- `element` has these members. -/
def GlobalVar.InElement (v : GlobalVar) (element : CJson) : Prop :=
  element.stringItem "key" = some v.text ∧
    ∃ value, element.getObjectItemCaseSensitive "value" = some value ∧
      match v.value with
      | .uint n _ => value.doubleItem "type" = some (Rat.ofInt (2 : Nat)) ∧
          value.doubleItem "uint" = some (Rat.ofInt n)
      | .bytes slice => value.doubleItem "type" = some (Rat.ofInt (1 : Nat)) ∧
          value.stringItem "bytes" = some slice

/-- The first bytes of a key, with zeros behind it. -/
def nameBytes (key : List UInt8) : List UInt8 :=
  (key ++ List.replicate appsKvNameMaxLength 0).take appsKvNameMaxLength

def GlobalVar.StoredAs (v : GlobalVar) (kv : AppKeyValue) : Prop :=
  kv.name.toList = nameBytes v.key ∧
    match v.value with
    | .uint n _ => kv.type = .integer ∧ kv.valueUint.toNat = n
    | .bytes _ => kv.type = .byteslice

/-- The parser succeeds, with an entry for each of `vars`. -/
def StateExtracted (vars : List GlobalVar) (r : Except Fault (RetCode × AppValues)) : Prop :=
  ∃ states, r = .ok (.success, states) ∧ states.count = vars.length ∧
    ∀ (i : Fin appsKvMaxCount) (v : GlobalVar), vars[i.val]? = some v → v.StoredAs (states.values.get i)

/-- The size of the text lets it through the check, or there is nothing in the name. -/
def GlobalVar.NameKept (v : GlobalVar) : Prop :=
  (4 ≤ v.text.strlen ∧ v.text.strlen < 24) ∨ ∀ b ∈ v.key.take appsKvNameMaxLength, b = 0

def GlobalVar.ValueKept (v : GlobalVar) : Prop :=
  match v.value with
  | .uint n _ => n ≤ 2147483647
  | .bytes _ => False

/-! ## Names -/

theorem toList_nameOf (keyStr : Vector UInt8 keyStrSize) :
    (nameOf keyStr).toList = keyStr.toList.take appsKvNameMaxLength := by
  apply List.ext_getElem
  · rw [Vector.length_toList, List.length_take, Vector.length_toList]
    rfl
  · intro i hi hi'
    rw [Vector.length_toList] at hi
    rw [Vector.getElem_toList, List.getElem_take]
    have hbound : i < keyStr.toList.length := by
      rw [Vector.length_toList]
      exact Nat.lt_of_lt_of_le hi (by decide)
    simp only [nameOf, Vector.getElem_ofFn]
    rw [List.getD_eq_getElem?_getD, List.getElem?_eq_getElem hbound, Option.getD_some]

theorem nameBytes_eq (key : List UInt8) :
    nameBytes key = key.take appsKvNameMaxLength ++ List.replicate (appsKvNameMaxLength - key.length) 0 := by
  rw [nameBytes, List.take_append, List.take_replicate, Nat.min_eq_left (Nat.sub_le _ _)]

/-- The name is lost on a key that is not decoded, unless it is one of zeros. -/
theorem nameBytes_eq_zero {key : List UInt8} :
    List.replicate appsKvNameMaxLength 0 = nameBytes key ↔ ∀ b ∈ key.take appsKvNameMaxLength, b = 0 := by
  rw [nameBytes_eq]
  constructor
  · intro h b hb
    exact List.eq_of_mem_replicate (h ▸ List.mem_append_left _ hb)
  · intro hzero
    refine (List.eq_replicate_iff.mpr ⟨?_, ?_⟩).symm
    · rw [List.length_append, List.length_take, List.length_replicate]
      omega
    · intro b hb
      rcases List.mem_append.mp hb with hb | hb
      · exact hzero b hb
      · exact List.eq_of_mem_replicate hb

theorem GlobalVar.text_eq (v : GlobalVar) :
    ∃ pads ≤ 2, v.text.bytes = b64Chars v.key ++ List.replicate pads b64Pad := by
  rcases v.isText with h | h
  · exact ⟨_, by omega, h⟩
  · exact ⟨0, by omega, by rw [h, List.replicate_zero, List.append_nil]⟩

theorem GlobalVar.b64Digits_text (v : GlobalVar) :
    (b64Digits v.text).map pr2six = SixBit.digits v.key := by
  obtain ⟨pads, -, htext⟩ := v.text_eq
  rw [b64Digits, htext, takeWhile_b64Chars, map_pr2six_b64Chars]

/-- The check lets through what it can see to be at least one and at most five groups. -/
theorem GlobalVar.refused_iff (v : GlobalVar) :
    (v.text.strlen = 0 ∨ keyStrSize < (v.text.strlen / 4 * 3 + (2 ^ 64 - 1)) % 2 ^ 64) ↔
      ¬ (4 ≤ v.text.strlen ∧ v.text.strlen < 24) := by
  obtain ⟨pads, hpads, htext⟩ := v.text_eq
  have hkey : v.key.length ≤ 16 := v.key_le
  have hlen : v.text.strlen ≤ 24 := by
    rw [CStr.strlen, htext, List.length_append, b64Chars, List.length_map, SixBit.length_digits,
      List.length_replicate]
    omega
  rw [← Nat.not_le, sizeCheck_iff (by omega)]
  omega

theorem GlobalVar.decodedKey_text (v : GlobalVar) :
    ∃ keyStr, decodedKey v.text = .ok keyStr ∧
      ((nameOf keyStr).toList = nameBytes v.key ↔ v.NameKept) := by
  by_cases hfits : 4 ≤ v.text.strlen ∧ v.text.strlen < 24
  · have hlen : 0 + v.key.length ≤ keyStrSize := by
      rw [Nat.zero_add]
      exact v.key_le
    refine ⟨splice (Vector.replicate _ 0) 0 v.key hlen,
      (decodedKey_decoded fun h => v.refused_iff.mp h hfits).trans ?_, ?_⟩
    · rw [v.b64Digits_text, b64Bytes_digits]
      exact memcpy_eq_ok.mpr ⟨hlen, rfl⟩
    · refine iff_of_true ?_ (.inl hfits)
      rw [toList_nameOf, toList_splice, List.take_zero, List.nil_append, Nat.zero_add, nameBytes_eq,
        List.take_append, Vector.toList_replicate, List.drop_replicate, List.take_replicate]
      have hkey : v.key.length ≤ 16 := v.key_le
      rw [Nat.min_eq_left]
      simp only [keyStrSize, appsKvNameMaxLength]
      omega
  · refine ⟨_, decodedKey_refused (v.refused_iff.mpr hfits), ?_⟩
    have hname : (nameOf (Vector.replicate keyStrSize 0)).toList = List.replicate appsKvNameMaxLength 0 := by
      rw [toList_nameOf, Vector.toList_replicate, List.take_replicate]
      rfl
    rw [hname, nameBytes_eq_zero, GlobalVar.NameKept, or_iff_right hfits]

/-! ## Entries in their places -/

@[simp] theorem AppValues.get_modify (states : AppValues) (i j : Fin appsKvMaxCount)
    (f : AppKeyValue → AppKeyValue) :
    (states.modify i f).values.get j = if i = j then f (states.values.get i) else states.values.get j := by
  show (states.values.setIfInBounds i.val (f (states.values.get i)))[j.val] = _
  rw [Vector.getElem_setIfInBounds]
  by_cases h : i = j
  · rw [if_pos h, if_pos (congrArg Fin.val h)]
  · rw [if_neg h, if_neg fun hval => h (Fin.ext hval)]
    rfl

theorem GlobalVar.globalValue_stored (v : GlobalVar) {element value : CJson}
    (h : v.InElement element) (hvalue : element.getObjectItemCaseSensitive "value" = some value)
    (kv : AppKeyValue) :
    ∃ kv', globalValue value kv = .ok (.success, kv') ∧ kv'.name = kv.name ∧
      ((match v.value with
        | .uint n _ => kv'.type = .integer ∧ kv'.valueUint.toNat = n
        | .bytes _ => kv'.type = .byteslice) ↔ v.ValueKept) := by
  obtain ⟨-, value', hvalue', hmembers⟩ := h
  cases hvalue.symm.trans hvalue'
  rw [globalValue, CJson.numberItem, GlobalVar.ValueKept]
  cases hv : v.value with
  | uint n hn =>
      rw [hv] at hmembers
      have htype : CJson.toValueint (Rat.ofInt (2 : Nat)) = 2 := by decide
      rw [hmembers.1, CJson.numberItem, hmembers.2]
      refine ⟨_, if_pos htype, rfl, ?_⟩
      dsimp only
      rw [valueUint_uint64Bytes, toNat_toValueint]
      constructor
      · intro h
        have hmin : min n 2147483647 = n := h.2
        omega
      · exact fun hle => ⟨rfl, Nat.min_eq_left hle⟩
  | bytes slice =>
      rw [hv] at hmembers
      have htype : ¬ CJson.toValueint (Rat.ofInt (1 : Nat)) = 2 := by decide
      have htype' : CJson.toValueint (Rat.ofInt (1 : Nat)) = 1 := by decide
      obtain ⟨value', hcopied⟩ := memcpy_slice kv.value slice.bytes
      rw [hmembers.1, hmembers.2]
      refine ⟨{ kv with type := .integer, value := value' },
        (if_neg htype).trans ((if_pos htype').trans ?_), rfl, iff_of_false ?_ id⟩
      · dsimp only
        rw [hcopied]
        rfl
      · intro h
        cases h

/-- A well-formed entry is stored at `count`, and nothing else changes. -/
theorem GlobalVar.globalEntry_stored (v : GlobalVar) {element : CJson} (h : v.InElement element)
    {states : AppValues} (hcount : states.count < appsKvMaxCount) :
    ∃ kv states', globalEntry element states = .ok (.success, states') ∧
      states'.count = states.count + 1 ∧
      (∀ i : Fin appsKvMaxCount,
        states'.values.get i = if i.val = states.count then kv else states.values.get i) ∧
      (v.StoredAs kv ↔ v.NameKept ∧ v.ValueKept) := by
  obtain ⟨value, hvalue, -⟩ := h.2
  obtain ⟨keyStr, hdecoded, hname⟩ := v.decodedKey_text
  let i : Fin appsKvMaxCount := ⟨states.count, hcount⟩
  let named := states.modify i fun kv => { kv with name := nameOf keyStr }
  obtain ⟨kv, hstored, hkept, hval⟩ := v.globalValue_stored h hvalue (named.values.get i)
  refine ⟨kv, { named.modify i (fun _ => kv) with count := states.count + 1 }, ?_, rfl, ?_, ?_⟩
  · rw [globalEntry, h.1]
    dsimp only
    rw [hdecoded, subscript_of_lt hcount, hvalue]
    show storeGlobal i value named = _
    rw [storeGlobal, hstored]
    rfl
  · intro j
    show (named.modify i fun _ => kv).values.get j = _
    rw [AppValues.get_modify]
    by_cases hj : i = j
    · rw [if_pos hj, if_pos (congrArg Fin.val hj).symm]
    · rw [if_neg hj, if_neg fun hval => hj (Fin.ext hval.symm), AppValues.get_modify, if_neg hj]
  · have hkvName : kv.name = nameOf keyStr := by
      rw [hkept, AppValues.get_modify, if_pos rfl]
    rw [GlobalVar.StoredAs, hkvName, hname, hval]

/-- The loop stores the entries one behind the other. -/
theorem globalLoop_stored {vars : List GlobalVar} {elements : List CJson}
    (h : List.Forall₂ GlobalVar.InElement vars elements) {states : AppValues}
    (hcount : states.count + vars.length ≤ appsKvMaxCount) :
    ∃ states', globalLoop elements states = .ok (.success, states') ∧
      states'.count = states.count + vars.length ∧
      (∀ i : Fin appsKvMaxCount, i.val < states.count → states'.values.get i = states.values.get i) ∧
      ∀ (i : Fin appsKvMaxCount) (j : Nat) (v : GlobalVar), vars[j]? = some v →
        i.val = states.count + j → (v.StoredAs (states'.values.get i) ↔ v.NameKept ∧ v.ValueKept) := by
  induction h generalizing states with
  | nil => exact ⟨states, rfl, rfl, fun _ _ => rfl, fun _ _ _ hv => nomatch hv⟩
  | @cons v element vars elements helement _ ih =>
      rw [List.length_cons] at hcount
      obtain ⟨kv, states₁, hentry, hcount₁, hget₁, hkept⟩ :=
        v.globalEntry_stored helement (by omega : states.count < appsKvMaxCount)
      obtain ⟨states', hloop, hcount', hbefore, hafter⟩ :=
        ih (by omega : states₁.count + vars.length ≤ appsKvMaxCount)
      refine ⟨states', ?_, ?_, ?_, ?_⟩
      · rw [globalLoop_next elements hentry, hloop]
      · rw [hcount', hcount₁, List.length_cons]
        omega
      · intro i hi
        rw [hbefore i (by omega), hget₁, if_neg (by omega)]
      · intro i j w hw hi
        cases j with
        | zero =>
            cases hw
            rw [hbefore i (by omega), hget₁, if_pos (hi.trans (Nat.add_zero _))]
            exact hkept
        | succ j => exact hafter i j w hw (by omega)

/-- **Global state.**  An answer with at most eight well-formed entries, parsed into an empty
record, gives one entry for each with its name, type and value, exactly if no value is a
byte slice or more than an `int` holds, and the text of each key, unless the name is one of
zeros, has 4 to 23 characters: all keys of up to 15 bytes in padded text. -/
theorem global_state_extracted_iff (cJSON_Parse : CJsonParse) {buf : CStr} {json params : CJson}
    {elements : List CJson} {vars : List GlobalVar} {states : AppValues}
    (hjson : cJSON_Parse buf = some json)
    (hparams : json.getObjectItemCaseSensitive "params" = some params)
    (hglobals : params.getObjectItemCaseSensitive "global-state" = some (.array elements))
    (helements : List.Forall₂ GlobalVar.InElement vars elements)
    (hlength : vars.length ≤ appsKvMaxCount) (hempty : states.count = 0) :
    StateExtracted vars (parserApplicationJson cJSON_Parse buf states) ↔
      ∀ v ∈ vars, v.NameKept ∧ v.ValueKept := by
  have hparsed : parserApplicationJson cJSON_Parse buf states = globalLoop elements states := by
    rw [parserApplicationJson, hjson]
    dsimp only
    rw [hparams]
    dsimp only
    rw [hglobals]
  obtain ⟨states', hloop, hcount, -, hstored⟩ :=
    globalLoop_stored helements (by omega : states.count + vars.length ≤ appsKvMaxCount)
  rw [hparsed, StateExtracted]
  constructor
  · rintro ⟨states'', hloop'', -, hall⟩ v hv
    cases hloop.symm.trans hloop''
    obtain ⟨j, hj⟩ := List.mem_iff_getElem?.mp hv
    obtain ⟨hlt, -⟩ := List.getElem?_eq_some_iff.mp hj
    let i : Fin appsKvMaxCount := ⟨j, by omega⟩
    exact (hstored i j v hj (by rw [hempty, Nat.zero_add])).mp (hall i v hj)
  · intro hkept
    refine ⟨states', hloop, by rw [hcount, hempty, Nat.zero_add], ?_⟩
    intro i v hv
    exact (hstored i i.val v hv (by rw [hempty, Nat.zero_add])).mpr
      (hkept v (List.mem_of_getElem? hv))

/-! ## A counter and a slice -/

/-- The name `counter`, as the answer has it. -/
def counterText : CStr := cString (lit "Y291bnRlcg==")

/-- The variable `counter`, with some value. -/
def counterVar (value : GlobalValue) : GlobalVar where
  text := counterText
  key := lit "counter"
  isText := .inl (by decide +kernel)
  key_le := by decide
  value := value

def sliceText : List UInt8 := lit "\x7b\"type\":1,\"bytes\":\"AAE=\"\x7d"

def sliceJson : CJson :=
  .object [(cString (lit "type"), .number (Rat.ofInt (1 : Nat))),
    (cString (lit "bytes"), .string (cString (lit "AAE=")))]

/-- cJSON on the answer for an application with the one variable. -/
def parseCounter (valueText : List UInt8) (value : CJson) : CJsonParse := fun s =>
  if s.bytes = stateText [(counterText.bytes, valueText)] then
    some (stateJson [(counterText.bytes, value)])
  else none

def counterAnswer (valueText : List UInt8) : CStr := cString (stateText [(counterText.bytes, valueText)])

/-- The one entry, as it is found. -/
def counterElement (value : CJson) : CJson :=
  .object [(cString (lit "key"), .string (cString counterText.bytes)), (cString (lit "value"), value)]

theorem global_state_extracted_iff_seven :
    StateExtracted [counterVar (.uint 7 (by decide))]
      (parserApplicationJson (parseCounter sevenText sevenJson) (counterAnswer sevenText) .zero) := by
  have helement : (counterVar (.uint 7 (by decide))).InElement (counterElement sevenJson) := by
    refine ⟨?_, sevenJson, ?_, ?_, ?_⟩
    · rw [CJson.stringItem, counterElement, CJson.getObjectItem_head _ _ (by decide +kernel)]
      exact congrArg some (CStr.ext (bytes_cString counterText.noNul))
    · rw [counterElement, CJson.getObjectItem_tail _ _ (by decide +kernel),
        CJson.getObjectItem_head _ _ (by decide +kernel)]
    · rw [CJson.doubleItem, sevenJson, CJson.getObjectItem_head _ _ (by decide +kernel)]
      rfl
    · rw [CJson.doubleItem, sevenJson, CJson.getObjectItem_tail _ _ (by decide +kernel),
        CJson.getObjectItem_head _ _ (by decide +kernel)]
      rfl
  exact (global_state_extracted_iff (parseCounter sevenText sevenJson)
    (if_pos (by decide +kernel) :
      parseCounter sevenText sevenJson (counterAnswer sevenText) =
        some (stateJson [(counterText.bytes, sevenJson)]))
    (CJson.getObjectItem_head _ _ (by decide +kernel))
    (CJson.getObjectItem_head _ _ (by decide +kernel))
    (.cons helement .nil) (by decide) rfl).mpr
    (List.forall_mem_singleton.mpr ⟨.inl (by decide +kernel), (by decide : 7 ≤ 2147483647)⟩)

/-- A slice is marked as an integer. -/
theorem slice_read_as_integer :
    ¬ StateExtracted [counterVar (.bytes (cString (lit "AAE=")))]
      (parserApplicationJson (parseCounter sliceText sliceJson) (counterAnswer sliceText) .zero) := by
  have htype : (parserApplicationJson (parseCounter sliceText sliceJson) (counterAnswer sliceText) .zero).map
      (fun r => (r.2.values.get 0).type) = .ok .integer := by decide +kernel
  rintro ⟨states, hparsed, -, hall⟩
  rw [hparsed] at htype
  obtain ⟨-, hslice⟩ := hall 0 _ rfl
  cases hslice.symm.trans (Except.ok.inj htype)

end Vertices
