/-
# `Vertices.Types` — return codes, sizes and records shared by the SDK's modules

`include/vertices_types.h`, `vertices_config.h`, `vertices_errors.h` and
`src/include/algorand.h`, `transaction.h`, as far as the modelled functions use
them.

A C function that returns a `ret_code_t` is a function into `Except Fault`: `.ok`
carries the code it returns, together with what it wrote; `.error` is an execution
that has no defined continuation (a null dereference, an access outside an array)
or that ended the process.  `VTC_ASSERT` logs and continues
(`src/vertices_errors.c`: the breakpoint is commented out), so it leaves no trace
here.

`uint64_t` is `UInt64`; `size_t` and `uint32_t` counters that the code never lets
wrap are `Nat`; a fixed-size array is a `Vector`, a `\0`-terminated string a `CStr`.
-/
import Mathlib.Data.List.TakeWhile
import Vertices.Lib.RingBuffer
import Vertices.Lib.ByteOrder

namespace Vertices

/-- `ret_code_t`.  `other` is a value the enumeration does not name:
`VTC_ERROR_HTTP_BASE` and what is added to it. -/
inductive RetCode where
  | success
  | errorInternal
  | errorNoMem
  | errorNotFound
  | errorInvalidParam
  | errorInvalidState
  | errorInvalidAddr
  | errorOffline
  | errorAssertFails
  | sameMemExist
  | other (code : UInt32) (h : 10 ≤ code)
  deriving DecidableEq, Repr

def vtcErrorHttpBase : UInt32 := 0x10000000

/-- The cast `(ret_code_t) code`. -/
def RetCode.ofUInt32 (code : UInt32) : RetCode :=
  if h : 10 ≤ code then .other code h
  else match code.toNat with
    | 0 => .success
    | 1 => .errorInternal
    | 2 => .errorNoMem
    | 3 => .errorNotFound
    | 4 => .errorInvalidParam
    | 5 => .errorInvalidState
    | 6 => .errorInvalidAddr
    | 7 => .errorOffline
    | 8 => .errorAssertFails
    | _ => .sameMemExist

/-- How an execution can leave the C semantics, or the process. -/
inductive Fault where
  | nullDeref
  | outOfBounds
  | exit
  deriving DecidableEq, Repr

/-! ## Sizes -/

abbrev addressLength : Nat := 32
abbrev signatureLength : Nat := 64
abbrev transactionHashStrMaxLength : Nat := 53
abbrev blockHashLength : Nat := 32
abbrev pendingTxCount : Nat := 4

instance : NeZero pendingTxCount := ⟨by decide⟩

abbrev appsMaxCount : Nat := 3
abbrev appsKvMaxCount : Nat := 8
abbrev appsKvNameMaxLength : Nat := 8
abbrev appsKvSliceMaxSize : Nat := 8
abbrev httpMaximumContentLength : Nat := 4096

/-- The sizes an application may choose.  `VTC_EVENTS_COUNT` "must be a power of 2",
and it is a `size_t`; a note's length is written as a `uint32_t`. -/
structure Config where
  eventsLog : Nat
  eventsLog_pos : 1 ≤ eventsLog
  eventsLog_lt : eventsLog < 64
  optionalTxFieldsMaxSizeBytes : Nat
  optionalTxFieldsMaxSizeBytes_lt : optionalTxFieldsMaxSizeBytes < 2 ^ 32

/-- The values of `vertices_config.h`. -/
def Config.default : Config where
  eventsLog := 4
  eventsLog_pos := by decide
  eventsLog_lt := by decide
  optionalTxFieldsMaxSizeBytes := 128
  optionalTxFieldsMaxSizeBytes_lt := by decide

def Config.vtcEventsCount (c : Config) : Nat := 2 ^ c.eventsLog

def Config.txPayloadMaxLength (c : Config) : Nat := 512 + c.optionalTxFieldsMaxSizeBytes

/-! ## C strings -/

/-- The characters before the terminating `\0`. -/
@[ext]
structure CStr where
  bytes : List UInt8
  noNul : (0 : UInt8) ∉ bytes
  deriving DecidableEq

/-- A string literal of the source; all of them are ASCII. -/
def lit (s : String) : List UInt8 := s.toByteArray.data.toList

/-- `strlen`. -/
def CStr.strlen (s : CStr) : Nat := s.bytes.length

/-- What a reader of the `char` array `mem` takes for a string. -/
def cString (mem : List UInt8) : CStr where
  bytes := mem.takeWhile (· != 0)
  noNul h := by
    have := List.all_eq_true.mp List.all_takeWhile 0 h
    simp at this

theorem bytes_cString {mem : List UInt8} (h : (0 : UInt8) ∉ mem) : (cString mem).bytes = mem := by
  apply List.takeWhile_eq_self_iff.mpr
  intro c hc
  rw [bne_iff_ne]
  exact fun h0 => h (h0 ▸ hc)

/-- The string is the whole array exactly if no `\0` is in it. -/
theorem bytes_cString_eq_iff {mem : List UInt8} : (cString mem).bytes = mem ↔ (0 : UInt8) ∉ mem := by
  constructor
  · intro h hmem
    exact (cString mem).noNul (h.symm ▸ hmem)
  · exact bytes_cString

theorem bytes_cString_append {bs : List UInt8} (h : (0 : UInt8) ∉ bs) (rest : List UInt8) :
    (cString (bs ++ 0 :: rest)).bytes = bs := by
  show (bs ++ 0 :: rest).takeWhile (· != 0) = bs
  rw [List.takeWhile_append_of_pos, List.takeWhile_cons_of_neg (by decide), List.append_nil]
  intro c hc
  rw [bne_iff_ne]
  exact fun h0 => h (h0 ▸ hc)

/-- `strncmp(data, s, n) == 0`: equal up to `n` characters or up to a common end. -/
def strncmpEq : List UInt8 → List UInt8 → Nat → Bool
  | _, _, 0 => true
  | a, b, n + 1 =>
      a.headD 0 == b.headD 0 && (a.headD 0 == 0 || strncmpEq a.tail b.tail n)

/-- Over its own length, data is taken for a string that it starts, or that it continues
behind the terminator. -/
theorem strncmpEq_length_iff {data s : List UInt8} (hs : 0 ∉ s) :
    strncmpEq data s data.length = true ↔ data <+: s ∨ s ++ [0] <+: data := by
  induction data generalizing s with
  | nil => simp [strncmpEq]
  | cons a data ih =>
      cases s with
      | nil =>
          rw [List.length_cons, strncmpEq, List.nil_append, List.cons_prefix_cons]
          simp only [List.headD_cons, List.headD_nil, Bool.and_eq_true, beq_iff_eq]
          constructor
          · exact fun h => .inr ⟨h.1.symm, List.nil_prefix⟩
          · rintro (h | ⟨rfl, -⟩)
            · exact absurd h (by simp)
            · simp
      | cons b s =>
          rw [List.mem_cons, not_or] at hs
          rw [List.length_cons, strncmpEq, List.cons_append, List.cons_prefix_cons,
            List.cons_prefix_cons]
          simp only [List.headD_cons, List.tail_cons, Bool.and_eq_true, Bool.or_eq_true, beq_iff_eq]
          rw [ih hs.2]
          constructor
          · rintro ⟨rfl, rfl | hdata | hs'⟩
            · exact absurd rfl hs.1
            · exact .inl ⟨rfl, hdata⟩
            · exact .inr ⟨rfl, hs'⟩
          · rintro (⟨rfl, h⟩ | ⟨rfl, h⟩)
            · exact ⟨rfl, .inr (.inl h)⟩
            · exact ⟨rfl, .inr (.inr h)⟩

/-! ## Memory -/

/-- `v` with `bs` written from position `off` on. -/
def splice {n : Nat} (v : Vector UInt8 n) (off : Nat) (bs : List UInt8)
    (h : off + bs.length ≤ n) : Vector UInt8 n :=
  ⟨(v.toList.take off ++ bs ++ v.toList.drop (off + bs.length)).toArray, by
    simp only [List.size_toArray, List.length_append, List.length_take, List.length_drop,
      Vector.length_toList]
    omega⟩

@[simp] theorem toList_splice {n : Nat} (v : Vector UInt8 n) (off : Nat) (bs : List UInt8)
    (h : off + bs.length ≤ n) :
    (splice v off bs h).toList = v.toList.take off ++ bs ++ v.toList.drop (off + bs.length) :=
  rfl

/-- The written part and what is before it. -/
theorem take_splice {n : Nat} (v : Vector UInt8 n) (off : Nat) (bs : List UInt8)
    (h : off + bs.length ≤ n) :
    (splice v off bs h).toList.take (off + bs.length) = v.toList.take off ++ bs := by
  rw [toList_splice]
  exact List.take_left' (by
    simp only [List.length_append, List.length_take, Vector.length_toList]; omega)

/-- `memcpy(v + off, bs, len)`. -/
def memcpy {n : Nat} (v : Vector UInt8 n) (off : Nat) (bs : List UInt8) :
    Except Fault (Vector UInt8 n) :=
  if h : off + bs.length ≤ n then .ok (splice v off bs h) else .error .outOfBounds

theorem memcpy_eq_ok {n : Nat} {v w : Vector UInt8 n} {off : Nat} {bs : List UInt8} :
    memcpy v off bs = .ok w ↔ ∃ h : off + bs.length ≤ n, splice v off bs h = w := by
  unfold memcpy
  split
  · next h => rw [Except.ok.injEq]; exact ⟨fun he => ⟨h, he⟩, fun ⟨_, he⟩ => he⟩
  · next h => exact ⟨nofun, fun ⟨h', _⟩ => absurd h' h⟩

/-- A string of the array's length replaces its contents. -/
theorem memcpy_whole {n : Nat} (v : Vector UInt8 n) {bs : List UInt8} (h : bs.length = n) :
    ∃ w, memcpy v 0 bs = .ok w ∧ w.toList = bs := by
  have hfits : 0 + bs.length ≤ n := by rw [Nat.zero_add, h]
  refine ⟨_, memcpy_eq_ok.mpr ⟨hfits, rfl⟩, ?_⟩
  rw [toList_splice, List.take_zero, List.nil_append, Nat.zero_add, h]
  exact List.append_right_eq_self.mpr (List.drop_eq_nil_of_le v.length_toList.le)

/-- The empty string changes nothing. -/
theorem memcpy_nil {n : Nat} (v : Vector UInt8 n) : memcpy v 0 [] = .ok v := by
  refine memcpy_eq_ok.mpr ⟨Nat.zero_le n, ?_⟩
  apply Vector.toList_inj.mp
  rw [toList_splice, List.take_zero, List.nil_append, List.length_nil, List.drop_zero, List.nil_append]

/-- The subscript of a static array of `n` elements. -/
def subscript (n i : Nat) : Except Fault (Fin n) :=
  if h : i < n then .ok ⟨i, h⟩ else .error .outOfBounds

theorem subscript_eq_ok {n i : Nat} {k : Fin n} : subscript n i = .ok k ↔ k.val = i := by
  unfold subscript
  split
  · next h => rw [Except.ok.injEq, Fin.ext_iff, eq_comm]
  · next h =>
      constructor
      · exact nofun
      · intro hk; exact absurd (hk ▸ k.isLt) h

theorem subscript_of_lt {n i : Nat} (h : i < n) : subscript n i = .ok ⟨i, h⟩ :=
  subscript_eq_ok.mpr rfl

@[simp] theorem subscript_val {n : Nat} (k : Fin n) : subscript n k.val = .ok k :=
  subscript_eq_ok.mpr rfl

/-- An execution that does not fault runs each of its parts. -/
theorem bind_eq_ok {α β : Type} {x : Except Fault α} {f : α → Except Fault β} {b : β} :
    (x >>= f) = .ok b ↔ ∃ a, x = .ok a ∧ f a = .ok b := by
  cases x with
  | error e => exact ⟨nofun, fun ⟨_, h, _⟩ => nomatch h⟩
  | ok a => exact ⟨fun h => ⟨a, rfl, h⟩, fun ⟨_, ha, h⟩ => by cases ha; exact h⟩

/-- An execution faults in one of its parts. -/
theorem bind_eq_error {α β : Type} {x : Except Fault α} {f : α → Except Fault β} {fault : Fault} :
    (x >>= f) = .error fault ↔ x = .error fault ∨ ∃ a, x = .ok a ∧ f a = .error fault := by
  cases x with
  | error e =>
      constructor
      · intro h
        exact .inl (congrArg Except.error (Except.error.inj h))
      · rintro (h | ⟨_, ha, -⟩)
        · exact congrArg Except.error (Except.error.inj h)
        · exact nomatch ha
  | ok a =>
      constructor
      · exact fun h => .inr ⟨a, rfl, h⟩
      · rintro (h | ⟨_, ha, h⟩)
        · exact nomatch h
        · cases ha
          exact h

/-- What is asked of the outcome of an execution. -/
instance decidableForallOk {α : Type} {P : α → Prop} [DecidablePred P] :
    (x : Except Fault α) → Decidable (∀ a, x = .ok a → P a)
  | .error _ => isTrue nofun
  | .ok a => decidable_of_iff (P a) ⟨fun h _ ha => Except.ok.inj ha ▸ h, fun h => h a rfl⟩

theorem map_eq_ok {α β : Type} {x : Except Fault α} {f : α → β} {b : β} (h : x.map f = .ok b) :
    ∃ a, x = .ok a ∧ f a = b := by
  cases x with
  | error fault => exact nomatch h
  | ok a => exact ⟨a, rfl, Except.ok.inj h⟩

theorem pure_eq_ok {α : Type} {a b : α} : (pure a : Except Fault α) = .ok b ↔ a = b :=
  Except.ok.injEq a b ▸ Iff.rfl

theorem pure_eq_ok2 {α β : Type} {a a' : α} {b b' : β} :
    (pure (a, b) : Except Fault (α × β)) = .ok (a', b') ↔ a = a' ∧ b = b' := by
  rw [pure_eq_ok, Prod.mk.injEq]

theorem pure_eq_ok3 {α β γ : Type} {a a' : α} {b b' : β} {c c' : γ} :
    (pure (a, b, c) : Except Fault (α × β × γ)) = .ok (a', b', c') ↔ a = a' ∧ b = b' ∧ c = c' := by
  rw [pure_eq_ok, Prod.mk.injEq, Prod.mk.injEq]

theorem pure_eq_ok4 {α β γ δ : Type} {a a' : α} {b b' : β} {c c' : γ} {d d' : δ} :
    (pure (a, b, c, d) : Except Fault (α × β × γ × δ)) = .ok (a', b', c', d') ↔
      a = a' ∧ b = b' ∧ c = c' ∧ d = d' := by
  rw [pure_eq_ok, Prod.mk.injEq, Prod.mk.injEq, Prod.mk.injEq]

theorem throw_ne_ok {α : Type} (e : Fault) (a : α) : (throw e : Except Fault α) ≠ .ok a := nofun

/-! ## Events -/

/-- `vtc_evt_type_t`; `other` is any value the `switch` statements leave to `default`. -/
inductive VtcEvtType where
  | txReadyToSign
  | txSending
  | txSuccess
  | other (type : UInt32)
  deriving DecidableEq, Repr

/-- `vtc_evt_t`. -/
structure VtcEvt where
  type : VtcEvtType
  bufid : Nat
  deriving DecidableEq, Repr

/-! ## Application variables -/

/-- The storage of a `uint64_t`, on a little-endian host. -/
def uint64Bytes (value : UInt64) : Vector UInt8 8 :=
  ⟨(ByteOrder.leBytes 8 value.toNat).toArray, by simp⟩

/-- `value_type_t`, the type tag of a variable. -/
inductive ValueType where
  | none
  | byteslice
  | integer
  | other (type : UInt32) (h : 3 ≤ type)
  deriving DecidableEq, Repr

/-- The cast `(value_type_t) value`. -/
def ValueType.ofUInt64 (value : UInt64) : ValueType :=
  if h : 3 ≤ value.toUInt32 then .other value.toUInt32 h
  else match value.toUInt32.toNat with
    | 0 => .none
    | 1 => .byteslice
    | _ => .integer

/-- `app_key_value_t`.  `value` is the storage of the union of `value_uint` and
`value_slice`. -/
structure AppKeyValue where
  name : Vector UInt8 appsKvNameMaxLength
  type : ValueType
  value : Vector UInt8 appsKvSliceMaxSize
  deriving DecidableEq

/-- `value_uint`, on a little-endian host. -/
def AppKeyValue.valueUint (kv : AppKeyValue) : UInt64 :=
  UInt64.ofNat (ByteOrder.leNat kv.value.toList)

theorem valueUint_uint64Bytes (name : Vector UInt8 appsKvNameMaxLength) (type : ValueType)
    (ui : UInt64) : AppKeyValue.valueUint ⟨name, type, uint64Bytes ui⟩ = ui := by
  have hbytes : (uint64Bytes ui).toList = ByteOrder.leBytes 8 ui.toNat := rfl
  have hlt : ui.toNat < 256 ^ 8 := ui.toNat_lt
  rw [AppKeyValue.valueUint, hbytes, ByteOrder.leNat_leBytes, Nat.mod_eq_of_lt hlt,
    UInt64.ofNat_toNat]

def AppKeyValue.valueSlice (kv : AppKeyValue) : Vector UInt8 appsKvSliceMaxSize := kv.value

/-- `app_values_t`. -/
structure AppValues where
  count : Nat
  values : Vector AppKeyValue appsKvMaxCount
  deriving DecidableEq

/-! ## Accounts -/

abbrev publicB32StrMaxLength : Nat := 65

/-- `account_info_t`. -/
structure AccountInfo where
  publicB32 : Vector UInt8 publicB32StrMaxLength
  publicKey : Vector UInt8 addressLength
  amount : Int32
  deriving DecidableEq

/-- `apps_local_state_t`. -/
structure AppsLocalState where
  appId : UInt64
  keyValues : AppValues
  deriving DecidableEq

/-- `account_details_t`, as far as it is read or written. -/
structure AccountDetails where
  info : AccountInfo
  rewards : Int32
  rewardBase : Int32
  appIdx : Nat
  appsLocal : Vector AppsLocalState appsMaxCount
  deriving DecidableEq

/-- All bytes zero. -/
def AppKeyValue.zero : AppKeyValue where
  name := Vector.replicate _ 0
  type := .none
  value := Vector.replicate _ 0

def AppValues.zero : AppValues where
  count := 0
  values := Vector.replicate _ .zero

def AccountDetails.zero : AccountDetails where
  info := { publicB32 := Vector.replicate _ 0, publicKey := Vector.replicate _ 0, amount := 0 }
  rewards := 0
  rewardBase := 0
  appIdx := 0
  appsLocal := Vector.replicate _ { appId := 0, keyValues := .zero }

/-! ## Transactions -/

def txDefaultFee : UInt64 := 1000

/-- `tx_on_complete_t`. -/
inductive TxOnComplete where
  | noop
  | optIn
  | closeOut
  | clearState
  | updateApp
  | deleteApp
  deriving DecidableEq, Repr

def TxOnComplete.toNat : TxOnComplete → Nat
  | .noop => 0
  | .optIn => 1
  | .closeOut => 2
  | .clearState => 3
  | .updateApp => 4
  | .deleteApp => 5

/-- `payment_tx_t`; `close_remainder_to` is never read. -/
structure PaymentTx where
  receiver : Vector UInt8 addressLength
  amount : UInt64
  deriving DecidableEq

/-- `appl_tx_t`.  `key_values` is a pointer, `none` when null. -/
structure ApplTx where
  appId : UInt64
  onComplete : TxOnComplete
  keyValues : Option AppValues
  deriving DecidableEq

/-- `tx_type_t` with the member of the union that goes with it. -/
inductive TxBody where
  | pay (tx : PaymentTx)
  | keyreg
  | acfg
  | axfer
  | afrz
  | appl (tx : ApplTx)
  deriving DecidableEq

/-- `transaction_details_t`. -/
structure TransactionDetails where
  firstValid : UInt64
  lastValid : UInt64
  note : Option CStr
  tx : TxBody
  deriving DecidableEq

/-- What `transaction_pay` asks of `params`, the note. -/
def noteAccepted (c : Config) (params : Option CStr) : Bool :=
  match params with
  | none => true
  | some params => params.strlen ≤ c.optionalTxFieldsMaxSizeBytes

/-- `transaction_t`. -/
structure Transaction where
  senderPub : Vector UInt8 addressLength
  fee : UInt64
  genesisHash : Vector UInt8 blockHashLength
  details : TransactionDetails
  deriving DecidableEq

/-- `signed_transaction_t`: a pending slot. -/
structure SignedTransaction (c : Config) where
  payload : Vector UInt8 c.txPayloadMaxLength
  payloadHeaderLength : Nat
  payloadBodyLength : Nat
  signature : Vector UInt8 signatureLength
  id : Vector UInt8 transactionHashStrMaxLength
  deriving DecidableEq

/-- A slot after `memset(…, 0, sizeof(signed_transaction_t))`. -/
def SignedTransaction.zero (c : Config) : SignedTransaction c where
  payload := Vector.replicate _ 0
  payloadHeaderLength := 0
  payloadBodyLength := 0
  signature := Vector.replicate _ 0
  id := Vector.replicate _ 0

end Vertices
