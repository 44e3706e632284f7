/-
# `Vertices.VacantFields` — fields that are zero or empty

In a canonical map no value is a zero integer, an empty binary or an empty array: such a
field is left out, and not counted.  `encode_tx` leaves `apaa` and `apan` out so, but
writes `amt`, `apid`, `fee`, `fv` and `lv` always and `note` for every pointer.
-/
import Vertices.Atomicity

namespace Vertices

open MsgPack

variable {c : Config} {W : MpackWriter}

/-- A zero integer, an empty binary or an empty array. -/
def Vacant : Value → Prop
  | .int i => i = 0
  | .uint n => n = 0
  | .bin s => s = []
  | .array vs => vs = []
  | _ => False

/-- No pair has a value that is vacant. -/
def NoneVacant (pairs : List (Value × Value)) : Prop := ∀ kv ∈ pairs, ¬ Vacant kv.2

/-- The payload holds a map without a pair that could be left out. -/
def SignedTransaction.Canonical (slot : SignedTransaction c) : Prop :=
  ∃ pairs, slot.Holds pairs ∧ NoneVacant pairs

theorem SignedTransaction.Holds.unique {slot : SignedTransaction c} {pairs pairs' : List (Value × Value)}
    (h : slot.Holds pairs) (h' : slot.Holds pairs') : pairs = pairs' :=
  Value.map.inj (Prod.mk.inj (Option.some.inj (h.txn.symm.trans h'.txn))).1

theorem SignedTransaction.Holds.canonical_iff {slot : SignedTransaction c}
    {pairs : List (Value × Value)} (h : slot.Holds pairs) : slot.Canonical ↔ NoneVacant pairs := by
  constructor
  · rintro ⟨pairs', h', hnone⟩
    rwa [h.unique h']
  · intro hnone
    exact ⟨pairs, h, hnone⟩

/-! ## The fields -/

theorem noneVacant_append {kvs kvs' : List (Value × Value)} :
    NoneVacant (kvs ++ kvs') ↔ NoneVacant kvs ∧ NoneVacant kvs' := List.forall_mem_append

theorem noneVacant_field {key : String} {v : Value} : NoneVacant [field key v] ↔ ¬ Vacant v :=
  List.forall_mem_singleton

theorem vacant_uint {v : UInt64} : Vacant (.uint v.toNat) ↔ v = 0 := by
  rw [← UInt64.toNat_inj]
  rfl

theorem not_vacant_vector {n : Nat} {v : Vector UInt8 n} (hn : 0 < n) :
    ¬ Vacant (.bin v.toList) := by
  intro h
  have hlen := congrArg List.length (h : v.toList = [])
  rw [Vector.length_toList, List.length_nil] at hlen
  omega

theorem noneVacant_commonPairs (tx : Transaction) :
    NoneVacant (commonPairs tx) ↔
      tx.fee ≠ 0 ∧ tx.details.firstValid ≠ 0 ∧ tx.details.lastValid ≠ 0 := by
  have hgen : ¬ Vacant (.str (lit "testnet-v1.0")) := id
  have hgh : ¬ Vacant (.bin tx.genesisHash.toList) := not_vacant_vector (by decide)
  simp only [commonPairs, noneVacant_append, noneVacant_field, vacant_uint]
  tauto

theorem noneVacant_notePairs (note : Option CStr) :
    NoneVacant (notePairs (writtenNote note)) ↔ ∀ n ∈ note, n.strlen % 2 ^ 32 ≠ 0 := by
  cases note with
  | none => exact iff_of_true (fun kv hkv => absurd hkv List.not_mem_nil) fun n hn => nomatch hn
  | some n =>
      have hmod := Nat.mod_le n.strlen (2 ^ 32)
      have hlen : n.bytes.length = n.strlen := rfl
      have hempty : n.bytes.take (n.strlen % 2 ^ 32) = [] ↔ n.strlen % 2 ^ 32 = 0 := by
        rw [← List.length_eq_zero_iff, List.length_take]
        omega
      have hnote : NoneVacant (notePairs (writtenNote (some n))) ↔
          ¬ Vacant (.bin (n.bytes.take (n.strlen % 2 ^ 32))) := noneVacant_field
      rw [hnote, Vacant, hempty]
      simp

theorem noneVacant_trailingPairs (tx : Transaction) : NoneVacant (trailingPairs tx) := by
  rw [trailingPairs, noneVacant_append, noneVacant_field, noneVacant_field]
  exact ⟨not_vacant_vector (by decide), id⟩

theorem noneVacant_payPairs {tx : Transaction} {pay : PaymentTx} :
    NoneVacant (payPairs tx.written pay) ↔
      pay.amount ≠ 0 ∧ (tx.fee ≠ 0 ∧ tx.details.firstValid ≠ 0 ∧ tx.details.lastValid ≠ 0) ∧
        ∀ n ∈ tx.details.note, n.strlen % 2 ^ 32 ≠ 0 := by
  have hrcv : ¬ Vacant (.bin pay.receiver.toList) := not_vacant_vector (by decide)
  have hcommon : NoneVacant (commonPairs tx.written) ↔ _ := noneVacant_commonPairs tx
  have hnote : NoneVacant (notePairs tx.written.details.note) ↔ _ :=
    noneVacant_notePairs tx.details.note
  have htrailing := noneVacant_trailingPairs tx.written
  simp only [payPairs, noneVacant_append, noneVacant_field, vacant_uint, hcommon, hnote]
  tauto

theorem noneVacant_applLeading {appl : ApplTx} {keyValues : AppValues} {args : List (List UInt8)}
    (hlen : args.length = keyValues.count) :
    NoneVacant (applLeading appl keyValues args) ↔ appl.appId ≠ 0 := by
  have hapaa : NoneVacant
      (if keyValues.count ≠ 0 then [field "apaa" (.array (args.map .bin))] else []) := by
    split
    · next hc =>
        rw [noneVacant_field]
        intro h
        have hnil := congrArg List.length (h : args.map Value.bin = [])
        rw [List.length_map, hlen] at hnil
        exact hc hnil
    · exact fun kv hkv => absurd hkv List.not_mem_nil
  have hapan : NoneVacant
      (if appl.onComplete.toNat ≠ 0 then [field "apan" (.uint appl.onComplete.toNat)] else []) := by
    split
    · next ho => exact noneVacant_field.mpr ho
    · exact fun kv hkv => absurd hkv List.not_mem_nil
  rw [applLeading, noneVacant_append, noneVacant_append, noneVacant_field, vacant_uint]
  tauto

theorem noneVacant_applPairs {tx : Transaction} {appl : ApplTx} {keyValues : AppValues}
    {args : List (List UInt8)} (hlen : args.length = keyValues.count) :
    NoneVacant (applPairs tx appl keyValues args (writtenNote tx.details.note)) ↔
      appl.appId ≠ 0 ∧ (tx.fee ≠ 0 ∧ tx.details.firstValid ≠ 0 ∧ tx.details.lastValid ≠ 0) ∧
        ∀ n ∈ tx.details.note, n.strlen % 2 ^ 32 ≠ 0 := by
  have htrailing := noneVacant_trailingPairs tx
  simp only [applPairs, noneVacant_append, noneVacant_applLeading hlen, noneVacant_commonPairs,
    noneVacant_notePairs]
  tauto

/-! ## The map -/

/-- What the encoder does not test is there: the amount of a payment or the id of an
application, the fee, both rounds, and a character of the note. -/
structure Transaction.Filled (tx : Transaction) : Prop where
  amount : ∀ pay, tx.details.tx = .pay pay → pay.amount ≠ 0
  appId : ∀ appl, tx.details.tx = .appl appl → appl.appId ≠ 0
  common : tx.fee ≠ 0 ∧ tx.details.firstValid ≠ 0 ∧ tx.details.lastValid ≠ 0
  note : ∀ n ∈ tx.details.note, n.strlen % 2 ^ 32 ≠ 0

theorem Transaction.filled_pay {tx : Transaction} {pay : PaymentTx} (hpay : tx.details.tx = .pay pay) :
    tx.Filled ↔ pay.amount ≠ 0 ∧
      (tx.fee ≠ 0 ∧ tx.details.firstValid ≠ 0 ∧ tx.details.lastValid ≠ 0) ∧
        ∀ n ∈ tx.details.note, n.strlen % 2 ^ 32 ≠ 0 := by
  constructor
  · intro h
    exact ⟨h.amount pay hpay, h.common, h.note⟩
  · rintro ⟨hamount, hcommon, hnote⟩
    refine ⟨fun pay' hpay' => ?_, fun appl happl => ?_, hcommon, hnote⟩
    · cases hpay.symm.trans hpay'
      exact hamount
    · cases hpay.symm.trans happl

theorem Transaction.filled_appl {tx : Transaction} {appl : ApplTx}
    (happl : tx.details.tx = .appl appl) :
    tx.Filled ↔ appl.appId ≠ 0 ∧
      (tx.fee ≠ 0 ∧ tx.details.firstValid ≠ 0 ∧ tx.details.lastValid ≠ 0) ∧
        ∀ n ∈ tx.details.note, n.strlen % 2 ^ 32 ≠ 0 := by
  constructor
  · intro h
    exact ⟨h.appId appl happl, h.common, h.note⟩
  · rintro ⟨happId, hcommon, hnote⟩
    refine ⟨fun pay hpay => ?_, fun appl' happl' => ?_, hcommon, hnote⟩
    · cases happl.symm.trans hpay
    · cases happl.symm.trans happl'
      exact happId

/-- What a payment writes is canonical if it is filled. -/
theorem Encoded.canonical_pay {tx : Transaction} {pay : PaymentTx} {slot : SignedTransaction c}
    (hpay : tx.details.tx = .pay pay)
    (h : Encoded (bodyAround tx (9 + noteCount tx.details.note)
      (fieldOps "amt" (.writeUint pay.amount))) slot) : slot.Canonical ↔ tx.Filled := by
  rw [(h.holds_pay_written hpay).canonical_iff, noneVacant_payPairs, Transaction.filled_pay hpay]

/-- A call is no map at all if an argument has no type. -/
theorem Encoded.canonical_appl {tx : Transaction} {appl : ApplTx} {ops : List WriteOp}
    {slot : SignedTransaction c} (happl : tx.details.tx = .appl appl) (hops : bodyOps tx = .ok ops)
    (h : Encoded ops slot) : slot.Canonical ↔ ArgsTyped appl.keyValues ∧ tx.Filled := by
  by_cases htyped : ArgsTyped appl.keyValues
  · obtain ⟨keyValues, hkv, hcount, rfl⟩ := (bodyOps_appl happl).mp hops
    have hholds := h.holds_appl happl hcount (htyped keyValues hkv)
    have hlen : (keyValues.args.map (writtenArg keyValues.values[0])).length = keyValues.count := by
      rw [List.length_map, length_args hcount]
    rw [hholds.canonical_iff, noneVacant_applPairs hlen, Transaction.filled_appl happl,
      and_iff_right htyped]
  · refine iff_of_false ?_ fun hboth => htyped hboth.1
    rintro ⟨pairs, hholds, -⟩
    exact htyped (h.argsTyped_of_complete happl hops ⟨hholds.inside, _, hholds.root⟩)

/-- **The map is canonical only where there is nothing to leave out.** -/
theorem txn_map_canonical_iff (hW : W.Lawful) {tx : Transaction}
    (hreq : (∃ pay, tx.details.tx = .pay pay) ∨ ∃ appl, tx.details.tx = .appl appl)
    {slot slot' : SignedTransaction c} (henc : encodeTx W tx slot = .ok (.success, slot')) :
    slot'.Canonical ↔ ArgsTyped tx.details.tx.args ∧ tx.Filled := by
  obtain ⟨ops, hops, ⟨-, h⟩ | ⟨he, -⟩⟩ := encodeTx_cases hW henc
  · rcases hreq with ⟨pay, hpay⟩ | ⟨appl, happl⟩
    · obtain rfl := Except.ok.inj ((bodyOps_pay hpay).symm.trans hops)
      have htyped : ArgsTyped tx.details.tx.args := by
        rw [hpay]
        intro keyValues hkv
        cases hkv
      rw [h.canonical_pay hpay, and_iff_right htyped]
    · rw [h.canonical_appl happl hops, happl]
      rfl
  · cases he

/-- A payment of 5 with a note. -/
theorem txn_map_canonical_iff_noted :
    ∃ slot, encodeTx appendWriter notedPayment (.zero Config.default) = .ok (.success, slot) ∧
      (slot.Canonical ↔ ArgsTyped notedPayment.details.tx.args ∧ notedPayment.Filled) := by
  have hpay : notedPayment.details.tx = .pay { receiver := Vector.replicate _ 3, amount := 5 } :=
    rfl
  obtain ⟨slot, henc, -⟩ := encodeTx_pay appendWriter_lawful hpay (by decide) (.zero Config.default)
  exact ⟨slot, henc, txn_map_canonical_iff appendWriter_lawful (.inl ⟨_, hpay⟩) henc⟩

/-! ## What is written although it is nothing -/

/-- A payment of nothing. -/
def zeroPayment : PaymentTx := { receiver := Vector.replicate _ 3, amount := 0 }

/-- The creation of an application. -/
def creationCall : ApplTx := { appId := 0, onComplete := .noop, keyValues := some .zero }

/-- An empty note, given. -/
def emptyNote : Transaction where
  senderPub := Vector.replicate _ 1
  fee := txDefaultFee
  genesisHash := Vector.replicate _ 2
  details :=
    { firstValid := 1, lastValid := 1001, note := some (cString [])
      tx := .pay { receiver := Vector.replicate _ 3, amount := 5 } }

/-- `amt` is written as 0, `apid` is written as 0, and `note` as an empty binary. -/
theorem vacant_fields_written :
    (∃ slot, encodeTx appendWriter (plainTx (.pay zeroPayment)) (.zero Config.default) =
        .ok (.success, slot) ∧ ¬ slot.Canonical) ∧
      (∃ slot, encodeTx appendWriter (plainTx (.appl creationCall)) (.zero Config.default) =
        .ok (.success, slot) ∧ ¬ slot.Canonical) ∧
      ∃ slot, encodeTx appendWriter emptyNote (.zero Config.default) = .ok (.success, slot) ∧
        ¬ slot.Canonical := by
  refine ⟨?_, ?_, ?_⟩
  · have hpay : (plainTx (.pay zeroPayment)).details.tx = .pay zeroPayment := rfl
    obtain ⟨slot, henc, h⟩ := encodeTx_pay appendWriter_lawful hpay (by decide) (.zero Config.default)
    refine ⟨slot, henc, fun hc => ?_⟩
    exact ((h.canonical_pay hpay).mp hc).amount _ hpay rfl
  · have happl : (plainTx (.appl creationCall)).details.tx = .appl creationCall := rfl
    obtain ⟨slot, henc, h⟩ :=
      encodeTx_appl appendWriter_lawful happl rfl (by decide) rfl (.zero Config.default)
    refine ⟨slot, henc, fun hc => ?_⟩
    have hops := (bodyOps_appl happl).mpr ⟨_, rfl, by decide, rfl⟩
    exact ((h.canonical_appl happl hops).mp hc).2.appId _ happl rfl
  · have hpay : emptyNote.details.tx = .pay { receiver := Vector.replicate _ 3, amount := 5 } := rfl
    obtain ⟨slot, henc, h⟩ := encodeTx_pay appendWriter_lawful hpay (by decide) (.zero Config.default)
    refine ⟨slot, henc, fun hc => ?_⟩
    exact ((h.canonical_pay hpay).mp hc).note _ rfl rfl

end Vertices
