/-
# `Vertices.SignedMeaning` — what a signature commits to

A signature is made over the bytes of the body.  `Meaning` is what these bytes say: the
fields of the transaction, and of an application call its arguments as they are written.
Two transactions are signed as the same bytes if and only if they have the same meaning.

    Meaning.pairs_injective    no two meanings have the same fields
    signed_bytes_eq_iff        no two meanings have the same bytes
-/
import Vertices.OutboxRuns

namespace Vertices

open MsgPack

variable {c : Config} {W : MpackWriter}

/-! ## Meanings -/

/-- What is asked of the chain. -/
inductive Action where
  | pay (receiver : Vector UInt8 addressLength) (amount : UInt64)
  | call (appId : UInt64) (onComplete : TxOnComplete) (args : List (List UInt8))
  deriving DecidableEq

structure Meaning where
  sender : Vector UInt8 addressLength
  fee : UInt64
  firstValid : UInt64
  lastValid : UInt64
  genesisHash : Vector UInt8 blockHashLength
  note : Option CStr
  action : Action
  deriving DecidableEq

/-- The arguments of a call, each as it is written. -/
def AppValues.written (keyValues : AppValues) : List (List UInt8) :=
  keyValues.args.map (writtenArg (keyValues.values.get 0))

/-- What a transaction means; one of the types that are encoded, its arguments of types that
are known. -/
inductive Transaction.Means (tx : Transaction) : Meaning → Prop
  | pay {pay : PaymentTx} (pay_eq : tx.details.tx = .pay pay) :
      tx.Means ⟨tx.senderPub, tx.fee, tx.details.firstValid, tx.details.lastValid, tx.genesisHash,
        tx.details.note, .pay pay.receiver pay.amount⟩
  | call {appl : ApplTx} {keyValues : AppValues} (appl_eq : tx.details.tx = .appl appl)
      (keyValues_eq : appl.keyValues = some keyValues) (typed : ∀ kv ∈ keyValues.args, kv.Typed) :
      tx.Means ⟨tx.senderPub, tx.fee, tx.details.firstValid, tx.details.lastValid, tx.genesisHash,
        tx.details.note, .call appl.appId appl.onComplete keyValues.written⟩

/-! ## Fields -/

/-- The fields before `fee`. -/
def Action.leading : Action → List (Value × Value)
  | .pay _ amount => [field "amt" (.uint amount.toNat)]
  | .call appId onComplete args =>
      (if args ≠ [] then [field "apaa" (.array (args.map .bin))] else []) ++
      (if onComplete.toNat ≠ 0 then [field "apan" (.uint onComplete.toNat)] else []) ++
      [field "apid" (.uint appId.toNat)]

/-- The receiver of a payment. -/
def Action.receiver : Action → List (Value × Value)
  | .pay receiver _ => [field "rcv" (.bin receiver.toList)]
  | .call _ _ _ => []

def Action.type : Action → String
  | .pay _ _ => "pay"
  | .call _ _ _ => "appl"

def Meaning.pairs (m : Meaning) : List (Value × Value) :=
  m.action.leading ++
  ([field "fee" (.uint m.fee.toNat)] ++ [field "fv" (.uint m.firstValid.toNat)] ++
    [field "gen" (.str (lit "testnet-v1.0"))] ++ [field "gh" (.bin m.genesisHash.toList)] ++
    [field "lv" (.uint m.lastValid.toNat)]) ++
  notePairs m.note ++ m.action.receiver ++
  ([field "snd" (.bin m.sender.toList)] ++ [field "type" (.str (lit m.action.type))])

theorem written_ne_nil {keyValues : AppValues} (hcount : keyValues.count ≤ appsKvMaxCount) :
    keyValues.written ≠ [] ↔ keyValues.count ≠ 0 := by
  rw [AppValues.written, ← List.length_pos_iff, List.length_map, length_args hcount]
  exact Nat.pos_iff_ne_zero

/-- The fields of a transaction are those of its meaning. -/
theorem Transaction.Means.writtenAs {tx : Transaction} {m : Meaning} (h : tx.Means m)
    {ops : List WriteOp} (hops : bodyOps tx = .ok ops) : tx.WrittenAs m.pairs := by
  cases h with
  | pay pay_eq =>
      have hpairs := Transaction.WrittenAs.pay pay_eq
      rw [payPairs, trailingPairs, pay_eq] at hpairs
      exact hpairs
  | @call appl keyValues appl_eq keyValues_eq typed =>
      obtain ⟨keyValues', hkv', hcount, -⟩ := (bodyOps_appl appl_eq).mp hops
      obtain rfl := Option.some.inj (keyValues_eq.symm.trans hkv')
      have hpairs := Transaction.WrittenAs.appl appl_eq keyValues_eq typed
      have hsame : applPairs tx appl keyValues keyValues.written tx.details.note =
          Meaning.pairs ⟨tx.senderPub, tx.fee, tx.details.firstValid, tx.details.lastValid,
            tx.genesisHash, tx.details.note, .call appl.appId appl.onComplete keyValues.written⟩ := by
        simp only [Meaning.pairs, Action.leading, Action.receiver, Action.type, applPairs, applLeading,
          commonPairs, trailingPairs, appl_eq, List.append_nil, written_ne_nil hcount]
        rfl
      rw [← hsame]
      exact hpairs

/-! ## Calls of the writer -/

/-- The calls for the fields before `fee`. -/
def callOps (appId : UInt64) (onComplete : TxOnComplete) (args : List (List UInt8)) : List WriteOp :=
  (if args ≠ [] then
    .writeStr (lit "apaa") :: (.startArray args.length :: args.map .writeBin ++ [.finishArray])
  else []) ++
  (if onComplete.toNat ≠ 0 then fieldOps "apan" (.writeUint (UInt64.ofNat onComplete.toNat)) else []) ++
  fieldOps "apid" (.writeUint appId)

theorem argsWritten_eq {keyValues : AppValues} (typed : ∀ kv ∈ keyValues.args, kv.Typed) :
    argsWritten keyValues = keyValues.written.map .writeBin := by
  rw [argsWritten, AppValues.written]
  generalize keyValues.args = kvs at typed
  induction kvs with
  | nil => rfl
  | cons kv kvs ih =>
      rw [List.forall_mem_cons] at typed
      rw [List.flatMap_cons, List.map_cons, List.map_cons, ih typed.2]
      rcases typed.1 with htype | htype <;> rw [argOps, writtenArg, htype] <;> rfl

theorem applWritten_eq {appl : ApplTx} {keyValues : AppValues}
    (hcount : keyValues.count ≤ appsKvMaxCount) (typed : ∀ kv ∈ keyValues.args, kv.Typed) :
    applWritten appl keyValues = callOps appl.appId appl.onComplete keyValues.written := by
  have hlength : keyValues.written.length = keyValues.count := by
    rw [AppValues.written, List.length_map, length_args hcount]
  rw [applWritten, callOps, argsWritten_eq typed, hlength]
  simp only [written_ne_nil hcount]

/-- The calls depend on the meaning alone. -/
theorem Transaction.Means.ops_eq {tx tx' : Transaction} {m m' : Meaning} (h : tx.Means m)
    (h' : tx'.Means m') (hm : m = m') {ops ops' : List WriteOp} (hops : bodyOps tx = .ok ops)
    (hops' : bodyOps tx' = .ok ops') : ops = ops' := by
  cases h with
  | @pay pay pay_eq =>
      cases h' with
      | @pay pay' pay_eq' =>
          obtain ⟨hsender, hfee, hfirst, hlast, hhash, hnote, haction⟩ := Meaning.mk.inj hm
          obtain ⟨hreceiver, hamount⟩ := Action.pay.inj haction
          cases (bodyOps_pay pay_eq).symm.trans hops
          cases (bodyOps_pay pay_eq').symm.trans hops'
          simp only [bodyAround, commonOps, rcvOps, trailingOps, pay_eq, pay_eq', hsender, hfee, hfirst,
            hlast, hhash, hnote, hreceiver, hamount, algorandTxType]
      | call _ _ _ => cases (Meaning.mk.inj hm).2.2.2.2.2.2
  | @call appl keyValues appl_eq keyValues_eq typed =>
      cases h' with
      | pay _ => cases (Meaning.mk.inj hm).2.2.2.2.2.2
      | @call appl' keyValues' appl_eq' keyValues_eq' typed' =>
          obtain ⟨hsender, hfee, hfirst, hlast, hhash, hnote, haction⟩ := Meaning.mk.inj hm
          obtain ⟨happId, honComplete, hargs⟩ := Action.call.inj haction
          obtain ⟨kvs, hkvs, hcount, rfl⟩ := (bodyOps_appl appl_eq).mp hops
          obtain ⟨kvs', hkvs', hcount', rfl⟩ := (bodyOps_appl appl_eq').mp hops'
          obtain rfl := Option.some.inj (keyValues_eq.symm.trans hkvs)
          obtain rfl := Option.some.inj (keyValues_eq'.symm.trans hkvs')
          rw [applWritten_eq hcount typed, applWritten_eq hcount' typed']
          simp only [bodyAround, commonOps, rcvOps, trailingOps, applCount, ← written_ne_nil hcount,
            ← written_ne_nil hcount', appl_eq, appl_eq', hsender, hfee, hfirst, hlast, hhash, hnote,
            happId, honComplete, hargs, algorandTxType]

/-! ## Fields, found by their keys -/

/-- The value of a field. -/
def valueOf (key : String) (pairs : List (Value × Value)) : Option Value :=
  (pairs.find? fun kv => keyBytes kv.1 = lit key).map Prod.snd

theorem lit_inj {s t : String} : lit s = lit t ↔ s = t := by
  refine ⟨fun h => ?_, congrArg lit⟩
  exact String.toByteArray_inj.mp (ByteArray.ext (Array.toList_inj.mp h))

@[simp] theorem valueOf_nil (key : String) : valueOf key [] = none := rfl

@[simp] theorem valueOf_append (key : String) (kvs kvs' : List (Value × Value)) :
    valueOf key (kvs ++ kvs') = (valueOf key kvs).or (valueOf key kvs') := by
  rw [valueOf, valueOf, valueOf, List.find?_append]
  cases kvs.find? fun kv => keyBytes kv.1 = lit key <;> rfl

@[simp] theorem valueOf_cons (key key' : String) (v : Value) (kvs : List (Value × Value)) :
    valueOf key (field key' v :: kvs) = if key' = key then some v else valueOf key kvs := by
  rw [valueOf, List.find?_cons, field]
  by_cases h : key' = key <;> simp [keyBytes, lit_inj, h, valueOf]

@[simp] theorem valueOf_notePairs (key : String) (note : Option CStr) :
    valueOf key (notePairs note) =
      if "note" = key then note.map (fun n => .bin n.bytes) else none := by
  cases note <;> simp [notePairs]

@[simp] theorem valueOf_ite (key : String) (p : Prop) [Decidable p] (kvs kvs' : List (Value × Value)) :
    valueOf key (if p then kvs else kvs') = if p then valueOf key kvs else valueOf key kvs' :=
  apply_ite (valueOf key) p kvs kvs'

/-- The fields that every meaning has, by their keys. -/
theorem Meaning.valueOf_pairs (m : Meaning) :
    valueOf "snd" m.pairs = some (.bin m.sender.toList) ∧
    valueOf "fee" m.pairs = some (.uint m.fee.toNat) ∧
    valueOf "fv" m.pairs = some (.uint m.firstValid.toNat) ∧
    valueOf "lv" m.pairs = some (.uint m.lastValid.toNat) ∧
    valueOf "gh" m.pairs = some (.bin m.genesisHash.toList) ∧
    valueOf "note" m.pairs = m.note.map (fun n => .bin n.bytes) ∧
    valueOf "type" m.pairs = some (.str (lit m.action.type)) := by
  obtain ⟨sender, fee, firstValid, lastValid, genesisHash, note, action⟩ := m
  cases action <;> simp [Meaning.pairs, Action.leading, Action.receiver, Action.type]

/-- Those of a payment. -/
theorem Meaning.valueOf_pay {m : Meaning} {receiver : Vector UInt8 addressLength} {amount : UInt64}
    (h : m.action = .pay receiver amount) :
    valueOf "rcv" m.pairs = some (.bin receiver.toList) ∧
    valueOf "amt" m.pairs = some (.uint amount.toNat) := by
  simp [Meaning.pairs, h, Action.leading, Action.receiver]

/-- Those of a call; two are left out when there is nothing in them. -/
theorem Meaning.valueOf_call {m : Meaning} {appId : UInt64} {onComplete : TxOnComplete}
    {args : List (List UInt8)} (h : m.action = .call appId onComplete args) :
    valueOf "apid" m.pairs = some (.uint appId.toNat) ∧
    valueOf "apan" m.pairs =
      (if onComplete.toNat = 0 then none else some (.uint onComplete.toNat)) ∧
    valueOf "apaa" m.pairs = if args = [] then none else some (.array (args.map .bin)) := by
  simp [Meaning.pairs, h, Action.leading, Action.receiver]

/-! ## No two meanings have the same fields -/

theorem uint_inj {a b : UInt64} (h : some (Value.uint a.toNat) = some (.uint b.toNat)) : a = b :=
  UInt64.toNat_inj.mp (Value.uint.inj (Option.some.inj h))

theorem bin_inj {n : Nat} {a b : Vector UInt8 n}
    (h : some (Value.bin a.toList) = some (.bin b.toList)) : a = b :=
  Vector.toList_inj.mp (Value.bin.inj (Option.some.inj h))

theorem note_inj {a b : Option CStr}
    (h : a.map (fun n => Value.bin n.bytes) = b.map fun n => Value.bin n.bytes) : a = b := by
  cases a with
  | none => exact (Option.map_eq_none_iff.mp h.symm).symm
  | some a =>
      cases b with
      | none => cases h
      | some b => exact congrArg some (CStr.ext (Value.bin.inj (Option.some.inj h)))

theorem onComplete_inj {a b : TxOnComplete}
    (h : (if a.toNat = 0 then none else some (Value.uint a.toNat)) =
      if b.toNat = 0 then none else some (.uint b.toNat)) : a = b := by
  cases a <;> cases b <;> simp_all [TxOnComplete.toNat]

theorem args_inj {a b : List (List UInt8)}
    (h : (if a = [] then none else some (Value.array (a.map .bin))) =
      if b = [] then none else some (.array (b.map .bin))) : a = b := by
  split at h
  · next ha =>
      split at h
      · next hb => exact ha.trans hb.symm
      · cases h
  · split at h
    · cases h
    · have hbins := Value.array.inj (Option.some.inj h)
      exact List.map_injective_iff.mpr (fun _ _ he => Value.bin.inj he) hbins

theorem Meaning.pairs_injective {m m' : Meaning} (h : m.pairs = m'.pairs) : m = m' := by
  have hvalue : ∀ key, valueOf key m.pairs = valueOf key m'.pairs := fun key => congrArg _ h
  obtain ⟨hsnd, hfee, hfv, hlv, hgh, hnote, htype⟩ := m.valueOf_pairs
  obtain ⟨hsnd', hfee', hfv', hlv', hgh', hnote', htype'⟩ := m'.valueOf_pairs
  have haction : m.action = m'.action := by
    have htypes : m.action.type = m'.action.type := by
      have := htype.symm.trans ((hvalue _).trans htype')
      exact lit_inj.mp (Value.str.inj (Option.some.inj this))
    cases ha : m.action with
    | pay receiver amount =>
        cases ha' : m'.action with
        | pay receiver' amount' =>
            obtain ⟨hrcv, hamt⟩ := valueOf_pay ha
            obtain ⟨hrcv', hamt'⟩ := valueOf_pay ha'
            rw [bin_inj (hrcv.symm.trans ((hvalue _).trans hrcv')),
              uint_inj (hamt.symm.trans ((hvalue _).trans hamt'))]
        | call _ _ _ =>
            rw [ha, ha'] at htypes
            exact absurd htypes (show "pay" ≠ "appl" by decide)
    | call appId onComplete args =>
        cases ha' : m'.action with
        | pay _ _ =>
            rw [ha, ha'] at htypes
            exact absurd htypes (show "appl" ≠ "pay" by decide)
        | call appId' onComplete' args' =>
            obtain ⟨hapid, hapan, hapaa⟩ := valueOf_call ha
            obtain ⟨hapid', hapan', hapaa'⟩ := valueOf_call ha'
            rw [uint_inj (hapid.symm.trans ((hvalue _).trans hapid')),
              onComplete_inj (hapan.symm.trans ((hvalue _).trans hapan')),
              args_inj (hapaa.symm.trans ((hvalue _).trans hapaa'))]
  obtain ⟨sender, fee, firstValid, lastValid, genesisHash, note, action⟩ := m
  obtain ⟨sender', fee', firstValid', lastValid', genesisHash', note', action'⟩ := m'
  rw [Meaning.mk.injEq]
  exact ⟨bin_inj (hsnd.symm.trans ((hvalue _).trans hsnd')),
    uint_inj (hfee.symm.trans ((hvalue _).trans hfee')),
    uint_inj (hfv.symm.trans ((hvalue _).trans hfv')),
    uint_inj (hlv.symm.trans ((hvalue _).trans hlv')),
    bin_inj (hgh.symm.trans ((hvalue _).trans hgh')),
    note_inj (hnote.symm.trans ((hvalue _).trans hnote')), haction⟩

/-! ## What is signed -/

theorem Encoded.toSign_eq {ops : List WriteOp} {slot : SignedTransaction c} (h : Encoded ops slot) :
    slot.toSign = opBytes ops := by
  rw [SignedTransaction.toSign, ← h.drop_encoded, SignedTransaction.encoded, List.drop_take]
  congr 1
  omega

/-- Two transactions are signed as the same bytes if and only if they mean the same: a
signature cannot be used for another payment or call, but for one whose arguments are
written as these are. -/
theorem signed_bytes_eq_iff (hW : W.Lawful) {tx tx' : Transaction} {m m' : Meaning}
    (hm : tx.Means m) (hm' : tx'.Means m') (hnote : noteAccepted c tx.details.note = true)
    (hnote' : noteAccepted c tx'.details.note = true) {old old' slot slot' : SignedTransaction c}
    (henc : encodeTx W tx old = .ok (.success, slot))
    (henc' : encodeTx W tx' old' = .ok (.success, slot')) :
    slot.toSign = slot'.toSign ↔ m = m' := by
  obtain ⟨ops, hops, ⟨-, h⟩ | ⟨he, -⟩⟩ := encodeTx_cases hW henc
  · obtain ⟨ops', hops', ⟨-, h'⟩ | ⟨he', -⟩⟩ := encodeTx_cases hW henc'
    · rw [h.toSign_eq, h'.toSign_eq]
      constructor
      · intro hbytes
        have hdecode := (hm.writtenAs hops).decode_body hnote hops
        have hdecode' := (hm'.writtenAs hops').decode_body hnote' hops'
        rw [hbytes, hdecode', Option.some.injEq, Prod.mk.injEq] at hdecode
        exact (Meaning.pairs_injective (Value.map.inj hdecode.1)).symm
      · intro hsame
        rw [hm.ops_eq hm' hsame hops hops']
    · cases he'
  · cases he

/-- The payment with a note, encoded into two slots; and what it does not mean. -/
theorem signed_bytes_eq_iff_noted :
    ∃ slot slot', encodeTx appendWriter notedPayment (.zero Config.default) = .ok (.success, slot) ∧
      encodeTx appendWriter (plainTx (.appl oneIntegerCall)) (.zero Config.default) =
        .ok (.success, slot') ∧ slot.toSign ≠ slot'.toSign := by
  have hpay : notedPayment.details.tx = .pay { receiver := Vector.replicate _ 3, amount := 5 } := rfl
  have hcall : (plainTx (.appl oneIntegerCall)).details.tx = .appl oneIntegerCall := rfl
  obtain ⟨slot, henc, -⟩ := encodeTx_pay appendWriter_lawful hpay (by decide) (.zero Config.default)
  obtain ⟨slot', henc', -⟩ := oneInteger_encoded
  refine ⟨slot, slot', henc, henc', fun hsame => ?_⟩
  have hmeaning := (signed_bytes_eq_iff appendWriter_lawful (.pay hpay) (.call hcall rfl oneInteger_typed)
    (by decide) rfl henc henc').mp hsame
  cases (Meaning.mk.inj hmeaning).2.2.2.2.2.2

end Vertices
