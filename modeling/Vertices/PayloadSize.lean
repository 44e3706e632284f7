/-
# `Vertices.PayloadSize` — an encoded transaction fits, whatever is left for the note

`TX_PAYLOAD_MAX_LENGTH` is 512 bytes and those of `OPTIONAL_TX_FIELDS_MAX_SIZE_BYTES`, and
the length of the note is the only length that is checked.  The longest of everything else
comes to less than 350 bytes.
-/
import Vertices.TxnMap

namespace Vertices

open MsgPack

/-! ## The longest body -/

/-- A payment, or an application call whose arguments can be read. -/
inductive Encodable : TxBody → Prop
  | pay (tx : PaymentTx) : Encodable (.pay tx)
  | appl {tx : ApplTx} {keyValues : AppValues} (hkv : tx.keyValues = some keyValues)
      (hcount : keyValues.count ≤ appsKvMaxCount) : Encodable (.appl tx)

/-- Header and body, of which the note is `size` bytes at most. -/
theorem opLength_bodyOps_le {tx : Transaction} {size : Nat} (h : Encodable tx.details.tx)
    (hnote : ∀ note ∈ tx.details.note, note.strlen ≤ size) :
    ∃ ops, bodyOps tx = .ok ops ∧ opLength headerOps + opLength ops ≤ 512 + size := by
  have hheader := opLength_headerOps
  have hcommon := opLength_commonOps tx
  have htrailing := opLength_trailingOps tx
  have hnoteLength := opLength_noteOps_le hnote
  have hrcv := opLength_rcvOps tx.details
  have hcount := noteCount_le tx.details.note
  cases hbody : tx.details.tx with
  | pay pay =>
      have hamount := opLength_writeUint pay.amount
      refine ⟨_, bodyOps_pay hbody, ?_⟩
      rw [opLength_bodyAround _ (by omega), opLength_field 3 rfl]
      omega
  | appl appl =>
      rw [hbody] at h
      cases h with
      | appl hkv hargs =>
          have hleading : opLength (applWritten appl _) ≤ 106 := opLength_applWritten hargs
          refine ⟨_, (bodyOps_appl hbody).mpr ⟨_, hkv, hargs, rfl⟩, ?_⟩
          rw [opLength_bodyAround _ (applCount_le _ _ _)]
          omega
  | keyreg | acfg | axfer | afrz =>
      rw [hbody] at h
      cases h

variable {W : MpackWriter} {n : Nat}

/-- Calls that fit are all written, and no error is flagged. -/
theorem encodePayload_of_fits (hW : W.Lawful) {tx : Transaction} {ops : List WriteOp}
    (hops : bodyOps tx = .ok ops) (payload : Vector UInt8 n)
    (hfits : opLength headerOps + opLength ops ≤ n) :
    ∃ payload', encodePayload W tx payload =
      .ok (.success, payload', opLength headerOps, opLength ops) := by
  have hroom : 0 < n := by
    have hheader := opLength_headerOps
    omega
  have hok := hW.init_ok payload hroom
  have hused := hW.init_used payload
  obtain ⟨hok₁, hused₁, -⟩ := hW.run_fits headerOps allFit_headerOps hok
    (by rw [hused, Nat.zero_add]; exact (Nat.le_add_right _ _).trans hfits)
  rw [hused, Nat.zero_add] at hused₁
  obtain ⟨hok₂, hused₂, -⟩ := hW.run_fits ops (allFit_bodyOps hops) hok₁
    (by rw [hused₁]; exact hfits)
  refine ⟨W.buffer (W.run (W.run (W.init payload) headerOps) ops), ?_⟩
  rw [encodePayload, hops]
  show Except.ok (_, _, _, _) = _
  rw [if_pos hok₂, hused₂, hused₁, Nat.add_sub_cancel_left]
  rfl

theorem encodePayload_fits (hW : W.Lawful) {tx : Transaction} {size : Nat}
    (h : Encodable tx.details.tx) (hnote : ∀ note ∈ tx.details.note, note.strlen ≤ size)
    (payload : Vector UInt8 (512 + size)) :
    ∃ ops payload', bodyOps tx = .ok ops ∧
      encodePayload W tx payload = .ok (.success, payload', opLength headerOps, opLength ops) ∧
      opLength headerOps + opLength ops ≤ 512 + size := by
  obtain ⟨ops, hops, hle⟩ := opLength_bodyOps_le h hnote
  obtain ⟨payload', hencode⟩ := encodePayload_of_fits hW hops payload hle
  exact ⟨ops, payload', hops, hencode, hle⟩

/-- **Encoded sizes.**  With any number of bytes for the note, a payment with a note of that
length or none and an application call with up to eight arguments are written whole into
the payload: the encoder reports no error, and the two lengths it sets lie within.  So it
is with every slot that `encode_tx` fills. -/
theorem encoded_size_bound (hW : W.Lawful) {tx : Transaction} (h : Encodable tx.details.tx) :
    (∀ size, (∀ note ∈ tx.details.note, note.strlen ≤ size) →
      ∀ payload : Vector UInt8 (512 + size), ∃ ops payload', bodyOps tx = .ok ops ∧
        encodePayload W tx payload = .ok (.success, payload', opLength headerOps, opLength ops) ∧
        opLength headerOps + opLength ops ≤ 512 + size) ∧
    ∀ (c : Config) (slot : SignedTransaction c), noteAccepted c tx.details.note = true →
      ∃ slot', encodeTx W tx slot = .ok (.success, slot') ∧
        slot'.payloadHeaderLength + slot'.payloadBodyLength ≤ c.txPayloadMaxLength := by
  refine ⟨fun size hnote payload => encodePayload_fits hW h hnote payload, ?_⟩
  intro c slot haccepted
  have hnote : ∀ note ∈ tx.details.note, note.strlen ≤ c.optionalTxFieldsMaxSizeBytes := by
    intro note hmem
    rw [Option.mem_def.mp hmem] at haccepted
    simpa [noteAccepted] using haccepted
  obtain ⟨ops, payload', -, hencode, hle⟩ := encodePayload_fits hW h hnote slot.payload
  have hencode : @encodePayload c.txPayloadMaxLength W tx slot.payload =
      .ok (.success, payload', opLength headerOps, opLength ops) := hencode
  have hcall := encodeTx_eq_encodePayload W tx slot
  rw [hencode] at hcall
  exact ⟨_, hcall, hle⟩

/-- A note of two bytes, with as many left for it. -/
theorem encoded_size_bound_noted :
    ∃ ops payload', bodyOps notedPayment = .ok ops ∧
      encodePayload appendWriter notedPayment (Vector.replicate (512 + 2) 0) =
        .ok (.success, payload', opLength headerOps, opLength ops) ∧
      opLength headerOps + opLength ops ≤ 512 + 2 := by
  refine (encoded_size_bound appendWriter_lawful (.pay _)).1 2 (fun note hnote => ?_) _
  cases hnote
  decide

end Vertices
