/-
# `Vertices.ExampleFiles` — the two files the example writes

When a transaction has been posted the handler writes `signed_tx.bin`, which is what has
been posted, and `tx.bin`, "a map of one element" with the transaction as it was signed.
The latter is cut off at `sizeof payload`: in the test that is the size of the array, in the
example the size of a pointer.
-/
import Vertices.Lib.MsgPackPrefix
import Vertices.MainLoop
import Vertices.OutboxRuns

namespace Vertices

open MsgPack Transition

variable {c : Config} {env : Env}

namespace UnixExample

/-- The buffer that is written to `tx.bin`, as far as it goes. -/
def txFile (body : List UInt8) : List UInt8 := 0x81 :: 0xa3 :: lit "txn" ++ body

theorem length_txFile (body : List UInt8) : (txFile body).length = body.length + 5 := by
  have : (lit "txn").length = 3 := by decide
  rw [txFile, List.cons_append, List.cons_append, List.length_cons, List.length_cons,
    List.length_append]
  omega

theorem decode_txFile {body : List UInt8} {pairs : List (Value × Value)}
    (h : decode body = some (.map pairs, [])) :
    decode (txFile body) = some (.map [field "txn" (.map pairs)], []) := by
  have htxn : Reads ((Item.str (lit "txn")).bytes ++ body) [.str (lit "txn"), .map pairs] [] :=
    .strItem (by decide) (decode_eq_some_iff.mp h)
  have hlength : [field "txn" (.map pairs)].length < 2 ^ 32 := by simp
  exact decode_eq_some_iff.mpr (.mapItem hlength htxn (.nil []))

/-- The file is what it is meant to be exactly if all of the buffer is written. -/
theorem decode_take_txFile {body : List UInt8} {pairs : List (Value × Value)}
    (h : decode body = some (.map pairs, [])) (n : Nat) :
    decode ((txFile body).take n) = some (.map [field "txn" (.map pairs)], []) ↔
      body.length + 5 ≤ n := by
  constructor
  · intro hd
    refine Nat.le_of_not_lt fun hlt => ?_
    rw [decode_take (decode_txFile h) (by rw [length_txFile]; exact hlt)] at hd
    exact nomatch hd
  · intro hle
    rw [List.take_of_length_le (by rw [length_txFile]; exact hle)]
    exact decode_txFile h

variable {x : UnixExample} {turn : Turn} {s t : Sdk c} {files files' : Files} {err : RetCode}

/-- What is written for a slot with its signature in place. -/
theorem sending_files (files : Files) {b : Fin pendingTxCount} {signature : Vector UInt8 signatureLength}
    {body : List UInt8} (h : Signable body (s.slot b))
    (hbytes : (s.slot b).payload.toList.take (75 + body.length) = postBytes signature.toList body)
    (hopens : turn.signedTxOpens = true ∧ turn.txOpens = true) :
    x.sending turn b s files = .ok (.success, ⟨some (postBytes signature.toList body),
      some ((txFile body).take (x.sizeofPayload body.length))⟩) := by
  have hfits := h.fits
  have hsigned : (s.slot b).read 0 (75 + body.length) = .ok (postBytes signature.toList body) := by
    rw [SignedTransaction.read, if_pos (by omega), List.drop_zero, hbytes]
    rfl
  have htxn : (s.slot b).read (75 - 4) (body.length + 4) = .ok (0xa3 :: lit "txn" ++ body) := by
    have hprefix : (signaturePrefix ++ signature.toList).length = 71 := by
      rw [List.length_append, Vector.length_toList]
      decide
    rw [SignedTransaction.read, if_pos (by omega), List.take_drop,
      show 75 - 4 + (body.length + 4) = 75 + body.length by omega, hbytes, postBytes,
      List.append_assoc]
    show Except.ok (List.drop 71 _) = _
    rw [← hprefix, List.drop_left]
  rw [UnixExample.sending, transactionGet_of_occupied h.occupied]
  show (if turn.signedTxOpens = false then _ else _) = _
  rw [hopens.1, if_neg Bool.noConfusion]
  show ((s.slot b).read 0 ((s.slot b).payloadHeaderLength + (s.slot b).payloadBodyLength) >>= _) = _
  rw [h.header, h.length, hsigned]
  show (if turn.txOpens = false then _ else _) = _
  rw [hopens.2, if_neg Bool.noConfusion, if_neg (by omega)]
  show ((s.slot b).read (75 - 4) (body.length + 4) >>= _) = _
  rw [htxn]
  rfl

/-- A payload of zeros is read before its beginning. -/
theorem sending_unencoded (files : Files) {b : Fin pendingTxCount} (h : (s.slot b).Unencoded) (hocc : s.Occupied b)
    (hopens : turn.signedTxOpens = true ∧ turn.txOpens = true) :
    x.sending turn b s files = .error .outOfBounds := by
  obtain ⟨bytes, hread⟩ : ∃ bytes, (s.slot b).read 0 (0 + c.txPayloadMaxLength) = .ok bytes :=
    ⟨_, if_pos (by omega)⟩
  rw [UnixExample.sending, transactionGet_of_occupied hocc]
  show (if turn.signedTxOpens = false then _ else _) = _
  rw [hopens.1, if_neg Bool.noConfusion]
  show ((s.slot b).read 0 ((s.slot b).payloadHeaderLength + (s.slot b).payloadBodyLength) >>= _) = _
  rw [h.header, h.length, hread]
  show (if turn.txOpens = false then _ else _) = _
  rw [hopens.2, if_neg Bool.noConfusion]
  exact if_pos (by decide)

/-- The slot that is posted by a pass, and what becomes of it. -/
theorem Pass.sent {result : ProcessResult} (h : Pass env x turn s files result t files')
    (hR : env.reader.Lawful) (hok : result.err = .success) {bufid : Nat} {rest : List VtcEvt}
    (he : s.events = ⟨.txSending, bufid⟩ :: rest) {o : SlotLetters} (hmirrors : s.Mirrors o)
    (hopens : turn.signedTxOpens = true ∧ turn.txOpens = true) :
    ∃ b body signature request after, b.val = bufid ∧ o b = some ⟨.encoded body, signature⟩ ∧
      115 ≤ body.length ∧ request.body = postBytes signature.toList body ∧
      t.history = s.history ++
        .httpPost b request turn.reply.err turn.reply.responseCode :: after ∧
      files' = ⟨some request.body, some ((txFile body).take (x.sizeofPayload body.length))⟩ := by
  have hhead : s.mEventsQueue.head = ⟨.txSending, bufid⟩ := (VtcEventsBuf.head_eq he).1
  cases h with
  | empty events => exact absurd (he.symm.trans events) (List.cons_ne_nil _ _)
  | preFailed _ _ failed | userFailed _ _ _ failed => exact absurd hok failed
  | @done _ s₁ s₂ s₃ _ hne pre user post =>
      have hhead₁ : s₁.mEventsQueue.head = ⟨.txSending, bufid⟩ :=
        ((preProcess_appends pre).head hne).1.trans hhead
      obtain ⟨-, b, hb, hs⟩ | ⟨htype, -⟩ := preProcess_cases pre
      · rw [hhead] at hb
        obtain rfl : b.val = bufid := hb
        cases hs with
        | posted _ _ _ _ failed => exact absurd rfl failed
        | @succeeded _ slot posted request id p occupied sign postBody answer =>
            have hocc : (s.slot b).payloadBodyLength ≠ 0 := occupied
            obtain ⟨l, hl⟩ := (hmirrors.occupied_iff b).mp occupied
            have hletter := hmirrors b
            rw [hl] at hletter
            -- the handler finds the slot as it has been posted
            let u := s.posted b { slot with id := id } p request turn.reply
            have hslot : ((u.schedule ⟨.txSuccess, b⟩).2.slot b) = { slot with id := id } := by
              rw [Sdk.slot_schedule]
              show (s.posted b _ p request turn.reply).slot b = _
              rw [Sdk.slot_posted, if_pos rfl]
            have hoccupied : (u.schedule ⟨.txSuccess, b⟩).2.Occupied b := by
              rw [Sdk.Occupied, hslot]
              obtain ⟨payload, rfl⟩ := encodeTxReplaceSignature_frame sign
              exact hocc
            rw [hhead₁, verticesEvtHandler] at user
            obtain ⟨⟨err₁, files₁⟩, hsending, user⟩ := bind_eq_ok.mp user
            obtain ⟨-, rfl, rfl⟩ := pure_eq_ok3.mp user
            obtain ⟨-, hrequest, -⟩ := providerTxPost_err answer
            have hhistory : ∃ after, s₃.pop.history = s.history ++
                .httpPost b request turn.reply.err turn.reply.responseCode :: after := by
              obtain ⟨-, ⟨htype, -⟩ | ⟨-, -, rfl⟩⟩ := postProcess_cases post
              · have hne₁ := (preProcess_appends pre).head hne
                rw [hhead₁] at htype
                cases htype
              · obtain ⟨more, hmore⟩ : ∃ more, (u.schedule ⟨.txSuccess, b⟩).2.history =
                    u.history ++ more := ⟨_, u.history_schedule _⟩
                refine ⟨more ++ [.dequeued (u.schedule ⟨.txSuccess, b⟩).2.mEventsQueue.head], ?_⟩
                show (u.schedule ⟨.txSuccess, b⟩).2.history ++ [_] = _
                rw [hmore]
                show (s.history ++ [_]) ++ more ++ [_] = _
                simp
                rfl
            obtain ⟨after, hhistory⟩ := hhistory
            obtain ⟨body | -, signature⟩ := l
            · obtain ⟨hs, hsig⟩ := hletter
              rw [hs.replaceSignature hR] at sign
              obtain ⟨-, rfl⟩ := Prod.mk.inj (Except.ok.inj sign)
              obtain rfl := Except.ok.inj (postBody.symm.trans hs.postBody)
              have hsignable : Signable body ((u.schedule ⟨.txSuccess, b⟩).2.slot b) := by
                rw [hslot]
                exact hs.withSignature.of_payload rfl rfl rfl
              have hbytes : ((u.schedule ⟨.txSuccess, b⟩).2.slot b).payload.toList.take
                  (75 + body.length) = postBytes signature.toList body := by
                rw [hslot, ← hsig]
                exact hs.take_withSignature
              have hfiles := (sending_files (x := x) files hsignable hbytes hopens).symm.trans
                hsending
              refine ⟨b, body, signature, request, after, rfl, hl, hs.long, ?_, hhistory, ?_⟩
              · rw [hrequest, hsig]
              · rw [hrequest, hsig]
                exact (Prod.mk.inj (Except.ok.inj hfiles)).2.symm
            · obtain ⟨hu, -⟩ := hletter
              rw [hu.replaceSignature hR] at sign
              obtain ⟨-, rfl⟩ := Prod.mk.inj (Except.ok.inj sign)
              have hunencoded : ((u.schedule ⟨.txSuccess, b⟩).2.slot b).Unencoded := by
                rw [hslot]
                exact ⟨hu.payload, hu.header, hu.length⟩
              have hfault := sending_unencoded (x := x) files hunencoded hoccupied hopens
              cases hfault.symm.trans hsending
      · exact absurd (by rw [hhead]) htype

/-- **What the files hold**: `signed_tx.bin` is what has been posted.  `tx.bin` is the
transaction that was asked for, in a map of one element, exactly if `sizeof payload` is the
length of all that is to be written, as it is of an array and never of a pointer. -/
theorem example_files {provider : Provider} {accounts : MAccounts} {calls : List Call}
    (hW : env.writer.Lawful) (hR : env.reader.Lawful)
    (hrun : Run (Step env) (Sdk.init c provider accounts) calls s) {result : ProcessResult}
    {bufid : Nat} {rest : List VtcEvt} (hevents : s.events = ⟨.txSending, bufid⟩ :: rest)
    (hopens : turn.signedTxOpens = true ∧ turn.txOpens = true)
    (hpass : x.eventProcess env turn s files = .ok (result, t, files'))
    (hok : result.err = .success) :
    ∃ b request after txn, t.history = s.history ++
        .httpPost b request turn.reply.err turn.reply.responseCode :: after ∧
      files' = ⟨some request.body, some txn⟩ ∧
      ∃ call ∈ calls, ∃ tx₀ tx bodyLength, call.Asks accounts tx₀ ∧ tx₀.SameRequest tx ∧
        (∀ pairs, tx.WrittenAs pairs → (decode txn = some (.map [field "txn" (.map pairs)], []) ↔
          bodyLength + 5 ≤ x.sizeofPayload bodyLength)) ∧
        sizeofPointer bodyLength < bodyLength + 5 ∧ sizeofArray bodyLength = bodyLength + 5 := by
  obtain ⟨-, acts, o, -, hputs, hacts, hmirrors⟩ := Refines.run hW hR hrun
  obtain ⟨b, body, signature, request, after, -, hl, hlong, -, hhistory, rfl⟩ :=
    (eventProcess_pass hpass).sent hR hok hevents hmirrors hopens
  have hcontents : Outbox.contents noSignature b acts = some ⟨.encoded body, signature⟩ := by
    rw [← hl, Outbox.Run.slot_eq hacts b]
    rfl
  obtain ⟨put, since, rfl, -, -⟩ := Outbox.contents_eq_some hcontents
  obtain ⟨call, hcall, tx₀, tx, ops, hasks, hsame, hnote, hops, rfl⟩ :=
    hputs b (.encoded body) (by simp)
  refine ⟨b, request, after, _, hhistory, rfl, call, hcall, tx₀, tx, (opBytes ops).length, hasks,
    hsame, fun pairs hpairs => ?_, ?_, rfl⟩
  · exact decode_take_txFile (hpairs.decode_body hnote hops) _
  · rw [sizeofPointer]
    omega

/-- A payment that has been signed is sent. -/
theorem example_files_payment : ∃ (t : Sdk .default) (files' : Files) (b : Fin pendingTxCount)
    (request : HttpPost) (txn : List UInt8), .httpPost b request .success 200 ∈ t.history ∧
      files' = ⟨some request.body, some txn⟩ := by
  have hseen : (runAll .example [.op payment, .process (some (signAndSend 0)) offlineReply]
      (Sdk.init .default .zero accountInit) >>= fun s =>
        (seven.eventProcess .example answered s ⟨none, none⟩).map fun (result, _) =>
          (s.events, result.err)) = .ok ([⟨.txSending, 0⟩], .success) := by decide +kernel
  obtain ⟨s, hrun, hseen⟩ := bind_eq_ok.mp hseen
  cases hpass : seven.eventProcess .example answered s ⟨none, none⟩ with
  | error e => rw [hpass] at hseen; exact nomatch hseen
  | ok p =>
      obtain ⟨result, t, files'⟩ := p
      rw [hpass] at hseen
      obtain ⟨hevents, hok⟩ := Prod.mk.inj (Except.ok.inj hseen)
      obtain ⟨b, request, after, txn, hhistory, hfiles, -⟩ :=
        example_files appendWriter_lawful formatReader_lawful (run_of_runAll hrun) hevents
          ⟨rfl, rfl⟩ hpass hok
      exact ⟨t, files', b, request, txn, by rw [hhistory]; simp [answered, txIdReply], hfiles⟩

end UnixExample

end Vertices
