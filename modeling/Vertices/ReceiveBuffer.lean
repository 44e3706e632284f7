/-
# `Vertices.ReceiveBuffer` — what arrives in `rx_buf`, and what is parsed of it

One buffer serves every request.  A request resets the size, not the contents; each chunk
that arrives is copied behind the one before and followed by a `\0`.  The size of a chunk
is compared with that of the buffer, the size of all of them is not, and the comparison
is an assertion that lets the call go on.

The account is parsed from the bytes received.  Every other answer is parsed as the
string in the buffer, which is an earlier one where no chunk has come.
-/
import Vertices.Application
import Vertices.SilentErrors
import Vertices.TxParams

namespace Vertices

open Transition

/-! ## The bound -/

/-- The chunk and the `\0` lie within `rx_buf`. -/
def Provider.Fits (p : Provider) (chunk : List UInt8) : Prop :=
  p.responseSize + chunk.length + 1 ≤ httpMaximumContentLength

/-- Every chunk is received: the size and the `\0` are within the buffer after each, and
one that would not fit leaves it as it was. -/
def StaysWithin : Provider → List (List UInt8) → Prop
  | _, [] => True
  | p, chunk :: chunks => ∃ p', responsePayloadCallback p chunk = .ok p' ∧
      p'.responseSize + 1 ≤ httpMaximumContentLength ∧
      (¬ p.Fits chunk → p'.rxBuf = p.rxBuf ∧ p'.responseSize = p.responseSize) ∧
      StaysWithin p' chunks

/-- A chunk is copied, whatever its size; beyond the buffer that has no outcome. -/
theorem callback_cases (p : Provider) (chunk : List UInt8) :
    (p.Fits chunk ∧ ∃ p', responsePayloadCallback p chunk = .ok p' ∧
      p'.responseSize = p.responseSize + chunk.length) ∨
    (¬ p.Fits chunk ∧ responsePayloadCallback p chunk = .error .outOfBounds) := by
  have hlen : (chunk ++ [0]).length = chunk.length + 1 := by
    rw [List.length_append, List.length_singleton]
  by_cases hfits : p.Fits chunk
  · have hcopy : p.responseSize + (chunk ++ [0]).length ≤ httpMaximumContentLength := by
      rw [hlen, ← Nat.add_assoc]
      exact hfits
    refine .inl ⟨hfits, { p with
      rxBuf := splice p.rxBuf p.responseSize (chunk ++ [0]) hcopy
      responseSize := p.responseSize + chunk.length }, ?_, rfl⟩
    rw [responsePayloadCallback, memcpy_eq_ok.mpr ⟨hcopy, rfl⟩]
    rfl
  · refine .inr ⟨hfits, ?_⟩
    rw [responsePayloadCallback, memcpy, dif_neg]
    · rfl
    · intro hcopy
      rw [hlen, ← Nat.add_assoc] at hcopy
      exact hfits hcopy

/-- The bound is kept exactly if all the chunks together leave room for the `\0`. -/
theorem staysWithin_iff (chunks : List (List UInt8)) {p : Provider}
    (hp : p.responseSize < httpMaximumContentLength) :
    StaysWithin p chunks ↔ p.responseSize + chunks.flatten.length < httpMaximumContentLength := by
  induction chunks generalizing p with
  | nil => exact iff_of_true trivial hp
  | cons chunk chunks ih =>
      rw [List.flatten_cons, List.length_append, ← Nat.add_assoc]
      rcases callback_cases p chunk with ⟨hfits, p', hstep, hsize⟩ | ⟨hfits, hstep⟩
      · have hp' : p'.responseSize < httpMaximumContentLength := by
          rw [hsize]
          exact hfits
        rw [← hsize, ← ih hp']
        constructor
        · rintro ⟨q, hq, -, -, hrest⟩
          obtain rfl := Except.ok.inj (hstep.symm.trans hq)
          exact hrest
        · exact fun hrest => ⟨p', hstep, hp', fun hnot => absurd hfits hnot, hrest⟩
      · constructor
        · rintro ⟨q, hq, -⟩
          exact nomatch hstep.symm.trans hq
        · intro hlt
          have hle : p.responseSize + chunk.length < httpMaximumContentLength :=
            Nat.lt_of_le_of_lt (Nat.le_add_right _ _) hlt
          exact absurd hle hfits

/-- Chunks that stay within the buffer are received. -/
theorem StaysWithin.received {chunks : List (List UInt8)} {p : Provider} (h : StaysWithin p chunks) :
    ∃ p', chunks.foldlM responsePayloadCallback p = .ok p' ∧
      p'.responseSize = p.responseSize + chunks.flatten.length := by
  induction chunks generalizing p with
  | nil => exact ⟨p, rfl, rfl⟩
  | cons chunk chunks ih =>
      obtain ⟨p₁, hstep, -, -, hrest⟩ := h
      obtain ⟨p', hp', hsize⟩ := ih hrest
      refine ⟨p', ?_, ?_⟩
      · rw [List.foldlM_cons, hstep]
        exact hp'
      · rcases callback_cases p chunk with ⟨-, q, hq, hq'⟩ | ⟨-, hq⟩
        · obtain rfl := Except.ok.inj (hstep.symm.trans hq)
          rw [hsize, hq', List.flatten_cons, List.length_append, Nat.add_assoc]
        · exact nomatch hstep.symm.trans hq

/-- An answer that leaves room for the `\0` is received whole. -/
theorem httpReceive_of_lt (p : Provider) {reply : HttpReply}
    (hlen : reply.chunks.flatten.length < httpMaximumContentLength) :
    ∃ p', httpReceive p reply = .ok p' ∧ p'.responseSize = reply.chunks.flatten.length ∧
      p'.answer = reply.chunks.flatten := by
  have hempty : ({ p with responseSize := 0 } : Provider).responseSize < httpMaximumContentLength :=
    Nat.lt_of_le_of_lt (Nat.zero_le _) hlen
  have hwithin : StaysWithin { p with responseSize := 0 } reply.chunks := by
    rw [staysWithin_iff reply.chunks hempty]
    show 0 + _ < _
    rw [Nat.zero_add]
    exact hlen
  obtain ⟨p', hp', hsize⟩ := hwithin.received
  have hsize : p'.responseSize = reply.chunks.flatten.length := hsize.trans (Nat.zero_add _)
  have hstart : ({ p with responseSize := 0 } : Provider).rxBuf.toList = [] ++ p.rxBuf.toList := rfl
  obtain ⟨rest, hbuf, -⟩ := foldlM_receive hstart rfl hp'
  refine ⟨p', hp', hsize, ?_⟩
  rw [Provider.answer, hbuf, hsize, List.nil_append]
  exact List.take_left' rfl

/-- **The buffer is not overrun exactly if the answer as a whole is shorter than it.** -/
theorem receive_buffer_bound_iff (p : Provider) (reply : HttpReply) :
    StaysWithin { p with responseSize := 0 } reply.chunks ↔
      reply.chunks.flatten.length < httpMaximumContentLength := by
  have hempty : ({ p with responseSize := 0 } : Provider).responseSize < httpMaximumContentLength := by
    show 0 < httpMaximumContentLength
    decide
  have hbound := staysWithin_iff reply.chunks hempty
  rwa [Nat.zero_add] at hbound

/-- An answer in two chunks, each half as long as the buffer. -/
def halvesReply : HttpReply :=
  ⟨[List.replicate 2048 0x20, List.replicate 2048 0x20], .success, 200⟩

/-- Both pass the assertion, and the `\0` behind the second is written past the end. -/
theorem two_chunks_overrun :
    (∀ chunk ∈ halvesReply.chunks, chunk.length < httpMaximumContentLength) ∧
      ¬ StaysWithin { Provider.zero with responseSize := 0 } halvesReply.chunks := by
  constructor
  · intro chunk hchunk
    rcases List.mem_cons.mp hchunk with rfl | hchunk
    · rw [List.length_replicate]
      decide
    · rw [List.mem_singleton.mp hchunk, List.length_replicate]
      decide
  · have hlen : halvesReply.chunks.flatten.length = httpMaximumContentLength := by
      rw [halvesReply, List.flatten_cons, List.flatten_cons, List.flatten_nil, List.append_nil,
        List.length_append, List.length_replicate]
    rw [staysWithin_iff _ (show 0 < httpMaximumContentLength by decide), hlen]
    exact Nat.not_lt.mpr (Nat.le_add_left _ _)

/-! ## The text that is parsed -/

/-- The functions that parse an answer. -/
inductive Endpoint where
  | applicationInfoGet
  | accountInfoGet
  | txParamsLoad
  | txPost
  | versionGet
  deriving DecidableEq

namespace Endpoint

/-- The code by which the function decides whether there is something to parse. -/
def status (e : Endpoint) (reply : HttpReply) : RetCode :=
  match e with
  | .txPost => postStatus reply
  | .applicationInfoGet | .accountInfoGet | .txParamsLoad | .versionGet => reply.err

/-- What the parser is given of the buffer. -/
def text (e : Endpoint) (p : Provider) : List UInt8 :=
  match e with
  | .accountInfoGet => p.answer
  | .applicationInfoGet | .txParamsLoad | .txPost | .versionGet => p.rxString.bytes

/-- What the function parses of the answer to its request, if it parses. -/
def parsed (e : Endpoint) (p : Provider) (reply : HttpReply) : Except Fault (Option (List UInt8)) := do
  let p ← httpReceive p reply
  return if e.status reply = .success then some (e.text p) else none

/-- `f` gives the parser nothing but what the function parses. -/
def Reads {α : Type} (e : Endpoint) (p : Provider) (reply : HttpReply) (f : CJsonParse → α) : Prop :=
  ∀ cJSON_Parse cJSON_Parse' : CJsonParse,
    (∀ s, e.parsed p reply = .ok (some s.bytes) → cJSON_Parse s = cJSON_Parse' s) →
      f cJSON_Parse = f cJSON_Parse'

/-- Two parsers that agree on the text lead to the same outcome of whatever is done with the
string received. -/
theorem receive_congr {α : Type} {e : Endpoint} {p : Provider} {reply : HttpReply}
    {cJSON_Parse cJSON_Parse' : CJsonParse} {f g : Provider → Except Fault α}
    (hjson : e ≠ .accountInfoGet)
    (hsame : ∀ s, e.parsed p reply = .ok (some s.bytes) → cJSON_Parse s = cJSON_Parse' s)
    (hfg : ∀ p', (e.status reply = .success → cJSON_Parse p'.rxString = cJSON_Parse' p'.rxString) →
      f p' = g p') :
    (httpReceive p reply >>= f) = (httpReceive p reply >>= g) := by
  cases hrecv : httpReceive p reply with
  | error fault => rfl
  | ok p' =>
      refine hfg p' fun hs => hsame _ ?_
      have htext : e.text p' = p'.rxString.bytes := by
        cases e with
        | accountInfoGet => exact absurd rfl hjson
        | applicationInfoGet | txParamsLoad | txPost | versionGet => rfl
      rw [parsed, hrecv, ← htext]
      exact congrArg Except.ok (if_pos hs)

theorem reads_applicationInfoGet (p : Provider) (reply : HttpReply) (states : AppValues) :
    applicationInfoGet.Reads p reply fun cJSON_Parse =>
      providerApplicationInfoGet cJSON_Parse p reply states := by
  intro cJSON_Parse cJSON_Parse' hsame
  refine receive_congr Endpoint.noConfusion hsame fun p' hsame => ?_
  by_cases hs : reply.err = .success
  · rw [if_pos hs, if_pos hs, parserApplicationJson, parserApplicationJson, hsame hs]
  · rw [if_neg hs, if_neg hs]

theorem reads_txParamsLoad (p : Provider) (reply : HttpReply) (tx : Transaction) :
    txParamsLoad.Reads p reply fun cJSON_Parse => providerTxParamsLoad cJSON_Parse p reply tx := by
  intro cJSON_Parse cJSON_Parse' hsame
  refine receive_congr Endpoint.noConfusion hsame fun p' hsame => ?_
  by_cases hs : reply.err = .success
  · rw [if_pos hs, if_pos hs, hsame hs]
  · rw [if_neg hs, if_neg hs]

theorem reads_versionGet (p : Provider) (reply : HttpReply) (version : ProviderVersion) :
    versionGet.Reads p reply fun cJSON_Parse => providerVersionGet cJSON_Parse p reply version := by
  intro cJSON_Parse cJSON_Parse' hsame
  refine receive_congr Endpoint.noConfusion hsame fun p' hsame => ?_
  by_cases hs : reply.err = .success
  · rw [if_pos hs, if_pos hs, hsame hs]
  · rw [if_neg hs, if_neg hs]

theorem reads_txPost (p : Provider) (reply : HttpReply) (binPayload : List UInt8)
    (txId : Vector UInt8 transactionHashStrMaxLength) :
    txPost.Reads p reply fun cJSON_Parse => providerTxPost cJSON_Parse p reply binPayload txId := by
  intro cJSON_Parse cJSON_Parse' hsame
  refine congrArg (postHeader p.header >>= ·) (funext fun header => ?_)
  refine receive_congr Endpoint.noConfusion hsame fun p' hsame => ?_
  by_cases hs : postStatus reply = .success
  · rw [if_pos hs, if_pos hs, readTxId, readTxId, hsame hs]
  · rw [if_neg hs, if_neg hs]

/-- The account is parsed from the bytes received. -/
theorem reads_accountInfoGet (R : MpackReader) (p : Provider) (reply : HttpReply)
    (account : AccountDetails) {text : List UInt8}
    (h : accountInfoGet.parsed p reply = .ok (some text)) :
    (providerAccountInfoGet R p reply account).map (fun r => r.2.1) =
      (parserAccountMpack R text account).map Prod.snd := by
  obtain ⟨p', hrecv, h⟩ := bind_eq_ok.mp h
  have h := pure_eq_ok.mp h
  split at h
  · next hs =>
      cases h
      have hs : reply.err = .success := hs
      have hget : providerAccountInfoGet R p reply account =
          parserAccountMpack R p'.answer account >>= fun r => pure (reply.err, r.2, p') := by
        rw [providerAccountInfoGet, hrecv]
        exact if_pos hs
      have htext : accountInfoGet.text p' = p'.answer := rfl
      rw [hget, htext]
      cases parserAccountMpack R p'.answer account with
      | error fault => rfl
      | ok r => rfl
  · cases h

end Endpoint

/-! ## Requests, one after the other -/

/-- `provider_ping`. -/
def providerPing (p : Provider) (reply : HttpReply) : Except Fault (RetCode × Provider) := do
  let p ← httpReceive p reply
  return (postStatus reply, p)

/-- A call of the provider, with its arguments and the answer it gets. -/
inductive Request where
  | init (header : Option CStr)
  | ping (reply : HttpReply)
  | applicationInfoGet (reply : HttpReply) (states : AppValues)
  | accountInfoGet (reply : HttpReply) (account : AccountDetails)
  | txParamsLoad (reply : HttpReply) (tx : Transaction)
  | txPost (reply : HttpReply) (binPayload : List UInt8)
      (txId : Vector UInt8 transactionHashStrMaxLength)
  | versionGet (reply : HttpReply) (version : ProviderVersion)

/-- The provider after the call. -/
def Request.run (cJSON_Parse : CJsonParse) (R : MpackReader) (p : Provider) :
    Request → Except Fault Provider
  | .init header => return providerInit p header
  | .ping reply => (providerPing p reply).map fun r => r.2
  | .applicationInfoGet reply states =>
      (providerApplicationInfoGet cJSON_Parse p reply states).map fun r => r.2.2
  | .accountInfoGet reply account => (providerAccountInfoGet R p reply account).map fun r => r.2.2
  | .txParamsLoad reply tx => (providerTxParamsLoad cJSON_Parse p reply tx).map fun r => r.2.2
  | .txPost reply binPayload txId =>
      (providerTxPost cJSON_Parse p reply binPayload txId).map fun r => r.2.2.2
  | .versionGet reply version => (providerVersionGet cJSON_Parse p reply version).map fun r => r.2.2

/-- One call that returns. -/
def RequestStep (cJSON_Parse : CJsonParse) (R : MpackReader) (p : Provider) (request : Request)
    (p' : Provider) : Prop :=
  request.run cJSON_Parse R p = .ok p'

/-- The answer to a call. -/
def Request.reply : Request → Option HttpReply
  | .init _ => none
  | .ping reply | .applicationInfoGet reply _ | .accountInfoGet reply _ | .txParamsLoad reply _
  | .txPost reply _ _ | .versionGet reply _ => some reply

/-- The string that an answer leaves in the buffer, where `left` was: its own if it had a
chunk. -/
def HttpReply.leaves (left : CStr) (reply : HttpReply) : CStr :=
  if reply.chunks = [] then left else reply.text

/-- The string that earlier calls leave. -/
def leftText (history : List Request) : CStr :=
  (history.filterMap Request.reply).foldl HttpReply.leaves (cString [])

theorem rxString_leaves {p p' : Provider} {reply : HttpReply} (h : httpReceive p reply = .ok p') :
    p'.rxString = reply.leaves p.rxString := by
  by_cases hbody : reply.chunks = []
  · rw [httpReceive, hbody] at h
    cases pure_eq_ok.mp h
    exact (if_pos hbody).symm
  · rw [rxString_receive hbody h]
    exact (if_neg hbody).symm

theorem loadMinFee_rxBuf (json : CJson) (tx : Transaction) (p : Provider) :
    (loadMinFee json tx p).2.rxBuf = p.rxBuf := by
  rw [loadMinFee]
  split
  · rfl
  · rfl

theorem loadLastRound_rxBuf (json : CJson) (tx : Transaction) (p : Provider) :
    (loadLastRound json tx p).2.rxBuf = p.rxBuf := by
  rw [loadLastRound]
  split
  · rfl
  · rfl

/-- Whatever the call returns, its provider has the buffer of `q`. -/
def KeepsBuffer {α : Type} (q : Provider) (provider : α → Provider) (call : Except Fault α) : Prop :=
  ∀ r, call = .ok r → (provider r).rxBuf = q.rxBuf

namespace KeepsBuffer

variable {α β : Type} {q : Provider} {provider : α → Provider}

theorem pure {r : α} (h : (provider r).rxBuf = q.rxBuf) : KeepsBuffer q provider (.ok r) := by
  intro r' hr
  cases hr
  exact h

theorem bind {x : Except Fault β} {f : β → Except Fault α} (h : ∀ b, KeepsBuffer q provider (f b)) :
    KeepsBuffer q provider (x >>= f) := by
  intro r hr
  obtain ⟨b, -, hr⟩ := bind_eq_ok.mp hr
  exact h b r hr

theorem ite {c : Prop} [Decidable c] {x y : Except Fault α} (hx : KeepsBuffer q provider x)
    (hy : KeepsBuffer q provider y) : KeepsBuffer q provider (if c then x else y) := by
  split
  · exact hx
  · exact hy

/-- A request that keeps the buffer it received into. -/
theorem received {p p' : Provider} {reply : HttpReply} {f : Provider → Except Fault α}
    (h : ((httpReceive p reply >>= f).map provider) = .ok p')
    (hf : ∀ q, KeepsBuffer q provider (f q)) :
    ∃ q, httpReceive p reply = .ok q ∧ p'.rxBuf = q.rxBuf := by
  obtain ⟨r, hcall, rfl⟩ := map_eq_ok h
  obtain ⟨q, hq, hcall⟩ := bind_eq_ok.mp hcall
  exact ⟨q, hq, hf q r hcall⟩

end KeepsBuffer

theorem keepsBuffer_copyVersion {q : Provider} {provider : Provider} (h : provider.rxBuf = q.rxBuf)
    (err : RetCode) (version : ProviderVersion) :
    KeepsBuffer q (fun r => r.2.2) (copyVersion err provider version) :=
  .bind fun _ => .pure h

/-- The buffer is the one received into, whatever else becomes of the provider. -/
theorem request_receives {cJSON_Parse : CJsonParse} {R : MpackReader} {p p' : Provider}
    {request : Request} {reply : HttpReply} (hreply : request.reply = some reply)
    (h : RequestStep cJSON_Parse R p request p') :
    ∃ q, httpReceive p reply = .ok q ∧ p'.rxBuf = q.rxBuf := by
  cases request with
  | init header => exact nomatch hreply
  | ping _ =>
      cases hreply
      exact KeepsBuffer.received h fun q => .pure rfl
  | applicationInfoGet _ states =>
      cases hreply
      exact KeepsBuffer.received h fun q => .ite (.bind fun _ => .pure rfl) (.pure rfl)
  | accountInfoGet _ account =>
      cases hreply
      exact KeepsBuffer.received h fun q => .ite (.bind fun _ => .pure rfl) (.pure rfl)
  | txParamsLoad _ tx =>
      cases hreply
      refine KeepsBuffer.received h fun q => .ite ?_ (.ite (.pure rfl) (.pure rfl))
      cases cJSON_Parse q.rxString with
      | none => exact .pure rfl
      | some json =>
          exact .bind fun _ =>
            .pure ((loadLastRound_rxBuf json _ _).trans (loadMinFee_rxBuf json _ q))
  | txPost _ binPayload txId =>
      cases hreply
      obtain ⟨r, hcall, rfl⟩ := map_eq_ok h
      obtain ⟨header, -, hcall⟩ := bind_eq_ok.mp hcall
      exact KeepsBuffer.received (congrArg (Except.map fun r => r.2.2.2) hcall) fun q =>
        .ite (.bind fun _ => .pure rfl) (.pure rfl)
  | versionGet _ version =>
      cases hreply
      refine KeepsBuffer.received h fun q => .ite ?_
        (.ite (keepsBuffer_copyVersion rfl _ _) (keepsBuffer_copyVersion rfl _ _))
      cases cJSON_Parse q.rxString with
      | none => exact .pure rfl
      | some json =>
          refine .bind fun _ => .ite (.pure rfl) (.bind fun _ => .ite (.pure rfl) ?_)
          exact keepsBuffer_copyVersion rfl _ _

/-- After a history the string in the buffer is the one that its answers left. -/
theorem rxString_history {cJSON_Parse : CJsonParse} {R : MpackReader} {history : List Request}
    {p p' : Provider} (h : Run (RequestStep cJSON_Parse R) p history p') :
    p'.rxString = (history.filterMap Request.reply).foldl HttpReply.leaves p.rxString := by
  induction h with
  | nil p => rfl
  | @cons p q u request history hstep _ ih =>
      rw [ih]
      cases hreply : request.reply with
      | none =>
          rw [List.filterMap_cons_none hreply]
          cases request with
          | init header =>
              cases pure_eq_ok.mp hstep
              rfl
          | ping _ | applicationInfoGet _ _ | accountInfoGet _ _ | txParamsLoad _ _ | txPost _ _ _
          | versionGet _ _ => exact nomatch hreply
      | some reply =>
          obtain ⟨r, hr, hbuf⟩ := request_receives hreply hstep
          have hstring : q.rxString = reply.leaves p.rxString := by
            rw [← rxString_leaves hr, Provider.rxString, hbuf]
            rfl
          rw [List.filterMap_cons_some hreply, List.foldl_cons, hstring]

theorem rxString_zero : Provider.zero.rxString = cString [] := by
  have hbuf : Provider.zero.rxBuf.toList = List.replicate httpMaximumContentLength 0 :=
    Vector.toList_replicate
  rw [Provider.rxString, hbuf]
  apply CStr.ext
  show List.takeWhile (· != 0) (List.replicate httpMaximumContentLength (0 : UInt8)) = []
  rw [List.takeWhile_replicate]
  rfl

theorem rxString_start {cJSON_Parse : CJsonParse} {R : MpackReader} {history : List Request}
    {p : Provider} (h : Run (RequestStep cJSON_Parse R) .zero history p) :
    p.rxString = leftText history := by
  rw [rxString_history h, rxString_zero]
  rfl

/-- What is parsed of an answer that fits: the bytes received, or the string left after it. -/
theorem Endpoint.parsed_eq (e : Endpoint) (p : Provider) {reply : HttpReply}
    (hlen : reply.chunks.flatten.length < httpMaximumContentLength) :
    e.parsed p reply = .ok (if e.status reply = .success then
      some (if e = .accountInfoGet then reply.chunks.flatten else (reply.leaves p.rxString).bytes)
      else none) := by
  obtain ⟨p', hrecv, -, hanswer⟩ := httpReceive_of_lt p hlen
  have htext : e.text p' =
      if e = .accountInfoGet then reply.chunks.flatten else (reply.leaves p.rxString).bytes := by
    rw [← hanswer, ← rxString_leaves hrecv]
    cases e with
    | accountInfoGet => rfl
    | applicationInfoGet | txParamsLoad | txPost | versionGet => rfl
  rw [Endpoint.parsed, hrecv, ← htext]
  rfl

/-- The text is the answer: nothing is parsed, or the bytes received are, or there is a
chunk, or nothing has been left; and no `\0` ends the string early. -/
def Endpoint.ReadsOwn (e : Endpoint) (history : List Request) (reply : HttpReply) : Prop :=
  e.status reply ≠ .success ∨ e = .accountInfoGet ∨
    ((reply.chunks ≠ [] ∨ (leftText history).bytes = []) ∧ 0 ∉ reply.chunks.flatten)

/-- The text does not depend on which of the two histories came before. -/
def Endpoint.ReadsSame (e : Endpoint) (history history' : List Request) (reply : HttpReply) : Prop :=
  e.status reply ≠ .success ∨ e = .accountInfoGet ∨ reply.chunks ≠ [] ∨
    leftText history = leftText history'

theorem bytes_leaves_eq_iff {left : CStr} {reply : HttpReply} :
    (reply.leaves left).bytes = reply.chunks.flatten ↔
      (reply.chunks ≠ [] ∨ left.bytes = []) ∧ 0 ∉ reply.chunks.flatten := by
  by_cases hbody : reply.chunks = []
  · rw [HttpReply.leaves, if_pos hbody, hbody, List.flatten_nil]
    constructor
    · exact fun h => ⟨.inr h, List.not_mem_nil⟩
    · exact fun h => h.1.resolve_left fun hne => hne rfl
  · rw [HttpReply.leaves, if_neg hbody, HttpReply.text, bytes_cString_eq_iff]
    exact (and_iff_right (.inl hbody)).symm

theorem leaves_eq_iff {left left' : CStr} {reply : HttpReply} :
    reply.leaves left = reply.leaves left' ↔ reply.chunks ≠ [] ∨ left = left' := by
  by_cases hbody : reply.chunks = []
  · rw [HttpReply.leaves, HttpReply.leaves, if_pos hbody, if_pos hbody]
    exact (or_iff_right fun hne => hne hbody).symm
  · rw [HttpReply.leaves, HttpReply.leaves, if_neg hbody, if_neg hbody]
    exact iff_of_true rfl (.inl hbody)

/-- **Earlier answers are seen exactly where no chunk comes.**  After any two histories of
calls: the text that is parsed is the answer of the current request, and it is the same
after both. -/
theorem parsed_own_text_iff (cJSON_Parse : CJsonParse) (R : MpackReader)
    {history history' : List Request} {p p' : Provider}
    (hrun : Run (RequestStep cJSON_Parse R) .zero history p)
    (hrun' : Run (RequestStep cJSON_Parse R) .zero history' p') (e : Endpoint) (reply : HttpReply)
    (hlen : reply.chunks.flatten.length < httpMaximumContentLength) :
    ((∃ text, e.parsed p reply = .ok text ∧ ∀ t ∈ text, t = reply.chunks.flatten) ↔
        e.ReadsOwn history reply) ∧
      (e.parsed p reply = e.parsed p' reply ↔ e.ReadsSame history history' reply) := by
  rw [e.parsed_eq p hlen, e.parsed_eq p' hlen, rxString_start hrun, rxString_start hrun',
    Endpoint.ReadsOwn, Endpoint.ReadsSame]
  by_cases hs : e.status reply = .success
  · rw [if_pos hs, if_pos hs, or_iff_right (not_not.mpr hs), or_iff_right (not_not.mpr hs)]
    by_cases haccount : e = .accountInfoGet
    · rw [if_pos haccount, if_pos haccount]
      exact ⟨iff_of_true ⟨_, rfl, fun t ht => (Option.some.inj ht).symm⟩ (.inl haccount),
        iff_of_true rfl (.inl haccount)⟩
    · rw [if_neg haccount, if_neg haccount, or_iff_right haccount, or_iff_right haccount,
        ← bytes_leaves_eq_iff, ← leaves_eq_iff]
      constructor
      · constructor
        · rintro ⟨text, htext, hown⟩
          cases htext
          exact hown _ rfl
        · exact fun hown => ⟨_, rfl, fun t ht => (Option.some.inj ht).symm.trans hown⟩
      · rw [Except.ok.injEq, Option.some.injEq]
        exact CStr.ext_iff.symm
  · rw [if_neg hs, if_neg hs]
    exact ⟨iff_of_true ⟨none, rfl, fun t ht => nomatch ht⟩ (.inl hs), iff_of_true rfl (.inl hs)⟩

/-- cJSON on the text of an empty array, and on that of an array of a zero. -/
def parseArrays : CJsonParse := fun s =>
  if s.bytes = lit "[]" then some (.array [])
  else if s.bytes = lit "[0]" then some (.array [.number 0])
  else none

/-- An application is asked for, and a text comes back in one chunk. -/
def applicationAnswered (text : String) : Request :=
  .applicationInfoGet ⟨[lit text], .success, 200⟩ .zero

/-- A post is accepted, and nothing comes back. -/
def bodylessReply : HttpReply := ⟨[], .success, 200⟩

theorem run_of_isOk {cJSON_Parse : CJsonParse} {R : MpackReader} {request : Request}
    (h : (request.run cJSON_Parse R .zero).isOk = true) :
    ∃ p, Run (RequestStep cJSON_Parse R) .zero [request] p := by
  cases hrun : request.run cJSON_Parse R .zero with
  | error fault =>
      rw [hrun] at h
      exact nomatch h
  | ok p => exact ⟨p, .single hrun⟩

/-- An answer of its own, after any other. -/
theorem parsed_own_text_iff_answered :
    ∃ p p', Run (RequestStep parseArrays formatReader) .zero [applicationAnswered "[]"] p ∧
      Run (RequestStep parseArrays formatReader) .zero [applicationAnswered "[0]"] p' ∧
      (∃ text, Endpoint.txPost.parsed p ⟨[lit "[0]"], .success, 200⟩ = .ok text ∧
        ∀ t ∈ text, t = lit "[0]") ∧
      Endpoint.txPost.parsed p ⟨[lit "[0]"], .success, 200⟩ =
        Endpoint.txPost.parsed p' ⟨[lit "[0]"], .success, 200⟩ := by
  obtain ⟨p, hrun⟩ := run_of_isOk (R := formatReader)
    (show ((applicationAnswered "[]").run parseArrays formatReader .zero).isOk = true by decide +kernel)
  obtain ⟨p', hrun'⟩ := run_of_isOk (R := formatReader)
    (show ((applicationAnswered "[0]").run parseArrays formatReader .zero).isOk = true by decide +kernel)
  obtain ⟨hown, hsame⟩ := parsed_own_text_iff parseArrays formatReader hrun hrun' .txPost
    ⟨[lit "[0]"], .success, 200⟩ (by decide)
  exact ⟨p, p', hrun, hrun', hown.mpr (.inr (.inr ⟨.inl (List.cons_ne_nil _ _), by decide⟩)),
    hsame.mpr (.inr (.inr (.inl (List.cons_ne_nil _ _))))⟩

/-- Where nothing comes back, the answer to the call before is parsed once more. -/
theorem empty_answer_reads_old :
    ∃ p p', Run (RequestStep parseArrays formatReader) .zero [applicationAnswered "[]"] p ∧
      Run (RequestStep parseArrays formatReader) .zero [applicationAnswered "[0]"] p' ∧
      Endpoint.txPost.parsed p bodylessReply = .ok (some (lit "[]")) ∧
      Endpoint.txPost.parsed p' bodylessReply = .ok (some (lit "[0]")) := by
  obtain ⟨p, hrun⟩ := run_of_isOk (R := formatReader)
    (show ((applicationAnswered "[]").run parseArrays formatReader .zero).isOk = true by decide +kernel)
  obtain ⟨p', hrun'⟩ := run_of_isOk (R := formatReader)
    (show ((applicationAnswered "[0]").run parseArrays formatReader .zero).isOk = true by decide +kernel)
  refine ⟨p, p', hrun, hrun', ?_, ?_⟩
  · rw [Endpoint.parsed_eq _ p (by decide), rxString_start hrun]
    decide +kernel
  · rw [Endpoint.parsed_eq _ p' (by decide), rxString_start hrun']
    decide +kernel

end Vertices
