/-
# `Vertices.HttpRequests` — what the ports' client sends, over whole runs

A run is calls of `provider_init` and requests, in any order, from the start of the program.
What a request sends depends on the calls before it: the address and the header come from
the last `provider_init`, and a body that has been posted stays on the handle.

    client_requests   a run of the client is a run of the provider's requests
    get_after_post    the method, the address and the body of each request
    header_lines      its header, line by line
-/
import Vertices.HttpCurl

namespace Vertices

open Transition PairSplit

variable {β : Type}

/-! ## What a request keeps -/

/-- Whatever the call returns, its provider has the header of `p`. -/
def KeepsHeader {α : Type} (p : Provider) (provider : α → Provider) (call : Except Fault α) : Prop :=
  ∀ r, call = .ok r → (provider r).header = p.header

namespace KeepsHeader

variable {α γ : Type} {p : Provider} {provider : α → Provider}

theorem pure {r : α} (h : (provider r).header = p.header) : KeepsHeader p provider (.ok r) := by
  intro r' hr
  cases hr
  exact h

theorem bind {x : Except Fault γ} {f : γ → Except Fault α} (h : ∀ b, KeepsHeader p provider (f b)) :
    KeepsHeader p provider (x >>= f) := by
  intro r hr
  obtain ⟨b, -, hr⟩ := bind_eq_ok.mp hr
  exact h b r hr

theorem ite {c : Prop} [Decidable c] {x y : Except Fault α} (hx : KeepsHeader p provider x)
    (hy : KeepsHeader p provider y) : KeepsHeader p provider (if c then x else y) := by
  split
  · exact hx
  · exact hy

/-- Of a request it is enough to look at what is done with the answer. -/
theorem received {p' : Provider} {reply : HttpReply} {f : Provider → Except Fault α}
    (h : ((httpReceive p reply >>= f).map provider) = .ok p')
    (hf : ∀ q, q.header = p.header → KeepsHeader p provider (f q)) : p'.header = p.header := by
  obtain ⟨r, hcall, rfl⟩ := map_eq_ok h
  obtain ⟨q, hq, hcall⟩ := bind_eq_ok.mp hcall
  exact hf q (httpReceive_leaves (fun _ _ _ => rfl) hq) r hcall

end KeepsHeader

theorem loadMinFee_header (json : CJson) (tx : Transaction) (p : Provider) :
    (loadMinFee json tx p).2.header = p.header := by
  rw [loadMinFee]
  split
  · rfl
  · rfl

theorem loadLastRound_header (json : CJson) (tx : Transaction) (p : Provider) :
    (loadLastRound json tx p).2.header = p.header := by
  rw [loadLastRound]
  split
  · rfl
  · rfl

/-- Only `provider_init` sets the header. -/
theorem request_header {cJSON_Parse : CJsonParse} {R : MpackReader} {p p' : Provider}
    (asked : Asked β) {reply : HttpReply}
    (h : RequestStep cJSON_Parse R p (asked.request reply) p') : p'.header = p.header := by
  cases asked with
  | ping => exact KeepsHeader.received h fun q hq => .pure hq
  | applicationInfoGet _ states =>
      exact KeepsHeader.received h fun q hq => .ite (.bind fun _ => .pure hq) (.pure hq)
  | accountInfoGet account _ =>
      exact KeepsHeader.received h fun q hq => .ite (.bind fun _ => .pure hq) (.pure hq)
  | txParamsLoad tx =>
      refine KeepsHeader.received h fun q hq => .ite ?_ (.ite (.pure hq) (.pure hq))
      cases cJSON_Parse q.rxString with
      | none => exact .pure hq
      | some json =>
          exact .bind fun _ => .pure
            (((loadLastRound_header json _ _).trans (loadMinFee_header json _ q)).trans hq)
  | txPost buf binPayload txId =>
      obtain ⟨r, hcall, rfl⟩ := map_eq_ok h
      obtain ⟨header, -, hcall⟩ := bind_eq_ok.mp hcall
      exact KeepsHeader.received (congrArg (Except.map fun r => r.2.2.2) hcall) fun q hq =>
        .ite (.bind fun _ => .pure hq) (.pure hq)
  | versionGet version =>
      have hcopy (q : Provider) (hq : q.header = p.header) (err : RetCode) (v : ProviderVersion) :
          KeepsHeader p (fun r => r.2.2) (copyVersion err q v) := .bind fun _ => .pure hq
      refine KeepsHeader.received h fun q hq => .ite ?_ (.ite (hcopy _ hq _ _) (hcopy _ hq _ _))
      cases cJSON_Parse q.rxString with
      | none => exact .pure hq
      | some json =>
          refine .bind fun _ => .ite (.pure hq) (.bind fun _ => .ite (.pure hq) ?_)
          exact .bind fun _ => .pure hq

/-! ## What is sent -/

/-- What the calls since the last `provider_init` amount to: the address and the header it
was called with, and the body posted last. -/
structure Connection (β : Type) where
  url : Option CStr
  port : Option UInt16
  header : Option CStr
  posted : Option (β × Nat)

def Connection.start : Connection β := ⟨none, none, none, none⟩

/-- The body that a request brings along. -/
def Asked.body : Asked β → Option (β × Nat)
  | .txPost buf binPayload _ => some (buf, binPayload.length)
  | .ping | .applicationInfoGet _ _ | .accountInfoGet _ _ | .txParamsLoad _ | .versionGet _ => none

def Connection.after (connection : Connection β) : ClientCall β → Connection β
  | .init url port header _ => ⟨some url, if port ≠ 0 then some port else none, header, none⟩
  | .ask asked _ => { connection with posted := asked.body <|> connection.posted }

def connectionOf (calls : List (ClientCall β)) : Connection β :=
  calls.foldl Connection.after .start

/-- The transfer is a POST with this body, or a GET if there is none. -/
def Transfer.Carries (t : Transfer β) (body : Option (β × Nat)) : Prop :=
  t.method = (if body.isSome then .post else .get) ∧ t.postFields = body.map Prod.fst ∧
    t.postFieldSize = (body.map Prod.snd).getD 0

/-- The client is as the connection says; what the handle has been used for stays on it. -/
structure Client.Keeps (curl : CurlEasyPerform β) (client : Client β) (connection : Connection β) :
    Prop where
  url : client.url = connection.url
  header : client.provider.header = connection.header
  handle : ∀ opts, client.mCurl = some opts →
    (curl opts).port = connection.port ∧ (curl opts).Carries connection.posted

variable {curl : CurlEasyPerform β} {client client' : Client β} {connection : Connection β}
  {cJSON_Parse : CJsonParse} {R : MpackReader}

theorem urlFull_eq_ok {size : Nat} {url : Option CStr} {relativePath full : List UInt8}
    (h : urlFull size url relativePath = .ok full) :
    ∃ u, url = some u ∧ u.strlen + relativePath.length < size ∧ full = u.bytes ++ relativePath := by
  cases url with
  | none => cases h
  | some u =>
      by_cases hlt : u.strlen + relativePath.length < size
      · rw [urlFull, if_pos hlt] at h
        exact ⟨u, rfl, hlt, (pure_eq_ok.mp h).symm⟩
      · rw [urlFull, if_neg hlt] at h
        cases h

/-- Options set one after the other. -/
theorem CurlEasyPerform.Documented.append (h : curl.Documented) (opts more : List (Setopt β)) :
    curl (opts ++ more) = more.foldl Transfer.set (curl opts) := by
  induction more using List.reverseRecOn with
  | nil => rw [List.append_nil]; rfl
  | append_singleton more opt ih =>
      rw [← List.append_assoc, h.setopt, ih, List.foldl_append]
      rfl

/-- The lines of the header that a request is sent with.  Only a post cuts its header. -/
def Asked.lines (asked : Asked β) (header : Option CStr) : List (List UInt8) :=
  match asked with
  | .txPost _ _ _ =>
      (match header with
      | none => []
      | some h => if h.strlen = 0 then [] else cut 0x0d 0x0a h.bytes) ++
        [lit "Content-Type: application/x-binary"]
  | .ping | .applicationInfoGet _ _ | .accountInfoGet _ _ | .txParamsLoad _ | .versionGet _ =>
      header.toList.map CStr.bytes

/-- The header of a post ends in its array, and its pieces are the lines. -/
theorem postHeader_lines {header : Option CStr} {text : List UInt8}
    (h : postHeader header = .ok text) (buf : β) (binPayload : List UInt8)
    (txId : Vector UInt8 transactionHashStrMaxLength) :
    text.length < 256 ∧ 0 ∉ text ∧
      cut 0x0d 0x0a text = (Asked.txPost buf binPayload txId).lines header := by
  have htype : (lit "Content-Type: application/x-binary").length = 34 := by decide
  have hnul : (0 : UInt8) ∉ lit "Content-Type: application/x-binary" := by decide
  have hcut : cut 0x0d 0x0a (lit "Content-Type: application/x-binary") =
      [lit "Content-Type: application/x-binary"] := by decide
  cases header with
  | none =>
      cases pure_eq_ok.mp h
      exact ⟨by omega, hnul, hcut⟩
  | some header =>
      rw [Asked.lines]
      by_cases hempty : header.strlen = 0
      · simp only [postHeader, if_pos hempty] at h ⊢
        cases pure_eq_ok.mp h
        exact ⟨by omega, hnul, hcut⟩
      · by_cases hlt : header.strlen + 2 + (lit "Content-Type: application/x-binary").length < 256
        · simp only [postHeader, if_neg hempty, if_pos hlt] at h ⊢
          cases pure_eq_ok.mp h
          refine ⟨?_, ?_, ?_⟩
          · rw [htype, CStr.strlen] at hlt
            simp only [List.length_append, List.length_cons, List.length_nil, htype]
            omega
          · simp [header.noNul, hnul]
          · rw [List.append_assoc]
            show cut 0x0d 0x0a (header.bytes ++ 0x0d :: 0x0a ::
              lit "Content-Type: application/x-binary") = _
            rw [cut_append (by decide), hcut]
        · simp only [postHeader, if_neg hempty, if_neg hlt] at h
          cases h

/-- What a handle sends after a request that was made on it. -/
structure SentOn (curl : CurlEasyPerform β) (opts opts' : List (Setopt β)) (url : CStr)
    (asked : Asked β) (header : Option CStr) : Prop where
  url : (curl opts').url = url.bytes ++ asked.path
  port : (curl opts').port = (curl opts).port
  lines : (curl opts').httpHeader.map CStr.bytes = asked.lines header
  carries : ∀ body, (curl opts).Carries body → (curl opts').Carries (asked.body <|> body)

/-- A request without a handle sends nothing.  Any other is sent to the address of the
provider, with its header, and a body of its own stays on the handle. -/
def MadeOn (curl : CurlEasyPerform β) (client : Client β) (asked : Asked β)
    (transfer : Option (Transfer β)) (mCurl : Option (List (Setopt β))) : Prop :=
  (client.mCurl = none ∧ transfer = none ∧ mCurl = none) ∨
    ∃ opts opts' url, client.mCurl = some opts ∧ client.url = some url ∧ mCurl = some opts' ∧
      transfer = some (curl opts') ∧ SentOn curl opts opts' url asked client.provider.header

theorem httpGet_made (hcurl : curl.Documented) {asked : Asked β} (hbody : asked.body = none)
    (hlines : asked.lines client.provider.header = client.provider.header.toList.map CStr.bytes)
    {reply : CurlReply} {answer : HttpReply} {transfer : Option (Transfer β)}
    {mCurl : Option (List (Setopt β))}
    (h : httpGet curl client.mCurl client.url asked.path client.provider.header reply =
      .ok (answer, transfer, mCurl)) : MadeOn curl client asked transfer mCurl := by
  obtain ⟨full, hfull, h⟩ := bind_eq_ok.mp h
  obtain ⟨url, hurl, -, rfl⟩ := urlFull_eq_ok hfull
  cases hm : client.mCurl with
  | none =>
      rw [hm] at h
      obtain ⟨-, rfl, rfl⟩ := pure_eq_ok3.mp h
      exact .inl ⟨hm, rfl, rfl⟩
  | some opts =>
      rw [hm] at h
      cases hh : client.provider.header with
      | none =>
          rw [hh] at h
          cases h
      | some header =>
          rw [hh] at h
          obtain ⟨-, rfl, rfl⟩ := pure_eq_ok3.mp h
          refine .inr ⟨opts, _, url, hm, hurl, rfl, rfl, ?_⟩
          rw [hh] at hlines
          constructor
          · rw [hcurl.append]
            rfl
          · rw [hcurl.append]
            rfl
          · rw [hcurl.append, hh, hlines]
            rfl
          · intro body hcarries
            rw [hcurl.append, hbody]
            exact hcarries

/-- The loop of `http_post` reads the header in its array, and does not leave the array. -/
theorem headerLines_postHeader {header : Option CStr} {text : List UInt8}
    (h : postHeader header = .ok text) (buf : β) (binPayload : List UInt8)
    (txId : Vector UInt8 transactionHashStrMaxLength) :
    ∃ (headers : Vector UInt8 256) (chunk : List CStr),
      memcpy (Vector.replicate 256 0) 0 text = .ok headers ∧ headerLines headers = .ok chunk ∧
      chunk.map CStr.bytes = (Asked.txPost buf binPayload txId).lines header := by
  obtain ⟨hlength, hnul, hcut⟩ := postHeader_lines h buf binPayload txId
  have hle : 0 + text.length ≤ 256 := by omega
  -- the rest of the array is zero
  have hmem : (splice (Vector.replicate 256 0) 0 text hle).toList =
      text ++ 0 :: List.replicate (255 - text.length) 0 := by
    rw [toList_splice, List.take_zero, List.nil_append, Nat.zero_add, Vector.toList_replicate,
      List.drop_replicate, show 256 - text.length = 255 - text.length + 1 by omega,
      List.replicate_succ]
  obtain ⟨chunk, hchunk, hlines⟩ := headerLines_text hmem hnul
  exact ⟨_, chunk, memcpy_eq_ok.mpr ⟨hle, rfl⟩, hchunk, hlines.trans hcut⟩

theorem httpPost_made (hcurl : curl.Documented) {buf : β} {binPayload text : List UInt8}
    {txId : Vector UInt8 transactionHashStrMaxLength} {header : Vector UInt8 256}
    (htext : postHeader client.provider.header = .ok text)
    (hheader : memcpy (Vector.replicate 256 0) 0 text = .ok header) {path : List UInt8}
    (hpath : path = (Asked.txPost buf binPayload txId).path) {reply : CurlReply}
    {answer : HttpReply} {transfer : Option (Transfer β)} {mCurl : Option (List (Setopt β))}
    (h : httpPost curl client.mCurl client.url path header buf binPayload.length reply =
      .ok (answer, transfer, mCurl)) :
    MadeOn curl client (.txPost buf binPayload txId) transfer mCurl := by
  obtain ⟨headers, chunk, hheaders, hchunk, hlines⟩ :=
    headerLines_postHeader htext buf binPayload txId
  obtain rfl := Except.ok.inj (hheaders.symm.trans hheader)
  obtain ⟨full, hfull, h⟩ := bind_eq_ok.mp h
  obtain ⟨url, hurl, -, rfl⟩ := urlFull_eq_ok hfull
  cases hm : client.mCurl with
  | none =>
      rw [hm] at h
      obtain ⟨-, rfl, rfl⟩ := pure_eq_ok3.mp h
      exact .inl ⟨hm, rfl, rfl⟩
  | some opts =>
      rw [hm] at h
      obtain ⟨chunk', hchunk', h⟩ := bind_eq_ok.mp h
      obtain rfl := Except.ok.inj (hchunk.symm.trans hchunk')
      obtain ⟨-, rfl, rfl⟩ := pure_eq_ok3.mp h
      refine .inr ⟨opts, _, url, hm, hurl, rfl, rfl, ?_⟩
      constructor
      · rw [hcurl.append, hpath]
        rfl
      · rw [hcurl.append]
        rfl
      · rw [hcurl.append]
        exact hlines
      · intro body hcarries
        rw [hcurl.append]
        exact ⟨rfl, rfl, rfl⟩

theorem relativePath_eq_ok {asked : Asked β} {relativePath : List UInt8}
    (h : asked.relativePath = .ok relativePath) : relativePath = asked.path := by
  have hsprintf (path : List UInt8) (h : sprintfPath path = .ok relativePath) :
      relativePath = path := by
    unfold sprintfPath at h
    split at h
    · exact (pure_eq_ok.mp h).symm
    · cases h
  cases asked with
  | applicationInfoGet _ _ | accountInfoGet _ _ => exact hsprintf _ h
  | ping | txParamsLoad _ | txPost _ _ _ | versionGet _ => exact (pure_eq_ok.mp h).symm

theorem http_made (hcurl : curl.Documented) {asked : Asked β} {reply : CurlReply}
    {answer : HttpReply} {transfer : Option (Transfer β)} {mCurl : Option (List (Setopt β))}
    (h : client.http curl asked reply = .ok (answer, transfer, mCurl)) :
    MadeOn curl client asked transfer mCurl := by
  obtain ⟨relativePath, hpath, h⟩ := bind_eq_ok.mp h
  have hpath := relativePath_eq_ok hpath
  cases asked with
  | txPost buf binPayload txId =>
      obtain ⟨text, htext, h⟩ := bind_eq_ok.mp h
      obtain ⟨header, hheader, h⟩ := bind_eq_ok.mp h
      exact httpPost_made hcurl htext hheader hpath h
  | ping | applicationInfoGet _ _ | accountInfoGet _ _ | txParamsLoad _ | versionGet _ =>
      rw [hpath] at h
      exact httpGet_made hcurl rfl rfl h

theorem Client.Keeps.step (hcurl : curl.Documented) (h : client.Keeps curl connection)
    {call : ClientCall β} (hstep : ClientStep curl cJSON_Parse R client call client') :
    client'.Keeps curl (connection.after call) := by
  cases call with
  | init url port header easyInit =>
      cases pure_eq_ok.mp hstep
      refine ⟨rfl, rfl, fun opts hopts => ?_⟩
      cases easyInit with
      | false => exact nomatch hopts
      | true =>
          cases Option.some.inj hopts
          by_cases hport : port ≠ 0
          · rw [if_pos hport, ← List.nil_append [Setopt.port port], hcurl.append, hcurl.start]
            exact ⟨(if_pos hport).symm, rfl, rfl, rfl⟩
          · rw [if_neg hport, hcurl.start]
            exact ⟨(if_neg hport).symm, rfl, rfl, rfl⟩
  | ask asked reply =>
      obtain ⟨⟨answer, transfer, mCurl⟩, hhttp, hstep⟩ := bind_eq_ok.mp hstep
      obtain ⟨provider, hrequest, hstep⟩ := bind_eq_ok.mp hstep
      cases pure_eq_ok.mp hstep
      refine ⟨h.url, (request_header asked hrequest).trans h.header, ?_⟩
      rcases http_made hcurl hhttp with ⟨-, -, rfl⟩ | ⟨opts, opts', url, hm, -, rfl, -, hsent⟩
      · exact fun opts hopts => nomatch hopts
      · intro opts₁ hopts₁
        cases Option.some.inj hopts₁
        obtain ⟨hport, hcarries⟩ := h.handle opts hm
        exact ⟨hsent.port.trans hport, hsent.carries _ hcarries⟩

/-- What each run keeps. -/
theorem Client.Keeps.run (hcurl : curl.Documented) {calls : List (ClientCall β)}
    (hrun : Run (ClientStep curl cJSON_Parse R) .zero calls client) :
    client.Keeps curl (connectionOf calls) := by
  have hall : ∀ {client₁ client₂ : Client β} {calls : List (ClientCall β)},
      Run (ClientStep curl cJSON_Parse R) client₁ calls client₂ → ∀ connection,
        client₁.Keeps curl connection → client₂.Keeps curl (calls.foldl Connection.after connection) := by
    intro client₁ client₂ calls hrun
    induction hrun with
    | nil _ => exact fun _ h => h
    | cons hstep _ ih => exact fun connection h => ih _ (h.step hcurl hstep)
  exact hall hrun .start ⟨rfl, rfl, fun opts hopts => nomatch hopts⟩

/-- **A question after a post is a post**: every request is sent to the address that
`provider_init` was last called with, but it is a GET only if nothing has been posted since.
If something has, it is a POST, and its body is what was posted last. -/
theorem get_after_post (hcurl : curl.Documented) {calls : List (ClientCall β)}
    (hrun : Run (ClientStep curl cJSON_Parse R) .zero calls client) {asked : Asked β}
    {reply : CurlReply} (hhandle : client.mCurl ≠ none)
    (hstep : ClientStep curl cJSON_Parse R client (.ask asked reply) client') :
    ∃ t url, client'.sent = client.sent ++ [t] ∧ (connectionOf calls).url = some url ∧
      t.url = url.bytes ++ asked.path ∧ t.port = (connectionOf calls).port ∧
      (t.method = .get ↔ asked.body = none ∧ (connectionOf calls).posted = none) ∧
      (t.postFields, t.postFieldSize) =
        match asked.body <|> (connectionOf calls).posted with
        | some (buf, size) => (some buf, size)
        | none => (none, 0) := by
  have hkeeps := Client.Keeps.run hcurl hrun
  obtain ⟨⟨answer, transfer, mCurl⟩, hhttp, hstep⟩ := bind_eq_ok.mp hstep
  obtain ⟨provider, -, hstep⟩ := bind_eq_ok.mp hstep
  cases pure_eq_ok.mp hstep
  rcases http_made hcurl hhttp with ⟨hm, -, -⟩ | ⟨opts, opts', url, hm, hurl, -, rfl, hsent⟩
  · exact absurd hm hhandle
  · obtain ⟨hport, hcarries⟩ := hkeeps.handle opts hm
    obtain ⟨hmethod, hfields, hsize⟩ := hsent.carries _ hcarries
    refine ⟨curl opts', url, rfl, hkeeps.url.symm.trans hurl, hsent.url, hsent.port.trans hport, ?_, ?_⟩
    · rw [hmethod]
      cases asked.body with
      | some body => simp
      | none => cases (connectionOf calls).posted <;> simp
    · rw [hfields, hsize]
      cases asked.body <|> (connectionOf calls).posted <;> rfl

/-- libcurl, each option set on what is there. -/
def setAll : CurlEasyPerform β := fun opts => opts.foldl Transfer.set .start

theorem setAll_documented : (setAll : CurlEasyPerform β).Documented where
  start := rfl
  setopt _ _ := List.foldl_append ..

/-- A header of two lines. -/
def apiHeader : CStr := ⟨lit "key: 1" ++ [0x0d, 0x0a] ++ lit "id: 2", by decide⟩

def nodeInit : ClientCall Nat :=
  .init ⟨lit "http://node", by decide⟩ 8080 (some apiHeader) true

/-- A transaction is posted; nothing comes back. -/
def txPosted : Asked Nat := .txPost 7 [1, 2, 3] (Vector.replicate _ 0)

def noReply : CurlReply := ⟨false, 0, []⟩

/-- The parameters are asked for next. -/
def paramsAsked : Asked Nat := .txParamsLoad blankTransaction

/-- The calls one after the other. -/
def Client.runCalls (curl : CurlEasyPerform β) (cJSON_Parse : CJsonParse) (R : MpackReader)
    (client : Client β) (calls : List (ClientCall β)) : Except Fault (Client β) :=
  calls.foldlM (ClientCall.run curl cJSON_Parse R) client

theorem run_of_runCalls {calls : List (ClientCall β)}
    (h : client.runCalls curl cJSON_Parse R calls = .ok client') :
    Run (ClientStep curl cJSON_Parse R) client calls client' := by
  induction calls generalizing client with
  | nil =>
      cases pure_eq_ok.mp h
      exact .nil _
  | cons call calls ih =>
      obtain ⟨client₁, hcall, h⟩ := bind_eq_ok.mp h
      exact .cons hcall (ih h)

/-- The calls are made, and then the request, on a handle. -/
theorem asked_after (calls : List (ClientCall Nat)) (asked : Asked Nat)
    (hseen : (Client.zero.runCalls setAll parseArrays formatReader calls).map (fun client =>
      (client.mCurl.isSome, ((ClientCall.ask asked noReply).run setAll parseArrays formatReader
        client).isOk)) = .ok (true, true)) :
    ∃ client client', Run (ClientStep setAll parseArrays formatReader) .zero calls client ∧
      client.mCurl ≠ none ∧
      ClientStep setAll parseArrays formatReader client (.ask asked noReply) client' := by
  cases hrun : Client.zero.runCalls setAll parseArrays formatReader calls with
  | error fault => rw [hrun] at hseen; exact nomatch hseen
  | ok client =>
      rw [hrun] at hseen
      obtain ⟨hhandle, hasked⟩ := Prod.mk.inj (Except.ok.inj hseen)
      cases hstep : (ClientCall.ask asked noReply).run setAll parseArrays formatReader client with
      | error fault => rw [hstep] at hasked; exact nomatch hasked
      | ok client' =>
          refine ⟨client, client', run_of_runCalls hrun, ?_, hstep⟩
          intro hnone
          rw [hnone] at hhandle
          exact nomatch hhandle

/-- The parameters are asked for by a POST, with the transaction posted before. -/
theorem get_after_post_params : ∃ t : Transfer Nat, t.method = .post ∧
    t.url = lit "http://node/v2/transactions/params" ∧ t.postFields = some 7 ∧ t.postFieldSize = 3 := by
  obtain ⟨client, client', hrun, hhandle, hstep⟩ :=
    asked_after [nodeInit, .ask txPosted noReply] paramsAsked (by decide +kernel)
  obtain ⟨t, url, -, hurl, htarget, -, hmethod, hbody⟩ :=
    get_after_post setAll_documented hrun hhandle hstep
  obtain ⟨hfields, hsize⟩ := Prod.mk.inj hbody
  refine ⟨t, ?_, ?_, hfields, hsize⟩
  · cases hm : t.method with
    | post => rfl
    | get => exact nomatch (hmethod.mp hm).2
  · cases Option.some.inj hurl
    exact htarget

/-! ## The answers -/

/-- The code by which the function that asks decides whether there is an answer to read. -/
def Asked.status (asked : Asked β) (answer : HttpReply) : RetCode :=
  match asked with
  | .ping | .txPost _ _ _ => postStatus answer
  | .applicationInfoGet _ _ | .accountInfoGet _ _ | .txParamsLoad _ | .versionGet _ => answer.err

/-- A call of the client is this request of the provider: with the same header, or with an
answer that is read only if the transfer ended well. -/
def ClientCall.Makes (call : ClientCall β) (request : Request) : Prop :=
  match call with
  | .init _ _ header _ => request = .init header
  | .ask asked reply => ∃ answer, request = asked.request answer ∧
      (asked.status answer = .success →
        reply.ok = true ∧ reply.response < 300 ∧ answer.chunks = reply.chunks)

/-- An error stays one, whatever response code is added to it. -/
theorem postStatus_ne {answer : HttpReply} (herr : answer.err ≠ .success)
    (hcode : answer.responseCode.toNat < 1000) : postStatus answer ≠ .success := by
  unfold postStatus
  split
  · have hten : 10 ≤ vtcErrorHttpBase + answer.responseCode := by
      rw [UInt32.le_iff_toNat_le, UInt32.toNat_add]
      have hbase : vtcErrorHttpBase.toNat = 268435456 := rfl
      have hnum : (10 : UInt32).toNat = 10 := rfl
      omega
    rw [RetCode.ofUInt32, dif_pos hten]
    exact RetCode.noConfusion
  · exact herr

theorem Asked.err_of_status {asked : Asked β} {answer : HttpReply}
    (h : asked.status answer = .success) (hcode : answer.responseCode.toNat < 1000) :
    answer.err = .success := by
  cases asked with
  | ping | txPost _ _ _ =>
      by_contra herr
      exact postStatus_ne herr hcode h
  | applicationInfoGet _ _ | accountInfoGet _ _ | txParamsLoad _ | versionGet _ => exact h

theorem toNat_response {n : Nat} (h : n < 1000) : (UInt32.ofNat n).toNat = n := by
  rw [UInt32.toNat_ofNat', Nat.mod_eq_of_lt (h.trans (by decide))]

theorem got_read {asked : Asked β} {reply : CurlReply} (hcode : reply.response < 1000)
    (h : asked.status reply.got = .success) :
    reply.ok = true ∧ reply.response < 300 ∧ reply.got.chunks = reply.chunks := by
  have hlow : reply.got.responseCode.toNat < 1000 := by
    show (if reply.ok ∧ 300 ≤ reply.response then UInt32.ofNat reply.response else 0).toNat < 1000
    split
    · rw [toNat_response hcode]
      exact hcode
    · decide
  have herr := Asked.err_of_status h hlow
  rw [CurlReply.got] at herr
  dsimp only at herr
  split at herr
  · cases herr
  · next hok =>
      split at herr
      · exact absurd herr (by decide)
      · next hlt => exact ⟨not_not.mp hok, Nat.lt_of_not_le hlt, rfl⟩

theorem posted_read {asked : Asked β} {reply : CurlReply} (hcode : reply.response < 1000)
    (h : asked.status reply.posted = .success) :
    reply.ok = true ∧ reply.response < 300 ∧ reply.posted.chunks = reply.chunks := by
  rw [CurlReply.posted] at h ⊢
  split at h
  · next hok =>
      cases Asked.err_of_status h (show (0 : UInt32).toNat < 1000 by decide)
  · next hok =>
      have herr := Asked.err_of_status h (by rw [toNat_response hcode]; exact hcode)
      dsimp only at herr
      split at herr
      · exact absurd herr (by decide)
      · next hlt =>
          rw [UInt32.le_iff_toNat_le, toNat_response hcode] at hlt
          rw [if_neg hok]
          exact ⟨not_not.mp hok, Nat.lt_of_not_le hlt, rfl⟩

/-- What the provider gets for an answer. -/
theorem http_answer {asked : Asked β} {reply : CurlReply} {answer : HttpReply}
    {r : Option (Transfer β) × Option (List (Setopt β))}
    (h : client.http curl asked reply = .ok (answer, r)) :
    answer = reply.got ∨ answer = reply.posted ∨ answer = ⟨[], .errorInvalidState, 0⟩ := by
  have hget {path : List UInt8} (h : httpGet curl client.mCurl client.url path
      client.provider.header reply = .ok (answer, r)) :
      answer = reply.got ∨ answer = ⟨[], .errorInvalidState, 0⟩ := by
    obtain ⟨full, -, h⟩ := bind_eq_ok.mp h
    cases hm : client.mCurl with
    | none =>
        rw [hm] at h
        exact .inr (Prod.mk.inj (pure_eq_ok.mp h)).1.symm
    | some opts =>
        rw [hm] at h
        cases hh : client.provider.header with
        | none =>
            rw [hh] at h
            cases h
        | some header =>
            rw [hh] at h
            exact .inl (Prod.mk.inj (pure_eq_ok.mp h)).1.symm
  obtain ⟨relativePath, -, h⟩ := bind_eq_ok.mp h
  cases asked with
  | txPost buf binPayload txId =>
      obtain ⟨text, -, h⟩ := bind_eq_ok.mp h
      obtain ⟨header, -, h⟩ := bind_eq_ok.mp h
      obtain ⟨full, -, h⟩ := bind_eq_ok.mp h
      cases hm : client.mCurl with
      | none =>
          rw [hm] at h
          exact .inr (.inr (Prod.mk.inj (pure_eq_ok.mp h)).1.symm)
      | some opts =>
          rw [hm] at h
          obtain ⟨chunk, -, h⟩ := bind_eq_ok.mp h
          exact .inr (.inl (Prod.mk.inj (pure_eq_ok.mp h)).1.symm)
  | ping | applicationInfoGet _ _ | accountInfoGet _ _ | txParamsLoad _ | versionGet _ =>
      exact (hget h).elim .inl fun hnone => .inr (.inr hnone)

/-- The response code of a transfer has three digits. -/
def ClientCall.ThreeDigits : ClientCall β → Prop
  | .init _ _ _ _ => True
  | .ask _ reply => reply.response < 1000

/-- **The client is a provider's HTTP client**: each run of it is a run of the provider's
requests, in which no answer is read but those of transfers that ended well. -/
theorem client_requests {calls : List (ClientCall β)}
    (hrun : Run (ClientStep curl cJSON_Parse R) client calls client')
    (hcodes : ∀ call ∈ calls, call.ThreeDigits) :
    ∃ history, Run (RequestStep cJSON_Parse R) client.provider history client'.provider ∧
      List.Forall₂ ClientCall.Makes calls history := by
  induction hrun with
  | nil client => exact ⟨[], .nil _, .nil⟩
  | @cons client client₁ client₂ call calls hstep _ ih =>
      rw [List.forall_mem_cons] at hcodes
      obtain ⟨history, hhistory, hmakes⟩ := ih hcodes.2
      cases call with
      | init url port header easyInit =>
          cases pure_eq_ok.mp hstep
          exact ⟨.init header :: history, .cons rfl hhistory, .cons rfl hmakes⟩
      | ask asked reply =>
          obtain ⟨⟨answer, transfer, mCurl⟩, hhttp, hstep⟩ := bind_eq_ok.mp hstep
          obtain ⟨provider, hrequest, hstep⟩ := bind_eq_ok.mp hstep
          cases pure_eq_ok.mp hstep
          refine ⟨asked.request answer :: history, .cons hrequest hhistory, .cons ?_ hmakes⟩
          refine ⟨answer, rfl, fun hs => ?_⟩
          rcases http_answer hhttp with rfl | rfl | rfl
          · exact got_read hcodes.1 hs
          · exact posted_read hcodes.1 hs
          · cases Asked.err_of_status hs (by decide)

/-- The node is asked whether it is there, and says yes. -/
theorem client_requests_ping : ∃ (client : Client Nat) (history : List Request),
    Run (RequestStep parseArrays formatReader) .zero history client.provider ∧
      List.Forall₂ ClientCall.Makes [nodeInit, .ask .ping ⟨true, 200, [lit "null"]⟩] history := by
  have hok : (Client.zero.runCalls setAll parseArrays formatReader
      [nodeInit, .ask .ping ⟨true, 200, [lit "null"]⟩]).isOk = true := by decide +kernel
  cases hrun : Client.zero.runCalls setAll parseArrays formatReader
      [nodeInit, .ask .ping ⟨true, 200, [lit "null"]⟩] with
  | error fault => rw [hrun] at hok; exact nomatch hok
  | ok client =>
      refine ⟨client, client_requests (run_of_runCalls hrun) fun call hcall => ?_⟩
      rcases List.mem_pair.mp hcall with rfl | rfl
      · trivial
      · show 200 < 1000
        decide

/-! ## The header -/

/-- The header of a request, in one text. -/
def Asked.headerText (asked : Asked β) (header : Option CStr) : List UInt8 :=
  match asked with
  | .txPost _ _ _ =>
      match header with
      | none => lit "Content-Type: application/x-binary"
      | some h =>
          if h.strlen = 0 then lit "Content-Type: application/x-binary"
          else h.bytes ++ [0x0d, 0x0a] ++ lit "Content-Type: application/x-binary"
  | .ping | .applicationInfoGet _ _ | .accountInfoGet _ _ | .txParamsLoad _ | .versionGet _ =>
      (header.map CStr.bytes).getD []

theorem postHeader_eq_ok {header : Option CStr} {text : List UInt8}
    (h : postHeader header = .ok text) (buf : β) (binPayload : List UInt8)
    (txId : Vector UInt8 transactionHashStrMaxLength) :
    text = (Asked.txPost buf binPayload txId).headerText header := by
  cases header with
  | none => exact (pure_eq_ok.mp h).symm
  | some header =>
      simp only [postHeader] at h
      rw [Asked.headerText]
      split at h
      · next hempty =>
          rw [if_pos hempty]
          exact (pure_eq_ok.mp h).symm
      · next hsome =>
          rw [if_neg hsome]
          split at h
          · exact (pure_eq_ok.mp h).symm
          · cases h

/-- A post is made only with a header that fits. -/
theorem http_postHeader {buf : β} {binPayload : List UInt8}
    {txId : Vector UInt8 transactionHashStrMaxLength} {reply : CurlReply}
    {r : HttpReply × Option (Transfer β) × Option (List (Setopt β))}
    (h : client.http curl (.txPost buf binPayload txId) reply = .ok r) :
    ∃ text, postHeader client.provider.header = .ok text := by
  obtain ⟨relativePath, -, h⟩ := bind_eq_ok.mp h
  obtain ⟨text, htext, -⟩ := bind_eq_ok.mp h
  exact ⟨text, htext⟩

/-- Without a header nothing is asked. -/
theorem http_header {asked : Asked β} (hbody : asked.body = none) (hhandle : client.mCurl ≠ none)
    {reply : CurlReply} {r : HttpReply × Option (Transfer β) × Option (List (Setopt β))}
    (h : client.http curl asked reply = .ok r) :
    ∃ header, client.provider.header = some header := by
  have hget {path : List UInt8} (h : httpGet curl client.mCurl client.url path
      client.provider.header reply = .ok r) : ∃ header, client.provider.header = some header := by
    obtain ⟨full, -, h⟩ := bind_eq_ok.mp h
    cases hm : client.mCurl with
    | none => exact absurd hm hhandle
    | some opts =>
        rw [hm] at h
        cases hh : client.provider.header with
        | none =>
            rw [hh] at h
            cases h
        | some header => exact ⟨header, rfl⟩
  obtain ⟨relativePath, -, h⟩ := bind_eq_ok.mp h
  cases asked with
  | txPost _ _ _ => exact nomatch hbody
  | ping | applicationInfoGet _ _ | accountInfoGet _ _ | txParamsLoad _ | versionGet _ => exact hget h

/-- **The header of a request, line by line**: with a CR and an LF between them the lines are
the header of the last `provider_init`, with the content type behind it if it is a post.  A
post has no line with a CR and an LF in it, and the loop that takes its header apart does not
leave the array; any other request has the header in one line. -/
theorem header_lines (hcurl : curl.Documented) {calls : List (ClientCall β)}
    (hrun : Run (ClientStep curl cJSON_Parse R) .zero calls client) {asked : Asked β}
    {reply : CurlReply} (hhandle : client.mCurl ≠ none)
    (hstep : ClientStep curl cJSON_Parse R client (.ask asked reply) client') :
    (∃ t, client'.sent = client.sent ++ [t] ∧
      [0x0d, 0x0a].intercalate (t.httpHeader.map CStr.bytes) =
        asked.headerText (connectionOf calls).header ∧
      (asked.body ≠ none → ∀ line ∈ t.httpHeader, Clean 0x0d 0x0a line.bytes) ∧
      (asked.body = none → t.httpHeader.length = 1)) ∧
    ∀ header text, postHeader header = .ok text → ∃ (headers : Vector UInt8 256) (lines : List CStr),
      memcpy (Vector.replicate 256 0) 0 text = .ok headers ∧ headerLines headers = .ok lines := by
  refine ⟨?_, fun header text htext => ?_⟩
  swap
  · obtain ⟨headers, lines, hheaders, hlines, -⟩ :=
      headerLines_postHeader htext () [] (Vector.replicate _ 0)
    exact ⟨headers, lines, hheaders, hlines⟩
  have hkeeps := Client.Keeps.run hcurl hrun
  obtain ⟨⟨answer, transfer, mCurl⟩, hhttp, hstep⟩ := bind_eq_ok.mp hstep
  obtain ⟨provider, -, hstep⟩ := bind_eq_ok.mp hstep
  cases pure_eq_ok.mp hstep
  rcases http_made hcurl hhttp with ⟨hm, -, -⟩ | ⟨opts, opts', url, hm, hurl, -, rfl, hsent⟩
  · exact absurd hm hhandle
  · have hlines := hsent.lines
    rw [hkeeps.header] at hlines
    refine ⟨curl opts', rfl, ?_⟩
    cases asked with
    | txPost buf binPayload txId =>
        obtain ⟨text, htext⟩ := http_postHeader hhttp
        rw [hkeeps.header] at htext
        obtain ⟨-, -, hcut⟩ := postHeader_lines htext buf binPayload txId
        rw [← hcut] at hlines
        refine ⟨?_, fun _ line hline => ?_, fun hnone => nomatch hnone⟩
        · rw [hlines, intercalate_cut]
          exact postHeader_eq_ok htext buf binPayload txId
        · refine clean_of_mem_cut (l := text) ?_
          rw [← hlines]
          exact List.mem_map_of_mem hline
    | ping | applicationInfoGet _ _ | accountInfoGet _ _ | txParamsLoad _ | versionGet _ =>
        obtain ⟨header, hheader⟩ := http_header rfl hhandle hhttp
        rw [hkeeps.header] at hheader
        rw [hheader] at hlines ⊢
        refine ⟨?_, fun hsome => absurd rfl hsome, fun _ => ?_⟩
        · rw [hlines]
          simp [Asked.lines, Asked.headerText]
        · simpa [Asked.lines] using congrArg List.length hlines

/-- A header of two lines, and the content type. -/
theorem header_lines_post : ∃ client client' : Client Nat, ∃ t, client'.sent = client.sent ++ [t] ∧
    [0x0d, 0x0a].intercalate (t.httpHeader.map CStr.bytes) = txPosted.headerText (some apiHeader) ∧
    ∀ line ∈ t.httpHeader, Clean 0x0d 0x0a line.bytes := by
  obtain ⟨client, client', hrun, hhandle, hstep⟩ :=
    asked_after [nodeInit] txPosted (by decide +kernel)
  obtain ⟨⟨t, hsent, htext, hclean, -⟩, -⟩ := header_lines setAll_documented hrun hhandle hstep
  exact ⟨client, client', t, hsent, htext, hclean (fun hnone => nomatch hnone)⟩

end Vertices
