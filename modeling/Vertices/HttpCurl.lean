/-
# `Vertices.HttpCurl` — `examples/unix/vertices_ports/http_curl.cpp`

The HTTP client of the ports, and the requests that `algorand_provider.c` makes through it.

What has been set on an easy handle stays set: a handle is the list of the options set on
it since `curl_easy_init`, and what libcurl sends is a function of the list.  `http_get` and
`http_post` use one handle, and only `http_post` says which method it means.

The loop of `http_post` cuts its header in place; `headerLines_text` says into what.
-/
import Vertices.Lib.PairSplit
import Vertices.ReceiveBuffer

namespace Vertices

open Transition PairSplit

/-! ## The easy handle -/

/-- An option that is set on a handle, by `curl_easy_setopt`.  A body is set by a pointer
to it, of type `β`; libcurl does not copy it. -/
inductive Setopt (β : Type) where
  | port (port : UInt16)
  | url (url : List UInt8)
  | httpHeader (chunk : List CStr)
  | post
  | postFields (body : β)
  | postFieldSize (size : Nat)

inductive Method where
  | get
  | post
  deriving DecidableEq

/-- What is sent by `curl_easy_perform`.  The body is of a POST only. -/
structure Transfer (β : Type) where
  method : Method
  port : Option UInt16
  url : List UInt8
  httpHeader : List CStr
  postFields : Option β
  postFieldSize : Nat

variable {β : Type}

/-- A handle on which nothing has been set. -/
def Transfer.start : Transfer β where
  method := .get
  port := none
  url := []
  httpHeader := []
  postFields := none
  postFieldSize := 0

/-- What an option changes of the transfers that follow. -/
def Transfer.set (t : Transfer β) : Setopt β → Transfer β
  | .port port => { t with port := some port }
  | .url url => { t with url := url }
  | .httpHeader chunk => { t with httpHeader := chunk }
  | .post => { t with method := .post }
  | .postFields body => { t with method := .post, postFields := some body }
  | .postFieldSize size => { t with postFieldSize := size }

/-- libcurl: what it sends from a handle on which the options have been set, in this order. -/
abbrev CurlEasyPerform (β : Type) := List (Setopt β) → Transfer β

/-- As libcurl documents it: GET is the method unless another is set, and an option stays
as it has been set, from one transfer to the next. -/
structure CurlEasyPerform.Documented (curl : CurlEasyPerform β) : Prop where
  start : curl [] = .start
  setopt : ∀ opts opt, curl (opts ++ [opt]) = (curl opts).set opt

/-- What comes of a transfer: whether it is `CURLE_OK`, the response code, and the chunks. -/
structure CurlReply where
  ok : Bool
  response : Nat
  chunks : List (List UInt8)

/-! ## The client -/

/-- `sprintf(url_full, "%s%s", provider->url, relative_path)`, into an array of `size`
characters. -/
def urlFull (size : Nat) (url : Option CStr) (relativePath : List UInt8) :
    Except Fault (List UInt8) :=
  match url with
  | none => throw .nullDeref
  | some url =>
      if url.strlen + relativePath.length < size then return url.bytes ++ relativePath
      else throw .outOfBounds

/-- `http_init`: its code and `m_curl`.  `easyInit` says whether `curl_easy_init` succeeds. -/
def httpInit (port : UInt16) (easyInit : Bool) : RetCode × Option (List (Setopt β)) :=
  if easyInit then (.success, some (if port ≠ 0 then [.port port] else []))
  else (.errorInternal, none)

/-- What `http_get` makes of the reply.  A response code is stored from 300 on only. -/
def CurlReply.got (reply : CurlReply) : HttpReply where
  chunks := reply.chunks
  err := if ¬ reply.ok then .errorInternal
    else if 300 ≤ reply.response then .ofUInt32 vtcErrorHttpBase else .success
  responseCode := if reply.ok ∧ 300 ≤ reply.response then .ofNat reply.response else 0

/-- `http_get`: what the caller gets, what is sent, and `m_curl`. -/
def httpGet (curl : CurlEasyPerform β) (mCurl : Option (List (Setopt β))) (url : Option CStr)
    (relativePath : List UInt8) (headers : Option CStr) (reply : CurlReply) :
    Except Fault (HttpReply × Option (Transfer β) × Option (List (Setopt β))) := do
  let full ← urlFull 512 url relativePath
  match mCurl with
  | none => return (⟨[], .errorInvalidState, 0⟩, none, none)
  | some opts =>
      -- `curl_slist_append` copies the string
      match headers with
      | none => throw .nullDeref
      | some headers =>
          let opts := opts ++ [.httpHeader [headers], .url full]
          return (reply.got, some (curl opts), some opts)

/-- The loop of `http_post` over the header, `left` being the characters from `i` to the
end of the array.  A line is closed by a `\0` in place of its CR, and copied to `chunk`. -/
def headerLoop {n : Nat} (headers : Vector UInt8 n) (i headerLine : Nat) (chunk : List CStr) :
    (left : Nat) → Except Fault (Vector UInt8 n × Nat × List CStr)
  | 0 => throw .outOfBounds
  | left + 1 => do
      let k ← subscript n i
      if headers.get k = 0 then return (headers, headerLine, chunk)
      else if headers.get k = 0x0d then
        let k' ← subscript n (i + 1)
        if headers.get k' = 0x0a then
          let headers := headers.set k.val 0 k.isLt
          headerLoop headers (i + 1) (i + 2)
            (chunk ++ [cString (headers.toList.drop headerLine)]) left
        else headerLoop headers (i + 1) headerLine chunk left
      else headerLoop headers (i + 1) headerLine chunk left

/-- The list of header lines that `http_post` makes of its header. -/
def headerLines {n : Nat} (headers : Vector UInt8 n) : Except Fault (List CStr) := do
  let (headers, headerLine, chunk) ← headerLoop headers 0 0 [] n
  return chunk ++ [cString (headers.toList.drop headerLine)]

/-- What `http_post` makes of the reply. -/
def CurlReply.posted (reply : CurlReply) : HttpReply :=
  if ¬ reply.ok then ⟨reply.chunks, .errorInternal, 0⟩
  else
    let responseCode := UInt32.ofNat reply.response
    ⟨reply.chunks, if 300 ≤ responseCode then .ofUInt32 vtcErrorHttpBase else .success, responseCode⟩

/-- `http_post`. -/
def httpPost {n : Nat} (curl : CurlEasyPerform β) (mCurl : Option (List (Setopt β)))
    (url : Option CStr) (relativePath : List UInt8) (headers : Vector UInt8 n) (body : β)
    (bodySize : Nat) (reply : CurlReply) :
    Except Fault (HttpReply × Option (Transfer β) × Option (List (Setopt β))) := do
  let full ← urlFull 256 url relativePath
  match mCurl with
  | none => return (⟨[], .errorInvalidState, 0⟩, none, none)
  | some opts =>
      let chunk ← headerLines headers
      let opts := opts ++
        [.url full, .post, .postFields body, .postFieldSize bodySize, .httpHeader chunk]
      return (reply.posted, some (curl opts), some opts)

/-! ## The lines of a header -/

/-- The element of an array behind the first ones, and what the array is when it is
replaced. -/
theorem subscript_append {n : Nat} {v : Vector UInt8 n} {pre post : List UInt8} {a : UInt8}
    (h : v.toList = pre ++ a :: post) :
    ∃ k, subscript n pre.length = .ok k ∧ v.get k = a ∧
      ∀ b, (v.set k.val b k.isLt).toList = pre ++ b :: post := by
  have hlength : pre.length < n := by
    rw [← v.length_toList, h]
    simp
  refine ⟨⟨pre.length, hlength⟩, subscript_of_lt hlength, ?_, ?_⟩
  · show v[pre.length] = a
    have hget : v.toList[pre.length]? = some a := by
      simp [h]
    rw [Vector.getElem?_toList, Vector.getElem?_eq_getElem hlength] at hget
    exact Option.some.inj hget
  · intro b
    show (v.set pre.length b).toList = pre ++ b :: post
    rw [Vector.toList_set, h]
    simp

/-- The loop goes on behind a character that is no separator. -/
theorem headerLoop_char {n : Nat} {headers : Vector UInt8 n} {pre post : List UInt8} {a b : UInt8}
    (h : headers.toList = pre ++ a :: b :: post) (ha : a ≠ 0) (hab : ¬ (a = 0x0d ∧ b = 0x0a))
    (headerLine : Nat) (chunk : List CStr) (left : Nat) :
    headerLoop headers pre.length headerLine chunk (left + 1) =
      headerLoop headers (pre ++ [a]).length headerLine chunk left := by
  obtain ⟨k, hk, hka, -⟩ := subscript_append h
  have h' : headers.toList = (pre ++ [a]) ++ b :: post := by rw [h]; simp
  obtain ⟨k', hk', hkb, -⟩ := subscript_append h'
  have hlength : (pre ++ [a]).length = pre.length + 1 := by simp
  rw [hlength] at hk' ⊢
  rw [headerLoop, hk]
  show (if headers.get k = 0 then _ else _) = _
  rw [hka, if_neg ha]
  by_cases hcr : a = 0x0d
  · have hb : b ≠ 0x0a := fun hb => hab ⟨hcr, hb⟩
    rw [if_pos hcr, hk']
    show (if headers.get k' = 0x0a then _ else _) = _
    rw [hkb, if_neg hb]
  · rw [if_neg hcr]

/-- At a separator the line is closed. -/
theorem headerLoop_crlf {n : Nat} {headers : Vector UInt8 n} {pre post : List UInt8}
    (h : headers.toList = pre ++ 0x0d :: 0x0a :: post) :
    ∃ headers' : Vector UInt8 n, headers'.toList = pre ++ 0 :: 0x0a :: post ∧
      ∀ headerLine chunk left,
        headerLoop headers pre.length headerLine chunk (left + 2) =
          headerLoop headers' (pre ++ [0, 0x0a]).length (pre ++ [0, 0x0a]).length
            (chunk ++ [cString (headers'.toList.drop headerLine)]) left := by
  obtain ⟨k, hk, hcr, hset⟩ := subscript_append h
  have h' : headers.toList = (pre ++ [0x0d]) ++ 0x0a :: post := by rw [h]; simp
  obtain ⟨k', hk', hlf, -⟩ := subscript_append h'
  refine ⟨headers.set k.val 0 k.isLt, hset 0, fun headerLine chunk left => ?_⟩
  have hnext : (headers.set k.val 0 k.isLt).toList = (pre ++ [0]) ++ 0x0a :: post := by
    rw [hset]
    simp
  obtain ⟨k₂, hk₂, hlf₂, -⟩ := subscript_append hnext
  have hlength (a : UInt8) : (pre ++ [a]).length = pre.length + 1 := by simp
  have hlength₂ : (pre ++ [0, 0x0a]).length = pre.length + 2 := by simp
  rw [hlength] at hk' hk₂
  rw [headerLoop, hk]
  show (if headers.get k = 0 then _ else _) = _
  rw [hcr, if_neg (by decide), if_pos rfl, hk']
  show (if headers.get k' = 0x0a then _ else _) = _
  rw [hlf, if_pos rfl, headerLoop, hk₂]
  show (if (headers.set k.val 0 k.isLt).get k₂ = 0 then _ else _) = _
  rw [hlf₂, if_neg (by decide), if_neg (by decide), hlength₂]

/-- The string at a line that is closed. -/
theorem cString_line {done line : List UInt8} (hline : 0 ∉ line) (rest : List UInt8) :
    (cString ((done ++ line ++ 0 :: rest).drop done.length)).bytes = line := by
  rw [List.append_assoc, List.drop_left]
  exact bytes_cString_append hline rest

/-- At the end of the text the line is the last one. -/
theorem headerLoop_end {n : Nat} {headers : Vector UInt8 n} {done line rest : List UInt8}
    (hmem : headers.toList = done ++ line ++ 0 :: rest) (hline : 0 ∉ line) (chunk : List CStr)
    (left : Nat) :
    headerLoop headers (done ++ line).length done.length chunk (left + 1) =
        .ok (headers, done.length, chunk) ∧
      (chunk ++ [cString (headers.toList.drop done.length)]).map CStr.bytes =
        chunk.map CStr.bytes ++ [line] := by
  obtain ⟨k, hk, hnul, -⟩ := subscript_append hmem
  constructor
  · rw [headerLoop, hk]
    exact if_pos hnul
  · rw [List.map_append, hmem]
    exact congrArg (_ ++ [·]) (cString_line hline rest)

/-- The line that is being read goes on with the first piece of the text, and each further
piece is a line. -/
theorem headerLoop_text {n : Nat} {headers : Vector UInt8 n} {done line text rest : List UInt8}
    (hmem : headers.toList = done ++ line ++ (text ++ 0 :: rest)) (hline : 0 ∉ line)
    (htext : 0 ∉ text) (chunk : List CStr) :
    ∃ headers' headerLine chunk',
      headerLoop headers (done ++ line).length done.length chunk (text ++ 0 :: rest).length =
        .ok (headers', headerLine, chunk') ∧
      (chunk' ++ [cString (headers'.toList.drop headerLine)]).map CStr.bytes =
        chunk.map CStr.bytes ++ (cut 0x0d 0x0a text).modifyHead (line ++ ·) := by
  induction text using cut.induct (0x0d : UInt8) 0x0a generalizing headers done line chunk with
  | case1 =>
      obtain ⟨hloop, hlines⟩ := headerLoop_end hmem hline chunk rest.length
      refine ⟨headers, done.length, chunk, hloop, ?_⟩
      rw [hlines]
      simp [cut]
  | case2 a =>
      have ha : a ≠ 0 := fun h => htext (by simp [h])
      have hmem' : headers.toList = done ++ (line ++ [a]) ++ 0 :: rest := by
        rw [hmem]
        simp
      have hline' : 0 ∉ line ++ [a] := by simp [hline, ha.symm]
      obtain ⟨hloop, hlines⟩ := headerLoop_end hmem' hline' chunk rest.length
      refine ⟨headers, done.length, chunk, ?_, ?_⟩
      · rw [← hloop, ← List.append_assoc]
        have hmem₁ : headers.toList = done ++ line ++ a :: 0 :: rest := hmem
        refine headerLoop_char hmem₁ ha ?_ _ _ (rest.length + 1)
        rintro ⟨-, h⟩
        exact absurd h (by decide)
      · rw [hlines]
        rfl
  | case3 a b text hab ih =>
      obtain ⟨rfl, rfl⟩ := hab
      have htext' : 0 ∉ text := fun h => htext (by simp [h])
      have hmem₁ : headers.toList = done ++ line ++ 0x0d :: 0x0a :: (text ++ 0 :: rest) := hmem
      obtain ⟨headers', hset, hstep⟩ := headerLoop_crlf hmem₁
      have hmem' : headers'.toList = done ++ line ++ [0, 0x0a] ++ [] ++ (text ++ 0 :: rest) := by
        rw [hset]
        simp
      obtain ⟨headers₂, headerLine, chunk₂, hloop, hlines⟩ := ih hmem' (by simp) htext'
        (chunk ++ [cString (headers'.toList.drop done.length)])
      refine ⟨headers₂, headerLine, chunk₂, ?_, ?_⟩
      · rw [← hloop, List.append_nil]
        exact hstep done.length chunk (text ++ 0 :: rest).length
      · have hread : (cString (headers'.toList.drop done.length)).bytes = line := by
          rw [hset]
          exact cString_line hline _
        obtain ⟨p, ps, hcut⟩ := exists_cut_eq_cons (x := (0x0d : UInt8)) (y := 0x0a) text
        rw [hlines, cut_pair, hcut, List.map_append, List.map_singleton, hread]
        simp
  | case4 a b text hab ih =>
      have ha : a ≠ 0 := fun h => htext (by simp [h])
      have htext' : 0 ∉ b :: text := fun h => htext (List.mem_cons_of_mem a h)
      have hmem' : headers.toList = done ++ (line ++ [a]) ++ (b :: text ++ 0 :: rest) := by
        rw [hmem]
        simp
      have hline' : 0 ∉ line ++ [a] := by simp [hline, ha.symm]
      obtain ⟨headers', headerLine, chunk', hloop, hlines⟩ := ih hmem' hline' htext' chunk
      refine ⟨headers', headerLine, chunk', ?_, ?_⟩
      · rw [← hloop, ← List.append_assoc]
        have hmem₁ : headers.toList = done ++ line ++ a :: b :: (text ++ 0 :: rest) := hmem
        exact headerLoop_char hmem₁ ha hab _ _ _
      · obtain ⟨p, ps, hcut⟩ := exists_cut_eq_cons (x := (0x0d : UInt8)) (y := 0x0a) (b :: text)
        rw [hlines, cut, if_neg hab, hcut]
        simp

/-- The lines of a text in its array are its pieces. -/
theorem headerLines_text {n : Nat} {headers : Vector UInt8 n} {text rest : List UInt8}
    (hmem : headers.toList = text ++ 0 :: rest) (htext : 0 ∉ text) :
    ∃ lines, headerLines headers = .ok lines ∧ lines.map CStr.bytes = cut 0x0d 0x0a text := by
  have hmem₁ : headers.toList = [] ++ [] ++ (text ++ 0 :: rest) := hmem
  obtain ⟨headers', headerLine, chunk, hloop, hlines⟩ := headerLoop_text hmem₁ (by simp) htext []
  have hlength : (text ++ 0 :: rest).length = n := by rw [← hmem, headers.length_toList]
  rw [hlength] at hloop
  refine ⟨chunk ++ [cString (headers'.toList.drop headerLine)], ?_, ?_⟩
  · show headerLoop headers 0 0 [] n >>= _ = _
    rw [show headerLoop headers 0 0 [] n = .ok (headers', headerLine, chunk) from hloop]
    rfl
  · rw [hlines]
    obtain ⟨p, ps, hcut⟩ := exists_cut_eq_cons (x := (0x0d : UInt8)) (y := 0x0a) text
    rw [hcut]
    simp

/-! ## The requests of the provider -/

/-- What is asked of a node, with what the answer is written to.  An account's record has three
bytes of padding behind `public_key`; a post has a pointer to its body, and the bytes there. -/
inductive Asked (β : Type) where
  | ping
  | applicationInfoGet (appId : UInt64) (states : AppValues)
  | accountInfoGet (account : AccountDetails) (padding : Vector UInt8 3)
  | txParamsLoad (tx : Transaction)
  | txPost (buf : β) (binPayload : List UInt8) (txId : Vector UInt8 transactionHashStrMaxLength)
  | versionGet (version : ProviderVersion)

/-- `%llu`. -/
def decimal (n : UInt64) : List UInt8 := (Nat.toDigits 10 n.toNat).map fun c => .ofNat c.toNat

/-- `sprintf`, into `relative_path`. -/
def sprintfPath (path : List UInt8) : Except Fault (List UInt8) :=
  if path.length < 128 then return path else throw .outOfBounds

/-- What `%s` prints of `public_b32`.  Where that is not terminated, the key and the padding
are printed as well; if they hold no zero either, the path is too long for its array. -/
def printedAddress (info : AccountInfo) (padding : Vector UInt8 3) : CStr :=
  cString (info.publicB32.toList ++ info.publicKey.toList ++ padding.toList)

namespace Asked

def path : Asked β → List UInt8
  | .ping => lit "/health"
  | .applicationInfoGet appId _ => lit "/v2/applications/" ++ decimal appId
  | .accountInfoGet account padding =>
      lit "/v2/accounts/" ++ (printedAddress account.info padding).bytes ++ lit "?format=msgpack"
  | .txParamsLoad _ => lit "/v2/transactions/params"
  | .txPost _ _ _ => lit "/v2/transactions"
  | .versionGet _ => lit "/versions"

/-- Two of the paths are written to an array, the others are literals. -/
def relativePath (asked : Asked β) : Except Fault (List UInt8) :=
  match asked with
  | .applicationInfoGet _ _ | .accountInfoGet _ _ => sprintfPath asked.path
  | .ping | .txParamsLoad _ | .txPost _ _ _ | .versionGet _ => return asked.path

theorem relativePath_unterminated {account : AccountDetails} {padding : Vector UInt8 3}
    (h : 0 ∉ account.info.publicB32.toList ++ account.info.publicKey.toList ++ padding.toList) :
    (accountInfoGet account padding : Asked β).relativePath = .error .outOfBounds := by
  have hall : (printedAddress account.info padding).bytes =
      account.info.publicB32.toList ++ account.info.publicKey.toList ++ padding.toList :=
    bytes_cString h
  have hlit : (lit "/v2/accounts/").length = 13 := by decide
  have hformat : (lit "?format=msgpack").length = 15 := by decide
  refine if_neg ?_
  rw [path, hall]
  simp only [List.length_append, Vector.length_toList, hlit, hformat, publicB32StrMaxLength,
    addressLength]
  omega

/-- The function that asks, with the answer it gets. -/
def request (reply : HttpReply) : Asked β → Request
  | .ping => .ping reply
  | .applicationInfoGet _ states => .applicationInfoGet reply states
  | .accountInfoGet account _ => .accountInfoGet reply account
  | .txParamsLoad tx => .txParamsLoad reply tx
  | .txPost _ binPayload txId => .txPost reply binPayload txId
  | .versionGet version => .versionGet reply version

end Asked

/-- The provider with its address, and `m_curl`.  What has been sent is kept. -/
structure Client (β : Type) where
  provider : Provider
  url : Option CStr
  mCurl : Option (List (Setopt β))
  sent : List (Transfer β)

/-- As the program starts. -/
def Client.zero : Client β where
  provider := .zero
  url := none
  mCurl := none
  sent := []

/-- The HTTP call of a request. -/
def Client.http (curl : CurlEasyPerform β) (client : Client β) (asked : Asked β)
    (reply : CurlReply) :
    Except Fault (HttpReply × Option (Transfer β) × Option (List (Setopt β))) := do
  let relativePath ← asked.relativePath
  match asked with
  | .txPost buf binPayload _ =>
      let text ← postHeader client.provider.header
      let header ← memcpy (Vector.replicate 256 0) 0 text
      httpPost curl client.mCurl client.url relativePath header buf binPayload.length reply
  | .ping | .applicationInfoGet _ _ | .accountInfoGet _ _ | .txParamsLoad _ | .versionGet _ =>
      httpGet curl client.mCurl client.url relativePath client.provider.header reply

/-- `provider_init` with the address, or a request with what comes of its transfer. -/
inductive ClientCall (β : Type) where
  | init (url : CStr) (port : UInt16) (header : Option CStr) (easyInit : Bool)
  | ask (asked : Asked β) (reply : CurlReply)

/-- The client after the call. -/
def ClientCall.run (curl : CurlEasyPerform β) (cJSON_Parse : CJsonParse) (R : MpackReader)
    (client : Client β) : ClientCall β → Except Fault (Client β)
  | .init url port header easyInit =>
      return { client with
        provider := providerInit client.provider header
        url := some url
        mCurl := (httpInit port easyInit).2 }
  | .ask asked reply => do
      let (answer, transfer, mCurl) ← client.http curl asked reply
      let provider ← (asked.request answer).run cJSON_Parse R client.provider
      return { client with
        provider := provider
        mCurl := mCurl
        sent := client.sent ++ transfer.toList }

/-- One call that returns. -/
def ClientStep (curl : CurlEasyPerform β) (cJSON_Parse : CJsonParse) (R : MpackReader)
    (client : Client β) (call : ClientCall β) (client' : Client β) : Prop :=
  call.run curl cJSON_Parse R client = .ok client'

end Vertices
