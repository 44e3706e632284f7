/-
# `Vertices.Provider` — `src/algorand/algorand_provider.c`

One exchange with the node is an `HttpReply`: the chunks handed to the response
callback, what `http_get`/`http_post` returns, and the response code it leaves
behind.  A theorem about every reply is a theorem about every behaviour of the HTTP
client and of the node.

The receive buffer outlives the call.  An answer without a body leaves the previous
one in place, and it is parsed again.
-/
import Vertices.CJson
import Vertices.Base64

namespace Vertices

/-- `provider_version_t`. -/
structure ProviderVersion where
  updateCount : UInt32
  network : Vector UInt8 64
  genesisHash : Vector UInt8 blockHashLength
  major : UInt32
  minor : UInt32
  patch : UInt32
  deriving DecidableEq

/-- All bytes zero. -/
def ProviderVersion.zero : ProviderVersion where
  updateCount := 0
  network := Vector.replicate _ 0
  genesisHash := Vector.replicate _ 0
  major := 0
  minor := 0
  patch := 0

/-- `m_provider` and `rx_buf`, with the statics of `provider_tx_params_load`.  Of the
provider's address only the header is used outside the HTTP client. -/
structure Provider where
  header : Option CStr
  version : ProviderVersion
  rxBuf : Vector UInt8 httpMaximumContentLength
  responseSize : Nat
  mMinFee : UInt64
  mFirstValid : UInt64
  deriving DecidableEq

/-- As the program starts: `m_provider = {0}`, and the other statics zero. -/
def Provider.zero : Provider where
  header := none
  version := .zero
  rxBuf := Vector.replicate _ 0
  responseSize := 0
  mMinFee := 0
  mFirstValid := 0

/-- What the HTTP client does in one call. -/
structure HttpReply where
  chunks : List (List UInt8)
  err : RetCode
  responseCode : UInt32

/-- `response_payload_callback`.  The check on the size of the chunk is a `VTC_ASSERT`. -/
def responsePayloadCallback (p : Provider) (chunk : List UInt8) : Except Fault Provider := do
  let rxBuf ← memcpy p.rxBuf p.responseSize (chunk ++ [0])
  return { p with rxBuf := rxBuf, responseSize := p.responseSize + chunk.length }

/-- The receiving side of one exchange, the buffer taken as empty before it. -/
def httpReceive (p : Provider) (reply : HttpReply) : Except Fault Provider :=
  reply.chunks.foldlM responsePayloadCallback { p with responseSize := 0 }

/-- What `cJSON_Parse(rx_buf)` is given. -/
def Provider.rxString (p : Provider) : CStr := cString p.rxBuf.toList

/-- `provider_init`: the version is forgotten, the statics of
`provider_tx_params_load` are not. -/
def providerInit (p : Provider) (header : Option CStr) : Provider :=
  { p with header := header, version := .zero, responseSize := 0 }

/-! ## Transaction parameters -/

/-- The genesis hash of `provider_tx_params_load`: from the answer, unless
`provider_version_get` has run before. -/
def loadGenesisHash (version : ProviderVersion) (json : CJson)
    (genesisHash : Vector UInt8 blockHashLength) :
    Except Fault (RetCode × Vector UInt8 blockHashLength) :=
  if version.updateCount = 0 then
    match json.stringItem "genesis_hash_b64" with
    | some s => do
        let (err, out, _) := b64Decode s s.strlen blockHashLength
        let genesisHash ← memcpy genesisHash 0 out
        return (err, genesisHash)
    | none => return (.success, genesisHash)
  else return (.success, version.genesisHash)

/-- `min-fee`, into the transaction and the local copy. -/
def loadMinFee (json : CJson) (tx : Transaction) (p : Provider) : Transaction × Provider :=
  match json.numberItem "min-fee" with
  | some fee => ({ tx with fee := intToUInt64 fee }, { p with mMinFee := intToUInt64 fee })
  | none => (tx, p)

/-- `last-round`, into the transaction and the local copy. -/
def loadLastRound (json : CJson) (tx : Transaction) (p : Provider) : Transaction × Provider :=
  match json.numberItem "last-round" with
  | some lastRound =>
      let firstValid := intToUInt64 lastRound + 1
      ({ tx with details := { tx.details with
          firstValid := firstValid, lastValid := firstValid + 1000 } },
        { p with mFirstValid := firstValid })
  | none => (tx, p)

/-- `provider_tx_params_load`. -/
def providerTxParamsLoad (cJSON_Parse : CJsonParse) (p : Provider) (reply : HttpReply)
    (tx : Transaction) : Except Fault (RetCode × Transaction × Provider) := do
  let p ← httpReceive p reply
  if reply.err = .success then
    match cJSON_Parse p.rxString with
    | none => return (.errorInternal, tx, p)
    | some json =>
        let (err, genesisHash) ← loadGenesisHash p.version json tx.genesisHash
        let (tx, p) := loadMinFee json { tx with genesisHash := genesisHash } p
        let (tx, p) := loadLastRound json tx p
        return (err, tx, p)
  else if p.mFirstValid ≠ 0 ∧ p.mMinFee ≠ 0 ∧ p.version.updateCount ≠ 0 then
    -- use previously fetched data
    let details := { tx.details with
      firstValid := p.mFirstValid, lastValid := p.mFirstValid + 1000 }
    return (.errorOffline,
      { tx with fee := p.mMinFee, details := details, genesisHash := p.version.genesisHash }, p)
  else return (reply.err, tx, p)

/-! ## The version -/

/-- `genesis_id`, into the network's name. -/
def readNetwork (json : CJson) (version : ProviderVersion) :
    Except Fault (RetCode × ProviderVersion) :=
  match json.stringItem "genesis_id" with
  | none => return (.success, version)
  | some s =>
      if 64 ≤ s.strlen then return (.errorNoMem, version)
      else do
        let network ← memcpy version.network 0 (s.bytes ++ [0])
        return (.success, { version with network := network })

/-- `genesis_hash_b64`, into the hash. -/
def readGenesisHash (json : CJson) (version : ProviderVersion) :
    Except Fault (RetCode × ProviderVersion) :=
  match json.stringItem "genesis_hash_b64" with
  | none => return (.success, version)
  | some s => do
      let (err, out, _) := b64Decode s s.strlen blockHashLength
      let genesisHash ← memcpy version.genesisHash 0 out
      return (err, { version with genesisHash := genesisHash })

/-- `build`: the three numbers, each where there is one. -/
def readBuild (json : CJson) (version : ProviderVersion) : ProviderVersion :=
  let number (name : String) : Option UInt32 :=
    ((json.getObjectItemCaseSensitive "build").bind fun build => build.numberItem name).map intToUInt32
  { version with
    major := (number "major").getD version.major
    minor := (number "minor").getD version.minor
    patch := (number "patch").getD version.patch }

/-- The end of `provider_version_get`: the version is copied to the caller's, all of it but
the count, which is increased here. -/
def copyVersion (err : RetCode) (p : Provider) (version : ProviderVersion) :
    Except Fault (RetCode × ProviderVersion × Provider) := do
  let network ← memcpy version.network 0 ((cString p.version.network.toList).bytes ++ [0])
  return (err, { p.version with updateCount := version.updateCount, network := network },
    { p with version := { p.version with updateCount := p.version.updateCount + 1 } })

/-- `provider_version_get`: its code, the caller's version and the provider. -/
def providerVersionGet (cJSON_Parse : CJsonParse) (p : Provider) (reply : HttpReply)
    (version : ProviderVersion) : Except Fault (RetCode × ProviderVersion × Provider) := do
  let p ← httpReceive p reply
  if reply.err = .success then
    match cJSON_Parse p.rxString with
    | none => return (.errorInternal, .zero, p)
    | some json =>
        let (err, held) ← readNetwork json p.version
        if err ≠ .success then return (err, .zero, { p with version := held })
        else
          let (err, held) ← readGenesisHash json held
          if err ≠ .success then return (err, .zero, { p with version := held })
          else copyVersion .success { p with version := readBuild json held } .zero
  else if p.version.major ≠ 0 ∧ p.version.minor ≠ 0 ∧ p.version.patch ≠ 0 then
    copyVersion .errorOffline p version
  else copyVersion reply.err p version

/-- What `provider_tx_params_load` leaves alone of a transaction. -/
def Transaction.SameRequest (tx tx' : Transaction) : Prop :=
  tx'.senderPub = tx.senderPub ∧ tx'.details.note = tx.details.note ∧
    tx'.details.tx = tx.details.tx

theorem loadMinFee_sameRequest (json : CJson) (tx : Transaction) (p : Provider) :
    tx.SameRequest (loadMinFee json tx p).1 := by
  unfold loadMinFee
  split <;> exact ⟨rfl, rfl, rfl⟩

theorem loadLastRound_sameRequest (json : CJson) (tx : Transaction) (p : Provider) :
    tx.SameRequest (loadLastRound json tx p).1 := by
  unfold loadLastRound
  split <;> exact ⟨rfl, rfl, rfl⟩

theorem Transaction.SameRequest.trans {tx₁ tx₂ tx₃ : Transaction} (h : tx₁.SameRequest tx₂)
    (h' : tx₂.SameRequest tx₃) : tx₁.SameRequest tx₃ :=
  ⟨h'.1.trans h.1, h'.2.1.trans h.2.1, h'.2.2.trans h.2.2⟩

theorem providerTxParamsLoad_sameRequest {cJSON_Parse : CJsonParse} {p p' : Provider}
    {reply : HttpReply} {tx tx' : Transaction} {err : RetCode}
    (h : providerTxParamsLoad cJSON_Parse p reply tx = .ok (err, tx', p')) :
    tx.SameRequest tx' := by
  obtain ⟨p₁, -, h⟩ := bind_eq_ok.mp h
  split at h
  · split at h
    · obtain ⟨-, rfl, -⟩ := pure_eq_ok3.mp h
      exact ⟨rfl, rfl, rfl⟩
    · next json _ =>
        obtain ⟨⟨err, genesisHash⟩, -, h⟩ := bind_eq_ok.mp h
        obtain ⟨-, rfl, -⟩ := pure_eq_ok3.mp h
        have h₁ : tx.SameRequest { tx with genesisHash := genesisHash } := ⟨rfl, rfl, rfl⟩
        exact (h₁.trans (loadMinFee_sameRequest json _ p₁)).trans (loadLastRound_sameRequest json _ _)
  · split at h
    · obtain ⟨-, rfl, -⟩ := pure_eq_ok3.mp h
      exact ⟨rfl, rfl, rfl⟩
    · obtain ⟨-, rfl, -⟩ := pure_eq_ok3.mp h
      exact ⟨rfl, rfl, rfl⟩

/-! ## Posting -/

/-- The headers of a post: the provider's own, when it has any, then the content
type, written to an array of 256 characters. -/
def postHeader (header : Option CStr) : Except Fault (List UInt8) :=
  let contentType := lit "Content-Type: application/x-binary"
  match header with
  | none => return contentType
  | some h =>
      if h.strlen = 0 then return contentType
      else if h.strlen + 2 + contentType.length < 256 then
        return h.bytes ++ [0x0d, 0x0a] ++ contentType
      else throw .outOfBounds

/-- `response_code >= 300` overrides what `http_post` returned. -/
def postStatus (reply : HttpReply) : RetCode :=
  if 300 ≤ reply.responseCode then .ofUInt32 (vtcErrorHttpBase + reply.responseCode)
  else reply.err

/-- The part of `provider_tx_post` that reads the answer. -/
def readTxId (cJSON_Parse : CJsonParse) (answer : CStr)
    (txId : Vector UInt8 transactionHashStrMaxLength) :
    Except Fault (RetCode × Vector UInt8 transactionHashStrMaxLength) :=
  match cJSON_Parse answer with
  | none => return (.errorInternal, txId)
  | some json =>
      match json.stringItem "txId" with
      | none => return (.success, txId)
      | some s =>
          if transactionHashStrMaxLength ≤ s.strlen then return (.errorNoMem, txId)
          else do
            let txId ← memcpy txId 0 (s.bytes ++ [0])
            return (.success, txId)

/-- What `http_post` was called with. -/
structure HttpPost where
  header : List UInt8
  body : List UInt8
  deriving DecidableEq

/-- `provider_tx_post`, with the request it makes. -/
def providerTxPost (cJSON_Parse : CJsonParse) (p : Provider) (reply : HttpReply)
    (binPayload : List UInt8) (txId : Vector UInt8 transactionHashStrMaxLength) :
    Except Fault (HttpPost × RetCode × Vector UInt8 transactionHashStrMaxLength × Provider) := do
  let header ← postHeader p.header
  let p ← httpReceive p reply
  if postStatus reply = .success then
    let (err, txId) ← readTxId cJSON_Parse p.rxString txId
    return (⟨header, binPayload⟩, err, txId, p)
  else return (⟨header, binPayload⟩, postStatus reply, txId, p)

/-! ## What an answer leaves in the buffer -/

/-- The text of an answer. -/
def HttpReply.text (reply : HttpReply) : CStr := cString reply.chunks.flatten

theorem foldlM_receive {chunks : List (List UInt8)} :
    ∀ {p p' : Provider} {body rest : List UInt8}, p.rxBuf.toList = body ++ rest →
      p.responseSize = body.length → chunks.foldlM responsePayloadCallback p = .ok p' →
      ∃ rest', p'.rxBuf.toList = body ++ chunks.flatten ++ rest' ∧
        (chunks ≠ [] ∨ rest.head? = some 0 → rest'.head? = some 0) := by
  induction chunks with
  | nil =>
      intro p p' body rest hbuf _ h
      cases pure_eq_ok.mp h
      refine ⟨rest, ?_, fun hrest => hrest.resolve_left (not_not.mpr rfl)⟩
      rw [List.flatten_nil, List.append_nil]
      exact hbuf
  | cons chunk chunks ih =>
      intro p p' body rest hbuf hsize h
      rw [List.foldlM_cons] at h
      obtain ⟨p₁, hstep, h⟩ := bind_eq_ok.mp h
      obtain ⟨rxBuf, hcopy, hstep⟩ := bind_eq_ok.mp hstep
      cases pure_eq_ok.mp hstep
      obtain ⟨hfits, rfl⟩ := memcpy_eq_ok.mp hcopy
      have hbuf₁ : (splice p.rxBuf p.responseSize (chunk ++ [0]) hfits).toList =
          (body ++ chunk) ++ 0 :: p.rxBuf.toList.drop (p.responseSize + (chunk ++ [0]).length) := by
        rw [toList_splice, hbuf, hsize, List.take_left]
        simp only [List.append_assoc, List.cons_append, List.nil_append]
      have hsize₁ : p.responseSize + chunk.length = (body ++ chunk).length := by
        rw [hsize, List.length_append]
      obtain ⟨rest', hbuf', hend⟩ := ih hbuf₁ hsize₁ h
      refine ⟨rest', ?_, fun _ => hend (.inr rfl)⟩
      rw [hbuf', List.flatten_cons, List.append_assoc body]

/-- An answer with a body is what the parser is given. -/
theorem rxString_receive {p p' : Provider} {reply : HttpReply} (hbody : reply.chunks ≠ [])
    (h : httpReceive p reply = .ok p') : p'.rxString = reply.text := by
  have hempty : ({ p with responseSize := 0 } : Provider).rxBuf.toList = [] ++ p.rxBuf.toList := rfl
  obtain ⟨rest, hbuf, hend⟩ := foldlM_receive hempty rfl h
  have hzero : rest.head? = some 0 := hend (.inl hbody)
  apply CStr.ext
  show List.takeWhile _ p'.rxBuf.toList = List.takeWhile _ reply.chunks.flatten
  rw [hbuf, List.nil_append]
  cases rest with
  | nil => cases hzero
  | cons c rest =>
      cases hzero
      rw [List.takeWhile_append]
      split
      · next hall =>
          rw [List.takeWhile_cons, if_neg (by decide), List.append_nil]
          exact ((List.takeWhile_prefix _).eq_of_length hall).symm
      · rfl

/-- The JSON of an answer, where there is any. -/
def HttpReply.json (cJSON_Parse : CJsonParse) (reply : HttpReply) : Option CJson :=
  if reply.err = .success then cJSON_Parse reply.text else none

/-! ## The answers of a network -/

/-- The genesis hash of a network, and its 32 bytes. -/
def networkHashText : CStr := cString (lit "wGHE2Pwdvd7S12BL5FaOP20EGYesN73ktiC1qzkkit8=")

def networkHash : Vector UInt8 blockHashLength := #v[
  0xc0, 0x61, 0xc4, 0xd8, 0xfc, 0x1d, 0xbd, 0xde, 0xd2, 0xd7, 0x60, 0x4b, 0xe4, 0x56, 0x8e, 0x3f,
  0x6d, 0x04, 0x19, 0x87, 0xac, 0x37, 0xbd, 0xe4, 0xb6, 0x20, 0xb5, 0xab, 0x39, 0x24, 0x8a, 0xdf]

def versionsText : List UInt8 :=
  lit "\x7b\"genesis_hash_b64\":\"wGHE2Pwdvd7S12BL5FaOP20EGYesN73ktiC1qzkkit8=\"\x7d"

def paramsText : List UInt8 :=
  lit "\x7b\"genesis_hash_b64\":\"wGHE2Pwdvd7S12BL5FaOP20EGYesN73ktiC1qzkkit8=\",\"last-round\":5,\"min-fee\":1000\x7d"

def versionsJson : CJson := .object [(cString (lit "genesis_hash_b64"), .string networkHashText)]

def paramsJson : CJson :=
  .object [(cString (lit "genesis_hash_b64"), .string networkHashText),
    (cString (lit "last-round"), .number (Rat.ofInt (5 : Nat))),
    (cString (lit "min-fee"), .number (Rat.ofInt (1000 : Nat)))]

/-- The identifier of a transaction, as it is answered to a post. -/
def txIdText : List UInt8 := lit "\x7b\"txId\":\"7Q\"\x7d"

def txIdJson : CJson := .object [(cString (lit "txId"), .string (cString (lit "7Q")))]

/-- cJSON on these three texts, and on those that are no JSON. -/
def parseAnswers : CJsonParse := fun s =>
  if s.bytes = versionsText then some versionsJson
  else if s.bytes = paramsText then some paramsJson
  else if s.bytes = txIdText then some txIdJson
  else none

def versionsReply : HttpReply := ⟨[versionsText], .success, 200⟩

def paramsReply : HttpReply := ⟨[paramsText], .success, 200⟩

def txIdReply : HttpReply := ⟨[txIdText], .success, 200⟩

/-- What the answers hold. -/
structure NetworkAnswers : Prop where
  versions : versionsReply.text.bytes = versionsText
  params : paramsReply.text.bytes = paramsText
  txId : txIdReply.text.bytes = txIdText
  other : paramsText ≠ versionsText ∧ txIdText ≠ versionsText ∧ txIdText ≠ paramsText
  versionsHash : versionsJson.stringItem "genesis_hash_b64" = some networkHashText
  paramsHash : paramsJson.stringItem "genesis_hash_b64" = some networkHashText
  decoded : b64Decode networkHashText networkHashText.strlen blockHashLength =
    (.success, networkHash.toList, blockHashLength)

theorem networkAnswers : NetworkAnswers := by
  constructor <;> decide +kernel

theorem parse_versions : parseAnswers versionsReply.text = some versionsJson :=
  if_pos networkAnswers.versions

theorem json_params : paramsReply.json parseAnswers = some paramsJson := by
  have hother : paramsReply.text.bytes ≠ versionsText := by
    rw [networkAnswers.params]
    exact networkAnswers.other.1
  show parseAnswers paramsReply.text = some paramsJson
  exact (if_neg hother).trans (if_pos networkAnswers.params)

theorem parse_txId : parseAnswers txIdReply.text = some txIdJson := by
  obtain ⟨-, hversions, hparams⟩ := networkAnswers.other
  simp only [parseAnswers, networkAnswers.txId, if_neg hversions, if_neg hparams, if_true]

/-- An answer with parameters is loaded with success, if it can be received. -/
theorem providerTxParamsLoad_params {p p' : Provider} {tx tx' : Transaction} {err : RetCode}
    (h : providerTxParamsLoad parseAnswers p paramsReply tx = .ok (err, tx', p')) :
    err = .success := by
  obtain ⟨p₁, hp, h⟩ := bind_eq_ok.mp h
  have hjson : parseAnswers p₁.rxString = some paramsJson := by
    rw [rxString_receive (List.cons_ne_nil _ _) hp]
    exact json_params
  rw [if_pos (show paramsReply.err = .success from rfl), hjson] at h
  obtain ⟨⟨err', genesisHash⟩, hgenesis, h⟩ := bind_eq_ok.mp h
  obtain ⟨rfl, -, -⟩ := pure_eq_ok3.mp h
  rw [loadGenesisHash, networkAnswers.paramsHash] at hgenesis
  split at hgenesis
  · simp only [networkAnswers.decoded] at hgenesis
    obtain ⟨_, -, hgenesis⟩ := bind_eq_ok.mp hgenesis
    exact (pure_eq_ok2.mp hgenesis).1.symm
  · exact (pure_eq_ok2.mp hgenesis).1.symm

end Vertices
