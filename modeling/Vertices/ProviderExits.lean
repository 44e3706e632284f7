/-
# `Vertices.ProviderExits` — how the provider's functions end

`provider_version_get` and `provider_tx_params_load` have several exits each, and what is
returned and what stays behind depends on the exit.

    `httpReceive_leaves`     an answer that is received changes the buffer only
    `versionGet_outcome`     the five exits of a version request
    `txParamsLoad_outcome`   the four of a load
-/
import Vertices.Provider

namespace Vertices

/-! ## An answer -/

/-- An answer that is received changes nothing but the buffer and its size. -/
theorem httpReceive_leaves {α : Type} {f : Provider → α}
    (hf : ∀ p rxBuf size, f { p with rxBuf := rxBuf, responseSize := size } = f p)
    {p p' : Provider} {reply : HttpReply} (h : httpReceive p reply = .ok p') : f p' = f p := by
  have hchunks : ∀ {chunks : List (List UInt8)} {p p' : Provider},
      chunks.foldlM responsePayloadCallback p = .ok p' → f p' = f p := by
    intro chunks
    induction chunks with
    | nil =>
        intro p p' h
        cases pure_eq_ok.mp h
        rfl
    | cons chunk chunks ih =>
        intro p p' h
        rw [List.foldlM_cons] at h
        obtain ⟨p₁, hstep, h⟩ := bind_eq_ok.mp h
        obtain ⟨rxBuf, -, hstep⟩ := bind_eq_ok.mp hstep
        cases pure_eq_ok.mp hstep
        exact (ih h).trans (hf p rxBuf _)
  exact (hchunks h).trans (hf p p.rxBuf 0)

theorem httpReceive_version {p p' : Provider} {reply : HttpReply} (h : httpReceive p reply = .ok p') :
    p'.version = p.version :=
  httpReceive_leaves (fun _ _ _ => rfl) h

theorem httpReceive_numbers {p p' : Provider} {reply : HttpReply} (h : httpReceive p reply = .ok p') :
    p'.version = p.version ∧ p'.mMinFee = p.mMinFee ∧ p'.mFirstValid = p.mFirstValid := by
  have hminFee := httpReceive_leaves (f := Provider.mMinFee) (fun _ _ _ => rfl) h
  have hfirstValid := httpReceive_leaves (f := Provider.mFirstValid) (fun _ _ _ => rfl) h
  exact ⟨httpReceive_version h, hminFee, hfirstValid⟩

/-! ## A version request -/

/-- The caller's copy of a version. -/
def CopiedTo (held version version' : ProviderVersion) : Prop :=
  ∃ network, memcpy version.network 0 ((cString held.network.toList).bytes ++ [0]) = .ok network ∧
    version' = { held with updateCount := version.updateCount, network := network }

/-- The version with one request more. -/
def ProviderVersion.counted (version : ProviderVersion) : ProviderVersion :=
  { version with updateCount := version.updateCount + 1 }

/-- None of the three numbers is zero. -/
def ProviderVersion.HasNumbers (version : ProviderVersion) : Prop :=
  version.major ≠ 0 ∧ version.minor ≠ 0 ∧ version.patch ≠ 0

instance (version : ProviderVersion) : Decidable version.HasNumbers :=
  inferInstanceAs (Decidable (_ ∧ _ ∧ _))

/-- What `provider_version_get` returns and leaves, once the answer is received. -/
inductive VersionOutcome (cJSON_Parse : CJsonParse) (p : Provider) (reply : HttpReply)
    (version : ProviderVersion) : RetCode → ProviderVersion → Provider → Prop
  | noJson (hreply : reply.err = .success) (hjson : cJSON_Parse p.rxString = none) :
      VersionOutcome cJSON_Parse p reply version .errorInternal .zero p
  | longName {json id} (hreply : reply.err = .success) (hjson : cJSON_Parse p.rxString = some json)
      (hid : json.stringItem "genesis_id" = some id) (hlong : 64 ≤ id.strlen) :
      VersionOutcome cJSON_Parse p reply version .errorNoMem .zero p
  | badHash {json held s} (hreply : reply.err = .success) (hjson : cJSON_Parse p.rxString = some json)
      (hnetwork : readNetwork json p.version = .ok (.success, held))
      (hs : json.stringItem "genesis_hash_b64" = some s)
      (hbad : (b64Decode s s.strlen blockHashLength).1 ≠ .success) :
      VersionOutcome cJSON_Parse p reply version (b64Decode s s.strlen blockHashLength).1 .zero
        { p with version := held }
  | taken {json held held' version'} (hreply : reply.err = .success)
      (hjson : cJSON_Parse p.rxString = some json)
      (hnetwork : readNetwork json p.version = .ok (.success, held))
      (hgenesis : readGenesisHash json held = .ok (.success, held'))
      (hcopy : CopiedTo (readBuild json held') .zero version') :
      VersionOutcome cJSON_Parse p reply version .success version'
        { p with version := (readBuild json held').counted }
  | failed {version'} (hreply : reply.err ≠ .success) (hcopy : CopiedTo p.version version version') :
      VersionOutcome cJSON_Parse p reply version
        (if p.version.HasNumbers then .errorOffline else reply.err) version'
        { p with version := p.version.counted }

/-- The string decodes to the 32 bytes. -/
def Decodes (s : CStr) (hash : Vector UInt8 blockHashLength) : Prop :=
  b64Decode s s.strlen blockHashLength = (.success, hash.toList, blockHashLength)

section

variable {cJSON_Parse : CJsonParse} {p p' : Provider} {reply : HttpReply}
  {version version' : ProviderVersion} {err : RetCode}

theorem b64Decode_failed {input : CStr} {inputLength outputSize : Nat}
    (h : (b64Decode input inputLength outputSize).1 ≠ .success) :
    (b64Decode input inputLength outputSize).2.1 = [] := by
  rw [b64Decode] at h ⊢
  split
  · rfl
  · next hpos =>
      split
      · rfl
      · next hfits =>
          rw [if_neg hpos, if_neg hfits] at h
          exact absurd rfl h

theorem readNetwork_ok {json : CJson} (h : readNetwork json version = .ok (err, version')) :
    version'.genesisHash = version.genesisHash ∧ version'.updateCount = version.updateCount ∧
      (err = .success → ∀ id, json.stringItem "genesis_id" = some id → id.strlen < 64) := by
  rw [readNetwork.eq_def] at h
  split at h
  · next hnone =>
      obtain ⟨-, rfl⟩ := pure_eq_ok2.mp h
      refine ⟨rfl, rfl, ?_⟩
      intro _ id hid
      cases hnone.symm.trans hid
  · next s hsome =>
      split at h
      · obtain ⟨rfl, rfl⟩ := pure_eq_ok2.mp h
        exact ⟨rfl, rfl, RetCode.noConfusion⟩
      · next hshort =>
          obtain ⟨network, -, h⟩ := bind_eq_ok.mp h
          obtain ⟨-, rfl⟩ := pure_eq_ok2.mp h
          refine ⟨rfl, rfl, ?_⟩
          intro _ id hid
          cases hsome.symm.trans hid
          exact Nat.lt_of_not_le hshort

/-- What `provider_version_get` does to the hash. -/
theorem readGenesisHash_ok {json : CJson}
    (h : readGenesisHash json version = .ok (err, version')) :
    version'.updateCount = version.updateCount ∧
      (err ≠ .success → version'.genesisHash = version.genesisHash) ∧
      (json.stringItem "genesis_hash_b64" = none → version'.genesisHash = version.genesisHash) ∧
      ∀ s, json.stringItem "genesis_hash_b64" = some s →
        err = (b64Decode s s.strlen blockHashLength).1 ∧
          ∀ hash, Decodes s hash → version'.genesisHash = hash := by
  rw [readGenesisHash.eq_def] at h
  split at h
  · next hnone =>
      obtain ⟨-, rfl⟩ := pure_eq_ok2.mp h
      refine ⟨rfl, fun _ => rfl, fun _ => rfl, ?_⟩
      intro s hs
      cases hnone.symm.trans hs
  · next s hsome =>
      generalize hdecode : b64Decode s s.strlen blockHashLength = decoded at h
      obtain ⟨code, out, size⟩ := decoded
      obtain ⟨genesisHash, hcopy, h⟩ := bind_eq_ok.mp h
      obtain ⟨rfl, rfl⟩ := pure_eq_ok2.mp h
      refine ⟨rfl, ?_, ?_, ?_⟩
      · intro herr
        have hnothing : out = [] := by
          have hfailed : (b64Decode s s.strlen blockHashLength).1 ≠ .success →
              (b64Decode s s.strlen blockHashLength).2.1 = [] := b64Decode_failed
          rw [hdecode] at hfailed
          exact hfailed herr
        rw [hnothing, memcpy_nil] at hcopy
        cases hcopy
        rfl
      · intro hnone
        cases hsome.symm.trans hnone
      · intro s' hs'
        cases hsome.symm.trans hs'
        refine ⟨by rw [hdecode], ?_⟩
        intro hash hdecodes
        obtain ⟨w, hw, hwhole⟩ := memcpy_whole version.genesisHash hash.length_toList
        cases hdecode.symm.trans hdecodes
        cases hw.symm.trans hcopy
        exact Vector.toList_inj.mp hwhole

/-- A hash that has been read is one that decodes. -/
theorem readGenesisHash_decoded {json : CJson} {s : CStr}
    (h : readGenesisHash json version = .ok (.success, version'))
    (hs : json.stringItem "genesis_hash_b64" = some s) :
    (b64Decode s s.strlen blockHashLength).1 = .success := by
  obtain ⟨-, -, -, hdecoded⟩ := readGenesisHash_ok h
  exact (hdecoded s hs).1.symm

theorem copyVersion_eq_ok {code : RetCode} :
    copyVersion code p version = .ok (err, version', p') ↔
      err = code ∧ CopiedTo p.version version version' ∧ p' = { p with version := p.version.counted } := by
  constructor
  · intro h
    obtain ⟨network, hcopy, h⟩ := bind_eq_ok.mp h
    obtain ⟨rfl, rfl, rfl⟩ := pure_eq_ok3.mp h
    exact ⟨rfl, ⟨network, hcopy, rfl⟩, rfl⟩
  · rintro ⟨rfl, ⟨network, hcopy, rfl⟩, rfl⟩
    exact bind_eq_ok.mpr ⟨network, hcopy, rfl⟩

/-- The code of a request that fails. -/
theorem failedCode_ne (hreply : reply.err ≠ .success) :
    (if version.HasNumbers then .errorOffline else reply.err) ≠ RetCode.success := by
  split
  · exact RetCode.noConfusion
  · exact hreply

/-- A name that is refused, or the version with the name that is read. -/
theorem readNetwork_cases {json : CJson} {held : ProviderVersion}
    (h : readNetwork json version = .ok (err, held)) :
    (err = .errorNoMem ∧ held = version ∧
        ∃ id, json.stringItem "genesis_id" = some id ∧ 64 ≤ id.strlen) ∨
      err = .success := by
  rw [readNetwork.eq_def] at h
  split at h
  · exact .inr (pure_eq_ok2.mp h).1.symm
  · next id hid =>
      split at h
      · next hlong =>
          obtain ⟨rfl, rfl⟩ := pure_eq_ok2.mp h
          exact .inl ⟨rfl, rfl, id, hid, hlong⟩
      · obtain ⟨network, -, h⟩ := bind_eq_ok.mp h
        exact .inr (pure_eq_ok2.mp h).1.symm

/-- A hash that is refused has not been written. -/
theorem readGenesisHash_refused {json : CJson} {held : ProviderVersion}
    (h : readGenesisHash json version = .ok (err, held)) (herr : err ≠ .success) :
    held = version ∧ ∃ s, json.stringItem "genesis_hash_b64" = some s ∧
      err = (b64Decode s s.strlen blockHashLength).1 := by
  have hkept := (readGenesisHash_ok h).2.1 herr
  rw [readGenesisHash.eq_def] at h
  split at h
  · exact absurd (pure_eq_ok2.mp h).1.symm herr
  · next s hs =>
      obtain ⟨genesisHash, -, h⟩ := bind_eq_ok.mp h
      obtain ⟨rfl, rfl⟩ := pure_eq_ok2.mp h
      have hkept : genesisHash = version.genesisHash := hkept
      refine ⟨?_, s, hs, rfl⟩
      rw [hkept]

/-- What is read of an answer is read in one way. -/
theorem read_unique {p₁ p₂ : Provider} {json json' : CJson} {held held' : ProviderVersion}
    (hrecv : httpReceive p reply = .ok p₁) (hjson : cJSON_Parse p₁.rxString = some json)
    (hnetwork : readNetwork json p₁.version = .ok (.success, held))
    (hrecv' : httpReceive p reply = .ok p₂) (hjson' : cJSON_Parse p₂.rxString = some json')
    (hnetwork' : readNetwork json' p.version = .ok (.success, held')) : json' = json ∧ held' = held := by
  cases hrecv.symm.trans hrecv'
  cases hjson.symm.trans hjson'
  rw [← httpReceive_version hrecv] at hnetwork'
  cases hnetwork.symm.trans hnetwork'
  exact ⟨rfl, rfl⟩

/-- One of the five. -/
theorem versionGet_outcome
    (h : providerVersionGet cJSON_Parse p reply version = .ok (err, version', p')) :
    ∃ p₁, httpReceive p reply = .ok p₁ ∧
      VersionOutcome cJSON_Parse p₁ reply version err version' p' := by
  obtain ⟨p₁, hrecv, h⟩ := bind_eq_ok.mp h
  refine ⟨p₁, hrecv, ?_⟩
  split at h
  · next hreply =>
      split at h
      · next hjson =>
          obtain ⟨rfl, rfl, rfl⟩ := pure_eq_ok3.mp h
          exact .noJson hreply hjson
      · next json hjson =>
          obtain ⟨⟨code, held⟩, hnetwork, h⟩ := bind_eq_ok.mp h
          rcases readNetwork_cases hnetwork with ⟨rfl, rfl, id, hid, hlong⟩ | rfl
          · obtain ⟨rfl, rfl, rfl⟩ := pure_eq_ok3.mp h
            exact .longName hreply hjson hid hlong
          · obtain ⟨⟨code', held'⟩, hgenesis, h⟩ := bind_eq_ok.mp h
            dsimp only at h
            split at h
            · next hbad =>
                obtain ⟨rfl, rfl, rfl⟩ := pure_eq_ok3.mp h
                obtain ⟨rfl, s, hs, rfl⟩ := readGenesisHash_refused hgenesis hbad
                exact .badHash hreply hjson hnetwork hs hbad
            · next hgood =>
                obtain rfl := not_not.mp hgood
                obtain ⟨rfl, hcopy, rfl⟩ := copyVersion_eq_ok.mp h
                exact .taken hreply hjson hnetwork hgenesis hcopy
  · next hreply =>
      have hcode : copyVersion (if p₁.version.HasNumbers then .errorOffline else reply.err) p₁ version =
          .ok (err, version', p') := by
        split at h
        · next hnumbers =>
            have hnumbers : p₁.version.HasNumbers := hnumbers
            rwa [if_pos hnumbers]
        · next hnumbers =>
            have hnumbers : ¬ p₁.version.HasNumbers := hnumbers
            rwa [if_neg hnumbers]
      obtain ⟨rfl, hcopy, rfl⟩ := copyVersion_eq_ok.mp hcode
      exact .failed hreply hcopy

end

/-! ## A load -/

/-- The fee of the answer, or else the old one. -/
def feeOr (json : CJson) (old : UInt64) : UInt64 := ((json.numberItem "min-fee").map intToUInt64).getD old

/-- The first round after the answer's last one, or else the old one. -/
def firstValidOr (json : CJson) (old : UInt64) : UInt64 :=
  ((json.numberItem "last-round").map fun lastRound => intToUInt64 lastRound + 1).getD old

/-- What `provider_tx_params_load` returns and leaves, once the answer is received. -/
inductive LoadOutcome (cJSON_Parse : CJsonParse) (p : Provider) (reply : HttpReply) (tx : Transaction) :
    RetCode → Transaction → Provider → Prop
  | noJson (hreply : reply.err = .success) (hjson : cJSON_Parse p.rxString = none) :
      LoadOutcome cJSON_Parse p reply tx .errorInternal tx p
  | read {json err hash tx' p'} (hreply : reply.err = .success) (hjson : cJSON_Parse p.rxString = some json)
      (hgenesis : loadGenesisHash p.version json tx.genesisHash = .ok (err, hash))
      (hhash : tx'.genesisHash = hash) (hfee : tx'.fee = feeOr json tx.fee)
      (hfirst : tx'.details.firstValid = firstValidOr json tx.details.firstValid)
      (hversion : p'.version = p.version) (hminFee : p'.mMinFee = feeOr json p.mMinFee)
      (hfirstValid : p'.mFirstValid = firstValidOr json p.mFirstValid) :
      LoadOutcome cJSON_Parse p reply tx err tx' p'
  | kept {tx'} (hreply : reply.err ≠ .success)
      (hkept : p.mFirstValid ≠ 0 ∧ p.mMinFee ≠ 0 ∧ p.version.updateCount ≠ 0)
      (hfee : tx'.fee = p.mMinFee) (hfirst : tx'.details.firstValid = p.mFirstValid)
      (hhash : tx'.genesisHash = p.version.genesisHash) :
      LoadOutcome cJSON_Parse p reply tx .errorOffline tx' p
  | nothing (hreply : reply.err ≠ .success)
      (hkept : ¬ (p.mFirstValid ≠ 0 ∧ p.mMinFee ≠ 0 ∧ p.version.updateCount ≠ 0)) :
      LoadOutcome cJSON_Parse p reply tx reply.err tx p

section

variable {cJSON_Parse : CJsonParse} {p p' : Provider} {reply : HttpReply} {tx tx' : Transaction}
  {err : RetCode}

theorem loadMinFee_eq (json : CJson) (tx : Transaction) (p : Provider) :
    loadMinFee json tx p =
      ({ tx with fee := feeOr json tx.fee }, { p with mMinFee := feeOr json p.mMinFee }) := by
  rw [loadMinFee, feeOr, feeOr]
  cases json.numberItem "min-fee" with
  | none => rfl
  | some fee => rfl

theorem loadLastRound_eq (json : CJson) (tx : Transaction) (p : Provider) :
    (loadLastRound json tx p).1.details.firstValid = firstValidOr json tx.details.firstValid ∧
      (loadLastRound json tx p).2 = { p with mFirstValid := firstValidOr json p.mFirstValid } := by
  rw [loadLastRound, firstValidOr, firstValidOr]
  cases json.numberItem "last-round" with
  | none => exact ⟨rfl, rfl⟩
  | some lastRound => exact ⟨rfl, rfl⟩

theorem loadLastRound_kept (json : CJson) (tx : Transaction) (p : Provider) :
    (loadLastRound json tx p).1.genesisHash = tx.genesisHash ∧
      (loadLastRound json tx p).1.fee = tx.fee := by
  rw [loadLastRound]
  split
  · exact ⟨rfl, rfl⟩
  · exact ⟨rfl, rfl⟩

/-- One of the four. -/
theorem txParamsLoad_outcome (h : providerTxParamsLoad cJSON_Parse p reply tx = .ok (err, tx', p')) :
    ∃ p₁, httpReceive p reply = .ok p₁ ∧ LoadOutcome cJSON_Parse p₁ reply tx err tx' p' := by
  obtain ⟨p₁, hrecv, h⟩ := bind_eq_ok.mp h
  refine ⟨p₁, hrecv, ?_⟩
  split at h
  · next hreply =>
      split at h
      · next hjson =>
          obtain ⟨rfl, rfl, rfl⟩ := pure_eq_ok3.mp h
          exact .noJson hreply hjson
      · next json hjson =>
          obtain ⟨⟨code, hash⟩, hgenesis, h⟩ := bind_eq_ok.mp h
          dsimp only at h
          rw [loadMinFee_eq] at h
          obtain ⟨hfirst, hkept⟩ := loadLastRound_eq json
            { tx with genesisHash := hash, fee := feeOr json tx.fee }
            { p₁ with mMinFee := feeOr json p₁.mMinFee }
          obtain ⟨hhash, hfee⟩ := loadLastRound_kept json
            { tx with genesisHash := hash, fee := feeOr json tx.fee }
            { p₁ with mMinFee := feeOr json p₁.mMinFee }
          obtain ⟨rfl, rfl, rfl⟩ := pure_eq_ok3.mp h
          dsimp only at hkept ⊢
          refine .read hreply hjson hgenesis hhash hfee hfirst ?_ ?_ ?_ <;> rw [hkept]
  · next hreply =>
      split at h
      · next hkept =>
          obtain ⟨rfl, rfl, rfl⟩ := pure_eq_ok3.mp h
          exact .kept hreply hkept rfl rfl rfl
      · next hkept =>
          obtain ⟨rfl, rfl, rfl⟩ := pure_eq_ok3.mp h
          exact .nothing hreply hkept

end

end Vertices
