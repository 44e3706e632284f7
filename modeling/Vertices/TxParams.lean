/-
# `Vertices.TxParams` — where the parameters of a transaction come from

The fee and the rounds are read from the answer at hand.  The genesis hash is read from it
only as long as no version has been asked for; later it is the one kept with the version,
and the count that says so goes up whether or not there is a hash.

A session remembers, beside the provider, every `genesis_hash_b64` that came with an
answer since `provider_init`.
-/
import Vertices.ProviderExits
import Vertices.Lib.Transition

namespace Vertices

open Transition

/-- The `genesis_hash_b64` of an answer. -/
def HttpReply.genesisHash (cJSON_Parse : CJsonParse) (reply : HttpReply) : Option CStr :=
  (reply.json cJSON_Parse).bind fun json => json.stringItem "genesis_hash_b64"

/-! ## Numbers -/

/-- The member is a whole number from 0 to `INT_MAX`. -/
def CJson.HasInt (json : CJson) (name : String) : Prop :=
  ∃ n : Nat, n ≤ 2147483647 ∧ json.doubleItem name = some (Rat.ofInt n)

theorem toValueint_ofInt (n : Nat) : (CJson.toValueint (Rat.ofInt n)).toInt = min n 2147483647 := by
  have hwhole : (Rat.ofInt n).num.tdiv (Rat.ofInt n).den = n := Int.tdiv_one _
  rw [CJson.toValueint, hwhole]
  split
  · next hlarge =>
      have hmax : Int32.maxValue.toInt = 2147483647 := rfl
      omega
  · next hsmall =>
      rw [if_neg (by omega), Int32.toInt_ofInt_of_le (by omega) (by omega)]
      omega

/-- Up to `INT_MAX` the number is what it is in the text, and from there on it stays the
same. -/
theorem toNat_toValueint (n : Nat) :
    (intToUInt64 (CJson.toValueint (Rat.ofInt n))).toNat = min n 2147483647 := by
  have hint := toValueint_ofInt n
  have hnonneg : 0 ≤ (CJson.toValueint (Rat.ofInt n)).toInt64 := by
    rw [Int64.le_iff_toInt_le, Int32.toInt_toInt64, hint]
    exact Int.natCast_nonneg _
  rw [intToUInt64, Int64.toNat_toUInt64_of_le hnonneg, ← Int64.toNat_toInt, Int32.toInt_toInt64, hint]
  rfl

/-! ## Sessions -/

/-- The provider, and the genesis hashes that answers carried since `provider_init`. -/
structure Session where
  provider : Provider
  carried : List CStr

/-- As the program starts. -/
def Session.start : Session := ⟨.zero, []⟩

/-- The functions of a session, with what they are called with. -/
inductive ProviderCall where
  | init (header : Option CStr)
  | versionGet (reply : HttpReply) (version : ProviderVersion)
  | txParamsLoad (reply : HttpReply) (tx : Transaction)

/-- One call that returns. -/
def ProviderStep (cJSON_Parse : CJsonParse) (t : Session) (call : ProviderCall) (t' : Session) :
    Prop :=
  match call with
  | .init header => t' = ⟨providerInit t.provider header, []⟩
  | .versionGet reply version =>
      t'.carried = t.carried ++ (reply.genesisHash cJSON_Parse).toList ∧
        ∃ err version',
          providerVersionGet cJSON_Parse t.provider reply version = .ok (err, version', t'.provider)
  | .txParamsLoad reply tx =>
      t'.carried = t.carried ++ (reply.genesisHash cJSON_Parse).toList ∧
        ∃ err tx', providerTxParamsLoad cJSON_Parse t.provider reply tx = .ok (err, tx', t'.provider)

/-- The hash kept with the version came with an answer. -/
def Session.HasHash (t : Session) : Prop := ∃ s ∈ t.carried, Decodes s t.provider.version.genesisHash

/-- The hash is there by the time the count says so. -/
def Session.Counted (t : Session) : Prop := t.provider.version.updateCount ≠ 0 → t.HasHash

/-- A version is asked for only if its hash is known already or comes whole with the
answer; where the answer is not taken, it does not matter. -/
def ProviderCall.KeepsHash (cJSON_Parse : CJsonParse) (t : Session) : ProviderCall → Prop
  | .versionGet reply _ =>
      if reply.err = .success then
        reply.chunks ≠ [] ∧ ∀ json, cJSON_Parse reply.text = some json →
          (∀ id, json.stringItem "genesis_id" = some id → id.strlen < 64) →
            match json.stringItem "genesis_hash_b64" with
            | some s => (b64Decode s s.strlen blockHashLength).1 = .success → ∃ hash, Decodes s hash
            | none => t.HasHash
      else t.HasHash
  | _ => True

/-! ## The hash -/

section

variable {cJSON_Parse : CJsonParse} {t t' : Session}

theorem txParamsLoad_version {p p' : Provider} {reply : HttpReply} {tx tx' : Transaction}
    {err : RetCode} (h : providerTxParamsLoad cJSON_Parse p reply tx = .ok (err, tx', p')) :
    p'.version = p.version := by
  obtain ⟨p₁, hrecv, houtcome⟩ := txParamsLoad_outcome h
  rw [← httpReceive_version hrecv]
  cases houtcome with
  | noJson => rfl
  | read _ _ _ _ _ _ hversion => exact hversion
  | kept => rfl
  | nothing => rfl

/-- `provider_version_get` returns early, with hash and count as they were; or it has kept
the hash; or it has taken one. -/
theorem versionGet_cases {p p' : Provider} {reply : HttpReply} {version version' : ProviderVersion}
    {err : RetCode} (h : providerVersionGet cJSON_Parse p reply version = .ok (err, version', p')) :
    (p'.version.genesisHash = p.version.genesisHash ∧
        p'.version.updateCount = p.version.updateCount) ∨
      (reply.err ≠ .success ∧ p'.version.genesisHash = p.version.genesisHash) ∨
      ∃ p₁ json, httpReceive p reply = .ok p₁ ∧ reply.err = .success ∧
        cJSON_Parse p₁.rxString = some json ∧
        (∀ id, json.stringItem "genesis_id" = some id → id.strlen < 64) ∧
        (json.stringItem "genesis_hash_b64" = none → p'.version.genesisHash = p.version.genesisHash) ∧
        ∀ s, json.stringItem "genesis_hash_b64" = some s →
          (b64Decode s s.strlen blockHashLength).1 = .success ∧
            ∀ hash, Decodes s hash → p'.version.genesisHash = hash := by
  obtain ⟨p₁, hrecv, houtcome⟩ := versionGet_outcome h
  rw [← httpReceive_version hrecv]
  cases houtcome with
  | noJson => exact .inl ⟨rfl, rfl⟩
  | longName => exact .inl ⟨rfl, rfl⟩
  | badHash _ _ hnetwork =>
      obtain ⟨hhash, hcount, -⟩ := readNetwork_ok hnetwork
      exact .inl ⟨hhash, hcount⟩
  | failed hfailed => exact .inr (.inl ⟨hfailed, rfl⟩)
  | taken hsuccess hjson hnetwork hgenesis =>
      obtain ⟨hhash, -, hshort⟩ := readNetwork_ok hnetwork
      obtain ⟨-, -, hnone, hsome⟩ := readGenesisHash_ok hgenesis
      refine .inr (.inr ⟨p₁, _, hrecv, hsuccess, hjson, hshort rfl, ?_, ?_⟩)
      · intro hitem
        exact (hnone hitem).trans hhash
      · intro s hs
        obtain ⟨hdecoded, htaken⟩ := hsome s hs
        exact ⟨hdecoded.symm, htaken⟩

theorem Session.HasHash.mono {more : List CStr} (h : t.HasHash)
    (hcarried : t'.carried = t.carried ++ more)
    (hsame : t'.provider.version.genesisHash = t.provider.version.genesisHash) : t'.HasHash := by
  obtain ⟨s, hs, hdecodes⟩ := h
  refine ⟨s, ?_, ?_⟩
  · rw [hcarried]
    exact List.mem_append_left _ hs
  · rw [hsame]
    exact hdecodes

theorem counted_step {call : ProviderCall} (ht : t.Counted) (hcall : call.KeepsHash cJSON_Parse t)
    (hstep : ProviderStep cJSON_Parse t call t') : t'.Counted := by
  cases call with
  | init header =>
      cases hstep
      intro hcount
      exact absurd rfl hcount
  | txParamsLoad reply tx =>
      obtain ⟨hcarried, err, tx', hload⟩ := hstep
      have hversion := txParamsLoad_version hload
      intro hcount
      rw [hversion] at hcount
      exact (ht hcount).mono hcarried (congrArg _ hversion)
  | versionGet reply version =>
      obtain ⟨hcarried, err, version', hget⟩ := hstep
      intro hcount
      rcases versionGet_cases hget with ⟨hsame, hcount'⟩ | ⟨hfailed, hsame⟩ |
        ⟨p₁, json, hrecv, hsuccess, hjson, hshort, hnone, hsome⟩
      · rw [hcount'] at hcount
        exact (ht hcount).mono hcarried hsame
      · have hkeeps : t.HasHash := by
          rw [ProviderCall.KeepsHash, if_neg hfailed] at hcall
          exact hcall
        exact hkeeps.mono hcarried hsame
      · rw [ProviderCall.KeepsHash, if_pos hsuccess] at hcall
        obtain ⟨hbody, hkeeps⟩ := hcall
        rw [rxString_receive hbody hrecv] at hjson
        have hkeeps := hkeeps json hjson hshort
        split at hkeeps
        · next s hs =>
            obtain ⟨hdecoded, htaken⟩ := hsome s hs
            obtain ⟨hash, hdecodes⟩ := hkeeps hdecoded
            refine ⟨s, ?_, ?_⟩
            · have hanswer : reply.genesisHash cJSON_Parse = some s := by
                rw [HttpReply.genesisHash, HttpReply.json, if_pos hsuccess, hjson]
                exact hs
              rw [hcarried, hanswer]
              exact List.mem_append_right _ List.mem_cons_self
            · rw [htaken hash hdecodes]
              exact hdecodes
        · next hitem => exact hkeeps.mono hcarried (hnone hitem)

end

/-! ## The parameters -/

/-- The parameters are those of the answer, and the hash is one that was carried. -/
def TxParamsFrom (carried : List CStr) (json : CJson) (tx : Transaction) : Prop :=
  (∃ s ∈ carried, Decodes s tx.genesisHash) ∧
    json.doubleItem "min-fee" = some (Rat.ofInt tx.fee.toNat) ∧
    ∃ lastRound : Nat, json.doubleItem "last-round" = some (Rat.ofInt lastRound) ∧
      tx.details.firstValid.toNat = lastRound + 1 ∧
      tx.details.lastValid.toNat = tx.details.firstValid.toNat + 1000

section

variable {cJSON_Parse : CJsonParse}

/-- A load that succeeds has read the answer. -/
theorem txParamsLoad_success {p p' : Provider} {reply : HttpReply} {tx tx' : Transaction}
    (hbody : reply.chunks ≠ [])
    (h : providerTxParamsLoad cJSON_Parse p reply tx = .ok (.success, tx', p')) :
    ∃ json, reply.json cJSON_Parse = some json ∧
      loadGenesisHash p.version json tx.genesisHash = .ok (.success, tx'.genesisHash) ∧
      (∀ fee, json.doubleItem "min-fee" = some fee → tx'.fee = intToUInt64 (CJson.toValueint fee)) ∧
      ∀ round, json.doubleItem "last-round" = some round →
        tx'.details.firstValid = intToUInt64 (CJson.toValueint round) + 1 ∧
        tx'.details.lastValid = tx'.details.firstValid + 1000 := by
  obtain ⟨p₁, hrecv, h⟩ := bind_eq_ok.mp h
  split at h
  · next hsuccess =>
      split at h
      · cases (pure_eq_ok3.mp h).1
      · next json hjson =>
          obtain ⟨⟨err, genesisHash⟩, hgenesis, h⟩ := bind_eq_ok.mp h
          dsimp only at h
          obtain ⟨rfl, rfl, -⟩ := pure_eq_ok3.mp h
          rw [rxString_receive hbody hrecv] at hjson
          rw [httpReceive_version hrecv] at hgenesis
          refine ⟨json, ?_, ?_, ?_, ?_⟩
          · rw [HttpReply.json, if_pos hsuccess, hjson]
          · rw [hgenesis, (loadLastRound_kept json _ _).1, loadMinFee_eq]
          · intro fee hitem
            rw [(loadLastRound_kept json _ _).2, loadMinFee, CJson.numberItem, hitem]
            rfl
          · intro round hitem
            rw [loadLastRound, CJson.numberItem, hitem]
            exact ⟨rfl, rfl⟩
  · next hfailed =>
      split at h
      · cases (pure_eq_ok3.mp h).1
      · exact absurd (pure_eq_ok3.mp h).1 hfailed

/-- The hash is the one kept, or the one of the answer. -/
theorem loadGenesisHash_carried {t : Session} {json : CJson} {reply : HttpReply}
    {old hash : Vector UInt8 blockHashLength} (ht : t.Counted)
    (hjson : reply.json cJSON_Parse = some json)
    (hanswer : t.provider.version.updateCount = 0 →
      ∃ s hash, reply.genesisHash cJSON_Parse = some s ∧ Decodes s hash)
    (h : loadGenesisHash t.provider.version json old = .ok (.success, hash)) :
    ∃ s ∈ t.carried ++ (reply.genesisHash cJSON_Parse).toList, Decodes s hash := by
  rw [loadGenesisHash.eq_def] at h
  split at h
  · next hcount =>
      obtain ⟨s, answered, hitem, hdecodes⟩ := hanswer hcount
      have hmember : json.stringItem "genesis_hash_b64" = some s := by
        rw [HttpReply.genesisHash, hjson] at hitem
        exact hitem
      rw [hmember] at h
      dsimp only at h
      rw [show b64Decode s s.strlen blockHashLength = _ from hdecodes] at h
      obtain ⟨w, hw, hwhole⟩ := memcpy_whole old answered.length_toList
      obtain ⟨v, hv, h⟩ := bind_eq_ok.mp h
      cases hw.symm.trans hv
      obtain ⟨-, rfl⟩ := pure_eq_ok2.mp h
      rw [Vector.toList_inj.mp hwhole, hitem]
      exact ⟨s, List.mem_append_right _ List.mem_cons_self, hdecodes⟩
  · next hcount =>
      obtain ⟨-, rfl⟩ := pure_eq_ok2.mp h
      obtain ⟨s, hs, hdecodes⟩ := ht hcount
      exact ⟨s, List.mem_append_left _ hs, hdecodes⟩

end

/-- After any calls of which each request for the version keeps the hash, a load that
succeeds on an answer of its own — with a whole hash, where none is kept — has taken its
parameters from the provider exactly if the fee and the round of the answer are whole
numbers that an `int` can hold. -/
theorem tx_params_from_provider_iff (cJSON_Parse : CJsonParse) {calls : List ProviderCall}
    {t : Session} (hrun : Run (guard (fun t call => call.KeepsHash cJSON_Parse t)
      (ProviderStep cJSON_Parse)) .start calls t)
    {reply : HttpReply} {tx tx' : Transaction} {p' : Provider}
    (hload : providerTxParamsLoad cJSON_Parse t.provider reply tx = .ok (.success, tx', p'))
    (hbody : reply.chunks ≠ [])
    (hanswer : t.provider.version.updateCount = 0 →
      ∃ s hash, reply.genesisHash cJSON_Parse = some s ∧ Decodes s hash) :
    (∃ json, reply.json cJSON_Parse = some json ∧
        TxParamsFrom (t.carried ++ (reply.genesisHash cJSON_Parse).toList) json tx') ↔
      ∃ json, reply.json cJSON_Parse = some json ∧ json.HasInt "min-fee" ∧ json.HasInt "last-round" := by
  have hcounted : t.Counted := by
    refine Run.invariant (P := Session.Counted) ?_ hrun fun hcount => absurd rfl hcount
    intro u call v hu hstep
    exact counted_step hu hstep.1 hstep.2
  obtain ⟨json, hjson, hgenesis, hfee, hround⟩ := txParamsLoad_success hbody hload
  have hcarried := loadGenesisHash_carried hcounted hjson hanswer hgenesis
  constructor
  · rintro ⟨json', hjson', -, hminFee, lastRound, hlastRound, hfirst, -⟩
    cases hjson.symm.trans hjson'
    have hvalue := toNat_toValueint tx'.fee.toNat
    rw [← hfee _ hminFee] at hvalue
    have hvalue' := congrArg UInt64.toNat (hround _ hlastRound).1
    rw [UInt64.toNat_add, toNat_toValueint, hfirst, UInt64.toNat_one] at hvalue'
    exact ⟨json, hjson, ⟨_, by omega, hminFee⟩, ⟨lastRound, by omega, hlastRound⟩⟩
  · rintro ⟨json', hjson', ⟨fee, hfeeLe, hminFee⟩, ⟨round, hroundLe, hlastRound⟩⟩
    cases hjson.symm.trans hjson'
    obtain ⟨hfirst, hlast⟩ := hround _ hlastRound
    have hfeeEq : tx'.fee.toNat = fee := by
      rw [hfee _ hminFee, toNat_toValueint]
      exact Nat.min_eq_left hfeeLe
    have hfirstEq : tx'.details.firstValid.toNat = round + 1 := by
      rw [hfirst, UInt64.toNat_add, toNat_toValueint, Nat.min_eq_left hroundLe, UInt64.toNat_one]
      omega
    refine ⟨json, hjson, hcarried, ?_, round, hlastRound, hfirstEq, ?_⟩
    · rw [hfeeEq]
      exact hminFee
    · have hspan : (1000 : UInt64).toNat = 1000 := rfl
      rw [hlast, UInt64.toNat_add, hfirstEq, hspan]
      omega

/-! ## A hash that is never fetched -/

/-- A transaction not filled yet. -/
def blankTransaction : Transaction where
  senderPub := Vector.replicate _ 0
  fee := 0
  genesisHash := Vector.replicate _ 0
  details := ⟨0, 0, none, .pay ⟨Vector.replicate _ 0, 0⟩⟩

theorem decodes_networkHash : Decodes networkHashText networkHash := networkAnswers.decoded

theorem keeps_versions :
    (ProviderCall.versionGet versionsReply .zero).KeepsHash parseAnswers .start := by
  refine ⟨List.cons_ne_nil _ _, ?_⟩
  intro json hjson _
  cases parse_versions.symm.trans hjson
  rw [networkAnswers.versionsHash]
  exact fun _ => ⟨networkHash, decodes_networkHash⟩

theorem genesisHash_params : paramsReply.genesisHash parseAnswers = some networkHashText := by
  rw [HttpReply.genesisHash, json_params]
  exact networkAnswers.paramsHash

/-- The version comes with its hash, and is followed by a load. -/
theorem tx_params_from_provider_iff_loaded :
    ∃ t tx p', Run (guard (fun t call => call.KeepsHash parseAnswers t) (ProviderStep parseAnswers))
        .start [.versionGet versionsReply .zero] t ∧
      providerTxParamsLoad parseAnswers t.provider paramsReply blankTransaction =
        .ok (.success, tx, p') ∧
      ∃ json, paramsReply.json parseAnswers = some json ∧
        TxParamsFrom (t.carried ++ (paramsReply.genesisHash parseAnswers).toList) json tx := by
  have hseen : (providerVersionGet parseAnswers .zero versionsReply .zero >>= fun v =>
      providerTxParamsLoad parseAnswers v.2.2 paramsReply blankTransaction >>= fun r =>
        pure (v.2.2.version.updateCount, r.1)) = .ok (1, .success) := by decide +kernel
  obtain ⟨⟨err, version, p⟩, hversion, hseen⟩ := bind_eq_ok.mp hseen
  obtain ⟨⟨err', tx, p'⟩, hload, hseen⟩ := bind_eq_ok.mp hseen
  obtain ⟨hcount, rfl⟩ := pure_eq_ok2.mp hseen
  let t : Session := ⟨p, (versionsReply.genesisHash parseAnswers).toList⟩
  have hstep : ProviderStep parseAnswers .start (.versionGet versionsReply .zero) t :=
    ⟨rfl, err, version, hversion⟩
  have hrun : Run (guard (fun t call => call.KeepsHash parseAnswers t) (ProviderStep parseAnswers))
      .start [.versionGet versionsReply .zero] t := .single ⟨keeps_versions, hstep⟩
  have hcounted : t.provider.version.updateCount ≠ 0 := by
    show p.version.updateCount ≠ 0
    rw [hcount]
    decide
  refine ⟨t, tx, p', hrun, hload, (tx_params_from_provider_iff parseAnswers hrun hload
    (List.cons_ne_nil _ _) fun hzero => absurd hzero hcounted).mpr ?_⟩
  exact ⟨paramsJson, json_params, ⟨1000, by decide, rfl⟩, ⟨5, by decide, rfl⟩⟩

/-- The version cannot be fetched, which counts as well: the load takes a hash of zeros
and passes over the one in the answer. -/
theorem failed_version_hides_hash :
    ∃ t tx p', Run (ProviderStep parseAnswers) .start
        [.init none, .versionGet ⟨[], .errorOffline, 0⟩ .zero] t ∧
      providerTxParamsLoad parseAnswers t.provider paramsReply blankTransaction =
        .ok (.success, tx, p') ∧
      paramsReply.genesisHash parseAnswers = some networkHashText ∧
      Decodes networkHashText networkHash ∧ tx.genesisHash = Vector.replicate _ 0 ∧
      ¬ ∃ json, paramsReply.json parseAnswers = some json ∧
        TxParamsFrom (t.carried ++ (paramsReply.genesisHash parseAnswers).toList) json tx := by
  have hseen : (providerVersionGet parseAnswers (providerInit .zero none) ⟨[], .errorOffline, 0⟩
      .zero >>= fun v => providerTxParamsLoad parseAnswers v.2.2 paramsReply blankTransaction >>= fun r =>
        pure (r.1, r.2.1.genesisHash)) = .ok (.success, Vector.replicate _ 0) := by decide +kernel
  obtain ⟨⟨err, version, p⟩, hversion, hseen⟩ := bind_eq_ok.mp hseen
  obtain ⟨⟨err', tx, p'⟩, hload, hseen⟩ := bind_eq_ok.mp hseen
  obtain ⟨rfl, hzero⟩ := pure_eq_ok2.mp hseen
  have hstep : ProviderStep parseAnswers ⟨providerInit .zero none, []⟩
      (.versionGet ⟨[], .errorOffline, 0⟩ .zero) ⟨p, []⟩ := ⟨rfl, err, version, hversion⟩
  refine ⟨⟨p, []⟩, tx, p', .cons rfl (.single hstep), hload, genesisHash_params, decodes_networkHash,
    hzero, ?_⟩
  rintro ⟨json, -, ⟨s, hs, hdecodes⟩, -⟩
  rw [genesisHash_params] at hs
  have hs : s = networkHashText := List.mem_singleton.mp hs
  subst hs
  rw [hzero] at hdecodes
  have hother : ¬ Decodes networkHashText (Vector.replicate _ 0) := by
    show ¬ b64Decode networkHashText networkHashText.strlen blockHashLength = _
    decide +kernel
  exact hother hdecodes

end Vertices
