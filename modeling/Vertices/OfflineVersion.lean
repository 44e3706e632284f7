/-
# `Vertices.OfflineVersion` — the version when the node is not reached

A request for the version that fails is answered with the version that is kept, and with
`VTC_ERROR_OFFLINE` if there is one.  Whether there is one is read off its three numbers: a
version with a zero among them counts as none.

An offline session remembers, beside the provider, what the last successful load and the last
successful request for the version since `provider_init` gave to their callers.

    `answersVersions_iff`    what the kept version has to be
    `offline_version_iff`    the runs in which every failed request is answered
-/
import Vertices.VersionCache

namespace Vertices

open Transition

/-! ## Offline sessions -/

/-- A session; the fee and the first round of its last load that succeeded; and the version of
its last request that did. -/
structure OfflineSession where
  session : Session
  loaded : Option (UInt64 × UInt64)
  fetched : Option ProviderVersion

/-- As the program starts. -/
def OfflineSession.start : OfflineSession := ⟨.start, none, none⟩

abbrev OfflineSession.provider (t : OfflineSession) : Provider := t.session.provider

/-- The version that the call leaves as the last one. -/
def ProviderCall.fetchedAfter (cJSON_Parse : CJsonParse) (t : OfflineSession) :
    ProviderCall → Option ProviderVersion
  | .init _ => none
  | .versionGet reply version =>
      match providerVersionGet cJSON_Parse t.provider reply version with
      | .ok (err, version', _) => if err = .success then some version' else t.fetched
      | .error _ => t.fetched
  | .txParamsLoad _ _ => t.fetched

/-- The parameters that the call leaves as the last ones. -/
def ProviderCall.loadedAfter (cJSON_Parse : CJsonParse) (t : OfflineSession) :
    ProviderCall → Option (UInt64 × UInt64)
  | .init _ => none
  | .versionGet _ _ => t.loaded
  | .txParamsLoad reply tx =>
      match providerTxParamsLoad cJSON_Parse t.provider reply tx with
      | .ok (err, tx', _) => if err = .success then some (tx'.fee, tx'.details.firstValid) else t.loaded
      | .error _ => t.loaded

/-- One call that returns. -/
def OfflineStep (cJSON_Parse : CJsonParse) (t : OfflineSession) (call : ProviderCall)
    (t' : OfflineSession) : Prop :=
  ProviderStep cJSON_Parse t.session call t'.session ∧ t'.loaded = call.loadedAfter cJSON_Parse t ∧
    t'.fetched = call.fetchedAfter cJSON_Parse t

/-- The same version, as far as callers are told. -/
structure ProviderVersion.Agrees (version version' : ProviderVersion) : Prop where
  network : cString version'.network.toList = cString version.network.toList
  genesisHash : version'.genesisHash = version.genesisHash
  major : version'.major = version.major
  minor : version'.minor = version.minor
  patch : version'.patch = version.patch

/-- A request that fails is answered with the last version, as such. -/
def OfflineSession.AnswersVersions (cJSON_Parse : CJsonParse) (t : OfflineSession) : Prop :=
  ∀ (reply : HttpReply) version err version' p', reply.err ≠ .success →
    providerVersionGet cJSON_Parse t.provider reply version = .ok (err, version', p') →
      ∀ v, t.fetched = some v → err = .errorOffline ∧ v.Agrees version'

/-- The version kept is the last one, and has its numbers. -/
def OfflineSession.KeepsFetched (t : OfflineSession) : Prop :=
  ∀ v, t.fetched = some v → t.provider.version.HasNumbers ∧ v.Agrees t.provider.version

/-- An accepted answer leaves three numbers that are not zero, its own or the ones kept; one
that is refused for its genesis hash leaves the name, where there is a version. -/
def ProviderCall.KeepsVersion (cJSON_Parse : CJsonParse) (t : OfflineSession) : ProviderCall → Prop
  | .versionGet reply _ => reply.err = .success → ∀ p₁ json held,
      httpReceive t.provider reply = .ok p₁ → cJSON_Parse p₁.rxString = some json →
      readNetwork json t.provider.version = .ok (.success, held) →
        (∀ held', readGenesisHash json held = .ok (.success, held') → (readBuild json held').HasNumbers) ∧
        ∀ s, json.stringItem "genesis_hash_b64" = some s →
          (b64Decode s s.strlen blockHashLength).1 ≠ .success → t.fetched ≠ none →
            cString held.network.toList = cString t.provider.version.network.toList
  | _ => True

/-! ## The caller's copy -/

section

variable {cJSON_Parse : CJsonParse} {t t' : OfflineSession} {held version version' : ProviderVersion}

theorem CopiedTo.agrees (h : CopiedTo held version version') : held.Agrees version' := by
  obtain ⟨network, hcopy, rfl⟩ := h
  obtain ⟨hfits, rfl⟩ := memcpy_eq_ok.mp hcopy
  refine ⟨?_, rfl, rfl, rfl, rfl⟩
  dsimp only
  rw [toList_splice, List.take_zero, List.nil_append, List.append_assoc, List.singleton_append]
  exact CStr.ext (bytes_cString_append (cString held.network.toList).noNul _)

/-- A name that ends can be copied. -/
theorem copiedTo_of_nul (h : (0 : UInt8) ∈ held.network.toList) (version : ProviderVersion) :
    ∃ version', CopiedTo held version version' := by
  have hshort : (cString held.network.toList).bytes.length < 64 := by
    have hbegins : (cString held.network.toList).bytes <+: held.network.toList := List.takeWhile_prefix _
    have hle := hbegins.length_le
    have hne : (cString held.network.toList).bytes.length ≠ held.network.toList.length := by
      intro hsame
      exact (bytes_cString_eq_iff.mp (hbegins.eq_of_length hsame)) h
    rw [Vector.length_toList] at hle hne
    exact Nat.lt_of_le_of_ne hle hne
  have hfits : 0 + ((cString held.network.toList).bytes ++ [0]).length ≤ 64 := by
    rw [List.length_append, List.length_singleton, Nat.zero_add]
    exact hshort
  exact ⟨_, _, memcpy_eq_ok.mpr ⟨hfits, rfl⟩, rfl⟩

theorem ProviderVersion.Agrees.trans {v₁ v₂ v₃ : ProviderVersion} (h : v₁.Agrees v₂) (h' : v₂.Agrees v₃) :
    v₁.Agrees v₃ where
  network := h'.network.trans h.network
  genesisHash := h'.genesisHash.trans h.genesisHash
  major := h'.major.trans h.major
  minor := h'.minor.trans h.minor
  patch := h'.patch.trans h.patch

theorem ProviderVersion.Agrees.symm {v v' : ProviderVersion} (h : v.Agrees v') : v'.Agrees v where
  network := h.network.symm
  genesisHash := h.genesisHash.symm
  major := h.major.symm
  minor := h.minor.symm
  patch := h.patch.symm

theorem ProviderVersion.Agrees.counted {v v' : ProviderVersion} (h : v.Agrees v') : v.Agrees v'.counted :=
  ⟨h.network, h.genesisHash, h.major, h.minor, h.patch⟩

/-- A request that fails returns, if the name that is kept ends. -/
theorem versionGet_failed {p p₁ : Provider} {reply : HttpReply} (hreply : reply.err ≠ .success)
    (hrecv : httpReceive p reply = .ok p₁) (hcopy : CopiedTo p₁.version version version') :
    providerVersionGet cJSON_Parse p reply version =
      .ok (if p₁.version.HasNumbers then .errorOffline else reply.err, version',
        { p₁ with version := p₁.version.counted }) := by
  rw [providerVersionGet, hrecv]
  show (if reply.err = .success then _ else _) = _
  rw [if_neg hreply]
  by_cases hnumbers : p₁.version.HasNumbers
  · rw [if_pos hnumbers]
    have hnumbers := hnumbers
    rw [ProviderVersion.HasNumbers] at hnumbers
    rw [if_pos hnumbers]
    exact copyVersion_eq_ok.mpr ⟨rfl, hcopy, rfl⟩
  · rw [if_neg hnumbers]
    have hnumbers := hnumbers
    rw [ProviderVersion.HasNumbers] at hnumbers
    rw [if_neg hnumbers]
    exact copyVersion_eq_ok.mpr ⟨rfl, hcopy, rfl⟩

/-- What the kept version has to be, for failed requests to be answered with the last one. -/
theorem answersVersions_iff (hnul : (0 : UInt8) ∈ t.provider.version.network.toList) :
    t.AnswersVersions cJSON_Parse ↔ t.KeepsFetched := by
  constructor
  · intro h v hv
    let reply : HttpReply := ⟨[], .errorInternal, 0⟩
    have hreply : reply.err ≠ .success := RetCode.noConfusion
    obtain ⟨version', hcopy⟩ := copiedTo_of_nul hnul .zero
    obtain ⟨herr, hagrees⟩ := h reply .zero _ _ _ hreply (versionGet_failed hreply rfl hcopy) v hv
    refine ⟨?_, hagrees.trans hcopy.agrees.symm⟩
    by_contra hnumbers
    have hnumbers : ¬ ({ t.provider with responseSize := 0 } : Provider).version.HasNumbers := hnumbers
    rw [if_neg hnumbers] at herr
    cases herr
  · intro h reply version err version' p' hreply hget v hv
    obtain ⟨hnumbers, hagrees⟩ := h v hv
    obtain ⟨p₁, hrecv, houtcome⟩ := versionGet_outcome hget
    rw [← httpReceive_version hrecv] at hnumbers hagrees
    cases houtcome with
    | failed _ hcopy =>
        rw [if_pos hnumbers]
        exact ⟨rfl, hagrees.trans hcopy.agrees⟩
    | noJson hsuccess | longName hsuccess | badHash hsuccess | taken hsuccess =>
        exact absurd hsuccess hreply

/-! ## What a call does to the version -/

theorem readNetwork_fields {json : CJson} {err : RetCode} (h : readNetwork json version = .ok (err, held)) :
    held = { version with network := held.network } ∧
      ((0 : UInt8) ∈ version.network.toList → (0 : UInt8) ∈ held.network.toList) := by
  rw [readNetwork.eq_def] at h
  split at h
  · obtain ⟨-, rfl⟩ := pure_eq_ok2.mp h
    exact ⟨rfl, id⟩
  · split at h
    · obtain ⟨-, rfl⟩ := pure_eq_ok2.mp h
      exact ⟨rfl, id⟩
    · obtain ⟨network, hcopy, h⟩ := bind_eq_ok.mp h
      obtain ⟨-, rfl⟩ := pure_eq_ok2.mp h
      obtain ⟨hfits, rfl⟩ := memcpy_eq_ok.mp hcopy
      refine ⟨rfl, fun _ => ?_⟩
      dsimp only
      rw [toList_splice, List.append_assoc, List.append_assoc]
      exact List.mem_append_right _ (List.mem_append_right _ List.mem_cons_self)

theorem readGenesisHash_network {json : CJson} {err : RetCode}
    (h : readGenesisHash json version = .ok (err, held)) : held.network = version.network := by
  rw [readGenesisHash.eq_def] at h
  split at h
  · obtain ⟨-, rfl⟩ := pure_eq_ok2.mp h
    rfl
  · obtain ⟨genesisHash, -, h⟩ := bind_eq_ok.mp h
    obtain ⟨-, rfl⟩ := pure_eq_ok2.mp h
    rfl

/-- The name that is kept ends. -/
def OfflineSession.NameEnds (t : OfflineSession) : Prop := (0 : UInt8) ∈ t.provider.version.network.toList

theorem nameEnds_step {call : ProviderCall} (h : t.NameEnds) (hstep : OfflineStep cJSON_Parse t call t') :
    t'.NameEnds := by
  obtain ⟨hstep, -, -⟩ := hstep
  rw [OfflineSession.NameEnds] at h ⊢
  cases call with
  | init header =>
      rw [OfflineSession.provider, hstep]
      show (0 : UInt8) ∈ ProviderVersion.zero.network.toList
      decide
  | txParamsLoad reply tx =>
      obtain ⟨-, err, tx', hload⟩ := hstep
      rw [OfflineSession.provider, txParamsLoad_version hload]
      exact h
  | versionGet reply version =>
      obtain ⟨-, err, version', hget⟩ := hstep
      obtain ⟨p₁, hrecv, houtcome⟩ := versionGet_outcome hget
      have hversion : p₁.version = t.provider.version := httpReceive_version hrecv
      rw [← hversion] at h
      generalize hp' : t'.session.provider = p' at houtcome
      rw [OfflineSession.provider, hp']
      cases houtcome with
      | noJson | longName => exact h
      | failed _ _ => exact h
      | badHash _ _ hnetwork _ _ => exact (readNetwork_fields hnetwork).2 h
      | taken _ _ hnetwork hgenesis _ =>
          have hnul := (readNetwork_fields hnetwork).2 h
          rw [← readGenesisHash_network hgenesis] at hnul
          exact hnul

/-- The last version after a request that returned. -/
theorem fetchedAfter_of_ok {reply : HttpReply} {err : RetCode} {p' : Provider}
    (h : providerVersionGet cJSON_Parse t.provider reply version = .ok (err, version', p')) :
    (ProviderCall.versionGet reply version).fetchedAfter cJSON_Parse t =
      if err = .success then some version' else t.fetched := by
  rw [ProviderCall.fetchedAfter, h]

/-- A request for the version, and the version kept. -/
theorem keepsFetched_version_iff {reply : HttpReply} (h : t.KeepsFetched)
    (hstep : OfflineStep cJSON_Parse t (.versionGet reply version) t') :
    t'.KeepsFetched ↔ (ProviderCall.versionGet reply version).KeepsVersion cJSON_Parse t := by
  obtain ⟨hstep, -, hfetched⟩ := hstep
  obtain ⟨-, err, version', hget⟩ := hstep
  rw [fetchedAfter_of_ok hget] at hfetched
  obtain ⟨p₁, hrecv, houtcome⟩ := versionGet_outcome hget
  have hversion : p₁.version = t.provider.version := httpReceive_version hrecv
  have hp' : t'.provider = t'.session.provider := rfl
  rw [OfflineSession.KeepsFetched, hfetched, hp']
  rw [OfflineSession.KeepsFetched, ← hversion] at h
  generalize t'.session.provider = p' at houtcome
  cases houtcome with
  | noJson hreply hjson =>
      refine iff_of_true h fun _ p₂ json held hrecv' hjson' => ?_
      cases hrecv.symm.trans hrecv'
      cases hjson.symm.trans hjson'
  | longName hreply hjson hid hlong =>
      refine iff_of_true h fun _ p₂ json held hrecv' hjson' hnetwork => ?_
      cases hrecv.symm.trans hrecv'
      cases hjson.symm.trans hjson'
      exact absurd ((readNetwork_ok hnetwork).2.2 rfl _ hid) (Nat.not_lt.mpr hlong)
  | badHash hreply hjson hnetwork hs hbad =>
      rw [if_neg hbad]
      have hfields := (readNetwork_fields hnetwork).1
      constructor
      · intro hkeeps _ p₂ json' held₂ hrecv' hjson' hnetwork'
        obtain ⟨rfl, rfl⟩ := read_unique hrecv hjson hnetwork hrecv' hjson' hnetwork'
        refine ⟨fun held' hgenesis => ?_, fun s' _ _ hsome => ?_⟩
        · exact absurd (readGenesisHash_decoded hgenesis hs) hbad
        · obtain ⟨v, hv⟩ := Option.ne_none_iff_exists'.mp hsome
          rw [← hversion]
          exact (hkeeps v hv).2.network.trans (h v hv).2.network.symm
      · intro hcall v hv
        obtain ⟨hnumbers, hagrees⟩ := h v hv
        have hsome : t.fetched ≠ none := by
          rw [hv]
          exact Option.some_ne_none v
        have hname := (hcall hreply _ _ _ hrecv hjson (hversion ▸ hnetwork)).2 _ hs hbad hsome
        rw [← hversion] at hname
        have hrenamed : p₁.version.Agrees { p₁.version with network := _ } :=
          ⟨hname, rfl, rfl, rfl, rfl⟩
        dsimp only
        rw [hfields]
        exact ⟨hnumbers, hagrees.trans hrenamed⟩
  | taken hreply hjson hnetwork hgenesis hcopy =>
      rw [if_pos rfl]
      constructor
      · intro hkeeps _ p₂ json' held₂ hrecv' hjson' hnetwork'
        obtain ⟨rfl, rfl⟩ := read_unique hrecv hjson hnetwork hrecv' hjson' hnetwork'
        refine ⟨fun held'' hgenesis' => ?_, fun s hs hbad => ?_⟩
        · cases hgenesis.symm.trans hgenesis'
          exact (hkeeps _ rfl).1
        · exact absurd (readGenesisHash_decoded hgenesis hs) hbad
      · intro hcall v hv
        cases hv
        have hnumbers := (hcall hreply _ _ _ hrecv hjson (hversion ▸ hnetwork)).1 _ hgenesis
        exact ⟨hnumbers, hcopy.agrees.symm.counted⟩
  | failed hreply hcopy =>
      rw [if_neg (failedCode_ne hreply)]
      refine iff_of_true (fun v hv => ?_) fun hsuccess => absurd hsuccess hreply
      exact ⟨(h v hv).1, (h v hv).2.counted⟩

/-- One call, and the version kept. -/
theorem keepsFetched_step_iff {call : ProviderCall} (h : t.KeepsFetched)
    (hstep : OfflineStep cJSON_Parse t call t') :
    t'.KeepsFetched ↔ call.KeepsVersion cJSON_Parse t := by
  cases call with
  | init header =>
      obtain ⟨-, -, hfetched⟩ := hstep
      refine iff_of_true (fun v hv => ?_) trivial
      cases hfetched.symm.trans hv
  | txParamsLoad reply tx =>
      obtain ⟨⟨-, err, tx', hload⟩, -, hfetched⟩ := hstep
      refine iff_of_true (fun v hv => ?_) trivial
      rw [OfflineSession.provider, txParamsLoad_version hload]
      exact h v (hfetched.symm.trans hv)
  | versionGet reply version => exact keepsFetched_version_iff h hstep

end

/-! ## Runs -/

/-- In a run, every failed request for the version is answered with the last version since
`provider_init`, exactly if every accepted answer leaves three numbers that are not zero and no
refused one has left another name with a version. -/
theorem offline_version_iff (cJSON_Parse : CJsonParse) (calls : List ProviderCall) :
    (∀ before after u, calls = before ++ after → Run (OfflineStep cJSON_Parse) .start before u →
        u.AnswersVersions cJSON_Parse) ↔
      ∀ before call after u v, calls = before ++ call :: after →
        Run (OfflineStep cJSON_Parse) .start before u → OfflineStep cJSON_Parse u call v →
          call.KeepsVersion cJSON_Parse u := by
  have hends : ∀ {is u}, Run (OfflineStep cJSON_Parse) .start is u → u.NameEnds := by
    intro is u hrun
    refine Run.invariant (P := OfflineSession.NameEnds) nameEnds_step hrun ?_
    show (0 : UInt8) ∈ ProviderVersion.zero.network.toList
    decide
  have hstart : OfflineSession.start.KeepsFetched := by
    intro v hv
    cases hv
  have hstep : ∀ u call v, u.KeepsFetched → OfflineStep cJSON_Parse u call v →
      (v.KeepsFetched ↔ call.KeepsVersion cJSON_Parse u) :=
    fun _ _ _ h hstep => keepsFetched_step_iff h hstep
  refine Iff.trans ?_ (Run.always_iff_at calls hstep hstart)
  constructor
  · intro h before after u hcalls hrun
    exact (answersVersions_iff (hends hrun)).mp (h before after u hcalls hrun)
  · intro h before after u hcalls hrun
    exact (answersVersions_iff (hends hrun)).mpr (h before after u hcalls hrun)

/-! ## An answer without numbers -/

/-- The version is fetched, without a build, and then the node is gone: the request is not
answered as it is documented. -/
theorem fetched_version_not_offered :
    ∃ t version, Run (OfflineStep parseAnswers) .start [.versionGet versionsReply .zero] t ∧
      t.fetched = some version ∧ ¬ t.AnswersVersions parseAnswers ∧
      ∃ version' p', providerVersionGet parseAnswers t.provider ⟨[], .errorInternal, 0⟩ .zero =
        .ok (.errorInternal, version', p') := by
  have hseen : (providerVersionGet parseAnswers .zero versionsReply .zero >>= fun v =>
      providerVersionGet parseAnswers v.2.2 ⟨[], .errorInternal, 0⟩ .zero >>= fun r =>
        pure (v.1, r.1)) = .ok (.success, .errorInternal) := by decide +kernel
  obtain ⟨⟨err, version, p⟩, hversion, hseen⟩ := bind_eq_ok.mp hseen
  obtain ⟨⟨err', version', p'⟩, hfailed, hseen⟩ := bind_eq_ok.mp hseen
  obtain ⟨rfl, rfl⟩ := pure_eq_ok2.mp hseen
  let t : OfflineSession :=
    ⟨⟨p, (versionsReply.genesisHash parseAnswers).toList⟩, none, some version⟩
  have hstep : OfflineStep parseAnswers .start (.versionGet versionsReply .zero) t :=
    ⟨⟨rfl, _, version, hversion⟩, rfl, (fetchedAfter_of_ok (t := .start) hversion).symm⟩
  refine ⟨t, version, .single hstep, rfl, ?_, version', p', hfailed⟩
  intro h
  cases (h _ _ _ _ _ RetCode.noConfusion hfailed version rfl).1

end Vertices
