/-
# `Vertices.OfflineParams` — the parameters when the node is not reached

A load that fails takes the fee and the first round that were loaded before, and the hash kept
with the version.  The numbers are statics of the function, which `provider_init` does not
reset; a zero stands for none; and the hash counts as known once a version was asked for.

    `answersLoads_iff`     what is kept has to be
    `offline_load_iff`     the runs in which every failed load is answered from this session
-/
import Vertices.OfflineVersion

namespace Vertices

open Transition

/-! ## What is kept -/

/-- A load that returned `err` and left `tx` has used the last parameters and a hash of this
session; and it has used them, if there are some and a version. -/
def OfflineSession.Answered (t : OfflineSession) (err : RetCode) (tx : Transaction) : Prop :=
  (err = .errorOffline → t.loaded = some (tx.fee, tx.details.firstValid) ∧
    ∃ s ∈ t.session.carried, Decodes s tx.genesisHash) ∧
  (t.loaded ≠ none → t.fetched ≠ none → err = .errorOffline)

/-- Every load that fails is answered so; the code of the client is not itself the one for
parameters that are kept. -/
def OfflineSession.AnswersLoads (cJSON_Parse : CJsonParse) (t : OfflineSession) : Prop :=
  ∀ (reply : HttpReply) tx err tx' p', reply.err ≠ .success → reply.err ≠ .errorOffline →
    providerTxParamsLoad cJSON_Parse t.provider reply tx = .ok (err, tx', p') → t.Answered err tx'

/-- With this count and these numbers, a load uses what it is to use: with a zero among them it
uses nothing. -/
def Usage (count : UInt32) (fee firstValid : UInt64) (hasHash : Prop) (loaded : Option (UInt64 × UInt64))
    (hasVersion : Prop) : Prop :=
  if firstValid ≠ 0 ∧ fee ≠ 0 ∧ count ≠ 0 then loaded = some (fee, firstValid) ∧ hasHash
  else loaded = none ∨ ¬ hasVersion

/-- What is kept is what a load that fails is to use. -/
def OfflineSession.KeepsLoaded (t : OfflineSession) : Prop :=
  Usage t.provider.version.updateCount t.provider.mMinFee t.provider.mFirstValid t.session.HasHash t.loaded
    (t.fetched ≠ none)

/-- Everything a load needs is kept. -/
def Provider.KeepsAll (p : Provider) : Prop :=
  p.mFirstValid ≠ 0 ∧ p.mMinFee ≠ 0 ∧ p.version.updateCount ≠ 0

/-- The count goes up only where the numbers kept are the last ones and the hash is one of this
session; an accepted answer has both numbers, or finds them in the transaction as they are
kept, and with a version there neither is zero. -/
def ProviderCall.KeepsParams (cJSON_Parse : CJsonParse) (t : OfflineSession) : ProviderCall → Prop
  | .init _ => True
  | .versionGet reply _ =>
      if reply.err = .success then ∀ p₁ json held held',
        httpReceive t.provider reply = .ok p₁ → cJSON_Parse p₁.rxString = some json →
        readNetwork json t.provider.version = .ok (.success, held) →
        readGenesisHash json held = .ok (.success, held') →
          Usage (t.provider.version.updateCount + 1) t.provider.mMinFee t.provider.mFirstValid
            (∃ s ∈ t.session.carried ++ (reply.genesisHash cJSON_Parse).toList, Decodes s held'.genesisHash)
            t.loaded True
      else Usage (t.provider.version.updateCount + 1) t.provider.mMinFee t.provider.mFirstValid
        t.session.HasHash t.loaded (t.fetched ≠ none)
  | .txParamsLoad reply tx => reply.err = .success → ∀ p₁ json hash,
      httpReceive t.provider reply = .ok p₁ → cJSON_Parse p₁.rxString = some json →
      loadGenesisHash t.provider.version json tx.genesisHash = .ok (.success, hash) →
        Usage t.provider.version.updateCount (feeOr json t.provider.mMinFee)
          (firstValidOr json t.provider.mFirstValid)
          (∃ s ∈ t.session.carried ++ (reply.genesisHash cJSON_Parse).toList,
            Decodes s t.provider.version.genesisHash)
          (some (feeOr json tx.fee, firstValidOr json tx.details.firstValid)) (t.fetched ≠ none)

section

variable {cJSON_Parse : CJsonParse} {t t' : OfflineSession} {p p' : Provider} {reply : HttpReply}
  {tx tx' : Transaction} {err : RetCode}

/-- A load whose request fails returns. -/
theorem txParamsLoad_failed {p₁ : Provider} (hreply : reply.err ≠ .success)
    (hrecv : httpReceive p reply = .ok p₁) (tx : Transaction) :
    ∃ err tx' p', providerTxParamsLoad cJSON_Parse p reply tx = .ok (err, tx', p') := by
  have hreturns : ∃ r, providerTxParamsLoad cJSON_Parse p reply tx = .ok r := by
    rw [providerTxParamsLoad, hrecv]
    show ∃ r, (if reply.err = .success then _ else _) = _
    rw [if_neg hreply]
    split
    · exact ⟨_, rfl⟩
    · exact ⟨_, rfl⟩
  obtain ⟨⟨err, tx', p'⟩, hload⟩ := hreturns
  exact ⟨err, tx', p', hload⟩

/-- It has used what is kept, or nothing. -/
theorem txParamsLoad_failed_cases (hreply : reply.err ≠ .success)
    (h : providerTxParamsLoad cJSON_Parse p reply tx = .ok (err, tx', p')) :
    (p.KeepsAll ∧ err = .errorOffline ∧ tx'.fee = p.mMinFee ∧ tx'.details.firstValid = p.mFirstValid ∧
        tx'.genesisHash = p.version.genesisHash) ∨
      ¬ p.KeepsAll ∧ err = reply.err ∧ tx' = tx := by
  obtain ⟨p₁, hrecv, houtcome⟩ := txParamsLoad_outcome h
  obtain ⟨hversion, hminFee, hfirstValid⟩ := httpReceive_numbers hrecv
  rw [Provider.KeepsAll, ← hversion, ← hminFee, ← hfirstValid]
  cases houtcome with
  | noJson hsuccess => exact absurd hsuccess hreply
  | read hsuccess => exact absurd hsuccess hreply
  | kept _ hkept hfee hfirst hhash => exact .inl ⟨hkept, rfl, hfee, hfirst, hhash⟩
  | nothing _ hkept => exact .inr ⟨hkept, rfl, rfl⟩

/-- With everything kept, the load is answered if what is kept is what it is to use. -/
theorem answered_kept_iff (hkept : t.provider.KeepsAll) (hfee : tx'.fee = t.provider.mMinFee)
    (hfirst : tx'.details.firstValid = t.provider.mFirstValid)
    (hhash : tx'.genesisHash = t.provider.version.genesisHash) :
    t.Answered .errorOffline tx' ↔ t.KeepsLoaded := by
  rw [Provider.KeepsAll] at hkept
  rw [OfflineSession.KeepsLoaded, Usage, if_pos hkept, OfflineSession.Answered, hfee, hfirst, hhash]
  constructor
  · intro h
    exact h.1 rfl
  · intro h
    exact ⟨fun _ => h, fun _ _ => rfl⟩

/-- With something missing, if there is nothing it is to use. -/
theorem answered_nothing_iff (hkept : ¬ t.provider.KeepsAll) (herr : err ≠ .errorOffline) :
    t.Answered err tx' ↔ t.KeepsLoaded := by
  rw [Provider.KeepsAll] at hkept
  rw [OfflineSession.KeepsLoaded, Usage, if_neg hkept]
  constructor
  · rintro ⟨-, huses⟩
    by_contra hno
    rw [not_or, not_not] at hno
    exact herr (huses hno.1 hno.2)
  · intro h
    refine ⟨fun hoffline => absurd hoffline herr, fun hloaded hfetched => ?_⟩
    rcases h with h | h
    · exact absurd h hloaded
    · exact absurd hfetched h

theorem answered_iff_keepsLoaded (hreply : reply.err ≠ .success) (hother : reply.err ≠ .errorOffline)
    (hload : providerTxParamsLoad cJSON_Parse t.provider reply tx = .ok (err, tx', p')) :
    t.Answered err tx' ↔ t.KeepsLoaded := by
  rcases txParamsLoad_failed_cases hreply hload with ⟨hkept, rfl, hfee, hfirst, hhash⟩ | ⟨hkept, rfl, rfl⟩
  · exact answered_kept_iff hkept hfee hfirst hhash
  · exact answered_nothing_iff hkept hother

/-- What is kept is what failed loads are to use, exactly if it is so used. -/
theorem answersLoads_iff : t.AnswersLoads cJSON_Parse ↔ t.KeepsLoaded := by
  constructor
  · intro h
    let reply : HttpReply := ⟨[], .errorInternal, 0⟩
    have hreply : reply.err ≠ .success := RetCode.noConfusion
    have hother : reply.err ≠ .errorOffline := RetCode.noConfusion
    obtain ⟨err, tx', p', hload⟩ : ∃ err tx' p',
        providerTxParamsLoad cJSON_Parse t.provider reply blankTransaction = .ok (err, tx', p') :=
      txParamsLoad_failed hreply rfl blankTransaction
    exact (answered_iff_keepsLoaded hreply hother hload).mp (h reply _ err tx' p' hreply hother hload)
  · intro h reply tx err tx' p' hreply hother hload
    exact (answered_iff_keepsLoaded hreply hother hload).mpr h

/-! ## Steps -/

theorem Usage.mono {count : UInt32} {fee firstValid : UInt64} {hasHash hasHash' hasVersion : Prop}
    {loaded : Option (UInt64 × UInt64)} (h : Usage count fee firstValid hasHash loaded hasVersion)
    (hhash : hasHash → hasHash') : Usage count fee firstValid hasHash' loaded hasVersion := by
  rw [Usage] at h ⊢
  split
  · next hkept =>
      rw [if_pos hkept] at h
      exact ⟨h.1, hhash h.2⟩
  · next hkept =>
      rw [if_neg hkept] at h
      exact h

theorem usage_zero {count : UInt32} (hcount : count = 0) {fee firstValid : UInt64} {hasHash hasVersion : Prop}
    {loaded : Option (UInt64 × UInt64)} :
    Usage count fee firstValid hasHash loaded hasVersion ↔ loaded = none ∨ ¬ hasVersion := by
  rw [Usage, if_neg fun hkept => hkept.2.2 hcount]

theorem loadedAfter_of_ok (h : providerTxParamsLoad cJSON_Parse t.provider reply tx = .ok (err, tx', p')) :
    (ProviderCall.txParamsLoad reply tx).loadedAfter cJSON_Parse t =
      if err = .success then some (tx'.fee, tx'.details.firstValid) else t.loaded := by
  rw [ProviderCall.loadedAfter, h]

/-- A call that leaves count, numbers and hash as they are, with the last load and version. -/
theorem keepsLoaded_same {more : List CStr} (h : t.KeepsLoaded)
    (hcarried : t'.session.carried = t.session.carried ++ more)
    (hcount : t'.provider.version.updateCount = t.provider.version.updateCount)
    (hhash : t'.provider.version.genesisHash = t.provider.version.genesisHash)
    (hminFee : t'.provider.mMinFee = t.provider.mMinFee)
    (hfirstValid : t'.provider.mFirstValid = t.provider.mFirstValid) (hloaded : t'.loaded = t.loaded)
    (hfetched : t'.fetched = t.fetched) : t'.KeepsLoaded := by
  rw [OfflineSession.KeepsLoaded, hcount, hminFee, hfirstValid, hloaded, hfetched]
  exact h.mono fun hsame => hsame.mono hcarried hhash

/-- So where nothing but the answer was received. -/
theorem keepsLoaded_received {more : List CStr} {p₁ : Provider} (h : t.KeepsLoaded)
    (hcarried : t'.session.carried = t.session.carried ++ more)
    (hrecv : httpReceive t.provider reply = .ok p₁) (hp : t'.provider = p₁)
    (hloaded : t'.loaded = t.loaded) (hfetched : t'.fetched = t.fetched) : t'.KeepsLoaded := by
  obtain ⟨hversion, hminFee, hfirstValid⟩ := httpReceive_numbers hrecv
  refine keepsLoaded_same h hcarried ?_ ?_ ?_ ?_ hloaded hfetched
  · rw [hp, hversion]
  · rw [hp, hversion]
  · rw [hp, hminFee]
  · rw [hp, hfirstValid]

/-- A hash is refused only as long as no version was asked for. -/
theorem loadGenesisHash_refused {version : ProviderVersion} {json : CJson}
    {old hash : Vector UInt8 blockHashLength} (h : loadGenesisHash version json old = .ok (err, hash))
    (herr : err ≠ .success) : version.updateCount = 0 := by
  by_contra hcount
  rw [loadGenesisHash, if_neg hcount] at h
  exact herr (pure_eq_ok2.mp h).1.symm

theorem keepsLoaded_load_iff (h : t.KeepsLoaded)
    (hstep : OfflineStep cJSON_Parse t (.txParamsLoad reply tx) t') :
    t'.KeepsLoaded ↔ (ProviderCall.txParamsLoad reply tx).KeepsParams cJSON_Parse t := by
  obtain ⟨⟨hcarried, err, tx', hload⟩, hloaded, hfetched⟩ := hstep
  have hfetched : t'.fetched = t.fetched := hfetched
  rw [loadedAfter_of_ok hload] at hloaded
  obtain ⟨p₁, hrecv, houtcome⟩ := txParamsLoad_outcome hload
  generalize hp' : t'.session.provider = p' at houtcome
  cases houtcome with
  | noJson hreply hjson =>
      rw [if_neg RetCode.noConfusion] at hloaded
      refine iff_of_true (keepsLoaded_received h hcarried hrecv hp' hloaded hfetched) ?_
      intro _ p₂ json hash hrecv' hjson'
      cases hrecv.symm.trans hrecv'
      cases hjson.symm.trans hjson'
  | kept hreply =>
      rw [if_neg RetCode.noConfusion] at hloaded
      exact iff_of_true (keepsLoaded_received h hcarried hrecv hp' hloaded hfetched)
        fun hsuccess => absurd hsuccess hreply
  | nothing hreply =>
      rw [if_neg hreply] at hloaded
      exact iff_of_true (keepsLoaded_received h hcarried hrecv hp' hloaded hfetched)
        fun hsuccess => absurd hsuccess hreply
  | read hreply hjson hgenesis hhash hfee hfirst hversion' hminFee' hfirstValid' =>
      obtain ⟨hversion, hminFee, hfirstValid⟩ := httpReceive_numbers hrecv
      have hp' : t'.provider = p' := hp'
      rw [← hp', hversion] at hversion'
      rw [← hp', hminFee] at hminFee'
      rw [← hp', hfirstValid] at hfirstValid'
      rw [hversion] at hgenesis
      by_cases herr : err = .success
      · subst herr
        rw [if_pos rfl, hfee, hfirst] at hloaded
        rw [OfflineSession.KeepsLoaded, Session.HasHash, hcarried, hloaded, hfetched, hminFee', hfirstValid']
        rw [show t'.session.provider.version = t.provider.version from hversion']
        constructor
        · intro husage _ p₂ json' hash' hrecv' hjson' _
          cases hrecv.symm.trans hrecv'
          cases hjson.symm.trans hjson'
          exact husage
        · intro hcall
          exact hcall hreply _ _ _ hrecv hjson hgenesis
      · rw [if_neg herr] at hloaded
        have hcount := loadGenesisHash_refused hgenesis herr
        refine iff_of_true ?_ ?_
        · rw [OfflineSession.KeepsLoaded, usage_zero hcount] at h
          rw [OfflineSession.KeepsLoaded, hversion', usage_zero hcount, hloaded, hfetched]
          exact h
        · intro _ p₂ json' hash' hrecv' hjson' hgenesis'
          cases hrecv.symm.trans hrecv'
          cases hjson.symm.trans hjson'
          cases hgenesis.symm.trans hgenesis'
          exact absurd rfl herr

/-- After a request that is counted. -/
theorem keepsLoaded_counted_iff {p₁ : Provider} {held : ProviderVersion}
    (hrecv : httpReceive t.provider reply = .ok p₁)
    (hp : t'.provider = { p₁ with version := held.counted })
    (hcount : held.updateCount = p₁.version.updateCount) (hloaded : t'.loaded = t.loaded) :
    t'.KeepsLoaded ↔ Usage (t.provider.version.updateCount + 1) t.provider.mMinFee t.provider.mFirstValid
      (∃ s ∈ t'.session.carried, Decodes s held.genesisHash) t.loaded (t'.fetched ≠ none) := by
  obtain ⟨hversion, hminFee, hfirstValid⟩ := httpReceive_numbers hrecv
  have hp' : t'.session.provider = { p₁ with version := held.counted } := hp
  rw [OfflineSession.KeepsLoaded, Session.HasHash, hp, hp', hloaded, ← hversion, ← hminFee, ← hfirstValid,
    ← hcount]
  exact Iff.rfl

theorem keepsLoaded_version_iff {version : ProviderVersion} (h : t.KeepsLoaded)
    (hstep : OfflineStep cJSON_Parse t (.versionGet reply version) t') :
    t'.KeepsLoaded ↔ (ProviderCall.versionGet reply version).KeepsParams cJSON_Parse t := by
  obtain ⟨⟨hcarried, err, version', hget⟩, hloaded, hfetched⟩ := hstep
  have hloaded : t'.loaded = t.loaded := hloaded
  rw [fetchedAfter_of_ok hget] at hfetched
  obtain ⟨p₁, hrecv, houtcome⟩ := versionGet_outcome hget
  obtain ⟨hversion, hminFee, hfirstValid⟩ := httpReceive_numbers hrecv
  generalize hp' : t'.session.provider = p' at houtcome
  have hprovider : t'.provider = p' := hp'
  rw [ProviderCall.KeepsParams]
  cases houtcome with
  | noJson hreply hjson =>
      rw [if_neg RetCode.noConfusion] at hfetched
      rw [if_pos hreply]
      refine iff_of_true (keepsLoaded_received h hcarried hrecv hp' hloaded hfetched) ?_
      intro p₂ json held held' hrecv' hjson'
      cases hrecv.symm.trans hrecv'
      cases hjson.symm.trans hjson'
  | longName hreply hjson hid hlong =>
      rw [if_neg RetCode.noConfusion] at hfetched
      rw [if_pos hreply]
      refine iff_of_true (keepsLoaded_received h hcarried hrecv hp' hloaded hfetched) ?_
      intro p₂ json held held' hrecv' hjson' hnetwork
      cases hrecv.symm.trans hrecv'
      cases hjson.symm.trans hjson'
      exact absurd ((readNetwork_ok hnetwork).2.2 rfl _ hid) (Nat.not_lt.mpr hlong)
  | badHash hreply hjson hnetwork hs hbad =>
      rw [if_neg hbad] at hfetched
      rw [if_pos hreply]
      obtain ⟨hhash, hcount, -⟩ := readNetwork_ok hnetwork
      refine iff_of_true (keepsLoaded_same h hcarried ?_ ?_ ?_ ?_ hloaded hfetched) ?_
      · rw [hprovider, ← hversion, ← hcount]
      · rw [hprovider, ← hversion, ← hhash]
      · rw [hprovider, ← hminFee]
      · rw [hprovider, ← hfirstValid]
      · intro p₂ json' held₂ held' hrecv' hjson' hnetwork' hgenesis
        obtain ⟨rfl, rfl⟩ := read_unique hrecv hjson hnetwork hrecv' hjson' hnetwork'
        exact absurd (readGenesisHash_decoded hgenesis hs) hbad
  | taken hreply hjson hnetwork hgenesis hcopy =>
      rw [if_pos rfl] at hfetched
      rw [if_pos hreply]
      obtain ⟨-, hcount, -⟩ := readNetwork_ok hnetwork
      obtain ⟨hcount', -⟩ := readGenesisHash_ok hgenesis
      rw [keepsLoaded_counted_iff hrecv hprovider (hcount'.trans hcount) hloaded, hcarried, hfetched,
        eq_true (Option.some_ne_none _)]
      constructor
      · intro husage p₂ json' held₂ held₂' hrecv' hjson' hnetwork' hgenesis'
        obtain ⟨rfl, rfl⟩ := read_unique hrecv hjson hnetwork hrecv' hjson' hnetwork'
        cases hgenesis.symm.trans hgenesis'
        exact husage
      · intro hcall
        have husage := hcall _ _ _ _ hrecv hjson (hversion ▸ hnetwork) hgenesis
        exact husage
  | failed hreply hcopy =>
      rw [if_neg (failedCode_ne hreply)] at hfetched
      rw [if_neg hreply]
      have hnothing : reply.genesisHash cJSON_Parse = none := by
        rw [HttpReply.genesisHash, HttpReply.json, if_neg hreply]
        rfl
      rw [hnothing, Option.toList_none, List.append_nil] at hcarried
      rw [keepsLoaded_counted_iff hrecv hprovider rfl hloaded, hcarried, hfetched, hversion]
      exact Iff.rfl

/-- One call, and what is kept of the parameters. -/
theorem keepsLoaded_step_iff {call : ProviderCall} (h : t.KeepsLoaded)
    (hstep : OfflineStep cJSON_Parse t call t') :
    t'.KeepsLoaded ↔ call.KeepsParams cJSON_Parse t := by
  cases call with
  | init header =>
      obtain ⟨hinit, hloaded, -⟩ := hstep
      have hcount : t'.provider.version.updateCount = 0 := by
        rw [OfflineSession.provider, hinit]
        rfl
      refine iff_of_true ?_ trivial
      rw [OfflineSession.KeepsLoaded, usage_zero hcount]
      exact .inl hloaded
  | versionGet reply version => exact keepsLoaded_version_iff h hstep
  | txParamsLoad reply tx => exact keepsLoaded_load_iff h hstep

/-! ## Runs -/

/-- A client that reports itself that the parameters are old. -/
theorem offline_client_iff (h : t.AnswersLoads cJSON_Parse) (hreply : reply.err = .errorOffline)
    (hload : providerTxParamsLoad cJSON_Parse t.provider reply tx = .ok (err, tx', p')) :
    t.Answered err tx' ↔ t.provider.KeepsAll ∨ t.Answered .errorOffline tx := by
  have hfailed : reply.err ≠ .success := by
    rw [hreply]
    exact RetCode.noConfusion
  rcases txParamsLoad_failed_cases hfailed hload with ⟨hkept, rfl, hfee, hfirst, hhash⟩ | ⟨hkept, rfl, rfl⟩
  · have hanswered := (answered_kept_iff hkept hfee hfirst hhash).mpr (answersLoads_iff.mp h)
    exact iff_of_true hanswered (.inl hkept)
  · rw [hreply]
    exact (or_iff_right hkept).symm

end

/-- In a run, every load that fails is answered from the session exactly if no call counts a
version, or takes an answer, so that what is kept is not what was last loaded, or lacks the
hash, or has a zero in the place of a number.  A client that reports old parameters itself is
believed, whether or not any are kept. -/
theorem offline_load_iff (cJSON_Parse : CJsonParse) (calls : List ProviderCall) :
    ((∀ before after u, calls = before ++ after → Run (OfflineStep cJSON_Parse) .start before u →
        u.AnswersLoads cJSON_Parse) ↔
      ∀ before call after u v, calls = before ++ call :: after →
        Run (OfflineStep cJSON_Parse) .start before u → OfflineStep cJSON_Parse u call v →
          call.KeepsParams cJSON_Parse u) ∧
    ∀ (u : OfflineSession) (reply : HttpReply) tx err tx' p', u.AnswersLoads cJSON_Parse →
      reply.err = .errorOffline →
        providerTxParamsLoad cJSON_Parse u.provider reply tx = .ok (err, tx', p') →
          (u.Answered err tx' ↔ u.provider.KeepsAll ∨ u.Answered .errorOffline tx) := by
  refine ⟨?_, fun _ _ _ _ _ _ h hreply hload => offline_client_iff h hreply hload⟩
  have hstart : OfflineSession.start.KeepsLoaded := (usage_zero rfl).mpr (.inl rfl)
  have hstep : ∀ u call v, u.KeepsLoaded → OfflineStep cJSON_Parse u call v →
      (v.KeepsLoaded ↔ call.KeepsParams cJSON_Parse u) :=
    fun _ _ _ h hstep => keepsLoaded_step_iff h hstep
  refine Iff.trans ?_ (Run.always_iff_at calls hstep hstart)
  constructor
  · intro h before after u hcalls hrun
    exact answersLoads_iff.mp (h before after u hcalls hrun)
  · intro h before after u hcalls hrun
    exact answersLoads_iff.mpr (h before after u hcalls hrun)

/-! ## Two providers -/

/-- The node is not reached. -/
def unreachedReply : HttpReply := ⟨[], .errorInternal, 0⟩

/-- Parameters are loaded from one provider, then another is set up and gives its version, and
is gone: the load takes the fee and the round of the first. -/
theorem other_provider_offered :
    ∃ t tx p', Run (OfflineStep parseAnswers) .start
        [.txParamsLoad paramsReply blankTransaction, .init none, .versionGet versionsReply .zero] t ∧
      t.loaded = none ∧
      providerTxParamsLoad parseAnswers t.provider unreachedReply blankTransaction =
        .ok (.errorOffline, tx, p') ∧
      tx.fee = 1000 ∧ tx.details.firstValid = 6 ∧ ¬ t.Answered .errorOffline tx ∧
      ¬ t.AnswersLoads parseAnswers := by
  have hseen : (providerTxParamsLoad parseAnswers .zero paramsReply blankTransaction >>= fun l =>
      providerVersionGet parseAnswers (providerInit l.2.2 none) versionsReply .zero >>= fun v =>
        providerTxParamsLoad parseAnswers v.2.2 unreachedReply blankTransaction >>= fun r =>
          pure (r.1, r.2.1.fee, r.2.1.details.firstValid)) = .ok (.errorOffline, 1000, 6) := by
    decide +kernel
  obtain ⟨⟨err₁, tx₁, p₁⟩, hload, hseen⟩ := bind_eq_ok.mp hseen
  obtain ⟨⟨err₂, version, p₂⟩, hversion, hseen⟩ := bind_eq_ok.mp hseen
  obtain ⟨⟨err₃, tx, p'⟩, hoffline, hseen⟩ := bind_eq_ok.mp hseen
  obtain ⟨rfl, hfee, hfirst⟩ := pure_eq_ok3.mp hseen
  let t₁ : OfflineSession := ⟨⟨p₁, (paramsReply.genesisHash parseAnswers).toList⟩,
    if err₁ = .success then some (tx₁.fee, tx₁.details.firstValid) else none, none⟩
  let t₂ : OfflineSession := ⟨⟨providerInit p₁ none, []⟩, none, none⟩
  let t₃ : OfflineSession := ⟨⟨p₂, (versionsReply.genesisHash parseAnswers).toList⟩, none,
    if err₂ = .success then some version else none⟩
  have hstep₁ : OfflineStep parseAnswers .start (.txParamsLoad paramsReply blankTransaction) t₁ :=
    ⟨⟨rfl, err₁, tx₁, hload⟩, (loadedAfter_of_ok (t := .start) hload).symm, rfl⟩
  have hstep₂ : OfflineStep parseAnswers t₁ (.init none) t₂ := ⟨rfl, rfl, rfl⟩
  have hstep₃ : OfflineStep parseAnswers t₂ (.versionGet versionsReply .zero) t₃ :=
    ⟨⟨rfl, err₂, version, hversion⟩, rfl, (fetchedAfter_of_ok (t := t₂) hversion).symm⟩
  have hnot : ¬ t₃.Answered .errorOffline tx := by
    intro h
    cases (h.1 rfl).1
  refine ⟨t₃, tx, p', .cons hstep₁ (.cons hstep₂ (.single hstep₃)), rfl, hoffline, hfee, hfirst, hnot, ?_⟩
  intro h
  exact hnot (h _ _ _ _ _ RetCode.noConfusion RetCode.noConfusion hoffline)

end Vertices
