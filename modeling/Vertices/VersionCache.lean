/-
# `Vertices.VersionCache` — what a version request leaves behind

`provider_version_get` reads the answer into the version that the provider keeps, field by
field.  Of its five exits two come after a field was written: a genesis hash that does not
decode leaves the name of the answer, and a request that fails still counts.

    `failed_fetch_keeps_iff`   when a failure leaves the kept version alone
-/
import Vertices.TxParams

namespace Vertices

theorem counted_ne (version : ProviderVersion) : version.counted ≠ version := by
  intro h
  have hcount : version.updateCount + 1 = version.updateCount := congrArg ProviderVersion.updateCount h
  rw [← UInt32.toNat_inj, UInt32.toNat_add, UInt32.toNat_one] at hcount
  have hlt := version.updateCount.toNat_lt
  omega

section

variable {cJSON_Parse : CJsonParse} {p p' : Provider} {reply : HttpReply}
  {version version' : ProviderVersion} {err : RetCode}

/-! ## The name of a refused answer -/

/-- Writing over the beginning of an array changes nothing where it says the same. -/
theorem splice_eq_self_iff {n : Nat} {v : Vector UInt8 n} {bs : List UInt8} (h : 0 + bs.length ≤ n) :
    splice v 0 bs h = v ↔ bs <+: v.toList := by
  rw [← Vector.toList_inj, toList_splice, List.take_zero, List.nil_append, Nat.zero_add]
  constructor
  · intro hsame
    exact ⟨_, hsame⟩
  · rintro ⟨rest, hrest⟩
    rw [← hrest, List.drop_left]

/-- The name is read as it was. -/
theorem readNetwork_same_iff {json : CJson} {held : ProviderVersion}
    (h : readNetwork json version = .ok (.success, held)) :
    held = version ↔
      ∀ id, json.stringItem "genesis_id" = some id → id.bytes ++ [0] <+: version.network.toList := by
  rw [readNetwork.eq_def] at h
  split at h
  · next hnone =>
      obtain ⟨-, rfl⟩ := pure_eq_ok2.mp h
      refine iff_of_true rfl fun id hid => ?_
      cases hnone.symm.trans hid
  · next id hid =>
      split at h
      · cases (pure_eq_ok2.mp h).1
      · obtain ⟨network, hcopy, h⟩ := bind_eq_ok.mp h
        obtain ⟨-, rfl⟩ := pure_eq_ok2.mp h
        obtain ⟨hfits, rfl⟩ := memcpy_eq_ok.mp hcopy
        constructor
        · intro hsame id' hid'
          cases hid.symm.trans hid'
          exact (splice_eq_self_iff hfits).mp (congrArg ProviderVersion.network hsame)
        · intro hbegins
          rw [(splice_eq_self_iff hfits).mpr (hbegins id hid)]

/-- The answer is received; and where its genesis hash does not decode, it has no other name
than the one kept. -/
def RefusedWhole (cJSON_Parse : CJsonParse) (p : Provider) (reply : HttpReply) : Prop :=
  reply.err = .success ∧ ∀ p₁ json id s, httpReceive p reply = .ok p₁ →
    cJSON_Parse p₁.rxString = some json → json.stringItem "genesis_id" = some id → id.strlen < 64 →
      json.stringItem "genesis_hash_b64" = some s → (b64Decode s s.strlen blockHashLength).1 ≠ .success →
        id.bytes ++ [0] <+: p.version.network.toList

/-- A failed request for the version leaves the kept version alone exactly if the answer is
received and none of it was taken before it was refused. -/
theorem failed_fetch_keeps_iff
    (h : providerVersionGet cJSON_Parse p reply version = .ok (err, version', p')) :
    (err ≠ .success → p'.version = p.version) ↔ RefusedWhole cJSON_Parse p reply := by
  obtain ⟨p₁, hrecv, houtcome⟩ := versionGet_outcome h
  have hversion := httpReceive_version hrecv
  cases houtcome with
  | noJson hreply hjson =>
      refine iff_of_true (fun _ => hversion) ⟨hreply, ?_⟩
      intro p₂ json id s hrecv' hjson'
      cases hrecv.symm.trans hrecv'
      cases hjson.symm.trans hjson'
  | longName hreply hjson hid hlong =>
      refine iff_of_true (fun _ => hversion) ⟨hreply, ?_⟩
      intro p₂ json id s hrecv' hjson' hid' hshort
      cases hrecv.symm.trans hrecv'
      cases hjson.symm.trans hjson'
      cases hid.symm.trans hid'
      exact absurd hshort (Nat.not_lt.mpr hlong)
  | badHash hreply hjson hnetwork hs hbad =>
      have hshort := (readNetwork_ok hnetwork).2.2 rfl
      have hsame := readNetwork_same_iff hnetwork
      rw [hversion] at hsame
      constructor
      · intro hkept
        refine ⟨hreply, ?_⟩
        intro p₂ json' id s' hrecv' hjson' hid _ _ _
        cases hrecv.symm.trans hrecv'
        cases hjson.symm.trans hjson'
        exact hsame.mp (hkept hbad) id hid
      · rintro ⟨-, hwhole⟩ _
        exact hsame.mpr fun id hid => hwhole _ _ id _ hrecv hjson hid (hshort id hid) hs hbad
  | taken hreply hjson hnetwork hgenesis hcopy =>
      refine iff_of_true (fun herr => absurd rfl herr) ⟨hreply, ?_⟩
      intro p₂ json' id s hrecv' hjson' _ _ hs hbad
      cases hrecv.symm.trans hrecv'
      cases hjson.symm.trans hjson'
      exact absurd (readGenesisHash_decoded hgenesis hs) hbad
  | failed hreply hcopy =>
      refine iff_of_false (fun hkept => ?_) fun hwhole => hreply hwhole.1
      exact counted_ne p₁.version ((hkept (failedCode_ne hreply)).trans hversion.symm)

end

/-! ## An answer that is refused late -/

/-- A name, and a genesis hash of 48 characters: too many. -/
def lateText : List UInt8 :=
  lit "\x7b\"genesis_id\":\"other\",\"genesis_hash_b64\":\"" ++ List.replicate 48 0x41 ++ lit "\"\x7d"

def lateJson : CJson :=
  .object [(cString (lit "genesis_id"), .string (cString (lit "other"))),
    (cString (lit "genesis_hash_b64"), .string (cString (List.replicate 48 0x41)))]

/-- cJSON on this text. -/
def parseLate : CJsonParse := fun s => if s.bytes = lateText then some lateJson else none

def lateReply : HttpReply := ⟨[lateText], .success, 200⟩

/-- A provider that has the name already. -/
def otherProvider : Provider :=
  { Provider.zero with version := { ProviderVersion.zero with
      network := Vector.ofFn fun i => (lit "other").getD i.val 0 } }

/-- The name is the one kept, and the version stays. -/
theorem failed_fetch_keeps_iff_other :
    ∃ version p, providerVersionGet parseLate otherProvider lateReply .zero = .ok (.errorNoMem, version, p) ∧
      p.version = otherProvider.version := by
  have hseen : (providerVersionGet parseLate otherProvider lateReply .zero >>= fun r => pure r.1) =
      .ok .errorNoMem := by decide +kernel
  obtain ⟨⟨err, version, p⟩, hget, hseen⟩ := bind_eq_ok.mp hseen
  obtain rfl := pure_eq_ok.mp hseen
  refine ⟨version, p, hget, (failed_fetch_keeps_iff hget).mpr ⟨rfl, ?_⟩ RetCode.noConfusion⟩
  intro p₁ json id s hrecv hjson hid _ _ _
  have htext : p₁.rxString.bytes = lateText := by
    rw [rxString_receive (List.cons_ne_nil _ _) hrecv]
    decide +kernel
  rw [parseLate, if_pos htext] at hjson
  cases hjson
  have hname : lateJson.stringItem "genesis_id" = some (cString (lit "other")) := by decide +kernel
  cases hname.symm.trans hid
  decide +kernel

/-- Another name is left in the version by an answer that is refused, and a request that never
reached the node is counted. -/
theorem failed_fetch_writes :
    (∃ version p, providerVersionGet parseLate .zero lateReply .zero = .ok (.errorNoMem, version, p) ∧
      (cString p.version.network.toList).bytes = lit "other" ∧ p.version ≠ Provider.zero.version) ∧
    ∃ version p, providerVersionGet parseLate .zero ⟨[], .errorInternal, 0⟩ .zero =
        .ok (.errorInternal, version, p) ∧
      p.version.updateCount = 1 ∧ p.version ≠ Provider.zero.version := by
  have hnames : (cString Provider.zero.version.network.toList).bytes ≠ lit "other" := by decide +kernel
  have hlate : (providerVersionGet parseLate .zero lateReply .zero >>= fun r =>
      pure (r.1, (cString r.2.2.version.network.toList).bytes)) = .ok (.errorNoMem, lit "other") := by
    decide +kernel
  have hfailed : (providerVersionGet parseLate .zero ⟨[], .errorInternal, 0⟩ .zero >>= fun r =>
      pure (r.1, r.2.2.version.updateCount)) = .ok (.errorInternal, 1) := by decide +kernel
  obtain ⟨⟨err, version, p⟩, hget, hlate⟩ := bind_eq_ok.mp hlate
  obtain ⟨rfl, hname⟩ := pure_eq_ok2.mp hlate
  obtain ⟨⟨err', version', p'⟩, hget', hfailed⟩ := bind_eq_ok.mp hfailed
  obtain ⟨rfl, hcount⟩ := pure_eq_ok2.mp hfailed
  refine ⟨⟨version, p, hget, hname, fun hsame => ?_⟩, version', p', hget', hcount, fun hsame => ?_⟩
  · rw [hsame] at hname
    exact hnames hname
  · rw [hsame] at hcount
    exact absurd hcount (by decide)

end Vertices
