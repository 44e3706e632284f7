/-
# `Vertices.PhraseAcceptance` — which strings `seed_from_mnemonic` decides on

Only the number of words is tested.  Of 25 words none may be unknown, or the process
ends; and if all are known the 33 bytes they hold are written to a block of 32.  So every
string of 25 words leaves the function other than by its return, the valid ones with the
rest.
-/
import Vertices.MnemonicRoundTrip

namespace Vertices

/-! ## Looking words up -/

theorem lookupWordMap_known {w : CStr} (h : w ∈ englishVec) :
    ∃ v, v < 2 ^ 11 ∧ lookupWordMap englishVec.zipIdx w = .ok v := by
  obtain ⟨i, hi⟩ := List.mem_iff_getElem?.mp h
  have hlt : i < englishVec.length := (List.getElem?_eq_some_iff.mp hi).1
  have hlook := lookupWordMap_zipIdx (k := 0) nodup_englishVec hi
  rw [Nat.zero_add] at hlook
  rw [length_englishVec] at hlt
  exact ⟨i, hlt, hlook⟩

theorem lookupWordMap_unknown {w : CStr} {vec : List CStr} :
    ∀ {k : Nat}, w ∉ vec → lookupWordMap (vec.zipIdx k) w = .error .exit := by
  induction vec with
  | nil =>
      intro k _
      rfl
  | cons v vec ih =>
      intro k h
      rw [List.mem_cons, not_or] at h
      rw [List.zipIdx_cons, lookupWordMap, if_neg (Ne.symm h.1)]
      exact ih h.2

/-! ## Unpacking 24 words -/

/-- A known word takes its eleven bits, and pushes the whole bytes there are. -/
theorem unpackWords_known {w : CStr} (hw : w ∈ englishVec) (ws : List CStr) (u : Unpacked)
    (hroom : u.data.length + (u.bits + 11) / 8 ≤ 32) :
    ∃ u', u'.bits = (u.bits + 11) % 8 ∧ u'.data.length = u.data.length + (u.bits + 11) / 8 ∧
      unpackWords englishVec.zipIdx u (w :: ws) = unpackWords englishVec.zipIdx u' ws := by
  obtain ⟨v, -, hlook⟩ := lookupWordMap_known hw
  let held : UInt32 := u.val ||| (UInt32.ofNat v <<< UInt32.ofNat u.bits)
  let pushed : List UInt8 := (Radix.low 8 ((u.bits + 11) / 8) held.toNat).map UInt8.ofNat
  have hpushed : pushed.length = (u.bits + 11) / 8 := by rw [List.length_map, Radix.length_low]
  obtain ⟨rest, -, hdrain⟩ := drainBits_eq held (u.bits + 11)
  have hpush : pushed.foldlM pushSeed u.data = .ok (u.data ++ pushed) := by
    rw [foldlM_pushSeed (Nat.le_trans (Nat.le_add_right _ _) hroom), hpushed, if_pos hroom]
  refine ⟨⟨u.data ++ pushed, rest, (u.bits + 11) % 8⟩, rfl, ?_, ?_⟩
  · rw [List.length_append, hpushed]
  · rw [unpackWords, hlook]
    show (drainBits u.data held (u.bits + 11) >>= fun u' => unpackWords englishVec.zipIdx u' ws) = _
    rw [hdrain]
    show ((pushed.foldlM pushSeed u.data >>= _) >>= _) = _
    rw [hpush]
    rfl

/-- An unknown word among the first 24 ends the process before the block is full. -/
theorem unpackWords_unknown {ws : List CStr} :
    ∀ u : Unpacked, (∃ w ∈ ws, w ∉ englishVec) → 8 * u.data.length + u.bits + 11 * ws.length ≤ 264 →
      unpackWords englishVec.zipIdx u ws = .error .exit := by
  induction ws with
  | nil =>
      rintro u ⟨w, hw, -⟩
      exact absurd hw List.not_mem_nil
  | cons w ws ih =>
      rintro u ⟨w', hw', hunknown⟩ hroom
      rw [List.length_cons] at hroom
      by_cases hw : w ∈ englishVec
      · rcases List.mem_cons.mp hw' with rfl | hw'
        · exact absurd hw hunknown
        have hpos : 0 < ws.length := List.length_pos_of_mem hw'
        obtain ⟨u', hbits, hdata, hstep⟩ := unpackWords_known hw ws u (by omega)
        rw [hstep]
        exact ih u' ⟨w', hw', hunknown⟩ (by omega)
      · rw [unpackWords, lookupWordMap_unknown hw]
        rfl

/-- 24 known words hold 33 bytes. -/
theorem unpackWords_full {ws : List CStr} (hlen : ws.length = 24) (h : ∀ w ∈ ws, w ∈ englishVec) :
    unpackWords englishVec.zipIdx { data := [], val := 0, bits := 0 } ws >>= flushBits =
      .error .outOfBounds := by
  have hvalues : ∃ vs, List.Forall₂
      (fun w v => lookupWordMap englishVec.zipIdx w = .ok v ∧ v < 2 ^ 11) ws vs := by
    clear hlen
    induction ws with
    | nil => exact ⟨[], .nil⟩
    | cons w ws ih =>
        rw [List.forall_mem_cons] at h
        obtain ⟨v, hv, hlook⟩ := lookupWordMap_known h.1
        obtain ⟨vs, hvs⟩ := ih h.2
        exact ⟨v :: vs, .cons ⟨hlook, hv⟩ hvs⟩
  obtain ⟨vs, hvs⟩ := hvalues
  have hbytes : (Radix.regroup 11 8 0 0 vs).length = 33 := by
    rw [Radix.length_regroup (by decide), ← hvs.length_eq, hlen]
  rw [unpackWords_eq hvs _ (by decide) (by decide)]
  show ((Radix.regroup 11 8 0 0 vs).map UInt8.ofNat).foldlM pushSeed [] = _
  rw [foldlM_pushSeed (by decide), List.length_map, hbytes]
  rfl

/-! ## Every string -/

/-- The last word is the checksum word. -/
theorem exists_checkword {vec : List CStr} (hne : vec ≠ []) :
    ∃ checkword, vec.getLast? = some checkword ∧ vec.dropLast.length + 1 = vec.length := by
  obtain ⟨checkword, hlast⟩ := Option.ne_none_iff_exists'.mp (mt List.getLast?_eq_none_iff.mp hne)
  have hpos : 0 < vec.length := List.length_pos_iff.mpr hne
  refine ⟨checkword, hlast, ?_⟩
  rw [List.length_dropLast]
  omega

/-- `seed_from_mnemonic` returns for some number of words other than 25, and then with an
error. -/
theorem seedFromMnemonic_returns {H : MbedtlsSha512} {words : Words} {m : CStr}
    (hne : makeWordVector m ≠ []) (hlen : (makeWordVector m).length ≠ 25) :
    seedFromMnemonic H words m = .ok (.errorInternal, none) := by
  obtain ⟨checkword, hlast, hdrop⟩ := exists_checkword hne
  rw [seedFromMnemonic, hlast]
  exact if_pos (by omega)

/-- 24 words and the checksum word. -/
theorem words_25 {vec : List CStr} (hlen : vec.length = 25) :
    ∃ checkword, vec.getLast? = some checkword ∧ vec.dropLast.length = 24 ∧
      ((∀ w ∈ vec, w ∈ englishVec) ↔
        (∀ w ∈ vec.dropLast, w ∈ englishVec) ∧ checkword ∈ englishVec) := by
  have hne : vec ≠ [] := by
    apply List.ne_nil_of_length_pos
    rw [hlen]
    exact Nat.succ_pos 24
  obtain ⟨checkword, hlast, hdrop⟩ := exists_checkword hne
  refine ⟨checkword, hlast, by omega, ?_⟩
  have hvec : vec.dropLast ++ [checkword] = vec := List.dropLast_append_getLast? checkword hlast
  have happend : (∀ w ∈ vec.dropLast ++ [checkword], w ∈ englishVec) ↔ _ := List.forall_mem_append
  rw [hvec, List.forall_mem_singleton] at happend
  exact happend

/-- 25 words: one that is unknown ends the process, and known ones overrun the block. -/
theorem seedFromMnemonic_25 {H : MbedtlsSha512} {m : CStr} (hlen : (makeWordVector m).length = 25) :
    seedFromMnemonic H { wordVec := englishVec, wordMap := englishVec.zipIdx } m =
      .error (if ∀ w ∈ makeWordVector m, w ∈ englishVec then .outOfBounds else .exit) := by
  obtain ⟨checkword, hlast, hdrop, hwords⟩ := words_25 hlen
  rw [seedFromMnemonic, hlast]
  dsimp only
  rw [if_neg (not_not.mpr hdrop)]
  by_cases hcheck : checkword ∈ englishVec
  · obtain ⟨v, -, hlook⟩ := lookupWordMap_known hcheck
    rw [hlook]
    show (unpackWords _ _ _ >>= fun u => flushBits u >>= _) = _
    by_cases hall : ∀ w ∈ (makeWordVector m).dropLast, w ∈ englishVec
    · rw [if_pos (hwords.mpr ⟨hall, hcheck⟩), ← bind_assoc, unpackWords_full hdrop hall]
      rfl
    · have hunknown : ∃ w ∈ (makeWordVector m).dropLast, w ∉ englishVec := by
        simpa only [not_forall, exists_prop] using hall
      rw [if_neg fun h => hall (hwords.mp h).1, unpackWords_unknown _ hunknown (by rw [hdrop]; decide)]
      rfl
  · rw [if_neg fun h => hcheck (hwords.mp h).2, lookupWordMap_unknown hcheck]
    rfl

/-! ## Valid phrases -/

/-- The tokens are the words of the seed and the word of its checksum. -/
def IsPhrase (H : MbedtlsSha512) (seed : Vector UInt8 32) (tokens : List CStr) : Prop :=
  ∃ check, checksum H seed.toList = .ok check ∧
    tokens.map some = (b2048Encode seed.toList ++ [check]).map fun i => englishVec[i.toNat]?

theorem IsPhrase.length_eq {H : MbedtlsSha512} {seed : Vector UInt8 32} {tokens : List CStr}
    (h : IsPhrase H seed tokens) : tokens.length = 25 := by
  obtain ⟨check, -, htokens⟩ := h
  have hlen := congrArg List.length htokens
  rw [List.length_map, List.length_map, List.length_append, length_b2048Encode,
    Vector.length_toList] at hlen
  exact hlen

theorem IsPhrase.known {H : MbedtlsSha512} {seed : Vector UInt8 32} {tokens : List CStr}
    (h : IsPhrase H seed tokens) : ∀ w ∈ tokens, w ∈ englishVec := by
  obtain ⟨check, -, htokens⟩ := h
  intro w hw
  have hmem : some w ∈ tokens.map some := List.mem_map_of_mem hw
  rw [htokens] at hmem
  obtain ⟨i, -, hi⟩ := List.mem_map.mp hmem
  exact List.mem_of_getElem? hi

/-- After `initialize_mnemonic` the string is accepted, with its seed, if it is a phrase;
if it is none, an error is returned. -/
def Decides (H : MbedtlsSha512) (m : CStr) : Prop :=
  ∃ words, initializeMnemonic = .ok words ∧
    (∀ seed : Vector UInt8 32, seedFromMnemonic H words m = .ok (.success, some seed.toList) ↔
      IsPhrase H seed (makeWordVector m)) ∧
    ((∀ seed, ¬ IsPhrase H seed (makeWordVector m)) →
      ∃ err seed, seedFromMnemonic H words m = .ok (err, seed) ∧ err ≠ .success)

theorem Decides.returns {H : MbedtlsSha512} {m : CStr} (h : Decides H m) :
    ∃ r, seedFromMnemonic H { wordVec := englishVec, wordMap := englishVec.zipIdx } m = .ok r := by
  obtain ⟨words, hi, haccepts, hrejects⟩ := h
  rw [initializeMnemonic_eq, Except.ok.injEq] at hi
  subst hi
  by_cases hphrase : ∃ seed, IsPhrase H seed (makeWordVector m)
  · obtain ⟨seed, hseed⟩ := hphrase
    exact ⟨_, (haccepts seed).mpr hseed⟩
  · obtain ⟨err, seed, hreject, -⟩ := hrejects (not_exists.mp hphrase)
    exact ⟨_, hreject⟩

theorem Decides.length_ne {H : MbedtlsSha512} {m : CStr} (h : Decides H m) :
    (makeWordVector m).length ≠ 25 := by
  intro hlen
  obtain ⟨r, hr⟩ := h.returns
  cases (seedFromMnemonic_25 hlen).symm.trans hr

/-- **Only a wrong number of words is decided on.** -/
theorem seed_from_mnemonic_decides_iff (H : MbedtlsSha512) (m : CStr) :
    Decides H m ↔ makeWordVector m ≠ [] ∧ (makeWordVector m).length ≠ 25 := by
  constructor
  · intro h
    refine ⟨fun hnil => ?_, h.length_ne⟩
    obtain ⟨r, hr⟩ := h.returns
    rw [seedFromMnemonic, hnil] at hr
    cases hr
  · rintro ⟨hne, hlen⟩
    refine ⟨_, initializeMnemonic_eq, fun seed => ?_, fun _ => ?_⟩
    · rw [seedFromMnemonic_returns hne hlen]
      exact iff_of_false (fun h => by cases h) fun h => hlen h.length_eq
    · exact ⟨_, _, seedFromMnemonic_returns hne hlen, RetCode.noConfusion⟩

/-! ## Two strings -/

/-- The phrase of the zero seed, a word a line. -/
def zeroLines : CStr := zeroMnemonic.lines

/-- 25 lines of "x". -/
def unknownLines : CStr where
  bytes := (List.replicate 25 (lit "x\n")).flatten
  noNul := by decide +kernel

theorem isPhrase_zeroLines : IsPhrase sha512OfZeros zeroSeed (makeWordVector zeroLines) :=
  ⟨UInt16.ofNat (0x3af : Nat), by decide +kernel, by decide +kernel⟩

/-- A valid phrase overruns the block, and unknown words end the process. -/
theorem phrase_not_decided :
    IsPhrase sha512OfZeros zeroSeed (makeWordVector zeroLines) ∧ ¬ Decides sha512OfZeros zeroLines ∧
      seedFromMnemonic sha512OfZeros { wordVec := englishVec, wordMap := englishVec.zipIdx }
        unknownLines = .error .exit ∧ ¬ Decides sha512OfZeros unknownLines := by
  have hlen : (makeWordVector unknownLines).length = 25 := by decide +kernel
  refine ⟨isPhrase_zeroLines, fun h => h.length_ne isPhrase_zeroLines.length_eq, ?_,
    fun h => h.length_ne hlen⟩
  rw [seedFromMnemonic_25 hlen, if_neg]
  intro h
  exact absurd (h (cString (lit "x")) (by decide +kernel)) (by decide +kernel)

end Vertices
