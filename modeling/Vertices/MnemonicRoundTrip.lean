/-
# `Vertices.MnemonicRoundTrip` — a seed, its mnemonic, and the seed again

`mnemonic_from_seed` puts a space between its words and `seed_from_mnemonic` cuts at
line feeds, so the whole mnemonic comes back as one word.  Apart from that the two
agree: with line feeds for the spaces every word is found again and the bits unpack to
the seed and one zero byte, which no longer fits the block allocated for it.
-/
import Mathlib.Data.List.Nodup
import Mathlib.Data.List.TakeWhile
import Vertices.Mnemonic

namespace Vertices

/-! ## The word list -/

/-- The words as C strings. -/
def englishVec : List CStr := englishWords.map fun w => cString (lit w)

theorem length_englishVec : englishVec.length = 2048 := by
  rw [englishVec, List.length_map, length_englishWords]

/-- A string without `\0` is read back whole. -/
theorem bytes_cString_lit {w : String} (hw : w ∈ englishWords) : (cString (lit w)).bytes = lit w :=
  bytes_cString fun h => absurd ((english_letters w hw).2 0 h).1 (by decide)

theorem englishVec_letters {w : CStr} (hw : w ∈ englishVec) :
    w.bytes ≠ [] ∧ ∀ c ∈ w.bytes, 97 ≤ c ∧ c ≤ 122 := by
  obtain ⟨v, hv, rfl⟩ := List.mem_map.mp hw
  rw [bytes_cString_lit hv]
  exact english_letters v hv

/-- A list whose neighbours ascend. -/
theorem isChain_of_neighbours {α : Type} {r : α → α → Prop} [DecidableRel r] :
    ∀ {l : List α}, ((l.zip l.tail).all fun p => decide (r p.1 p.2)) = true → l.IsChain r
  | [], _ => .nil
  | [a], _ => .singleton a
  | a :: b :: l, h => by
      rw [List.tail_cons, List.zip_cons_cons, List.all_cons, Bool.and_eq_true,
        decide_eq_true_eq] at h
      exact .cons_cons h.1 (isChain_of_neighbours h.2)

/-- The words are in alphabetical order, so no two are the same. -/
theorem english_sorted : (englishWords.map lit).IsChain (· < ·) :=
  isChain_of_neighbours (by decide +kernel)

theorem nodup_englishVec : englishVec.Nodup := by
  have hlit : (englishWords.map lit).Nodup :=
    (List.isChain_iff_pairwise.mp english_sorted).imp fun {a b} h (he : a = b) =>
      List.lt_irrefl b (he ▸ h)
  have hbytes : englishVec.map CStr.bytes = englishWords.map lit := by
    rw [englishVec, List.map_map]
    exact List.map_congr_left fun w hw => bytes_cString_lit hw
  rw [← hbytes] at hlit
  exact List.Nodup.of_map CStr.bytes hlit

/-- Words that are followed by a separator, and hold none, are found again. -/
theorem splitOn_flatMap {sep : UInt8} : ∀ {ws : List (List UInt8)}, (∀ w ∈ ws, sep ∉ w) →
    ∀ last : List UInt8, sep ∉ last →
      ((ws.flatMap fun w => w ++ [sep]) ++ last).splitOn sep = ws ++ [last] := by
  intro ws
  induction ws with
  | nil =>
      intro _ last hl
      exact List.splitOn_eq_singleton hl
  | cons w ws ih =>
      intro h last hl
      rw [List.flatMap_cons, List.append_assoc, List.append_assoc, List.singleton_append,
        List.splitOn_append_cons_self_of_not_mem (h w List.mem_cons_self),
        ih (fun v hv => h v (List.mem_cons_of_mem _ hv)) last hl, List.cons_append]

theorem makeWordVector_english : makeWordVector english = englishVec := by
  have hlf : ∀ w ∈ englishWords.map lit, (0x0a : UInt8) ∉ w := by
    intro w hw h
    obtain ⟨v, hv, rfl⟩ := List.mem_map.mp hw
    exact absurd ((english_letters v hv).2 _ h).1 (by decide)
  have hne : ∀ w ∈ englishWords.map lit, decide (w ≠ []) = true := by
    intro w hw
    obtain ⟨v, hv, rfl⟩ := List.mem_map.mp hw
    exact decide_eq_true (english_letters v hv).1
  have hsplit := splitOn_flatMap hlf [] (by decide)
  rw [List.flatMap_map, List.append_nil] at hsplit
  have hbytes : english.bytes = englishWords.flatMap fun w => lit w ++ [0x0a] := rfl
  rw [makeWordVector, hbytes, hsplit, List.filter_append,
    List.filter_eq_self.mpr hne, englishVec]
  simp

theorem initializeMnemonic_eq :
    initializeMnemonic = .ok { wordVec := englishVec, wordMap := englishVec.zipIdx } := by
  rw [initializeMnemonic, makeWordMap, makeWordVector_english, length_englishVec]
  rfl

theorem wordAt_englishVec {i : Nat} (hi : i < 2048) :
    ∃ w ∈ englishVec, englishVec[i]? = some w ∧ wordAt englishVec i = .ok w := by
  have hi' : i < englishVec.length := by rw [length_englishVec]; exact hi
  have hget : englishVec[i]? = some englishVec[i] := List.getElem?_eq_getElem hi'
  exact ⟨englishVec[i], List.getElem_mem hi', hget, by rw [wordAt, hget]; rfl⟩

/-- A word's index in the list is the value `word_map` has for it. -/
theorem lookupWordMap_zipIdx {vec : List CStr} {k i : Nat} {w : CStr} (hn : vec.Nodup)
    (h : vec[i]? = some w) : lookupWordMap (vec.zipIdx k) w = .ok (k + i) := by
  induction vec generalizing k i with
  | nil => exact nomatch h
  | cons v vec ih =>
      obtain ⟨hnot, hn⟩ := List.nodup_cons.mp hn
      cases i with
      | zero =>
          cases h
          rw [List.zipIdx_cons, lookupWordMap, if_pos rfl]
          rfl
      | succ i =>
          have hvw : v ≠ w := by
            rintro rfl
            exact hnot (List.mem_of_getElem? h)
          rw [List.zipIdx_cons, lookupWordMap, if_neg hvw, ih hn h, Nat.add_assoc, Nat.add_comm 1]

/-! ## The mnemonic -/

/-- `ws` are the words with the indices `is`. -/
def Spells (is : List UInt16) (ws : List CStr) : Prop :=
  List.Forall₂ (fun i w => englishVec[i.toNat]? = some w) is ws

theorem Spells.mem {is : List UInt16} {ws : List CStr} (h : Spells is ws) :
    ∀ w ∈ ws, w ∈ englishVec := by
  induction h with
  | nil => exact fun w hw => nomatch hw
  | cons hi _ ih =>
      intro w hw
      rcases List.mem_cons.mp hw with rfl | hw
      · exact List.mem_of_getElem? hi
      · exact ih w hw

/-- The bytes of `ws`, each followed by `sep`. -/
def spelled (sep : UInt8) (ws : List CStr) : List UInt8 :=
  ws.flatMap fun w => w.bytes ++ [sep]

theorem joinWords_ok : ∀ {is : List UInt16} (m : CStr), (∀ i ∈ is, i.toNat < 2048) →
    ∃ ws r, Spells is ws ∧ joinWords englishVec m is = .ok r ∧
      r.bytes = m.bytes ++ spelled 0x20 ws := by
  intro is
  induction is with
  | nil =>
      intro m _
      exact ⟨[], m, .nil, rfl, by simp [spelled]⟩
  | cons i is ih =>
      intro m h
      obtain ⟨w, _, hget, hw⟩ := wordAt_englishVec (h i List.mem_cons_self)
      obtain ⟨ws, r, hs, hr, hb⟩ := ih ((m.strcat w).strcat space)
        fun j hj => h j (List.mem_cons_of_mem _ hj)
      refine ⟨w :: ws, r, .cons hget hs, ?_, ?_⟩
      · rw [joinWords, hw]
        exact hr
      · rw [hb, bytes_strcat, bytes_strcat]
        simp [space, spelled]

/-- A checksum is one of the 2048 values a word can have. -/
theorem checksum_lt {H : MbedtlsSha512} {b : List UInt8} {check : UInt16}
    (h : checksum H b = .ok check) : check.toNat < 2048 := by
  rw [checksum] at h
  obtain ⟨⟨errCode, result⟩, _, h⟩ := bind_eq_ok.mp h
  dsimp only at h
  split at h
  · exact absurd h (throw_ne_ok _ _)
  · split at h
    · next hmem =>
        cases pure_eq_ok.mp h
        exact b2048Encode_lt (hmem ▸ List.mem_cons_self)
    · exact absurd h (throw_ne_ok _ _)

/-- What `mnemonic_from_seed` returns: a word for each eleven bits of the seed, each
followed by a space, and the word of the checksum. -/
theorem mnemonicFromSeed_ok {H : MbedtlsSha512} {seed : List UInt8} {check : UInt16}
    (hc : checksum H seed = .ok check) :
    ∃ ws checkword m, Spells (b2048Encode seed) ws ∧
      englishVec[check.toNat]? = some checkword ∧
      mnemonicFromSeed H { wordVec := englishVec, wordMap := englishVec.zipIdx } seed =
        .ok (.success, m) ∧
      m.bytes = spelled 0x20 ws ++ checkword.bytes := by
  obtain ⟨ws, r, hs, hr, hb⟩ := joinWords_ok ⟨[], by decide⟩ fun i hi => b2048Encode_lt hi
  obtain ⟨cw, _, hget, hcw⟩ := wordAt_englishVec (checksum_lt hc)
  refine ⟨ws, cw, r.strcat cw, hs, hget, ?_, ?_⟩
  · rw [mnemonicFromSeed]
    dsimp only
    rw [hr, hc]
    show (wordAt englishVec check.toNat >>= _) = _
    rw [hcw]
    rfl
  · rw [bytes_strcat, hb]
    rfl

theorem spelled_chars {sep : UInt8} {ws : List CStr} (hw : ∀ w ∈ ws, w ∈ englishVec) :
    ∀ c ∈ spelled sep ws, c = sep ∨ 97 ≤ c ∧ c ≤ 122 := by
  intro c hc
  obtain ⟨w, hmem, hc⟩ := List.mem_flatMap.mp hc
  rcases List.mem_append.mp hc with hc | hc
  · exact .inr ((englishVec_letters (hw w hmem)).2 c hc)
  · exact .inl (List.mem_singleton.mp hc)

/-- A mnemonic has no line feed, so it is a single token. -/
theorem makeWordVector_mnemonic {ws : List CStr} {checkword m : CStr}
    (hw : ∀ w ∈ ws, w ∈ englishVec) (hcw : checkword ∈ englishVec)
    (hm : m.bytes = spelled 0x20 ws ++ checkword.bytes) : makeWordVector m = [m] := by
  have hlf : (0x0a : UInt8) ∉ m.bytes := by
    intro h
    rw [hm] at h
    rcases List.mem_append.mp h with h | h
    · exact absurd (spelled_chars hw _ h) (by decide)
    · exact absurd ((englishVec_letters hcw).2 _ h) (by decide)
  have hne : m.bytes ≠ [] := by
    rw [hm]
    exact List.append_ne_nil_of_right_ne_nil _ (englishVec_letters hcw).1
  have hself : cString m.bytes = m := CStr.ext (bytes_cString m.noNul)
  rw [makeWordVector, List.splitOn_eq_singleton hlf, List.filter_cons_of_pos (by simpa using hne),
    List.filter_nil, List.map_singleton, hself]

/-- `seed_from_mnemonic` wants 24 words and a checksum word. -/
theorem seedFromMnemonic_one_word {H : MbedtlsSha512} {words : Words} {m : CStr}
    (h : makeWordVector m = [m]) : seedFromMnemonic H words m = .ok (.errorInternal, none) := by
  rw [seedFromMnemonic, h]
  rfl

/-- A mnemonic that `mnemonic_from_seed` returns. -/
theorem mnemonicFromSeed_eq_ok {H : MbedtlsSha512} {seed : List UInt8} {code : RetCode} {m : CStr}
    (hm : mnemonicFromSeed H { wordVec := englishVec, wordMap := englishVec.zipIdx } seed =
      .ok (code, m)) :
    code = .success ∧ ∃ check ws checkword, Spells (b2048Encode seed) ws ∧
      englishVec[UInt16.toNat check]? = some checkword ∧
      m.bytes = spelled 0x20 ws ++ checkword.bytes := by
  have hm' := hm
  obtain ⟨r, _, hm'⟩ := bind_eq_ok.mp hm'
  obtain ⟨check, hc, _⟩ := bind_eq_ok.mp hm'
  obtain ⟨ws, cw, m', hs, hget, hok, hbytes⟩ := mnemonicFromSeed_ok hc
  rw [hok, Except.ok.injEq, Prod.mk.injEq] at hm
  obtain ⟨rfl, rfl⟩ := hm
  exact ⟨rfl, check, ws, cw, hs, hget, hbytes⟩

/-- What `mnemonic_from_seed` produces is rejected. -/
theorem mnemonic_rejected {H : MbedtlsSha512} {words : Words} {seed : List UInt8} {code : RetCode}
    {m : CStr} (hi : initializeMnemonic = .ok words)
    (hm : mnemonicFromSeed H words seed = .ok (code, m)) :
    seedFromMnemonic H words m = .ok (.errorInternal, none) := by
  rw [initializeMnemonic_eq, Except.ok.injEq] at hi
  subst hi
  obtain ⟨_, _, ws, cw, hs, hget, hbytes⟩ := mnemonicFromSeed_eq_ok hm
  exact seedFromMnemonic_one_word
    (makeWordVector_mnemonic hs.mem (List.mem_of_getElem? hget) hbytes)

/-! ## Unpacking -/

/-- The pushes of one call fill the block, or overrun it. -/
theorem foldlM_pushSeed : ∀ {bs data : List UInt8}, data.length ≤ 32 →
    bs.foldlM pushSeed data =
      if data.length + bs.length ≤ 32 then .ok (data ++ bs) else .error .outOfBounds := by
  intro bs
  induction bs with
  | nil =>
      intro data h
      rw [List.foldlM_nil, List.length_nil, Nat.add_zero, if_pos h, List.append_nil]
      rfl
  | cons b bs ih =>
      intro data h
      rw [List.foldlM_cons, pushSeed, List.length_cons]
      split
      · next hlt =>
          have hlen : (data ++ [b]).length = data.length + 1 := by simp
          show List.foldlM pushSeed (data ++ [b]) bs = _
          rw [ih (by omega), hlen, List.append_assoc, List.singleton_append,
            Nat.add_right_comm, Nat.add_assoc]
      · next hge =>
          rw [if_neg (by omega)]
          rfl

/-- `val & 0xFF`, as a byte. -/
theorem toUInt8_low8 (val : UInt32) :
    (val &&& 0xFF).toUInt8 = UInt8.ofNat (val.toNat % 2 ^ 8) := by
  have hmask : (val &&& 0xFF).toNat = val.toNat % 2 ^ 8 := by
    rw [UInt32.toNat_and]
    exact Nat.and_two_pow_sub_one_eq_mod _ 8
  apply UInt8.toNat_inj.mp
  rw [UInt32.toNat_toUInt8, hmask, UInt8.toNat_ofNat']

/-- `while (bits >= 8)` pushes the whole bytes that `val` holds. -/
theorem drainBits_eq (val : UInt32) (bits : Nat) :
    ∃ rest : UInt32, rest.toNat = val.toNat / 2 ^ (8 * (bits / 8)) ∧ ∀ data,
      drainBits data val bits =
        ((Radix.low 8 (bits / 8) val.toNat).map UInt8.ofNat).foldlM pushSeed data >>=
          fun data => pure { data, val := rest, bits := bits % 8 } := by
  induction bits using Nat.strongRecOn generalizing val with
  | ind bits ih =>
      by_cases h8 : 8 ≤ bits
      · obtain ⟨rest, hrest, hdrain⟩ := ih (bits - 8) (by omega) (val >>> 8)
        have hshift : (val >>> 8).toNat = val.toNat / 2 ^ 8 :=
          toNat_shiftRight_ofNat val (k := 8) (by decide)
        have hk : bits / 8 = (bits - 8) / 8 + 1 := by omega
        have hmod : (bits - 8) % 8 = bits % 8 := by omega
        refine ⟨rest, ?_, fun data => ?_⟩
        · rw [hrest, hshift, Nat.div_div_eq_div_mul, ← Nat.pow_add, hk, Nat.mul_succ, Nat.add_comm]
        · rw [drainBits, if_pos h8, hk, Radix.low, List.map_cons, List.foldlM_cons, toUInt8_low8,
            ← hshift, bind_assoc]
          congr 1
          funext data
          rw [hdrain, hmod]
      · have hk : bits / 8 = 0 := by omega
        refine ⟨val, by simp [hk], fun data => ?_⟩
        rw [drainBits, if_neg h8, hk, Nat.mod_eq_of_lt (by omega), Radix.low, List.map_nil,
          List.foldlM_nil, pure_bind]

/-- The words' values, regrouped into bytes, are what `seed_from_mnemonic` pushes. -/
theorem unpackWords_eq {map : List (CStr × Nat)} {ws : List CStr} {vs : List Nat}
    (h : List.Forall₂ (fun w v => lookupWordMap map w = .ok v ∧ v < 2 ^ 11) ws vs) :
    ∀ u : Unpacked, u.bits < 8 → u.val.toNat < 2 ^ u.bits →
      unpackWords map u ws >>= flushBits =
        ((Radix.regroup 11 8 u.val.toNat u.bits vs).map UInt8.ofNat).foldlM pushSeed u.data := by
  induction h with
  | nil =>
      intro u hb hv
      rw [unpackWords, pure_bind, flushBits, Radix.regroup]
      split
      · next h0 =>
          have hlt : u.val.toNat < 2 ^ 8 :=
            Nat.lt_of_lt_of_le hv (Nat.pow_le_pow_right (by decide) hb.le)
          rw [if_neg (by omega), toUInt8_low8, Nat.mod_eq_of_lt hlt, List.map_singleton,
            List.foldlM_cons]
          simp
      · next h0 =>
          rw [if_pos (by omega), List.map_nil, List.foldlM_nil]
  | @cons w v ws vs hw _ ih =>
      intro u hb hv
      obtain ⟨hlook, hv11⟩ := hw
      have hofNat : (UInt32.ofNat v).toNat = v := by
        rw [UInt32.toNat_ofNat']
        omega
      have hor := toNat_or_shiftLeft hv (hofNat.symm ▸ hv11) (by omega : u.bits + 11 < 32)
      rw [hofNat] at hor
      have hheld := Radix.held_lt hv hv11
      obtain ⟨rest, hrest, hdrain⟩ :=
        drainBits_eq (u.val ||| (UInt32.ofNat v <<< UInt32.ofNat u.bits)) (u.bits + 11)
      rw [hor] at hrest hdrain
      have hrest' : rest.toNat < 2 ^ ((u.bits + 11) % 8) := by
        rw [hrest]
        exact Radix.rest_lt hheld
      rw [unpackWords, hlook]
      show (drainBits _ _ _ >>= fun u => unpackWords map u ws) >>= flushBits = _
      rw [hdrain, Radix.regroup, List.map_append, List.foldlM_append, ← hrest, bind_assoc,
        bind_assoc]
      congr 1
      funext data
      rw [pure_bind]
      exact ih { data, val := rest, bits := (u.bits + 11) % 8 } (Nat.mod_lt _ (by decide)) hrest'

theorem Spells.lookup {is : List UInt16} {ws : List CStr} (h : Spells is ws)
    (hlt : ∀ i ∈ is, i.toNat < 2048) :
    List.Forall₂ (fun w v => lookupWordMap englishVec.zipIdx w = .ok v ∧ v < 2 ^ 11) ws
      (is.map UInt16.toNat) := by
  induction h with
  | nil => exact .nil
  | cons hi _ ih =>
      refine .cons ⟨?_, hlt _ List.mem_cons_self⟩ (ih fun i hi => hlt i (List.mem_cons_of_mem _ hi))
      have := lookupWordMap_zipIdx (k := 0) nodup_englishVec hi
      rwa [Nat.zero_add] at this

/-- The words of a seed hold its 32 bytes and eight bits of padding. -/
theorem regroup_b2048Encode (seed : Vector UInt8 32) :
    (Radix.regroup 11 8 0 0 ((b2048Encode seed.toList).map UInt16.toNat)).map UInt8.ofNat =
      seed.toList ++ [0] := by
  rw [b2048Encode_eq, Radix.regroup_regroup (k := 1) (by decide) (by decide) (byte_digits _)
      (by rw [List.length_map, Vector.length_toList]), List.map_append, map_ofNat_toNat]
  rfl

/-- The mnemonic with line feeds for the spaces. -/
def CStr.lines (m : CStr) : CStr where
  bytes := m.bytes.map fun c => if c = 0x20 then 0x0a else c
  noNul h := by
    obtain ⟨c, hc, h0⟩ := List.mem_map.mp h
    split at h0
    · exact absurd h0 (by decide)
    · exact m.noNul (h0 ▸ hc)

theorem map_letters {bs : List UInt8} (h : ∀ c ∈ bs, 97 ≤ c ∧ c ≤ 122) :
    bs.map (fun c => if c = 0x20 then 0x0a else c) = bs := by
  refine (List.map_congr_left fun c hc => if_neg ?_).trans (List.map_id _)
  rintro rfl
  exact absurd (h _ hc).1 (by decide)

theorem lines_bytes {ws : List CStr} {checkword m : CStr} (hw : ∀ w ∈ ws, w ∈ englishVec)
    (hcw : checkword ∈ englishVec) (hm : m.bytes = spelled 0x20 ws ++ checkword.bytes) :
    m.lines.bytes = spelled 0x0a ws ++ checkword.bytes := by
  have hlines : m.lines.bytes = m.bytes.map fun c => if c = 0x20 then 0x0a else c := rfl
  rw [hlines, hm, List.map_append, map_letters (englishVec_letters hcw).2, spelled,
    List.map_flatMap]
  congr 1
  refine List.flatMap_congr fun w hmem => ?_
  rw [List.map_append, map_letters (englishVec_letters (hw w hmem)).2]
  rfl

/-- Each word is a token again. -/
theorem makeWordVector_lines {ws : List CStr} {checkword m : CStr}
    (hw : ∀ w ∈ ws, w ∈ englishVec) (hcw : checkword ∈ englishVec)
    (hm : m.bytes = spelled 0x20 ws ++ checkword.bytes) :
    makeWordVector m.lines = ws ++ [checkword] := by
  have hall : ∀ w ∈ ws ++ [checkword], w ∈ englishVec := by
    intro w hmem
    rcases List.mem_append.mp hmem with hmem | hmem
    · exact hw w hmem
    · exact List.mem_singleton.mp hmem ▸ hcw
  have hlf : ∀ w ∈ ws ++ [checkword], (0x0a : UInt8) ∉ w.bytes := fun w hmem h =>
    absurd ((englishVec_letters (hall w hmem)).2 _ h).1 (by decide)
  have hws : ∀ b ∈ ws.map CStr.bytes, (0x0a : UInt8) ∉ b := by
    intro b hb
    obtain ⟨w, hmem, rfl⟩ := List.mem_map.mp hb
    exact hlf w (List.mem_append_left _ hmem)
  have hsplit := splitOn_flatMap hws checkword.bytes
    (hlf _ (List.mem_append_right _ List.mem_cons_self))
  rw [List.flatMap_map] at hsplit
  have hne : ∀ b ∈ (ws ++ [checkword]).map CStr.bytes, decide (b ≠ []) = true := by
    intro b hb
    obtain ⟨w, hmem, rfl⟩ := List.mem_map.mp hb
    exact decide_eq_true (englishVec_letters (hall w hmem)).1
  rw [makeWordVector, lines_bytes hw hcw hm, spelled, hsplit,
    ← List.map_singleton (f := CStr.bytes), ← List.map_append, List.filter_eq_self.mpr hne,
    List.map_map]
  exact List.map_id'' (fun w => CStr.ext (bytes_cString w.noNul)) _

/-- With line feeds for its spaces the mnemonic is understood, and the 33rd byte unpacked
from it is written past the end of the block. -/
theorem lines_overflow {H : MbedtlsSha512} {words : Words} {seed : Vector UInt8 32}
    {code : RetCode} {m : CStr} (hi : initializeMnemonic = .ok words)
    (hm : mnemonicFromSeed H words seed.toList = .ok (code, m)) :
    seedFromMnemonic H words m.lines = .error .outOfBounds := by
  rw [initializeMnemonic_eq, Except.ok.injEq] at hi
  subst hi
  obtain ⟨_, check, ws, cw, hs, hget, hbytes⟩ := mnemonicFromSeed_eq_ok hm
  have hlen : ws.length = 24 := by
    rw [← hs.length_eq, length_b2048Encode, Vector.length_toList]
  have hcheck : lookupWordMap englishVec.zipIdx cw = .ok check.toNat := by
    have := lookupWordMap_zipIdx (k := 0) nodup_englishVec hget
    rwa [Nat.zero_add] at this
  have hunpack : unpackWords englishVec.zipIdx { data := [], val := 0, bits := 0 } ws >>=
      flushBits = .error .outOfBounds := by
    rw [unpackWords_eq (hs.lookup fun i hi => b2048Encode_lt hi) _ (by decide) (by decide)]
    show ((Radix.regroup 11 8 0 0 _).map UInt8.ofNat).foldlM pushSeed [] = _
    rw [regroup_b2048Encode, foldlM_pushSeed (by decide), List.length_append,
      Vector.length_toList]
    rfl
  rw [seedFromMnemonic, makeWordVector_lines hs.mem (List.mem_of_getElem? hget) hbytes,
    List.getLast?_concat, List.dropLast_concat]
  dsimp only
  rw [if_neg (not_not.mpr hlen), hcheck]
  show (unpackWords _ _ _ >>= fun u => flushBits u >>= _) = _
  rw [← bind_assoc, hunpack]
  rfl

/-! ## The round trip -/

/-- After `initialize_mnemonic`, the mnemonic of `seed` is accepted and gives `seed`. -/
def RoundTrips (H : MbedtlsSha512) (seed : Vector UInt8 32) : Prop :=
  ∃ words code m, initializeMnemonic = .ok words ∧
    mnemonicFromSeed H words seed.toList = .ok (code, m) ∧
    seedFromMnemonic H words m = .ok (.success, some seed.toList)

/-- **No seed survives.**  Where the hash fails there is no mnemonic; where it does not,
the mnemonic is rejected. -/
theorem no_seed_round_trips (H : MbedtlsSha512) (seed : Vector UInt8 32) :
    ¬ RoundTrips H seed := by
  rintro ⟨words, code, m, hi, hm, hs⟩
  have hrej := mnemonic_rejected hi hm
  rw [hs, Except.ok.injEq, Prod.mk.injEq] at hrej
  exact absurd hrej.1 (by decide)

/-- The digest of 32 zero bytes; no other input is hashed here. -/
def sha512OfZeros : MbedtlsSha512 where
  finish state input :=
    if state = sha512_256State ∧ input = List.replicate 32 0 then some #v[
      0xaf, 0x13, 0xc0, 0x48, 0x99, 0x12, 0x24, 0xa5, 0xe4, 0xc6, 0x64, 0x44, 0x6b, 0x68, 0x8a, 0xaf,
      0x48, 0xfb, 0x54, 0x56, 0xdb, 0x36, 0x29, 0x60, 0x1b, 0x00, 0xec, 0x16, 0x0c, 0x74, 0xe5, 0x54,
      0xfb, 0xaa, 0x9a, 0x1d, 0xae, 0x60, 0x0e, 0xf5, 0xc5, 0xd0, 0x77, 0x09, 0x7c, 0xfa, 0xb6, 0x5e,
      0xb0, 0x7c, 0x64, 0xf9, 0x48, 0xb0, 0xdd, 0x1d, 0x88, 0x55, 0xb1, 0x3b, 0x22, 0x6e, 0x99, 0x71]
    else none

def zeroSeed : Vector UInt8 32 := .replicate 32 0

/-- "abandon" 24 times and "invest". -/
def zeroMnemonic : CStr where
  bytes := (List.replicate 24 (lit "abandon ")).flatten ++ lit "invest"
  noNul := by decide +kernel

/-- The mnemonic of the zero seed is no mnemonic. -/
theorem zero_seed_rejected :
    (∃ words, initializeMnemonic = .ok words ∧
      mnemonicFromSeed sha512OfZeros words zeroSeed.toList = .ok (.success, zeroMnemonic) ∧
      seedFromMnemonic sha512OfZeros words zeroMnemonic = .ok (.errorInternal, none)) ∧
    ¬ RoundTrips sha512OfZeros zeroSeed := by
  have hm : mnemonicFromSeed sha512OfZeros
      { wordVec := englishVec, wordMap := englishVec.zipIdx } zeroSeed.toList =
        .ok (.success, zeroMnemonic) := by
    decide +kernel
  have hs := mnemonic_rejected initializeMnemonic_eq hm
  refine ⟨⟨_, initializeMnemonic_eq, hm, hs⟩, ?_⟩
  rintro ⟨words, code, m, hi, hm', hs'⟩
  rw [initializeMnemonic_eq, Except.ok.injEq] at hi
  subst hi
  rw [hm, Except.ok.injEq, Prod.mk.injEq] at hm'
  rw [← hm'.2, hs, Except.ok.injEq, Prod.mk.injEq] at hs'
  exact absurd hs'.1 (by decide)

end Vertices
