/-
# `Vertices.PhraseAccess` — what `seed_from_mnemonic` reads and writes

The elements that `seed_from_mnemonic` reads and writes by index, each with the size of
its array.  A store outside its array does not end the run here: it goes on as if there
were room.  All are inside unless the string has no token, when the word before the first
is read, or 25 known ones, whose 33rd byte is stored behind the block.
-/
import Vertices.PhraseAcceptance

namespace Vertices

/-! ## The accesses -/

/-- `words.words`, `seed->data` and `word_vec.words`. -/
inductive PhraseArray where
  | words
  | seedData
  | wordVec
deriving DecidableEq

/-- An element that is read or written, and the number of elements its array has. -/
structure Access where
  array : PhraseArray
  index : Int
  size : Nat
deriving DecidableEq

def Access.InRange (a : Access) : Prop := 0 ≤ a.index ∧ a.index < a.size

instance : DecidablePred Access.InRange := fun a =>
  inferInstanceAs (Decidable (0 ≤ a.index ∧ a.index < a.size))

/-- The state of the unpacking loop, with the accesses made so far. -/
structure UnpackTrace where
  accesses : List Access
  data : List UInt8
  val : UInt32
  bits : Nat

/-- In front of the loop: the last of `size` words has been read. -/
def loopStart (size : Nat) : UnpackTrace where
  accesses := [⟨.words, (size : Int) - 1, size⟩]
  data := []
  val := 0
  bits := 0

/-- `words.words[i]`, with `words.size` words. -/
def UnpackTrace.readWord (t : UnpackTrace) (size i : Nat) : UnpackTrace :=
  { t with accesses := t.accesses ++ [⟨.words, i, size⟩] }

/-- `seed->data[seed->size++] = b`, wherever that is. -/
def UnpackTrace.store (t : UnpackTrace) (b : UInt8) : UnpackTrace :=
  { t with accesses := t.accesses ++ [⟨.seedData, t.data.length, 32⟩], data := t.data ++ [b] }

/-- `val |= value << bits; bits += 11`. -/
def UnpackTrace.take (t : UnpackTrace) (value : Nat) : UnpackTrace :=
  { t with
    val := t.val ||| (UInt32.ofNat value <<< UInt32.ofNat t.bits)
    bits := t.bits + 11 }

/-- `while (bits >= 8)`. -/
def drainTrace (t : UnpackTrace) : UnpackTrace :=
  if 8 ≤ t.bits then
    drainTrace { t.store (t.val &&& 0xFF).toUInt8 with val := t.val >>> 8, bits := t.bits - 8 }
  else t
termination_by t.bits

/-- The loop of `seed_from_mnemonic` from word `i` of `size` on; a word that is not in the
map ends the process. -/
def unpackTrace (map : List (CStr × Nat)) (size : Nat) (t : UnpackTrace) (i : Nat) :
    List CStr → Except UnpackTrace UnpackTrace
  | [] => pure t
  | w :: rest =>
      let t := t.readWord size i
      match lookupWordMap map w with
      | .error _ => throw t
      | .ok value => unpackTrace map size (drainTrace (t.take value)) (i + 1) rest

/-- `if (bits > 0)`, after the loop. -/
def flushTrace (t : UnpackTrace) : UnpackTrace :=
  if 0 < t.bits then t.store (t.val &&& 0xFF).toUInt8 else t

/-- What follows the loop, with `checkval` for the last word. -/
def checkAccesses (H : MbedtlsSha512) (words : Words) (checkval : Nat) (t : UnpackTrace) :
    List Access :=
  let t := flushTrace t
  let accesses := t.accesses ++ [⟨.seedData, (t.data.length : Int) - 1, 32⟩]
  if t.data.getLast? ≠ some 0 then accesses
  else
    match checksum H t.data.dropLast with
    | .error _ => accesses
    | .ok check =>
        if check.toNat ≠ checkval then
          accesses ++ [⟨.wordVec, check.toNat, words.wordVec.length⟩,
            ⟨.wordVec, checkval, words.wordVec.length⟩]
        else accesses

/-- The accesses of `seed_from_mnemonic`. -/
def seedAccesses (H : MbedtlsSha512) (words : Words) (mnemonic : CStr) : List Access :=
  let vec := makeWordVector mnemonic
  let start := loopStart vec.length
  match vec.getLast? with
  -- what stands before the array is read; −1 words are not 24
  | none => start.accesses
  | some checkword =>
      if vec.dropLast.length ≠ 24 then start.accesses
      else
        match lookupWordMap words.wordMap checkword with
        | .error _ => start.accesses
        | .ok checkval =>
            match unpackTrace words.wordMap 24 start 0 vec.dropLast with
            | .error t => t.accesses
            | .ok t => checkAccesses H words checkval t

/-! ## One step -/

/-- What the inner loop has done: the whole bytes are stored, the rest stays in `val`. -/
theorem drainTrace_spec (t : UnpackTrace) :
    (drainTrace t).data = t.data ++ (Radix.low 8 (t.bits / 8) t.val.toNat).map UInt8.ofNat ∧
      (drainTrace t).val.toNat = t.val.toNat / 2 ^ (8 * (t.bits / 8)) ∧
      (drainTrace t).bits = t.bits % 8 := by
  fun_induction drainTrace t with
  | case1 t h8 ih =>
      obtain ⟨hdata, hval, hbits⟩ := ih
      have hshift : (t.val >>> 8).toNat = t.val.toNat / 2 ^ 8 :=
        toNat_shiftRight_ofNat t.val (k := 8) (by decide)
      have hk : t.bits / 8 = (t.bits - 8) / 8 + 1 := by omega
      refine ⟨?_, ?_, ?_⟩
      · rw [hdata, hk, Radix.low, List.map_cons, ← toUInt8_low8, ← hshift]
        simp [UnpackTrace.store]
      · rw [hval, hshift, Nat.div_div_eq_div_mul, ← Nat.pow_add, hk, Nat.mul_succ, Nat.add_comm]
      · rw [hbits]
        show (t.bits - 8) % 8 = t.bits % 8
        omega
  | case2 t h8 =>
      have hk : t.bits / 8 = 0 := by omega
      rw [hk, Nat.mod_eq_of_lt (by omega)]
      simp [Radix.low]

/-- The stores of the elements in front of `k`. -/
def stores (k : Nat) : List Access := (List.range k).map fun j : Nat => ⟨.seedData, j, 32⟩

theorem stores_succ (k : Nat) : stores (k + 1) = stores k ++ [⟨.seedData, k, 32⟩] := by
  rw [stores, List.range_succ, List.map_append, List.map_singleton, stores]

theorem mem_stores {k : Nat} {a : Access} :
    a ∈ stores k ↔ ∃ j : Nat, j < k ∧ a = ⟨.seedData, j, 32⟩ := by
  simp [stores, eq_comm]

/-- The words read are inside their array, and every byte has been stored. -/
structure UnpackTrace.Recorded (t : UnpackTrace) : Prop where
  made : ∀ a ∈ t.accesses, a.array = .words ∧ a.InRange ∨ a ∈ stores t.data.length
  stored : ∀ a ∈ stores t.data.length, a ∈ t.accesses

theorem UnpackTrace.Recorded.readWord {t : UnpackTrace} (h : t.Recorded) {size i : Nat}
    (hi : i < size) : (t.readWord size i).Recorded where
  made a ha := by
    rcases List.mem_append.mp ha with ha | ha
    · exact h.made a ha
    · rw [List.mem_singleton] at ha
      subst ha
      exact .inl ⟨rfl, Int.natCast_nonneg i, Int.ofNat_lt.mpr hi⟩
  stored a ha := List.mem_append_left _ (h.stored a ha)

theorem UnpackTrace.Recorded.store {t : UnpackTrace} (h : t.Recorded) (b : UInt8) :
    (t.store b).Recorded := by
  have hlen : (t.store b).data.length = t.data.length + 1 := by simp [UnpackTrace.store]
  constructor
  · intro a ha
    rw [hlen, stores_succ]
    rcases List.mem_append.mp ha with ha | ha
    · exact (h.made a ha).imp id (List.mem_append_left _)
    · exact .inr (List.mem_append_right _ ha)
  · intro a ha
    rw [hlen, stores_succ] at ha
    exact (List.mem_append.mp ha).elim (fun ha => List.mem_append_left _ (h.stored a ha))
      (List.mem_append_right _)

/-- `val` and `bits` are no part of the record. -/
theorem UnpackTrace.Recorded.withVal {t : UnpackTrace} (h : t.Recorded) (val : UInt32) (bits : Nat) :
    { t with val := val, bits := bits : UnpackTrace }.Recorded :=
  ⟨h.made, h.stored⟩

theorem UnpackTrace.Recorded.drain {t : UnpackTrace} (h : t.Recorded) : (drainTrace t).Recorded := by
  fun_induction drainTrace t with
  | case1 t _ ih => exact ih ((h.store _).withVal _ _)
  | case2 t _ => exact h

/-- A word ends the process, or puts its eleven bits to the others. -/
theorem unpackTrace_cons (map : List (CStr × Nat)) {size i : Nat} {t : UnpackTrace} (w : CStr)
    (ws : List CStr) (hi : i < size) (h : t.Recorded) :
    ((∃ e, lookupWordMap map w = .error e) ∧
      unpackTrace map size t i (w :: ws) = .error (t.readWord size i)) ∨
    ∃ value t', lookupWordMap map w = .ok value ∧ t'.Recorded ∧
      8 * t'.data.length + t'.bits = 8 * t.data.length + t.bits + 11 ∧ t'.bits < 8 ∧
      unpackTrace map size t i (w :: ws) = unpackTrace map size t' (i + 1) ws := by
  cases hlook : lookupWordMap map w with
  | error e =>
      refine .inl ⟨⟨e, rfl⟩, ?_⟩
      rw [unpackTrace]
      simp only [hlook]
      rfl
  | ok value =>
      let taken : UnpackTrace := (t.readWord size i).take value
      obtain ⟨hdata, -, hbits⟩ := drainTrace_spec taken
      have hlen : (drainTrace taken).data.length = t.data.length + (t.bits + 11) / 8 := by
        rw [hdata, List.length_append, List.length_map, Radix.length_low]
        rfl
      have hmod : (drainTrace taken).bits = (t.bits + 11) % 8 := hbits
      refine .inr ⟨value, drainTrace taken, rfl, ((h.readWord hi).withVal _ _).drain, ?_, ?_, ?_⟩
      · omega
      · omega
      · rw [unpackTrace]
        simp only [hlook]
        rfl

/-! ## The loop -/

theorem unpackTrace_ok {map : List (CStr × Nat)} {size : Nat} {ws : List CStr} :
    ∀ {t t' : UnpackTrace} {i : Nat}, i + ws.length ≤ size → t.Recorded → t.bits < 8 →
      unpackTrace map size t i ws = .ok t' →
      t'.Recorded ∧ t'.bits < 8 ∧
        8 * t'.data.length + t'.bits = 8 * t.data.length + t.bits + 11 * ws.length := by
  induction ws with
  | nil =>
      intro t t' i _ ht hbits h
      cases h
      exact ⟨ht, hbits, rfl⟩
  | cons w ws ih =>
      intro t t' i hi ht hbits h
      rw [List.length_cons] at hi
      rcases unpackTrace_cons map w ws (by omega : i < size) ht with
        ⟨_, hend⟩ | ⟨value, t₁, _, ht₁, hsum, hbits₁, hstep⟩
      · cases hend.symm.trans h
      · obtain ⟨ht', hbits', hsum'⟩ := ih (by omega) ht₁ hbits₁ (hstep ▸ h)
        rw [List.length_cons]
        exact ⟨ht', hbits', by omega⟩

/-- Where the process ends, a word is missing. -/
theorem unpackTrace_error {map : List (CStr × Nat)} {size : Nat} {ws : List CStr} :
    ∀ {t t' : UnpackTrace} {i : Nat}, i + ws.length ≤ size → t.Recorded →
      unpackTrace map size t i ws = .error t' →
      t'.Recorded ∧ 8 * t'.data.length + 11 ≤ 8 * t.data.length + t.bits + 11 * ws.length := by
  induction ws with
  | nil =>
      intro t t' i _ _ h
      cases h
  | cons w ws ih =>
      intro t t' i hi ht h
      rw [List.length_cons] at hi
      rcases unpackTrace_cons map w ws (by omega : i < size) ht with
        ⟨_, hend⟩ | ⟨value, t₁, _, ht₁, hsum, _, hstep⟩
      · rw [hend, Except.error.injEq] at h
        subst h
        rw [List.length_cons]
        refine ⟨ht.readWord (by omega), ?_⟩
        show 8 * t.data.length + 11 ≤ _
        omega
      · obtain ⟨ht', hsum'⟩ := ih (by omega) ht₁ (hstep ▸ h)
        rw [List.length_cons]
        exact ⟨ht', by omega⟩

/-- The loop ends if all words are known. -/
theorem unpackTrace_ok_iff {size : Nat} {ws : List CStr} :
    ∀ {t : UnpackTrace} {i : Nat}, i + ws.length ≤ size → t.Recorded →
      ((∃ t', unpackTrace englishVec.zipIdx size t i ws = .ok t') ↔ ∀ w ∈ ws, w ∈ englishVec) := by
  induction ws with
  | nil =>
      intro t i _ _
      exact iff_of_true ⟨t, rfl⟩ fun w hw => absurd hw List.not_mem_nil
  | cons w ws ih =>
      intro t i hi ht
      rw [List.length_cons] at hi
      rw [List.forall_mem_cons]
      rcases unpackTrace_cons englishVec.zipIdx w ws (by omega : i < size) ht with
        ⟨⟨e, hlook⟩, hend⟩ | ⟨value, t₁, hlook, ht₁, _, _, hstep⟩
      · refine iff_of_false ?_ fun h => ?_
        · rintro ⟨t', h⟩
          cases hend.symm.trans h
        · obtain ⟨v, _, hv⟩ := lookupWordMap_known h.1
          cases hlook.symm.trans hv
      · have hknown : w ∈ englishVec := by
          by_contra hw
          cases (lookupWordMap_unknown hw).symm.trans hlook
        rw [hstep, ih (by omega) ht₁, and_iff_right hknown]

/-! ## The block of 32 bytes -/

theorem lookupWordMap_error {map : List (CStr × Nat)} {w : CStr} {e : Fault}
    (h : lookupWordMap map w = .error e) : e = .exit := by
  fun_induction lookupWordMap map w with
  | case1 =>
      cases h
      rfl
  | case2 =>
      cases h
  | case3 _ _ _ _ _ ih => exact ih h

/-- What `pushSeed` makes of the stores of a trace. -/
def replay : Except UnpackTrace UnpackTrace → Except Fault Unpacked
  | .ok t => if t.data.length ≤ 32 then .ok ⟨t.data, t.val, t.bits⟩ else .error .outOfBounds
  | .error t => if t.data.length ≤ 32 then .error .exit else .error .outOfBounds

theorem drainBits_replay (t : UnpackTrace) (hroom : t.data.length ≤ 32) :
    drainBits t.data t.val t.bits = replay (.ok (drainTrace t)) := by
  obtain ⟨hdata, hval, hbits⟩ := drainTrace_spec t
  obtain ⟨rest, hrest, hdrain⟩ := drainBits_eq t.val t.bits
  have hsame : rest = (drainTrace t).val := UInt32.toNat_inj.mp (hrest.trans hval.symm)
  rw [hdrain, foldlM_pushSeed hroom, hsame, replay, hdata, hbits, List.length_append]
  split
  · rfl
  · rfl

/-- Once the block is overrun it stays so. -/
theorem replay_overrun {map : List (CStr × Nat)} {size : Nat} {ws : List CStr} :
    ∀ {t : UnpackTrace} {i : Nat}, 32 < t.data.length →
      replay (unpackTrace map size t i ws) = .error .outOfBounds := by
  induction ws with
  | nil =>
      intro t i h
      exact if_neg (by omega)
  | cons w ws ih =>
      intro t i h
      rw [unpackTrace]
      split
      · exact if_neg (Nat.not_le.mpr h)
      · apply ih
        rw [(drainTrace_spec _).1, List.length_append]
        exact Nat.lt_of_lt_of_le h (Nat.le_add_right _ _)

/-- The loop of `seed_from_mnemonic` is its trace, up to the first store that has no room. -/
theorem unpackWords_replay {map : List (CStr × Nat)} {size : Nat} {ws : List CStr} :
    ∀ {t : UnpackTrace} {i : Nat}, t.data.length ≤ 32 →
      unpackWords map ⟨t.data, t.val, t.bits⟩ ws = replay (unpackTrace map size t i ws) := by
  induction ws with
  | nil =>
      intro t i hroom
      exact (if_pos hroom).symm
  | cons w ws ih =>
      intro t i hroom
      rw [unpackWords, unpackTrace]
      cases hlook : lookupWordMap map w with
      | error e =>
          rw [lookupWordMap_error hlook]
          exact (if_pos hroom).symm
      | ok value =>
          let taken : UnpackTrace := (t.readWord size i).take value
          show (drainBits taken.data taken.val taken.bits >>= fun u => unpackWords map u ws) =
            replay (unpackTrace map size (drainTrace taken) (i + 1) ws)
          rw [drainBits_replay taken hroom, replay]
          split
          · next hfit => exact ih hfit
          · next hover => exact (replay_overrun (Nat.not_le.mp hover)).symm

/-! ## Every string -/

/-- Without a token the word in front of the array is read. -/
theorem seedAccesses_nil {H : MbedtlsSha512} {words : Words} {m : CStr} (h : makeWordVector m = []) :
    seedAccesses H words m = [⟨.words, -1, 0⟩] := by
  rw [seedAccesses, h]
  rfl

/-- A wrong number of words is found when only the last has been read. -/
theorem seedAccesses_returns {H : MbedtlsSha512} {words : Words} {m : CStr}
    (hne : makeWordVector m ≠ []) (hlen : (makeWordVector m).length ≠ 25) :
    seedAccesses H words m = (loopStart (makeWordVector m).length).accesses := by
  obtain ⟨checkword, hlast, hdrop⟩ := exists_checkword hne
  rw [seedAccesses, hlast]
  exact if_pos (by omega)

theorem loopStart_recorded {size : Nat} (h : 0 < size) : (loopStart size).Recorded where
  made a ha := by
    rw [loopStart, List.mem_singleton] at ha
    subst ha
    exact .inl ⟨rfl, by simp only [Access.InRange]; omega⟩
  stored a ha := absurd ha List.not_mem_nil

/-- Of 25 words one is unknown: the process ends at the latest in front of the last. -/
theorem seedAccesses_unknown {H : MbedtlsSha512} {m : CStr} (hlen : (makeWordVector m).length = 25)
    (hunknown : ¬ ∀ w ∈ makeWordVector m, w ∈ englishVec) :
    ∃ t : UnpackTrace, t.Recorded ∧ t.data.length ≤ 31 ∧
      seedAccesses H { wordVec := englishVec, wordMap := englishVec.zipIdx } m = t.accesses := by
  obtain ⟨checkword, hlast, hdrop, hwords⟩ := words_25 hlen
  have hstart : (loopStart 25).Recorded := loopStart_recorded (by decide)
  rw [seedAccesses, hlast, hlen]
  dsimp only
  rw [if_neg (not_not.mpr hdrop)]
  by_cases hcheck : checkword ∈ englishVec
  · obtain ⟨v, -, hlook⟩ := lookupWordMap_known hcheck
    rw [hlook]
    dsimp only
    cases hrun : unpackTrace englishVec.zipIdx 24 (loopStart 25) 0 (makeWordVector m).dropLast with
    | ok t =>
        have hall := (unpackTrace_ok_iff (by omega) hstart).mp ⟨t, hrun⟩
        exact absurd (hwords.mpr ⟨hall, hcheck⟩) hunknown
    | error t =>
        obtain ⟨ht, hsum⟩ := unpackTrace_error (by omega) hstart hrun
        rw [hdrop] at hsum
        have hroom : 8 * t.data.length + 11 ≤ 264 := hsum
        exact ⟨t, ht, by omega, rfl⟩
  · rw [lookupWordMap_unknown hcheck]
    exact ⟨loopStart 25, hstart, by decide, rfl⟩

/-- 25 known words: the loop stores 33 bytes, the last of them is looked at, and two words
of the list may be. -/
theorem seedAccesses_known {H : MbedtlsSha512} {m : CStr} (hlen : (makeWordVector m).length = 25)
    (hall : ∀ w ∈ makeWordVector m, w ∈ englishVec) :
    ∃ t : UnpackTrace, t.Recorded ∧ t.data.length = 33 ∧
      ∃ more, seedAccesses H { wordVec := englishVec, wordMap := englishVec.zipIdx } m =
          t.accesses ++ ⟨.seedData, 32, 32⟩ :: more ∧
        ∀ a ∈ more, a.array = .wordVec ∧ a.InRange := by
  obtain ⟨checkword, hlast, hdrop, hwords⟩ := words_25 hlen
  obtain ⟨hfront, hcheck⟩ := hwords.mp hall
  obtain ⟨v, hv, hlook⟩ := lookupWordMap_known hcheck
  have hstart : (loopStart 25).Recorded := loopStart_recorded (by decide)
  obtain ⟨t, hrun⟩ := (unpackTrace_ok_iff (by omega : 0 + _ ≤ 24) hstart).mpr hfront
  obtain ⟨ht, hbits, hsum⟩ := unpackTrace_ok (by omega) hstart (by decide) hrun
  have hsum : 8 * t.data.length + t.bits = 264 := by
    rw [hdrop] at hsum
    exact hsum
  have h33 : t.data.length = 33 := by omega
  have hflush : flushTrace t = t := if_neg (by omega)
  refine ⟨t, ht, h33, ?_⟩
  rw [seedAccesses, hlast, hlen]
  dsimp only
  rw [if_neg (not_not.mpr hdrop), hlook]
  dsimp only
  rw [hrun]
  dsimp only
  rw [checkAccesses, hflush, h33]
  have hnone : ∀ a ∈ ([] : List Access), a.array = .wordVec ∧ a.InRange := fun a ha =>
    absurd ha List.not_mem_nil
  dsimp only
  split
  · exact ⟨[], rfl, hnone⟩
  · split
    · exact ⟨[], rfl, hnone⟩
    · next check hc =>
        have hlt : check.toNat < 2048 := checksum_lt hc
        split
        · refine ⟨[⟨.wordVec, check.toNat, 2048⟩, ⟨.wordVec, v, 2048⟩], ?_, fun a ha => ?_⟩
          · rw [length_englishVec, List.append_assoc]
            rfl
          simp only [List.mem_cons, List.not_mem_nil, or_false] at ha
          rcases ha with rfl | rfl
          · exact ⟨rfl, by simp only [Access.InRange]; omega⟩
          · exact ⟨rfl, by simp only [Access.InRange]; omega⟩
        · exact ⟨[], rfl, hnone⟩

/-- 25 words, all of the list: 33 bytes. -/
def Overlong (tokens : List CStr) : Prop := tokens.length = 25 ∧ ∀ w ∈ tokens, w ∈ englishVec

/-- Apart from the 33rd byte no access misses its array. -/
theorem seedAccesses_inRange {H : MbedtlsSha512} {m : CStr} (hne : makeWordVector m ≠ []) :
    ∀ a ∈ seedAccesses H { wordVec := englishVec, wordMap := englishVec.zipIdx } m,
      a.InRange ∨ Overlong (makeWordVector m) ∧ a.array = .seedData := by
  intro a ha
  by_cases hlen : (makeWordVector m).length = 25
  · by_cases hall : ∀ w ∈ makeWordVector m, w ∈ englishVec
    · obtain ⟨t, ht, h33, more, haccesses, hmore⟩ := seedAccesses_known (H := H) hlen hall
      rw [haccesses, List.mem_append, List.mem_cons] at ha
      rcases ha with ha | rfl | ha
      · rcases ht.made a ha with ⟨-, hin⟩ | hstore
        · exact .inl hin
        · obtain ⟨j, -, rfl⟩ := mem_stores.mp hstore
          exact .inr ⟨⟨hlen, hall⟩, rfl⟩
      · exact .inr ⟨⟨hlen, hall⟩, rfl⟩
      · exact .inl (hmore a ha).2
    · obtain ⟨t, ht, hroom, haccesses⟩ := seedAccesses_unknown (H := H) hlen hall
      rw [haccesses] at ha
      left
      rcases ht.made a ha with ⟨-, hin⟩ | hstore
      · exact hin
      · obtain ⟨j, hj, rfl⟩ := mem_stores.mp hstore
        simp only [Access.InRange]
        omega
  · rw [seedAccesses_returns hne hlen] at ha
    rcases (loopStart_recorded (List.length_pos_iff.mpr hne)).made a ha with ⟨-, hin⟩ | hstore
    · exact .inl hin
    · exact absurd hstore List.not_mem_nil

/-- The 33rd byte of 25 known words is stored behind the block. -/
theorem seedAccesses_overlong {H : MbedtlsSha512} {m : CStr} (h : Overlong (makeWordVector m)) :
    ⟨.seedData, 32, 32⟩ ∈ seedAccesses H { wordVec := englishVec, wordMap := englishVec.zipIdx } m := by
  obtain ⟨t, ht, h33, more, haccesses, -⟩ := seedAccesses_known (H := H) h.1 h.2
  rw [haccesses]
  exact List.mem_append_left _ (ht.stored _ (mem_stores.mpr ⟨32, by omega, rfl⟩))

/-- Where no access misses its array the model does not, and the other way round. -/
theorem seedFromMnemonic_outOfBounds_iff {H : MbedtlsSha512} {m : CStr} :
    seedFromMnemonic H { wordVec := englishVec, wordMap := englishVec.zipIdx } m =
        .error .outOfBounds ↔
      ∃ a ∈ seedAccesses H { wordVec := englishVec, wordMap := englishVec.zipIdx } m,
        ¬ a.InRange := by
  by_cases hnil : makeWordVector m = []
  · rw [seedAccesses_nil hnil, seedFromMnemonic, hnil]
    exact iff_of_true rfl ⟨_, List.mem_cons_self, by decide⟩
  by_cases hlong : Overlong (makeWordVector m)
  · rw [seedFromMnemonic_25 hlong.1, if_pos hlong.2]
    exact iff_of_true rfl ⟨_, seedAccesses_overlong hlong, by decide⟩
  refine iff_of_false (fun h => ?_) ?_
  · by_cases hlen : (makeWordVector m).length = 25
    · rw [seedFromMnemonic_25 hlen, if_neg fun hall => hlong ⟨hlen, hall⟩] at h
      cases h
    · rw [seedFromMnemonic_returns hnil hlen] at h
      cases h
  · rintro ⟨a, ha, hout⟩
    exact hlong ((seedAccesses_inRange hnil a ha).resolve_left hout).1

/-- After `initialize_mnemonic` the accesses to `array` that `seed_from_mnemonic` makes on
`m` are in range. -/
def StaysInside (H : MbedtlsSha512) (m : CStr) (array : PhraseArray) : Prop :=
  ∃ words, initializeMnemonic = .ok words ∧
    ∀ a ∈ seedAccesses H words m, a.array = array → a.InRange

theorem staysInside_iff {H : MbedtlsSha512} {m : CStr} {array : PhraseArray} :
    StaysInside H m array ↔
      ∀ a ∈ seedAccesses H { wordVec := englishVec, wordMap := englishVec.zipIdx } m,
        a.array = array → a.InRange := by
  constructor
  · rintro ⟨words, hi, h⟩
    rw [initializeMnemonic_eq, Except.ok.injEq] at hi
    subst hi
    exact h
  · intro h
    exact ⟨_, initializeMnemonic_eq, h⟩

/-- The last word is there if there is one. -/
theorem staysInside_words {H : MbedtlsSha512} {m : CStr} :
    StaysInside H m .words ↔ makeWordVector m ≠ [] := by
  rw [staysInside_iff]
  constructor
  · intro h hnil
    rw [seedAccesses_nil hnil] at h
    exact absurd (h _ List.mem_cons_self rfl) (by decide)
  · intro hne a ha harray
    rcases seedAccesses_inRange hne a ha with hin | ⟨-, hdata⟩
    · exact hin
    · cases harray.symm.trans hdata

/-- The seed has room for what fewer or unknown words leave. -/
theorem staysInside_seedData {H : MbedtlsSha512} {m : CStr} :
    StaysInside H m .seedData ↔ ¬ Overlong (makeWordVector m) := by
  rw [staysInside_iff]
  constructor
  · intro h hlong
    exact absurd (h _ (seedAccesses_overlong hlong) rfl) (by decide)
  · intro hshort a ha harray
    by_cases hnil : makeWordVector m = []
    · rw [seedAccesses_nil hnil, List.mem_singleton] at ha
      subst ha
      cases harray
    · exact (seedAccesses_inRange hnil a ha).resolve_right fun h => hshort h.1

/-- A mismatch is reported with words of the list. -/
theorem staysInside_wordVec {H : MbedtlsSha512} {m : CStr} : StaysInside H m .wordVec := by
  rw [staysInside_iff]
  intro a ha harray
  by_cases hnil : makeWordVector m = []
  · rw [seedAccesses_nil hnil, List.mem_singleton] at ha
    subst ha
    cases harray
  · rcases seedAccesses_inRange hnil a ha with hin | ⟨-, hdata⟩
    · exact hin
    · cases harray.symm.trans hdata

/-- **The arrays are left for no word, and for one byte too many.** -/
theorem phrase_stays_inside_iff (H : MbedtlsSha512) (m : CStr) :
    ((∀ array, StaysInside H m array) ↔
      makeWordVector m ≠ [] ∧ ¬ Overlong (makeWordVector m)) ∧
    (StaysInside H m .words ↔ makeWordVector m ≠ []) ∧
    (StaysInside H m .seedData ↔ ¬ Overlong (makeWordVector m)) ∧
    StaysInside H m .wordVec := by
  refine ⟨?_, staysInside_words, staysInside_seedData, staysInside_wordVec⟩
  constructor
  · intro h
    exact ⟨staysInside_words.mp (h .words), staysInside_seedData.mp (h .seedData)⟩
  · rintro ⟨hne, hshort⟩ array
    cases array with
    | words => exact staysInside_words.mpr hne
    | seedData => exact staysInside_seedData.mpr hshort
    | wordVec => exact staysInside_wordVec

/-- The empty string, and the phrase of the zero seed with a word a line. -/
theorem phrase_leaves_arrays :
    ¬ StaysInside sha512OfZeros ⟨[], by decide⟩ .words ∧
      ¬ StaysInside sha512OfZeros zeroLines .seedData := by
  constructor
  · rw [staysInside_words, not_not]
    decide
  · rw [staysInside_seedData, not_not]
    exact ⟨isPhrase_zeroLines.length_eq, isPhrase_zeroLines.known⟩

end Vertices
