/-
# `Vertices.PhraseMemory` — the memory of `src/mnemonic.c` and `src/utils/base2048.c`

The functions that export a mnemonic, over a heap of blocks: what they allocate, where they
read and write, and what they give back.  `strtok` works in a copy of the list of words; the
tokens it finds are `makeWordVector`.

    initializeTables_spec                the tables of words, made anew and never freed
    mnemonicFromSeedIn_spec              the mnemonic, which is all that is left
    verticesMnemonicFromAccountIn_spec   an export, from any heap
    exports_leak                         exports one after the other
-/
import Vertices.Lib.GrowVec
import Vertices.KeyImport

namespace Vertices

/-! ## The heap -/

/-- The contents of a block.  A buffer of characters has a size, and the string in it. -/
inductive Block where
  | chars (size : Nat) (text : List UInt8)
  | pointers (cells : List (Option Nat))
  | uint16s (cells : List (Option UInt16))
  | ints (cells : List (Option Nat))
  | bytes (data : List UInt8)
  | account (info : AccountInfo)
  deriving DecidableEq

def pointerCells : Cells Nat Block where
  wrap := .pointers
  unwrap
    | .pointers cells => some cells
    | _ => none
  unwrap_wrap _ := rfl

def uint16Cells : Cells UInt16 Block where
  wrap := .uint16s
  unwrap
    | .uint16s cells => some cells
    | _ => none
  unwrap_wrap _ := rfl

def intCells : Cells Nat Block where
  wrap := .ints
  unwrap
    | .ints cells => some cells
    | _ => none
  unwrap_wrap _ := rfl

/-- What is no live block, or outside of it, is not accessed. -/
def inHeap {α : Type} : Option α → Except Fault α
  | some a => pure a
  | none => throw .outOfBounds

/-- The block of a string. -/
def CStr.block (w : CStr) : Block := .chars (w.strlen + 1) w.bytes

/-- `strdup`. -/
def strdup (w : CStr) (h : Heap Block) : Nat × Heap Block := h.malloc w.block

/-- `strcat`, behind the string in a buffer. -/
def strcatTo (p : Nat) (s : List UInt8) (h : Heap Block) : Except Fault (Heap Block) :=
  match h.load p with
  | some (.chars size text) =>
      if text.length + s.length + 1 ≤ size then inHeap (h.store p (.chars size (text ++ s)))
      else throw .outOfBounds
  | _ => throw .outOfBounds

/-! ## The tables -/

/-- `push_back_word_vector`. -/
def pushBackWordVector (vec : GrowVec) (word : CStr) (h : Heap Block) :
    Except Fault (GrowVec × Heap Block) := do
  let (vec, h) ← inHeap (vec.reserve pointerCells h)
  let (p, h) := strdup word h
  inHeap (vec.put pointerCells p h)

/-- `make_word_vector`. -/
def makeWordVectorIn (s : CStr) (h : Heap Block) : Except Fault (GrowVec × Heap Block) := do
  let (vec, h) := GrowVec.init pointerCells 10 h
  let (str, h) := strdup s h
  let (vec, h) ← (makeWordVector s).foldlM (fun (vec, h) token => pushBackWordVector vec token h) (vec, h)
  let h ← inHeap (h.free str)
  return (vec, h)

/-- `WordMap`; its size is that of both vectors. -/
structure WordMap where
  keys : GrowVec
  values : GrowVec

/-- `init_word_map`. -/
def initWordMap (h : Heap Block) : WordMap × Heap Block :=
  let (keys, h) := GrowVec.init pointerCells 2048 h
  let (values, h) := GrowVec.init intCells 2048 h
  (⟨keys, values⟩, h)

/-- `insert_word_map`. -/
def insertWordMap (map : WordMap) (key : CStr) (value : Nat) (h : Heap Block) :
    Except Fault (WordMap × Heap Block) := do
  let (p, h) := strdup key h
  let (keys, h) ← inHeap (map.keys.put pointerCells p h)
  let (values, h) ← inHeap (map.values.put intCells value h)
  return (⟨keys, values⟩, h)

/-- `make_word_map`. -/
def makeWordMapIn (s : CStr) (h : Heap Block) : Except Fault (WordMap × Heap Block) := do
  let (map, h) := initWordMap h
  let (str, h) := strdup s h
  let (map, h) ← (makeWordVector s).zipIdx.foldlM
    (fun (map, h) (token, i) => insertWordMap map token i h) (map, h)
  let h ← inHeap (h.free str)
  return (map, h)

/-- `word_vec` and `word_map`. -/
structure WordTables where
  wordVec : GrowVec
  wordMap : WordMap

/-- `initialize_mnemonic`.  The tables there were are overwritten, not freed. -/
def initializeTables (h : Heap Block) : Except Fault (WordTables × Heap Block) := do
  let (wordVec, h) ← makeWordVectorIn english h
  let (wordMap, h) ← makeWordMapIn english h
  return (⟨wordVec, wordMap⟩, h)

/-! ## From a seed -/

/-- The loop of `b2048_encode`. -/
def b2048EncodeLoopIn (out : GrowVec) (val : UInt32) (bits : Nat) :
    List UInt8 → Heap Block → Except Fault (GrowVec × Heap Block)
  | [], h =>
      if 0 < bits then inHeap (out.push uint16Cells (val &&& 0x7FF).toUInt16 h) else pure (out, h)
  | b :: rest, h => do
      let val := val ||| (b.toUInt32 <<< UInt32.ofNat bits)
      if 11 ≤ bits + 8 then
        let (out, h) ← inHeap (out.push uint16Cells (val &&& 0x7FF).toUInt16 h)
        b2048EncodeLoopIn out (val >>> 11) (bits + 8 - 11) rest h
      else b2048EncodeLoopIn out val (bits + 8) rest h

/-- `b2048_encode`. -/
def b2048EncodeIn (input : List UInt8) (h : Heap Block) : Except Fault (GrowVec × Heap Block) :=
  let (out, h) := GrowVec.init uint16Cells 10 h
  b2048EncodeLoopIn out 0 0 input h

/-- `checksum`. -/
def checksumIn (H : MbedtlsSha512) (b : List UInt8) (h : Heap Block) :
    Except Fault (UInt16 × Heap Block) := do
  let (errCode, result) ← sha512_256 H b 32
  if errCode ≠ .success then throw .exit
  else
    let (ints, h) ← b2048EncodeIn (result.take 2) h
    let checkValue ← inHeap (ints.get uint16Cells 0 h)
    let h ← inHeap (h.free ints.data)
    return (checkValue, h)

/-- `word_vec.words[i]`, and the string there. -/
def wordIn (wordVec : GrowVec) (i : Nat) (h : Heap Block) : Except Fault (List UInt8) := do
  let p ← inHeap (wordVec.get pointerCells i h)
  match h.load p with
  | some (.chars _ text) => pure text
  | _ => throw .outOfBounds

/-- The first loop of `mnemonic_from_seed`, from element `i` on: the length. -/
def mnemonicLength (wordVec encoded : GrowVec) (h : Heap Block) :
    (left i mnemonicLen : Nat) → Except Fault Nat
  | 0, _, mnemonicLen => pure mnemonicLen
  | left + 1, i, mnemonicLen => do
      let value ← inHeap (encoded.get uint16Cells i h)
      let word ← wordIn wordVec value.toNat h
      mnemonicLength wordVec encoded h left (i + 1) (mnemonicLen + (word.length + 1))

/-- The second: each word and a space. -/
def mnemonicWords (wordVec encoded : GrowVec) (mnemonic : Nat) :
    (left i : Nat) → Heap Block → Except Fault (Heap Block)
  | 0, _, h => pure h
  | left + 1, i, h => do
      let value ← inHeap (encoded.get uint16Cells i h)
      let word ← wordIn wordVec value.toNat h
      let h ← strcatTo mnemonic word h
      let h ← strcatTo mnemonic [0x20] h
      mnemonicWords wordVec encoded mnemonic left (i + 1) h

/-- `mnemonic_from_seed`. -/
def mnemonicFromSeedIn (H : MbedtlsSha512) (wordVec : GrowVec) (seed : List UInt8)
    (h : Heap Block) : Except Fault (RetCode × Nat × Heap Block) := do
  let (encoded, h) ← b2048EncodeIn seed h
  let mnemonicLen ← mnemonicLength wordVec encoded h encoded.size 0 0
  let (check, h) ← checksumIn H seed h
  let checkword ← wordIn wordVec check.toNat h
  let mnemonicLen := mnemonicLen + (checkword.length + 1)
  let (mnemonic, h) := h.malloc (.chars mnemonicLen [])
  let h ← mnemonicWords wordVec encoded mnemonic encoded.size 0 h
  let (check, h) ← checksumIn H seed h
  let checkword ← wordIn wordVec check.toNat h
  let h ← strcatTo mnemonic checkword h
  let h ← inHeap (h.free encoded.data)
  return (.success, mnemonic, h)

/-- `vertices_mnemonic_from_sk`. -/
def verticesMnemonicFromSkIn (H : MbedtlsSha512) (E : Ed25519) (sodiumInit : Bool)
    (sk : Vector UInt8 addressLength) (h : Heap Block) :
    Except Fault (RetCode × Option Nat × Heap Block) :=
  if sodiumInit = false then return (.errorInternal, none, h)
  else do
    let (_, h) := h.malloc (.bytes (E.skToSeed sk).toList)
    let (tables, h) ← initializeTables h
    let (err, mnemonic, h) ← mnemonicFromSeedIn H tables.wordVec (E.skToSeed sk).toList h
    return (err, some mnemonic, h)

/-- `vertices_mnemonic_from_account`.  The pointer to the block it makes is written over by
`s_account_get_by_name`. -/
def verticesMnemonicFromAccountIn (H : MbedtlsSha512) (E : Ed25519) (sodiumInit : Bool)
    (pointers : RecordPointers) (name : CStr) (wallet : SAccounts) (h : Heap Block) :
    Except Fault (RetCode × Option Nat × Heap Block) :=
  if accountNameLength < name.strlen then return (.errorInvalidParam, none, h)
  else do
    if ← sAccountExists pointers wallet name then
      let (_, h) := h.malloc (.account AccountDetails.zero.info)
      match ← sAccountGetByName pointers wallet name with
      | (.success, some account) => verticesMnemonicFromSkIn H E sodiumInit account.privateKey h
      | (err, _) => return (err, none, h)
    else return (.errorNotFound, none, h)

/-! ## Strings and tables -/

/-- The blocks of strings. -/
def strings (ps : List Nat) (ws : List CStr) : List (Nat × Block) :=
  List.zipWith (fun p w => (p, w.block)) ps ws

theorem length_strings {ps : List Nat} {ws : List CStr} (h : ps.length = ws.length) :
    (strings ps ws).length = ws.length := by
  rw [strings, List.length_zipWith, h, Nat.min_self]

theorem inHeap_eq_ok {α : Type} {x : Option α} {a : α} (h : x = some a) : inHeap x = .ok a := by
  rw [h]
  rfl

variable {h : Heap Block} {l : List (Nat × Block)} {vec : GrowVec}

theorem pushBackWordVector_spec {ps : List Nat} (hv : vec.Lists ps) (w : CStr)
    (hh : h.Holds (vec.block pointerCells ps :: l)) :
    ∃ vec' p h', pushBackWordVector vec w h = .ok (vec', h') ∧ vec'.Lists (ps ++ [p]) ∧
      h'.Holds (vec'.block pointerCells (ps ++ [p]) :: (p, w.block) :: l) := by
  obtain ⟨vec₁, h₁, hreserve, hv₁, hlt, -, hh₁⟩ := GrowVec.reserve_spec pointerCells hv hh
  have hh₂ := (hh₁.malloc w.block).perm (List.Perm.swap _ _ _)
  obtain ⟨vec₃, h₃, hput, hv₃, -, hh₃⟩ :=
    GrowVec.put_spec pointerCells hv₁ hlt (h₁.malloc w.block).1 hh₂
  refine ⟨vec₃, _, h₃, ?_, hv₃, hh₃⟩
  rw [pushBackWordVector, inHeap_eq_ok hreserve]
  exact inHeap_eq_ok hput

/-- The tokens are pushed one after the other. -/
theorem pushTokens_spec (ws : List CStr) {ps : List Nat} (hv : vec.Lists ps)
    (hh : h.Holds (vec.block pointerCells ps :: l)) :
    ∃ vec' qs h', ws.foldlM (fun (vec, h) token => pushBackWordVector vec token h) (vec, h) =
        .ok (vec', h') ∧ qs.length = ws.length ∧ vec'.Lists (ps ++ qs) ∧
      h'.Holds (vec'.block pointerCells (ps ++ qs) :: (strings qs ws ++ l)) := by
  induction ws generalizing vec h ps l with
  | nil =>
      refine ⟨vec, [], h, rfl, rfl, ?_, ?_⟩
      · rw [List.append_nil]
        exact hv
      · rw [List.append_nil]
        exact hh
  | cons w ws ih =>
      obtain ⟨vec₁, p, h₁, hpush, hv₁, hh₁⟩ := pushBackWordVector_spec hv w hh
      obtain ⟨vec₂, qs, h₂, hrest, hlength, hv₂, hh₂⟩ := ih hv₁ hh₁
      refine ⟨vec₂, p :: qs, h₂, ?_, congrArg (· + 1) hlength, ?_, ?_⟩
      · rw [List.foldlM_cons]
        show (pushBackWordVector vec w h >>= _) = _
        rw [hpush]
        exact hrest
      · rw [← List.singleton_append, ← List.append_assoc]
        exact hv₂
      · rw [← List.singleton_append (x := p), ← List.append_assoc]
        exact hh₂.perm (List.Perm.cons _ List.perm_middle)

theorem makeWordVectorIn_spec (s : CStr) (hh : h.Holds l) :
    ∃ vec ps h', makeWordVectorIn s h = .ok (vec, h') ∧ ps.length = (makeWordVector s).length ∧
      vec.Lists ps ∧
      h'.Holds (vec.block pointerCells ps :: (strings ps (makeWordVector s) ++ l)) := by
  obtain ⟨hv, -, hinit⟩ := GrowVec.init_spec pointerCells (show 0 < 10 by decide) hh
  have hdup := (hinit.malloc s.block).perm (List.Perm.swap _ _ _)
  obtain ⟨vec, ps, h₁, hpush, hlength, hv₁, hh₁⟩ := pushTokens_spec (makeWordVector s) hv hdup
  obtain ⟨h₂, hfree, hh₂⟩ :=
    (hh₁.perm ((List.Perm.cons _ List.perm_middle).trans (List.Perm.swap _ _ _))).free
  refine ⟨vec, ps, h₂, ?_, hlength, hv₁, hh₂⟩
  exact bind_eq_ok.mpr ⟨_, hpush, bind_eq_ok.mpr ⟨_, inHeap_eq_ok hfree, rfl⟩⟩

theorem perm_front (a b e : Nat × Block) (xs ys : List (Nat × Block)) :
    (a :: b :: (xs ++ e :: ys)).Perm (e :: a :: b :: (xs ++ ys)) :=
  @List.perm_middle _ e (a :: b :: xs) ys

/-- The entries of a map with room for them are inserted. -/
theorem insertTokens_spec (es : List (CStr × Nat)) (map : WordMap) {ps vs : List Nat}
    (hk : map.keys.Lists ps) (hv : map.values.Lists vs)
    (hroom : ps.length + es.length ≤ map.keys.capacity)
    (hroom' : vs.length + es.length ≤ map.values.capacity)
    (hh : h.Holds (map.keys.block pointerCells ps :: map.values.block intCells vs :: l)) :
    ∃ map' qs h', es.foldlM (fun (map, h) (token, i) => insertWordMap map token i h) (map, h) =
        .ok (map', h') ∧ qs.length = es.length ∧ h'.Holds (map'.keys.block pointerCells (ps ++ qs) ::
          map'.values.block intCells (vs ++ es.map Prod.snd) :: (strings qs (es.map Prod.fst) ++ l)) := by
  induction es generalizing map h ps vs l with
  | nil =>
      refine ⟨map, [], h, rfl, rfl, ?_⟩
      rw [List.append_nil, List.map_nil, List.append_nil]
      exact hh
  | cons e es ih =>
      obtain ⟨token, i⟩ := e
      rw [List.length_cons] at hroom hroom'
      -- the string is the third block, behind the keys and the values
      have hdup := (hh.malloc token.block).perm
        ((List.Perm.swap _ _ _).trans (List.Perm.cons _ (List.Perm.swap _ _ _)))
      obtain ⟨keys, h₁, hkey, hk₁, hkcap, hh₁⟩ :=
        GrowVec.put_spec pointerCells hk (by omega) (h.malloc token.block).1 hdup
      obtain ⟨values, h₂, hvalue, hv₂, hvcap, hh₂⟩ :=
        GrowVec.put_spec intCells hv (by omega) i (hh₁.perm (List.Perm.swap _ _ _))
      obtain ⟨map₃, qs, h₃, hrest, hlength, hh₃⟩ := ih ⟨keys, values⟩ hk₁ hv₂
        (by rw [List.length_append, List.length_singleton, hkcap]; omega)
        (by rw [List.length_append, List.length_singleton, hvcap]; omega)
        (hh₂.perm (List.Perm.swap _ _ _))
      refine ⟨map₃, (h.malloc token.block).1 :: qs, h₃, ?_, congrArg (· + 1) hlength, ?_⟩
      · rw [List.foldlM_cons]
        refine bind_eq_ok.mpr ⟨(⟨keys, values⟩, h₂), ?_, hrest⟩
        exact bind_eq_ok.mpr ⟨_, inHeap_eq_ok hkey, bind_eq_ok.mpr ⟨_, inHeap_eq_ok hvalue, rfl⟩⟩
      · rw [List.append_assoc, List.append_assoc, List.singleton_append, List.singleton_append] at hh₃
        exact hh₃.perm (List.Perm.cons _ (List.Perm.cons _ List.perm_middle))

theorem makeWordMapIn_spec (s : CStr) (hroom : (makeWordVector s).length ≤ 2048) (hh : h.Holds l) :
    ∃ map ps vs h', makeWordMapIn s h = .ok (map, h') ∧ ps.length = (makeWordVector s).length ∧
      h'.Holds (map.keys.block pointerCells ps :: map.values.block intCells vs ::
        (strings ps (makeWordVector s) ++ l)) := by
  obtain ⟨hk, hkcap, hkeys⟩ := GrowVec.init_spec pointerCells (show 0 < 2048 by decide) hh
  obtain ⟨hv, hvcap, hvalues⟩ := GrowVec.init_spec intCells (show 0 < 2048 by decide) hkeys
  have hdup := ((hvalues.perm (List.Perm.swap _ _ _)).malloc s.block).perm
    ((List.Perm.swap _ _ _).trans (List.Perm.cons _ (List.Perm.swap _ _ _)))
  obtain ⟨map, ps, h₁, hinsert, hlength, hh₁⟩ := insertTokens_spec (makeWordVector s).zipIdx
    (initWordMap h).1 hk hv (by rw [List.length_zipIdx]; exact (Nat.zero_add _).trans_le hroom)
    (by rw [List.length_zipIdx]; exact (Nat.zero_add _).trans_le hroom) hdup
  rw [List.length_zipIdx] at hlength
  have hfst : (makeWordVector s).zipIdx.map Prod.fst = makeWordVector s := by
    simp
  rw [hfst] at hh₁
  obtain ⟨h₂, hfree, hh₂⟩ := (hh₁.perm (perm_front _ _ _ _ _)).free
  exact ⟨map, ps, _, h₂, bind_eq_ok.mpr ⟨_, hinsert, bind_eq_ok.mpr ⟨_, inHeap_eq_ok hfree, rfl⟩⟩,
    hlength, hh₂⟩

/-- The tables take 4099 blocks, half of them a copy of the words for the map. -/
theorem initializeTables_spec (hh : h.Holds l) :
    ∃ tables ps rest h', initializeTables h = .ok (tables, h') ∧ ps.length = 2048 ∧
      rest.length = 2050 ∧ h'.Holds ((tables.wordVec.block pointerCells ps :: strings ps englishVec) ++
        (rest ++ l)) := by
  obtain ⟨vec, ps, h₁, hvec, hps, -, hh₁⟩ := makeWordVectorIn_spec english hh
  have hroom : (makeWordVector english).length ≤ 2048 := by
    rw [makeWordVector_english, length_englishVec]
  obtain ⟨map, qs, vs, h₂, hmap, hqs, hh₂⟩ := makeWordMapIn_spec english hroom hh₁
  rw [makeWordVector_english] at hps hqs hh₂
  refine ⟨⟨vec, map⟩, ps, map.keys.block pointerCells qs :: map.values.block intCells vs ::
    strings qs englishVec, h₂, ?_, hps.trans length_englishVec, ?_, hh₂.perm ?_⟩
  · exact bind_eq_ok.mpr ⟨_, hvec, bind_eq_ok.mpr ⟨_, hmap, rfl⟩⟩
  · rw [List.length_cons, List.length_cons, length_strings hqs, length_englishVec]
  · exact List.perm_append_comm_assoc (_ :: _ :: strings qs englishVec) (_ :: strings ps englishVec) l

/-! ## A mnemonic -/

/-- The word vector and its strings are among the blocks. -/
structure HasWords (vec : GrowVec) (l : List (Nat × Block)) : Prop where
  exists_blocks : ∃ ps, ps.length = englishVec.length ∧ vec.block pointerCells ps ∈ l ∧
    ∀ e ∈ strings ps englishVec, e ∈ l

theorem HasWords.cons (hw : HasWords vec l) (e : Nat × Block) : HasWords vec (e :: l) := by
  obtain ⟨ps, hlength, hvec, hstrings⟩ := hw.exists_blocks
  exact ⟨ps, hlength, List.mem_cons_of_mem e hvec, fun e' he' => List.mem_cons_of_mem e (hstrings e' he')⟩

theorem wordIn_spec (hw : HasWords vec l) (hh : h.Holds l) {i : Nat} {w : CStr}
    (hi : englishVec[i]? = some w) : wordIn vec i h = .ok w.bytes := by
  obtain ⟨ps, hlength, hvec, hstrings⟩ := hw.exists_blocks
  obtain ⟨hlt, -⟩ := List.getElem?_eq_some_iff.mp hi
  have hp : ps[i]? = some ps[i] := List.getElem?_eq_getElem (hlength ▸ hlt)
  have hmem : (ps[i], w.block) ∈ strings ps englishVec := by
    refine List.mem_of_getElem? (i := i) ?_
    rw [strings, List.getElem?_zipWith, hp, hi]
  have hget : vec.get pointerCells i h = some ps[i] :=
    (GrowVec.get_spec pointerCells i hh hvec).trans hp
  refine bind_eq_ok.mpr ⟨_, inHeap_eq_ok hget, ?_⟩
  rw [hh.load_mem (hstrings _ hmem)]
  rfl

theorem strcatTo_spec {p size : Nat} {text s : List UInt8}
    (hroom : text.length + s.length + 1 ≤ size) (hh : h.Holds ((p, .chars size text) :: l)) :
    ∃ h', strcatTo p s h = .ok h' ∧ h'.Holds ((p, .chars size (text ++ s)) :: l) := by
  obtain ⟨h', hstore, hh'⟩ := hh.store (.chars size (text ++ s))
  refine ⟨h', ?_, hh'⟩
  rw [strcatTo, hh.load]
  exact (if_pos hroom).trans (inHeap_eq_ok hstore)

/-- The words that `b2048_encode` computes are pushed one after the other. -/
theorem b2048EncodeLoopIn_eq (bs : List UInt8) (out : GrowVec) (val : UInt32) (bits : Nat)
    (h : Heap Block) : b2048EncodeLoopIn out val bits bs h =
      inHeap (out.pushAll uint16Cells (b2048EncodeLoop val bits bs) h) := by
  induction bs generalizing out val bits h with
  | nil =>
      rw [b2048EncodeLoopIn, b2048EncodeLoop]
      split
      · show _ = inHeap (out.push uint16Cells _ h >>= _)
        cases out.push uint16Cells (val &&& 0x7FF).toUInt16 h <;> rfl
      · rfl
  | cons b bs ih =>
      rw [b2048EncodeLoopIn, b2048EncodeLoop]
      dsimp only
      split
      · show (inHeap (out.push uint16Cells _ h) >>= _) = inHeap (out.push uint16Cells _ h >>= _)
        cases out.push uint16Cells ((val ||| b.toUInt32 <<< UInt32.ofNat bits) &&& 0x7FF).toUInt16 h with
        | none => rfl
        | some r => exact ih r.1 _ _ r.2
      · exact ih out _ _ h

theorem b2048EncodeIn_spec (bs : List UInt8) (hh : h.Holds l) :
    ∃ out h', b2048EncodeIn bs h = .ok (out, h') ∧ out.Lists (b2048Encode bs) ∧
      h'.Holds (out.block uint16Cells (b2048Encode bs) :: l) := by
  obtain ⟨hv, -, hinit⟩ := GrowVec.init_spec uint16Cells (show 0 < 10 by decide) hh
  obtain ⟨out, h', hpush, hout, -, hh'⟩ := GrowVec.pushAll_spec uint16Cells hv (b2048Encode bs) hinit
  refine ⟨out, h', ?_, hout, hh'⟩
  exact (b2048EncodeLoopIn_eq bs _ 0 0 _).trans (inHeap_eq_ok hpush)

/-- The checksum leaves nothing behind. -/
theorem checksumIn_spec {H : MbedtlsSha512} {b : List UInt8} {check : UInt16}
    (hc : checksum H b = .ok check) (hh : h.Holds l) :
    ∃ h', checksumIn H b h = .ok (check, h') ∧ h'.Holds l := by
  obtain ⟨⟨errCode, result⟩, hsha, hc⟩ := bind_eq_ok.mp hc
  dsimp only at hc
  split at hc
  · exact absurd hc (throw_ne_ok _ _)
  · next hok =>
      obtain ⟨ints, h₁, hencode, hints, hh₁⟩ := b2048EncodeIn_spec (result.take 2) hh
      split at hc
      · next check' rest hwords =>
          cases pure_eq_ok.mp hc
          rw [hwords] at hh₁
          have hget : ints.get uint16Cells 0 h₁ = some check :=
            GrowVec.get_spec uint16Cells 0 hh₁ List.mem_cons_self
          obtain ⟨h₂, hfree, hh₂⟩ := hh₁.free
          refine ⟨h₂, bind_eq_ok.mpr ⟨_, hsha, ?_⟩, hh₂⟩
          dsimp only
          rw [if_neg hok]
          exact bind_eq_ok.mpr ⟨_, hencode, bind_eq_ok.mpr ⟨_, inHeap_eq_ok hget,
            bind_eq_ok.mpr ⟨_, inHeap_eq_ok hfree, rfl⟩⟩⟩
      · exact absurd hc (throw_ne_ok _ _)

theorem length_spelled_cons (sep : UInt8) (w : CStr) (ws : List CStr) :
    (spelled sep (w :: ws)).length = w.bytes.length + 1 + (spelled sep ws).length := by
  simp [spelled]
  omega

/-- Element `i` of the words of a seed, and the word it stands for. -/
theorem element_spec {encoded : GrowVec} {xs done rest : List UInt16} {x : UInt16}
    (hw : HasWords vec l) (hh : h.Holds l) (hencoded : encoded.block uint16Cells xs ∈ l)
    (hxs : xs = done ++ x :: rest) {w : CStr} (hx : englishVec[x.toNat]? = some w) :
    inHeap (encoded.get uint16Cells done.length h) = .ok x ∧
      wordIn vec x.toNat h = .ok w.bytes := by
  refine ⟨inHeap_eq_ok ?_, wordIn_spec hw hh hx⟩
  rw [GrowVec.get_spec uint16Cells done.length hh hencoded, hxs]
  simp

/-- The length is that of the words and the spaces. -/
theorem mnemonicLength_spec {encoded : GrowVec} {xs rest : List UInt16} (done : List UInt16)
    {ws : List CStr} (hw : HasWords vec l) (hh : h.Holds l) (hencoded : encoded.block uint16Cells xs ∈ l)
    (hxs : xs = done ++ rest) (hrest : Spells rest ws) (mnemonicLen : Nat) :
    mnemonicLength vec encoded h rest.length done.length mnemonicLen =
      .ok (mnemonicLen + (spelled 0x20 ws).length) := by
  induction hrest generalizing done mnemonicLen with
  | nil => rfl
  | @cons x w rest ws hx _ ih =>
      obtain ⟨hget, hword⟩ := element_spec hw hh hencoded hxs hx
      have hnext := ih (done ++ [x]) (by rw [hxs]; simp) (mnemonicLen + (w.bytes.length + 1))
      rw [List.length_append, List.length_singleton] at hnext
      refine bind_eq_ok.mpr ⟨_, hget, bind_eq_ok.mpr ⟨_, hword, ?_⟩⟩
      rw [hnext, length_spelled_cons]
      exact congrArg Except.ok (by omega)

/-- With room for the words and the spaces, they are written one after the other. -/
theorem mnemonicWords_spec {encoded : GrowVec} {xs rest : List UInt16} (done : List UInt16)
    {ws : List CStr} {p size : Nat} {text : List UInt8} (hw : HasWords vec l)
    (hencoded : encoded.block uint16Cells xs ∈ l) (hxs : xs = done ++ rest) (hrest : Spells rest ws)
    (hroom : text.length + (spelled 0x20 ws).length + 1 ≤ size)
    (hh : h.Holds ((p, .chars size text) :: l)) :
    ∃ h', mnemonicWords vec encoded p rest.length done.length h = .ok h' ∧
      h'.Holds ((p, .chars size (text ++ spelled 0x20 ws)) :: l) := by
  induction hrest generalizing done text h with
  | nil =>
      refine ⟨h, rfl, ?_⟩
      simpa [spelled] using hh
  | @cons x w rest ws hx _ ih =>
      rw [length_spelled_cons] at hroom
      obtain ⟨hget, hword⟩ := element_spec (hw.cons _) hh (List.mem_cons_of_mem _ hencoded) hxs hx
      obtain ⟨h₁, hcat, hh₁⟩ := strcatTo_spec (s := w.bytes) (by omega) hh
      obtain ⟨h₂, hspace, hh₂⟩ := strcatTo_spec (s := [0x20])
        (by rw [List.length_append, List.length_singleton]; omega) hh₁
      obtain ⟨h₃, hnext, hh₃⟩ := ih (done ++ [x]) (by rw [hxs]; simp)
        (by simp only [List.length_append, List.length_singleton]; omega) hh₂
      rw [List.length_append, List.length_singleton] at hnext
      refine ⟨h₃, ?_, ?_⟩
      · exact bind_eq_ok.mpr ⟨_, hget, bind_eq_ok.mpr ⟨_, hword, bind_eq_ok.mpr ⟨_, hcat,
          bind_eq_ok.mpr ⟨_, hspace, hnext⟩⟩⟩⟩
      · simpa [spelled] using hh₃

/-- The mnemonic is the one of the list of words, it fills its block, and nothing else is
left behind. -/
theorem mnemonicFromSeedIn_spec {H : MbedtlsSha512} {seed : List UInt8} {check : UInt16}
    (hc : checksum H seed = .ok check) (hw : HasWords vec l) (hh : h.Holds l) :
    ∃ p h' m, mnemonicFromSeedIn H vec seed h = .ok (.success, p, h') ∧
      mnemonicFromSeed H { wordVec := englishVec, wordMap := englishVec.zipIdx } seed =
        .ok (.success, m) ∧ h'.Holds ((p, m.block) :: l) := by
  obtain ⟨ws, checkword, m, hspells, hcheckword, hm, hbytes⟩ := mnemonicFromSeed_ok hc
  obtain ⟨encoded, h₁, hencode, hlists, hh₁⟩ := b2048EncodeIn_spec seed hh
  have hw₁ := hw.cons (encoded.block uint16Cells (b2048Encode seed))
  have hlength := mnemonicLength_spec [] hw₁ hh₁ List.mem_cons_self
    (List.nil_append (b2048Encode seed)).symm hspells 0
  obtain ⟨h₂, hcheck₂, hh₂⟩ := checksumIn_spec hc hh₁
  have hword₂ := wordIn_spec hw₁ hh₂ hcheckword
  have hh₃ := hh₂.malloc (.chars (0 + (spelled 0x20 ws).length + (checkword.bytes.length + 1)) [])
  obtain ⟨h₄, hwords, hh₄⟩ := mnemonicWords_spec [] hw₁ List.mem_cons_self
    (List.nil_append (b2048Encode seed)).symm hspells (by rw [List.length_nil]; omega) hh₃
  obtain ⟨h₅, hcheck₅, hh₅⟩ := checksumIn_spec hc hh₄
  have hword₅ := wordIn_spec (hw₁.cons _) hh₅ hcheckword
  obtain ⟨h₆, hcat, hh₆⟩ := strcatTo_spec (s := checkword.bytes)
    (by rw [List.nil_append]; omega) hh₅
  obtain ⟨h₇, hfree, hh₇⟩ := (hh₆.perm (List.Perm.swap _ _ _)).free
  refine ⟨(h₂.malloc (.chars (0 + (spelled 0x20 ws).length + (checkword.bytes.length + 1)) [])).1,
    h₇, m, ?_, hm, hh₇.perm (.of_eq ?_)⟩
  · rw [← hlists.size] at hlength hwords
    refine bind_eq_ok.mpr ⟨_, hencode, bind_eq_ok.mpr ⟨_, hlength, bind_eq_ok.mpr ⟨_, hcheck₂,
      bind_eq_ok.mpr ⟨_, hword₂, ?_⟩⟩⟩⟩
    exact bind_eq_ok.mpr ⟨_, hwords, bind_eq_ok.mpr ⟨_, hcheck₅, bind_eq_ok.mpr ⟨_, hword₅,
      bind_eq_ok.mpr ⟨_, hcat, bind_eq_ok.mpr ⟨_, inHeap_eq_ok hfree, rfl⟩⟩⟩⟩⟩
  · rw [CStr.block, CStr.strlen, hbytes, List.length_append, List.nil_append, Nat.zero_add,
      Nat.add_assoc]

/-- No checksum, no mnemonic. -/
theorem checksumIn_error {H : MbedtlsSha512} {b : List UInt8} {f : Fault}
    (hc : checksum H b = .error f) (h : Heap Block) : checksumIn H b h = .error f := by
  rw [checksum] at hc
  rw [checksumIn]
  cases hsha : sha512_256 H b 32 with
  | error f' =>
      rw [hsha] at hc
      cases hc
      rfl
  | ok r =>
      obtain ⟨errCode, result⟩ := r
      rw [hsha] at hc
      change (if _ then _ else _) = _ at hc
      show (if _ then _ else _) = _
      split
      · next hne =>
          rw [if_pos hne] at hc
          cases hc
          rfl
      · next hok =>
          rw [if_neg hok] at hc
          obtain ⟨ints, h₁, hencode, -, hh₁⟩ := b2048EncodeIn_spec (result.take 2) h.holds_blocks
          split at hc
          · cases hc
          · next hwords =>
              cases hc
              have hget : ints.get uint16Cells 0 h₁ = (b2048Encode (result.take 2))[0]? :=
                GrowVec.get_spec uint16Cells 0 hh₁ List.mem_cons_self
              rw [hwords] at hget
              rw [hencode]
              show (inHeap (ints.get uint16Cells 0 h₁) >>= _) = _
              rw [hget]
              rfl

theorem mnemonicFromSeedIn_error {H : MbedtlsSha512} {seed : List UInt8} {f : Fault}
    (hc : checksum H seed = .error f) (hw : HasWords vec l) (hh : h.Holds l) :
    mnemonicFromSeedIn H vec seed h = .error f ∧
      mnemonicFromSeed H { wordVec := englishVec, wordMap := englishVec.zipIdx } seed = .error f := by
  obtain ⟨ws, m, hspells, hjoin, -⟩ := joinWords_ok ⟨[], by decide⟩
    fun i (hi : i ∈ b2048Encode seed) => b2048Encode_lt hi
  obtain ⟨encoded, h₁, hencode, hlists, hh₁⟩ := b2048EncodeIn_spec seed hh
  have hlength := mnemonicLength_spec [] (hw.cons _) hh₁ List.mem_cons_self
    (List.nil_append (b2048Encode seed)).symm hspells 0
  rw [← hlists.size, List.length_nil] at hlength
  constructor
  · rw [mnemonicFromSeedIn, hencode]
    show (mnemonicLength vec encoded h₁ encoded.size 0 0 >>= _) = _
    rw [hlength]
    show (checksumIn H seed h₁ >>= _) = _
    rw [checksumIn_error hc]
    rfl
  · rw [mnemonicFromSeed]
    dsimp only
    rw [hjoin, hc]
    rfl

/-! ## Exports -/

/-- How many blocks are left for good, by what the export returns: 2048 words in a vector,
as many again in a map of two arrays, the seed and the copy of the account.  Where
`sodium_init` failed it is only the last. -/
def exportLoss : Except Fault (RetCode × Option CStr) → Nat
  | .ok (_, some _) => 2048 + 1 + 2048 + 2 + 1 + 1
  | .ok (.errorInternal, none) => 1
  | _ => 0

/-- What is in the heap after an export that returned: the mnemonic, if there is one, what is
lost, and what was there. -/
structure Exported (result : RetCode × Option CStr) (before : List (Nat × Block))
    (after : RetCode × Option Nat × Heap Block) : Prop where
  code : after.1 = result.1
  heap : ∃ lost, lost.length = exportLoss (.ok result) ∧
    match result.2, after.2.1 with
    | some m, some p => after.2.2.Holds ((p, m.block) :: (lost ++ before))
    | none, none => after.2.2.Holds (lost ++ before)
    | _, _ => False

/-- Over a heap an export goes the way it goes without one. -/
inductive GoesAs (before : List (Nat × Block)) :
    Except Fault (RetCode × Option CStr) → Except Fault (RetCode × Option Nat × Heap Block) → Prop
  | fails (f : Fault) : GoesAs before (.error f) (.error f)
  | returns {result : RetCode × Option CStr} {after : RetCode × Option Nat × Heap Block}
      (h : Exported result before after) : GoesAs before (.ok result) (.ok after)

theorem verticesMnemonicFromSkIn_spec (H : MbedtlsSha512) (E : Ed25519) (sodiumInit : Bool)
    (sk : Vector UInt8 addressLength) (e : Nat × Block) (hh : h.Holds (e :: l)) :
    GoesAs l (verticesMnemonicFromSk H E sodiumInit sk)
      (verticesMnemonicFromSkIn H E sodiumInit sk h) := by
  cases sodiumInit with
  | false => exact .returns ⟨rfl, [e], rfl, hh⟩
  | true =>
      have hh₁ := hh.malloc (.bytes (E.skToSeed sk).toList)
      obtain ⟨tables, ps, rest, h₂, htables, hps, hrest, hh₂⟩ := initializeTables_spec hh₁
      have hlength : ps.length = englishVec.length := hps.trans length_englishVec.symm
      have hw : HasWords tables.wordVec ((tables.wordVec.block pointerCells ps :: strings ps englishVec) ++
          (rest ++ ((h.malloc (.bytes (E.skToSeed sk).toList)).1, .bytes (E.skToSeed sk).toList) ::
            e :: l)) := by
        refine ⟨ps, hlength, List.mem_append_left _ List.mem_cons_self, fun s hs => ?_⟩
        exact List.mem_append_left _ (List.mem_cons_of_mem _ hs)
      have hinit : verticesMnemonicFromSk H E true sk = (mnemonicFromSeed H
          { wordVec := englishVec, wordMap := englishVec.zipIdx } (E.skToSeed sk).toList >>=
            fun r => return (r.1, some r.2)) := by
        rw [verticesMnemonicFromSk, initializeMnemonic_eq]
        rfl
      have hinit' : verticesMnemonicFromSkIn H E true sk h = (mnemonicFromSeedIn H tables.wordVec
          (E.skToSeed sk).toList h₂ >>= fun r => return (r.1, some r.2.1, r.2.2)) := by
        rw [verticesMnemonicFromSkIn]
        show (initializeTables (h.malloc (.bytes (E.skToSeed sk).toList)).2 >>= _) = _
        rw [htables]
        rfl
      rw [hinit, hinit']
      cases hc : checksum H (E.skToSeed sk).toList with
      | error f =>
          obtain ⟨hin, hlist⟩ := mnemonicFromSeedIn_error hc hw hh₂
          rw [hin, hlist]
          exact .fails f
      | ok check =>
          obtain ⟨p, h₃, m, hin, hlist, hh₃⟩ := mnemonicFromSeedIn_spec hc hw hh₂
          rw [hin, hlist]
          refine .returns ⟨rfl, (tables.wordVec.block pointerCells ps :: strings ps englishVec) ++
            (rest ++ [((h.malloc (.bytes (E.skToSeed sk).toList)).1, .bytes (E.skToSeed sk).toList),
              e]), ?_, ?_⟩
          · rw [List.length_append, List.length_cons, length_strings hlength, length_englishVec,
              List.length_append, hrest]
            rfl
          · refine hh₃.perm (.of_eq ?_)
            simp

/-- Whatever the wallet, the name and the heap: nothing is accessed outside of a block, the
mnemonic fills its own, and what was there is as it was. -/
theorem verticesMnemonicFromAccountIn_spec (H : MbedtlsSha512) (E : Ed25519) (sodiumInit : Bool)
    (pointers : RecordPointers) (name : CStr) (wallet : SAccounts) (h : Heap Block) :
    GoesAs h.blocks (verticesMnemonicFromAccount H E sodiumInit pointers name wallet)
      (verticesMnemonicFromAccountIn H E sodiumInit pointers name wallet h) := by
  rw [verticesMnemonicFromAccount, verticesMnemonicFromAccountIn]
  by_cases hlong : accountNameLength < name.strlen
  · rw [if_pos hlong, if_pos hlong]
    exact .returns ⟨rfl, [], rfl, h.holds_blocks⟩
  · rw [if_neg hlong, if_neg hlong, sAccountExists, sAccountGetByName]
    cases findByName pointers wallet name (List.finRange _) with
    | error f => exact .fails f
    | ok found =>
        cases found with
        | none => exact .returns ⟨rfl, [], rfl, h.holds_blocks⟩
        | some i =>
            exact verticesMnemonicFromSkIn_spec H E sodiumInit (wallet.get i).privateKey _
              (h.holds_blocks.malloc (.account AccountDetails.zero.info))

/-! ## Many exports -/

/-- What the caller of an export sees: the code, and the string. -/
def seen (result : RetCode × Option CStr) : RetCode × Option (List UInt8) :=
  (result.1, result.2.map CStr.bytes)

/-- An export; the caller reads the mnemonic and frees it. -/
def exportAndFree (H : MbedtlsSha512) (E : Ed25519) (pointers : RecordPointers) (wallet : SAccounts)
    (sodiumInit : Bool) (name : CStr) (h : Heap Block) : Except Fault ((RetCode × Option (List UInt8)) × Heap Block) := do
  let (err, mnemonic, h) ← verticesMnemonicFromAccountIn H E sodiumInit pointers name wallet h
  match mnemonic with
  | none => return ((err, none), h)
  | some p =>
      match h.load p with
      | some (.chars _ text) => do
          let h ← inHeap (h.free p)
          return ((err, some text), h)
      | _ => throw .outOfBounds

/-- One after the other. -/
def exportAll (H : MbedtlsSha512) (E : Ed25519) (pointers : RecordPointers) (wallet : SAccounts) :
    List (Bool × CStr) → Heap Block →
      Except Fault (List (RetCode × Option (List UInt8)) × Heap Block)
  | [], h => return ([], h)
  | (sodiumInit, name) :: calls, h => do
      let (result, h) ← exportAndFree H E pointers wallet sodiumInit name h
      let (results, h) ← exportAll H E pointers wallet calls h
      return (result :: results, h)

/-- The same without a heap. -/
def allExported (H : MbedtlsSha512) (E : Ed25519) (pointers : RecordPointers) (wallet : SAccounts) :
    List (Bool × CStr) → Except Fault (List (RetCode × Option (List UInt8)))
  | [] => return []
  | (sodiumInit, name) :: calls => do
      let result ← verticesMnemonicFromAccount H E sodiumInit pointers name wallet
      let results ← allExported H E pointers wallet calls
      return seen result :: results

def totalLoss (H : MbedtlsSha512) (E : Ed25519) (pointers : RecordPointers) (wallet : SAccounts) :
    List (Bool × CStr) → Nat
  | [] => 0
  | (sodiumInit, name) :: calls =>
      exportLoss (verticesMnemonicFromAccount H E sodiumInit pointers name wallet) +
        totalLoss H E pointers wallet calls

section

variable {H : MbedtlsSha512} {E : Ed25519} {pointers : RecordPointers} {wallet : SAccounts}
  {sodiumInit : Bool} {name : CStr}

theorem exportAndFree_ok {result : RetCode × Option CStr}
    (hresult : verticesMnemonicFromAccount H E sodiumInit pointers name wallet = .ok result) (h : Heap Block) :
    ∃ h' lost, exportAndFree H E pointers wallet sodiumInit name h = .ok (seen result, h') ∧
      lost.length = exportLoss (.ok result) ∧ h'.Holds (lost ++ h.blocks) := by
  have hgoes := verticesMnemonicFromAccountIn_spec H E sodiumInit pointers name wallet h
  rw [hresult] at hgoes
  rw [exportAndFree]
  generalize verticesMnemonicFromAccountIn H E sodiumInit pointers name wallet h = outcome at hgoes
  cases hgoes with
  | @returns _ after hexported =>
      obtain ⟨err, mnemonic, h₁⟩ := after
      obtain ⟨code, m⟩ := result
      obtain ⟨hcode, lost, hlost, hheap⟩ := hexported
      change err = code at hcode
      subst hcode
      cases m with
      | none =>
          cases mnemonic with
          | none => exact ⟨h₁, lost, rfl, hlost, hheap⟩
          | some p => exact hheap.elim
      | some m =>
          cases mnemonic with
          | none => exact hheap.elim
          | some p =>
              obtain ⟨h₂, hfree, hh₂⟩ := Heap.Holds.free hheap
              refine ⟨h₂, lost, ?_, hlost, hh₂⟩
              show (match h₁.load p with | some (.chars _ text) => _ | _ => _) = _
              rw [Heap.Holds.load hheap]
              exact bind_eq_ok.mpr ⟨_, inHeap_eq_ok hfree, rfl⟩

theorem exportAndFree_error {f : Fault}
    (hresult : verticesMnemonicFromAccount H E sodiumInit pointers name wallet = .error f) (h : Heap Block) :
    exportAndFree H E pointers wallet sodiumInit name h = .error f := by
  have hgoes := verticesMnemonicFromAccountIn_spec H E sodiumInit pointers name wallet h
  rw [hresult] at hgoes
  rw [exportAndFree]
  generalize verticesMnemonicFromAccountIn H E sodiumInit pointers name wallet h = outcome at hgoes
  cases hgoes
  rfl

theorem exportAll_cons {calls : List (Bool × CStr)} {h h' : Heap Block}
    {result : RetCode × Option (List UInt8)}
    (hexport : exportAndFree H E pointers wallet sodiumInit name h = .ok (result, h')) :
    exportAll H E pointers wallet ((sodiumInit, name) :: calls) h =
      (exportAll H E pointers wallet calls h').map fun r => (result :: r.1, r.2) := by
  rw [exportAll, hexport]
  show (exportAll H E pointers wallet calls h' >>= _) = _
  cases exportAll H E pointers wallet calls h' <;> rfl

theorem allExported_cons {calls : List (Bool × CStr)} {result : RetCode × Option CStr}
    (hresult : verticesMnemonicFromAccount H E sodiumInit pointers name wallet = .ok result) :
    allExported H E pointers wallet ((sodiumInit, name) :: calls) =
      (allExported H E pointers wallet calls).map (seen result :: ·) := by
  rw [allExported, hresult]
  show (allExported H E pointers wallet calls >>= _) = _
  cases allExported H E pointers wallet calls <;> rfl

end

/-- Over a heap, exports show the caller what they show without one, a fault included.  Their
losses add up, although the caller gives back all it was given; what there was before is as
it was. -/
theorem exports_leak (H : MbedtlsSha512) (E : Ed25519) (pointers : RecordPointers) (wallet : SAccounts)
    (calls : List (Bool × CStr)) (h : Heap Block) :
    (exportAll H E pointers wallet calls h).map Prod.fst = allExported H E pointers wallet calls ∧
    ∀ results h', exportAll H E pointers wallet calls h = .ok (results, h') →
      ∃ lost, lost.length = totalLoss H E pointers wallet calls ∧ h'.Holds (lost ++ h.blocks) := by
  induction calls generalizing h with
  | nil =>
      refine ⟨rfl, fun results h' hall => ?_⟩
      cases hall
      exact ⟨[], rfl, h.holds_blocks⟩
  | cons call calls ih =>
      obtain ⟨sodiumInit, name⟩ := call
      cases hresult : verticesMnemonicFromAccount H E sodiumInit pointers name wallet with
      | error f =>
          rw [exportAll, allExported, exportAndFree_error hresult, hresult]
          exact ⟨rfl, fun results h' hall => by cases hall⟩
      | ok result =>
          obtain ⟨h₁, lost, hexport, hlost, hh₁⟩ := exportAndFree_ok hresult h
          obtain ⟨hseen, hleft⟩ := ih h₁
          rw [exportAll_cons hexport, allExported_cons hresult, totalLoss, hresult, ← hseen]
          cases hrest : exportAll H E pointers wallet calls h₁ with
          | error f => exact ⟨rfl, fun results h' hall => by cases hall⟩
          | ok r =>
              obtain ⟨results, h₂⟩ := r
              refine ⟨rfl, fun results' h' hall => ?_⟩
              cases hall
              obtain ⟨lost', hlost', hh'⟩ := hleft results h₂ hrest
              refine ⟨lost' ++ lost, ?_, ?_⟩
              · rw [List.length_append, hlost', hlost, Nat.add_comm]
              · rw [List.append_assoc]
                exact hh'.perm (hh₁.append_left lost')

end Vertices
