/-
# `Vertices.Mpack` — what the SDK uses of the mpack library

The library is no part of the repository, so it is a parameter: `MpackWriter` and
`MpackReader` are its interface, and their `Lawful` predicates are what its
documentation promises — the writer appends each call's shortest-form encoding to
its buffer until one does not fit, the reader returns the tag of well-formed input.
Nothing is promised about the bytes of the buffer past those written, nor about what
the reader does with malformed input.

Writer and reader are built without tracking, the library's default outside debug
builds: `mpack_finish_map`, `mpack_done_str`, … do nothing.
-/
import Vertices.Types
import Vertices.Lib.MsgPack

namespace Vertices

open MsgPack

/-! ## The writer -/

/-- One call on a `mpack_writer_t`. -/
inductive WriteOp where
  | startMap (count : Nat)
  | startArray (count : Nat)
  | finishMap
  | finishArray
  | writeStr (s : List UInt8)
  | writeBin (bytes : List UInt8)
  | writeUint (value : UInt64)
  deriving DecidableEq, Repr

/-- What the call adds to the stream. -/
def WriteOp.item : WriteOp → Option Item
  | .startMap count => some (.map count)
  | .startArray count => some (.array count)
  | .finishMap | .finishArray => none
  | .writeStr s => some (.str s)
  | .writeBin bytes => some (.bin bytes)
  | .writeUint value => some (.uint value.toNat)

/-- The items of a sequence of calls. -/
def opItems (ops : List WriteOp) : List Item := ops.filterMap WriteOp.item

/-- The bytes of a sequence of calls. -/
def opBytes (ops : List WriteOp) : List UInt8 := itemBytes (opItems ops)

@[simp] theorem opBytes_nil : opBytes [] = [] := rfl

theorem opBytes_append (ops ops' : List WriteOp) :
    opBytes (ops ++ ops') = opBytes ops ++ opBytes ops' := by
  simp [opBytes, opItems, itemBytes]

theorem opBytes_cons (op : WriteOp) (ops : List WriteOp) :
    opBytes (op :: ops) = opBytes [op] ++ opBytes ops := opBytes_append [op] ops

theorem opBytes_item {op : WriteOp} {i : Item} (h : op.item = some i) : opBytes [op] = i.bytes := by
  simp [opBytes, opItems, itemBytes, h]

@[simp] theorem opBytes_startMap (n : Nat) : opBytes [.startMap n] = (Item.map n).bytes :=
  opBytes_item rfl

@[simp] theorem opBytes_startArray (n : Nat) : opBytes [.startArray n] = (Item.array n).bytes :=
  opBytes_item rfl

@[simp] theorem opBytes_writeStr (s : List UInt8) : opBytes [.writeStr s] = (Item.str s).bytes :=
  opBytes_item rfl

@[simp] theorem opBytes_writeBin (s : List UInt8) : opBytes [.writeBin s] = (Item.bin s).bytes :=
  opBytes_item rfl

@[simp] theorem opBytes_writeUint (v : UInt64) :
    opBytes [.writeUint v] = (Item.uint v.toNat).bytes :=
  opBytes_item rfl

@[simp] theorem opBytes_finishMap : opBytes [.finishMap] = [] := rfl

@[simp] theorem opBytes_finishArray : opBytes [.finishArray] = [] := rfl

/-- The arguments of the call are within the ranges of their C types. -/
def WriteOp.Fits (op : WriteOp) : Prop := ∀ i ∈ op.item, i.Fits

theorem WriteOp.fits_iff {op : WriteOp} {i : Item} (h : op.item = some i) :
    op.Fits ↔ i.Fits := by
  simp [WriteOp.Fits, h]

/-- Every call of a sequence. -/
def AllFit (ops : List WriteOp) : Prop := ∀ op ∈ ops, op.Fits

theorem AllFit.nil : AllFit [] := fun _ h => nomatch h

theorem AllFit.cons {op : WriteOp} {ops : List WriteOp} (h : op.Fits) (h' : AllFit ops) :
    AllFit (op :: ops) := by
  intro o ho
  rcases List.mem_cons.mp ho with rfl | ho
  · exact h
  · exact h' o ho

theorem AllFit.append {ops ops' : List WriteOp} (h : AllFit ops) (h' : AllFit ops') :
    AllFit (ops ++ ops') := fun o ho =>
  (List.mem_append.mp ho).elim (h o) (h' o)

theorem AllFit.items {ops : List WriteOp} (h : AllFit ops) : ∀ i ∈ opItems ops, i.Fits := by
  intro i hi
  obtain ⟨op, hop, hi⟩ := List.mem_filterMap.mp hi
  exact h op hop i hi

/-- `mpack_writer_t` over a buffer of `n` bytes.  `used` is `mpack_writer_buffer_used`,
`ok` that `mpack_writer_destroy` returns `mpack_ok`. -/
structure MpackWriter where
  Writer : Nat → Type
  init : {n : Nat} → Vector UInt8 n → Writer n
  call : {n : Nat} → Writer n → WriteOp → Writer n
  buffer : {n : Nat} → Writer n → Vector UInt8 n
  used : {n : Nat} → Writer n → Nat
  ok : {n : Nat} → Writer n → Bool

/-- The writer's documented behaviour. -/
structure MpackWriter.Lawful (W : MpackWriter) : Prop where
  init_ok : ∀ {n} (mem : Vector UInt8 n), 0 < n → W.ok (W.init mem) = true
  init_used : ∀ {n} (mem : Vector UInt8 n), W.used (W.init mem) = 0
  /-- A call that fits appends its encoding. -/
  call_fits : ∀ {n} (w : W.Writer n) (op : WriteOp), op.Fits → W.ok w = true →
    W.used w + (opBytes [op]).length ≤ n →
    W.ok (W.call w op) = true ∧
    W.used (W.call w op) = W.used w + (opBytes [op]).length ∧
    (W.buffer (W.call w op)).toList.take (W.used (W.call w op)) =
      (W.buffer w).toList.take (W.used w) ++ opBytes [op]
  /-- A call that does not fit flags `mpack_error_too_big`. -/
  call_overflow : ∀ {n} (w : W.Writer n) (op : WriteOp), op.Fits → W.ok w = true →
    n < W.used w + (opBytes [op]).length → W.ok (W.call w op) = false
  /-- An error stays flagged. -/
  call_error : ∀ {n} (w : W.Writer n) (op : WriteOp), W.ok w = false → W.ok (W.call w op) = false

/-- A sequence of calls. -/
def MpackWriter.run (W : MpackWriter) {n : Nat} (w : W.Writer n) (ops : List WriteOp) :
    W.Writer n :=
  ops.foldl W.call w

namespace MpackWriter.Lawful

variable {W : MpackWriter} {n : Nat}

theorem run_error (hW : W.Lawful) : ∀ (ops : List WriteOp) {w : W.Writer n}, W.ok w = false →
    W.ok (W.run w ops) = false := by
  intro ops
  induction ops with
  | nil =>
      intro w h
      exact h
  | cons op ops ih =>
      intro w h
      exact ih (hW.call_error w op h)

/-- Calls whose encodings fit are all in the buffer afterwards. -/
theorem run_fits (hW : W.Lawful) : ∀ (ops : List WriteOp) {w : W.Writer n},
    AllFit ops → W.ok w = true → W.used w + (opBytes ops).length ≤ n →
    W.ok (W.run w ops) = true ∧
    W.used (W.run w ops) = W.used w + (opBytes ops).length ∧
    (W.buffer (W.run w ops)).toList.take (W.used (W.run w ops)) =
      (W.buffer w).toList.take (W.used w) ++ opBytes ops := by
  intro ops
  induction ops with
  | nil =>
      intro w _ hok _
      exact ⟨hok, rfl, by simp [MpackWriter.run]⟩
  | cons op ops ih =>
      intro w hfits hok hlen
      rw [opBytes_cons, List.length_append] at hlen
      obtain ⟨h₁, h₂, h₃⟩ := hW.call_fits w op (hfits op List.mem_cons_self) hok (by omega)
      obtain ⟨h₄, h₅, h₆⟩ := ih (fun o ho => hfits o (List.mem_cons_of_mem _ ho)) h₁ (by omega)
      refine ⟨h₄, ?_, ?_⟩
      · rw [opBytes_cons, List.length_append, ← Nat.add_assoc, ← h₂]; exact h₅
      · rw [opBytes_cons, ← List.append_assoc, ← h₃]; exact h₆

/-- A writer without an error has written everything it was given. -/
theorem fits_of_run_ok (hW : W.Lawful) : ∀ (ops : List WriteOp) {w : W.Writer n},
    AllFit ops → W.ok w = true → W.ok (W.run w ops) = true →
    W.used w ≤ n → W.used w + (opBytes ops).length ≤ n := by
  intro ops
  induction ops with
  | nil =>
      intro w _ _ _ hn
      exact hn
  | cons op ops ih =>
      intro w hfits hok hrun _
      rcases Nat.lt_or_ge n (W.used w + (opBytes [op]).length) with hlt | hle
      · have he := hW.call_overflow w op (hfits op List.mem_cons_self) hok hlt
        have hr := hW.run_error ops he
        exact absurd hrun (by rw [show W.run w (op :: ops) = W.run (W.call w op) ops from rfl, hr]; simp)
      · obtain ⟨h₁, h₂, _⟩ := hW.call_fits w op (hfits op List.mem_cons_self) hok hle
        have ih := ih (fun o ho => hfits o (List.mem_cons_of_mem _ ho)) h₁ hrun (by omega)
        rw [opBytes_cons, List.length_append]
        omega

end MpackWriter.Lawful

/-! ## What a sequence of calls writes -/

/-- The bytes of `ops`, whatever follows them, read as the values `vs`. -/
structure Writes (ops : List WriteOp) (vs : List Value) : Prop where
  reads : ∀ {bs us rest}, Reads bs us rest → Reads (opBytes ops ++ bs) (vs ++ us) rest

namespace Writes

theorem nil : Writes [] [] := ⟨id⟩

theorem append {ops ops' : List WriteOp} {vs vs' : List Value} (h : Writes ops vs)
    (h' : Writes ops' vs') : Writes (ops ++ ops') (vs ++ vs') where
  reads hr := by
    rw [opBytes_append, List.append_assoc, List.append_assoc]
    exact h.reads (h'.reads hr)

theorem str {s : List UInt8} (h : s.length < 2 ^ 32) : Writes [.writeStr s] [.str s] where
  reads hr := by
    rw [opBytes_writeStr]
    exact Reads.strItem h hr

theorem bin {s : List UInt8} (h : s.length < 2 ^ 32) : Writes [.writeBin s] [.bin s] where
  reads hr := by
    rw [opBytes_writeBin]
    exact Reads.binItem h hr

theorem vector {n : Nat} (v : Vector UInt8 n) (h : n < 2 ^ 32) :
    Writes [.writeBin v.toList] [.bin v.toList] :=
  bin (by rw [Vector.length_toList]; exact h)

theorem uint (v : UInt64) : Writes [.writeUint v] [.uint v.toNat] where
  reads hr := by
    rw [opBytes_writeUint]
    exact Reads.uintItem v.toNat_lt hr

/-- Following values left as they are. -/
theorem reads_alone {ops : List WriteOp} {vs : List Value} (h : Writes ops vs) (bs : List UInt8) :
    Reads (opBytes ops ++ bs) vs bs := by
  simpa using h.reads (.nil bs)

theorem array {ops : List WriteOp} {vs : List Value} {n : Nat} (hn : n = vs.length)
    (hlt : n < 2 ^ 32) (h : Writes ops vs) :
    Writes (.startArray n :: ops ++ [.finishArray]) [.array vs] where
  reads {bs us rest} hr := by
    subst hn
    rw [opBytes_append, opBytes_cons, opBytes_startArray, opBytes_finishArray, List.append_nil,
      List.append_assoc]
    exact Reads.arrayItem hlt (h.reads_alone bs) hr

theorem map {ops : List WriteOp} {kvs : List (Value × Value)} {n : Nat} (hn : n = kvs.length)
    (hlt : n < 2 ^ 32) (h : Writes ops (flatten kvs)) :
    Writes (.startMap n :: ops ++ [.finishMap]) [.map kvs] where
  reads {bs us rest} hr := by
    subst hn
    rw [opBytes_append, opBytes_cons, opBytes_startMap, opBytes_finishMap, List.append_nil,
      List.append_assoc]
    exact Reads.mapItem hlt (h.reads_alone bs) hr

/-- A sequence that writes one value, on its own. -/
theorem decode {ops : List WriteOp} {v : Value} (h : Writes ops [v]) :
    MsgPack.decode (opBytes ops) = some (v, []) := by
  have := h.reads_alone []
  rw [List.append_nil] at this
  exact decode_eq_some_iff.mpr this

end Writes

/-! ## The reader -/

/-- `mpack_read_tag` on the bytes left; `none` when it flags an error. -/
structure MpackReader where
  readTag : List UInt8 → Option (Tag × List UInt8)

/-- The reader's documented behaviour: it decodes well-formed input. -/
def MpackReader.Lawful (R : MpackReader) : Prop :=
  ∀ bs t rest, decodeTag bs = some (t, rest) → R.readTag bs = some (t, rest)

/-- It decodes well-formed input, and flags any other. -/
def MpackReader.Exact (R : MpackReader) : Prop := ∀ bs, R.readTag bs = decodeTag bs

/-- It reads forward: what a tag leaves follows at least one byte. -/
def MpackReader.Consumes (R : MpackReader) : Prop :=
  ∀ bs t rest, R.readTag bs = some (t, rest) → ∃ b bs', bs = b :: bs' ∧ rest <:+ bs'

theorem MpackReader.Exact.lawful {R : MpackReader} (h : R.Exact) : R.Lawful :=
  fun bs _ _ ht => (h bs).trans ht

/-- `mpack_reader_t`: the bytes left, and whether `mpack_reader_error` is `mpack_ok`. -/
structure ReaderState where
  rest : List UInt8
  ok : Bool
  deriving DecidableEq, Repr

/-- `mpack_reader_init_data`. -/
def mpackReaderInitData (data : List UInt8) : ReaderState := ⟨data, true⟩

/-- `mpack_reader_flag_error`. -/
def ReaderState.flagError (reader : ReaderState) : ReaderState := { reader with ok := false }

/-- `mpack_read_tag`: after an error, a nil tag. -/
def MpackReader.mpackReadTag (R : MpackReader) (reader : ReaderState) : Tag × ReaderState :=
  if reader.ok then
    match R.readTag reader.rest with
    | some (tag, rest) => (tag, { reader with rest := rest })
    | none => (.nil, reader.flagError)
  else (.nil, reader)

/-- `mpack_read_bytes_inplace`: `none` is a null pointer. -/
def mpackReadBytesInplace (reader : ReaderState) (count : Nat) :
    Option (List UInt8) × ReaderState :=
  if reader.ok then
    if count ≤ reader.rest.length then
      (some (reader.rest.take count), { reader with rest := reader.rest.drop count })
    else (none, reader.flagError)
  else (none, reader)

/-- `mpack_tag_bin_length`: the 32 bits of the tag's union that hold a length, which
the macro reads whatever the type of the tag. -/
def tagBinLength : Tag → Nat
  | .nil => 0
  | .bool b => b.toNat
  | .int i => (i % 2 ^ 32).toNat
  | .uint n | .float n | .double n => n % 2 ^ 32
  | .str length | .bin length | .ext _ length => length
  | .array count | .map count => count

theorem MpackReader.Lawful.mpackReadTag {R : MpackReader} (hR : R.Lawful) {bs rest : List UInt8}
    {t : Tag} (h : decodeTag bs = some (t, rest)) :
    R.mpackReadTag ⟨bs, true⟩ = (t, ⟨rest, true⟩) := by
  simp [MpackReader.mpackReadTag, hR bs t rest h]

/-! ## An instance of each -/

/-- A writer that only appends. -/
def appendWriter : MpackWriter where
  Writer n := { p : Vector UInt8 n × Nat × Bool // p.2.1 ≤ n }
  init mem := ⟨(mem, 0, true), Nat.zero_le _⟩
  call w op :=
    if h : w.1.2.1 + (opBytes [op]).length ≤ _ then
      ⟨(splice w.1.1 w.1.2.1 (opBytes [op]) h, w.1.2.1 + (opBytes [op]).length, w.1.2.2), h⟩
    else ⟨(w.1.1, w.1.2.1, false), w.2⟩
  buffer w := w.1.1
  used w := w.1.2.1
  ok w := w.1.2.2

theorem appendWriter_lawful : appendWriter.Lawful where
  init_ok _ _ := rfl
  init_used _ := rfl
  call_fits w op _ hok hlen := by
    have hc : appendWriter.call w op =
        ⟨(splice w.1.1 w.1.2.1 (opBytes [op]) hlen, w.1.2.1 + (opBytes [op]).length, w.1.2.2),
          hlen⟩ := dif_pos hlen
    rw [hc]
    exact ⟨hok, rfl, take_splice _ _ _ hlen⟩
  call_overflow w op _ _ hlen := by
    have hc : appendWriter.call w op = ⟨(w.1.1, w.1.2.1, false), w.2⟩ :=
      dif_neg (Nat.not_le.mpr hlen)
    rw [hc]
    rfl
  call_error w op hok := by
    unfold appendWriter at hok ⊢
    dsimp only at hok ⊢
    split
    · exact hok
    · rfl

/-- The reader that is the format's definition. -/
def formatReader : MpackReader where
  readTag := decodeTag

theorem formatReader_lawful : formatReader.Lawful := fun _ _ _ h => h

theorem formatReader_exact : formatReader.Exact := fun _ => rfl

theorem formatReader_consumes : formatReader.Consumes := fun _ _ _ h => decodeTag_suffix h

end Vertices
