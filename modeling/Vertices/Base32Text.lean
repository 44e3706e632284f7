/-
# `Vertices.Base32Text` — base32, there and back

`b32_encode` shifts the bytes through an `int` and writes a character for five bits each, then
the padding, as far as there is room.  `b32_decode` reads such a text back, also where it
was copied by hand: with blanks and dashes in it, in small letters, with digits for letters
that look alike.
-/
import Vertices.AddressRoundTrip

namespace Vertices

open BitString (bits groups fillUp)

/-- The base32 text of RFC 4648: a character for five bits each, and signs up to a whole
group of eight. -/
def rfcBase32 (bs : List UInt8) : List UInt8 := fillUp 8 0x3d (b32Text bs)

theorem length_rfcBase32 (bs : List UInt8) : (rfcBase32 bs).length = base32EncodeLen bs.length := by
  rw [rfcBase32, BitString.length_fillUp (by decide), length_b32Text, base32EncodeLen,
    Nat.mul_comm bs.length]
  generalize (8 * bs.length + 4) / 5 = count
  split <;> omega

/-! ## Encoding -/

/-- The padding, as far as there is room. -/
theorem b32Pad_eq (count room : Nat) :
    b32Pad count room = (List.replicate ((8 - count % 8) % 8) 0x3d).take room := by
  induction room generalizing count with
  | zero => rfl
  | succ room ih =>
      rw [b32Pad]
      split
      · next hcount =>
          have hpads : (8 - count % 8) % 8 = (8 - (count + 1) % 8) % 8 + 1 := by omega
          rw [ih, hpads, List.replicate_succ, List.take_succ_cons]
      · next hcount =>
          have hpads : (8 - count % 8) % 8 = 0 := by omega
          rw [hpads, List.replicate_zero, List.take_nil]

/-- The text and its padding are cut off where the room ends. -/
theorem b32Encode_take {bs : List UInt8} (hne : bs ≠ []) (hlen : bs.length ≤ 2 ^ 28)
    (outputSize : Nat) : b32Encode bs outputSize = (.success, (rfcBase32 bs).take outputSize) := by
  match bs, hne, hlen with
  | first :: rest, _, hlen =>
      rw [b32Encode, if_neg (Nat.not_lt.mpr hlen)]
      dsimp only
      rw [b32EncodeLoop_text, rfcBase32, fillUp, List.take_append, b32Pad_eq, List.length_take]
      by_cases hroom : outputSize ≤ (b32Text (first :: rest)).length
      · rw [Nat.min_eq_left hroom, Nat.sub_self, Nat.sub_eq_zero_of_le hroom, List.take_zero,
          List.take_zero]
      · rw [Nat.min_eq_right (Nat.le_of_not_le hroom)]

/-- **Base32 encoding.**  Of one to 2²⁸ bytes the text of RFC 4648 is written, as far as there
is room, and its length is reported. -/
theorem base32_encode_text {bs : List UInt8} (hne : bs ≠ []) (hlen : bs.length ≤ 2 ^ 28)
    (outputSize : Nat) :
    b32Encode bs outputSize = (.success, (rfcBase32 bs).take outputSize) ∧
      (rfcBase32 bs).length = base32EncodeLen bs.length ∧
      b32EncodeSize bs outputSize = min outputSize (base32EncodeLen bs.length) := by
  have hencode := b32Encode_take hne hlen outputSize
  refine ⟨hencode, length_rfcBase32 bs, ?_⟩
  rw [b32EncodeSize, hencode]
  dsimp only
  rw [List.length_take, length_rfcBase32]

/-- Two bytes with the sign bit set, and room for six of their eight characters. -/
theorem base32_encode_text_two :
    b32Encode [0xff, 0xfe] 6 = (.success, (rfcBase32 [0xff, 0xfe]).take 6) ∧
      (rfcBase32 [0xff, 0xfe]).length = 8 ∧ b32EncodeSize [0xff, 0xfe] 6 = 6 :=
  base32_encode_text (by decide) (by decide) 6

/-! ## Decoding -/

/-- The character is written for one of the text. -/
inductive WrittenFor : UInt8 → UInt8 → Prop
  | same (c : UInt8) : WrittenFor c c
  | lower {c : UInt8} (first : 0x41 ≤ c) (last : c ≤ 0x5a) : WrittenFor (c + 0x20) c
  | zero : WrittenFor 0x30 0x4f
  | one : WrittenFor 0x31 0x4c
  | eight : WrittenFor 0x38 0x42

/-- The characters are those of the text, written one way or another, with blanks, tabs, ends
of lines and dashes between them. -/
inductive CopyOf : List UInt8 → List UInt8 → Prop
  | nil : CopyOf [] []
  | skip {ch : UInt8} {chars text : List UInt8} (skipped : ch ∈ [0x20, 0x09, 0x0d, 0x0a, 0x2d])
      (rest : CopyOf chars text) : CopyOf (ch :: chars) text
  | char {ch c : UInt8} {chars text : List UInt8} (written : WrittenFor ch c)
      (rest : CopyOf chars text) : CopyOf (ch :: chars) (c :: text)

/-- However it is written, a character stands for its digit. -/
theorem WrittenFor.readsDigit {ch : UInt8} {d : Nat} (hd : d < 32)
    (h : WrittenFor ch (b32Alphabet.getD d 0)) : ReadsDigit ch d := by
  have hlower : ∀ d : Fin 32, 0x41 ≤ b32Alphabet.getD d.val 0 → b32Alphabet.getD d.val 0 ≤ 0x5a →
      b32Alphabet.getD d.val 0 + 0x20 ≠ 0x3d ∧ b32Skipped (b32Alphabet.getD d.val 0 + 0x20) = false ∧
        b32Digit (b32Alphabet.getD d.val 0 + 0x20) = some (UInt8.ofNat d.val) := by decide +kernel
  -- the letters that look like digits
  have hlike : ∀ d : Fin 32,
      (b32Alphabet.getD d.val 0 = 0x4f → b32Digit 0x30 = some (UInt8.ofNat d.val)) ∧
      (b32Alphabet.getD d.val 0 = 0x4c → b32Digit 0x31 = some (UInt8.ofNat d.val)) ∧
      (b32Alphabet.getD d.val 0 = 0x42 → b32Digit 0x38 = some (UInt8.ofNat d.val)) := by
    decide +kernel
  obtain ⟨hzero, hone, height⟩ := hlike ⟨d, hd⟩
  generalize hc : b32Alphabet.getD d 0 = c at h
  cases h with
  | same _ =>
      subst hc
      exact readsDigit_alphabet hd
  | lower first last =>
      subst hc
      exact .of_ofNat hd (hlower ⟨d, hd⟩ first last)
  | zero => exact .of_ofNat hd ⟨by decide, by decide, hzero hc⟩
  | one => exact .of_ofNat hd ⟨by decide, by decide, hone hc⟩
  | eight => exact .of_ofNat hd ⟨by decide, by decide, height hc⟩

/-- A copy spells what the text spells, whether the padding stands behind it or not. -/
theorem CopyOf.readAs {chars text : List UInt8} (h : CopyOf chars text) (pads : Nat) :
    ∀ {ds : List Nat}, (∀ d ∈ ds, d < 32) → text = ds.map (fun d => b32Alphabet.getD d 0) →
      ReadAs (chars ++ List.replicate pads 0x3d) ds := by
  have hskipped : ∀ ch ∈ ([0x20, 0x09, 0x0d, 0x0a, 0x2d] : List UInt8), b32Skipped ch = true := by
    simp [b32Skipped]
  induction h with
  | nil =>
      intro ds _ htext
      rw [List.map_eq_nil_iff.mp htext.symm]
      cases pads with
      | zero => exact .nil
      | succ pads => exact .stop _
  | skip skipped _ ih => exact fun hds htext => .skip (hskipped _ skipped) (ih hds htext)
  | char written _ ih =>
      intro ds hds htext
      obtain ⟨d, ds', rfl, rfl, htail⟩ := List.map_eq_cons_iff.mp htext.symm
      rw [List.forall_mem_cons] at hds
      exact .digit (written.readsDigit hds.1) (ih hds.2 htail.symm)

/-- **Base32 decoding.**  A copy of the text of a byte string, with its padding, part of it or
none, is decoded to the byte string, given room for it. -/
theorem base32_decode_copy {bs chars : List UInt8} (hcopy : CopyOf chars (b32Text bs)) {pads : Nat}
    {s : CStr} (hs : s.bytes = chars ++ List.replicate pads 0x3d) {outputSize : Nat}
    (hroom : bs.length ≤ outputSize) :
    b32Decode s outputSize = (.success, bs) ∧ b32DecodeSize s outputSize = bs.length ∧
      (b32DecodeWritten s outputSize).length ≤ outputSize := by
  have hread : ReadAs s.bytes (groups 5 ((8 * bs.length + 4) / 5) (byteBits bs)) := by
    rw [hs]
    exact hcopy.readAs pads (fun d hd => BitString.groups_lt hd) rfl
  have hdecode := b32Decode_spelled hread hroom
  refine ⟨hdecode, ?_, ?_⟩
  · rw [b32DecodeSize, hdecode]
  · rw [b32DecodeWritten, hdecode]
    dsimp only
    split
    · next hless =>
        rw [List.length_append]
        exact hless
    · exact hroom

/-- Three bytes out of small letters, with a dash and a blank between them. -/
theorem base32_decode_copy_three :
    b32Decode (cString (lit "mz-xw 6===")) 4 = (.success, lit "foo") ∧
      b32DecodeSize (cString (lit "mz-xw 6===")) 4 = 3 ∧
      (b32DecodeWritten (cString (lit "mz-xw 6===")) 4).length ≤ 4 := by
  have hcopy : CopyOf (lit "mz-xw 6") (b32Text (lit "foo")) := by
    have htext : b32Text (lit "foo") = lit "MZXW6" := by decide +kernel
    rw [htext]
    refine .char (.lower (c := 0x4d) ?_ ?_) (.char (.lower (c := 0x5a) ?_ ?_) (.skip ?_
      (.char (.lower (c := 0x58) ?_ ?_) (.char (.lower (c := 0x57) ?_ ?_) (.skip ?_
        (.char (.same _) .nil))))))
    all_goals decide
  have hs : (cString (lit "mz-xw 6===")).bytes = lit "mz-xw 6" ++ List.replicate 3 0x3d := by
    decide +kernel
  exact base32_decode_copy hcopy hs (by decide +kernel)

end Vertices
