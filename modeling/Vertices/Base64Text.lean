/-
# `Vertices.Base64Text` — base64, there and back

`b64_encode` takes three bytes as one word and looks up four characters.  What it writes is
the text of RFC 4648, and `b64_decode` of that text, with the `\0` behind it and the room
that `BASE64_DECODE_MIN_LEN` says, gives the bytes back.
-/
import Vertices.AddressText
import Vertices.StateExtraction

namespace Vertices

open BitString (bits groups fillUp)

/-- The base64 text of RFC 4648: a character for six bits each, and signs up to a whole group
of four. -/
def rfcBase64 (bs : List UInt8) : List UInt8 :=
  fillUp 4 b64Pad ((groups 6 ((8 * bs.length + 5) / 6) (byteBits bs)).map fun d => base64Table.getD d 0)

theorem b64Chars_eq (bs : List UInt8) :
    b64Chars bs = (groups 6 ((8 * bs.length + 5) / 6) (byteBits bs)).map fun d => base64Table.getD d 0 := by
  rw [b64Chars, byteBits, ← SixBit.map_toNat_digits, List.map_map]
  rfl

@[simp] theorem length_b64Chars (bs : List UInt8) :
    (b64Chars bs).length = (bs.length * 4 + 2) / 3 := by
  rw [b64Chars, List.length_map, SixBit.length_digits]

theorem b64Text_eq (bs : List UInt8) : b64Text bs = rfcBase64 bs := by
  rw [b64Text, rfcBase64, ← b64Chars_eq, fillUp, length_b64Chars]
  have hrest : bs.length % 3 = 0 ∨ bs.length % 3 = 1 ∨ bs.length % 3 = 2 := by omega
  congr 2
  rcases hrest with h | h | h <;> omega

theorem length_rfcBase64 (bs : List UInt8) : (rfcBase64 bs).length = base64EncodeLen bs.length := by
  rw [rfcBase64, BitString.length_fillUp (by decide), List.length_map, BitString.length_groups,
    base64EncodeLen]
  omega

/-! ## Encoding -/

theorem toNat_b64Triple (a b c : UInt8) :
    (b64Triple a b c).toNat = a.toNat * 2 ^ 16 + (b.toNat * 2 ^ 8 + c.toNat) := by
  have ha := a.toNat_lt
  have hb := b.toNat_lt
  have hc := c.toNat_lt
  have h16 : (16 : UInt32).toNat % 32 = 16 := rfl
  have h8 : (8 : UInt32).toNat % 32 = 8 := rfl
  simp only [b64Triple, UInt32.toNat_add, UInt32.toNat_shiftLeft, UInt8.toNat_toUInt32, h16, h8,
    Nat.shiftLeft_eq]
  omega

/-- The word is the three bytes, one behind the other. -/
theorem bits_b64Triple (a b c : UInt8) :
    bits 24 (b64Triple a b c).toNat = bits 8 a.toNat ++ (bits 8 b.toNat ++ bits 8 c.toNat) := by
  have ha := a.toNat_lt
  have hb := b.toNat_lt
  have hc := c.toNat_lt
  have hfirst : (b64Triple a b c).toNat >>> 16 = a.toNat := by
    rw [toNat_b64Triple, Nat.shiftRight_eq_div_pow]
    omega
  have hsecond : (b64Triple a b c).toNat >>> 8 % 2 ^ 8 = b.toNat := by
    rw [toNat_b64Triple, Nat.shiftRight_eq_div_pow]
    omega
  have hthird : (b64Triple a b c).toNat % 2 ^ 8 = c.toNat := by
    rw [toNat_b64Triple]
    omega
  rw [BitString.bits_add 8 16, BitString.bits_add 8 8, hfirst, ← BitString.bits_mod 8 (_ >>> 8), hsecond,
    ← BitString.bits_mod 8 (b64Triple a b c).toNat, hthird]

/-- The character for six bits of the word. -/
theorem prvGetCharFromWord_eq (word : UInt32) {offset : Nat} (h : offset < 4) :
    prvGetCharFromWord word offset = base64Table.getD (word.toNat >>> (offset * 6) % 2 ^ 6) 0 := by
  have hshift : (UInt32.ofNat (offset * 6)).toNat % 32 = offset * 6 := by
    rw [UInt32.toNat_ofNat']
    omega
  have hmask : (0x3f : UInt32).toNat = 2 ^ 6 - 1 := rfl
  rw [prvGetCharFromWord, UInt32.toNat_and, UInt32.toNat_shiftRight, hshift, hmask,
    Nat.and_two_pow_sub_one_eq_mod]

/-- The six bits at each of the four places are a digit. -/
theorem sextets_b64Triple (a b c : UInt8) :
    (b64Triple a b c).toNat >>> (3 * 6) % 2 ^ 6 = (SixBit.digit₀ a).toNat ∧
      (b64Triple a b c).toNat >>> (2 * 6) % 2 ^ 6 = (SixBit.digit₁ a b).toNat ∧
      (b64Triple a b c).toNat >>> (1 * 6) % 2 ^ 6 = (SixBit.digit₂ b c).toNat ∧
      (b64Triple a b c).toNat >>> (0 * 6) % 2 ^ 6 = (SixBit.digit₃ c).toNat := by
  have hbits := (bits_b64Triple a b c).symm.trans (BitString.bits_add 6 18 _)
  rw [SixBit.bits_digits, BitString.bits_add 6 12, BitString.bits_add 6 6] at hbits
  have hlen : ∀ m n, (bits 6 m).length = (bits 6 n).length := fun m n => by
    rw [BitString.length_bits, BitString.length_bits]
  obtain ⟨h₀, hbits⟩ := List.append_inj hbits (hlen _ _)
  obtain ⟨h₁, hbits⟩ := List.append_inj hbits (hlen _ _)
  obtain ⟨h₂, h₃⟩ := List.append_inj hbits (hlen _ _)
  have hdigit : ∀ {m d : Nat}, d < 2 ^ 6 → bits 6 d = bits 6 m → m % 2 ^ 6 = d := by
    intro m d hd h
    rw [← BitString.bits_mod 6 m] at h
    exact (BitString.bits_inj hd (Nat.mod_lt _ (by decide)) h).symm
  exact ⟨hdigit (SixBit.digit₀_lt a) h₀, hdigit (SixBit.digit₁_lt a b) h₁,
    hdigit (SixBit.digit₂_lt b c) h₂, hdigit (SixBit.digit₃_lt c) h₃⟩

/-- The loop writes the text. -/
theorem b64EncodeLoop_eq (bs : List UInt8) : b64EncodeLoop bs = b64Text bs := by
  have hchar : ∀ (a b c : UInt8) {offset : Nat} {digit : UInt8}, offset < 4 →
      (b64Triple a b c).toNat >>> (offset * 6) % 2 ^ 6 = digit.toNat →
      prvGetCharFromWord (b64Triple a b c) offset = b64Char digit := by
    intro a b c offset digit hoffset hdigit
    rw [prvGetCharFromWord_eq _ hoffset, hdigit, b64Char]
  fun_induction b64EncodeLoop bs with
  | case1 a b c rest triple ih =>
      obtain ⟨h₀, h₁, h₂, h₃⟩ := sextets_b64Triple a b c
      have hpads : (3 - (a :: b :: c :: rest).length % 3) % 3 = (3 - rest.length % 3) % 3 := by
        simp only [List.length_cons]
        omega
      rw [hchar a b c (by decide) h₀, hchar a b c (by decide) h₁, hchar a b c (by decide) h₂,
        hchar a b c (by decide) h₃, ih, b64Text, b64Text, b64Chars, b64Chars, hpads, SixBit.digits]
      rfl
  | case2 a b triple =>
      obtain ⟨h₀, h₁, h₂, -⟩ := sextets_b64Triple a b 0
      rw [hchar a b 0 (by decide) h₀, hchar a b 0 (by decide) h₁, hchar a b 0 (by decide) h₂]
      rfl
  | case3 a triple =>
      obtain ⟨h₀, h₁, -, -⟩ := sextets_b64Triple a 0 0
      rw [hchar a 0 0 (by decide) h₀, hchar a 0 0 (by decide) h₁]
      rfl
  | case4 => rfl

/-- `int curr_idx` counts the characters as they are. -/
theorem toNat_int_size {n : Nat} (h : n < 2 ^ 31) : (Int32.ofNat n).toInt64.toUInt64.toNat = n := by
  have hint : (Int32.ofNat n).toInt = n := Int32.toInt_ofNat_of_lt h
  have hlong : (Int32.ofNat n).toInt64 = Int64.ofNat n := by
    apply Int64.toInt_inj.mp
    rw [Int32.toInt_toInt64, hint, Int64.toInt_ofNat_of_lt (by omega)]
  rw [hlong]
  show (UInt64.ofNat n).toNat = n
  rw [UInt64.toNat_ofNat']
  exact Nat.mod_eq_of_lt (by omega)

theorem b64Encode_eq {bs : List UInt8} (hlen : bs.length < 2 ^ 30) {outputSize : Nat}
    (h : base64EncodeLen bs.length ≤ outputSize) :
    b64Encode bs outputSize = (.success, rfcBase64 bs, base64EncodeLen bs.length) := by
  have hsize : (rfcBase64 bs).length < 2 ^ 31 := by
    rw [length_rfcBase64, base64EncodeLen]
    omega
  rw [b64Encode, if_neg (Nat.not_lt.mpr h), b64EncodeLoop_eq, b64Text_eq]
  dsimp only
  rw [toNat_int_size hsize, length_rfcBase64]

/-! ## Decoding -/

/-- Digits are passed over. -/
theorem b64Scan_append {digits : List UInt8} (hdigits : ∀ c ∈ digits, pr2six c ≤ 63)
    (behind : List UInt8) :
    b64Scan (digits ++ behind) = (b64Scan behind).map (digits.length + ·) := by
  induction digits with
  | nil =>
      rw [List.nil_append, List.length_nil]
      cases b64Scan behind with
      | error fault => rfl
      | ok n => exact congrArg Except.ok (Nat.zero_add n).symm
  | cons c digits ih =>
      rw [List.forall_mem_cons] at hdigits
      rw [List.cons_append, b64Scan, if_pos hdigits.1, ih hdigits.2]
      cases b64Scan behind with
      | error fault => rfl
      | ok n => exact congrArg Except.ok (Nat.succ_add digits.length n).symm

/-- The scan stops behind the digits, if something stands there that is none. -/
theorem b64Scan_stops {digits : List UInt8} (hdigits : ∀ c ∈ digits, pr2six c ≤ 63) {ch : UInt8}
    (hch : ¬ pr2six ch ≤ 63) (behind : List UInt8) :
    b64Scan (digits ++ ch :: behind) = .ok digits.length := by
  have hstop : b64Scan (ch :: behind) = .ok 0 := if_neg hch
  rw [b64Scan_append hdigits, hstop]
  rfl

/-- The digits in front. -/
def b64Leading (chars : List UInt8) : List UInt8 := chars.takeWhile fun c => pr2six c ≤ 63

theorem pr2six_le_of_mem_b64Leading {chars : List UInt8} {c : UInt8} (h : c ∈ b64Leading chars) :
    pr2six c ≤ 63 := by
  have hdigit := List.mem_takeWhile_imp (p := fun c => decide (pr2six c ≤ 63)) h
  exact of_decide_eq_true hdigit

/-- A string is scanned up to its first character that is no digit. -/
theorem b64Scan_string (chars behind : List UInt8) :
    b64Scan (chars ++ 0 :: behind) = .ok (b64Leading chars).length ∧
      (chars ++ 0 :: behind).take (b64Leading chars).length = b64Leading chars := by
  have hend : ¬ pr2six 0 ≤ 63 := by decide +kernel
  obtain ⟨ch, rest, hmemory, hch⟩ : ∃ ch rest, chars ++ 0 :: behind = b64Leading chars ++ ch :: rest ∧
      ¬ pr2six ch ≤ 63 := by
    cases hdrop : chars.dropWhile fun c => pr2six c ≤ 63 with
    | nil =>
        have hall : b64Leading chars = chars := by
          have h := List.takeWhile_append_dropWhile (p := fun c => decide (pr2six c ≤ 63)) (l := chars)
          rwa [hdrop, List.append_nil] at h
        exact ⟨0, behind, by rw [hall], hend⟩
    | cons ch rest =>
        have hhead := List.head?_dropWhile_not (fun c => decide (pr2six c ≤ 63)) chars
        rw [hdrop] at hhead
        refine ⟨ch, rest ++ 0 :: behind, ?_, of_decide_eq_false hhead⟩
        rw [← List.cons_append, ← hdrop, ← List.append_assoc, b64Leading,
          List.takeWhile_append_dropWhile]
  rw [hmemory, b64Scan_stops (fun c => pr2six_le_of_mem_b64Leading) hch, List.take_left]
  exact ⟨rfl, rfl⟩

/-- On a string, and with anything behind it, the two definitions agree. -/
theorem b64DecodeFrom_string (s : CStr) (behind : List UInt8) (inputLength outputSize : Nat) :
    ∃ read, b64DecodeFrom (s.bytes ++ 0 :: behind) inputLength outputSize =
      .ok ⟨(b64Decode s inputLength outputSize).1, (b64Decode s inputLength outputSize).2.1,
        (b64Decode s inputLength outputSize).2.2, read⟩ := by
  obtain ⟨hscan, htake⟩ := b64Scan_string s.bytes behind
  rw [b64DecodeFrom, b64Decode, hscan]
  split
  · exact ⟨0, rfl⟩
  · split
    · exact ⟨0, rfl⟩
    · refine ⟨(b64Leading s.bytes).length + 1, ?_⟩
      show Except.ok (B64Decoded.mk _ (b64Bytes _) (b64Bytes _).length _) = _
      rw [htake]
      rfl

theorem b64Leading_rfcBase64 (bs : List UInt8) : b64Leading (rfcBase64 bs) = b64Chars bs := by
  rw [← b64Text_eq, b64Text, b64Leading, takeWhile_b64Chars]

/-- The text of RFC 4648 with the `\0` behind it, given the room that is asked for. -/
theorem b64DecodeFrom_text (bs behind : List UInt8) :
    ∃ read, b64DecodeFrom (rfcBase64 bs ++ 0 :: behind) (rfcBase64 bs).length
        (base64DecodeMinLen (rfcBase64 bs).length) = .ok ⟨.success, bs, bs.length, read⟩ := by
  have hlength : (rfcBase64 bs).length = 4 * ((bs.length + 2) / 3) := length_rfcBase64 bs
  cases hbs : bs with
  | nil => exact ⟨0, rfl⟩
  | cons b rest =>
      have hpos : 0 < (bs.length + 2) / 3 := by
        rw [hbs, List.length_cons]
        omega
      rw [← hbs]
      generalize (bs.length + 2) / 3 = groups at hlength hpos
      have hroom : ¬ base64DecodeMinLen (4 * groups) <
          (4 * groups / 4 * 3 + (2 ^ 64 - 1)) % 2 ^ 64 := by
        rw [base64DecodeMinLen, if_pos (by omega)]
        omega
      obtain ⟨hscan, htake⟩ := b64Scan_string (rfcBase64 bs) behind
      rw [b64Leading_rfcBase64] at hscan htake
      refine ⟨(b64Chars bs).length + 1, ?_⟩
      rw [b64DecodeFrom, hlength, if_neg (by omega), if_neg hroom, hscan]
      show Except.ok (B64Decoded.mk _ (b64Bytes _) (b64Bytes _).length _) = _
      rw [htake, map_pr2six_b64Chars, b64Bytes_digits]

/-- **Base64 there and back.**  The encoder writes the text of RFC 4648, and the decoder, given
the text with the `\0` behind it and the room that `BASE64_DECODE_MIN_LEN` says, the bytes. -/
theorem base64_round_trip {bs : List UInt8} (hlen : bs.length < 2 ^ 30) {outputSize : Nat}
    (h : base64EncodeLen bs.length ≤ outputSize) :
    b64Encode bs outputSize = (.success, rfcBase64 bs, base64EncodeLen bs.length) ∧
      (rfcBase64 bs).length = base64EncodeLen bs.length ∧
      ∀ behind, ∃ read, b64DecodeFrom (rfcBase64 bs ++ 0 :: behind) (rfcBase64 bs).length
        (base64DecodeMinLen (rfcBase64 bs).length) = .ok ⟨.success, bs, bs.length, read⟩ := by
  exact ⟨b64Encode_eq hlen h, length_rfcBase64 bs, b64DecodeFrom_text bs⟩

/-- Four bytes, the last of them with its high bit set. -/
theorem base64_round_trip_four :
    b64Encode [0x66, 0x6f, 0x6f, 0xff] 8 = (.success, rfcBase64 [0x66, 0x6f, 0x6f, 0xff], 8) :=
  (base64_round_trip (by decide : ([0x66, 0x6f, 0x6f, 0xff] : List UInt8).length < 2 ^ 30)
    (by decide : base64EncodeLen 4 ≤ 8)).1

end Vertices
