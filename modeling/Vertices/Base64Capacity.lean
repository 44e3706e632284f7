/-
# `Vertices.Base64Capacity` — the room `b64_decode` is given

`b64_decode` compares `*output_size` with three bytes for each four characters, less one: what
a text with one sign at its end decodes to.  For less than four characters this is `SIZE_MAX`.
Where the text really ends the scan finds out afterwards, and it does not look at
`input_length`.

    `B64Contract`   the call stays within both arrays, and refuses what does not fit
    `B64Sound`      the lengths for which it does
-/
import Vertices.Base64Text

namespace Vertices

/-! ## The contract -/

/-- Digits, with nothing behind them or the signs that fill up the last group of four. -/
def IsBase64 (input : List UInt8) : Prop :=
  ∃ digits pads, input = digits ++ List.replicate pads b64Pad ∧ (∀ c ∈ digits, c ∈ base64Table) ∧
    (pads = 0 ∨ pads ≤ 2 ∧ (digits.length + pads) % 4 = 0)

/-- The number of bytes that so many digits stand for; a digit left over is no byte. -/
def b64DecodedLen (digits : Nat) : Nat := digits / 4 * 3 + (digits % 4 - 1)

/-- What `*output_size` is compared with, a `size_t`. -/
def b64Required (inputLength : Nat) : Nat := (inputLength / 4 * 3 + (2 ^ 64 - 1)) % 2 ^ 64

/-- The call looks at characters of the input only and writes within the room, and base64 text
is decoded if there is room for it and refused otherwise. -/
def B64Contract (input behind : List UInt8) (outputSize : Nat) : Prop :=
  ∃ r, b64DecodeFrom (input ++ behind) input.length outputSize = .ok r ∧
    r.read ≤ input.length ∧ r.out.length ≤ outputSize ∧
    (IsBase64 input →
      (r.code = .success ↔ b64DecodedLen (b64Leading input).length ≤ outputSize) ∧
      (outputSize < b64DecodedLen (b64Leading input).length → r.code = .errorNoMem ∧ r.out = []))

/-- There is no input; or the room is less than what is asked for, and less than the text
takes; or it is enough for both, and the end of the digits is within the input. -/
def B64Sound (input : List UInt8) (outputSize : Nat) : Prop :=
  input = [] ∨
    (outputSize < b64Required input.length ∧
      (IsBase64 input → outputSize < b64DecodedLen (b64Leading input).length)) ∨
    (b64Required input.length ≤ outputSize ∧ (b64Leading input).length < input.length ∧
      b64DecodedLen (b64Leading input).length ≤ outputSize)

/-! ## The three cases -/

section

variable {input behind : List UInt8} {outputSize : Nat}

theorem b64DecodeFrom_nil : b64DecodeFrom ([] ++ behind) 0 outputSize = .ok ⟨.success, [], 0, 0⟩ :=
  if_pos rfl

theorem b64DecodeFrom_refused (hinput : input ≠ []) (h : outputSize < b64Required input.length) :
    b64DecodeFrom (input ++ behind) input.length outputSize = .ok ⟨.errorNoMem, [], outputSize, 0⟩ := by
  rw [b64DecodeFrom, if_neg (mt List.length_eq_zero_iff.mp hinput)]
  exact if_pos h

/-- With enough room for the check the input is decoded, as far as its digits go. -/
theorem b64DecodeFrom_decoded (hinput : input ≠ []) (h : b64Required input.length ≤ outputSize) :
    b64DecodeFrom (input ++ behind) input.length outputSize =
      (b64Scan (input ++ behind)).map fun n =>
        ⟨.success, b64Bytes (((input ++ behind).take n).map pr2six),
          (b64Bytes (((input ++ behind).take n).map pr2six)).length, n + 1⟩ := by
  rw [b64DecodeFrom, if_neg (mt List.length_eq_zero_iff.mp hinput)]
  refine (if_neg (Nat.not_lt.mpr h)).trans ?_
  cases b64Scan (input ++ behind) <;> rfl

theorem b64Leading_append (chars : List UInt8) :
    ∃ rest, chars = b64Leading chars ++ rest ∧ ∀ ch ∈ rest.head?, ¬ pr2six ch ≤ 63 := by
  refine ⟨chars.dropWhile fun c => pr2six c ≤ 63, List.takeWhile_append_dropWhile.symm, ?_⟩
  intro ch hch
  have hhead := List.head?_dropWhile_not (fun c => decide (pr2six c ≤ 63)) chars
  rw [Option.mem_def.mp hch] at hhead
  exact of_decide_eq_false hhead

/-- An end within the input is found. -/
theorem b64DecodeFrom_within (h : b64Required input.length ≤ outputSize)
    (hend : (b64Leading input).length < input.length) (behind : List UInt8) :
    ∃ r, b64DecodeFrom (input ++ behind) input.length outputSize = .ok r ∧ r.code = .success ∧
      r.read = (b64Leading input).length + 1 ∧
      r.out.length = b64DecodedLen (b64Leading input).length := by
  have hinput : input ≠ [] := by
    rintro rfl
    exact absurd hend (Nat.not_lt_zero _)
  obtain ⟨rest, hsplit, hhead⟩ := b64Leading_append input
  cases rest with
  | nil =>
      rw [List.append_nil] at hsplit
      rw [← hsplit] at hend
      exact absurd hend (Nat.lt_irrefl _)
  | cons ch rest =>
      have hmemory : input ++ behind = b64Leading input ++ ch :: (rest ++ behind) := by
        rw [← List.cons_append, ← List.append_assoc, ← hsplit]
      rw [b64DecodeFrom_decoded hinput h, hmemory,
        b64Scan_stops (fun c => pr2six_le_of_mem_b64Leading) (hhead ch rfl)]
      refine ⟨_, rfl, rfl, rfl, ?_⟩
      dsimp only
      rw [List.take_left, length_b64Bytes, List.length_map]
      rfl

/-- An end that is not within the input is looked for behind it. -/
theorem b64DecodeFrom_behind (hinput : input ≠ []) (h : b64Required input.length ≤ outputSize)
    (hend : (b64Leading input).length = input.length) {r : B64Decoded}
    (hr : b64DecodeFrom (input ++ behind) input.length outputSize = .ok r) : input.length < r.read := by
  have hall : ∀ c ∈ input, pr2six c ≤ 63 := by
    obtain ⟨rest, hsplit, -⟩ := b64Leading_append input
    have hlen := congrArg List.length hsplit
    rw [List.length_append, hend] at hlen
    rw [List.length_eq_zero_iff.mp (by omega : rest.length = 0), List.append_nil] at hsplit
    rw [hsplit]
    exact fun c => pr2six_le_of_mem_b64Leading
  rw [b64DecodeFrom_decoded hinput h, b64Scan_append hall] at hr
  obtain ⟨n, hn, rfl⟩ := map_eq_ok hr
  obtain ⟨m, -, rfl⟩ := map_eq_ok hn
  exact Nat.lt_succ_of_le (Nat.le_add_right _ m)

end

/-- **When the contract holds.** -/
theorem b64_contract_iff (input behind : List UInt8) (outputSize : Nat) :
    B64Contract input behind outputSize ↔ B64Sound input outputSize := by
  by_cases hinput : input = []
  · subst hinput
    refine iff_of_true ⟨_, b64DecodeFrom_nil, Nat.zero_le _, Nat.zero_le _, fun _ => ⟨?_, ?_⟩⟩ (.inl rfl)
    · exact iff_of_true rfl (Nat.zero_le _)
    · exact fun h => absurd h (Nat.not_lt_zero _)
  rw [B64Sound, or_iff_right hinput]
  by_cases hrequired : outputSize < b64Required input.length
  · -- the input is refused
    have hrun : b64DecodeFrom (input ++ behind) input.length outputSize =
        .ok ⟨.errorNoMem, [], outputSize, 0⟩ := b64DecodeFrom_refused hinput hrequired
    constructor
    · rintro ⟨r, hr, -, -, hcode⟩
      rw [hrun] at hr
      cases hr
      refine .inl ⟨hrequired, fun htext => Nat.lt_of_not_le fun hfits => ?_⟩
      cases (hcode htext).1.mpr hfits
    · rintro (⟨-, hlong⟩ | ⟨hle, -⟩)
      · refine ⟨_, hrun, Nat.zero_le _, Nat.zero_le _, fun htext => ⟨?_, fun _ => ⟨rfl, rfl⟩⟩⟩
        exact iff_of_false RetCode.noConfusion (Nat.not_le.mpr (hlong htext))
      · exact absurd hrequired (Nat.not_lt.mpr hle)
  · have hle : b64Required input.length ≤ outputSize := Nat.le_of_not_lt hrequired
    constructor
    · rintro ⟨r, hr, hread, hout, hcode⟩
      have hprefix : (b64Leading input).length ≤ input.length := (List.takeWhile_prefix _).length_le
      rcases Nat.lt_or_eq_of_le hprefix with hend | hend
      · obtain ⟨r', hr', -, -, hlength⟩ := b64DecodeFrom_within hle hend behind
        rw [hr] at hr'
        cases hr'
        exact .inr ⟨hle, hend, hlength ▸ hout⟩
      · exact absurd hread (Nat.not_le.mpr (b64DecodeFrom_behind hinput hle hend hr))
    · rintro (⟨hlt, -⟩ | ⟨-, hend, hfits⟩)
      · exact absurd hlt hrequired
      · obtain ⟨r, hr, hcode, hread, hlength⟩ := b64DecodeFrom_within hle hend behind
        refine ⟨r, hr, by omega, hlength ▸ hfits, fun _ => ⟨iff_of_true hcode hfits, ?_⟩⟩
        exact fun hlong => absurd hfits (Nat.not_le.mpr hlong)

/-! ## Base64 text -/

/-- The digits are the letters, the numerals, `+` and `/`. -/
theorem mem_base64Table_iff (c : UInt8) :
    c ∈ base64Table ↔ 65 ≤ c.toNat ∧ c.toNat ≤ 90 ∨ 97 ≤ c.toNat ∧ c.toNat ≤ 122 ∨
      48 ≤ c.toNat ∧ c.toNat ≤ 57 ∨ c.toNat = 43 ∨ c.toNat = 47 := by
  have hcodes : base64Table.map UInt8.toNat =
      List.range' 65 26 ++ List.range' 97 26 ++ List.range' 48 10 ++ [43, 47] := by decide +kernel
  have hmem : c.toNat ∈ base64Table.map UInt8.toNat ↔ c ∈ base64Table := by
    simp [UInt8.toNat_inj]
  rw [← hmem, hcodes]
  simp only [List.mem_append, List.mem_range'_1, List.mem_cons, List.not_mem_nil, or_false]
  omega

theorem pr2six_le_iff (c : UInt8) : pr2six c ≤ 63 ↔ c ∈ base64Table := by
  have hall : ∀ n < 256, pr2six (UInt8.ofNat n) ≤ 63 ↔ 65 ≤ n ∧ n ≤ 90 ∨ 97 ≤ n ∧ n ≤ 122 ∨
      48 ≤ n ∧ n ≤ 57 ∨ n = 43 ∨ n = 47 := by decide +kernel
  have h := hall c.toNat c.toNat_lt
  rw [UInt8.ofNat_toNat] at h
  rw [h, mem_base64Table_iff]

/-- The digits of a text are those in front. -/
theorem b64Leading_text {digits : List UInt8} (hdigits : ∀ c ∈ digits, c ∈ base64Table) (pads : Nat) :
    b64Leading (digits ++ List.replicate pads b64Pad) = digits := by
  have hall : ∀ c ∈ digits, decide (pr2six c ≤ 63) = true := fun c hc =>
    decide_eq_true ((pr2six_le_iff c).mpr (hdigits c hc))
  have hpad : ¬ pr2six b64Pad ≤ 63 := by decide +kernel
  rw [b64Leading, List.takeWhile_append_of_pos hall]
  cases pads with
  | zero => rw [List.replicate_zero, List.takeWhile_nil, List.append_nil]
  | succ pads =>
      rw [List.replicate_succ, List.takeWhile_cons_of_neg (by simpa using hpad), List.append_nil]

/-- A text with one sign at its end has the contract, one with two unless the room is just what
it takes.  One without a sign is read to behind its end, where it is not refused, and less
than four characters are refused without need. -/
theorem b64_text_sound_iff {digits : List UInt8} (hdigits : ∀ c ∈ digits, c ∈ base64Table)
    (hlen : digits.length + 2 < 2 ^ 64) (outputSize : Nat) :
    (digits.length % 4 = 3 → B64Sound (digits ++ List.replicate 1 b64Pad) outputSize) ∧
      (digits.length % 4 = 2 → (B64Sound (digits ++ List.replicate 2 b64Pad) outputSize ↔
        outputSize ≠ b64DecodedLen digits.length)) ∧
      (digits ≠ [] → (B64Sound digits outputSize ↔ outputSize < b64Required digits.length ∧
        outputSize < b64DecodedLen digits.length)) := by
  have htext : ∀ pads, pads ≤ 2 → (digits.length + pads) % 4 = 0 →
      IsBase64 (digits ++ List.replicate pads b64Pad) := fun pads hpads hmod =>
    ⟨digits, pads, rfl, hdigits, .inr ⟨hpads, hmod⟩⟩
  have hne : ∀ {pads}, 0 < pads → digits ++ List.replicate pads b64Pad ≠ [] := by
    intro pads hpads h
    have hlength := congrArg List.length h
    rw [List.length_append, List.length_replicate, List.length_nil] at hlength
    omega
  refine ⟨fun hmod => ?_, fun hmod => ?_, fun hdigits' => ?_⟩
  · rw [B64Sound, b64Leading_text hdigits, List.length_append, List.length_replicate, b64Required,
      b64DecodedLen]
    omega
  · rw [B64Sound, or_iff_right (hne (by decide)), b64Leading_text hdigits, List.length_append,
      List.length_replicate, imp_iff_right (htext 2 le_rfl (by omega)), b64Required, b64DecodedLen]
    omega
  · have hplain : IsBase64 digits := ⟨digits, 0, (List.append_nil _).symm, hdigits, .inl rfl⟩
    have hleading : b64Leading digits = digits := by
      have h := b64Leading_text hdigits 0
      rwa [List.replicate_zero, List.append_nil] at h
    rw [B64Sound, or_iff_right hdigits', hleading, imp_iff_right hplain, or_iff_left]
    exact fun h => absurd h.2.1 (Nat.lt_irrefl _)

/-- `Zg==` is one byte, and refused where there is room for one.  Of `Zm9v` the character
behind is read, and 23 characters are written into 16 bytes. -/
theorem b64_contract_broken :
    ¬ B64Contract (lit "Zg==") [0] 1 ∧ ¬ B64Contract (lit "Zm9v") [0] 3 ∧
      ¬ B64Contract (List.replicate 23 0x41) [0] 16 := by
  have hone : b64DecodeFrom (lit "Zg==" ++ [0]) (lit "Zg==").length 1 =
      .ok ⟨.errorNoMem, [], 1, 0⟩ := by decide +kernel
  have hthree : b64DecodeFrom (lit "Zm9v" ++ [0]) (lit "Zm9v").length 3 =
      .ok ⟨.success, lit "foo", 3, 5⟩ := by decide +kernel
  have hlong : b64DecodeFrom (List.replicate 23 0x41 ++ [0])
      (List.replicate 23 (0x41 : UInt8)).length 16 =
        .ok ⟨.success, List.replicate 17 0, 17, 24⟩ := by decide +kernel
  refine ⟨?_, ?_, ?_⟩
  · rintro ⟨r, hr, -, -, hcode⟩
    rw [hone] at hr
    cases hr
    have htext : IsBase64 (lit "Zg==") :=
      ⟨lit "Zg", 2, by decide +kernel, by decide +kernel, .inr (by decide +kernel)⟩
    cases (hcode htext).1.mpr (by decide +kernel)
  · rintro ⟨r, hr, hread, -⟩
    rw [hthree] at hr
    cases hr
    exact absurd hread (by decide)
  · rintro ⟨r, hr, -, hout, -⟩
    rw [hlong] at hr
    cases hr
    exact absurd hout (by decide)

end Vertices
