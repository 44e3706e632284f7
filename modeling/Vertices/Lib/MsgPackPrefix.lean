/-
# `Vertices.Lib.MsgPackPrefix` — a value is decoded without looking behind it

Bytes behind an encoding change nothing but what is left (`decode_append`), so no encoding
is the beginning of another one (`decode_take`).
-/
import Vertices.Lib.MsgPack

namespace MsgPack

variable {bs r more : List UInt8} {t : Tag}

theorem field_append {k : Nat} {mk : Nat → Tag} (h : field k mk bs = some (t, r))
    (more : List UInt8) : field k mk (bs ++ more) = some (t, r ++ more) := by
  unfold field at h ⊢
  split at h
  · next hk =>
      obtain ⟨rfl, rfl⟩ := Prod.mk.inj (Option.some.inj h)
      rw [if_pos (by rw [List.length_append]; omega), List.take_append_of_le_length hk,
        List.drop_append_of_le_length hk]
  · exact nomatch h

theorem extField_append {k : Nat} (h : extField k bs = some (t, r)) (more : List UInt8) :
    extField k (bs ++ more) = some (t, r ++ more) := by
  unfold extField at h ⊢
  split at h
  · next hk =>
      obtain ⟨rfl, rfl⟩ := Prod.mk.inj (Option.some.inj h)
      have hlen : 1 ≤ (bs.drop k).length := by rw [List.length_drop]; omega
      rw [if_pos (by rw [List.length_append]; omega), List.drop_append_of_le_length hk,
        List.drop_append_of_le_length (by omega), List.take_append_of_le_length hlen,
        List.take_append_of_le_length (by omega : k ≤ bs.length)]
  · exact nomatch h

/-- A head of one byte. -/
theorem some_append {t t' : Tag} (h : some (t', bs) = some (t, r)) (more : List UInt8) :
    some (t', bs ++ more) = some (t, r ++ more) := by
  obtain ⟨rfl, rfl⟩ := Prod.mk.inj (Option.some.inj h)
  rfl

theorem decodeWide_append {n : Nat} (h : decodeWide n bs = some (t, r)) (more : List UInt8) :
    decodeWide n (bs ++ more) = some (t, r ++ more) := by
  unfold decodeWide at h ⊢
  split at h
  all_goals first
    | exact field_append h more
    | exact extField_append h more
    | exact some_append h more
    | exact nomatch h

theorem decodeTag_append (h : decodeTag bs = some (t, r)) (more : List UInt8) :
    decodeTag (bs ++ more) = some (t, r ++ more) := by
  cases bs with
  | nil => exact nomatch h
  | cons b bs =>
      simp only [List.cons_append, decodeTag] at h ⊢
      split at h
      · next hb => rw [if_pos hb]; exact some_append h more
      next hb₁ =>
      rw [if_neg hb₁]
      split at h
      · next hb => rw [if_pos hb]; exact some_append h more
      next hb₂ =>
      rw [if_neg hb₂]
      split at h
      · next hb => rw [if_pos hb]; exact some_append h more
      next hb₃ =>
      rw [if_neg hb₃]
      split at h
      · next hb => rw [if_pos hb]; exact some_append h more
      next hb₄ =>
      rw [if_neg hb₄]
      split at h
      · next hb => rw [if_pos hb]; exact decodeWide_append h more
      · next hb => rw [if_neg hb]; exact some_append h more

theorem payload_append {n : Nat} {mk : List UInt8 → Value} {v : Value}
    (h : payload n mk bs = some (v, r)) (more : List UInt8) :
    payload n mk (bs ++ more) = some (v, r ++ more) := by
  unfold payload at h ⊢
  split at h
  · next hn =>
      obtain ⟨rfl, rfl⟩ := Prod.mk.inj (Option.some.inj h)
      rw [if_pos (by rw [List.length_append]; omega), List.take_append_of_le_length hn,
        List.drop_append_of_le_length hn]
  · exact nomatch h

theorem scalar_append {v : Value} (h : scalar t bs = some (v, r)) (more : List UInt8) :
    scalar t (bs ++ more) = some (v, r ++ more) := by
  cases t with
  | str n | bin n | ext _ n => exact payload_append h more
  | array _ | map _ => exact nomatch h
  | nil | bool _ | int _ | uint _ | float _ | double _ =>
      obtain ⟨rfl, rfl⟩ := Prod.mk.inj (Option.some.inj h)
      rfl

theorem Reads.append_right {vs : List Value} (h : Reads bs vs r) (more : List UInt8) :
    Reads (bs ++ more) vs (r ++ more) := by
  induction h with
  | nil bs => exact .nil _
  | scalar ht hv _ ih => exact .scalar (decodeTag_append ht more) (scalar_append hv more) ih
  | array ht _ _ ihu ih => exact .array (decodeTag_append ht more) ihu ih
  | map ht _ _ ihu ih => exact .map (decodeTag_append ht more) ihu ih

/-- Bytes behind a value are left. -/
theorem decode_append {v : Value} (h : decode bs = some (v, r)) (more : List UInt8) :
    decode (bs ++ more) = some (v, r ++ more) :=
  decode_eq_some_iff.mpr ((decode_eq_some_iff.mp h).append_right more)

/-- **No encoding is the beginning of another one**: what is cut off decodes to nothing. -/
theorem decode_take {v : Value} (h : decode bs = some (v, [])) {n : Nat} (hn : n < bs.length) :
    decode (bs.take n) = none := by
  cases hd : decode (bs.take n) with
  | none => rfl
  | some p =>
      obtain ⟨w, r⟩ := p
      have hwhole := decode_append hd (bs.drop n)
      rw [List.take_append_drop, h] at hwhole
      have hrest := (Prod.mk.inj (Option.some.inj hwhole)).2
      have hdrop := congrArg List.length (List.append_eq_nil_iff.mp hrest.symm).2
      rw [List.length_drop, List.length_nil] at hdrop
      omega

end MsgPack
