/-
# `Vertices.WalletLookup` — an account is found under its name

`s_account_new` writes the characters of a name over those of the entry it takes, and no
terminator: the one that was there has to do.  The lookups read up to the first `\0`, out of
a name that fills its field into the key of the entry behind.

    findByName_eq_some_iff    what the loop of the lookups stops at
    readAt_congr              what a lookup reads at the entries in front of another
    wallet_lookup_iff         when what was stored is found, and all else as before
    foundAgain_of_run         in a wallet that was not loaded: if the names are shorter than
                              the field
-/
import Vertices.FailedCreation

namespace Vertices

open Transition

/-! ## The first of its kind -/

/-- The first index with the property. -/
def IsFirst {n : Nat} (p : Fin n → Prop) (i : Fin n) : Prop := p i ∧ ∀ j < i, ¬ p j

theorem exists_isFirst {n : Nat} {p : Fin n → Prop} (i : Fin n) (hi : p i) :
    ∃ j ≤ i, IsFirst p j := by
  by_cases h : ∃ k < i, p k
  · obtain ⟨k, hk, hpk⟩ := h
    obtain ⟨j, hj, hfirst⟩ := exists_isFirst k hpk
    exact ⟨j, Nat.le_trans hj (Nat.le_of_lt hk), hfirst⟩
  · exact ⟨i, Nat.le_refl _, hi, fun k hk hpk => h ⟨k, hk, hpk⟩⟩
termination_by i.val

theorem IsFirst.unique {n : Nat} {p : Fin n → Prop} {i j : Fin n} (hi : IsFirst p i)
    (hj : IsFirst p j) : i = j := by
  rcases Nat.lt_trichotomy i.val j.val with hlt | heq | hlt
  · exact absurd hi.1 (hj.2 i hlt)
  · exact Fin.ext heq
  · exact absurd hj.1 (hi.2 j hlt)

section

variable {n : Nat} {α : Type} {r r' : Fin n → Option α} {i : Fin n}

/-- In front of `i` every value is as it was, or has had and has an earlier occurrence. -/
def OccursAlike (r r' : Fin n → Option α) (i : Fin n) : Prop :=
  ∀ k < i, r' k = r k ∨ (∃ m < k, r m = r k) ∧ ∃ m < k, r' m = r' k

theorem OccursAlike.symm (h : OccursAlike r r' i) : OccursAlike r' r i := by
  intro k hk
  rcases h k hk with hsame | ⟨hbefore, hafter⟩
  · exact .inl hsame.symm
  · exact .inr ⟨hafter, hbefore⟩

/-- Then the first occurrences are the same. -/
theorem OccursAlike.isFirst (h : OccursAlike r r' i) {k : Fin n} (hk : k < i) {a : α}
    (hfirst : IsFirst (fun j => r j = some a) k) : IsFirst (fun j => r' j = some a) k := by
  obtain ⟨hka, hbefore⟩ := hfirst
  have hka' : r' k = some a := by
    rcases h k hk with hsame | ⟨⟨m, hm, hmk⟩, -⟩
    · exact hsame.trans hka
    · exact absurd (hmk.trans hka) (hbefore m hm)
  refine ⟨hka', fun j hj hja => ?_⟩
  -- the first new occurrence is no old one, so it has an earlier one
  obtain ⟨m, hmj, hma, hfirst⟩ := exists_isFirst (p := fun j => r' j = some a) j hja
  have hmk : m < k := Nat.lt_of_le_of_lt hmj hj
  rcases h m (Nat.lt_trans hmk hk) with hsame | ⟨-, l, hl, hlm⟩
  · exact hbefore m hmk (hsame.symm.trans hma)
  · exact hfirst l hl (hlm.trans hma)

end

/-! ## The loop -/

section Loop

variable {pointers : RecordPointers} {wallet wallet' : SAccounts} {name : CStr}

/-- The test of one entry. -/
def hasNameAt (pointers : RecordPointers) (wallet : SAccounts) (name : CStr)
    (i : Fin secretAccountsMaximumCount) : Except Fault Bool := do
  let same ← strcmpEq (nameMemory pointers wallet i) name
  return same && (wallet.get i).status == .added

theorem findByName_cons (pointers : RecordPointers) (wallet : SAccounts) (name : CStr)
    (i : Fin secretAccountsMaximumCount) (rest : List (Fin secretAccountsMaximumCount)) :
    findByName pointers wallet name (i :: rest) = hasNameAt pointers wallet name i >>= fun found =>
      if found then pure (some i) else findByName pointers wallet name rest := by
  rw [findByName, hasNameAt]
  cases strcmpEq (nameMemory pointers wallet i) name with
  | error f => rfl
  | ok same =>
      cases same with
      | false => rfl
      | true =>
          by_cases hadded : (wallet.get i).status = .added
          · simp [bind, Except.bind, pure, Except.pure, hadded]
          · simp [bind, Except.bind, pure, Except.pure, hadded]

/-- Nothing is found where the test of every entry ends, and fails. -/
theorem findByName_eq_none {is : List (Fin secretAccountsMaximumCount)} :
    findByName pointers wallet name is = .ok none ↔
      ∀ i ∈ is, hasNameAt pointers wallet name i = .ok false := by
  induction is with
  | nil => exact iff_of_true rfl (by simp)
  | cons i rest ih =>
      rw [findByName_cons, List.forall_mem_cons, ← ih]
      cases hasNameAt pointers wallet name i with
      | error f => simp [bind, Except.bind]
      | ok found => cases found <;> simp [bind, Except.bind, pure, Except.pure]

/-- The loop stops at the first entry that has the name. -/
theorem findByName_append {before after : List (Fin secretAccountsMaximumCount)}
    {i : Fin secretAccountsMaximumCount}
    (hbefore : ∀ j ∈ before, hasNameAt pointers wallet name j = .ok false)
    (hi : hasNameAt pointers wallet name i = .ok true) :
    findByName pointers wallet name (before ++ i :: after) = .ok (some i) := by
  induction before with
  | nil =>
      rw [List.nil_append, findByName_cons, hi]
      rfl
  | cons j before ih =>
      rw [List.forall_mem_cons] at hbefore
      rw [List.cons_append, findByName_cons, hbefore.1]
      exact ih hbefore.2

theorem findByName_eq_some {is : List (Fin secretAccountsMaximumCount)}
    {i : Fin secretAccountsMaximumCount} (h : findByName pointers wallet name is = .ok (some i)) :
    ∃ before after, is = before ++ i :: after ∧
      (∀ j ∈ before, hasNameAt pointers wallet name j = .ok false) ∧
      hasNameAt pointers wallet name i = .ok true := by
  induction is with
  | nil => cases h
  | cons j rest ih =>
      rw [findByName_cons] at h
      obtain ⟨found, htest, h⟩ := bind_eq_ok.mp h
      cases found with
      | false =>
          obtain ⟨before, after, rfl, hbefore, hi⟩ := ih h
          exact ⟨j :: before, after, rfl, List.forall_mem_cons.mpr ⟨htest, hbefore⟩, hi⟩
      | true =>
          cases h
          exact ⟨[], rest, rfl, List.forall_mem_nil _, htest⟩

/-- Over all entries: it stops at `i` exactly if that has the name and none in front has. -/
theorem findByName_eq_some_iff {i : Fin secretAccountsMaximumCount} :
    findByName pointers wallet name (List.finRange _) = .ok (some i) ↔
      hasNameAt pointers wallet name i = .ok true ∧
        ∀ j < i, hasNameAt pointers wallet name j = .ok false := by
  have hsorted := List.pairwise_lt_finRange secretAccountsMaximumCount
  constructor
  · intro h
    obtain ⟨before, after, hsplit, hbefore, hi⟩ := findByName_eq_some h
    rw [hsplit, List.pairwise_append, List.pairwise_cons] at hsorted
    refine ⟨hi, fun j hj => ?_⟩
    have hmem : j ∈ before ++ i :: after := hsplit ▸ List.mem_finRange j
    rcases List.mem_append.mp hmem with hbefore' | hrest
    · exact hbefore j hbefore'
    · rcases List.mem_cons.mp hrest with rfl | hafter
      · exact absurd hj (Nat.lt_irrefl _)
      · exact absurd (hsorted.2.1.1 j hafter) (Nat.lt_asymm hj)
  · rintro ⟨hi, hfirst⟩
    obtain ⟨before, after, hsplit⟩ := List.append_of_mem (List.mem_finRange i)
    rw [hsplit, List.pairwise_append] at hsorted
    rw [hsplit]
    refine findByName_append (fun j hj => ?_) hi
    exact hfirst j (hsorted.2.2 j hj i List.mem_cons_self)

/-- The lookups see of a wallet what the tests say. -/
theorem findByName_congr {is : List (Fin secretAccountsMaximumCount)}
    (h : ∀ i ∈ is, hasNameAt pointers wallet name i = hasNameAt pointers wallet' name i) :
    findByName pointers wallet name is = findByName pointers wallet' name is := by
  induction is with
  | nil => rfl
  | cons i rest ih =>
      rw [List.forall_mem_cons] at h
      rw [findByName_cons, findByName_cons, h.1, ih h.2]

theorem sAccountExists_eq_false :
    sAccountExists pointers wallet name = .ok false ↔
      ∀ i, hasNameAt pointers wallet name i = .ok false := by
  have hnone : sAccountExists pointers wallet name = .ok false ↔
      findByName pointers wallet name (List.finRange _) = .ok none := by
    rw [sAccountExists]
    cases findByName pointers wallet name (List.finRange _) with
    | error f => simp [bind, Except.bind]
    | ok found => cases found <;> simp [bind, Except.bind, pure, Except.pure]
  rw [hnone, findByName_eq_none]
  exact ⟨fun h i => h i (List.mem_finRange i), fun h i _ => h i⟩

/-- Where the loop stops is all the lookups are about. -/
theorem lookups_of_stop {i : Fin secretAccountsMaximumCount}
    (h : findByName pointers wallet name (List.finRange _) = .ok (some i)) :
    sAccountExists pointers wallet name = .ok true ∧
      sAccountGetByName pointers wallet name = .ok (.success, some (wallet.get i)) := by
  constructor
  · rw [sAccountExists, h]
    rfl
  · rw [sAccountGetByName, h]
    rfl

theorem lookups_of_same_stop
    (h : findByName pointers wallet' name (List.finRange _) =
      findByName pointers wallet name (List.finRange _))
    (hget : ∀ i, findByName pointers wallet name (List.finRange _) = .ok (some i) →
      wallet'.get i = wallet.get i) :
    sAccountExists pointers wallet' name = sAccountExists pointers wallet name ∧
      sAccountGetByName pointers wallet' name = sAccountGetByName pointers wallet name := by
  refine ⟨by rw [sAccountExists, sAccountExists, h], ?_⟩
  rw [sAccountGetByName, sAccountGetByName, h]
  cases hfound : findByName pointers wallet name (List.finRange _) with
  | error f => rfl
  | ok found =>
      cases found with
      | none => rfl
      | some i => exact congrArg (fun a => Except.ok (RetCode.success, some a)) (hget i hfound)

end Loop

/-! ## What the lookups read -/

/-- The string that begins with the name of an entry. -/
def readAt (pointers : RecordPointers) (wallet : SAccounts) (i : Fin secretAccountsMaximumCount) : CStr :=
  cString (nameMemory pointers wallet i)

theorem strcmpEq_of_mem {s : List UInt8} (h : (0 : UInt8) ∈ s) (name : CStr) :
    strcmpEq s name = .ok (decide (cString s = name)) := by
  rw [strcmpEq, if_pos h]
  rfl

theorem cString_append_of_mem {s : List UInt8} (h : (0 : UInt8) ∈ s) (rest : List UInt8) :
    cString (s ++ rest) = cString s := by
  obtain ⟨before, after, rfl, hbefore⟩ := List.eq_append_cons_of_mem h
  refine CStr.ext ?_
  rw [List.append_assoc, List.cons_append, bytes_cString_append hbefore, bytes_cString_append hbefore]

theorem hasNameAt_of_mem {pointers : RecordPointers} {wallet : SAccounts}
    {i : Fin secretAccountsMaximumCount} (h : (0 : UInt8) ∈ nameMemory pointers wallet i) (name : CStr) :
    hasNameAt pointers wallet name i =
      .ok (decide (readAt pointers wallet i = name) && (wallet.get i).status == .added) := by
  rw [hasNameAt, strcmpEq_of_mem h]
  rfl

/-- The test succeeds exactly where an added entry has the name, terminated. -/
theorem hasNameAt_eq_true {pointers : RecordPointers} {wallet : SAccounts}
    {i : Fin secretAccountsMaximumCount} {name : CStr} :
    hasNameAt pointers wallet name i = .ok true ↔ (wallet.get i).status = .added ∧
      (0 : UInt8) ∈ nameMemory pointers wallet i ∧ readAt pointers wallet i = name := by
  by_cases hmem : (0 : UInt8) ∈ nameMemory pointers wallet i
  · simp [hasNameAt_of_mem hmem, hmem, and_comm]
  · rw [hasNameAt, strcmpEq, if_neg hmem]
    refine iff_of_false ?_ fun h => hmem h.2.1
    split <;> simp [bind, Except.bind, pure, Except.pure]

/-! ## Behind the field -/

section Memory

variable {pointers : RecordPointers} {wallet wallet' : SAccounts} {i k : Fin secretAccountsMaximumCount}

/-- An entry up to its name. -/
def entryHead (pointer : Vector UInt8 8) (a : SAccount) : List UInt8 :=
  a.privateKey.toList ++ (pointer.toList ++ ByteOrder.leBytes 4 a.status.toUInt32.toNat)

theorem encode_stored (pointer : Vector UInt8 8) (a : SAccount) :
    sAccountLayout.encode a.stored pointer = entryHead pointer a ++ a.name.toList := by
  rw [entryHead, List.append_assoc, List.append_assoc]
  rfl

/-- The status of an entry that is free or in use has a zero byte. -/
theorem zero_mem_entryHead (pointer : Vector UInt8 8) {a : SAccount}
    (h : a.status = .none ∨ a.status = .added) : (0 : UInt8) ∈ entryHead pointer a := by
  refine List.mem_append_right _ (List.mem_append_right _ ?_)
  rcases h with h | h
  · rw [h]
    decide
  · rw [h]
    decide

/-- The entries behind `k`, up to `i`. -/
theorem filter_behind : ∀ k i : Fin secretAccountsMaximumCount, k < i →
    (List.finRange secretAccountsMaximumCount).filter (k < ·) =
      (List.finRange secretAccountsMaximumCount).filter (fun j => k < j ∧ j < i) ++
        i :: (List.finRange secretAccountsMaximumCount).filter (i < ·) := by
  decide

/-- Between the names of two entries: the entries between, and the second up to its name. -/
def between (pointers : RecordPointers) (wallet : SAccounts) (k i : Fin secretAccountsMaximumCount) :
    List UInt8 :=
  ((List.finRange _).filter fun j => k < j ∧ j < i).flatMap (fun j =>
    sAccountLayout.encode (wallet.get j).stored (pointers.get j)) ++
    entryHead (pointers.get i) (wallet.get i)

theorem entriesBehind_of_lt (hk : k < i) :
    entriesBehind pointers wallet k = between pointers wallet k i ++ nameMemory pointers wallet i := by
  rw [entriesBehind, filter_behind k i hk, List.flatMap_append, List.flatMap_cons, encode_stored,
    between, nameMemory, entriesBehind]
  simp only [List.append_assoc]

theorem entriesBehind_congr (h : ∀ j, i < j → wallet.get j = wallet'.get j) :
    entriesBehind pointers wallet i = entriesBehind pointers wallet' i := by
  refine List.flatMap_congr fun j hj => ?_
  rw [h j (of_decide_eq_true (List.mem_filter.mp hj).2)]

/-- The lookups read an entry no further than the status of one behind it that is free or in
use. -/
theorem nameMemory_of_lt (hk : k < i)
    (hi : (wallet.get i).status = .none ∨ (wallet.get i).status = .added) :
    (0 : UInt8) ∈ nameMemory pointers wallet k ∧ readAt pointers wallet k =
      cString ((wallet.get k).name.toList ++ between pointers wallet k i) := by
  have hmem : (0 : UInt8) ∈ (wallet.get k).name.toList ++ between pointers wallet k i :=
    List.mem_append_right _ (List.mem_append_right _ (zero_mem_entryHead _ hi))
  rw [readAt, nameMemory, entriesBehind_of_lt hk, ← List.append_assoc]
  exact ⟨List.mem_append_left _ hmem, cString_append_of_mem hmem _⟩

/-- What they read there depends on the entries up to this status. -/
theorem readAt_congr (hk : k < i) (hfront : ∀ j < i, wallet.get j = wallet'.get j)
    (hkey : (wallet.get i).privateKey = (wallet'.get i).privateKey)
    (hstatus : (wallet.get i).status = (wallet'.get i).status)
    (hi : (wallet.get i).status = .none ∨ (wallet.get i).status = .added) :
    readAt pointers wallet k = readAt pointers wallet' k := by
  rw [(nameMemory_of_lt hk hi).2, (nameMemory_of_lt hk (hstatus ▸ hi)).2, hfront k hk]
  have hbetween : between pointers wallet k i = between pointers wallet' k i := by
    rw [between, between, entryHead, entryHead, hkey, hstatus]
    congr 1
    refine List.flatMap_congr fun j hj => ?_
    rw [hfront j (of_decide_eq_true (List.mem_filter.mp hj).2).2]
  rw [hbetween]

theorem getElem?_zero_append_key (key : Vector UInt8 addressLength) (rest : List UInt8) :
    (key.toList ++ rest)[0]? = some (key.get 0) := by
  have hlen : 0 < key.toList.length := by rw [key.length_toList]; decide
  rw [List.getElem?_append_left hlen, List.getElem?_eq_getElem hlen, Vector.getElem_toList]
  rfl

/-- A field that is full is followed by the key of the next entry. -/
theorem entriesBehind_zero_iff : (entriesBehind pointers wallet i)[0]? = some 0 ↔
    ∃ j : Fin secretAccountsMaximumCount, j.val = i.val + 1 ∧ (wallet.get j).privateKey.get 0 = 0 := by
  by_cases hlast : i.val + 1 < secretAccountsMaximumCount
  · let j : Fin secretAccountsMaximumCount := ⟨i.val + 1, hlast⟩
    have hnext : i < j := Nat.lt_succ_self i.val
    have hnone : (List.finRange secretAccountsMaximumCount).filter (fun l => i < l ∧ l < j) = [] := by
      refine List.filter_eq_nil_iff.mpr fun l _ hl => ?_
      obtain ⟨hil, hlj⟩ := of_decide_eq_true hl
      exact absurd (Nat.le_of_lt_succ hlj) (Nat.not_le.mpr hil)
    have hfirst : (entriesBehind pointers wallet i)[0]? = some ((wallet.get j).privateKey.get 0) := by
      rw [entriesBehind_of_lt hnext, between, hnone, List.flatMap_nil, List.nil_append, entryHead,
        List.append_assoc, getElem?_zero_append_key]
    rw [hfirst, Option.some_inj]
    constructor
    · intro h
      exact ⟨j, rfl, h⟩
    · rintro ⟨l, hl, h⟩
      rwa [show l = j from Fin.ext hl] at h
  · have hnone : (List.finRange secretAccountsMaximumCount).filter (i < ·) = [] := by
      refine List.filter_eq_nil_iff.mpr fun l _ hl => ?_
      have hil : i.val < l.val := of_decide_eq_true hl
      omega
    rw [entriesBehind, hnone, List.flatMap_nil]
    refine iff_of_false (by simp) ?_
    rintro ⟨j, hj, -⟩
    exact hlast (hj ▸ j.isLt)

end Memory

/-! ## The name field -/

/-- Characters written over a field are read back exactly if the field had its end behind
them. -/
theorem cString_append_eq_iff {name : CStr} {rest : List UInt8} :
    (0 : UInt8) ∈ name.bytes ++ rest ∧ cString (name.bytes ++ rest) = name ↔ rest[0]? = some 0 := by
  cases rest with
  | nil => exact iff_of_false (fun h => name.noNul (List.append_nil name.bytes ▸ h.1)) (by simp)
  | cons c rest =>
      rw [List.getElem?_cons_zero, Option.some_inj]
      constructor
      · rintro ⟨-, hread⟩
        by_contra hc
        have hbytes : (name.bytes ++ c :: rest).takeWhile (· != 0) = name.bytes :=
          congrArg CStr.bytes hread
        have hall : ∀ b ∈ name.bytes, (b != 0) = true := by
          intro b hb
          rw [bne_iff_ne]
          exact fun h0 => name.noNul (h0 ▸ hb)
        have hkept : (c :: rest).takeWhile (· != 0) = c :: rest.takeWhile (· != 0) :=
          List.takeWhile_cons_of_pos (bne_iff_ne.mpr hc)
        rw [List.takeWhile_append_of_pos hall, hkept] at hbytes
        simp at hbytes
      · rintro rfl
        exact ⟨List.mem_append_right _ List.mem_cons_self, CStr.ext (bytes_cString_append name.noNul rest)⟩

section Field

variable {pointers : RecordPointers} {wallet : SAccounts} {i : Fin secretAccountsMaximumCount}
  {name : CStr}

/-- A field with an end is all that is read. -/
theorem readAt_of_mem (h : (0 : UInt8) ∈ (wallet.get i).name.toList) :
    (0 : UInt8) ∈ nameMemory pointers wallet i ∧
      readAt pointers wallet i = cString (wallet.get i).name.toList :=
  ⟨List.mem_append_left _ h, cString_append_of_mem h _⟩

theorem hasNameAt_of_free (hfree : (wallet.get i).status = .none)
    (hmem : (0 : UInt8) ∈ nameMemory pointers wallet i) (name : CStr) :
    hasNameAt pointers wallet name i = .ok false := by
  rw [hasNameAt_of_mem hmem, hfree]
  exact congrArg Except.ok (Bool.and_false _)

/-- The comparison with a name shorter than the field does not leave it. -/
theorem strcmpEq_of_short (field : Vector UInt8 accountNameLength) (rest : List UInt8)
    (hshort : name.strlen < accountNameLength) : strcmpEq (field.toList ++ rest) name =
      .ok (decide ((0 : UInt8) ∈ field.toList ∧ cString field.toList = name)) := by
  by_cases hmem : (0 : UInt8) ∈ field.toList
  · rw [strcmpEq_of_mem (List.mem_append_left _ hmem), cString_append_of_mem hmem]
    simp [hmem]
  · have hlen : ∀ bs, field.toList <+: bs → bs.length ≠ name.strlen := by
      intro bs hprefix hbs
      have hle := hprefix.length_le
      rw [Vector.length_toList, hbs] at hle
      exact Nat.not_le.mpr hshort hle
    have hread : cString (field.toList ++ rest) ≠ name := by
      intro hread
      refine hlen (cString (field.toList ++ rest)).bytes ?_ (congrArg CStr.strlen hread)
      have hall : ∀ c ∈ field.toList, (c != 0) = true := by
        intro c hc
        rw [bne_iff_ne]
        exact fun h0 => hmem (h0 ▸ hc)
      show field.toList <+: (field.toList ++ rest).takeWhile (· != 0)
      rw [List.takeWhile_append_of_pos hall]
      exact List.prefix_append _ _
    have hnot : ¬ field.toList ++ rest <+: name.bytes := fun hprefix =>
      hlen name.bytes ((List.prefix_append _ _).trans hprefix) rfl
    rw [decide_eq_false fun h => hmem h.1, strcmpEq, if_neg hnot, decide_eq_false hread]
    split <;> rfl

/-- So the pointers do not matter to it. -/
theorem findByName_of_short (hshort : name.strlen < accountNameLength) (pointers' : RecordPointers)
    (is : List (Fin secretAccountsMaximumCount)) :
    findByName pointers wallet name is = findByName pointers' wallet name is := by
  induction is with
  | nil => rfl
  | cons i is ih =>
      rw [findByName_cons, findByName_cons, hasNameAt, hasNameAt, nameMemory, nameMemory,
        strcmpEq_of_short _ _ hshort, strcmpEq_of_short _ _ hshort, ih]

theorem findByName_returns (hshort : name.strlen < accountNameLength)
    (is : List (Fin secretAccountsMaximumCount)) :
    ∃ found, findByName pointers wallet name is = .ok found := by
  induction is with
  | nil => exact ⟨none, rfl⟩
  | cons i is ih =>
      rw [findByName_cons, hasNameAt, nameMemory, strcmpEq_of_short _ _ hshort]
      dsimp only [bind, Except.bind, pure, Except.pure]
      split
      · exact ⟨_, rfl⟩
      · exact ih

/-- A name that was stored is in the entry exactly if there is an end behind it. -/
theorem Stored.hasNameAt_iff {publicB32 : B32Ptr} {privateKey : Vector UInt8 addressLength}
    {old : SAccount} (h : Stored publicB32 privateKey name old (wallet.get i)) :
    hasNameAt pointers wallet name i = .ok true ↔
      (old.name.toList.drop name.strlen ++ entriesBehind pointers wallet i)[0]? = some 0 := by
  rw [hasNameAt_eq_true, readAt, nameMemory, h.name, List.append_assoc, cString_append_eq_iff]
  exact and_iff_right h.status

end Field

/-! ## Found, and nothing else changed -/

/-- The lookups of the name stop at the entry, which holds these keys. -/
structure Finds (pointers : RecordPointers) (wallet : SAccounts) (name : CStr)
    (i : Fin secretAccountsMaximumCount) (publicB32 : B32Ptr) (privateKey : Vector UInt8 addressLength) :
    Prop where
  stops : findByName pointers wallet name (List.finRange _) = .ok (some i)
  present : sAccountExists pointers wallet name = .ok true
  entry : ∃ a info, sAccountGetByName pointers wallet name = .ok (.success, some a) ∧
    a.privateKey = privateKey ∧ a.vtcAccount = some info ∧ info.publicB32 = publicB32.copied ∧
    info.publicKey = (fromB32Init publicB32 info).publicKey

/-- A call of `s_account_new`. -/
def RegistryCall.AddsAccount (call : RegistryCall) : Prop :=
  ∃ publicB32 privateKey name reply stack, call = .sAccountNew publicB32 privateKey name reply stack

/-- After the account was stored, it is found in the entry it took, whatever accounts are
added; and every other name is looked up as before. -/
def StoredFound (R : MpackReader) (S : Sodium) (pointers : RecordPointers) (t t₁ : Registry)
    (publicB32 : B32Ptr) (privateKey : Vector UInt8 addressLength) (name : CStr) : Prop :=
  (∃ i, (t.wallet.get i).status = .none ∧
    ∀ later t₂, Run (RegistryStep R S) t₁ later t₂ → (∀ call ∈ later, call.AddsAccount) →
      Finds pointers t₂.wallet name i publicB32 privateKey) ∧
  ∀ other, other ≠ name →
    findByName pointers t₁.wallet other (List.finRange _) =
      findByName pointers t.wallet other (List.finRange _) ∧
    sAccountExists pointers t₁.wallet other = sAccountExists pointers t.wallet other ∧
    sAccountGetByName pointers t₁.wallet other = sAccountGetByName pointers t.wallet other

/-- The first entry that is free. -/
def FirstFree (wallet : SAccounts) : Fin secretAccountsMaximumCount → Prop :=
  IsFirst fun i => (wallet.get i).status = .none

/-- A name written to the entry ends: the field has a zero behind it, or it fills the field
and the next entry is in use, with a key that begins with a zero. -/
def NameEnds (wallet : SAccounts) (name : CStr) (i : Fin secretAccountsMaximumCount) : Prop :=
  (wallet.get i).name.toList[name.strlen]? = some 0 ∨
    name.strlen = accountNameLength ∧ ∃ j : Fin secretAccountsMaximumCount, j.val = i.val + 1 ∧
      (wallet.get j).status ≠ .none ∧ (wallet.get j).privateKey.get 0 = 0

/-- The name of an entry in use. -/
def addedName (pointers : RecordPointers) (wallet : SAccounts) (k : Fin secretAccountsMaximumCount) :
    Option CStr :=
  if (wallet.get k).status = .added then some (readAt pointers wallet k) else none

/-- The wallet with a key in a free entry. -/
def withKey (wallet : SAccounts) (i : Fin secretAccountsMaximumCount)
    (privateKey : Vector UInt8 addressLength) : SAccounts :=
  wallet.set i.val { wallet.get i with privateKey := privateKey, status := .added } i.isLt

/-- What is stored under the name can be found, and leaves the other names. -/
structure FoundAgain (pointers : RecordPointers) (wallet : SAccounts) (name : CStr)
    (privateKey : Vector UInt8 addressLength) (i : Fin secretAccountsMaximumCount) : Prop where
  first : FirstFree wallet i
  ends : NameEnds wallet name i
  others : OccursAlike (addedName pointers wallet) (addedName pointers (withKey wallet i privateKey)) i

section

variable {R : MpackReader} {S : Sodium} {pointers : RecordPointers} {t t₁ t₂ : Registry}
  {wallet wallet' : SAccounts} {i k : Fin secretAccountsMaximumCount} {publicB32 : B32Ptr}
  {privateKey : Vector UInt8 addressLength} {name : CStr} {reply : HttpReply} {stack : AccountDetails}

/-- In front of an entry that is free or in use, the tests go by the names. -/
theorem hasNameAt_front (hk : k < i)
    (hi : (wallet.get i).status = .none ∨ (wallet.get i).status = .added) (name : CStr) :
    hasNameAt pointers wallet name k = .ok (decide (addedName pointers wallet k = some name)) := by
  rw [hasNameAt_of_mem (nameMemory_of_lt hk hi).1, addedName]
  by_cases hadded : (wallet.get k).status = .added
  · rw [if_pos hadded, hadded]
    simp
  · rw [if_neg hadded]
    simp [hadded]

theorem findByName_front_iff (hk : k < i)
    (hi : (wallet.get i).status = .none ∨ (wallet.get i).status = .added) :
    findByName pointers wallet name (List.finRange _) = .ok (some k) ↔
      IsFirst (fun j => addedName pointers wallet j = some name) k := by
  rw [findByName_eq_some_iff, hasNameAt_front hk hi, Except.ok.injEq, decide_eq_true_eq]
  refine and_congr_right fun _ => forall₂_congr fun j hj => ?_
  rw [hasNameAt_front (Nat.lt_trans hj hk) hi, Except.ok.injEq, decide_eq_false_iff_not]

theorem addedName_congr (hk : k < i) (hfront : ∀ j < i, wallet.get j = wallet'.get j)
    (hkey : (wallet.get i).privateKey = (wallet'.get i).privateKey)
    (hstatus : (wallet.get i).status = (wallet'.get i).status)
    (hi : (wallet.get i).status = .none ∨ (wallet.get i).status = .added) :
    addedName pointers wallet k = addedName pointers wallet' k := by
  rw [addedName, addedName, hfront k hk, readAt_congr hk hfront hkey hstatus hi]

/-- The account is stored in the first free entry, if there is one. -/
theorem RegistryStep.stores
    (hstep : RegistryStep R S t (.sAccountNew publicB32 privateKey name reply stack) t₁) :
    (t₁.wallet = t.wallet ∧ ∀ j, (t.wallet.get j).status ≠ .none) ∨
      ∃ (i : Fin secretAccountsMaximumCount) (a : SAccount), FirstFree t.wallet i ∧
        Stored publicB32 privateKey name (t.wallet.get i) a ∧
        t₁.wallet = t.wallet.set i.val a i.isLt := by
  obtain ⟨err, hstep⟩ := hstep
  obtain ⟨⟨code, slot, wallet, p⟩, hnew, hstep⟩ := bind_eq_ok.mp hstep
  obtain ⟨-, rfl⟩ := pure_eq_ok2.mp hstep
  rcases sAccountNew_cases hnew with ⟨-, -, hsame, hfull⟩ | ⟨i, a, -, -, hi, hfirst, hstored, hset⟩
  · exact .inl ⟨hsame, hfull⟩
  · exact .inr ⟨i, a, ⟨hi, hfirst⟩, hstored, hset⟩

/-- With an entry free, the first one is taken. -/
theorem RegistryStep.stored (hfree : ∃ j, (t.wallet.get j).status = .none)
    (hstep : RegistryStep R S t (.sAccountNew publicB32 privateKey name reply stack) t₁) :
    ∃ (i : Fin secretAccountsMaximumCount) (a : SAccount), FirstFree t.wallet i ∧
      Stored publicB32 privateKey name (t.wallet.get i) a ∧
      t₁.wallet = t.wallet.set i.val a i.isLt := by
  rcases hstep.stores with ⟨-, hfull⟩ | hstored
  · obtain ⟨j, hj⟩ := hfree
    exact absurd hj (hfull j)
  · exact hstored

/-- Accounts that are added leave the entries in use as they are. -/
theorem get_of_adds {later : List RegistryCall} (hrun : Run (RegistryStep R S) t₁ later t₂)
    (hadds : ∀ call ∈ later, call.AddsAccount) (hused : (t₁.wallet.get i).status ≠ .none) :
    t₂.wallet.get i = t₁.wallet.get i := by
  refine Run.preserves (P := fun u => u.wallet.get i = t₁.wallet.get i) ?_ hrun hadds rfl
  rintro u _ v hu ⟨publicB32, privateKey, name, reply, stack, rfl⟩ hstep
  rcases hstep.stores with ⟨hsame, -⟩ | ⟨k, a, hk, -, hset⟩
  · rw [hsame, hu]
  · have hki : k.val ≠ i.val := by
      intro hki
      rw [← hu, ← Fin.ext hki] at hused
      exact hused hk.1
    rw [hset, get_set, if_neg hki, hu]

/-- The node need not be reached, if the first free entry has its record. -/
theorem sAccountNew_offline (hi : FirstFree t.wallet i) (hinfo : (t.wallet.get i).vtcAccount.isSome = true)
    (hname : name.strlen ≤ accountNameLength) (publicB32 : B32Ptr)
    (privateKey : Vector UInt8 addressLength) (stack : AccountDetails) :
    ∃ t', RegistryStep R S t
      (.sAccountNew publicB32 privateKey name ⟨[], .errorOffline, 0⟩ stack) t' := by
  obtain ⟨info, hinfo⟩ := Option.isSome_iff_exists.mp hinfo
  have hstores : StoresKeys R t.wallet t.provider := storesKeys_of_record (findFree_eq_some.mpr hi) hinfo
  obtain ⟨err, k, wallet, p, info, hnew, -⟩ := hstores publicB32 privateKey name
    ⟨[], .errorOffline, 0⟩ stack (fun d => ⟨_, rfl⟩) hname
  refine ⟨{ t with wallet := wallet, provider := p }, err, ?_⟩
  rw [RegistryCall.run, hnew]
  rfl

/-- An account under a name, the node not reached. -/
def newNamed (name : CStr) : RegistryCall :=
  .sAccountNew ⟨Vector.replicate _ 0, []⟩ (Vector.replicate _ 7) name ⟨[], .errorOffline, 0⟩ .zero

/-- The wallet after the account was stored, as far as the entry it took. -/
structure TakenAt (wallet wallet' : SAccounts) (i : Fin secretAccountsMaximumCount) (a : SAccount) :
    Prop where
  entry : wallet'.get i = a
  front (j : Fin secretAccountsMaximumCount) (hj : j < i) : wallet'.get j = wallet.get j
  added : a.status = .added

theorem TakenAt.addedName_eq {a : SAccount} (h : TakenAt wallet wallet' i a)
    (hkey : a.privateKey = privateKey) (hk : k < i) :
    addedName pointers wallet' k = addedName pointers (withKey wallet i privateKey) k := by
  have hself : (withKey wallet i privateKey).get i =
      { wallet.get i with privateKey := privateKey, status := .added } := get_set_self _ _ _
  refine addedName_congr hk (fun j hj => ?_) ?_ ?_ ?_
  · rw [h.front j hj, withKey, get_set, if_neg (Nat.ne_of_gt hj)]
  · rw [h.entry, hself, hkey]
  · rw [h.entry, hself, h.added]
  · rw [h.entry]
    exact .inr h.added

/-- Accounts that are added later leave it so. -/
theorem TakenAt.run {a : SAccount} (h : TakenAt t.wallet t₁.wallet i a) (hi : FirstFree t.wallet i)
    {later : List RegistryCall} (hrun : Run (RegistryStep R S) t₁ later t₂)
    (hadds : ∀ call ∈ later, call.AddsAccount) : TakenAt t.wallet t₂.wallet i a where
  entry := by
    have hused : (t₁.wallet.get i).status ≠ .none := by
      rw [h.entry, h.added]
      exact AccountStatus.noConfusion
    rw [get_of_adds hrun hadds hused, h.entry]
  front j hj := by
    have hused : (t₁.wallet.get j).status ≠ .none := by
      rw [h.front j hj]
      exact hi.2 j hj
    rw [get_of_adds hrun hadds hused, h.front j hj]
  added := h.added

/-- The lookups of the name stop at the entry that was taken. -/
theorem TakenAt.finds {a : SAccount} (h : TakenAt wallet wallet' i a)
    (hstored : Stored publicB32 privateKey name (wallet.get i) a)
    (hbehind : ((wallet.get i).name.toList.drop name.strlen ++ entriesBehind pointers wallet' i)[0]? =
      some 0)
    (hfront : ∀ k < i, addedName pointers (withKey wallet i privateKey) k ≠ some name) :
    Finds pointers wallet' name i publicB32 privateKey := by
  have hstatus : (wallet'.get i).status = .added := h.entry ▸ h.added
  have hstop : findByName pointers wallet' name (List.finRange _) = .ok (some i) := by
    refine findByName_eq_some_iff.mpr ⟨(h.entry ▸ hstored).hasNameAt_iff.mpr hbehind, fun k hk => ?_⟩
    rw [hasNameAt_front hk (.inr hstatus), h.addedName_eq hstored.privateKey hk,
      decide_eq_false (hfront k hk)]
  obtain ⟨hpresent, hget⟩ := lookups_of_stop hstop
  obtain ⟨info, hinfo, htext, hkey⟩ := hstored.address
  exact ⟨hstop, hpresent, a, info, h.entry ▸ hget, hstored.privateKey, hinfo, htext, hkey⟩

/-- A name that ends is followed by a zero, whatever happens to the free entries. -/
theorem NameEnds.zero_behind (h : NameEnds wallet name i)
    (hused : ∀ j, (wallet.get j).status ≠ .none → wallet'.get j = wallet.get j) :
    ((wallet.get i).name.toList.drop name.strlen ++ entriesBehind pointers wallet' i)[0]? = some 0 := by
  rcases h with hfield | ⟨hfull, j, hj, hstatus, hkey⟩
  · rw [← Nat.add_zero name.strlen, ← List.getElem?_drop] at hfield
    rw [List.getElem?_append_left (List.getElem?_eq_some_iff.mp hfield).1, hfield]
  · have hnone : (wallet.get i).name.toList.drop name.strlen = [] :=
      List.drop_of_length_le (by rw [hfull, Vector.length_toList])
    rw [hnone, List.nil_append, entriesBehind_zero_iff]
    exact ⟨j, hj, by rw [hused j hstatus, hkey]⟩

/-- Every other name is found where it was. -/
theorem TakenAt.others {a : SAccount} (h : TakenAt wallet wallet' i a) (hi : FirstFree wallet i)
    (hset : wallet' = wallet.set i.val a i.isLt)
    (hstored : Stored publicB32 privateKey name (wallet.get i) a)
    (hbehind : ((wallet.get i).name.toList.drop name.strlen ++ entriesBehind pointers wallet' i)[0]? =
      some 0)
    (halike : OccursAlike (addedName pointers wallet) (addedName pointers (withKey wallet i privateKey)) i)
    {other : CStr} (hne : other ≠ name) :
    findByName pointers wallet' other (List.finRange _) =
      findByName pointers wallet other (List.finRange _) := by
  have hadded : (wallet'.get i).status = .added := h.entry ▸ h.added
  have hname : ∀ k < i, addedName pointers wallet' k =
      addedName pointers (withKey wallet i privateKey) k :=
    fun k hk => h.addedName_eq hstored.privateKey hk
  by_cases hfront : ∃ k < i, addedName pointers wallet k = some other
  · -- found in front, at the same entry
    obtain ⟨k, hk, hother⟩ := hfront
    obtain ⟨l, hl, hfirst⟩ := exists_isFirst (p := fun j => addedName pointers wallet j = some other) k hother
    have hli : l < i := Nat.lt_of_le_of_lt hl hk
    obtain ⟨hsame, hbefore⟩ := halike.isFirst hli hfirst
    have hfirst' : IsFirst (fun j => addedName pointers wallet' j = some other) l :=
      ⟨(hname l hli).trans hsame, fun j hj hjo =>
        hbefore j hj ((hname j (Nat.lt_trans hj hli)).symm.trans hjo)⟩
    rw [(findByName_front_iff hli (.inl hi.1)).mpr hfirst, (findByName_front_iff hli (.inr hadded)).mpr hfirst']
  · have hnone : ∀ k < i, addedName pointers wallet k ≠ some other := fun k hk hk' => hfront ⟨k, hk, hk'⟩
    have hnone' : ∀ k < i, addedName pointers wallet' k ≠ some other := by
      intro k hk hother
      rw [hname k hk] at hother
      obtain ⟨l, hl, hfirst⟩ := exists_isFirst
        (p := fun j => addedName pointers (withKey wallet i privateKey) j = some other) k hother
      have hli : l < i := Nat.lt_of_le_of_lt hl hk
      exact hnone l hli (halike.symm.isFirst hli hfirst).1
    refine findByName_congr fun j _ => ?_
    rcases Nat.lt_trichotomy j.val i.val with hlt | heq | hgt
    · rw [hasNameAt_front hlt (.inr hadded), hasNameAt_front hlt (.inl hi.1),
        decide_eq_false (hnone j hlt), decide_eq_false (hnone' j hlt)]
    · obtain rfl : j = i := Fin.ext heq
      obtain ⟨-, hmem, hread⟩ := hasNameAt_eq_true.mp ((h.entry ▸ hstored).hasNameAt_iff.mpr hbehind)
      have hzero : (0 : UInt8) ∈ nameMemory pointers wallet j := by
        have hsame : entriesBehind pointers wallet' j = entriesBehind pointers wallet j := by
          refine entriesBehind_congr fun l hl => ?_
          rw [hset, get_set, if_neg (Nat.ne_of_lt hl)]
        rw [hsame] at hbehind
        rcases List.mem_append.mp (List.mem_of_getElem? hbehind) with hfield | hrest
        · exact List.mem_append_left _ (List.mem_of_mem_drop hfield)
        · exact List.mem_append_right _ hrest
      rw [hasNameAt_of_free hi.1 hzero, hasNameAt_of_mem hmem, hread, decide_eq_false hne.symm]
      rfl
    · have hget : ∀ l : Fin secretAccountsMaximumCount, j ≤ l → wallet'.get l = wallet.get l := by
        intro l hl
        rw [hset, get_set, if_neg (Nat.ne_of_lt (Nat.lt_of_lt_of_le hgt hl))]
      rw [hasNameAt, hasNameAt, nameMemory, nameMemory, hget j (Nat.le_refl _),
        entriesBehind_congr fun l hl => hget l (Nat.le_of_lt hl)]

theorem StoredFound.takenAt (h : StoredFound R S pointers t t₁ publicB32 privateKey name)
    (hset : ∃ a, t₁.wallet = t.wallet.set i.val a i.isLt) :
    ∀ later t₂, Run (RegistryStep R S) t₁ later t₂ → (∀ call ∈ later, call.AddsAccount) →
      Finds pointers t₂.wallet name i publicB32 privateKey := by
  obtain ⟨⟨j, hj, hfinds⟩, -⟩ := h
  obtain ⟨a, hset⟩ := hset
  -- only the entry that was taken can have the name
  have hij : i = j := by
    by_contra hij
    obtain ⟨hadded, -⟩ := hasNameAt_eq_true.mp
      (findByName_eq_some_iff.mp (hfinds [] t₁ (.nil t₁) (by simp)).stops).1
    rw [hset, get_set, if_neg fun h => hij (Fin.ext h), hj] at hadded
    cases hadded
  exact hij ▸ hfinds

/-- What is found whatever is added has an end. -/
theorem StoredFound.nameEnds (h : StoredFound R S pointers t t₁ publicB32 privateKey name)
    (hrecords : ∀ j, (t.wallet.get j).vtcAccount.isSome = true) {a : SAccount}
    (hi : FirstFree t.wallet i) (hstored : Stored publicB32 privateKey name (t.wallet.get i) a)
    (hset : t₁.wallet = t.wallet.set i.val a i.isLt) : NameEnds t.wallet name i := by
  have hfinds := h.takenAt ⟨a, hset⟩
  have hzero : ∀ later t₂, Run (RegistryStep R S) t₁ later t₂ → (∀ call ∈ later, call.AddsAccount) →
      t₂.wallet.get i = a →
      ((t.wallet.get i).name.toList.drop name.strlen ++ entriesBehind pointers t₂.wallet i)[0]? =
        some 0 := by
    intro later t₂ hrun hadds ha
    exact (ha ▸ hstored : Stored _ _ _ _ (t₂.wallet.get i)).hasNameAt_iff.mp
      (findByName_eq_some_iff.mp (hfinds later t₂ hrun hadds).stops).1
  have ha : t₁.wallet.get i = a := by rw [hset, get_set_self]
  have hnow := hzero [] t₁ (.nil t₁) (by simp) ha
  by_cases hshort : name.strlen < accountNameLength
  · left
    have hpos : 0 < ((t.wallet.get i).name.toList.drop name.strlen).length := by
      rw [List.length_drop, Vector.length_toList]
      exact Nat.sub_pos_of_lt hshort
    rw [List.getElem?_append_left hpos, List.getElem?_drop, Nat.add_zero] at hnow
    exact hnow
  · right
    have hfull : name.strlen = accountNameLength := Nat.le_antisymm hstored.fits (Nat.not_lt.mp hshort)
    have hnone : (t.wallet.get i).name.toList.drop name.strlen = [] :=
      List.drop_of_length_le (by rw [hfull, Vector.length_toList])
    rw [hnone, List.nil_append, entriesBehind_zero_iff] at hnow
    obtain ⟨j, hj, hkey⟩ := hnow
    have hij : i.val ≠ j.val := by omega
    have hget : t₁.wallet.get j = t.wallet.get j := by rw [hset, get_set, if_neg hij]
    refine ⟨hfull, j, hj, fun hfree => ?_, hget ▸ hkey⟩
    -- an account with another key can be added there
    have hfirst : FirstFree t₁.wallet j := by
      refine ⟨(congrArg SAccount.status hget).trans hfree, fun m hm => ?_⟩
      show (t₁.wallet.get m).status ≠ .none
      rcases Nat.lt_or_eq_of_le (Nat.le_of_lt_succ (hj ▸ hm : m.val < i.val + 1)) with hlt | heq
      · rw [hset, get_set, if_neg (Nat.ne_of_gt hlt)]
        exact hi.2 m hlt
      · rw [show m = i from Fin.ext heq, ha, hstored.status]
        exact AccountStatus.noConfusion
    obtain ⟨t₂, hstep⟩ : ∃ t₂, RegistryStep R S t₁ (.sAccountNew ⟨Vector.replicate _ 0, []⟩
        (Vector.replicate _ 7) (cString []) ⟨[], .errorOffline, 0⟩ .zero) t₂ :=
      sAccountNew_offline hfirst (hget ▸ hrecords j) (Nat.zero_le _) _ _ _
    obtain ⟨k, b, hk, hstored₂, hset₂⟩ := hstep.stored ⟨j, hfirst.1⟩
    obtain rfl := hfirst.unique hk
    have hadds : ∀ call ∈ [RegistryCall.sAccountNew ⟨Vector.replicate _ 0, []⟩ (Vector.replicate _ 7)
        (cString []) ⟨[], .errorOffline, 0⟩ .zero], call.AddsAccount := by
      rw [List.forall_mem_singleton]
      exact ⟨_, _, _, _, _, rfl⟩
    have hlater := hzero _ t₂ (.single hstep) hadds (by rw [hset₂, get_set, if_neg hij.symm, ha])
    rw [hnone, List.nil_append, entriesBehind_zero_iff] at hlater
    obtain ⟨m, hm, hzero'⟩ := hlater
    rw [show m = j from Fin.ext (hm.trans hj.symm), hset₂, get_set_self, hstored₂.privateKey] at hzero'
    revert hzero'
    decide

/-- And the names in front are found as before. -/
theorem StoredFound.occursAlike (h : StoredFound R S pointers t t₁ publicB32 privateKey name)
    (hnew : sAccountExists pointers t.wallet name = .ok false) {a : SAccount}
    (hi : FirstFree t.wallet i) (hstored : Stored publicB32 privateKey name (t.wallet.get i) a)
    (htaken : TakenAt t.wallet t₁.wallet i a) (hset : t₁.wallet = t.wallet.set i.val a i.isLt) :
    OccursAlike (addedName pointers t.wallet) (addedName pointers (withKey t.wallet i privateKey)) i := by
  have hadded : (t₁.wallet.get i).status = .added := htaken.entry ▸ htaken.added
  have hname : ∀ k < i, addedName pointers t₁.wallet k =
      addedName pointers (withKey t.wallet i privateKey) k :=
    fun k hk => htaken.addedName_eq hstored.privateKey hk
  have hstop := (h.takenAt ⟨a, hset⟩ [] t₁ (.nil t₁) (by simp)).stops
  intro k hk
  rw [← hname k hk]
  by_cases hsame : addedName pointers t₁.wallet k = addedName pointers t.wallet k
  · exact .inl hsame
  · have hused : (t.wallet.get k).status = .added := by
      by_contra hused
      refine hsame ?_
      rw [addedName, addedName, htaken.front k hk, if_neg hused, if_neg hused]
    have hold : addedName pointers t.wallet k = some (readAt pointers t.wallet k) := if_pos hused
    have hnow : addedName pointers t₁.wallet k = some (readAt pointers t₁.wallet k) :=
      if_pos (htaken.front k hk ▸ hused)
    refine .inr ⟨?_, ?_⟩
    · by_contra hno
      rw [hold] at hno
      have hfirst : IsFirst (fun j => addedName pointers t.wallet j =
          some (readAt pointers t.wallet k)) k := ⟨hold, fun m hm hmk => hno ⟨m, hm, hmk⟩⟩
      have hne : readAt pointers t.wallet k ≠ name := by
        intro hread
        have htest := sAccountExists_eq_false.mp hnew k
        rw [hasNameAt_front hk (.inl hi.1), hold, hread, decide_eq_true rfl] at htest
        cases htest
      have hfound := (findByName_front_iff hk (.inl hi.1)).mpr hfirst
      rw [← (h.2 _ hne).1] at hfound
      exact hsame (((findByName_front_iff hk (.inr hadded)).mp hfound).1.trans hold.symm)
    · by_contra hno
      rw [hnow] at hno
      have hfirst : IsFirst (fun j => addedName pointers t₁.wallet j =
          some (readAt pointers t₁.wallet k)) k :=
        ⟨hnow, fun m hm hmk => hno ⟨m, hm, (hname m (Nat.lt_trans hm hk)).symm.trans hmk⟩⟩
      have hfound := (findByName_front_iff hk (.inr hadded)).mpr hfirst
      by_cases hread : readAt pointers t₁.wallet k = name
      · rw [hread, hstop] at hfound
        cases hfound
        exact Nat.lt_irrefl _ hk
      · rw [(h.2 _ hread).1] at hfound
        exact hsame (hnow.trans ((findByName_front_iff hk (.inl hi.1)).mp hfound).1.symm)

/-- **What was stored under a new name is found, and every other name looked up as before,
exactly if** the name ends in the first free entry, and the names in front, which may run into
the key of this entry, are read as before. -/
theorem wallet_lookup_iff (hfree : ∃ j, (t.wallet.get j).status = .none)
    (hrecords : ∀ j, (t.wallet.get j).vtcAccount.isSome = true)
    (hnew : sAccountExists pointers t.wallet name = .ok false)
    (hstep : RegistryStep R S t (.sAccountNew publicB32 privateKey name reply stack) t₁) :
    StoredFound R S pointers t t₁ publicB32 privateKey name ↔
      ∃ i, FoundAgain pointers t.wallet name privateKey i := by
  obtain ⟨i, a, hi, hstored, hset⟩ := hstep.stored hfree
  have htaken : TakenAt t.wallet t₁.wallet i a := by
    refine ⟨by rw [hset, get_set_self], fun j hj => ?_, hstored.status⟩
    rw [hset, get_set, if_neg (Nat.ne_of_gt hj)]
  constructor
  · intro h
    exact ⟨i, hi, h.nameEnds hrecords hi hstored hset, h.occursAlike hnew hi hstored htaken hset⟩
  · rintro ⟨k, hk, hends, halike⟩
    obtain rfl := hi.unique hk
    -- no entry in front has got the name
    have hfront : ∀ k < i, addedName pointers (withKey t.wallet i privateKey) k ≠ some name := by
      intro k hk' hname
      obtain ⟨l, hl, hfirst⟩ := exists_isFirst
        (p := fun j => addedName pointers (withKey t.wallet i privateKey) j = some name) k hname
      have hli : l < i := Nat.lt_of_le_of_lt hl hk'
      have htest := sAccountExists_eq_false.mp hnew l
      rw [hasNameAt_front hli (.inl hi.1), (halike.symm.isFirst hli hfirst).1, decide_eq_true rfl] at htest
      cases htest
    have hused₁ : ∀ j, (t.wallet.get j).status ≠ .none → t₁.wallet.get j = t.wallet.get j := by
      intro j hj
      have hij : i.val ≠ j.val := fun hij => hj (Fin.ext hij ▸ hi.1)
      rw [hset, get_set, if_neg hij]
    refine ⟨⟨i, hi.1, fun later t₂ hrun hadds => ?_⟩, fun other hne => ?_⟩
    · have hused₂ : ∀ j, (t.wallet.get j).status ≠ .none → t₂.wallet.get j = t.wallet.get j := by
        intro j hj
        rw [get_of_adds hrun hadds (by rw [hused₁ j hj]; exact hj), hused₁ j hj]
      exact (htaken.run hi hrun hadds).finds hstored (hends.zero_behind hused₂) hfront
    · have hstop := htaken.others hi hset hstored (hends.zero_behind hused₁) halike hne
      refine ⟨hstop, lookups_of_same_stop hstop fun j hj => ?_⟩
      refine hused₁ j ?_
      rw [(hasNameAt_eq_true.mp (findByName_eq_some_iff.mp hj).1).1]
      exact AccountStatus.noConfusion

end

/-! ## Wallets that were not loaded -/

/-- The name fields of the free entries are zero. -/
def BlankNames (wallet : SAccounts) : Prop :=
  ∀ i, (wallet.get i).status = .none → (wallet.get i).name = Vector.replicate _ 0

/-- A call that reads the wallet's file. -/
def RegistryCall.Loads : RegistryCall → Prop
  | .sAccountLoad _ _ _ | .verticesWalletLoad _ _ _ => True
  | _ => False

theorem get_sAccountInit (i : Fin secretAccountsMaximumCount) :
    sAccountInit.get i = { SAccount.zero with vtcAccount := some AccountDetails.zero.info } :=
  Vector.getElem_replicate _

theorem blankNames_sAccountInit : BlankNames sAccountInit := by
  intro i _
  rw [get_sAccountInit]
  rfl

theorem BlankNames.set {wallet : SAccounts} (h : BlankNames wallet) {i : Nat}
    (hi : i < secretAccountsMaximumCount) {a : SAccount}
    (ha : a.status = .none → a.name = Vector.replicate _ 0) : BlankNames (wallet.set i a hi) := by
  intro j
  rw [get_set]
  split
  · exact ha
  · exact h j

/-- No call but a load brings anything else there. -/
theorem blankNames_step {R : MpackReader} {S : Sodium} {t t' : Registry} {call : RegistryCall}
    (h : BlankNames t.wallet) (hload : ¬ call.Loads) (hstep : RegistryStep R S t call t') :
    BlankNames t'.wallet := by
  cases hstep.effect with
  | sAccountInit => exact blankNames_sAccountInit
  | sAccountNew hnew =>
      rcases sAccountNew_cases hnew with ⟨-, -, rfl, -⟩ | ⟨i, a, -, -, -, -, hstored, rfl⟩
      · exact h
      · refine h.set i.isLt fun hnone => ?_
        rw [hstored.status] at hnone
        cases hnone
  | sAccountUpdate hupdate =>
      rcases sAccountUpdate_cases hupdate with rfl | ⟨i, info, code, details, -, -, rfl⟩
      · exact h
      · exact h.set i.isLt (h i)
  | sAccountFree account =>
      cases account with
      | sAccount i => exact h.set i.isLt fun _ => rfl
      | other => exact h
  | sAccountLoad _ | verticesWalletLoad _ => exact absurd trivial hload
  | _ => exact h

/-- There a name ends that is shorter than the field. -/
theorem BlankNames.nameEnds {wallet : SAccounts} (h : BlankNames wallet)
    {i : Fin secretAccountsMaximumCount} (hi : (wallet.get i).status = .none) {name : CStr}
    (hshort : name.strlen < accountNameLength) : NameEnds wallet name i := by
  left
  rw [h i hi, Vector.toList_replicate, List.getElem?_replicate, if_pos hshort]

/-- Names with an end are read as before, whatever is behind their fields. -/
theorem occursAlike_of_ends {pointers : RecordPointers} {wallet : SAccounts}
    {i : Fin secretAccountsMaximumCount}
    (hends : ∀ k < i, (wallet.get k).status = .added → (0 : UInt8) ∈ (wallet.get k).name.toList)
    (privateKey : Vector UInt8 addressLength) :
    OccursAlike (addedName pointers wallet) (addedName pointers (withKey wallet i privateKey)) i := by
  intro k hk
  left
  have hget : (withKey wallet i privateKey).get k = wallet.get k := by
    rw [withKey, get_set, if_neg (Nat.ne_of_gt hk)]
  rw [addedName, addedName, hget]
  by_cases hadded : (wallet.get k).status = .added
  · have hmem := hends k hk hadded
    rw [(readAt_of_mem (hget.symm ▸ hmem)).2, (readAt_of_mem hmem).2, hget]
  · rw [if_neg hadded, if_neg hadded]

/-- From an empty wallet, by any calls but loads: names shorter than the field are found, and
do not disturb each other. -/
theorem foundAgain_of_run {R : MpackReader} {S : Sodium} {t t' : Registry}
    {calls : List RegistryCall} (ht : t.wallet = sAccountInit)
    (hrun : Run (RegistryStep R S) t calls t') (hloads : ∀ call ∈ calls, ¬ call.Loads)
    (hfree : ∃ j, (t'.wallet.get j).status = .none)
    (hends : ∀ k, (t'.wallet.get k).status = .added → (0 : UInt8) ∈ (t'.wallet.get k).name.toList)
    {name : CStr} (hshort : name.strlen < accountNameLength) (pointers : RecordPointers)
    (privateKey : Vector UInt8 addressLength) :
    ∃ i, FoundAgain pointers t'.wallet name privateKey i := by
  have hblank : BlankNames t'.wallet :=
    hrun.preserves (fun _ _ _ h hload hstep => blankNames_step h hload hstep) hloads
      (ht ▸ blankNames_sAccountInit)
  obtain ⟨j, hj⟩ := hfree
  obtain ⟨i, -, hi⟩ := exists_isFirst (p := fun i => (t'.wallet.get i).status = .none) j hj
  exact ⟨i, hi, hblank.nameEnds hi.1 hshort, occursAlike_of_ends (fun k _ => hends k) privateKey⟩

/-! ## Two names -/

theorem free_start (i : Fin secretAccountsMaximumCount) : (Registry.start.wallet.get i).status = .none := by
  show (sAccountInit.get i).status = .none
  rw [get_sAccountInit]
  rfl

theorem firstFree_start : FirstFree Registry.start.wallet 0 :=
  ⟨free_start 0, fun j hj => absurd hj (Fin.not_lt_zero j)⟩

theorem record_start (i : Fin secretAccountsMaximumCount) :
    (Registry.start.wallet.get i).vtcAccount.isSome = true := by
  show (sAccountInit.get i).vtcAccount.isSome = true
  rw [get_sAccountInit]
  rfl

theorem not_present_start (pointers : RecordPointers) (name : CStr) :
    sAccountExists pointers Registry.start.wallet name = .ok false := by
  rw [sAccountExists_eq_false]
  intro i
  refine hasNameAt_of_free (free_start i) (List.mem_append_left _ ?_) name
  show (0 : UInt8) ∈ (sAccountInit.get i).name.toList
  rw [get_sAccountInit]
  decide

/-- A name of seven characters. -/
def savings : CStr := cString (lit "savings")

/-- It is stored behind an account "a". -/
theorem wallet_lookup_iff_savings :
    ∃ t t₁, Run (RegistryStep formatReader oneSodium) .start [newNamed nameA] t ∧
      RegistryStep formatReader oneSodium t (newNamed savings) t₁ ∧
      StoredFound formatReader oneSodium noPointers t t₁ ⟨Vector.replicate _ 0, []⟩ (Vector.replicate _ 7)
        savings := by
  have hshort : savings.strlen < accountNameLength := by decide +kernel
  have hseen : (Registry.runAll formatReader oneSodium [newNamed nameA] .start).map (fun t =>
      (sAccountExists noPointers t.wallet savings, (t.wallet.get 1).status,
        decide (∀ j, (t.wallet.get j).vtcAccount.isSome = true),
        decide (∀ j, (t.wallet.get j).status = .added → (0 : UInt8) ∈ (t.wallet.get j).name.toList))) =
      .ok (.ok false, .none, true, true) := by decide +kernel
  cases hall : Registry.runAll formatReader oneSodium [newNamed nameA] .start with
  | error f =>
      rw [hall] at hseen
      cases hseen
  | ok t =>
      rw [hall, Except.map, Except.ok.injEq, Prod.mk.injEq, Prod.mk.injEq, Prod.mk.injEq,
        decide_eq_true_eq, decide_eq_true_eq] at hseen
      obtain ⟨hnew, hfree, hrecords, hends⟩ := hseen
      have hrun := Registry.run_of_runAll hall
      obtain ⟨i, -, hi⟩ := exists_isFirst (p := fun i => (t.wallet.get i).status = .none) 1 hfree
      obtain ⟨t₁, hstep⟩ := sAccountNew_offline (R := formatReader) (S := oneSodium) hi (hrecords i)
        hshort.le ⟨Vector.replicate _ 0, []⟩ (Vector.replicate _ 7) .zero
      refine ⟨t, t₁, hrun, hstep, ?_⟩
      rw [wallet_lookup_iff ⟨1, hfree⟩ hrecords hnew hstep]
      exact foundAgain_of_run rfl hrun (by simp [newNamed, RegistryCall.Loads]) ⟨1, hfree⟩ hends hshort _ _

/-- As many characters as the field has. -/
def fullName : CStr := cString (List.replicate accountNameLength 0x61)

/-- A name as long as its field allows, and an account behind it: the lookups read on into its
key, and find nothing. -/
theorem full_name_not_found :
    ∃ t t', RegistryStep formatReader oneSodium .start (newNamed fullName) t ∧
      RegistryStep formatReader oneSodium t (newNamed nameA) t' ∧
      fullName.strlen ≤ accountNameLength ∧
      sAccountExists noPointers Registry.start.wallet fullName = .ok false ∧
      sAccountExists noPointers t'.wallet fullName = .ok false ∧
      ¬ StoredFound formatReader oneSodium noPointers .start t ⟨Vector.replicate _ 0, []⟩
        (Vector.replicate _ 7) fullName := by
  have hlong : fullName.strlen ≤ accountNameLength := by decide +kernel
  have hseen : (Registry.runAll formatReader oneSodium [newNamed fullName, newNamed nameA] .start).map
      (fun t => sAccountExists noPointers t.wallet fullName) = .ok (.ok false) := by decide +kernel
  cases hall : Registry.runAll formatReader oneSodium [newNamed fullName, newNamed nameA] .start with
  | error f =>
      rw [hall] at hseen
      cases hseen
  | ok t' =>
      rw [hall] at hseen
      have hmissing : sAccountExists noPointers t'.wallet fullName = .ok false := Except.ok.inj hseen
      cases Registry.run_of_runAll hall with
      | @cons _ t _ _ _ hfirst hrest =>
          cases hrest with
          | cons hsecond hnil =>
              cases hnil
              refine ⟨t, t', hfirst, hsecond, hlong, not_present_start _ _, hmissing, fun h => ?_⟩
              obtain ⟨⟨i, -, hfinds⟩, -⟩ := h
              have hadds : ∀ call ∈ [newNamed nameA], call.AddsAccount := by
                rw [List.forall_mem_singleton]
                exact ⟨_, _, _, _, _, rfl⟩
              have hpresent := (hfinds _ t' (.single hsecond) hadds).present
              rw [hmissing] at hpresent
              cases hpresent

end Vertices
