/-
# `Vertices.Balances` — the numbers of an account, from the response to the caller

`uint_element` is handed the numbers as the 64 bits they have and casts them to the 32 bits
of `account_info_t` and `account_details_t`.  `account_balance` returns what is there.

    `OtherField.KeptIn`   a number of the response is what the caller gets
    `OtherField.Small`    a number that the cast leaves as it is
-/
import Vertices.SilentErrors
import Vertices.UnknownFields
import Vertices.WalletSlots

namespace Vertices

open MsgPack

/-! ## What is kept -/

/-- The number is what `account_balance` returns, or what is stored. -/
def OtherField.KeptIn (accounts : MAccounts) (i : Fin accountsMaximumCount) : OtherField → Prop
  | .algo n => ∃ balance, accountBalance (.mAccount i) accounts = (.success, some balance) ∧
      balance.toInt = n.toNat
  | .ebase n => (accounts.get i).account.rewardBase.toInt = n.toNat
  | .ern n => (accounts.get i).account.rewards.toInt = n.toNat
  | .tsch _ => True

/-- All the numbers of the response are kept, if the update reports success. -/
def UpdateKeeps (R : MpackReader) (i : Fin accountsMaximumCount) (reply : HttpReply)
    (accounts : MAccounts) (p : Provider) (entries : List Entry) : Prop :=
  ∀ accounts' p', accountUpdate R (.mAccount i) reply accounts p = .ok (.success, accounts', p') →
    ∀ f, .field (.other f) ∈ entries → f.KeptIn accounts' i

/-- An `int32_t` holds the number. -/
def OtherField.Small : OtherField → Prop
  | .algo n | .ebase n | .ern n => n.toNat < 2 ^ 31
  | .tsch _ => True

/-- The fields of a response, those behind an unknown pair included. -/
def Entry.field? : Entry → Option RootField
  | .field f => some f
  | .unknown _ => none

theorem mem_filterMap_field? {entries : List Entry} {f : RootField} :
    f ∈ entries.filterMap Entry.field? ↔ .field f ∈ entries := by
  rw [List.mem_filterMap]
  constructor
  · rintro ⟨e, he, hf⟩
    cases e with
    | field g =>
        cases hf
        exact he
    | unknown _ => cases hf
  · exact fun h => ⟨_, h, rfl⟩

/-- The fields in front of the first unknown pair come first. -/
theorem exists_filterMap_field? (entries : List Entry) :
    ∃ unread, entries.filterMap Entry.field? = readFields entries ++ unread := by
  induction entries with
  | nil => exact ⟨[], rfl⟩
  | cons e entries ih =>
      cases e with
      | unknown p => exact ⟨entries.filterMap Entry.field?, rfl⟩
      | field f =>
          obtain ⟨unread, hunread⟩ := ih
          exact ⟨unread, congrArg (f :: ·) hunread⟩

/-! ## The cast -/

/-- The cast leaves a number as it is if and only if it is below 2³¹. -/
theorem toInt_uint64ToInt32_eq (n : UInt64) :
    (uint64ToInt32 n).toInt = n.toNat ↔ n.toNat < 2 ^ 31 := by
  have hword : n.toUInt32.toNat = n.toNat % 2 ^ 32 := UInt64.toNat_toUInt32 n
  have hcast : (uint64ToInt32 n).toInt = ((n.toNat % 2 ^ 32 : Nat) : Int).bmod (2 ^ 32) := by
    rw [← hword]
    exact BitVec.toInt_eq_toNat_bmod _
  rw [hcast, Int.bmod_def]
  constructor
  · intro h
    split at h <;> omega
  · intro h
    split <;> omega

/-- A 32-bit integer is a number if it is the number cast, and the cast left it as it was. -/
theorem toInt_eq_toNat_iff {b : Int32} {n : UInt64} :
    b.toInt = n.toNat ↔ n.toNat < 2 ^ 31 ∧ b = uint64ToInt32 n := by
  constructor
  · intro h
    have hlt : n.toNat < 2 ^ 31 := by
      have := b.toInt_lt
      omega
    exact ⟨hlt, Int32.toInt_inj.mp (h.trans ((toInt_uint64ToInt32_eq n).mpr hlt).symm)⟩
  · rintro ⟨hlt, rfl⟩
    exact (toInt_uint64ToInt32_eq n).mpr hlt

/-- A number is kept if it is small and the record shows it. -/
theorem OtherField.keptIn_iff (accounts : MAccounts) (i : Fin accountsMaximumCount) (f : OtherField) :
    f.KeptIn accounts i ↔ f.Small ∧ (RootField.other f).Shows (accounts.get i).account := by
  cases f with
  | algo n =>
      refine Iff.trans ?_ toInt_eq_toNat_iff
      constructor
      · rintro ⟨balance, hbalance, h⟩
        cases hbalance
        exact h
      · exact fun h => ⟨_, rfl, h⟩
  | ebase n => exact toInt_eq_toNat_iff
  | ern n => exact toInt_eq_toNat_iff
  | tsch _ => exact iff_of_true trivial ⟨trivial, trivial⟩

/-! ## The update -/

section

variable {R : MpackReader} (hR : R.Lawful) {entries : List Entry} {d : AccountDetails}
  (hdistinct : ((entries.filterMap Entry.field?).map RootField.key).Nodup)

include hdistinct

/-- The fields that are read are shown by the record after, the others as before. -/
theorem shows_readFields {f : OtherField} (hf : .field (.other f) ∈ entries) :
    (RootField.other f).Shows ((readFields entries).foldl RootField.store d) ↔
      (.other f ∉ readFields entries → (RootField.other f).Shows d) := by
  obtain ⟨unread, hfields⟩ := exists_filterMap_field? entries
  rw [hfields, List.map_append, List.nodup_append] at hdistinct
  obtain ⟨hread, -, hapart⟩ := hdistinct
  by_cases hmem : .other f ∈ readFields entries
  · exact iff_of_true (RootField.shows_foldl hread d hmem) fun h => absurd hmem h
  · have hunread : .other f ∈ unread := by
      rw [← mem_filterMap_field?, hfields, List.mem_append] at hf
      exact hf.resolve_left hmem
    have hne : ∀ g ∈ readFields entries, g.key ≠ (RootField.other f).key := fun g hg =>
      hapart _ (List.mem_map_of_mem hg) _ (List.mem_map_of_mem hunread)
    rw [RootField.shows_foldl_ne hne]
    exact ⟨fun h _ => h, fun h => h hmem⟩

include hR in
/-- The record after the response. -/
theorem parserAccountMpack_readFields (hint : ∀ f ∈ readFields entries, f.IntsOnly)
    (hclear : ∀ f ∈ readFields entries, f.ClearIn d) {buf rest : List UInt8}
    (hbuf : Reads buf [.map (entries.map Entry.pair)] rest) :
    parserAccountMpack R buf d = .ok (.success, (readFields entries).foldl RootField.store d) := by
  obtain ⟨unread, hfields⟩ := exists_filterMap_field? entries
  rw [hfields, List.map_append, List.nodup_append] at hdistinct
  obtain ⟨behind, hbehind, hpairs⟩ := exists_unread entries
  rw [hpairs] at hbuf
  exact parserAccountMpack_walked hR (walks_rootFields hR hdistinct.1 hint hclear) hbehind hbuf

end

section Update

variable {R : MpackReader} {i : Fin accountsMaximumCount} {reply : HttpReply} {accounts : MAccounts}
  {p p' : Provider} (hreceived : httpReceive p reply = .ok p')

include hreceived

/-- With an answer the record is what the parser makes of it. -/
theorem accountUpdate_answered {d' : AccountDetails} {code : RetCode}
    (hparse : parserAccountMpack R p'.answer (accounts.get i).account = .ok (code, d'))
    (hreply : reply.err = .success) :
    accountUpdate R (.mAccount i) reply accounts p =
      .ok (.success, accounts.set i.val ⟨d', (accounts.get i).status⟩ i.isLt, p') := by
  have hget : providerAccountInfoGet R p reply (accounts.get i).account = .ok (.success, d', p') := by
    rw [providerAccountInfoGet, hreceived]
    show (if reply.err = .success then parserAccountMpack R p'.answer _ >>= _ else _) = _
    rw [if_pos hreply, hparse, hreply]
    rfl
  show (providerAccountInfoGet R p reply (accounts.get i).account >>= _) = _
  rw [hget]
  rfl

/-- Without one the code says so. -/
theorem accountUpdate_refused (hreply : reply.err ≠ .success) :
    ∃ accounts', accountUpdate R (.mAccount i) reply accounts p = .ok (reply.err, accounts', p') := by
  have hget : providerAccountInfoGet R p reply (accounts.get i).account =
      .ok (reply.err, (accounts.get i).account, p') := by
    rw [providerAccountInfoGet, hreceived]
    exact if_neg hreply
  refine ⟨accounts.set i (accounts.get i), ?_⟩
  show (providerAccountInfoGet R p reply (accounts.get i).account >>= _) = _
  rw [hget]
  rfl

end Update

/-- **Balances are kept exactly if they are below 2³¹.**  Of a response whose applications the
record has room for, with integers only, every number has to be that small, and one behind an
unknown pair the record must have held before.  A larger one is kept of no response. -/
theorem balances_kept_iff {R : MpackReader} (hR : R.Lawful) {entries : List Entry}
    {i : Fin accountsMaximumCount} {reply : HttpReply} {accounts : MAccounts} {p p' : Provider}
    {rest : List UInt8}
    (hdistinct : ((entries.filterMap Entry.field?).map RootField.key).Nodup)
    (hreceived : httpReceive p reply = .ok p')
    (hbody : Reads p'.answer [.map (entries.map Entry.pair)] rest) :
    ((∀ f ∈ readFields entries, f.IntsOnly ∧ f.ClearIn (accounts.get i).account) →
      (UpdateKeeps R i reply accounts p entries ↔
        (reply.err = .success → ∀ f, .field (.other f) ∈ entries →
          f.Small ∧ (.other f ∉ readFields entries →
            (RootField.other f).Shows (accounts.get i).account)))) ∧
    ∀ (accounts' : MAccounts) (f : OtherField), f.KeptIn accounts' i → f.Small := by
  refine ⟨fun hlegible => ?_, fun accounts' f hkept => ((f.keptIn_iff accounts' i).mp hkept).1⟩
  have hparse := parserAccountMpack_readFields hR hdistinct (fun f hf => (hlegible f hf).1)
    (fun f hf => (hlegible f hf).2) hbody
  generalize hafter : (readFields entries).foldl RootField.store (accounts.get i).account = d' at hparse
  have hkept : ∀ f, .field (.other f) ∈ entries →
      (f.KeptIn (accounts.set i ⟨d', (accounts.get i).status⟩) i ↔
        f.Small ∧ (.other f ∉ readFields entries →
          (RootField.other f).Shows (accounts.get i).account)) := by
    intro f hf
    rw [f.keptIn_iff, get_set_self, ← hafter, shows_readFields hdistinct hf]
  constructor
  · intro hkeeps hreply f hf
    exact (hkept f hf).mp (hkeeps _ p' (accountUpdate_answered hreceived hparse hreply) f hf)
  · intro h accounts' p'' hupdate f hf
    by_cases hreply : reply.err = .success
    · rw [accountUpdate_answered hreceived hparse hreply] at hupdate
      cases hupdate
      exact (hkept f hf).mpr (h hreply f hf)
    · obtain ⟨accounts'', hrefused⟩ : ∃ accounts'', accountUpdate R (.mAccount i) reply accounts p =
          .ok (reply.err, accounts'', p') := accountUpdate_refused hreceived hreply
      rw [hrefused] at hupdate
      exact absurd (congrArg Prod.fst (Except.ok.inj hupdate)) hreply

/-! ## On an account -/

/-- Five microalgos are five. -/
theorem balances_kept_iff_five :
    UpdateKeeps formatReader 0 ⟨[knownBuffer], .success, 200⟩ accountInit .zero
      [algoEntry, ebaseEntry] := by
  have hanswer : (httpReceive .zero ⟨[knownBuffer], .success, 200⟩).map Provider.answer =
      .ok knownBuffer := by decide +kernel
  obtain ⟨p', hreceived, hbody⟩ := map_eq_ok hanswer
  have hreads : Reads p'.answer [.map ([algoEntry, ebaseEntry].map Entry.pair)] [] := by
    rw [hbody]
    exact decode_eq_some_iff.mp (by rfl)
  have hfields : ∀ f ∈ readFields [algoEntry, ebaseEntry], ∃ g, f = .other g := by
    simp [readFields, algoEntry, ebaseEntry]
  refine ((balances_kept_iff formatReader_lawful (by decide) hreceived hreads).1 ?_).mpr ?_
  · intro f hf
    obtain ⟨g, rfl⟩ := hfields f hf
    exact ⟨trivial, trivial⟩
  · intro _ f hf
    simp only [algoEntry, ebaseEntry, List.mem_cons, Entry.field.injEq, RootField.other.injEq,
      List.not_mem_nil, or_false] at hf
    rcases hf with rfl | rfl
    · exact ⟨(by decide : (5 : UInt64).toNat < 2 ^ 31), fun h => absurd List.mem_cons_self h⟩
    · exact ⟨(by decide : (3 : UInt64).toNat < 2 ^ 31),
        fun h => absurd (List.mem_cons_of_mem _ List.mem_cons_self) h⟩

/-- Three thousand algos. -/
def algosEntry : Entry := .field (.other (.algo 3000000000))

/-- `algo` alone. -/
def algosBuffer : List UInt8 := [0x81, 0xa4, 0x61, 0x6c, 0x67, 0x6f, 0xce, 0xb2, 0xd0, 0x5e, 0x00]

/-- An account of three thousand algos has a negative balance. -/
theorem algos_negative :
    Reads algosBuffer [.map ([algosEntry].map Entry.pair)] [] ∧
      (accountUpdate formatReader (.mAccount 0) ⟨[algosBuffer], .success, 200⟩ accountInit .zero).map
        (fun r => (r.1, r.2.2.answer, accountBalance (.mAccount 0) r.2.1)) =
          .ok (.success, algosBuffer, (.success, some (-1294967296))) ∧
      ¬ UpdateKeeps formatReader 0 ⟨[algosBuffer], .success, 200⟩ accountInit .zero [algosEntry] := by
  have hrun : (accountUpdate formatReader (.mAccount 0) ⟨[algosBuffer], .success, 200⟩ accountInit
      .zero).map (fun r => (r.1, r.2.2.answer, accountBalance (.mAccount 0) r.2.1)) =
        .ok (.success, algosBuffer, (.success, some (-1294967296))) := by decide +kernel
  refine ⟨decode_eq_some_iff.mp (by rfl), hrun, fun hkeeps => ?_⟩
  obtain ⟨⟨code, accounts', p'⟩, hupdate, hseen⟩ := map_eq_ok hrun
  simp only [Prod.mk.injEq] at hseen
  obtain ⟨rfl, -, hbalance⟩ := hseen
  obtain ⟨balance, hkept, hnumber⟩ := hkeeps accounts' p' hupdate (.algo 3000000000) List.mem_cons_self
  rw [hbalance] at hkept
  cases hkept
  exact absurd hnumber (by decide)

end Vertices
