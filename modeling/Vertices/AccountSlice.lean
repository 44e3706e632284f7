/-
# `Vertices.AccountSlice` — what a byte slice does to the account

After a byte slice the parser is at a step from which the ends of maps lead to the root.
Only the key `appl` opens the applications again, and it has been read; so, unless a name
or a byte slice happens to spell it, `app_idx` stays where it is, short of the
application that holds the slice.
-/
import Mathlib.Data.List.Nodup
import Vertices.AccountExtraction

namespace Vertices

open MsgPack

/-! ## Steps outside the applications -/

/-- The steps from which `finish_map` leads to the root, and no integer into an
application. -/
def ParserAccountStep.Outside : ParserAccountStep → Prop
  | .root | .algo | .ebase | .ern | .tsch | .tschNui | .appKvValueSlice => True
  | _ => False

/-- `string_element` at the root takes `s` for the key `appl`. -/
def TakenForAppl (s : List UInt8) : Prop := matchKey s s.length rootKeys = some .appl

/-- Fewer than `n` applications are counted, and the step is outside them. -/
def Short (n : Nat) (s : AccountParser) : Prop := s.account.appIdx < n ∧ s.step.Outside

/-- A key leads outside the applications when all the keys looked up do, or when it is
known not to be the one that does not. -/
theorem lookupKey_short {n : Nat} {s : AccountParser} {data : List UInt8}
    {keys : List (String × ParserAccountStep)} {unknown : RetCode} (hs : Short n s)
    (hkeys : ∀ step, matchKey data data.length keys = some step → step.Outside) :
    ∃ err s', lookupKey s (some data) data.length keys unknown = .ok (err, s') ∧ Short n s' := by
  cases hm : matchKey data data.length keys with
  | none => exact ⟨unknown, s, by simp only [lookupKey, hm]; rfl, hs⟩
  | some step => exact ⟨.success, s.goto step, lookupKey_known hm, hs.1, hkeys step hm⟩

/-- The callbacks never count an application from there. -/
theorem callbacksKeep_short (n : Nat) :
    CallbacksKeep accountCallbacks (fun s => ¬ TakenForAppl s) (Short n) where
  nilElement _ := rfl
  boolElement _ _ := rfl
  intElement _ _ := rfl
  startArray _ _ := rfl
  finishArray _ := rfl
  uintElement {ctx} value hs := by
    obtain ⟨step, acc⟩ := ctx
    obtain ⟨hidx, hout⟩ := hs
    cases step with
    | root | algo | ebase | ern | tsch | tschNui | appKvValueSlice =>
        exact ⟨_, _, rfl, hidx, trivial⟩
    | _ => exact hout.elim
  stringElement {ctx s} hS hs := by
    obtain ⟨step, acc⟩ := ctx
    obtain ⟨hidx, hout⟩ := hs
    cases step with
    | root =>
        refine lookupKey_short ⟨hidx, trivial⟩ fun step hm => ?_
        have hmem := matchKey_mem hm
        simp only [rootKeys, List.map_cons, List.map_nil, List.mem_cons, List.not_mem_nil,
          or_false] at hmem
        rcases hmem with rfl | rfl | rfl | rfl | rfl
        case inr.inl => exact absurd hm hS
        all_goals trivial
    | tsch =>
        refine lookupKey_short ⟨hidx, trivial⟩ fun step hm => ?_
        have hmem := matchKey_mem hm
        rw [tschKeys, List.map_singleton, List.mem_singleton] at hmem
        rw [hmem]
        trivial
    | algo | ebase | ern | tschNui | appKvValueSlice => exact ⟨_, _, rfl, hidx, trivial⟩
    | _ => exact hout.elim
  startMap _ _ := rfl
  finishMap {ctx} hs := by
    obtain ⟨step, acc⟩ := ctx
    obtain ⟨hidx, hout⟩ := hs
    cases step with
    | root | algo | ebase | ern | tsch | tschNui | appKvValueSlice =>
        exact ⟨_, _, rfl, hidx, trivial⟩
    | _ => exact hout.elim

/-! ## Values that do not spell `appl` -/

/-- Neither the name nor the byte slice is taken for `appl`. -/
def Variable.Plain (v : Variable) : Prop :=
  ¬ TakenForAppl v.name ∧ ∀ tb binary, v.value = .slice tb binary → ¬ TakenForAppl tb

/-- `StringsIn`, for the strings not taken for `appl`. -/
abbrev PlainValue : Value → Prop := StringsIn fun s => ¬ TakenForAppl s

instance (s : List UInt8) : Decidable (TakenForAppl s) :=
  inferInstanceAs (Decidable (_ = _))

/-- The keys inside an account's entries, and those of the other entries. -/
def innerKeys : List String :=
  ["nui", "nbs", "tt", "ui", "tb", "hsch", "tkv", "algo", "ebase", "ern", "tsch"]

theorem innerKeys_plain : ∀ key ∈ innerKeys, ¬ TakenForAppl (lit key) := by decide

/-- Pairs of such values, one after the other. -/
theorem stringsIn_flatten {S : List UInt8 → Prop} {α : Type} {entry : α → Value × Value} :
    ∀ {l : List α}, (∀ a ∈ l, StringsIn S (entry a).1 ∧ StringsIn S (entry a).2) →
      ∀ v ∈ flatten (l.map entry), StringsIn S v := by
  intro l
  induction l with
  | nil =>
      intro _ v hv
      exact absurd hv List.not_mem_nil
  | cons a l ih =>
      intro h v hv
      rw [List.map_cons, flatten, List.mem_cons, List.mem_cons] at hv
      rcases hv with rfl | rfl | hv
      · exact (h a List.mem_cons_self).1
      · exact (h a List.mem_cons_self).2
      · exact ih (fun b hb => h b (List.mem_cons_of_mem _ hb)) v hv

section Strings

variable {S : List UInt8 → Prop} (hS : ∀ key ∈ innerKeys, S (lit key))

/-- The name and the byte slice satisfy `S`. -/
def Variable.In (S : List UInt8 → Prop) (v : Variable) : Prop :=
  S v.name ∧ ∀ tb binary, v.value = .slice tb binary → S tb

theorem Variable.In.slice {v : Variable} {tb : List UInt8} {binary : Bool} (h : v.In S)
    (hv : v.value = .slice tb binary) : StringsIn S (if binary then .bin tb else .str tb) := by
  split
  · exact .bin tb
  · exact .str (h.2 tb binary hv)

include hS

theorem stringsIn_key (key : String) (hkey : key ∈ innerKeys) : StringsIn S (.str (lit key)) :=
  .str (hS key hkey)

theorem stringsIn_schema (schema : Schema) : StringsIn S schema.value := by
  refine .map (stringsIn_flatten fun kv _ => ⟨?_, .uint _⟩)
  cases kv.1 with
  | nui => exact stringsIn_key hS "nui" (by decide)
  | nbs => exact stringsIn_key hS "nbs" (by decide)

theorem Variable.In.value {v : Variable} (h : v.In S) :
    StringsIn S v.value.pair.1 ∧ StringsIn S v.value.pair.2 := by
  cases hv : v.value with
  | int ui => exact ⟨stringsIn_key hS "ui" (by decide), .uint _⟩
  | slice tb binary => exact ⟨stringsIn_key hS "tb" (by decide), h.slice hv⟩

theorem Variable.In.entry {v : Variable} (h : v.In S) :
    StringsIn S v.entry.1 ∧ StringsIn S v.entry.2 := by
  have htype : StringsIn S v.typePair.1 ∧ StringsIn S v.typePair.2 :=
    ⟨stringsIn_key hS "tt" (by decide), .uint _⟩
  refine ⟨.str h.1, .map fun w hw => ?_⟩
  rw [Variable.pairs] at hw
  split at hw
  all_goals
    simp only [flatten, List.mem_cons, List.not_mem_nil, or_false] at hw
    rcases hw with rfl | rfl | rfl | rfl
  exacts [htype.1, htype.2, (h.value hS).1, (h.value hS).2, (h.value hS).1, (h.value hS).2,
    htype.1, htype.2]

theorem stringsIn_schemaPairs (state : LocalState) :
    ∀ v ∈ flatten state.schemaPairs, StringsIn S v := by
  intro v hv
  rw [LocalState.schemaPairs] at hv
  cases hs : state.hsch with
  | none =>
      rw [hs] at hv
      exact absurd hv List.not_mem_nil
  | some schema =>
      rw [hs] at hv
      simp only [Option.map_some, Option.toList_some, flatten, List.mem_cons, List.not_mem_nil,
        or_false] at hv
      rcases hv with rfl | rfl
      · exact stringsIn_key hS "hsch" (by decide)
      · exact stringsIn_schema hS schema

theorem stringsIn_variablePairs {state : LocalState} (h : ∀ v ∈ state.vars, v.In S) :
    ∀ v ∈ flatten state.variablePairs, StringsIn S v := by
  intro v hv
  rw [LocalState.variablePairs] at hv
  rw [LocalState.vars] at h
  cases hs : state.tkv with
  | none =>
      rw [hs] at hv
      exact absurd hv List.not_mem_nil
  | some vars =>
      rw [hs] at hv h
      simp only [Option.map_some, Option.toList_some, flatten, List.mem_cons, List.not_mem_nil,
        or_false] at hv
      rcases hv with rfl | rfl
      · exact stringsIn_key hS "tkv" (by decide)
      · exact .map (stringsIn_flatten fun w hw => (h w hw).entry hS)

theorem stringsIn_localState {state : LocalState} (h : ∀ v ∈ state.vars, v.In S) :
    StringsIn S state.entry.1 ∧ StringsIn S state.entry.2 := by
  refine ⟨.uint _, .map fun w hw => ?_⟩
  rw [LocalState.pairs] at hw
  split at hw
  all_goals
    rw [flatten_append] at hw
    rcases List.mem_append.mp hw with hw | hw
  exacts [stringsIn_schemaPairs hS state w hw, stringsIn_variablePairs hS h w hw,
    stringsIn_variablePairs hS h w hw, stringsIn_schemaPairs hS state w hw]

theorem stringsIn_otherField (f : OtherField) :
    StringsIn S f.entry.1 ∧ StringsIn S f.entry.2 := by
  cases f with
  | algo _ => exact ⟨stringsIn_key hS "algo" (by decide), .uint _⟩
  | ebase _ => exact ⟨stringsIn_key hS "ebase" (by decide), .uint _⟩
  | ern _ => exact ⟨stringsIn_key hS "ern" (by decide), .uint _⟩
  | tsch schema => exact ⟨stringsIn_key hS "tsch" (by decide), stringsIn_schema hS schema⟩

end Strings

theorem plain_app {app : App} (h : ∀ v ∈ app.vars, v.Plain) :
    PlainValue app.entry.1 ∧ PlainValue app.entry.2 := by
  have hstate : PlainValue app.toLocalState.entry.1 ∧ PlainValue app.toLocalState.entry.2 :=
    stringsIn_localState innerKeys_plain h
  exact hstate

/-- A field other than the applications. -/
theorem plain_field {f : Field} (hf : f.key ≠ "appl") :
    PlainValue f.entry.1 ∧ PlainValue f.entry.2 := by
  cases f with
  | algo _ => exact ⟨stringsIn_key innerKeys_plain "algo" (by decide), .uint _⟩
  | ebase _ => exact ⟨stringsIn_key innerKeys_plain "ebase" (by decide), .uint _⟩
  | ern _ => exact ⟨stringsIn_key innerKeys_plain "ern" (by decide), .uint _⟩
  | tsch schema => exact stringsIn_otherField innerKeys_plain (.tsch schema)
  | appl _ => exact absurd rfl hf

/-! ## Straying -/

/-- The first element of a list without `p`. -/
theorem exists_first {α : Type} {p : α → Prop} {l : List α} (h : ∃ a ∈ l, ¬ p a) :
    ∃ l₁ a l₂, l = l₁ ++ a :: l₂ ∧ (∀ b ∈ l₁, p b) ∧ ¬ p a := by
  classical
  have hsome : (l.find? fun a => ¬ p a).isSome := List.find?_isSome.mpr (by simpa using h)
  obtain ⟨a, ha⟩ := Option.isSome_iff_exists.mp hsome
  obtain ⟨hpa, l₁, l₂, rfl, hbefore⟩ := List.find?_eq_some_iff_append.mp ha
  exact ⟨l₁, a, l₂, rfl, fun b hb => by simpa using hbefore b hb, by simpa using hpa⟩

theorem Variable.eq_slice {v : Variable} (h : ¬ v.IsInt) : ∃ tb binary, v.value = .slice tb binary := by
  cases hv : v.value with
  | int ui => exact absurd ⟨ui, hv⟩ h
  | slice tb binary => exact ⟨tb, binary, rfl⟩

section Strays

variable {R : MpackReader} (hR : R.Lawful) {levels n : Nat}

/-- `Strays`, towards fewer than `n` applications. -/
abbrev StraysShort (R : MpackReader) (levels n : Nat) (v : Value) (ctx : AccountParser) : Prop :=
  Strays R accountCallbacks (fun s => ¬ TakenForAppl s) (Short n) levels v ctx

include hR

/-- After the key of a byte slice the step is outside. -/
theorem strays_variable {a : AccountDetails} {done : List AppsLocalState} {id : UInt64}
    {kvs : List AppKeyValue} {kv : AppKeyValue} {v : Variable} (hd : done.length < appsMaxCount)
    (hn : done.length < n) (hk : kvs.length < appsKvMaxCount) (hp : v.Plain) (hv : ¬ v.IsInt) :
    StraysShort R (levels + 2) n v.entry.2 (inVar .appKvVar a done id kvs kv) := by
  obtain ⟨tb, binary, hv⟩ := Variable.eq_slice hv
  have hkey : ∀ kv', Walks R accountCallbacks (levels + 1) (.str (lit "tb"))
      (inVar .appKvVar a done id kvs kv') (inVar .appKvValueSlice a done id kvs kv') := fun _ =>
    walks_key hR (by decide)
  have hslice : ∀ kv', StraysShort R (levels + 1) n (if binary then .bin tb else .str tb)
      (inVar .appKvValueSlice a done id kvs kv') := fun _ =>
    .of_stringsIn hR (callbacksKeep_short n) (Variable.In.slice hp hv) ⟨hn, trivial⟩
  rw [Variable.entry, Variable.pairs, hv]
  split
  · exact .map hR (callbacksKeep_short n) rfl (walks_type hR hd hk v) (hkey _) (hslice _)
      (List.forall_mem_nil _)
  · refine .map hR (callbacksKeep_short n) rfl .nil (hkey _) (hslice _) fun w hw => ?_
    simp only [Variable.typePair, flatten, List.mem_cons, List.not_mem_nil, or_false] at hw
    rcases hw with rfl | rfl
    · exact .str (by decide)
    · exact .uint _

theorem strays_variables {a : AccountDetails} {done : List AppsLocalState} {id : UInt64}
    {vars : List Variable} (hd : done.length < appsMaxCount) (hn : done.length < n)
    (hfew : vars.length ≤ appsKvMaxCount) (hp : ∀ v ∈ vars, v.Plain) (hv : ∃ v ∈ vars, ¬ v.IsInt) :
    StraysShort R (levels + 3) n (.map (vars.map Variable.entry)) (betweenVars a done id []) := by
  obtain ⟨before, v, after, rfl, hint, hv⟩ := exists_first hv
  rw [List.length_append, List.length_cons] at hfew
  have hlen : (([] : List AppKeyValue) ++ before.map Variable.stored).length < appsKvMaxCount := by
    rw [List.nil_append, List.length_map]
    omega
  have hbefore : WalksPairs R accountCallbacks (levels + 2) (before.map Variable.entry)
      (betweenVars a done id []) (betweenVars a done id ([] ++ before.map Variable.stored)) :=
    walks_variables hR hd (by rw [List.length_nil]; omega) hint
  have hname : Walks R accountCallbacks (levels + 2) (.str v.name)
      (betweenVars a done id ([] ++ before.map Variable.stored))
      (inVar .appKvVar a done id ([] ++ before.map Variable.stored)
        (named (a.slot done.length).keyValues.values[
          ([] ++ before.map Variable.stored : List AppKeyValue).length] v.name)) :=
    .str hR (stringElement_name hd hlen v.name)
  rw [List.map_append, List.map_cons]
  exact .map hR (callbacksKeep_short n) rfl hbefore hname
    (strays_variable hR hd hn hlen (hp v (by simp)) hv)
    (stringsIn_flatten fun w hw => Variable.In.entry innerKeys_plain (hp w (by simp [hw])))

theorem strays_app {a : AccountDetails} {done : List AppsLocalState} {app : App}
    (hd : done.length < appsMaxCount) (hn : done.length < n) (hp : ∀ v ∈ app.vars, v.Plain)
    (hv : ∃ v ∈ app.vars, ¬ v.IsInt) :
    StraysShort R (levels + 4) n app.entry.2
      (inApp .applId a done (slotWith (a.slot done.length) app.id 0 [])) := by
  have hfew := app.few
  rw [App.vars] at hp hv
  cases htkv : app.tkv with
  | none =>
      rw [htkv] at hv
      obtain ⟨v, hmem, _⟩ := hv
      exact absurd hmem List.not_mem_nil
  | some vars =>
      rw [htkv, Option.getD_some] at hfew hp hv
      have hkey : Walks R accountCallbacks (levels + 3) (.str (lit "tkv"))
          (inApp .applId a done (slotWith (a.slot done.length) app.id 0 []))
          (betweenVars a done app.id []) := walks_key hR (by decide)
      have hvars : StraysShort R (levels + 3) n (.map (vars.map Variable.entry))
          (betweenVars a done app.id []) := strays_variables hR hd hn hfew hp hv
      rw [App.entry, App.pairs, App.variablePairs, htkv]
      split
      · exact .map hR (callbacksKeep_short n) rfl (walks_schemaPairs hR app) hkey hvars
          (List.forall_mem_nil _)
      · exact .map hR (callbacksKeep_short n) rfl .nil hkey hvars
          (stringsIn_schemaPairs innerKeys_plain app.toLocalState)

theorem strays_apps {a : AccountDetails} {apps : List App} (ha : a.ClearFor apps.length)
    (hfew : apps.length ≤ appsMaxCount) (hn : apps.length ≤ n)
    (hp : ∀ app ∈ apps, ∀ v ∈ app.vars, v.Plain) (hv : ∃ app ∈ apps, ∃ v ∈ app.vars, ¬ v.IsInt) :
    StraysShort R (levels + 5) n (.map (apps.map App.entry)) (betweenApps a []) := by
  have hv' : ∃ app ∈ apps, ¬ ∀ v ∈ app.vars, v.IsInt := by
    obtain ⟨app, happ, v, hmem, hint⟩ := hv
    exact ⟨app, happ, fun hall => hint (hall v hmem)⟩
  obtain ⟨before, app, after, rfl, hint, happ⟩ := exists_first hv'
  have hzero := ha.count
  rw [List.length_append, List.length_cons] at hfew hn hzero
  have hlen : (appSlots a.slot 0 before).length = before.length := length_appSlots _ _ _
  have hbefore : WalksPairs R accountCallbacks (levels + 4) (before.map App.entry)
      (betweenApps a []) (betweenApps a ([] ++ appSlots a.slot 0 before)) := by
    refine walks_apps hR (by rw [List.length_nil]; omega) (fun i hi => ?_) hint
    rw [List.length_nil, Nat.zero_add]
    exact hzero i (by omega)
  rw [List.nil_append] at hbefore
  have hid : Walks R accountCallbacks (levels + 4) (.uint app.id.toNat)
      (betweenApps a (appSlots a.slot 0 before))
      (inApp .applId a (appSlots a.slot 0 before)
        (slotWith (a.slot (appSlots a.slot 0 before).length) app.id 0 [])) :=
    walks_uint hR app.id (uintElement_id (by omega) (hzero _ (by omega)) app.id)
  have hslice : ∃ v ∈ app.vars, ¬ v.IsInt := by
    by_contra hall
    exact happ fun v hmem => by_contra fun h => hall ⟨v, hmem, h⟩
  rw [List.map_append, List.map_cons]
  exact .map hR (callbacksKeep_short n) rfl hbefore hid
    (strays_app hR (by omega) (by omega) (hp app (by simp)) hslice)
    (stringsIn_flatten fun b hb => plain_app (hp b (by simp [hb])))

end Strays

/-- The parser on an account with a byte slice. -/
theorem parserAccountMpack_slice {R : MpackReader} (hR : R.Lawful) {before after : List Field}
    {apps : Apps} (hkeys : ((before ++ .appl apps :: after).map Field.key).Nodup)
    (hp : ∀ app ∈ apps.list, ∀ v ∈ app.vars, v.Plain)
    (hv : ∃ app ∈ apps.list, ∃ v ∈ app.vars, ¬ v.IsInt) {buf rest : List UInt8}
    (hbuf : Reads buf [.map ((before ++ .appl apps :: after).map Field.entry)] rest) :
    ∃ err details, parserAccountMpack R buf .zero = .ok (err, details) ∧
      details.appIdx < apps.list.length := by
  rw [List.map_append, List.map_cons, List.nodup_append] at hkeys
  obtain ⟨hbefore, hafter, hdisjoint⟩ := hkeys
  have hbefore' : ∀ f ∈ before, f.key ≠ "appl" := fun f hf =>
    hdisjoint f.key (List.mem_map_of_mem hf) "appl" List.mem_cons_self
  have hafter' : ∀ f ∈ after, f.key ≠ "appl" := fun f hf he =>
    (List.nodup_cons.mp hafter).1 (show "appl" ∈ _ from he ▸ List.mem_map_of_mem hf)
  have hints : ∀ f ∈ before, f.IntsOnly := by
    intro f hf
    cases f with
    | appl _ => exact absurd rfl (hbefore' _ hf)
    | _ => trivial
  have hclear : (before.foldl Field.store AccountDetails.zero).ClearFor apps.list.length :=
    .foldl (AccountDetails.clearFor_zero _) hbefore'
  have hfields : WalksPairs R accountCallbacks 31 (before.map Field.entry) ⟨.root, .zero⟩
      ⟨.root, before.foldl Field.store .zero⟩ :=
    walks_fields hR hbefore hints fun f _ => f.clearIn_zero
  have hkey : Walks R accountCallbacks 31 (.str (lit "appl"))
      ⟨.root, before.foldl Field.store .zero⟩ ⟨.appl, before.foldl Field.store .zero⟩ :=
    walks_key hR (by decide)
  rw [hclear.betweenApps] at hkey
  have happs : StraysShort R 31 apps.list.length (.map (apps.list.map App.entry))
      (betweenApps (before.foldl Field.store .zero) []) := strays_apps hR hclear apps.few le_rfl hp hv
  have hroot : StraysShort R 32 apps.list.length
      (.map (before.map Field.entry ++ Field.entry (.appl apps) :: after.map Field.entry))
      ⟨.root, .zero⟩ :=
    .map hR (callbacksKeep_short _) rfl hfields hkey happs
      (stringsIn_flatten fun f hf => plain_field (hafter' f hf))
  rw [List.map_append, List.map_cons] at hbuf
  obtain ⟨err, reader, s, hparse, hshort, _⟩ :=
    hroot 0 buf [] rest hbuf (Nat.zero_le _) (List.forall_mem_nil _)
  refine ⟨err, s.account, ?_, hshort.1⟩
  rw [parserAccountMpack, mpackReaderInitData, hparse]
  rfl

/-! ## The extraction -/

/-- `parser_account_mpack` on a zeroed record succeeds and takes over `acc`. -/
def Extracts (R : MpackReader) (acc : AccountMap) (buf : List UInt8) : Prop :=
  ∃ details, parserAccountMpack R buf .zero = .ok (.success, details) ∧ Extracted acc details

/-- No name and no byte slice is taken for `appl`. -/
def AccountMap.Plain (acc : AccountMap) : Prop := ∀ app ∈ acc.apps, ∀ v ∈ app.vars, v.Plain

/-- The applications are those of the field `appl`, if there is one. -/
theorem AccountMap.apps_of_mem {acc : AccountMap} {apps : Apps} (h : .appl apps ∈ acc.fields) :
    acc.apps = apps.list := by
  rw [AccountMap.apps]
  cases hf : acc.fields.findSome? Field.appl? with
  | none =>
      have hpick : Field.appl? (.appl apps) = none := List.findSome?_eq_none_iff.mp hf _ h
      cases hpick
  | some l =>
      obtain ⟨f, hmem, hpick⟩ := List.exists_of_findSome?_eq_some hf
      cases f with
      | appl apps' =>
          have heq : Field.appl apps' = .appl apps :=
            List.inj_on_of_nodup_map acc.distinct hmem h rfl
          cases heq
          exact (Option.some.inj hpick).symm
      | _ => cases hpick

theorem AccountMap.fields_of_mem {acc : AccountMap} {app : App} (h : app ∈ acc.apps) :
    ∃ before apps after, acc.fields = before ++ .appl apps :: after ∧ acc.apps = apps.list := by
  cases hf : acc.fields.findSome? Field.appl? with
  | none =>
      rw [AccountMap.apps, hf] at h
      exact absurd h List.not_mem_nil
  | some l =>
      obtain ⟨f, hmem, hpick⟩ := List.exists_of_findSome?_eq_some hf
      cases f with
      | appl apps =>
          obtain ⟨before, after, hfields⟩ := List.append_of_mem hmem
          exact ⟨before, apps, after, hfields, AccountMap.apps_of_mem hmem⟩
      | _ => cases hpick

theorem AccountMap.hasSlice_iff {acc : AccountMap} :
    acc.HasSlice ↔ ∃ app ∈ acc.apps, ∃ v ∈ app.vars, ¬ v.IsInt := by
  constructor
  · rintro ⟨app, happ, v, hv, tb, binary, hval⟩
    refine ⟨app, happ, v, hv, ?_⟩
    rintro ⟨ui, hint⟩
    rw [hval] at hint
    exact nomatch hint
  · rintro ⟨app, happ, v, hv, hint⟩
    exact ⟨app, happ, v, hv, Variable.eq_slice hint⟩

/-- **The account is extracted when it has no byte slice.**  With one, and unless a name
or a byte slice is taken for `appl`, it is not. -/
theorem account_extracted_iff {R : MpackReader} (hR : R.Lawful) (acc : AccountMap)
    {buf rest : List UInt8} (hbuf : Reads buf [acc.value] rest) :
    (¬ acc.HasSlice → Extracts R acc buf) ∧
      (acc.Plain → (Extracts R acc buf ↔ ¬ acc.HasSlice)) := by
  have hints : ¬ acc.HasSlice → Extracts R acc buf := by
    intro hno
    have hint : ∀ app ∈ acc.apps, ∀ v ∈ app.vars, v.IsInt := fun app happ v hv =>
      by_contra fun h => hno (AccountMap.hasSlice_iff.mpr ⟨app, happ, v, hv, h⟩)
    have hfields : ∀ f ∈ acc.fields, f.IntsOnly := by
      intro f hf
      cases f with
      | appl apps =>
          rw [AccountMap.apps_of_mem hf] at hint
          exact hint
      | _ => trivial
    exact ⟨_, parserAccountMpack_ints hR hfields hbuf fun f _ => f.clearIn_zero,
      extracted_store hint⟩
  refine ⟨hints, fun hplain => ⟨?_, hints⟩⟩
  rintro ⟨details, hparse, hext⟩ hslice
  obtain ⟨app, happ, hv⟩ := AccountMap.hasSlice_iff.mp hslice
  obtain ⟨before, apps, after, hfields, happs⟩ := AccountMap.fields_of_mem happ
  have hkeys := acc.distinct
  have hidx := hext.appIdx
  rw [AccountMap.Plain] at hplain
  rw [AccountMap.value] at hbuf
  rw [hfields] at hkeys hbuf
  rw [happs] at happ hplain hidx
  obtain ⟨err, details', hparse', hshort⟩ :=
    parserAccountMpack_slice hR hkeys hplain ⟨app, happ, hv⟩ hbuf
  rw [hparse, Except.ok.injEq, Prod.mk.injEq] at hparse'
  rw [← hparse'.2, hidx] at hshort
  exact absurd hshort (Nat.lt_irrefl _)

/-- An account with an amount and one integer variable. -/
def intAccount : AccountMap where
  fields := [.algo 5, .appl ⟨[{
    id := 7, hsch := none, tkv := some [⟨lit "k", 2, .int 9, true⟩], schemaFirst := true,
    few := by decide }], by decide⟩]
  distinct := by decide

def intBuffer : List UInt8 :=
  [0x82, 0xa4] ++ lit "algo" ++ [0x05, 0xa4] ++ lit "appl" ++ [0x81, 0x07, 0x81, 0xa3] ++ lit "tkv" ++
    [0x81, 0xa1] ++ lit "k" ++ [0x82, 0xa2] ++ lit "tt" ++ [0x02, 0xa2] ++ lit "ui" ++ [0x09]

theorem intAccount_noSlice : ¬ intAccount.HasSlice := by
  rintro ⟨app, happ, v, hv, tb, binary, hval⟩
  cases List.mem_singleton.mp happ
  cases List.mem_singleton.mp hv
  exact nomatch hval

theorem account_extracted_iff_one_integer :
    Reads intBuffer [intAccount.value] [] ∧ Extracts formatReader intAccount intBuffer := by
  have hreads : Reads intBuffer [intAccount.value] [] := decode_eq_some_iff.mp (by rfl)
  exact ⟨hreads, (account_extracted_iff formatReader_lawful intAccount hreads).1 intAccount_noSlice⟩

/-- An application with the byte slice "v" under the name "k". -/
def sliceAccount : AccountMap where
  fields := [.appl ⟨[{
    id := 7, hsch := none, tkv := some [⟨lit "k", 1, .slice (lit "v") false, false⟩],
    schemaFirst := true, few := by decide }], by decide⟩]
  distinct := by decide

def sliceBuffer : List UInt8 :=
  [0x81, 0xa4] ++ lit "appl" ++ [0x81, 0x07, 0x81, 0xa3] ++ lit "tkv" ++ [0x81, 0xa1] ++ lit "k" ++
    [0x82, 0xa2] ++ lit "tb" ++ [0xa1] ++ lit "v" ++ [0xa2] ++ lit "tt" ++ [0x01]

/-- The call succeeds; neither the variable nor the application is counted. -/
theorem slice_account_lost :
    formatReader.Lawful ∧ Reads sliceBuffer [sliceAccount.value] [] ∧
      (∃ details, parserAccountMpack formatReader sliceBuffer .zero = .ok (.success, details) ∧
        details.appIdx = 0 ∧ details.appsLocal[0].keyValues.count = 0) ∧
      ¬ Extracts formatReader sliceAccount sliceBuffer := by
  have hrun : (parserAccountMpack formatReader sliceBuffer .zero).map
      (fun r => (r.1, r.2.appIdx, r.2.appsLocal[0].keyValues.count)) = .ok (.success, 0, 0) := by
    decide +kernel
  cases hp : parserAccountMpack formatReader sliceBuffer .zero with
  | error e =>
      rw [hp] at hrun
      exact nomatch hrun
  | ok r =>
      obtain ⟨err, details⟩ := r
      rw [hp] at hrun
      simp only [Except.map, Except.ok.injEq, Prod.mk.injEq] at hrun
      obtain ⟨rfl, hidx, hcount⟩ := hrun
      refine ⟨formatReader_lawful, decode_eq_some_iff.mp (by rfl), ⟨details, rfl, hidx, hcount⟩, ?_⟩
      rintro ⟨details', hp', hext⟩
      rw [hp, Except.ok.injEq, Prod.mk.injEq] at hp'
      have hlen := hext.appIdx
      rw [← hp'.2, hidx] at hlen
      exact absurd hlen (by decide)

end Vertices
