/-
# `Vertices.UnknownFields` — a field the parser does not know

At a key that `string_element` does not know, the loop over the account's map ends.  The
pair is skipped, and with it every pair behind it; the code is that of `finish_map`, so
nobody hears of it.  A key is compared over its own length only, so the start of a known
one is taken for it, and its value for that one's.

    `Entry`                        a pair of the account's map, known or not
    `readFields`                   the fields in front of the first pair that is not known
    `parserAccountMpack_walked`    these are stored, and nothing else is
    `RootField.Shows`              the record says already what the field says
    `NewPair.Harmless`             when a pair that is put in changes nothing
-/
import Vertices.AccountRefresh

namespace Vertices

open MsgPack

/-! ## Fields -/

/-- What an entry other than the applications leaves in the record. -/
def OtherField.store (d : AccountDetails) : OtherField → AccountDetails
  | .algo n => { d with info := { d.info with amount := uint64ToInt32 n } }
  | .ebase n => { d with rewardBase := uint64ToInt32 n }
  | .ern n => { d with rewards := uint64ToInt32 n }
  | .tsch _ => d

/-- The entries of `apps_local` that are taken. -/
def AccountDetails.taken (d : AccountDetails) : List AppsLocalState := d.appsLocal.toList.take d.appIdx

theorem table_toList_take {α : Type} {n : Nat} (old : Vector α n) (k : Nat) :
    table old (old.toList.take k) = old := by
  apply Vector.ext
  intro i hi
  rw [table, Vector.getElem_ofFn, List.getD_eq_getElem?_getD, List.getElem?_take]
  split
  · rw [List.getElem?_eq_getElem (by rw [Vector.length_toList]; exact hi), Vector.getElem_toList]
    rfl
  · rfl

/-- There are entries for `n` more applications, and no variable is counted there. -/
structure AccountDetails.RoomFor (n : Nat) (d : AccountDetails) : Prop where
  room : d.appIdx + n ≤ appsMaxCount
  count : ∀ i < n, (d.slot (d.appIdx + i)).keyValues.count = 0

theorem AccountDetails.RoomFor.length_taken {n : Nat} {d : AccountDetails} (h : d.RoomFor n) :
    d.taken.length = d.appIdx := by
  have hroom := h.room
  rw [AccountDetails.taken, List.length_take, Vector.length_toList]
  omega

/-- The next application comes behind those taken. -/
theorem AccountDetails.RoomFor.betweenApps {n : Nat} {d : AccountDetails} (h : d.RoomFor n) :
    (⟨.appl, d⟩ : AccountParser) = betweenApps d d.taken := by
  rw [Vertices.betweenApps, withApps, h.length_taken, AccountDetails.taken, table_toList_take]

/-- The step at which the entry's value is parsed. -/
def OtherField.step : OtherField → ParserAccountStep
  | .algo _ => .algo
  | .ebase _ => .ebase
  | .ern _ => .ern
  | .tsch _ => .tsch

/-- An entry of the account's map, the numbers of any size. -/
inductive RootField where
  | other (f : OtherField)
  | appl (apps : Apps)

namespace RootField

def key : RootField → String
  | .other (.algo _) => "algo"
  | .other (.ebase _) => "ebase"
  | .other (.ern _) => "ern"
  | .other (.tsch _) => "tsch"
  | .appl _ => "appl"

def entry : RootField → Value × Value
  | .other f => f.entry
  | .appl apps => Field.entry (.appl apps)

/-- What the entry leaves in the record. -/
def store (d : AccountDetails) : RootField → AccountDetails
  | .other f => f.store d
  | .appl apps =>
      withApps d (d.appIdx + apps.list.length) (d.taken ++ appSlots d.slot d.appIdx apps.list)

def IntsOnly : RootField → Prop
  | .other _ => True
  | .appl apps => Field.IntsOnly (.appl apps)

/-- The record has room for the applications of the entry. -/
def ClearIn (d : AccountDetails) : RootField → Prop
  | .other _ => True
  | .appl apps => d.RoomFor apps.list.length

/-- The record says already what the entry says, and no application is added. -/
def Shows (d : AccountDetails) : RootField → Prop
  | .other (.algo n) => d.info.amount = uint64ToInt32 n
  | .other (.ebase n) => d.rewardBase = uint64ToInt32 n
  | .other (.ern n) => d.rewards = uint64ToInt32 n
  | .other (.tsch _) => True
  | .appl apps => apps.list = []

theorem shows_store (d : AccountDetails) (f : OtherField) : (RootField.other f).Shows (f.store d) := by
  cases f <;> trivial

/-- Another entry is stored elsewhere. -/
theorem shows_store_ne {d : AccountDetails} {f g : RootField} (h : f.key ≠ g.key) :
    g.Shows (f.store d) ↔ g.Shows d := by
  cases f with
  | other f =>
      cases g with
      | other g => cases f <;> cases g <;> first | exact Iff.rfl | exact absurd rfl h
      | appl _ => cases f <;> exact Iff.rfl
  | appl _ =>
      cases g with
      | other g => cases g <;> exact Iff.rfl
      | appl _ => exact absurd rfl h

theorem ClearIn.store_other {d : AccountDetails} {g : RootField} (f : OtherField)
    (h : g.ClearIn d) : g.ClearIn (f.store d) := by
  cases g with
  | other _ => trivial
  | appl _ => cases f <;> exact ⟨h.room, h.count⟩

theorem ClearIn.store {d : AccountDetails} {f g : RootField} (hne : f.key ≠ g.key)
    (h : g.ClearIn d) : g.ClearIn (f.store d) := by
  cases f with
  | other f => exact h.store_other f
  | appl _ =>
      cases g with
      | other _ => trivial
      | appl _ => exact absurd rfl hne

/-- What an entry says, the last one with its key in front has said, or the record. -/
theorem shows_store_congr {f g : RootField} (h : g.key = f.key) (d d' : AccountDetails) :
    f.Shows (g.store d) ↔ f.Shows (g.store d') := by
  cases f with
  | other f =>
      cases g with
      | other g =>
          cases f <;> cases g <;> first | exact Iff.rfl | simp [key] at h
      | appl _ => cases f <;> simp [key] at h
  | appl _ =>
      cases g with
      | other g => cases g <;> simp [key] at h
      | appl _ => exact Iff.rfl

/-- Where the record shows it, the entry changes nothing. -/
theorem store_of_shows {d : AccountDetails} {f : RootField} (h : f.Shows d) : f.store d = d := by
  cases f with
  | other f =>
      cases f with
      | algo n =>
          show { d with info := { d.info with amount := uint64ToInt32 n } } = d
          rw [← h]
      | ebase n =>
          show { d with rewardBase := uint64ToInt32 n } = d
          rw [← h]
      | ern n =>
          show { d with rewards := uint64ToInt32 n } = d
          rw [← h]
      | tsch _ => rfl
  | appl apps =>
      have hnil : apps.list = [] := h
      rw [store, hnil, appSlots, List.append_nil, withApps, AccountDetails.taken, table_toList_take]
      rfl

/-- Only what a response decides is looked at. -/
theorem shows_congr {d d' : AccountDetails} (h : d.parsed = d'.parsed) (f : RootField) :
    f.Shows d ↔ f.Shows d' := by
  have hamount : d.info.amount = d'.info.amount := congrArg ParsedFields.amount h
  have hbase : d.rewardBase = d'.rewardBase := congrArg ParsedFields.rewardBase h
  have hrewards : d.rewards = d'.rewards := congrArg ParsedFields.rewards h
  cases f with
  | other f =>
      cases f with
      | algo n => exact iff_of_eq (congrArg (· = _) hamount)
      | ebase n => exact iff_of_eq (congrArg (· = _) hbase)
      | ern n => exact iff_of_eq (congrArg (· = _) hrewards)
      | tsch _ => exact Iff.rfl
  | appl _ => exact Iff.rfl

/-- Of two entries with one key the second is stored. -/
theorem store_store_same {f : OtherField} {g : RootField} (h : g.key = (RootField.other f).key)
    (d : AccountDetails) : g.store (f.store d) = g.store d := by
  cases g with
  | other g => cases f <;> cases g <;> first | rfl | simp [key] at h
  | appl _ => cases f <;> simp [key] at h

theorem store_store_comm {f : OtherField} {g : RootField} (h : g.key ≠ (RootField.other f).key)
    (d : AccountDetails) : g.store (f.store d) = f.store (g.store d) := by
  cases g with
  | other g => cases f <;> cases g <;> first | rfl | exact absurd rfl h
  | appl _ => cases f <;> rfl

/-! ## Fields one after the other -/

/-- Entries with other keys. -/
theorem shows_foldl_ne {g : RootField} : ∀ {fields : List RootField} {d : AccountDetails},
    (∀ f ∈ fields, f.key ≠ g.key) → (g.Shows (fields.foldl store d) ↔ g.Shows d) := by
  intro fields
  induction fields with
  | nil => exact fun _ => Iff.rfl
  | cons f fields ih =>
      intro d hne
      rw [List.forall_mem_cons] at hne
      rw [List.foldl_cons, ih hne.2, shows_store_ne hne.1]

theorem clearIn_foldl {g : RootField} : ∀ {fields : List RootField} {d : AccountDetails},
    (∀ f ∈ fields, f.key ≠ g.key) → g.ClearIn d → g.ClearIn (fields.foldl store d) := by
  intro fields
  induction fields with
  | nil => exact fun _ h => h
  | cons f fields ih =>
      intro d hne h
      rw [List.forall_mem_cons] at hne
      exact ih hne.2 (h.store hne.1)

/-- After the response the record shows what it says of numbers. -/
theorem shows_foldl {fields : List RootField} (hdistinct : (fields.map key).Nodup)
    (d : AccountDetails) {f : OtherField} (hf : .other f ∈ fields) :
    (RootField.other f).Shows (fields.foldl store d) := by
  obtain ⟨before, after, rfl⟩ := List.append_of_mem hf
  rw [List.map_append, List.map_cons, List.nodup_append] at hdistinct
  rw [List.foldl_append, List.foldl_cons]
  refine (shows_foldl_ne fun g hg he => ?_).mpr (shows_store _ f)
  exact (List.nodup_cons.mp hdistinct.2.1).1 (he ▸ List.mem_map_of_mem hg)

theorem appIdx_store_le (d : AccountDetails) (f : RootField) : d.appIdx ≤ (f.store d).appIdx := by
  cases f with
  | other f => cases f <;> exact le_rfl
  | appl _ => exact Nat.le_add_right _ _

theorem appIdx_foldl_le (fields : List RootField) (d : AccountDetails) :
    d.appIdx ≤ (fields.foldl store d).appIdx := by
  induction fields generalizing d with
  | nil => exact le_rfl
  | cons f fields ih => exact (appIdx_store_le d f).trans (ih _)

/-- The applications of a response are counted. -/
theorem appIdx_foldl_of_mem {fields : List RootField} {apps : Apps} (h : .appl apps ∈ fields)
    (d : AccountDetails) : d.appIdx + apps.list.length ≤ (fields.foldl store d).appIdx := by
  obtain ⟨before, after, rfl⟩ := List.append_of_mem h
  rw [List.foldl_append, List.foldl_cons]
  have hbefore := appIdx_foldl_le before d
  have hafter := appIdx_foldl_le after ((RootField.appl apps).store (before.foldl store d))
  have hcounted : ((RootField.appl apps).store (before.foldl store d)).appIdx =
      (before.foldl store d).appIdx + apps.list.length := rfl
  omega

/-- The record after `before` says what `f` says: the entry with its key does, or the record
did and there is none. -/
def Said (before : List RootField) (d : AccountDetails) (f : RootField) : Prop :=
  (∀ g ∈ before, g.key = f.key → f.Shows (g.store d)) ∧
    ((∀ g ∈ before, g.key ≠ f.key) → f.Shows d)

theorem shows_foldl_iff {before : List RootField} (hdistinct : (before.map key).Nodup)
    (d : AccountDetails) (f : RootField) : f.Shows (before.foldl store d) ↔ Said before d f := by
  by_cases hnone : ∀ g ∈ before, g.key ≠ f.key
  · rw [shows_foldl_ne hnone]
    exact ⟨fun h => ⟨fun g hg hkey => absurd hkey (hnone g hg), fun _ => h⟩, fun h => h.2 hnone⟩
  · push Not at hnone
    obtain ⟨g, hg, hkey⟩ := hnone
    obtain ⟨front, behind, rfl⟩ := List.append_of_mem hg
    rw [List.map_append, List.map_cons, List.nodup_append] at hdistinct
    obtain ⟨-, hbehind, hfront⟩ := hdistinct
    have hne : ∀ g' ∈ behind, g'.key ≠ f.key := fun g' hg' he =>
      (List.nodup_cons.mp hbehind).1 (hkey.trans he.symm ▸ List.mem_map_of_mem hg')
    have honly : ∀ g' ∈ front ++ g :: behind, g'.key = f.key → g' = g := by
      intro g' hg' he
      rcases List.mem_append.mp hg' with hg' | hg'
      · exact absurd (he.trans hkey.symm)
          (hfront _ (List.mem_map_of_mem hg') _ List.mem_cons_self)
      · rcases List.mem_cons.mp hg' with rfl | hg'
        · rfl
        · exact absurd he (hne g' hg')
    rw [List.foldl_append, List.foldl_cons, shows_foldl_ne hne, shows_store_congr hkey _ d]
    exact ⟨fun h => ⟨fun g' hg' he => honly g' hg' he ▸ h, fun hall => absurd hkey (hall g hg)⟩,
      fun h => h.1 g hg hkey⟩

/-- A number that comes before another under its key is not seen again. -/
theorem foldl_store_of_mem {f : OtherField} : ∀ {after : List RootField} {d : AccountDetails},
    (∃ g ∈ after, g.key = (RootField.other f).key) →
      after.foldl store (f.store d) = after.foldl store d := by
  intro after
  induction after with
  | nil => exact fun h => absurd h (by simp)
  | cons g after ih =>
      intro d h
      rw [List.foldl_cons, List.foldl_cons]
      by_cases hkey : g.key = (RootField.other f).key
      · rw [store_store_same hkey]
      · rw [store_store_comm hkey]
        obtain ⟨g', hg', hkey'⟩ := h
        rcases List.mem_cons.mp hg' with rfl | hg'
        · exact absurd hkey' hkey
        · exact ih ⟨g', hg', hkey'⟩

theorem foldl_store_of_not_mem {f : OtherField} : ∀ {after : List RootField} {d : AccountDetails},
    (∀ g ∈ after, g.key ≠ (RootField.other f).key) →
      after.foldl store (f.store d) = f.store (after.foldl store d) := by
  intro after
  induction after with
  | nil => exact fun _ => rfl
  | cons g after ih =>
      intro d h
      rw [List.forall_mem_cons] at h
      rw [List.foldl_cons, List.foldl_cons, store_store_comm h.1, ih h.2]

theorem foldl_of_shows {fields : List RootField} {d : AccountDetails}
    (h : ∀ f ∈ fields, f.Shows d) : fields.foldl store d = d := by
  induction fields with
  | nil => rfl
  | cons f fields ih =>
      rw [List.forall_mem_cons] at h
      rw [List.foldl_cons, store_of_shows h.1, ih h.2]

end RootField

/-! ## Entries -/

/-- The key is compared over its own length: the start of a known key is taken for it, and so
is a known key with its end and something behind it. -/
def TakenForKnown (key : List UInt8) : Prop :=
  ∃ known ∈ rootKeys.map Prod.fst, key <+: lit known ∨ lit known ++ [0] <+: key

instance (key : List UInt8) : Decidable (TakenForKnown key) :=
  inferInstanceAs (Decidable (∃ known ∈ rootKeys.map Prod.fst, _ ∨ _))

/-- A key is known to the root map if and only if it is taken for one. -/
theorem matchKey_rootKeys_isSome_iff (key : List UInt8) :
    (matchKey key key.length rootKeys).isSome ↔ TakenForKnown key := by
  have hmatch : ∀ keys, (∀ k ∈ keys.map Prod.fst, 0 ∉ lit k) →
      ((matchKey key key.length keys).isSome ↔
        ∃ k ∈ keys.map Prod.fst, key <+: lit k ∨ lit k ++ [0] <+: key) := by
    intro keys
    induction keys with
    | nil => simp [matchKey]
    | cons entry keys ih =>
        intro hkeys
        rw [List.map_cons, List.forall_mem_cons] at hkeys
        rw [matchKey, List.map_cons, List.exists_mem_cons_iff, ← strncmpEq_length_iff hkeys.1]
        split
        · next h => exact iff_of_true rfl (.inl h)
        · next h => rw [ih hkeys.2, or_iff_right h]
  exact hmatch rootKeys (by decide)

/-- A pair whose key is not taken for a known one, with any value. -/
structure UnknownPair where
  key : List UInt8
  value : Value
  unknown : ¬ TakenForKnown key

theorem UnknownPair.matchKey_key (p : UnknownPair) : matchKey p.key p.key.length rootKeys = none :=
  Option.not_isSome_iff_eq_none.mp (mt (matchKey_rootKeys_isSome_iff p.key).mp p.unknown)

theorem UnknownPair.stringElement_key (p : UnknownPair) (d : AccountDetails) :
    stringElement ⟨.root, d⟩ (some p.key) p.key.length = .ok (.errorNotFound, ⟨.root, d⟩) := by
  show lookupKey _ (some p.key) p.key.length rootKeys _ = _
  simp only [lookupKey, p.matchKey_key]
  rfl

/-- A pair of the account's map. -/
inductive Entry where
  | field (f : RootField)
  | unknown (p : UnknownPair)

def Entry.pair : Entry → Value × Value
  | .field f => f.entry
  | .unknown p => (.str p.key, p.value)

/-- The fields in front of the first unknown pair. -/
def readFields : List Entry → List RootField
  | [] => []
  | .field f :: entries => f :: readFields entries
  | .unknown _ :: _ => []

/-- No pair is unknown. -/
def AllKnown (entries : List Entry) : Prop := ∀ e ∈ entries, ∃ f, e = .field f

theorem allKnown_cons {f : RootField} {entries : List Entry} :
    AllKnown (.field f :: entries) ↔ AllKnown entries := by
  rw [AllKnown, List.forall_mem_cons]
  exact and_iff_right ⟨f, rfl⟩

/-- The loop over the map's pairs does not get past the first of these. -/
def Unread (kvs : List (Value × Value)) : Prop :=
  kvs = [] ∨ ∃ (p : UnknownPair) (behind : List (Value × Value)), kvs = (.str p.key, p.value) :: behind

theorem AllKnown.map_pair {entries : List Entry} (h : AllKnown entries) :
    entries.map Entry.pair = (readFields entries).map RootField.entry := by
  induction entries with
  | nil => rfl
  | cons e entries ih =>
      obtain ⟨f, rfl⟩ := h e List.mem_cons_self
      exact congrArg _ (ih fun g hg => h g (List.mem_cons_of_mem _ hg))

/-- Otherwise an unknown pair follows the fields in front. -/
theorem map_pair_of_not_allKnown {entries : List Entry} (h : ¬ AllKnown entries) :
    ∃ (p : UnknownPair) (behind : List (Value × Value)),
      entries.map Entry.pair = (readFields entries).map RootField.entry ++ (.str p.key, p.value) :: behind := by
  induction entries with
  | nil => exact absurd (fun e he => absurd he List.not_mem_nil) h
  | cons e entries ih =>
      cases e with
      | unknown p => exact ⟨p, entries.map Entry.pair, rfl⟩
      | field f =>
          rw [allKnown_cons] at h
          obtain ⟨p, behind, hpair⟩ := ih h
          exact ⟨p, behind, congrArg _ hpair⟩

/-- The pairs are the fields in front and what is not read. -/
theorem exists_unread (entries : List Entry) :
    ∃ behind, Unread behind ∧
      entries.map Entry.pair = (readFields entries).map RootField.entry ++ behind := by
  by_cases h : AllKnown entries
  · exact ⟨[], .inl rfl, h.map_pair.trans (List.append_nil _).symm⟩
  · obtain ⟨p, behind, hpair⟩ := map_pair_of_not_allKnown h
    exact ⟨_, .inr ⟨p, behind, rfl⟩, hpair⟩

theorem readFields_append_of_allKnown {before : List Entry} (h : AllKnown before)
    (after : List Entry) : readFields (before ++ after) = readFields before ++ readFields after := by
  induction before with
  | nil => rfl
  | cons e before ih =>
      obtain ⟨f, rfl⟩ := h e List.mem_cons_self
      rw [List.cons_append, readFields, readFields, List.cons_append,
        ih fun g hg => h g (List.mem_cons_of_mem _ hg)]

/-- Behind an unknown pair nothing is read. -/
theorem readFields_append_of_not_allKnown {before : List Entry} (h : ¬ AllKnown before)
    (after : List Entry) : readFields (before ++ after) = readFields before := by
  induction before with
  | nil => exact absurd (fun e he => absurd he List.not_mem_nil) h
  | cons e before ih =>
      cases e with
      | unknown p => rfl
      | field f =>
          rw [allKnown_cons] at h
          rw [List.cons_append, readFields, readFields, ih h]

/-! ## The run -/

section Run

variable {R : MpackReader} (hR : R.Lawful)

include hR

/-- An entry other than the applications, under any key that is taken for its own. -/
theorem walks_taken {levels : Nat} {d : AccountDetails} (f : OtherField) {key : List UInt8}
    (h : matchKey key key.length rootKeys = some f.step) :
    WalksPairs R accountCallbacks (levels + 2) [(.str key, f.entry.2)] ⟨.root, d⟩
      ⟨.root, f.store d⟩ := by
  have hkey : Walks R accountCallbacks (levels + 2) (.str key) ⟨.root, d⟩ ⟨f.step, d⟩ :=
    walks_key hR h
  cases f with
  | algo n => exact .cons hkey (walks_uint hR n rfl) .nil
  | ebase n => exact .cons hkey (walks_uint hR n rfl) .nil
  | ern n => exact .cons hkey (walks_uint hR n rfl) .nil
  | tsch schema =>
      exact .cons hkey (walks_tsch hR (accountCallbacks_skipsSchemas d) schema) .nil

theorem walks_rootField {levels : Nat} {d : AccountDetails} (f : RootField) (hint : f.IntsOnly)
    (hclear : f.ClearIn d) :
    WalksPairs R accountCallbacks (levels + 5) [f.entry] ⟨.root, d⟩ ⟨.root, f.store d⟩ := by
  cases f with
  | other f =>
      cases f with
      | algo n => exact walks_taken hR (.algo n) (by rfl)
      | ebase n => exact walks_taken hR (.ebase n) (by rfl)
      | ern n => exact walks_taken hR (.ern n) (by rfl)
      | tsch schema => exact walks_taken hR (.tsch schema) (by rfl)
  | appl apps =>
      have hkey : Walks R accountCallbacks (levels + 5) (.str (lit "appl")) ⟨.root, d⟩
          ⟨.appl, d⟩ := walks_key hR (by decide)
      rw [AccountDetails.RoomFor.betweenApps hclear] at hkey
      have hlength : d.taken.length = d.appIdx := AccountDetails.RoomFor.length_taken hclear
      have happs : WalksPairs R accountCallbacks (levels + 4) (apps.list.map App.entry)
          (betweenApps d d.taken) (betweenApps d (d.taken ++ appSlots d.slot d.taken.length apps.list)) := by
        refine walks_apps hR ?_ ?_ hint
        · rw [hlength]
          exact hclear.room
        · rw [hlength]
          exact hclear.count
      have hfinish : finishMap (betweenApps d (d.taken ++ appSlots d.slot d.taken.length apps.list)) =
          .ok (.success, ⟨.root, RootField.store d (.appl apps)⟩) := by
        rw [RootField.store, betweenApps, List.length_append, length_appSlots, hlength]
        rfl
      exact .cons hkey (.map hR rfl happs hfinish) .nil

theorem walks_rootFields {levels : Nat} {fields : List RootField} {d : AccountDetails}
    (hdistinct : (fields.map RootField.key).Nodup) (hint : ∀ f ∈ fields, f.IntsOnly)
    (hclear : ∀ f ∈ fields, f.ClearIn d) :
    WalksPairs R accountCallbacks (levels + 5) (fields.map RootField.entry) ⟨.root, d⟩
      ⟨.root, fields.foldl RootField.store d⟩ := by
  have hone : ∀ d (f : RootField), f.IntsOnly ∧ f.ClearIn d →
      WalksPairs R accountCallbacks (levels + 5) [f.entry] ⟨.root, d⟩ ⟨.root, f.store d⟩ :=
    fun d f hf => walks_rootField hR f hf.1 hf.2
  have hnext : ∀ d (f g : RootField), f.key ≠ g.key → g.IntsOnly ∧ g.ClearIn d →
      g.IntsOnly ∧ g.ClearIn (f.store d) := fun d f g hne hg => ⟨hg.1, hg.2.store hne⟩
  exact .foldl (f := AccountParser.mk .root) hone hnext (List.pairwise_map.mp hdistinct)
    fun f hf => ⟨hint f hf, hclear f hf⟩

/-- The loop over a map ends at the first key that the callbacks refuse. -/
theorem parseElement_unread {σ : Type} {cb : Callbacks σ} {levels : Nat}
    {kvs behind : List (Value × Value)} {ctx ctx₁ ctx₂ ctx' : σ}
    (hs : ∀ n, cb.startMap ctx n = .ok (.success, ctx₁))
    (hkvs : WalksPairs R cb (levels + 1) kvs ctx₁ ctx₂)
    (hkey : ∀ p : UnknownPair, cb.stringElement ctx₂ (some p.key) p.key.length =
      .ok (.errorNotFound, ctx₂))
    (hf : cb.finishMap ctx₂ = .ok (.success, ctx')) (hbehind : Unread behind)
    {buf rest : List UInt8} (hbuf : Reads buf [.map (kvs ++ behind)] rest) :
    ∃ reader, parseElement R cb (levels + 2) ⟨buf, true⟩ ctx = .ok (.success, reader, ctx') := by
  rcases hbehind with rfl | ⟨p, behind, rfl⟩
  · rw [List.append_nil] at hbuf
    have hmap : Walks R cb (levels + 2) (.map kvs) ctx ctx' := .map hR (hs _) hkvs hf
    obtain ⟨bs', -, hparse⟩ := hmap buf [] rest hbuf
    exact ⟨_, hparse⟩
  · exact parseElement_map_refused hR (hs _) hkvs (hkey p) (by decide) hf hbuf

/-- What the loop walks over is stored, and nothing behind it. -/
theorem parserAccountMpack_walked {kvs behind : List (Value × Value)} {d d' : AccountDetails}
    (hkvs : WalksPairs R accountCallbacks 31 kvs ⟨.root, d⟩ ⟨.root, d'⟩) (hbehind : Unread behind)
    {buf rest : List UInt8} (hbuf : Reads buf [.map (kvs ++ behind)] rest) :
    parserAccountMpack R buf d = .ok (.success, d') := by
  obtain ⟨reader, hparse⟩ := parseElement_unread hR (fun _ => rfl) hkvs
    (fun p => p.stringElement_key d') rfl hbehind hbuf
  rw [parserAccountMpack, mpackReaderInitData, hparse]
  rfl

variable {entries : List Entry} {d : AccountDetails}
  (hdistinct : ((readFields entries).map RootField.key).Nodup)
  (hint : ∀ f ∈ readFields entries, f.IntsOnly) (hclear : ∀ f ∈ readFields entries, f.ClearIn d)

include hdistinct hint hclear

/-- Of an unknown pair, and of what is behind it, nobody hears. -/
theorem parserAccountMpack_of_not_allKnown (h : ¬ AllKnown entries) {kvs : List (Value × Value)}
    {buf rest : List UInt8} (hbuf : Reads buf [.map (entries.map Entry.pair ++ kvs)] rest) :
    parserAccountMpack R buf d =
      .ok (.success, (readFields entries).foldl RootField.store d) := by
  obtain ⟨p, behind, hpair⟩ := map_pair_of_not_allKnown h
  rw [hpair, List.append_assoc, List.cons_append] at hbuf
  exact parserAccountMpack_walked hR (walks_rootFields hR hdistinct hint hclear)
    (.inr ⟨p, behind ++ kvs, rfl⟩) hbuf

end Run

/-! ## One more pair -/

/-- A pair whose key is taken for that of `field`, and whose value is of its kind. -/
structure TakenPair where
  key : List UInt8
  field : OtherField
  taken : matchKey key key.length rootKeys = some field.step

/-- A pair that is put into the map. -/
inductive NewPair where
  | unknown (p : UnknownPair)
  | taken (p : TakenPair)

def NewPair.pair : NewPair → Value × Value
  | .unknown p => (.str p.key, p.value)
  | .taken p => (.str p.key, p.field.entry.2)

/-- What is read behind an unknown pair is not read any more, so the record must say it.  A
pair that is taken for a field must come before that field, or say what the record says by
then. -/
def NewPair.Harmless (before after : List RootField) (d : AccountDetails) : NewPair → Prop
  | .unknown _ => ∀ f ∈ after, f.Shows d
  | .taken p => (∃ g ∈ after, g.key = (RootField.other p.field).key) ∨
      RootField.Said before d (.other p.field)

/-- The record after a response with the pair between `before` and `after`. -/
def NewPair.outcome (before after : List RootField) (d : AccountDetails) : NewPair → AccountDetails
  | .unknown _ => before.foldl RootField.store d
  | .taken p => after.foldl RootField.store (p.field.store (before.foldl RootField.store d))

/-- More fields leave what the response decides if and only if the record shows them. -/
theorem parsed_foldl_iff {fields : List RootField} (hdistinct : (fields.map RootField.key).Nodup)
    {d : AccountDetails} :
    (fields.foldl RootField.store d).parsed = d.parsed ↔ ∀ f ∈ fields, f.Shows d := by
  constructor
  · intro hsame f hf
    cases f with
    | other f => exact (RootField.shows_congr hsame _).mp (RootField.shows_foldl hdistinct d hf)
    | appl apps =>
        have hidx : (fields.foldl RootField.store d).appIdx = d.appIdx :=
          congrArg ParsedFields.appIdx hsame
        have hcounted := RootField.appIdx_foldl_of_mem hf d
        rw [hidx] at hcounted
        exact List.length_eq_zero_iff.mp (by omega)
  · intro hshows
    rw [RootField.foldl_of_shows hshows]

/-- One entry more in front of `after`. -/
theorem parsed_foldl_store_iff {f : OtherField} {after : List RootField} {d : AccountDetails} :
    (after.foldl RootField.store (f.store d)).parsed = (after.foldl RootField.store d).parsed ↔
      (∃ g ∈ after, g.key = (RootField.other f).key) ∨ (RootField.other f).Shows d := by
  by_cases hmem : ∃ g ∈ after, g.key = (RootField.other f).key
  · rw [RootField.foldl_store_of_mem hmem]
    exact iff_of_true rfl (.inl hmem)
  · rw [or_iff_right hmem]
    push Not at hmem
    rw [RootField.foldl_store_of_not_mem hmem, ← RootField.shows_foldl_ne hmem]
    constructor
    · intro hsame
      exact (RootField.shows_congr hsame _).mp (RootField.shows_store _ f)
    · intro hshows
      exact congrArg AccountDetails.parsed (RootField.store_of_shows (f := .other f) hshows)

section NewPair

variable {R : MpackReader} (hR : R.Lawful) {before after : List RootField} {d : AccountDetails}
  (hdistinct : ((before ++ after).map RootField.key).Nodup)
  (hint : ∀ f ∈ before ++ after, f.IntsOnly) (hclear : ∀ f ∈ before ++ after, f.ClearIn d)

include hdistinct

include hR hint hclear in
/-- The run over the new pair, where it is come to. -/
theorem parserAccountMpack_newPair {behind : List (Value × Value)} (hbehind : Unread behind)
    (new : NewPair) {buf rest : List UInt8} (hbuf : Reads buf [.map (before.map RootField.entry ++
      new.pair :: (after.map RootField.entry ++ behind))] rest) :
    parserAccountMpack R buf d = .ok (.success, new.outcome before after d) := by
  rw [List.map_append, List.nodup_append] at hdistinct
  rw [List.forall_mem_append] at hint hclear
  have hbefore : WalksPairs R accountCallbacks 31 (before.map RootField.entry) ⟨.root, d⟩
      ⟨.root, before.foldl RootField.store d⟩ :=
    walks_rootFields hR hdistinct.1 hint.1 hclear.1
  cases new with
  | unknown p => exact parserAccountMpack_walked hR hbefore (.inr ⟨p, _, rfl⟩) hbuf
  | taken p =>
      have hafter : WalksPairs R accountCallbacks 31 (after.map RootField.entry)
          ⟨.root, p.field.store (before.foldl RootField.store d)⟩
          ⟨.root, after.foldl RootField.store (p.field.store (before.foldl RootField.store d))⟩ := by
        refine walks_rootFields hR hdistinct.2.1 hint.2 fun g hg => ?_
        refine RootField.ClearIn.store_other p.field (RootField.clearIn_foldl ?_ (hclear.2 g hg))
        exact fun f hf => hdistinct.2.2 _ (List.mem_map_of_mem hf) _ (List.mem_map_of_mem hg)
      have hpairs := (hbefore.append (walks_taken hR p.field p.taken)).append hafter
      have hassoc : before.map RootField.entry ++ (NewPair.taken p).pair ::
          (after.map RootField.entry ++ behind) = (before.map RootField.entry ++
            [(.str p.key, p.field.entry.2)]) ++ after.map RootField.entry ++ behind := by
        simp [NewPair.pair]
      rw [hassoc] at hbuf
      exact parserAccountMpack_walked hR hpairs hbehind hbuf

/-- Where the new pair is come to, the outcomes agree if it is harmless, and only then. -/
theorem outcome_eq_iff (new : NewPair) :
    (new.outcome before after d).parsed = ((before ++ after).foldl RootField.store d).parsed ↔
      new.Harmless before after d := by
  rw [List.map_append, List.nodup_append] at hdistinct
  have hapart : ∀ g ∈ after, ∀ f ∈ before, f.key ≠ g.key :=
    fun g hg f hf => hdistinct.2.2 _ (List.mem_map_of_mem hf) _ (List.mem_map_of_mem hg)
  rw [List.foldl_append]
  cases new with
  | unknown p =>
      -- what the fields in front stored is not what those behind look at
      have hshows : (∀ g ∈ after, g.Shows (before.foldl RootField.store d)) ↔
          ∀ g ∈ after, g.Shows d :=
        forall₂_congr fun g hg => RootField.shows_foldl_ne (hapart g hg)
      rw [NewPair.outcome, eq_comm, parsed_foldl_iff hdistinct.2.1, hshows]
      rfl
  | taken p =>
      rw [NewPair.outcome, parsed_foldl_store_iff, RootField.shows_foldl_iff hdistinct.1]
      rfl

end NewPair

/-- **A new pair changes what the response leaves, unless it is harmless.**  Behind an unknown
pair any is; elsewhere the pairs behind it are lost, or it is taken for a field. -/
theorem unknown_field_ignored_iff {R : MpackReader} (hR : R.Lawful) {before after : List Entry}
    (new : NewPair) {d : AccountDetails}
    (hdistinct : ((readFields (before ++ after)).map RootField.key).Nodup)
    (hint : ∀ f ∈ readFields (before ++ after), f.IntsOnly)
    (hclear : ∀ f ∈ readFields (before ++ after), f.ClearIn d) {buf buf' rest rest' : List UInt8}
    (hbuf : Reads buf [.map (before.map Entry.pair ++ after.map Entry.pair)] rest)
    (hbuf' : Reads buf' [.map (before.map Entry.pair ++ new.pair :: after.map Entry.pair)] rest') :
    refreshed R buf' d = refreshed R buf d ↔
      (AllKnown before → new.Harmless (readFields before) (readFields after) d) := by
  by_cases hall : AllKnown before
  · rw [readFields_append_of_allKnown hall] at hdistinct hint hclear
    obtain ⟨behind, hbehind, hafter⟩ := exists_unread after
    rw [hall.map_pair, hafter, ← List.append_assoc, ← List.map_append] at hbuf
    rw [hall.map_pair, hafter] at hbuf'
    have hrun : parserAccountMpack R buf d =
        .ok (.success, (readFields before ++ readFields after).foldl RootField.store d) :=
      parserAccountMpack_walked hR (walks_rootFields hR hdistinct hint hclear) hbehind hbuf
    have hrun' := parserAccountMpack_newPair hR hdistinct hint hclear hbehind new hbuf'
    rw [refreshed, refreshed, hrun, hrun']
    show Except.ok (AccountDetails.parsed _) = Except.ok (AccountDetails.parsed _) ↔ _
    rw [Except.ok.injEq, outcome_eq_iff hdistinct new]
    exact ⟨fun h _ => h, fun h => h hall⟩
  · rw [readFields_append_of_not_allKnown hall] at hdistinct hint hclear
    have hrun := parserAccountMpack_of_not_allKnown hR hdistinct hint hclear hall hbuf
    have hrun' := parserAccountMpack_of_not_allKnown hR hdistinct hint hclear hall hbuf'
    exact iff_of_true (by rw [refreshed, refreshed, hrun, hrun']) fun h => absurd h hall

/-! ## On some responses -/

/-- An account's assets, of which it has none. -/
def assetPair : UnknownPair where
  key := lit "asset"
  value := .map []
  unknown := by decide

/-- The start of `algo`, with a number. -/
def alPair : TakenPair where
  key := lit "al"
  field := .algo 7
  taken := by decide

def algoEntry : Entry := .field (.other (.algo 5))

def ebaseEntry : Entry := .field (.other (.ebase 3))

/-- `algo` and `ebase`. -/
def knownBuffer : List UInt8 :=
  [0x82, 0xa4, 0x61, 0x6c, 0x67, 0x6f, 5, 0xa5, 0x65, 0x62, 0x61, 0x73, 0x65, 3]

/-- `asset` behind the two. -/
def assetLastBuffer : List UInt8 :=
  [0x83, 0xa4, 0x61, 0x6c, 0x67, 0x6f, 5, 0xa5, 0x65, 0x62, 0x61, 0x73, 0x65, 3, 0xa5, 0x61, 0x73,
    0x73, 0x65, 0x74, 0x80]

/-- `asset` between the two. -/
def assetBuffer : List UInt8 :=
  [0x83, 0xa4, 0x61, 0x6c, 0x67, 0x6f, 5, 0xa5, 0x61, 0x73, 0x73, 0x65, 0x74, 0x80, 0xa5, 0x65,
    0x62, 0x61, 0x73, 0x65, 3]

/-- `al` between the two. -/
def alBuffer : List UInt8 :=
  [0x83, 0xa4, 0x61, 0x6c, 0x67, 0x6f, 5, 0xa2, 0x61, 0x6c, 7, 0xa5, 0x65, 0x62, 0x61, 0x73, 0x65, 3]

theorem unknown_field_ignored_iff_last :
    refreshed formatReader assetLastBuffer .zero = refreshed formatReader knownBuffer .zero := by
  have hbuf : Reads knownBuffer [.map ([algoEntry, ebaseEntry].map Entry.pair ++
      ([] : List Entry).map Entry.pair)] [] := decode_eq_some_iff.mp (by rfl)
  have hbuf' : Reads assetLastBuffer [.map ([algoEntry, ebaseEntry].map Entry.pair ++
      (NewPair.unknown assetPair).pair :: ([] : List Entry).map Entry.pair)] [] :=
    decode_eq_some_iff.mp (by rfl)
  have hint : ∀ f ∈ readFields ([algoEntry, ebaseEntry] ++ []), f.IntsOnly := by
    rintro (_ | apps) hf
    · trivial
    · simp [readFields, algoEntry, ebaseEntry] at hf
  have hclear : ∀ f ∈ readFields ([algoEntry, ebaseEntry] ++ []), f.ClearIn .zero := by
    rintro (_ | apps) hf
    · trivial
    · simp [readFields, algoEntry, ebaseEntry] at hf
  exact (unknown_field_ignored_iff formatReader_lawful (.unknown assetPair) (by decide) hint hclear hbuf
    hbuf').mpr fun _ f hf => absurd hf List.not_mem_nil

/-- The base of the rewards is lost behind an empty `asset`, and the amount is the number
behind `al`. -/
theorem unknown_field_heard :
    formatReader.Lawful ∧
      Reads knownBuffer [.map ([algoEntry].map Entry.pair ++ [ebaseEntry].map Entry.pair)] [] ∧
      Reads assetBuffer [.map ([algoEntry].map Entry.pair ++
        (NewPair.unknown assetPair).pair :: [ebaseEntry].map Entry.pair)] [] ∧
      Reads alBuffer [.map ([algoEntry].map Entry.pair ++
        (NewPair.taken alPair).pair :: [ebaseEntry].map Entry.pair)] [] ∧
      (refreshed formatReader knownBuffer .zero).map (fun p => (p.amount, p.rewardBase)) = .ok (5, 3) ∧
      (refreshed formatReader assetBuffer .zero).map (fun p => (p.amount, p.rewardBase)) = .ok (5, 0) ∧
      (refreshed formatReader alBuffer .zero).map (fun p => (p.amount, p.rewardBase)) = .ok (7, 3) :=
  ⟨formatReader_lawful, decode_eq_some_iff.mp (by rfl), decode_eq_some_iff.mp (by rfl),
    decode_eq_some_iff.mp (by rfl), by decide +kernel, by decide +kernel, by decide +kernel⟩

end Vertices
