/-
# `Vertices.SilentErrors` — what the account parser does not report

An error has two ways out of `parse_element`: the code it returns, and the reader's own
error.  The second is turned into `VTC_SUCCESS` by the next call; the first is overwritten
at the end of the container it happens in.  One error reaches the caller, that of a string
in the place of the account.

`provider_account_info_get` drops even that one.
-/
import Vertices.Elements
import Vertices.Account

namespace Vertices

open MsgPack Transition

/-! ## A parse without errors -/

section

variable {σ : Type} {cb : Callbacks σ}

/-- The call reported no error. -/
def Made.Accepted (cb : Callbacks σ) (m : Made σ) : Prop :=
  ∃ s', cb.handle m.event m.before = .ok (.success, s')

/-- No call faulted, and none reported an error. -/
def Recorder.Clean (cb : Callbacks σ) (r : Recorder σ) : Prop :=
  r.fault = none ∧ ∀ m ∈ r.made, m.Accepted cb

theorem Recorder.clean_start (s : σ) : (Recorder.start s).Clean cb := ⟨rfl, List.forall_mem_nil _⟩

/-- The recorder remembers an error. -/
theorem recording_remembers : (recording cb).Remembers (Recorder.Clean cb) := by
  intro event r err r' h hclean
  rw [recording_handle, Except.ok.injEq, record] at h
  split at h
  · next f hf =>
      cases h
      cases hf.symm.trans hclean.1
  · next hnone =>
      dsimp only at h
      split at h
      · next err' s hok =>
          cases h
          obtain ⟨-, hmade⟩ := hclean
          rw [List.forall_mem_append, List.forall_mem_singleton] at hmade
          obtain ⟨hmade, s', hs'⟩ := hmade
          cases hok.symm.trans hs'
          exact ⟨⟨hnone, hmade⟩, rfl⟩
      · cases h
        cases hclean.1

/-- A recorded run without error is a run of the callbacks. -/
theorem run_of_recording {r r' : Recorder σ} {es : List Event}
    (h : Run (recording cb).Accepts r es r') (hclean : r'.Clean cb) :
    r.Clean cb ∧ Run cb.Accepts r.state es r'.state := by
  induction h with
  | nil r => exact ⟨hclean, .nil _⟩
  | @cons r r₁ r' e es hstep _ ih =>
      obtain ⟨hclean₁, hrun⟩ := ih hclean
      obtain ⟨hr, -⟩ := recording_remembers _ _ _ _ hstep hclean₁
      refine ⟨hr, .cons ?_ hrun⟩
      have hrec : record cb e r = (.success, r₁) :=
        Except.ok.inj ((recording_handle e r).symm.trans hstep)
      have hshows := record_shows hr.1 hrec
      rw [Shows, hclean₁.1] at hshows
      exact hshows

/-- A run of the callbacks, recorded. -/
theorem run_recording {s s' : σ} {es : List Event} (h : Run cb.Accepts s es s') :
    ∀ r : Recorder σ, r.Clean cb → r.state = s →
      ∃ r', Run (recording cb).Accepts r es r' ∧ r'.Clean cb := by
  induction h with
  | nil s =>
      intro r hr _
      exact ⟨r, .nil r, hr⟩
  | @cons s s₁ s' e es hstep _ ih =>
      intro r hr hstate
      have hstep : cb.handle e r.state = .ok (.success, s₁) := hstate ▸ hstep
      let r₁ : Recorder σ := { state := s₁, made := r.made ++ [⟨e, r.state⟩], fault := none }
      have hrec : record cb e r = (.success, r₁) := by
        rw [record, hr.1]
        dsimp only
        rw [hstep]
      have hclean : r₁.Clean cb := by
        refine ⟨rfl, List.forall_mem_append.mpr ⟨hr.2, ?_⟩⟩
        exact List.forall_mem_singleton.mpr ⟨s₁, hstep⟩
      obtain ⟨r', hrun, hr'⟩ := ih r₁ hclean rfl
      exact ⟨r', .cons ((recording_handle e r).trans (congrArg _ hrec)) hrun, hr'⟩

end

section

variable {R : MpackReader} {buf : List UInt8} {d : AccountDetails}

/-- The buffer holds a complete value, all of it is read without an error of the reader,
and no callback reports one. -/
def ReadWhole (R : MpackReader) (buf : List UInt8) (d : AccountDetails) : Prop :=
  ∃ err rest r,
    parseElement R (recording accountCallbacks) 32 (mpackReaderInitData buf) (.start ⟨.root, d⟩) =
      .ok (err, ⟨rest, true⟩, r) ∧
    (∃ v, Reads buf [v] rest) ∧ r.Clean accountCallbacks

/-- The buffer begins with a value `parse_element` can read, and the callbacks, called for
its elements in order, take them all. -/
def TakenWhole (buf : List UInt8) (d : AccountDetails) : Prop :=
  ∃ v rest s, Reads buf [v] rest ∧ Readable 32 v ∧
    Run accountCallbacks.Accepts ⟨.root, d⟩ (events 32 v) s

theorem readWhole_iff (hR : R.Exact) : ReadWhole R buf d ↔ TakenWhole buf d := by
  constructor
  · rintro ⟨err, rest, r, hparse, -, hclean⟩
    obtain ⟨-, v, htook⟩ :=
      parseElement_sound hR recording_remembers 32 _ _ err rest r hparse hclean
    have hrun := htook.accepted
    rw [List.flatMap_singleton] at hrun
    exact ⟨v, rest, r.state, htook.reads, htook.readable v List.mem_cons_self,
      (run_of_recording hrun hclean).2⟩
  · rintro ⟨v, rest, s, hreads, hread, hrun⟩
    obtain ⟨r, hrec, hclean⟩ := run_recording hrun (.start _) (Recorder.clean_start _) rfl
    obtain ⟨bs', hr', hparse⟩ := walks_accepted hR.lawful 32 v _ r hread hrec buf [] rest hreads
    cases hr'
    exact ⟨.success, rest, r, hparse, ⟨v, hreads⟩, hclean⟩

end

/-! ## The code of the parser -/

/-- The buffer begins with a string that is no key of the account's map: the one error
that is not overwritten. -/
def UnknownKey (buf : List UInt8) : Prop :=
  ∃ s rest, Reads buf [.str s] rest ∧ matchKey s s.length rootKeys = none

theorem finishMap_success {s s' : AccountParser} {err : RetCode}
    (h : finishMap s = .ok (err, s')) : err = .success := by
  rw [finishMap.eq_def] at h
  split at h
  · obtain ⟨a, -, h⟩ := bind_eq_ok.mp h
    exact (pure_eq_ok2.mp h).1.symm
  all_goals exact (pure_eq_ok2.mp h).1.symm

/-- A container's own code is that of its end. -/
theorem container_code (start finish : Event) (loop : ReaderState → AccountParser →
      Except Fault (ReaderState × AccountParser)) (reader reader' : ReaderState)
    (s s' : AccountParser) (err : RetCode)
    (hstart : accountCallbacks.handle start s = .ok (.success, s))
    (hfinish : ∀ s err s', accountCallbacks.handle finish s = .ok (err, s') → err = .success)
    (h : (do
      let (err, s) ← accountCallbacks.handle start s
      if err ≠ .success then return (err, reader, s)
      else do
        let (reader, s) ← loop reader s
        scalarElement reader (accountCallbacks.handle finish s) :
          Except Fault (Parsed AccountParser)) =
      .ok (err, reader', s')) : err = .success := by
  rw [hstart] at h
  have h : (loop reader s >>= fun p => scalarElement p.1 (accountCallbacks.handle finish p.2)) =
      .ok (err, reader', s') := h
  obtain ⟨⟨reader₁, s₁⟩, -, h⟩ := bind_eq_ok.mp h
  obtain ⟨⟨err₂, s₂⟩, h₂, h⟩ := bind_eq_ok.mp h
  cases pure_eq_ok.mp h
  exact hfinish s₁ err s' h₂

theorem reads_str_iff {buf s rest : List UInt8} : Reads buf [.str s] rest ↔
    ∃ r, decodeTag buf = some (.str s.length, r) ∧ s.length ≤ r.length ∧ r.take s.length = s ∧
      r.drop s.length = rest := by
  constructor
  · intro h
    obtain ⟨r, ht, hn, hs, hr⟩ := h.head_str
    refine ⟨r, ht, hn, hs, ?_⟩
    generalize r.drop s.length = r' at hr ⊢
    cases hr
    rfl
  · rintro ⟨r, ht, hn, hs, rfl⟩
    have hv : MsgPack.scalar (.str s.length) r = some (.str s, r.drop s.length) := by
      rw [MsgPack.scalar, payload, if_pos hn, hs]
    exact .scalar ht hv (.nil _)

/-- The parse of an account returns an error for an unknown key, and for nothing else. -/
theorem parse_error_code_iff {R : MpackReader} (hR : R.Exact) {buf : List UInt8}
    {d : AccountDetails} :
    (∃ err account, parserAccountMpack R buf d = .ok (err, account) ∧ err ≠ .success) ↔
      UnknownKey buf := by
  constructor
  · rintro ⟨err, account, h, herr⟩
    obtain ⟨⟨err', reader, s⟩, hparse, h⟩ := bind_eq_ok.mp h
    cases pure_eq_ok.mp h
    rw [parseElement] at hparse
    generalize hread : R.mpackReadTag (mpackReaderInitData buf) = tagged at hparse
    obtain ⟨tag, reader'⟩ := tagged
    dsimp only at hparse
    split at hparse
    · cases pure_eq_ok.mp hparse
      exact absurd rfl herr
    · next hok =>
        obtain ⟨-, r, ht, rfl⟩ := mpackReadTag_exact hR hread (Bool.not_eq_false _ ▸ hok)
        cases tag with
        | str n =>
            rw [switchTag, mpackReadBytesInplace] at hparse
            by_cases hn : n ≤ r.length
            · rw [if_pos rfl, if_pos hn] at hparse
              have hlen : (r.take n).length = n := List.length_take_of_le hn
              refine ⟨r.take n, r.drop n, reads_str_iff.mpr ?_, ?_⟩
              · rw [hlen]
                exact ⟨r, ht, hn, rfl, rfl⟩
              obtain ⟨⟨err₁, s₁⟩, h₁, hparse⟩ := bind_eq_ok.mp hparse
              cases pure_eq_ok.mp hparse
              have h₁ : lookupKey _ (some (r.take n)) n rootKeys _ = _ := h₁
              rw [lookupKey] at h₁
              rw [hlen]
              split at h₁
              · exact absurd (pure_eq_ok2.mp h₁).1.symm herr
              · next hnone => exact hnone
            · rw [if_pos rfl, if_neg hn] at hparse
              cases hparse
        | array count =>
            refine absurd (container_code (.startArray count) .finishArray
              (arrayLoop (parseElement R accountCallbacks 31) count) ⟨r, true⟩ reader _ s err rfl
              ?_ hparse) herr
            intro s err s' h
            exact (pure_eq_ok2.mp h).1.symm
        | map count =>
            refine absurd (container_code (.startMap count) .finishMap
              (mapLoop (parseElement R accountCallbacks 31) count) ⟨r, true⟩ reader _ s err rfl
              ?_ hparse) herr
            intro s err s' h
            exact finishMap_success h
        | nil | bool _ | int _ | uint _ | float _ | double _ | bin _ | ext _ _ =>
            cases hparse
            exact absurd rfl herr
  · rintro ⟨s, rest, hreads, hnone⟩
    obtain ⟨r, ht, hn, hs, rfl⟩ := reads_str_iff.mp hreads
    refine ⟨.errorNotFound, d, ?_, RetCode.noConfusion⟩
    rw [parserAccountMpack, mpackReaderInitData, parseElement_tag hR.lawful ht, switchTag,
      mpackReadBytesInplace, if_pos rfl, if_pos hn, hs]
    show (scalarElement _ (lookupKey _ (some s) s.length rootKeys _) >>= _) = _
    rw [lookupKey]
    dsimp only
    rw [hnone]
    rfl

/-! ## What the caller is told -/

section

variable {R : MpackReader} {α : Type}

/-- The caller is told of a failure: unless `whole` holds, the call returns an error. -/
def Reported (whole : Prop) (outcome : Except Fault (RetCode × α)) : Prop :=
  ¬ whole → ∃ err a, outcome = .ok (err, a) ∧ err ≠ .success

/-- For a call that returns: `VTC_SUCCESS` only for the whole. -/
theorem reported_ok_iff {whole : Prop} {err : RetCode} {a : α} :
    Reported whole (.ok (err, a)) ↔ (err = .success → whole) := by
  constructor
  · intro h herr
    by_contra hwhole
    obtain ⟨err', a', he, herr'⟩ := h hwhole
    cases he
    exact herr' herr
  · intro h hwhole
    exact ⟨err, a, rfl, fun herr => hwhole (h herr)⟩

/-- `rx_buf`, up to `response_buffer.size`: what the parser is given. -/
def Provider.answer (p : Provider) : List UInt8 := p.rxBuf.toList.take p.responseSize

/-- The answer is received, and read as a whole. -/
def AnswerReadWhole (R : MpackReader) (p : Provider) (reply : HttpReply) (d : AccountDetails) : Prop :=
  ∃ p', httpReceive p reply = .ok p' ∧ ReadWhole R p'.answer d

/-- The answer fits the buffer, and the client reports an error or the account's callbacks
take it as a whole. -/
def AnswerAccepted (p : Provider) (reply : HttpReply) (d : AccountDetails) : Prop :=
  ∃ p', httpReceive p reply = .ok p' ∧ (reply.err ≠ .success ∨ TakenWhole p'.answer d)

theorem parser_reported_iff (hR : R.Exact) (buf : List UInt8) (d : AccountDetails) :
    Reported (ReadWhole R buf d) (parserAccountMpack R buf d) ↔ TakenWhole buf d ∨ UnknownKey buf := by
  rw [Reported, parse_error_code_iff hR, readWhole_iff hR, or_iff_not_imp_left]

theorem provider_reported_iff (hR : R.Exact) (p : Provider) (reply : HttpReply) (d : AccountDetails) :
    Reported (AnswerReadWhole R p reply d) (providerAccountInfoGet R p reply d) ↔
      AnswerAccepted p reply d := by
  constructor
  · intro h
    by_cases hwhole : AnswerReadWhole R p reply d
    · obtain ⟨p', hp', hread⟩ := hwhole
      exact ⟨p', hp', .inr ((readWhole_iff hR).mp hread)⟩
    · obtain ⟨err, ⟨account, p''⟩, houtcome, herr⟩ := h hwhole
      obtain ⟨p', hp', houtcome⟩ := bind_eq_ok.mp houtcome
      refine ⟨p', hp', .inl fun hreply => herr ?_⟩
      rw [if_pos hreply] at houtcome
      obtain ⟨⟨_, account'⟩, -, houtcome⟩ := bind_eq_ok.mp houtcome
      exact (pure_eq_ok3.mp houtcome).1.symm.trans hreply
  · rintro ⟨p', hp', haccepted⟩ hwhole
    rcases haccepted with herr | htaken
    · refine ⟨reply.err, (d, p'), ?_, herr⟩
      rw [providerAccountInfoGet, hp']
      exact if_neg herr
    · exact absurd ⟨p', hp', (readWhole_iff hR).mpr htaken⟩ hwhole

theorem accountUpdate_reported_iff (hR : R.Exact) (i : Fin accountsMaximumCount) (reply : HttpReply)
    (accounts : MAccounts) (p : Provider) :
    Reported (AnswerReadWhole R p reply (accounts.get i).account)
        (accountUpdate R (.mAccount i) reply accounts p) ↔
      AnswerAccepted p reply (accounts.get i).account := by
  rw [← provider_reported_iff hR]
  have hupdate : accountUpdate R (.mAccount i) reply accounts p =
      providerAccountInfoGet R p reply (accounts.get i).account >>= fun x =>
        .ok (x.1, accounts.set i ⟨x.2.1, (accounts.get i).status⟩, x.2.2) := rfl
  rw [hupdate]
  constructor
  · intro h hwhole
    obtain ⟨err, a, houtcome, herr⟩ := h hwhole
    obtain ⟨⟨err', d, p'⟩, hget, houtcome⟩ := bind_eq_ok.mp houtcome
    cases houtcome
    exact ⟨err', (d, p'), hget, herr⟩
  · intro h hwhole
    obtain ⟨err, a, houtcome, herr⟩ := h hwhole
    exact ⟨err, _, bind_eq_ok.mpr ⟨_, houtcome, rfl⟩, herr⟩

/-! ## When all of them are -/

/-- The account parser reports what it could not read where the callbacks take the value
of the buffer as a whole, or the buffer holds an unknown key and no map; the request and
the update only in the first case, or where the HTTP client itself failed. -/
theorem account_errors_reported_iff (hR : R.Exact) :
    (∀ buf d, Reported (ReadWhole R buf d) (parserAccountMpack R buf d) ↔
      TakenWhole buf d ∨ UnknownKey buf) ∧
    (∀ p reply d, Reported (AnswerReadWhole R p reply d) (providerAccountInfoGet R p reply d) ↔
      AnswerAccepted p reply d) ∧
    ∀ i reply accounts p, Reported (AnswerReadWhole R p reply (accounts.get i).account)
        (accountUpdate R (.mAccount i) reply accounts p) ↔
      AnswerAccepted p reply (accounts.get i).account :=
  ⟨parser_reported_iff hR, provider_reported_iff hR, accountUpdate_reported_iff hR⟩

end

/-- A map of one entry, and its key. -/
def truncatedAnswer : List UInt8 := [0x81, 0xa4] ++ lit "algo"

/-- A map of two entries: the amount, and whether the account is online. -/
def onlineAnswer : List UInt8 := [0x82, 0xa4] ++ lit "algo" ++ [0x05, 0xa3] ++ lit "onl" ++ [0x01]

/-- An empty map, and a key that is none; the second as an answer of the node. -/
theorem account_errors_reported_iff_string :
    Reported (ReadWhole formatReader [0x80] .zero) (parserAccountMpack formatReader [0x80] .zero) ∧
      Reported (ReadWhole formatReader [0xa1, 0x78] .zero)
        (parserAccountMpack formatReader [0xa1, 0x78] .zero) := by
  obtain ⟨hparser, -, -⟩ := account_errors_reported_iff formatReader_exact
  refine ⟨(hparser _ _).mpr (.inl ?_), (hparser _ _).mpr (.inr ?_)⟩
  · exact ⟨.map [], [], _, .map rfl (.nil _) (.nil _), List.forall_mem_nil _,
      .cons rfl (.cons rfl (.nil _))⟩
  · have ht : decodeTag [0xa1, 0x78] = some (.str 1, [0x78]) := by decide +kernel
    exact ⟨[0x78], [], .scalar ht rfl (.nil _), by decide +kernel⟩

/-- A call that reported an error, in a parse that is not whole. -/
theorem not_readWhole_of_error {R : MpackReader} {buf : List UInt8} {d : AccountDetails}
    (h : ∃ m ∈ madeCalls R accountCallbacks buf ⟨.root, d⟩,
      ((accountCallbacks.handle m.event m.before).map Prod.fst).toOption ≠ some .success) :
    ¬ ReadWhole R buf d := by
  obtain ⟨m, hm, herr⟩ := h
  rintro ⟨err, rest, r, hparse, -, hclean⟩
  rw [madeCalls, hparse] at hm
  obtain ⟨s', hs'⟩ := hclean.2 m hm
  rw [hs'] at herr
  exact herr rfl

/-- Both answers are taken for whole, and neither is. -/
theorem truncated_answer_silent :
    (parserAccountMpack formatReader truncatedAnswer .zero).map Prod.fst = .ok .success ∧
      ¬ ReadWhole formatReader truncatedAnswer .zero ∧
    (providerAccountInfoGet formatReader .zero ⟨[onlineAnswer], .success, 200⟩ .zero).map Prod.fst =
        .ok .success ∧
      ¬ AnswerReadWhole formatReader .zero ⟨[onlineAnswer], .success, 200⟩ .zero := by
  refine ⟨by decide +kernel, ?_, by decide +kernel, ?_⟩
  · rintro ⟨err, rest, r, hparse, -, -⟩
    have hreader : ((parseElement formatReader (recording accountCallbacks) 32
        (mpackReaderInitData truncatedAnswer) (.start ⟨.root, .zero⟩)).map fun x => x.2.1.ok) =
        .ok false := by decide +kernel
    rw [hparse] at hreader
    cases hreader
  · rintro ⟨p', hp', hread⟩
    have hanswer : (httpReceive .zero ⟨[onlineAnswer], .success, 200⟩).map Provider.answer =
        .ok onlineAnswer := by decide +kernel
    rw [hp'] at hanswer
    have hanswer : p'.answer = onlineAnswer := Except.ok.inj hanswer
    rw [hanswer] at hread
    exact not_readWhole_of_error (by decide +kernel) hread

end Vertices
