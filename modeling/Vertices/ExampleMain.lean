/-
# `Vertices.ExampleMain` — `main` of `examples/unix/main.cpp`

One process loads the wallet, looks Alice's account up in it or makes one of the phrase,
exports the mnemonic, reads the receiver's address, creates a payment, runs its loop and
saves the wallet.  `VTC_ASSERT` only logs, so the process goes on after a failure.

The static variables are zeroed in every process.  What is left when it ends is the
`Device`: the wallet, and the two files of the handler.  A run of `ProcessStep` is one
process after the other.

    main_needs_wallet             without a wallet that holds the account, each of them comes
                                  to the import of the phrase, and writes past a block
    same_account_after_restarts   with one, all of them pay from the same account
    payments_after_restarts       and where nothing goes wrong each of them does
-/
import Vertices.FailedCreation
import Vertices.HttpRequests
import Vertices.KeyImport
import Vertices.Keyring
import Vertices.MainLoop
import Vertices.SignedMeaning

namespace Vertices

open MsgPack Transition UnixExample

/-! ## The program -/

/-- What the example is built of, and linked against. -/
structure ExampleProgram where
  env : Env
  sha512 : MbedtlsSha512
  ed25519 : Ed25519
  sodium : Sodium
  cryptoSignEd25519Detached : List UInt8 → List UInt8 → Vector UInt8 signatureLength
  /-- `SERVER_TOKEN_HEADER`, of the provider the example is built for. -/
  serverTokenHeader : CStr
  /-- What lies behind the literal of `ACCOUNT_RECEIVER`: `account_new` copies more. -/
  behindReceiver : List UInt8

/-- `ACCOUNT_NAME`. -/
def exampleName : CStr := cString (lit "dragon")

/-- `WALLET_PASSWORD`. -/
def examplePassword : CStr := cString (lit "shosha_dragon")

/-- `mnemonic_str`, its words on lines of their own. -/
def exampleMnemonic : CStr := cString (["base", "giraffe", "believe", "make", "tone", "transfer",
  "wrap", "attend", "typical", "dirt", "grocery", "distance", "outside", "horn", "also", "abstract",
  "slim", "ecology", "island", "alter", "daring", "equal", "boil", "absent", "carpet"].flatMap
    fun word => lit word ++ [0x0a])

/-- `notes`. -/
def exampleNotes : CStr := cString (lit "Alice sent 1 Algo to Bob")

/-- `AMOUNT_SENT`, as `CMakeLists.txt` defines it. -/
def amountSent : UInt64 := 100

/-- What the account has to hold. -/
def balanceNeeded : Int32 := 1001000

/-- `ACCOUNT_RECEIVER`. -/
def ExampleProgram.accountReceiver (x : ExampleProgram) : B32Ptr :=
  let text := lit "NBRUQXLMEJDQLHE5BBEFBQ3FF4F3BZYWCUBBQM67X6EOEW2WHGS764OQXE" ++ 0 :: x.behindReceiver
  ⟨firstBytes publicB32StrMaxLength text, text.drop publicB32StrMaxLength⟩

/-- `vertices_evt_handler`, with `alice_account` as it is then. -/
def ExampleProgram.handler (x : ExampleProgram) (alice : SAccount) (info : AccountInfo) : UnixExample where
  cryptoSignEd25519Detached := x.cryptoSignEd25519Detached
  privateKey := alice.privateKey
  publicKey := info.publicKey
  sizeofPayload := sizeofPointer

/-- What one process meets: the node, libsodium and its randomness, memory, the files. -/
structure Circumstances where
  /-- `curl_easy_init` has given a handle. -/
  easyInit : Bool
  loadSodium : Bool
  load : LoadEnv secretAccountsMaximumCount
  health : CurlReply
  version : CurlReply
  /-- where the records of the wallet are -/
  pointers : RecordPointers
  newSodium : Bool
  newAccount : CurlReply
  stack : AccountDetails
  exportSodium : Bool
  receiver : CurlReply
  params : CurlReply
  turns : List Turn
  saveSodium : Bool
  save : SaveEnv secretAccountsMaximumCount

/-- What `http_get` makes of an answer, if there is a handle. -/
def Circumstances.get (w : Circumstances) (reply : CurlReply) : HttpReply :=
  if w.easyInit then reply.got else ⟨[], .errorInvalidState, 0⟩

/-- No answer of the client is `VTC_ERROR_NO_MEM`, so the wallet is never emptied for it. -/
theorem Circumstances.get_ne_noMem (w : Circumstances) (reply : CurlReply) :
    (w.get reply).err ≠ .errorNoMem := by
  rw [Circumstances.get, CurlReply.got]
  split
  · dsimp only
    split
    · exact RetCode.noConfusion
    · split
      · decide
      · exact RetCode.noConfusion
  · exact RetCode.noConfusion

/-- What outlives a process.  `posted` is no file: it records the requests that were posted,
oldest first, and no function reads it. -/
structure Device where
  wallet : Option (List UInt8)
  files : Files
  posted : List (List UInt8)

namespace ExampleProgram

variable {c : Config}

/-- `alice_account`: found in the wallet, or made of the phrase.  Where neither succeeds it
stays as `main` has zeroed it. -/
def aliceAccount (x : ExampleProgram) (w : Circumstances) (wallet : SAccounts) (p : Provider) :
    Except Fault (SAccount × SAccounts × Provider) := do
  let (err, found) ← sAccountGetByName w.pointers wallet exampleName
  if err = .errorNotFound then
    let (_, slot, wallet, p) ← verticesSAccountNewFromMnemonic x.sha512 x.ed25519 x.env.reader
      w.newSodium w.pointers exampleMnemonic exampleName (w.get w.newAccount) w.stack wallet p
    return ((slot.map wallet.get).getD .zero, wallet, p)
  else return (found.getD .zero, wallet, p)

/-- The loop of `main` where `vertices_new` has failed: no handler is installed. -/
def loopUnhandled (env : Env) : List Turn → Sdk c → Except Fault (Option (Sdk c))
  | [], _ => return none
  | turn :: turns, s => do
      let (result, s) ← verticesEventProcess env none turn.reply s
      if result.err = .success ∧ result.queueSize ≠ some 0 then loopUnhandled env turns s
      else return some s

/-- `case PAY_TX`, and the loop.  The loop is not entered after an error; `none` if the
turns are used up before it ends. -/
def payAndProcess (x : ExampleProgram) (w : Circumstances) (alice : SAccount) (info : AccountInfo)
    (receiver : Vector UInt8 addressLength) (s : Sdk c) (files : Files) :
    Except Fault (Option (Sdk c × Files)) := do
  let (err, s) ← transactionPay x.env (.other info) receiver amountSent (some exampleNotes)
    (w.get w.params) s
  if err ≠ .success then return some (s, files)
  else if w.easyInit then do
    let ended ← (x.handler alice info).mainLoop x.env w.turns ⟨s, files, none⟩
    return ended.map fun r => (r.2.sdk, r.2.files)
  else do
    let ended ← loopUnhandled x.env w.turns s
    return ended.map fun s => (s, files)

/-- The beginning of `main`, up to Alice's account: the wallet, and the provider. -/
def started (x : ExampleProgram) (w : Circumstances) (d : Device) :
    Except Fault (SAccounts × Provider) := do
  let p := providerInit .zero (some x.serverTokenHeader)
  -- a failure of `http_init` ends `vertices_new` before the tables are set up
  let wallet := if w.easyInit then sAccountInit else Vector.replicate _ .zero
  let (_, wallet) ← verticesWalletLoad x.sodium w.loadSodium w.load d.wallet examplePassword wallet
  let (_, p) ← providerPing p (w.get w.health)
  let (_, _, p) ← providerVersionGet x.env.cJSON_Parse p (w.get w.version) .zero
  return (wallet, p)

/-- `main`, and what it leaves. -/
def main (x : ExampleProgram) (c : Config) (w : Circumstances) (d : Device) :
    Except Fault (Option Device) := do
  let (wallet, p) ← x.started w d
  let (alice, wallet, p) ← x.aliceAccount w wallet p
  let (_, mnemonic) ←
    verticesMnemonicFromAccount x.sha512 x.ed25519 w.exportSodium w.pointers exampleName wallet
  match mnemonic with
  -- the pointer is printed, whether it has been set or not
  | none => throw .nullDeref
  | some _ => do
      let (err, bob, accounts, p) ←
        accountNew x.env.reader x.accountReceiver (w.get w.receiver) accountInit p
      let wallet := if err = .errorNoMem then sAccountInit else wallet
      match alice.vtcAccount with
      | none => throw .nullDeref
      | some info =>
          if info.amount < balanceNeeded then return some d
          else
            match bob with
            | none => throw .nullDeref
            | some bob => do
                let ended ← x.payAndProcess (c := c) w alice info
                  (accounts.get bob).account.info.publicKey (Sdk.init c p accounts) d.files
                match ended with
                | none => return none
                | some (s, files) => do
                    -- what follows the save works on the tables of the ending process only
                    let (_, file) ← sAccountSave x.sodium w.saveSodium w.save d.wallet
                      examplePassword wallet
                    return some ⟨file, files, d.posted ++ (posts s.history).map Prod.snd⟩

/-! ## What a process comes to -/

theorem get_cases {pointers : RecordPointers} {wallet : SAccounts} {name : CStr} {err : RetCode}
    {found : Option SAccount} (h : sAccountGetByName pointers wallet name = .ok (err, found)) :
    (err = .errorNotFound ∧ found = none) ∨ err = .success ∧ ∃ account, found = some account := by
  obtain ⟨slot, -, h⟩ := bind_eq_ok.mp h
  split at h
  · obtain ⟨rfl, rfl⟩ := pure_eq_ok2.mp h
    exact .inl ⟨rfl, rfl⟩
  · obtain ⟨rfl, rfl⟩ := pure_eq_ok2.mp h
    exact .inr ⟨rfl, _, rfl⟩

/-- The phrase makes no account: what there is of Alice has been found in the wallet. -/
theorem aliceAccount_cases {x : ExampleProgram} {w : Circumstances} {wallet wallet' : SAccounts}
    {p p' : Provider} {alice : SAccount} (h : x.aliceAccount w wallet p = .ok (alice, wallet', p')) :
    wallet' = wallet ∧
      (alice = .zero ∨ sAccountGetByName w.pointers wallet exampleName = .ok (.success, some alice)) := by
  obtain ⟨⟨err, found⟩, hget, h⟩ := bind_eq_ok.mp h
  rcases get_cases hget with ⟨rfl, rfl⟩ | ⟨rfl, account, rfl⟩
  · dsimp only at h
    rw [if_pos rfl] at h
    obtain ⟨⟨code, slot, wallet₁, p₁⟩, hnew, hmade⟩ := bind_eq_ok.mp h
    obtain ⟨rfl, rfl, -⟩ := pure_eq_ok3.mp hmade
    obtain ⟨rfl, rfl⟩ := newFromMnemonic_unchanged hnew
    exact ⟨rfl, .inl rfl⟩
  · obtain ⟨rfl, rfl, -⟩ := pure_eq_ok3.mp h
    exact ⟨rfl, .inr hget⟩

/-- Bob's account gets an entry, whatever the node answers. -/
theorem accountNew_accountInit {R : MpackReader} {publicB32 : B32Ptr} {reply : HttpReply}
    {p p' : Provider} {err : RetCode} {slot : Option (Fin accountsMaximumCount)}
    {accounts : MAccounts} (h : accountNew R publicB32 reply accountInit p = .ok (err, slot, accounts, p')) :
    err = reply.err ∧ ∃ i, slot = some i ∧
      (accounts.get i).account.info.publicKey = publicB32.identity.publicKey := by
  have hfree : ∀ j, (accountInit.get j).status = .none := fun j =>
    congrArg LocalAccount.status (get_accountInit j)
  rcases accountNew_cases h with ⟨-, -, -, hfull⟩ | ⟨i, d, rfl, rfl, -, rfl⟩
  · exact absurd (hfree 0) (hfull 0)
  · refine ⟨rfl, i, rfl, ?_⟩
    have hi : (accountInit.set i.val ⟨d, .added⟩ i.isLt).get i = ⟨d, .added⟩ := get_set_self _ i _
    rcases accountNew_opens h with ⟨hsame, -⟩ | ⟨k, a, -, howner, hset⟩
    · rw [hsame] at hi
      exact absurd (congrArg LocalAccount.status hi) (by rw [hfree i]; exact AccountStatus.noConfusion)
    · rw [hset, get_set] at hi
      split at hi
      · subst hi
        rw [hset, get_set, if_pos ‹_›]
        exact congrArg Identity.publicKey (Option.some.inj howner)
      · exact absurd (congrArg LocalAccount.status hi)
          (by rw [hfree i]; exact AccountStatus.noConfusion)

/-- How a process goes on with Alice's account, `wallet` being the one that was loaded. -/
inductive GoesOn (x : ExampleProgram) (c : Config) (w : Circumstances) (d : Device)
    (wallet : SAccounts) (alice : SAccount) (info : AccountInfo) : Option Device → Prop
  | poor (balance : info.amount < balanceNeeded) : GoesOn x c w d wallet alice info (some d)
  | unfinished {p : Provider} {accounts : MAccounts}
      (pays : x.payAndProcess w alice info x.accountReceiver.identity.publicKey
        (Sdk.init c p accounts) d.files = .ok none) : GoesOn x c w d wallet alice info none
  | finished {p : Provider} {accounts : MAccounts} {s : Sdk c} {files : Files} {err : RetCode}
      {file : Option (List UInt8)} (balance : ¬ info.amount < balanceNeeded)
      (pays : x.payAndProcess w alice info x.accountReceiver.identity.publicKey
        (Sdk.init c p accounts) d.files = .ok (some (s, files)))
      (saves : sAccountSave x.sodium w.saveSodium w.save d.wallet examplePassword wallet =
        .ok (err, file)) :
      GoesOn x c w d wallet alice info (some ⟨file, files, d.posted ++ (posts s.history).map Prod.snd⟩)

theorem exampleName_short : exampleName.strlen < accountNameLength := by decide +kernel

/-- The name is shorter than its field, so where the records are does not matter. -/
theorem get_example (pointers pointers' : RecordPointers) (wallet : SAccounts) :
    sAccountGetByName pointers wallet exampleName = sAccountGetByName pointers' wallet exampleName := by
  rw [sAccountGetByName, sAccountGetByName, findByName_of_short exampleName_short pointers']

theorem not_found_init (pointers : RecordPointers) :
    sAccountGetByName pointers sAccountInit exampleName = .ok (.errorNotFound, none) := by
  rw [get_example pointers noPointers]
  decide +kernel

theorem started_load {x : ExampleProgram} {w : Circumstances} {d : Device} {wallet : SAccounts}
    {p : Provider} (h : x.started w d = .ok (wallet, p)) : ∃ code,
      sAccountLoad x.sodium w.loadSodium w.load d.wallet examplePassword sAccountInit =
        .ok (code, wallet) := by
  obtain ⟨⟨code, wallet'⟩, hload, h⟩ := bind_eq_ok.mp h
  obtain ⟨⟨ping, p₁⟩, -, h⟩ := bind_eq_ok.mp h
  obtain ⟨⟨code₂, version, p₂⟩, -, h⟩ := bind_eq_ok.mp h
  obtain ⟨rfl, -⟩ := pure_eq_ok2.mp h
  exact ⟨code, hload⟩

/-- A process that gets through has found Alice's account in the wallet it has loaded. -/
theorem main_cases {x : ExampleProgram} {w : Circumstances} {d : Device} {ended : Option Device}
    (h : x.main c w d = .ok ended) : ∃ wallet alice info,
      sAccountLoad x.sodium w.loadSodium w.load d.wallet examplePassword sAccountInit =
        .ok (.success, wallet) ∧
      sAccountGetByName w.pointers wallet exampleName = .ok (.success, some alice) ∧
      alice.vtcAccount = some info ∧ GoesOn x c w d wallet alice info ended := by
  obtain ⟨⟨wallet, p₂⟩, hstarted, h⟩ := bind_eq_ok.mp h
  obtain ⟨code, hload⟩ := started_load hstarted
  obtain ⟨⟨alice, wallet₁, p₃⟩, halice, h⟩ := bind_eq_ok.mp h
  obtain ⟨⟨code₃, mnemonic⟩, hexport, h⟩ := bind_eq_ok.mp h
  obtain ⟨hwallet, halice⟩ := aliceAccount_cases halice
  dsimp only at hwallet h
  rw [hwallet] at h
  split at h
  · cases h
  · obtain ⟨⟨err, bob, accounts, p₄⟩, hnew, h⟩ := bind_eq_ok.mp h
    obtain ⟨rfl, i, rfl, hbob⟩ := accountNew_accountInit hnew
    dsimp only at h
    rw [if_neg (w.get_ne_noMem _)] at h
    split at h
    · cases h
    · next info hinfo =>
        rcases halice with rfl | hfound
        · cases hinfo
        · have hsuccess : code = .success := by
            by_contra hfailed
            rw [(sAccountLoad_cases hload).2 hfailed] at hfound
            cases hfound.symm.trans (not_found_init _)
          rw [hsuccess] at hload
          refine ⟨wallet, alice, info, hload, hfound, hinfo, ?_⟩
          rw [hbob] at h
          split at h
          · next hpoor =>
              obtain rfl := pure_eq_ok.mp h
              exact .poor hpoor
          · next hrich =>
              obtain ⟨ran, hpays, h⟩ := bind_eq_ok.mp h
              split at h
              · obtain rfl := pure_eq_ok.mp h
                exact .unfinished hpays
              · obtain ⟨⟨code, file⟩, hsave, h⟩ := bind_eq_ok.mp h
                obtain rfl := pure_eq_ok.mp h
                exact .finished hrich hpays hsave

/-! ## One payment in the loop -/

section

variable {env : Env} {x : UnixExample} {b : Fin pendingTxCount} {body : List UInt8} {turn : Turn}
  {s t : Sdk c} {files files' : Files}

/-- The payment in slot `b` is to be signed, is to be sent, or has been sent. -/
inductive InLoop (x : UnixExample) (b : Fin pendingTxCount) (body : List UInt8) (s : Sdk c) : Prop
  | ready (events : s.events = [⟨.txReadyToSign, b⟩]) (signable : Signable body (s.slot b))
      (silent : posts s.history = [])
  | signed (events : s.events = [⟨.txSending, b⟩]) (signable : Signable body (s.slot b))
      (signature : (s.slot b).signature = x.sign body) (silent : posts s.history = [])
  | sent (events : s.events = [⟨.txSuccess, b⟩] ∨ s.events = [])
      (posted : posts s.history = [(b, postBytes (x.sign body).toList body)])

/-- Nothing has been posted, or the payment has, once. -/
def PostedOnce (x : UnixExample) (b : Fin pendingTxCount) (body : List UInt8) (s : Sdk c) : Prop :=
  posts s.history = [] ∨ posts s.history = [(b, postBytes (x.sign body).toList body)]

theorem InLoop.postedOnce (h : InLoop x b body s) : PostedOnce x b body s := by
  cases h with
  | ready _ _ silent | signed _ _ _ silent => exact .inl silent
  | sent _ posted => exact .inr posted

@[simp] theorem posts_record (s : Sdk c) (obs : Obs) :
    posts (s.record obs).history = posts s.history ++ posts [obs] := posts_append _ _

@[simp] theorem posts_pop (s : Sdk c) : posts s.pop.history = posts s.history := by
  show posts (s.history ++ [.dequeued _]) = _
  rw [posts_append]
  exact List.append_nil _

@[simp] theorem posts_schedule (s : Sdk c) (evt : VtcEvt) :
    posts (s.schedule evt).2.history = posts s.history := by
  rw [s.history_schedule, posts_append]
  split <;> exact List.append_nil _

theorem InLoop.ready_pass {result : ProcessResult} (events : s.events = [⟨.txReadyToSign, b⟩])
    (signable : Signable body (s.slot b)) (silent : posts s.history = [])
    (h : x.eventProcess env turn s files = .ok (result, t, files')) :
    PostedOnce x b body t ∧ (result.err = .success → InLoop x b body t) := by
  have hsilent : posts (s.sign b (x.sign body)).history = [] := by
    show posts (s.history ++ [.signed b _]) = []
    rw [posts_append, silent]
    rfl
  rw [eventProcess_ready env turn files events signable] at h
  rcases (s.sign b (x.sign body)).schedule_cases ⟨.txSending, b⟩ with ⟨-, queue, hq, hs⟩ | ⟨-, hs⟩
  · rw [hs] at h
    obtain ⟨rfl, rfl, -⟩ := pure_eq_ok3.mp h
    have hq : queue.events = ⟨.txReadyToSign, b⟩ :: [⟨.txSending, b⟩] := by
      rw [hq]
      show s.events ++ _ = _
      rw [events]
      rfl
    have hslot : (s.sign b (x.sign body)).slot b = { s.slot b with signature := x.sign body } :=
      Sdk.slot_setSlot_self _ _ _
    have hposts : posts ((({ s.sign b (x.sign body) with mEventsQueue := queue } : Sdk c).record
        (.queued ⟨.txSending, b⟩)).pop).history = [] := by
      rw [posts_pop, posts_record]
      show posts (s.sign b (x.sign body)).history ++ [] = []
      rw [hsilent]
      rfl
    refine ⟨.inl hposts, fun _ => .signed (VtcEventsBuf.head_eq hq).2 ?_ ?_ hposts⟩
    · show Signable body ((s.sign b (x.sign body)).slot b)
      rw [hslot]
      exact signable.of_payload rfl rfl rfl
    · show ((s.sign b (x.sign body)).slot b).signature = _
      rw [hslot]
  · rw [hs] at h
    obtain ⟨rfl, rfl, -⟩ := pure_eq_ok3.mp h
    exact ⟨.inl hsilent, fun hok => RetCode.noConfusion hok⟩

/-- Sending posts the payment once, whatever comes of it. -/
theorem sending_posts {reply : HttpReply} {err : RetCode} (hR : env.reader.Lawful)
    (signable : Signable body (s.slot b)) (signature : (s.slot b).signature = x.sign body)
    (silent : posts s.history = []) (h : Sending env b reply s err t) :
    posts t.history = [(b, postBytes (x.sign body).toList body)] ∧
      (t.events = s.events ∨ t.events = s.events ++ [⟨.txSuccess, b⟩]) := by
  have hholds : (s.slot b).HoldsLetter (some ⟨.encoded body, x.sign body⟩) := ⟨signable, signature⟩
  cases h with
  | notPending free => exact absurd signable.occupied free
  | @posted _ _ _ bytes request _ p _ sign postBody post _ =>
      obtain ⟨-, hrequest, -⟩ := providerTxPost_err post
      refine ⟨?_, .inl rfl⟩
      show posts (s.history ++ [.httpPost b request _ _]) = _
      rw [posts_append, silent]
      show [(b, request.body)] = _
      rw [hrequest, (hholds.post hR sign postBody).1]
      rfl
  | @succeeded _ slot bytes request id p _ sign postBody post =>
      obtain ⟨-, hrequest, -⟩ := providerTxPost_err post
      refine ⟨?_, events_schedule _ _⟩
      rw [posts_schedule]
      show posts (s.history ++ [.httpPost b request _ _]) = _
      rw [posts_append, silent]
      show [(b, request.body)] = _
      rw [hrequest, (hholds.post hR sign postBody).1]
      rfl

theorem handler_sending_sdk {evt : VtcEvt} {err : RetCode} (htype : evt.type = .txSending)
    (h : x.verticesEvtHandler turn evt s files = .ok (err, t, files')) : t = s := by
  rw [verticesEvtHandler, htype] at h
  obtain ⟨⟨err₁, files₁⟩, -, h⟩ := bind_eq_ok.mp h
  exact (pure_eq_ok3.mp h).2.1.symm

theorem InLoop.signed_pass {result : ProcessResult} (hR : env.reader.Lawful)
    (events : s.events = [⟨.txSending, b⟩]) (signable : Signable body (s.slot b))
    (signature : (s.slot b).signature = x.sign body) (silent : posts s.history = [])
    (h : Pass env x turn s files result t files') :
    PostedOnce x b body t ∧ (result.err = .success → InLoop x b body t) := by
  have hhead : s.mEventsQueue.head = ⟨.txSending, b⟩ := (VtcEventsBuf.head_eq events).1
  have hpre : ∀ {err : RetCode} {u : Sdk c}, preProcess env turn.reply s = .ok (err, u) →
      posts u.history = [(b, postBytes (x.sign body).toList body)] ∧
        (u.events = s.events ∨ u.events = s.events ++ [⟨.txSuccess, b⟩]) := by
    intro err u pre
    rcases preProcess_cases pre with ⟨-, b', hb, hs⟩ | ⟨htype, -⟩
    · obtain rfl : b' = b := Fin.ext (hb.trans (by rw [hhead]))
      exact sending_posts hR signable signature silent hs
    · exact absurd (by rw [hhead]) htype
  cases h with
  | empty hnil => cases events.symm.trans hnil
  | preFailed _ pre failed => exact ⟨.inr (hpre pre).1, fun hok => absurd hok failed⟩
  | @userFailed _ u _ _ _ pre user failed =>
      have hsame := (preProcess_appends pre).head (by rw [events]; exact List.cons_ne_nil _ _)
      obtain rfl := handler_sending_sdk (by rw [hsame.1, hhead]) user
      exact ⟨.inr (hpre pre).1, fun hok => absurd hok failed⟩
  | @done _ u _ v _ _ pre user post =>
      have hsame := (preProcess_appends pre).head (by rw [events]; exact List.cons_ne_nil _ _)
      have hu : u.mEventsQueue.head = ⟨.txSending, b⟩ := hsame.1.trans hhead
      obtain rfl := handler_sending_sdk (by rw [hu]) user
      obtain ⟨hposts, hevents⟩ := hpre pre
      obtain ⟨-, ⟨htype, -⟩ | ⟨-, -, rfl⟩⟩ := postProcess_cases post
      · rw [hu] at htype
        cases htype
      · have hpop : posts v.pop.history = [(b, postBytes (x.sign body).toList body)] := by
          rw [posts_pop, hposts]
        refine ⟨.inr hpop, fun _ => .sent ?_ hpop⟩
        rw [events] at hevents
        rcases hevents with hevents | hevents
        · exact .inr (VtcEventsBuf.head_eq hevents).2
        · exact .inl (VtcEventsBuf.head_eq hevents).2

theorem InLoop.sent_pass {result : ProcessResult}
    (events : s.events = [⟨.txSuccess, b⟩] ∨ s.events = [])
    (posted : posts s.history = [(b, postBytes (x.sign body).toList body)])
    (h : Pass env x turn s files result t files') : InLoop x b body t := by
  rcases events with events | events
  · have hhead : s.mEventsQueue.head = ⟨.txSuccess, b⟩ := (VtcEventsBuf.head_eq events).1
    have hpre : ∀ {err : RetCode} {u : Sdk c}, preProcess env turn.reply s = .ok (err, u) → u = s := by
      intro err u pre
      rcases preProcess_cases pre with ⟨htype, -⟩ | ⟨-, -, rfl⟩
      · rw [hhead] at htype
        cases htype
      · rfl
    have huser : ∀ {err : RetCode} {u : Sdk c}, x.verticesEvtHandler turn s.mEventsQueue.head s files =
        .ok (err, u, files') → u = s := by
      intro err u user
      rw [hhead] at user
      exact (pure_eq_ok3.mp user).2.1.symm
    cases h with
    | empty hnil => cases events.symm.trans hnil
    | preFailed _ pre _ =>
        obtain rfl := hpre pre
        exact .sent (.inl events) posted
    | userFailed _ pre user _ =>
        obtain rfl := hpre pre
        obtain rfl := huser user
        exact .sent (.inl events) posted
    | @done _ _ v _ _ _ pre user post =>
        obtain rfl := hpre pre
        obtain rfl := huser user
        have hlast : ∀ u : Sdk c, u.events = v.events → posts u.history = posts v.history →
            InLoop x b body u.pop := by
          intro u hevents hposts
          refine .sent (.inr (VtcEventsBuf.head_eq (hevents.trans events)).2) ?_
          rw [posts_pop, hposts, posted]
        obtain ⟨-, ⟨-, b', -, -, -, rfl⟩ | ⟨-, -, rfl⟩⟩ := postProcess_cases post
        · refine hlast _ rfl ?_
          rw [posts_record]
          exact List.append_nil _
        · exact hlast _ rfl rfl
  · cases h with
    | empty _ => exact .sent (.inr events) posted
    | preFailed hne _ _ | userFailed hne _ _ _ | done hne _ _ _ => exact absurd events hne

/-- Whatever the node answers, and whether the files can be opened: a pass posts the payment
at most once. -/
theorem InLoop.pass {result : ProcessResult} (hR : env.reader.Lawful) (hs : InLoop x b body s)
    (h : x.eventProcess env turn s files = .ok (result, t, files')) :
    PostedOnce x b body t ∧ (result.err = .success → InLoop x b body t) := by
  cases hs with
  | ready events signable silent => exact InLoop.ready_pass events signable silent h
  | signed events signable signature silent =>
      exact InLoop.signed_pass hR events signable signature silent (eventProcess_pass h)
  | sent events posted =>
      have ht := InLoop.sent_pass events posted (eventProcess_pass h)
      exact ⟨ht.postedOnce, fun _ => ht⟩

/-- So does the loop. -/
theorem InLoop.mainLoop (hR : env.reader.Lawful) {turns : List Turn} {err : RetCode}
    {st st' : LoopState c} (hs : InLoop x b body st.sdk)
    (h : x.mainLoop env turns st = .ok (some (err, st'))) : PostedOnce x b body st'.sdk := by
  induction turns generalizing st with
  | nil => cases pure_eq_ok.mp h
  | cons turn turns ih =>
      obtain ⟨⟨result, sdk, files⟩, hpass, h⟩ := bind_eq_ok.mp h
      obtain ⟨honce, hgoes⟩ := hs.pass hR hpass
      dsimp only at h
      split at h
      · next hgo => exact ih (hgoes hgo.1) h
      · cases pure_eq_ok.mp h
        exact honce

/-- Without a handler the event to sign is dropped. -/
theorem loopUnhandled_silent {turns : List Turn} {s' : Sdk c}
    (events : s.events = [⟨.txReadyToSign, b⟩] ∨ s.events = []) (silent : posts s.history = [])
    (h : loopUnhandled env turns s = .ok (some s')) : posts s'.history = [] := by
  induction turns generalizing s with
  | nil => cases pure_eq_ok.mp h
  | cons turn turns ih =>
      obtain ⟨⟨result, t⟩, hprocess, h⟩ := bind_eq_ok.mp h
      have ht : posts t.history = [] ∧ (t.events = [⟨.txReadyToSign, b⟩] ∨ t.events = []) := by
        have hhead (he : s.events ≠ []) : s.mEventsQueue.head = ⟨.txReadyToSign, b⟩ :=
          (VtcEventsBuf.head_eq (events.resolve_right he)).1
        have hpre : ∀ {err : RetCode} {u : Sdk c}, s.events ≠ [] →
            preProcess env turn.reply s = .ok (err, u) → err = .success ∧ u = s := by
          intro err u he pre
          rcases preProcess_cases pre with ⟨htype, -⟩ | ⟨-, hok, hu⟩
          · rw [hhead he] at htype
            cases htype
          · exact ⟨hok, hu⟩
        cases verticesEventProcess_processing hprocess with
        | empty _ => exact ⟨silent, events⟩
        | preFailed he pre failed => exact absurd (hpre he pre).1 failed
        | userFailed he pre user failed =>
            exact absurd (pure_eq_ok2.mp user).1.symm failed
        | @done _ _ _ v he pre user post =>
            obtain ⟨-, rfl⟩ := hpre he pre
            obtain ⟨-, rfl⟩ := pure_eq_ok2.mp user
            obtain ⟨-, ⟨htype, -⟩ | ⟨-, -, rfl⟩⟩ := postProcess_cases post
            · rw [hhead he] at htype
              cases htype
            · exact ⟨by rw [posts_pop, silent], .inr (VtcEventsBuf.head_eq (events.resolve_right he)).2⟩
      dsimp only at h
      split at h
      · exact ih ht.2 ht.1 h
      · cases pure_eq_ok.mp h
        exact ht.1

/-- A payment that is created waits for the loop; any other call leaves nothing to post. -/
theorem transactionPay_inLoop (hW : env.writer.Lawful) {info : AccountInfo}
    {receiver : Vector UInt8 addressLength} {amount : UInt64} {note : Option CStr} {reply : HttpReply}
    {p : Provider} {accounts : MAccounts} {err : RetCode}
    (h : transactionPay env (.other info) receiver amount note reply (Sdk.init c p accounts) =
      .ok (err, t)) :
    posts t.history = [] ∧ (err = .success →
      ∃ (b : Fin pendingTxCount) (body : List UInt8) (m : Meaning),
        decode body = some (.map m.pairs, []) ∧ m.sender = info.publicKey ∧ m.note = note ∧
        m.action = .pay receiver amount ∧ t.events = [⟨.txReadyToSign, b⟩] ∧
        Signable body (t.slot b)) := by
  have hinit : (Sdk.init c p accounts).events = [] := VtcEventsBuf.events_zero c
  cases transactionPay_creation h with
  | noMem _ | invalidParam _ _ => exact ⟨rfl, RetCode.noConfusion⟩
  | noParams _ _ _ unusable =>
      refine ⟨rfl, ?_⟩
      rintro rfl
      cases unusable
  | notEncoded _ _ _ _ _ failed => exact ⟨rfl, fun hok => absurd hok failed⟩
  | @scheduled _ _ tx q slot free accepted load _ encode =>
      obtain ⟨hsender, hnote, htx⟩ := providerTxParamsLoad_sameRequest load
      have hpay : tx.details.tx = .pay { receiver := receiver, amount := amount } := htx
      have haccepted : noteAccepted c tx.details.note = true := by rw [hnote]; exact accepted
      obtain ⟨-, ops, hops, henc⟩ := encodeTx_request hW (.inl ⟨_, hpay⟩) haccepted encode
      refine ⟨?_, fun hok => ?_⟩
      · rw [Sdk.scheduleReadyToSign]
        exact posts_schedule _ _
      · rcases Sdk.scheduleReadyToSign_cases
          (((Sdk.init c p accounts).loaded q).setSlot (Sdk.init c p accounts).mTxBufferIdx slot) with
          ⟨-, -, hevents, -⟩ | ⟨-, hfull⟩
        · have hmeans := ((Transaction.Means.pay hpay).writtenAs hops).decode_body haccepted hops
          refine ⟨(Sdk.init c p accounts).mTxBufferIdx, opBytes ops, _, hmeans, hsender, hnote, rfl,
            hevents.trans ?_, ?_⟩
          · show (Sdk.init c p accounts).events ++ _ = _
            rw [hinit]
            rfl
          · rw [Sdk.slot_scheduleReadyToSign]
            show Signable _ (Sdk.slot (Sdk.setSlot _ _ _) _)
            rw [Sdk.slot_setSlot_self]
            exact henc.signable (le_opLength_bodyOps hops)
        · rw [hfull] at hok
          cases hok

end

/-! ## Runs of processes -/

/-- The request asks for the payment of `main`, from Alice's account, and is signed with her
keys. -/
def Pays (x : ExampleProgram) (alice : SAccount) (info : AccountInfo) (request : List UInt8) : Prop :=
  ∃ (m : Meaning) (body : List UInt8), decode body = some (.map m.pairs, []) ∧
    m.sender = info.publicKey ∧ m.note = some exampleNotes ∧
    m.action = .pay x.accountReceiver.identity.publicKey amountSent ∧
    request = postBytes ((x.handler alice info).sign body).toList body

theorem payAndProcess_posts {x : ExampleProgram} {w : Circumstances} {alice : SAccount}
    {info : AccountInfo} {p : Provider} {accounts : MAccounts} {s : Sdk c} {files files' : Files}
    (hW : x.env.writer.Lawful) (hR : x.env.reader.Lawful)
    (h : x.payAndProcess w alice info x.accountReceiver.identity.publicKey (Sdk.init c p accounts)
      files = .ok (some (s, files'))) :
    ((posts s.history).map Prod.snd).length ≤ 1 ∧
      ∀ request ∈ (posts s.history).map Prod.snd, x.Pays alice info request := by
  obtain ⟨⟨err, t⟩, hpay, h⟩ := bind_eq_ok.mp h
  obtain ⟨hsilent, hcreated⟩ := transactionPay_inLoop hW hpay
  have hnone : ∀ {u : Sdk c}, posts u.history = [] → ((posts u.history).map Prod.snd).length ≤ 1 ∧
      ∀ request ∈ (posts u.history).map Prod.snd, x.Pays alice info request := by
    intro u hu
    simp [hu]
  dsimp only at h
  split at h
  · cases pure_eq_ok.mp h
    exact hnone hsilent
  · next hok =>
      obtain ⟨b, body, m, hdecode, hsender, hnote, haction, hevents, hsignable⟩ :=
        hcreated (not_not.mp hok)
      split at h
      · obtain ⟨ended, hloop, h⟩ := bind_eq_ok.mp h
        match ended, pure_eq_ok.mp h with
        | some (code, st), hended =>
            cases hended
            rcases InLoop.mainLoop hR (.ready hevents hsignable hsilent) hloop with hposts | hposts
            · exact hnone hposts
            · rw [hposts]
              refine ⟨Nat.le_refl 1, fun request hrequest => ?_⟩
              rw [List.mem_singleton.mp hrequest]
              exact ⟨m, body, hdecode, hsender, hnote, haction, rfl⟩
      · obtain ⟨ended, hloop, h⟩ := bind_eq_ok.mp h
        match ended, pure_eq_ok.mp h with
        | some u, hended =>
            cases hended
            exact hnone (loopUnhandled_silent (.inl hevents) hsilent hloop)

/-- A process that ends. -/
def ProcessStep (x : ExampleProgram) (c : Config) (d : Device) (w : Circumstances) (d' : Device) :
    Prop :=
  x.main c w d = .ok (some d')

/-- The wallet's file is a save of this wallet. -/
def Saved (x : ExampleProgram) (wallet : SAccounts) (file : Option (List UInt8)) : Prop :=
  ∃ env old, saveAccountData x.sodium env old examplePassword wallet = .ok (.success, file)

/-- Alice's account, in this wallet. -/
structure HasAlice (wallet : SAccounts) (alice : SAccount) (info : AccountInfo) : Prop where
  found : ∀ pointers, sAccountGetByName pointers wallet exampleName = .ok (.success, some alice)
  record : alice.vtcAccount = some info

section

variable {x : ExampleProgram} {w : Circumstances} {d d' : Device} {wallet : SAccounts} {alice : SAccount}
  {info : AccountInfo}

theorem HasAlice.unique {alice' : SAccount} {info' : AccountInfo} (h' : HasAlice wallet alice' info')
    (h : HasAlice wallet alice info) : alice' = alice ∧ info' = info := by
  obtain rfl : alice' = alice :=
    Option.some.inj (Prod.mk.inj (Except.ok.inj ((h'.found noPointers).symm.trans (h.found noPointers)))).2
  exact ⟨rfl, Option.some.inj (h'.record.symm.trans h.record)⟩

theorem Saved.load (hS : x.sodium.Lawful) {file : Option (List UInt8)} (h : x.Saved wallet file)
    (env : LoadEnv secretAccountsMaximumCount) (old : SAccounts) :
    sAccountLoad x.sodium true env file examplePassword old = .ok (.success, wallet) := by
  obtain ⟨saveEnv, before, hsave⟩ := h
  exact loadAccountData_written hS hsave env old

/-- Saved again or not, the file is one of the same wallet. -/
theorem Saved.save {file file' : Option (List UInt8)} {sodiumInit : Bool}
    {env : SaveEnv secretAccountsMaximumCount} {err : RetCode} (h : x.Saved wallet file)
    (hsave : sAccountSave x.sodium sodiumInit env file examplePassword wallet = .ok (err, file')) :
    x.Saved wallet file' := by
  by_cases herr : err = .success
  · subst herr
    obtain ⟨-, hsave, -⟩ := sAccountSave_succeeded hsave
    exact ⟨env, file, hsave⟩
  · rw [sAccountSave_failed hsave herr]
    exact h

/-- A process that ends pays at most once, from the account in the wallet, and leaves this
wallet in the file. -/
theorem ProcessStep.pays (hS : x.sodium.Lawful) (hW : x.env.writer.Lawful) (hR : x.env.reader.Lawful)
    (hsaved : x.Saved wallet d.wallet) (h : x.ProcessStep c d w d') :
    ∃ alice info requests, HasAlice wallet alice info ∧ x.Saved wallet d'.wallet ∧
      d'.posted = d.posted ++ requests ∧ requests.length ≤ 1 ∧
      (info.amount < balanceNeeded → requests = []) ∧
      ∀ request ∈ requests, x.Pays alice info request := by
  obtain ⟨loaded, alice, info, hload, hget, hinfo, hgoes⟩ := main_cases h
  have hfound : ∀ pointers, sAccountGetByName pointers loaded exampleName = .ok (.success, some alice) :=
    fun pointers => (get_example pointers w.pointers loaded).trans hget
  obtain ⟨hinit, -⟩ := (sAccountLoad_cases hload).1.mp rfl
  rw [hinit, hsaved.load hS] at hload
  obtain ⟨-, rfl⟩ := Prod.mk.inj (Except.ok.inj hload)
  cases hgoes with
  | poor _ =>
      exact ⟨alice, info, [], ⟨hfound, hinfo⟩, hsaved, (List.append_nil _).symm, Nat.zero_le 1,
        fun _ => rfl, fun _ hrequest => nomatch hrequest⟩
  | finished rich pays saves =>
      obtain ⟨honce, hpays⟩ := payAndProcess_posts hW hR pays
      exact ⟨alice, info, _, ⟨hfound, hinfo⟩, hsaved.save saves, rfl, honce,
        fun hpoor => absurd hpoor rich, hpays⟩

/-- **The same account, after every restart**: on a device whose wallet holds Alice's account,
all processes that end, whatever they meet, pay from that account, signed with its keys, at
most once each; its wallet stays the one in the file, balance included, so whether they pay
at all was decided when it was saved. -/
theorem same_account_after_restarts (hS : x.sodium.Lawful) (hW : x.env.writer.Lawful)
    (hR : x.env.reader.Lawful) {ws : List Circumstances} (hsaved : x.Saved wallet d.wallet)
    (halice : HasAlice wallet alice info) (hrun : Run (x.ProcessStep c) d ws d') :
    x.Saved wallet d'.wallet ∧ ∃ requests, d'.posted = d.posted ++ requests ∧
      requests.length ≤ ws.length ∧ (info.amount < balanceNeeded → requests = []) ∧
      ∀ request ∈ requests, x.Pays alice info request := by
  induction hrun with
  | nil d => exact ⟨hsaved, [], (List.append_nil _).symm, Nat.le_refl 0, fun _ => rfl,
      fun _ hrequest => nomatch hrequest⟩
  | @cons d u d' w ws hstep hrun ih =>
      obtain ⟨alice', info', requests, halice', hsaved', hposted, honce, hpoor, hpays⟩ :=
        hstep.pays hS hW hR hsaved
      obtain ⟨rfl, rfl⟩ := halice'.unique halice
      obtain ⟨hlast, later, hposted', hlength, hpoor', hpays'⟩ := ih hsaved'
      refine ⟨hlast, requests ++ later, ?_, ?_, fun h => ?_, fun request hrequest => ?_⟩
      · rw [hposted', hposted, List.append_assoc]
      · rw [List.length_append, List.length_cons]
        omega
      · rw [hpoor h, hpoor' h]
        rfl
      · exact (List.mem_append.mp hrequest).elim (hpays request) (hpays' request)

/-- The phrase of the example is made of words of the list, so the eleven bits of its last
word reach past the block of the seed. -/
theorem exampleMnemonic_outOfBounds (H : MbedtlsSha512) :
    seedFromMnemonic H { wordVec := englishVec, wordMap := englishVec.zipIdx } exampleMnemonic =
      .error .outOfBounds := by
  have hwords : (makeWordVector exampleMnemonic).length = 25 ∧
      ∀ word ∈ makeWordVector exampleMnemonic, word ∈ englishVec := by decide +kernel
  rw [seedFromMnemonic_25 hwords.1, if_pos hwords.2]

/-- **The example needs a wallet**: on a device whose wallet does not open under its password,
or holds no account of the name, every process that gets as far as Alice's account imports the
phrase, and so writes past the block of the seed.  What comes of that is not defined: here it
is the end of the process, so none makes an account, or a wallet. -/
theorem main_needs_wallet (x : ExampleProgram) (c : Config) {d : Device}
    (hnone : ∀ env wallet alice,
      sAccountLoad x.sodium true env d.wallet examplePassword sAccountInit = .ok (.success, wallet) →
        sAccountGetByName noPointers wallet exampleName ≠ .ok (.success, some alice))
    (w : Circumstances) :
    (∃ fault, x.started w d = .error fault ∧ x.main c w d = .error fault) ∨
      ∃ wallet p, x.started w d = .ok (wallet, p) ∧
        sAccountGetByName w.pointers wallet exampleName = .ok (.errorNotFound, none) ∧
        sAccountExists w.pointers wallet exampleName = .ok false ∧
        seedFromMnemonic x.sha512 { wordVec := englishVec, wordMap := englishVec.zipIdx }
          exampleMnemonic = .error .outOfBounds ∧
        x.main c w d = .error .outOfBounds := by
  cases hstarted : x.started w d with
  | error fault =>
      refine .inl ⟨fault, rfl, ?_⟩
      rw [main, hstarted]
      rfl
  | ok r =>
      obtain ⟨wallet, p⟩ := r
      obtain ⟨code, hload⟩ := started_load hstarted
      obtain ⟨found, hfind⟩ : ∃ found, findByName w.pointers wallet exampleName (List.finRange _) =
          .ok found := findByName_returns exampleName_short _
      have hmissing : found = none := by
        by_contra hsome
        obtain ⟨i, rfl⟩ := Option.ne_none_iff_exists'.mp hsome
        obtain ⟨-, hget⟩ := lookups_of_stop hfind
        by_cases hcode : code = .success
        · subst hcode
          obtain ⟨hinit, -⟩ := sAccountLoad_succeeded hload
          rw [hinit] at hload
          exact hnone _ _ _ hload ((get_example _ _ _).trans hget)
        · rw [(sAccountLoad_cases hload).2 hcode] at hget
          cases hget.symm.trans (not_found_init _)
      subst hmissing
      have hget : sAccountGetByName w.pointers wallet exampleName = .ok (.errorNotFound, none) := by
        rw [sAccountGetByName, hfind]
        rfl
      have hexists : sAccountExists w.pointers wallet exampleName = .ok false := by
        rw [sAccountExists, hfind]
        rfl
      refine .inr ⟨wallet, p, rfl, hget, hexists, exampleMnemonic_outOfBounds x.sha512, ?_⟩
      have himport : ∀ reply stack, verticesSAccountNewFromMnemonic x.sha512 x.ed25519 x.env.reader
          w.newSodium w.pointers exampleMnemonic exampleName reply stack wallet p =
            .error .outOfBounds := by
        intro reply stack
        rw [newFromMnemonic_eq (Nat.not_lt.mpr exampleName_short.le) hexists,
          exampleMnemonic_outOfBounds]
        rfl
      have halice : x.aliceAccount w wallet p = .error .outOfBounds := by
        rw [aliceAccount, hget]
        dsimp only [bind, Except.bind]
        rw [if_pos rfl, himport]
      rw [main, hstarted]
      dsimp only [bind, Except.bind]
      rw [halice]

/-! ## Processes that do pay -/

/-- A process in which nothing goes wrong: the node answers, in answers that can be read, and
the mnemonic can be exported. -/
structure Favours (x : ExampleProgram) (alice : SAccount) (w : Circumstances) : Prop where
  easyInit : w.easyInit = true
  loadSodium : w.loadSodium = true
  health : ∀ p, ∃ r, providerPing p (w.get w.health) = .ok r
  version : ∀ p, p.version = .zero →
    ∃ r, providerVersionGet x.env.cJSON_Parse p (w.get w.version) .zero = .ok r
  exports : ∃ r m,
    verticesMnemonicFromSk x.sha512 x.ed25519 w.exportSodium alice.privateKey = .ok (r, some m)
  receiver : ∀ p d, ∃ r, providerAccountInfoGet x.env.reader p (w.get w.receiver) d = .ok r
  params : ∀ p tx, ∃ tx' p', providerTxParamsLoad x.env.cJSON_Parse p (w.get w.params) tx =
    .ok (.success, tx', p')
  turns : ∀ turn ∈ w.turns, turn.Good x.env
  enough : 3 ≤ w.turns.length

theorem transactionPay_succeeds {env : Env} (hW : env.writer.Lawful)
    {receiver : Vector UInt8 addressLength} {amount : UInt64} {note : Option CStr} {reply : HttpReply}
    {p : Provider} {accounts : MAccounts}
    (hnote : noteAccepted c note = true) (hroom : 1 < c.vtcEventsCount)
    (hparams : ∀ tx, ∃ tx' p',
      providerTxParamsLoad env.cJSON_Parse p reply tx = .ok (.success, tx', p')) :
    ∃ t, transactionPay env (.other info) receiver amount note reply (Sdk.init c p accounts) =
      .ok (.success, t) ∧ t.mProvider.header = p.header := by
  have hfree : ¬ (Sdk.init c p accounts).Occupied (Sdk.init c p accounts).mTxBufferIdx := by
    intro hocc
    exact hocc (congrArg SignedTransaction.payloadBodyLength (mirrors_init p accounts _))
  obtain ⟨tx, q, hload⟩ := hparams (payRequest (Sdk.init c p accounts) (.other info) receiver amount note)
  obtain ⟨-, hsame, htx⟩ := providerTxParamsLoad_sameRequest hload
  have haccepted : noteAccepted c tx.details.note = true := by rw [hsame]; exact hnote
  obtain ⟨slot, henc, -⟩ := encodeTx_pay hW htx haccepted
    (((Sdk.init c p accounts).loaded q).slot (Sdk.init c p accounts).mTxBufferIdx)
  have hheader : q.header = p.header := by
    let asked : Asked Nat := .txParamsLoad
      (payRequest (Sdk.init c p accounts) (.other info) receiver amount note)
    have hstep : RequestStep env.cJSON_Parse formatReader p (asked.request reply) q := by
      show (providerTxParamsLoad env.cJSON_Parse p reply _).map _ = _
      rw [hload]
      rfl
    exact request_header asked hstep
  refine ⟨(((Sdk.init c p accounts).loaded q).setSlot (Sdk.init c p accounts).mTxBufferIdx
    slot).scheduleReadyToSign.2, ?_, ?_⟩
  · rw [transactionPay, if_neg hfree, if_neg (by rw [hnote]; exact Bool.noConfusion)]
    refine bind_eq_ok.mpr ⟨_, hload, bind_eq_ok.mpr ⟨_, henc, ?_⟩⟩
    refine congrArg Except.ok (Prod.ext ?_ rfl)
    rcases Sdk.scheduleReadyToSign_cases
      (((Sdk.init c p accounts).loaded q).setSlot (Sdk.init c p accounts).mTxBufferIdx slot) with
      ⟨-, hok, -⟩ | ⟨hfull, -⟩
    · exact hok
    · refine absurd ?_ hfull
      show (Sdk.init c p accounts).events.length < _
      rw [show (Sdk.init c p accounts).events = [] from VtcEventsBuf.events_zero c]
      exact Nat.lt_sub_of_add_lt hroom
  · rw [← hheader, Sdk.scheduleReadyToSign]
    rcases Sdk.schedule_cases { ((Sdk.init c p accounts).loaded q).setSlot
      (Sdk.init c p accounts).mTxBufferIdx slot with mTxBufferIdx := _ } _ with
      ⟨-, queue, -, hs⟩ | ⟨-, hs⟩ <;> rw [hs] <;> rfl

variable (info) in
/-- With nothing in its way, the payment is posted, once. -/
theorem payAndProcess_succeeds (hW : x.env.writer.Lawful) (hR : x.env.reader.Lawful)
    (hnote : noteAccepted c (some exampleNotes) = true) (hroom : 2 < c.vtcEventsCount)
    {header : List UInt8} {p : Provider} (hheader : postHeader p.header = .ok header)
    (hw : x.Favours alice w) (accounts : MAccounts) (receiver : Vector UInt8 addressLength)
    (files : Files) : ∃ s files', x.payAndProcess w alice info receiver (Sdk.init c p accounts) files =
      .ok (some (s, files')) ∧ (posts s.history).length = 1 := by
  have hcall : ∃ t, transactionPay x.env (.other info) receiver amountSent (some exampleNotes)
      (w.get w.params) (Sdk.init c p accounts) = .ok (.success, t) ∧ t.mProvider.header = p.header :=
    transactionPay_succeeds hW hnote (by omega) (hw.params p)
  obtain ⟨t, hpay, hsame⟩ := hcall
  obtain ⟨hsilent, hcreated⟩ := transactionPay_inLoop hW hpay
  obtain ⟨b, body, -, -, -, -, -, hevents, hsignable⟩ := hcreated rfl
  have hwaiting : Waiting (x.handler alice info) (fun _ => body) [(b, 0)] t :=
    { staged := by simp [RoundRobin.Staged]
      nodup := List.nodup_singleton b
      events := hevents
      signable := fun e he => by rw [List.mem_singleton.mp he]; exact hsignable
      signed := fun e he hpos => by
        rw [List.mem_singleton.mp he] at hpos
        exact absurd hpos (Nat.lt_irrefl 0) }
  obtain ⟨st, hloop, hdrained⟩ := Waiting.mainLoop hR hwaiting.staged ⟨t, files, none⟩
    hwaiting (List.cons_ne_nil _ _) hroom (by rw [← hheader]; exact congrArg postHeader hsame) hw.turns
    hw.enough
  refine ⟨st.sdk, st.files, bind_eq_ok.mpr ⟨_, hpay, ?_⟩, ?_⟩
  · dsimp only
    rw [if_neg (not_not.mpr rfl), if_pos hw.easyInit]
    exact bind_eq_ok.mpr ⟨_, hloop, rfl⟩
  · rw [hdrained.posts, hsilent]
    rfl

theorem HasAlice.exports (halice : HasAlice wallet alice info) {H : MbedtlsSha512} {E : Ed25519}
    {sodiumInit : Bool} {r : RetCode × Option CStr}
    (h : verticesMnemonicFromSk H E sodiumInit alice.privateKey = .ok r) (pointers : RecordPointers) :
    verticesMnemonicFromAccount H E sodiumInit pointers exampleName wallet = .ok r := by
  have hexists : sAccountExists pointers wallet exampleName = .ok true := by
    obtain ⟨slot, hfind, hget⟩ := bind_eq_ok.mp (halice.found pointers)
    refine bind_eq_ok.mpr ⟨slot, hfind, ?_⟩
    cases slot with
    | none => cases (pure_eq_ok2.mp hget).1
    | some i => rfl
  rw [verticesMnemonicFromAccount, if_neg (by decide +kernel), hexists]
  show (sAccountGetByName pointers wallet exampleName >>= _) = _
  rw [halice.found]
  exact h

theorem accountNew_returns {R : MpackReader} (publicB32 : B32Ptr) {reply : HttpReply}
    (hreply : ∀ p d, ∃ r, providerAccountInfoGet R p reply d = .ok r) (p : Provider) :
    ∃ err slot accounts p', accountNew R publicB32 reply accountInit p = .ok (err, slot, accounts, p') ∧
      p'.header = p.header := by
  rw [accountNew.eq_def]
  split
  · exact ⟨_, _, _, p, rfl, rfl⟩
  · next i hfind =>
      obtain ⟨⟨err, d, p'⟩, hget⟩ := hreply p { accountInit[i].account with
        info := { fromB32Init publicB32 accountInit[i].account.info with publicB32 := publicB32.copied } }
      refine ⟨_, _, _, p', bind_eq_ok.mpr ⟨_, hget, rfl⟩, ?_⟩
      let asked : Asked Nat := .accountInfoGet { accountInit[i].account with
        info := { fromB32Init publicB32 accountInit[i].account.info with publicB32 := publicB32.copied } }
        (Vector.replicate _ 0)
      have hstep : RequestStep (fun _ => none) R p (asked.request reply) p' := by
        show (providerAccountInfoGet R p reply _).map _ = _
        rw [hget]
        rfl
      exact request_header asked hstep

/-- A wallet that has been saved once can be saved. -/
theorem Saved.returns {file : Option (List UInt8)} (h : x.Saved wallet file) (sodiumInit : Bool)
    (env : SaveEnv secretAccountsMaximumCount) (old : Option (List UInt8)) :
    ∃ r, sAccountSave x.sodium sodiumInit env old examplePassword wallet = .ok r := by
  obtain ⟨saveEnv, before, hsave⟩ := h
  obtain ⟨key, infos, box, hint, -, hinfos, -⟩ := saveAccountData_written hsave
  rw [sAccountSave]
  split
  · rw [saveAccountData, if_neg (Nat.not_le.mpr hint)]
    split
    · exact ⟨_, rfl⟩
    · rw [hinfos]
      dsimp only [bind, Except.bind]
      split
      · exact ⟨_, rfl⟩
      · split <;> exact ⟨_, rfl⟩
  · exact ⟨_, rfl⟩

/-- Such a process gets as far as Alice's account, and has the header by then. -/
theorem Favours.starts (hw : x.Favours alice w) {code : RetCode}
    (hload : sAccountLoad x.sodium w.loadSodium w.load d.wallet examplePassword sAccountInit =
      .ok (code, wallet)) :
    ∃ p, x.started w d = .ok (wallet, p) ∧ p.header = some x.serverTokenHeader := by
  obtain ⟨⟨ping, p₁⟩, hping⟩ := hw.health (providerInit .zero (some x.serverTokenHeader))
  have hforgotten : p₁.version = .zero := by
    obtain ⟨p, hp, hsame⟩ := bind_eq_ok.mp hping
    obtain ⟨-, rfl⟩ := pure_eq_ok2.mp hsame
    exact httpReceive_leaves (f := Provider.version) (fun _ _ _ => rfl) hp
  obtain ⟨⟨code₂, version, p₂⟩, hversion⟩ := hw.version p₁ hforgotten
  have hstep₁ : RequestStep x.env.cJSON_Parse x.env.reader (providerInit .zero (some x.serverTokenHeader))
      ((Asked.ping : Asked Nat).request (w.get w.health)) p₁ := by
    show (providerPing (providerInit .zero (some x.serverTokenHeader)) _).map _ = _
    rw [hping]
    rfl
  have hstep₂ : RequestStep x.env.cJSON_Parse x.env.reader p₁
      ((Asked.versionGet .zero : Asked Nat).request (w.get w.version)) p₂ := by
    show (providerVersionGet _ p₁ _ _).map _ = _
    rw [hversion]
    rfl
  exact ⟨p₂, bind_eq_ok.mpr ⟨_, hload, bind_eq_ok.mpr ⟨_, hping, bind_eq_ok.mpr ⟨_, hversion, rfl⟩⟩⟩,
    (request_header _ hstep₂).trans (request_header _ hstep₁)⟩

/-- A process in which nothing goes wrong ends, and has posted one payment. -/
theorem Favours.step (hS : x.sodium.Lawful) (hW : x.env.writer.Lawful) (hR : x.env.reader.Lawful)
    (hnote : noteAccepted c (some exampleNotes) = true) (hroom : 2 < c.vtcEventsCount)
    {header : List UInt8} (hheader : postHeader (some x.serverTokenHeader) = .ok header)
    (hsaved : x.Saved wallet d.wallet) (halice : HasAlice wallet alice info)
    (hrich : ¬ info.amount < balanceNeeded) (hw : x.Favours alice w) :
    ∃ d', x.ProcessStep c d w d' ∧ d'.posted.length = d.posted.length + 1 := by
  obtain ⟨p₂, hstarted, hp₂⟩ := hw.starts (by rw [hw.loadSodium]; exact hsaved.load hS w.load sAccountInit)
  obtain ⟨err, mnemonic, hexports⟩ := hw.exports
  obtain ⟨err', slot, accounts, p₃, hnew, hp₃⟩ :=
    accountNew_returns x.accountReceiver hw.receiver p₂
  obtain ⟨herr, i, rfl, -⟩ := accountNew_accountInit hnew
  have hp : p₃.header = some x.serverTokenHeader := hp₃.trans hp₂
  obtain ⟨s, files, hpays, hposts⟩ := payAndProcess_succeeds info hW hR hnote hroom
    (by rw [hp]; exact hheader) hw accounts (accounts.get i).account.info.publicKey d.files
  obtain ⟨⟨code', file⟩, hsave⟩ := hsaved.returns w.saveSodium w.save d.wallet
  refine ⟨⟨file, files, d.posted ++ (posts s.history).map Prod.snd⟩,
    bind_eq_ok.mpr ⟨_, hstarted, bind_eq_ok.mpr ⟨_, bind_eq_ok.mpr ⟨_, halice.found _, rfl⟩,
      bind_eq_ok.mpr ⟨_, halice.exports hexports _, bind_eq_ok.mpr ⟨_, hnew, ?_⟩⟩⟩⟩, ?_⟩
  · dsimp only [Option.getD]
    rw [halice.record, herr, if_neg (w.get_ne_noMem _)]
    dsimp only
    rw [if_neg hrich]
    exact bind_eq_ok.mpr ⟨_, hpays, bind_eq_ok.mpr ⟨_, hsave, rfl⟩⟩
  · rw [List.length_append, List.length_map, hposts]

/-- **Every process pays**: on a device whose wallet holds Alice's account with enough in it,
any sequence of processes in which nothing goes wrong can run, and posts one payment for each
of them, from her account. -/
theorem payments_after_restarts (hS : x.sodium.Lawful) (hW : x.env.writer.Lawful)
    (hR : x.env.reader.Lawful) (hnote : noteAccepted c (some exampleNotes) = true)
    (hroom : 2 < c.vtcEventsCount) {header : List UInt8}
    (hheader : postHeader (some x.serverTokenHeader) = .ok header)
    (hsaved : x.Saved wallet d.wallet) (halice : HasAlice wallet alice info)
    (hrich : ¬ info.amount < balanceNeeded) {ws : List Circumstances}
    (hws : ∀ w ∈ ws, x.Favours alice w) :
    ∃ d' requests, Run (x.ProcessStep c) d ws d' ∧ d'.posted = d.posted ++ requests ∧
      requests.length = ws.length ∧ ∀ request ∈ requests, x.Pays alice info request := by
  induction ws generalizing d with
  | nil =>
      exact ⟨d, [], .nil d, (List.append_nil _).symm, rfl, fun _ hrequest => nomatch hrequest⟩
  | cons w ws ih =>
      obtain ⟨u, hstep, hone⟩ := (hws w List.mem_cons_self).step hS hW hR hnote hroom hheader hsaved
        halice hrich
      obtain ⟨alice', info', requests, halice', hsaved', hposted, -, -, hpays⟩ :=
        hstep.pays hS hW hR hsaved
      obtain ⟨rfl, rfl⟩ := halice'.unique halice
      obtain ⟨d', later, hrun, hposted', hlength, hpays'⟩ := ih hsaved'
        fun w' hw' => hws w' (List.mem_cons_of_mem w hw')
      refine ⟨d', requests ++ later, .cons hstep hrun, ?_, ?_, fun request hrequest => ?_⟩
      · rw [hposted', hposted, List.append_assoc]
      · rw [hposted, List.length_append] at hone
        rw [List.length_append, List.length_cons, hlength]
        omega
      · exact (List.mem_append.mp hrequest).elim (hpays request) (hpays' request)

end

/-! ## A device -/

/-- The example, with the header of a node that asks for no token. -/
def dragonProgram : ExampleProgram where
  env := .example
  sha512 := sha512OfZeros
  ed25519 := zeroEd25519
  sodium := dragonSodium
  cryptoSignEd25519Detached _ _ := Vector.replicate _ 7
  serverTokenHeader := cString []
  behindReceiver := List.replicate 6 0

/-- The node answers, and what it has to. -/
def answers : Circumstances where
  easyInit := true
  loadSodium := true
  load := zeroLoadEnv
  pointers := noPointers
  health := ⟨true, 200, []⟩
  version := ⟨true, 200, [versionsText]⟩
  newSodium := true
  newAccount := ⟨false, 0, []⟩
  stack := .zero
  exportSodium := true
  receiver := ⟨false, 0, []⟩
  params := ⟨true, 200, [paramsText]⟩
  turns := [answered, answered, answered]
  saveSodium := true
  save := zeroWalletEnv

/-- The wallet is in the file, and Alice's account in the wallet. -/
theorem dragon_saved : dragonProgram.sodium.Lawful ∧
    dragonProgram.Saved dragonWallet (some dragonFile) ∧ HasAlice dragonWallet dragon dragonInfo ∧
    noteAccepted .default (some exampleNotes) = true := by
  obtain ⟨hlawful, hsaved, -⟩ := dragon_file
  have hfound : sAccountGetByName noPointers dragonWallet exampleName = .ok (.success, some dragon) := by
    decide +kernel
  exact ⟨hlawful, ⟨_, _, hsaved⟩, ⟨fun _ => (get_example _ _ _).trans hfound, rfl⟩, by decide +kernel⟩

/-- What the answers and the mnemonic come to. -/
structure AnswersRead : Prop where
  paramsFit : (answers.get answers.params).chunks.flatten.length < httpMaximumContentLength
  versionFits : (answers.get answers.version).chunks.flatten.length < httpMaximumContentLength
  network : readNetwork versionsJson .zero = .ok (.success, .zero)
  genesisHash : readGenesisHash versionsJson .zero =
    .ok (.success, { ProviderVersion.zero with genesisHash := networkHash })
  networkFits : 0 + ((cString (readBuild versionsJson { ProviderVersion.zero with
    genesisHash := networkHash }).network.toList).bytes ++ [0]).length ≤ 64
  mnemonic : verticesMnemonicFromSk sha512OfZeros zeroEd25519 true zeroSeed =
    .ok (.success, some zeroMnemonic)

theorem answersRead : AnswersRead := by
  constructor
  case mnemonic =>
    rw [verticesMnemonicFromSk, if_neg (by decide), initializeMnemonic_eq]
    decide +kernel
  all_goals decide +kernel

/-- The parameters can be read, whatever the provider holds. -/
theorem params_answers (p : Provider) (tx : Transaction) : ∃ tx' p',
    providerTxParamsLoad parseAnswers p (answers.get answers.params) tx =
      .ok (.success, tx', p') := by
  obtain ⟨p', hp, -, -⟩ := httpReceive_of_lt p answersRead.paramsFit
  have hjson : parseAnswers p'.rxString = some paramsJson := by
    have htext : p'.rxString = paramsReply.text := rxString_receive (List.cons_ne_nil _ _) hp
    rw [htext]
    exact json_params
  have hgenesis : ∃ hash, loadGenesisHash p'.version paramsJson tx.genesisHash = .ok (.success, hash) := by
    rw [loadGenesisHash, networkAnswers.paramsHash]
    split
    · have hdecodes : b64Decode networkHashText networkHashText.strlen blockHashLength = _ :=
        decodes_networkHash
      simp only [hdecodes]
      exact ⟨_, bind_eq_ok.mpr ⟨_, memcpy_eq_ok.mpr ⟨by simp, rfl⟩, rfl⟩⟩
    · exact ⟨_, rfl⟩
  obtain ⟨hash, hgenesis⟩ := hgenesis
  have hsuccess : (answers.get answers.params).err = .success := rfl
  simp only [providerTxParamsLoad, hp, hsuccess, hjson, bind, Except.bind, hgenesis]
  exact ⟨_, _, rfl⟩

/-- The version can be read for the first time. -/
theorem version_answers {p : Provider} (hzero : p.version = .zero) : ∃ r,
    providerVersionGet parseAnswers p (answers.get answers.version) .zero = .ok r := by
  obtain ⟨p', hp, -, -⟩ := httpReceive_of_lt p answersRead.versionFits
  have hversion : p'.version = .zero :=
    (httpReceive_leaves (f := Provider.version) (fun _ _ _ => rfl) hp).trans hzero
  have hjson : parseAnswers p'.rxString = some versionsJson := by
    have htext : p'.rxString = versionsReply.text := rxString_receive (List.cons_ne_nil _ _) hp
    rw [htext]
    exact parse_versions
  have hsuccess : (answers.get answers.version).err = .success := rfl
  have hcopy : ∃ network : Vector UInt8 64, memcpy ProviderVersion.zero.network 0
      ((cString (readBuild versionsJson { ProviderVersion.zero with
        genesisHash := networkHash }).network.toList).bytes ++ [0]) = .ok network :=
    ⟨_, memcpy_eq_ok.mpr ⟨answersRead.networkFits, rfl⟩⟩
  obtain ⟨network, hcopy⟩ := hcopy
  simp only [providerVersionGet, hp, hsuccess, hjson, hversion, bind, Except.bind, answersRead.network,
    answersRead.genesisHash, copyVersion, hcopy]
  exact ⟨_, rfl⟩

theorem favours_answers : dragonProgram.Favours dragon answers where
  easyInit := rfl
  loadSodium := rfl
  health _ := ⟨_, rfl⟩
  version _ hzero := version_answers hzero
  exports := ⟨_, _, answersRead.mnemonic⟩
  receiver _ _ := ⟨_, rfl⟩
  params := params_answers
  turns := by simp [answers, answered_good, dragonProgram]
  enough := by decide

/-- On a device without a file the same process comes to the phrase, and no further. -/
theorem main_needs_wallet_answers :
    ∃ p, dragonProgram.started answers ⟨none, ⟨none, none⟩, []⟩ = .ok (sAccountInit, p) ∧
      seedFromMnemonic sha512OfZeros { wordVec := englishVec, wordMap := englishVec.zipIdx }
        exampleMnemonic = .error .outOfBounds ∧
      dragonProgram.main .default answers ⟨none, ⟨none, none⟩, []⟩ = .error .outOfBounds := by
  have hnone : ∀ env wallet alice, sAccountLoad dragonProgram.sodium true env none examplePassword
      sAccountInit = .ok (.success, wallet) →
        sAccountGetByName noPointers wallet exampleName ≠ .ok (.success, some alice) := by
    intro env wallet alice hload
    exact absurd rfl (sAccountLoad_succeeded hload).2
  have hstarted : ∃ p, dragonProgram.started answers ⟨none, ⟨none, none⟩, []⟩ = .ok (sAccountInit, p) ∧
      p.header = some dragonProgram.serverTokenHeader := favours_answers.starts rfl
  obtain ⟨p, hstarted, -⟩ := hstarted
  rcases main_needs_wallet (d := ⟨none, ⟨none, none⟩, []⟩) dragonProgram .default hnone answers with
    ⟨fault, hfault, -⟩ | ⟨wallet, p', -, -, -, hphrase, hmain⟩
  · cases hstarted.symm.trans hfault
  · exact ⟨p, hstarted, hphrase, hmain⟩

/-- One process, as long as it ends. -/
theorem same_account_after_restarts_dragon : ∃ d,
    Run (dragonProgram.ProcessStep .default) ⟨some dragonFile, ⟨none, none⟩, []⟩ [answers] d ∧
      dragonProgram.Saved dragonWallet d.wallet ∧ d.posted.length ≤ 1 ∧
      ∀ request ∈ d.posted, dragonProgram.Pays dragon dragonInfo request := by
  obtain ⟨hlawful, hsaved, halice, hnote⟩ := dragon_saved
  have hends : ∃ d, dragonProgram.ProcessStep .default ⟨some dragonFile, ⟨none, none⟩, []⟩
      answers d ∧ d.posted.length = 0 + 1 :=
    favours_answers.step hlawful appendWriter_lawful formatReader_lawful hnote (by decide) rfl hsaved
      halice (by decide)
  obtain ⟨d, hstep, -⟩ := hends
  obtain ⟨hkept, requests, hposted, hlength, -, hpays⟩ := same_account_after_restarts hlawful
    appendWriter_lawful formatReader_lawful hsaved halice (.single hstep)
  obtain rfl : d.posted = requests := hposted
  exact ⟨d, .single hstep, hkept, hlength, hpays⟩

/-- Three processes on this device, one after the other. -/
theorem payments_after_restarts_dragon : ∃ d requests,
    Run (dragonProgram.ProcessStep .default) ⟨some dragonFile, ⟨none, none⟩, []⟩
        [answers, answers, answers] d ∧
      d.posted = requests ∧ requests.length = 3 ∧
      ∀ request ∈ requests, dragonProgram.Pays dragon dragonInfo request := by
  obtain ⟨hlawful, hsaved, halice, hnote⟩ := dragon_saved
  exact payments_after_restarts hlawful appendWriter_lawful formatReader_lawful hnote (by decide) rfl
    hsaved halice (by decide) (by simp [favours_answers])

end ExampleProgram

end Vertices
