import SmartServer.Teardown

/-!
# A handler between its lookup and its use

`HandleTestMsg` looks up the handler of its message, and writes to it afterwards. The two are steps
of their own here, so that the network thread may go on between them; `handleTestMsg_eq` says that
without anything in between they are the one step of `SmartServer.NetWorkSystem`.

Nothing keeps the handler alive for the worker. When its connection is torn down between the two,
the write goes to a handler that has been deleted (`lateWrite_useAfterFree`). Otherwise the handler
is alive and still registered when it is written to (`handler_alive`).
-/

namespace SmartServer

open NetWorkSystem (Inv connIdOf)

/-- What a worker has between the lookup and the write. -/
structure Pending where
  tcpHandler : ℕ
  msgNode : ConMsgNode
  strTest : List UInt8

/-- The system, and what its workers are about to write. -/
structure HandlerUse where
  system : NetWorkSystem
  pending : Fin 2 → Option Pending

/-- The handler has not been deleted, and is registered under the id of the message. -/
def Pending.Alive (use : Pending) (s : NetWorkSystem) : Prop :=
  s.Live use.tcpHandler ∧ s.m_mapConHandlers[use.msgNode.mConnId]? = some (some use.tcpHandler)

namespace HandlerUse

def initial : HandlerUse := ⟨.initial, fun _ => none⟩

/-! ## The two halves of `HandleTestMsg` -/

variable (L : IntLayout) (P : Protobuf)

/-- `HandleTestMsg` of worker `k`, up to the lookup. -/
def lookup (k : Fin 2) (msgNode : ConMsgNode) (s : HandlerUse) : Exec HandlerUse := do
  let buf ← msgNode.mMsgNode.getMsgData
  match P.parseFromString buf with
  | none => pure s
  | some m_smartTest =>
    match s.system.getHandlerByConnId msgNode.mConnId with
    | none => pure s
    | some tcpHandler =>
      let strTest := P.serializeToString m_smartTest
      pure { s with pending := Function.update s.pending k (some ⟨tcpHandler, msgNode, strTest⟩) }

/-- `dealWriteEvent` on the handler that was looked up. -/
def write (k : Fin 2) (written : Bool) (use : Pending) (s : HandlerUse) : Exec HandlerUse := do
  let (_, tcpHandler) ← deref s.system.tcpHandlers (some use.tcpHandler)
  let (b, bev) ← deref s.system.bufferevents tcpHandler.m_pBufferevent
  let output :=
    TcpHandler.dealWriteEvent L written bev.output use.msgNode.mMsgNode.getMsgId use.strTest
  pure {
    system := { s.system with bufferevents := s.system.bufferevents.set b { bev with output } }
    pending := Function.update s.pending k none }

/-- The functions that can be registered, up to their lookups. -/
def call (k : Fin 2) : MsgFunc → ConMsgNode → HandlerUse → Exec HandlerUse
  | .HandleTestMsg => lookup P k

/-- A step of worker `k`'s thread: the write it has pending, or else a step of its loop. -/
def threadStep (t : MsgHandler) (s : HandlerUse) (k : Fin 2) (written : Bool) :
    Exec HandlerUse :=
  match s.pending k with
  | some use => s.write L k written use
  | none => do
    let (worker, out) ← (s.system.m_pNetWorkers k).threadStep mallocOk
    let s := { s with system := s.system.stepped k worker out }
    match out with
    | none => pure s
    | some msgNode => do
      let (s, _) ← t.handleMsg (call P k) msgNode s
      pure s

/-! ## Runs -/

inductive Event
  /-- An event of the network thread. -/
  | network (e : NetWorkSystem.Event) (h : e.Network)
  | release
  | thread (k : Fin 2) (written : Bool)

def step (t : MsgHandler) (s : HandlerUse) : Event → Exec HandlerUse
  | .network e _ => do
    let system ← NetWorkSystem.step L P t s.system e
    pure { s with system }
  | .release => do
    let system ← s.system.release
    pure { s with system }
  | .thread k written => s.threadStep L P t k written

def run (events : List Event) : Exec HandlerUse := do
  let t ← MsgHandler.started
  events.foldlM (step L P t) initial

/-! ## The halves make a whole -/

/-- What worker `k` does from the lookup to the write, with nothing in between. -/
def lookupWrite (k : Fin 2) (written : Bool) (msgNode : ConMsgNode) (s : HandlerUse) :
    Exec HandlerUse := do
  let s ← lookup P k msgNode s
  match s.pending k with
  | none => pure s
  | some use => s.write L k written use

variable {L P} {t : MsgHandler} {s s' : HandlerUse}

theorem handleTestMsg_eq {k : Fin 2} (hk : s.pending k = none) (written : Bool)
    (msgNode : ConMsgNode) :
    (lookupWrite L P k written msgNode s).map HandlerUse.system =
      NetWorkSystem.handleTestMsg L P written msgNode s.system := by
  simp only [lookupWrite, lookup, NetWorkSystem.handleTestMsg]
  cases hbuf : msgNode.mMsgNode.getMsgData with
  | error f => rfl
  | ok buf =>
    simp only [bind, Except.bind]
    cases htest : P.parseFromString buf with
    | none =>
      simp only [pure, Except.pure, hk]
      rfl
    | some test =>
      cases hp : s.system.getHandlerByConnId msgNode.mConnId with
      | none =>
        simp only [pure, Except.pure, hk]
        rfl
      | some p =>
        simp only [pure, Except.pure, Function.update_self, write, bind, Except.bind]
        cases deref s.system.tcpHandlers (some p) with
        | error f => rfl
        | ok q =>
          simp only
          cases deref s.system.bufferevents q.2.m_pBufferevent with
          | error f => rfl
          | ok b => rfl

/-! ## What the steps do -/

theorem lookup_inv {k : Fin 2} {msgNode : ConMsgNode} (hrun : lookup P k msgNode s = .ok s') :
    s' = s ∨ ∃ p strTest, s.system.m_mapConHandlers[msgNode.mConnId]? = some (some p) ∧
      s' = { s with pending := Function.update s.pending k (some ⟨p, msgNode, strTest⟩) } := by
  obtain ⟨buf, -, hrun⟩ := Run.of_bind hrun
  simp only at hrun
  split at hrun
  · exact .inl (Except.ok.inj hrun).symm
  · rename_i test htest
    split at hrun
    · exact .inl (Except.ok.inj hrun).symm
    · rename_i p hp
      exact .inr ⟨p, P.serializeToString test, Option.join_eq_some_iff.mp hp,
        (Except.ok.inj hrun).symm⟩

theorem write_inv {k : Fin 2} {written : Bool} {use : Pending}
    (hrun : s.write L k written use = .ok s') :
    ∃ b bev bev', s.system.bufferevents.get? b = some bev ∧ bev'.fd = bev.fd ∧
      bev'.arrived = bev.arrived ∧ bev'.input = bev.input ∧
      s' = ⟨{ s.system with bufferevents := s.system.bufferevents.set b bev' },
        Function.update s.pending k none⟩ := by
  obtain ⟨⟨p, h⟩, -, hrun⟩ := Run.of_bind hrun
  obtain ⟨⟨b, bev⟩, hb, hend⟩ := Run.of_bind hrun
  obtain rfl := Except.ok.inj hend
  set output :=
    TcpHandler.dealWriteEvent L written bev.output use.msgNode.mMsgNode.getMsgId use.strTest
  exact ⟨b, bev, { bev with output }, (deref_inv hb).2, rfl, rfl, rfl, rfl⟩

/-- A step of a worker writes what is pending, or ends without a lookup, or with one. -/
theorem threadStep_inv {k : Fin 2} {written : Bool} (hrun : s.threadStep L P t k written = .ok s') :
    (∃ use, s.pending k = some use ∧ s.write L k written use = .ok s') ∨
      ∃ worker out, (s.system.m_pNetWorkers k).threadStep mallocOk = .ok (worker, out) ∧
        (s' = { s with system := s.system.stepped k worker out } ∨ ∃ msgNode,
          lookup P k msgNode { s with system := s.system.stepped k worker out } = .ok s') := by
  unfold threadStep at hrun
  cases hk : s.pending k with
  | some use =>
    rw [hk] at hrun
    exact .inl ⟨use, rfl, hrun⟩
  | none =>
    rw [hk] at hrun
    obtain ⟨⟨worker, out⟩, hthread, hend⟩ := Run.of_bind hrun
    refine .inr ⟨worker, out, hthread, ?_⟩
    cases out with
    | none => exact .inl (Except.ok.inj hend).symm
    | some msgNode =>
      obtain ⟨⟨s₁, res⟩, hhandle, hend⟩ := Run.of_bind hend
      obtain rfl := Except.ok.inj hend
      rcases MsgHandler.handleMsg_inv hhandle with h | ⟨func, hcall⟩
      · exact .inl h
      · cases func
        exact .inr ⟨msgNode, hcall⟩

/-- A step of the network thread, and what it does to the system. -/
theorem network_inv {e : NetWorkSystem.Event} {h : e.Network}
    (hstep : step L P t s (.network e h) = .ok s') :
    NetWorkSystem.step L P t s.system e = .ok s'.system ∧ s'.pending = s.pending := by
  obtain ⟨system, hsystem, hend⟩ := Run.of_bind hstep
  obtain rfl := Except.ok.inj hend
  exact ⟨hsystem, rfl⟩

theorem step_system_inv (hi : Inv L s.system) {e : Event} (hstep : step L P t s e = .ok s') :
    Inv L s'.system := by
  cases e with
  | network e h => exact NetWorkSystem.step_inv hi (network_inv hstep).1
  | release =>
    obtain ⟨system, hsystem, hend⟩ := Run.of_bind hstep
    obtain rfl := Except.ok.inj hend
    exact hi.release hsystem
  | thread k written =>
    rcases threadStep_inv hstep with ⟨use, -, hwrite⟩ | ⟨worker, out, hthread, rfl | ⟨msgNode, hl⟩⟩
    · obtain ⟨b, bev, bev', hb, hfd, harr, hin, rfl⟩ := write_inv hwrite
      rw [← List.append_nil bev.arrived] at harr
      rw [← List.append_nil bev.input] at hin
      exact hi.setBufferevent hb hfd harr hin
    · exact hi.stepped hthread
    · rcases lookup_inv hl with rfl | ⟨p, strTest, -, rfl⟩
      · exact hi.stepped hthread
      · exact hi.stepped hthread

/-! ## Handlers that are held -/

/-- Every handler that is held is alive. -/
def AllAlive (s : HandlerUse) : Prop := ∀ k use, s.pending k = some use → use.Alive s.system

/-- The step tears down no connection a worker holds the handler of. -/
def Spares (L : IntLayout) (s : HandlerUse) : Event → Prop
  | .network e _ => ∀ k use, s.pending k = some use →
    ∀ p, s.system.TearsDown L p e → connIdOf p ≠ use.msgNode.mConnId
  | .release => ∀ k, s.pending k = none
  | .thread _ _ => True

theorem alive_network (hi : Inv L s.system) {e : NetWorkSystem.Event} {system : NetWorkSystem}
    (hstep : NetWorkSystem.step L P t s.system e = .ok system) {use : Pending}
    (ha : use.Alive s.system)
    (hspares : ∀ p, s.system.TearsDown L p e → connIdOf p ≠ use.msgNode.mConnId) :
    use.Alive system := by
  obtain ⟨hlive, hcon⟩ := ha
  obtain ⟨p, hp, -, hid⟩ := hi.base.objects.conMap _ _ hcon
  obtain rfl : use.tcpHandler = p := Option.some.inj hp
  cases NetWorkSystem.step_change hi hstep with
  | accepted he hopen hfd =>
    have ho := hi.base.objects
    exact ⟨(NetWorkSystem.live_accept ho hfd _).mpr (.inr hlive),
      NetWorkSystem.conMap_accept ho hfd hcon⟩
  | @torn _ q hq htorn =>
    have hne : connIdOf q ≠ use.msgNode.mConnId := hspares q hq
    refine ⟨(htorn.live _).mpr ⟨hlive, ?_⟩, ?_⟩
    · rintro rfl
      exact hne hid
    · rw [htorn.conMap, NetWorkSystem.conMap_get_erase, if_neg hne]
      exact hcon
  | kept hnone hkept =>
    exact ⟨(hkept.live _).mpr hlive, by rw [hkept.conMap]; exact hcon⟩

/-- **A step that spares the handlers keeps them alive.** -/
theorem step_allAlive (hi : Inv L s.system) (ha : s.AllAlive) {e : Event} (hspares : s.Spares L e)
    (hstep : step L P t s e = .ok s') : s'.AllAlive := by
  cases e with
  | network e h =>
    obtain ⟨hsystem, hpending⟩ := network_inv hstep
    intro k use hk
    rw [hpending] at hk
    exact alive_network hi hsystem (ha k use hk) (hspares k use hk)
  | release =>
    obtain ⟨system, hsystem, hend⟩ := Run.of_bind hstep
    obtain rfl := Except.ok.inj hend
    intro k use hk
    rw [show s.pending k = none from hspares k] at hk
    cases hk
  | thread k written =>
    rcases threadStep_inv hstep with ⟨use, -, hwrite⟩ | ⟨worker, out, -, rfl | ⟨msgNode, hl⟩⟩
    · obtain ⟨b, bev, bev', -, -, -, -, rfl⟩ := write_inv hwrite
      intro k' use' hk'
      change Function.update s.pending k none k' = some use' at hk'
      by_cases hkk : k' = k
      · rw [hkk, Function.update_self] at hk'
        cases hk'
      · rw [Function.update_of_ne hkk] at hk'
        exact ha k' use' hk'
    · exact ha
    · rcases lookup_inv hl with rfl | ⟨p, strTest, hcon, rfl⟩
      · exact ha
      · intro k' use' hk'
        change Function.update s.pending k _ k' = some use' at hk'
        by_cases hkk : k' = k
        · rw [hkk, Function.update_self] at hk'
          obtain rfl := Option.some.inj hk'
          obtain ⟨p', hp', hlive, -⟩ := hi.base.objects.conMap _ _ hcon
          obtain rfl := Option.some.inj hp'
          exact ⟨hlive, hcon⟩
        · rw [Function.update_of_ne hkk] at hk'
          exact ha k' use' hk'

/-- A handler that is alive can be written to. -/
theorem write_ok (hi : Inv L s.system) {use : Pending} (ha : use.Alive s.system) (k : Fin 2)
    (written : Bool) : ∃ s', s.write L k written use = .ok s' := by
  obtain ⟨h, hh⟩ := Option.isSome_iff_exists.mp ha.1
  obtain ⟨bev, hbev⟩ := hi.base.objects.bufferevent (ha.1.lt_next hi.base.objects)
  have hown : h.m_pBufferevent = some use.tcpHandler := (hi.base.connected _ h hh).2
  simp only [write, deref_ok hh, hown, deref_ok hbev, bind, Except.bind]
  exact ⟨_, rfl⟩

/-! ## Runs -/

/-- **A handler is alive when it is written to**, as long as no connection is torn down while a
worker holds its handler. -/
theorem handler_alive (L : IntLayout) (P : Protobuf) (events : List Event) (s : HandlerUse)
    (hrun : run L P events = .ok s) (hspares : Run.EachStep (run L P) (Spares L) events)
    (k : Fin 2) (use : Pending) (hpending : s.pending k = some use) :
    use.Alive s.system ∧
      ∀ written, ∃ s', run L P (events ++ [.thread k written]) = .ok s' := by
  obtain ⟨hi, ha⟩ := Run.induction_of_eachStep (fun s e s' => ∃ t, step L P t s e = .ok s')
    (fun s => Inv L s.system ∧ s.AllAlive) (fun _ _ _ => Run.of_start_concat)
    (fun s hs => by
      obtain ⟨t, -, hs⟩ := Run.of_bind hs
      obtain rfl := Except.ok.inj hs
      exact ⟨NetWorkSystem.inv_initial L, fun k use hk => by cases hk⟩)
    (fun s e s' hs hok hstep => by
      obtain ⟨t, hstep⟩ := hstep
      exact ⟨step_system_inv hs.1 hstep, step_allAlive hs.1 hs.2 hok hstep⟩) hspares hrun
  refine ⟨ha k use hpending, ?_⟩
  intro written
  obtain ⟨t, ht, -⟩ := Run.of_bind hrun
  have hnext : run L P (events ++ [.thread k written]) = step L P t s (.thread k written) :=
    Run.start_concat hrun ht _
  obtain ⟨s', hs'⟩ := write_ok hi (ha k use hpending) k written
  refine ⟨s', ?_⟩
  rw [hnext, step, threadStep, hpending]
  exact hs'

/-! ## A run with a write that comes too late -/

/-- All tables with the registrations make the same steps. -/
theorem step_congr {t' : MsgHandler} (ht : t.Registered) (ht' : t'.Registered) :
    step L P t = step L P t' := by
  funext s e
  cases e with
  | network e h => rw [step, step, NetWorkSystem.step_congr ht ht']
  | release => rfl
  | thread k written => simp only [step, threadStep, MsgHandler.handleMsg_congr ht ht']

/-- A run can be followed with the table after the first registration. -/
theorem run_eq (L : IntLayout) (P : Protobuf) (events : List Event) :
    run L P events = events.foldlM (step L P .firstRegistered) initial :=
  MsgHandler.started_bind fun ht ht' => by rw [step_congr ht ht']

/-- A client sends one message. -/
def request : List Event :=
  [.network (.accept 5) trivial, .network (.arrive 0 [0, 0, 0, 0, 1, 0, 0, 0, 65]) trivial,
    .network (.read 0) trivial]

/-- Its worker takes the message, and looks up the handler. -/
def requested : List Event := request ++ List.replicate 4 (.thread 1 true)

/-- The connection fails. -/
def requestFailed : List Event := requested ++ [.network (.error 0) trivial]

set_option maxRecDepth 20000 in
/-- The worker writes to the handler all the same. -/
theorem lateWrite_useAfterFree :
    ∃ s use, run .little NetWorkSystem.echo requestFailed = .ok s ∧ s.pending 1 = some use ∧
      ¬ use.Alive s.system ∧
      run .little NetWorkSystem.echo (requestFailed ++ [.thread 1 true]) =
        .error .useAfterFree := by
  obtain ⟨s, use, hs, huse, hdead, hlate⟩ : ∃ s use,
      requestFailed.foldlM (step .little NetWorkSystem.echo .firstRegistered) initial = .ok s ∧
      s.pending 1 = some use ∧ ¬ s.system.Live use.tcpHandler ∧
      (requestFailed ++ [Event.thread 1 true]).foldlM
        (step .little NetWorkSystem.echo .firstRegistered) initial = .error .useAfterFree :=
    ⟨_, _, rfl, rfl, by decide, rfl⟩
  exact ⟨s, use, (run_eq _ _ _).trans hs, huse, fun h => hdead h.1, (run_eq _ _ _).trans hlate⟩

/-- Nothing is held before the first step of a worker, and its steps tear nothing down. -/
theorem spares_requested : Run.EachStep (run .little NetWorkSystem.echo)
    (Spares .little) requested := by
  rw [show run .little NetWorkSystem.echo = _ from funext (run_eq .little NetWorkSystem.echo)]
  simp only [requested, request, List.cons_append, List.nil_append, Run.eachStep_cons]
  have hnone : ∀ {s : HandlerUse} {e h}, (∀ k, s.pending k = none) →
      s.Spares .little (.network e h) := by
    intro s e h hs k use hk
    rw [hs k] at hk
    cases hk
  refine ⟨hnone fun k => rfl, fun s₁ h₁ => ?_⟩
  have hs₁ := (network_inv h₁).2
  refine ⟨hnone fun k => by rw [hs₁]; rfl, fun s₂ h₂ => ?_⟩
  have hs₂ := (network_inv h₂).2
  refine ⟨hnone fun k => by rw [hs₂, hs₁]; rfl, fun s₃ h₃ => ?_⟩
  refine Run.eachStep_of_forall ?_
  intro e he s
  rw [(List.mem_replicate.mp he).2]
  trivial

set_option maxRecDepth 20000 in
theorem handler_alive_requested :
    ∃ s use, run .little NetWorkSystem.echo requested = .ok s ∧ s.pending 1 = some use ∧
      use.Alive s.system ∧
      ∃ s', run .little NetWorkSystem.echo (requested ++ [.thread 1 true]) = .ok s' := by
  obtain ⟨s, use, hs, huse⟩ : ∃ s use,
      requested.foldlM (step .little NetWorkSystem.echo .firstRegistered) initial = .ok s ∧
        s.pending 1 = some use := ⟨_, _, rfl, rfl⟩
  have hrun : run .little NetWorkSystem.echo requested = .ok s := (run_eq _ _ _).trans hs
  obtain ⟨halive, hwrite⟩ :=
    handler_alive .little NetWorkSystem.echo requested s hrun spares_requested 1 use huse
  exact ⟨s, use, hrun, huse, halive, hwrite true⟩

end HandlerUse

end SmartServer
