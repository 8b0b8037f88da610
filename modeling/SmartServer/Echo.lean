import SmartServer.Answers
import SmartServer.TestMsgHandler
import SmartServer.ReplyClient

/-!
# The server is an echo

Everything together: a client writes messages of `smart::test`, the server reads them from its
connection, hands them to its workers and writes its replies, and the client reads these. All of it
is said of the program with the functions of `smart.msg.pb.cc` (`runSmartTest`).

**Theorem (`all_echoed`).** When messages have arrived on a connection, then, after a read event and
as many steps of the workers as these need, the bytes written to the connection are those of the
messages themselves, exactly when each is accepted by the parser and has no zero byte in it.

**Theorem (`client_reads_back`).** When `client5.cpp` has sent such messages (`sendf`), and the
pieces in which the replies arrive land where they should, then what it parses of them (`recvf`) are
the messages it has sent.
-/

namespace SmartServer

namespace NetWorkSystem

variable {L : IntLayout} {s s' : NetWorkSystem} {m : SmartTest}

/-- The packet of a message. -/
def request (m : SmartTest) : Message := (TESTMSGSID, m.serializeWithCachedSizesToArray)

/-- A message that comes back. -/
structure Echoed (m : SmartTest) : Prop where
  wellFormed : m.WellFormed
  accepted : m.Accepted
  echoable : m.Echoable

theorem replyTo_request_iff (h : m.WellFormed) :
    replyTo SmartTest.protobuf (request m) = some (request m) ↔ Echoed m := by
  have hiff := SmartTest.comes_back_iff h
  constructor
  · intro hreply
    obtain ⟨test, hparse, hpacket⟩ := Option.map_eq_some_iff.mp hreply
    obtain ⟨hacc, hecho⟩ := hiff.mp ⟨test, hparse, (Prod.mk.inj hpacket).2⟩
    exact ⟨h, hacc, hecho⟩
  · intro hecho
    obtain ⟨test, hparse, hbytes⟩ := hiff.mpr ⟨hecho.accepted, hecho.echoable⟩
    exact Option.map_eq_some_iff.mpr ⟨test, hparse, Prod.ext rfl hbytes⟩

/-- What is left of a list is all of it only when everything is kept as it is. -/
theorem filterMap_eq_self_iff {α : Type} {f : α → Option α} {xs : List α} :
    xs.filterMap f = xs ↔ ∀ x ∈ xs, f x = some x := by
  induction xs with
  | nil => simp
  | cons x xs ih =>
    rw [List.forall_mem_cons, ← ih]
    cases hx : f x with
    | none =>
      rw [List.filterMap_cons_none hx]
      constructor
      · intro heq
        have hle := List.length_filterMap_le f xs
        rw [heq, List.length_cons] at hle
        omega
      · intro hnone
        cases hnone.1
    | some y =>
      rw [List.filterMap_cons_some hx, List.cons.injEq, Option.some.injEq]

/-- A reply is not much longer than its request, so that it is a packet again. -/
theorem valid_of_replyTo {x reply : Message} (hid : x.1 = TESTMSGSID)
    (hlen : x.2.length + 5 < 2 ^ 31) (h : replyTo SmartTest.protobuf x = some reply) :
    (packetCodec L).Valid reply.1 reply.2.length := by
  obtain ⟨test, hparse, rfl⟩ := Option.map_eq_some_iff.mp h
  have hle := SmartTest.length_serialize_of_parse hparse
  have hcut := (List.takeWhile_sublist (l := x.2) (· ≠ 0)).length_le
  refine ⟨?_, ?_⟩
  · show x.1 ≤ MAXMESSAGEID
    rw [hid]
    decide
  · show test.serializeWithCachedSizesToArray.length < 2 ^ 32
    omega

/-- The replies are the requests exactly when each of them comes back. -/
theorem repliesTo_requests_iff {requests : List SmartTest}
    (h : ∀ m ∈ requests, m.WellFormed)
    (hlen : ∀ m ∈ requests, m.serializeWithCachedSizesToArray.length + 5 < 2 ^ 31) :
    repliesTo L SmartTest.protobuf (requests.map request) =
        TcpHandler.writeEvents L (requests.map request) ↔ ∀ m ∈ requests, Echoed m := by
  have hvalid : ∀ x ∈ requests.map request, (packetCodec L).Valid x.1 x.2.length := by
    intro x hx
    obtain ⟨m, hm, rfl⟩ := List.mem_map.mp hx
    have hle := hlen m hm
    exact ⟨show TESTMSGSID ≤ MAXMESSAGEID by decide,
      show m.serializeWithCachedSizesToArray.length < 2 ^ 32 by omega⟩
  have hreplies : ∀ x ∈ (requests.map request).filterMap (replyTo SmartTest.protobuf),
      (packetCodec L).Valid x.1 x.2.length := by
    intro x hx
    obtain ⟨y, hy, hreply⟩ := List.mem_filterMap.mp hx
    obtain ⟨m, hm, rfl⟩ := List.mem_map.mp hy
    exact valid_of_replyTo rfl (hlen m hm) hreply
  rw [repliesTo, TcpHandler.writeEvents_eq, TcpHandler.writeEvents_eq,
    (packetCodec L).wire_inj hreplies hvalid, filterMap_eq_self_iff, List.forall_mem_map]
  exact forall₂_congr fun m hm => replyTo_request_iff (h m hm)

/-! ## The server -/

variable {events : List Event} {b : ℕ} {requests : List SmartTest} {ks : List (Fin 2)}

/-- All replies are packets. -/
abbrev Short (L : IntLayout) (s : NetWorkSystem) : Prop := s.Announces L fun x => x.2 + 5 < 2 ^ 31

/-- What has arrived on a connection that is alive is short enough for the replies. -/
theorem length_of_short (hi : Inv L s) (hlive : s.Live b) (hshort : s.Short L)
    (hreq : ∀ bev, s.bufferevents.get? b = some bev →
      (decode L bev.arrived).1 = requests.map request) (hm : m ∈ requests) :
    m.serializeWithCachedSizesToArray.length + 5 < 2 ^ 31 := by
  obtain ⟨bev, hbev⟩ := hi.base.objects.bufferevent (hlive.lt_next hi.base.objects)
  have hmem : request m ∈ (decode L bev.arrived).1 := by
    rw [hreq bev hbev]
    exact List.mem_map_of_mem hm
  exact hshort b bev hbev _ (mem_announcedLengths hmem)

theorem Settles.model (h : Settles (runSmartTest L) L events b ks s) (hshort : s.Short L) :
    Settles (run L SmartTest.protobuf) L events b ks s where
  reached := (runSmartTest_iff hshort).mp h.reached
  written := h.written
  test := h.test
  few := h.few
  packets := h.packets
  live := h.live
  steps := h.steps

/-- What is written to a connection after every schedule that is long enough. -/
theorem Settles.replied (h : Settles (runSmartTest L) L events b ks s) (hshort : s.Short L)
    (hreq : ∀ bev, s.bufferevents.get? b = some bev →
      (decode L bev.arrived).1 = requests.map request) :
    ∃ s', runSmartTest L (events ++ [.read b] ++ threads ks) = .ok s' ∧
      s'.outputOf b = some (repliesTo L SmartTest.protobuf (requests.map request)) := by
  have hmodel := h.model hshort
  have ho := (run_inv hmodel.reached).base.objects
  obtain ⟨s', hs', hframe, bev, bev', hbev, hbev', harr, hout⟩ := hmodel.answered
  refine ⟨s', (runSmartTest_iff (hshort.threadFrame ho hframe)).mpr hs', ?_⟩
  rw [outputOf, hbev', Option.map_some, hout, hreq bev hbev]

/-- **The server is an echo.** When all that has arrived on a connection are messages, and the
connection stays alive, then after a read event and every schedule in which each worker takes as
many steps as it needs, the same bytes have been written to it exactly when every message is
accepted by the parser and has no zero byte in it. -/
theorem all_echoed (L : IntLayout) (events : List Event) (b : ℕ) (ks : List (Fin 2))
    (s : NetWorkSystem) (h : Settles (runSmartTest L) L events b ks s) (hshort : s.Short L)
    (requests : List SmartTest) (hreq : ∀ bev, s.bufferevents.get? b = some bev →
      (decode L bev.arrived).1 = requests.map request)
    (hwell : ∀ m ∈ requests, m.WellFormed) :
    ∃ s', runSmartTest L (events ++ [.read b] ++ threads ks) = .ok s' ∧
      (s'.outputOf b = some (TcpHandler.writeEvents L (requests.map request)) ↔
        ∀ m ∈ requests, Echoed m) := by
  have hi := run_inv (h.model hshort).reached
  obtain ⟨s', hs', hout⟩ := h.replied hshort hreq
  refine ⟨s', hs', ?_⟩
  rw [hout, Option.some.injEq]
  exact repliesTo_requests_iff hwell fun m hm => length_of_short hi h.live hshort hreq hm

/-- The message of `client5.cpp`. -/
def msg1 : SmartTest :=
  ((SmartTest.new.setAge 101).setName
    [110, 105, 99, 101, 32, 116, 111, 32, 109, 101, 101, 116, 32, 121, 111, 117, 33]).setEmail
    [49, 48, 49, 55, 50, 51, 52]

theorem echoed_msg1 : Echoed msg1 where
  wellFormed := ((SmartTest.wellFormed_new.setAge 101).setName (by decide)).setEmail (by decide)
  accepted := ⟨by decide, .inl (by decide)⟩
  echoable := ⟨by decide, by decide, by decide, fun f hf => by cases hf⟩

/-- A client connects and sends it. -/
def sendMsg1 : List Event :=
  [.accept 5, .arrive 0 [0, 0, 0, 0, 30, 0, 0, 0, 10, 17, 110, 105, 99, 101, 32, 116, 111, 32, 109,
    101, 101, 116, 32, 121, 111, 117, 33, 16, 101, 26, 7, 49, 48, 49, 55, 50, 51, 52]]

/-- The state after the read event, when the message has been sent. -/
theorem settles_sendMsg1 :
    ∃ s, Settles (runSmartTest .little) .little sendMsg1 0 [1, 1, 1, 1] s ∧ s.Short .little ∧
      ∀ bev, s.bufferevents.get? 0 = some bev →
        bev.arrived = TcpHandler.writeEvents .little ([msg1].map request) := by
  obtain ⟨s, hs, hmsgs, hfew, hpackets, hlive, hsteps, harr⟩ :
      ∃ s, (sendMsg1 ++ [Event.read 0]).foldlM (step .little SmartTest.protobuf .firstRegistered)
          initial = .ok s ∧
        (∀ c ∈ s.bufferevents.cells, ∀ bev ∈ c, ∀ x ∈ announcedLengths .little bev.arrived,
          x.1 = TESTMSGSID ∧ x.2 + 5 < 2 ^ 31) ∧
        s.connections.length < 2 ^ 64 ∧ s.packets .little + 1 < 2 ^ 32 ∧
        (s.tcpHandlers.get? 0).isSome = true ∧ (∀ k, s.stepsLeft k ≤ List.count k [1, 1, 1, 1]) ∧
        ∀ bev ∈ s.bufferevents.get? 0,
          bev.arrived = TcpHandler.writeEvents .little ([msg1].map request) :=
    ⟨_, rfl, by decide, by decide, by decide, by decide, by decide, by decide⟩
  have hmsgs' : s.Announces .little fun x => x.1 = TESTMSGSID ∧ x.2 + 5 < 2 ^ 31 :=
    fun b bev hb => Heap.forall_get? hmsgs hb
  have hshort : s.Short .little := hmsgs'.mono fun _ h => h.2
  have hrun : run .little SmartTest.protobuf (sendMsg1 ++ [.read 0]) = .ok s :=
    (run_eq _ _ _).trans hs
  exact ⟨s, ⟨(runSmartTest_iff hshort).mpr hrun, by decide, hmsgs'.mono fun _ h => h.1, hfew,
    hpackets, hlive, hsteps⟩, hshort, harr⟩

theorem all_echoed_msg1 :
    ∃ s', runSmartTest .little (sendMsg1 ++ [.read 0] ++ threads [1, 1, 1, 1]) = .ok s' ∧
      s'.outputOf 0 = some (TcpHandler.writeEvents .little ([msg1].map request)) := by
  obtain ⟨s, h, hshort, harr⟩ := settles_sendMsg1
  have hreq : ∀ bev, s.bufferevents.get? 0 = some bev →
      (decode .little bev.arrived).1 = [msg1].map request := by
    intro bev hbev
    rw [harr bev hbev]
    decide
  obtain ⟨s', hs', hiff⟩ := all_echoed .little sendMsg1 0 _ s h hshort [msg1] hreq
    (List.forall_mem_singleton.mpr echoed_msg1.wellFormed)
  exact ⟨s', hs', hiff.mpr (List.forall_mem_singleton.mpr echoed_msg1)⟩

/-! ## The client -/

/-- What `sendf` sends for a message. The id in the head is `0`, and the length an `int`. -/
def sendf (L : IntLayout) (msg1 : SmartTest) : Exec (List UInt8) := do
  let bufStr ← msg1.serializeToString
  let packetHead : PacketHead := ⟨0, (UInt32.ofNat bufStr.length).toInt32⟩
  pure (packetHead.toBytes L ++ bufStr)

/-- `std::string bufStr(recvData)`, and `msg1.ParseFromString(bufStr)` of `recvf`. -/
def recvf (packet : Packet) : Exec (Option SmartTest) :=
  SmartTest.new.parseFromString (packet.recvData.takeWhile (· ≠ 0))

/-- What is sent is the packet of the message. -/
theorem sendf_inv {data : List UInt8} (h : sendf L m = .ok data) :
    data = (packetCodec L).encodeFrame (request m) ∧
      m.serializeWithCachedSizesToArray.length < 2 ^ 31 := by
  obtain ⟨bufStr, hbuf, hdata⟩ := Run.of_bind h
  obtain rfl := Except.ok.inj hdata
  rw [SmartTest.serializeToString, SmartTest.byteSize_eq] at hbuf
  split at hbuf
  · cases hbuf
  split at hbuf
  · rename_i hlen
    simp only [ne_eq, not_true_eq_false, if_false] at hbuf
    obtain rfl := Except.ok.inj hbuf
    exact ⟨rfl, hlen⟩
  · cases hbuf

/-- The server finds the messages in what was sent for them. -/
theorem decode_sent {requests : List SmartTest} {sent : List (List UInt8)}
    (h : requests.mapM (sendf L) = .ok sent) :
    decode L sent.flatten = (requests.map request, .head []) ∧
      ∀ m ∈ requests, m.serializeWithCachedSizesToArray.length < 2 ^ 31 := by
  suffices hwire : sent.flatten = (packetCodec L).wire (requests.map request) ∧
      ∀ m ∈ requests, m.serializeWithCachedSizesToArray.length < 2 ^ 31 by
    refine ⟨?_, hwire.2⟩
    rw [decode, hwire.1, (packetCodec L).feed_wire]
    intro x hx
    obtain ⟨m, hm, rfl⟩ := List.mem_map.mp hx
    exact ⟨show TESTMSGSID ≤ MAXMESSAGEID by decide, (hwire.2 m hm).trans (by decide)⟩
  induction requests generalizing sent with
  | nil =>
    rw [List.mapM_nil] at h
    obtain rfl := Except.ok.inj h
    exact ⟨rfl, fun m hm => absurd hm List.not_mem_nil⟩
  | cons m requests ih =>
    rw [List.mapM_cons] at h
    obtain ⟨data, hdata, hrest⟩ := Run.of_bind h
    obtain ⟨sent', hsent', hend⟩ := Run.of_bind hrest
    obtain rfl := Except.ok.inj hend
    obtain ⟨hwire, hlens⟩ := ih hsent'
    obtain ⟨rfl, hlen⟩ := sendf_inv hdata
    refine ⟨?_, ?_⟩
    · rw [List.flatten_cons, hwire]
      rfl
    · intro m' hm'
      rcases List.mem_cons.mp hm' with rfl | hm'
      · exact hlen
      · exact hlens m' hm'

theorem Echoed.recvf_written (h : Echoed m)
    (hlen : m.serializeWithCachedSizesToArray.length < 2 ^ 31) :
    recvf (ReplyClient.written (request m)) = .ok (some m) := by
  have hstr : (ReplyClient.written (request m)).recvData.takeWhile (· ≠ 0) =
      m.serializeWithCachedSizesToArray := by
    show (m.serializeWithCachedSizesToArray ++ [0]).takeWhile (· ≠ 0) = _
    rw [List.takeWhile_append, SmartTest.takeWhile_serialize h.wellFormed h.accepted h.echoable,
      if_pos rfl]
    exact List.append_nil _
  rw [recvf, hstr, SmartTest.parseFromString_eq hlen rfl,
    SmartTest.parse_of_accepted h.wellFormed h.accepted]

/-- A message that comes back is not empty: it has a name. -/
theorem Echoed.length_pos (h : Echoed m) : 1 ≤ m.serializeWithCachedSizesToArray.length := by
  obtain ⟨hname, -⟩ := (SmartTest.isInitialized_iff h.wellFormed).mp h.accepted.1
  have hfields := SmartTest.fields_serializeWithCachedSizes h.wellFormed
  apply List.length_pos_iff.mpr
  intro hnil
  rw [hnil, SmartTest.toFields, hname] at hfields
  cases Option.some.inj hfields

/-- **The client gets back what it has sent.** When all that has arrived on a connection is what
`sendf` sends for messages that come back, the client parses the replies to these messages, provided
that the pieces in which the replies arrive land. -/
theorem client_reads_back (L : IntLayout) (events : List Event) (b : ℕ) (ks : List (Fin 2))
    (s : NetWorkSystem) (h : Settles (runSmartTest L) L events b ks s) (hshort : s.Short L)
    (requests : List SmartTest) (sent : List (List UInt8))
    (hsent : requests.mapM (sendf L) = .ok sent)
    (harr : ∀ bev, s.bufferevents.get? b = some bev → bev.arrived = sent.flatten)
    (hecho : ∀ m ∈ requests, Echoed m) (malloc : ℕ → Option (ℕ → UInt8)) (size : ℕ → ℕ)
    (harrives : ∀ before m, before ++ [m] <+: requests.map request →
      ReplyClient.Arrives L malloc size before m) :
    ∃ s' output c, runSmartTest L (events ++ [.read b] ++ threads ks) = .ok s' ∧
      s'.outputOf b = some output ∧ ReplyClient.Reaches L malloc size (.start output) c ∧
        c.packets.map recvf = requests.map fun m => .ok (some m) := by
  obtain ⟨hdecode, hsize⟩ := decode_sent hsent
  have hreq : ∀ bev, s.bufferevents.get? b = some bev →
      (decode L bev.arrived).1 = requests.map request := by
    intro bev hbev
    rw [harr bev hbev, hdecode]
  have hi := run_inv (h.model hshort).reached
  have hlen : ∀ m ∈ requests, m.serializeWithCachedSizesToArray.length + 5 < 2 ^ 31 :=
    fun m hm => length_of_short hi h.live hshort hreq hm
  obtain ⟨s', hs', hout⟩ := h.replied hshort hreq
  rw [(repliesTo_requests_iff (fun m hm => (hecho m hm).wellFormed) hlen).mpr hecho] at hout
  refine ⟨s', _, ReplyClient.between L (requests.map request) [], hs', hout, ?_, ?_⟩
  · refine ReplyClient.reaches_between ?_ (List.append_nil _).symm harrives
    intro x hx
    obtain ⟨m, hm, rfl⟩ := List.mem_map.mp hx
    have hle := hlen m hm
    exact ⟨(hecho m hm).length_pos, show m.serializeWithCachedSizesToArray.length ≤ _ by omega⟩
  · show ((requests.map request).map ReplyClient.written).map recvf = _
    rw [List.map_map, List.map_map]
    apply List.map_congr_left
    intro m hm
    exact (hecho m hm).recvf_written (hsize m hm)

/-- The message of `client5.cpp`, with the reply's payload returned by one `recv`. -/
theorem client_reads_back_msg1 :
    ∃ s' output c, runSmartTest .little (sendMsg1 ++ [.read 0] ++ threads [1, 1, 1, 1]) = .ok s' ∧
      s'.outputOf 0 = some output ∧
        ReplyClient.Reaches .little ReplyClient.zeroMemory (fun _ => 100) (.start output) c ∧
          c.packets.map recvf = [msg1].map fun m => .ok (some m) := by
  obtain ⟨s, h, hshort, harr⟩ := settles_sendMsg1
  refine client_reads_back .little sendMsg1 0 _ s h hshort [msg1] _ (by rfl) ?_
    (List.forall_mem_singleton.mpr echoed_msg1) ReplyClient.zeroMemory (fun _ => 100) ?_
  · intro bev hbev
    rw [harr bev hbev]
    decide
  · intro before m hbefore
    have hle := hbefore.length_le
    obtain rfl : before = [] := by
      apply List.eq_nil_of_length_eq_zero
      simp only [List.length_append, List.length_map, List.length_singleton] at hle
      omega
    obtain rfl : m = request msg1 := by simpa using hbefore
    exact ⟨by decide, _, rfl, by decide⟩

end NetWorkSystem

end SmartServer
