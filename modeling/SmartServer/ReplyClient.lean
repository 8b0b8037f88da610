import SmartServer.ReadEvents
import SmartServer.Lib.Pieces
import SmartServer.Lib.Run

/-!
# The client that reads the replies

The thread `recvf` of `client5.cpp` reads a packet in two loops, one for the head and one for the
payload. A loop asks for what is missing until nothing is, and `offset` counts what it has got; but
`recv` is given the buffer itself and not the place behind `offset`, so every piece is stored over
the one before. The thread is modelled from one call of `recv` to the next. How many bytes a call
returns is said by `size`, at the place of the stream where the call begins, and every way to return
the bytes is of this kind (`exists_size`).

**Theorem (`replies_read_iff`).** The client reads what the server wrote, reply by reply and no byte
more, if and only if each head and each payload comes in pieces that land (`Arrives`): every byte
that is the last one to come to its place is the right one there, and where none comes, the right
one is there already. That is so when each of them is returned by one `recv`, and not in general
(`reply_cut`).

* A loop comes to its end with the buffer as `Pieces.overwriteAll` says (`reaches_complete`).
* What has been read stays: a head that was read wrongly shows in the next packet
  (`head_of_reaches`).
* When nothing is known of the memory that is allocated for a payload, one `recv` has to return all
  of it (`lands_any_memory_iff`).
-/

namespace SmartServer

/-- A packet as the client has read it: its head, and the whole buffer of its payload. -/
structure Packet where
  packetHead : PacketHead
  recvData : List UInt8
deriving DecidableEq

/-- What `recvf` reads into: the buffer of the heads, or that of a payload (`none` for `NULL`) with
the head before it. -/
inductive Target
  | packethead
  | recvData (packetHead : PacketHead) (recvData : Option (List UInt8))
deriving DecidableEq

/-- The thread `recvf` when it is about to call `recv`. -/
structure ReplyClient where
  packethead : List UInt8
  target : Target
  /-- The call is the one before the inner loop. -/
  first : Bool
  offset : ℤ
  /-- The packets that have been read. -/
  packets : List Packet
  /-- What `recv` has returned so far. -/
  received : List UInt8
  /-- What `recv` is still to return. -/
  input : List UInt8
deriving DecidableEq

/-- The conversion of an `int` to `size_t`. -/
def toSize (n : ℤ) : ℕ := (n % 2 ^ 64).toNat

/-- The first `n` bytes of fresh memory. -/
def fresh (mem : ℕ → UInt8) (n : ℕ) : List UInt8 := (List.range n).map mem

@[simp] theorem length_fresh (mem : ℕ → UInt8) (n : ℕ) : (fresh mem n).length = n := by
  rw [fresh, List.length_map, List.length_range]

namespace ReplyClient

/-- Connected to a server that has written `bytes`. -/
def start (bytes : List UInt8) : ReplyClient where
  packethead := List.replicate PACKETHEADLEN 0
  target := .packethead
  first := true
  offset := 0
  packets := []
  received := []
  input := bytes

/-- How many bytes the buffer is to get. -/
def total (c : ReplyClient) : ℤ :=
  match c.target with
  | .packethead => 8
  | .recvData packetHead _ => packetHead.packetLen.toInt

def buffer (c : ReplyClient) : Option (List UInt8) :=
  match c.target with
  | .packethead => some c.packethead
  | .recvData _ recvData => recvData

def setBuffer (c : ReplyClient) (buf : List UInt8) : ReplyClient :=
  match c.target with
  | .packethead => { c with packethead := buf }
  | .recvData packetHead _ => { c with target := .recvData packetHead (some buf) }

/-- The third argument of `recv`. -/
def request (c : ReplyClient) : ℕ := toSize (c.total - c.offset)

/-- What `recv` gives, `none` for `-1`, which it gives for `NULL`. The call that begins at byte `p`
of the stream returns `size p` bytes, at least one, and at most what it is asked for. -/
def recv (size : ℕ → ℕ) (c : ReplyClient) : Option (List UInt8) :=
  if c.buffer = none ∧ c.request ≠ 0 then none
  else some (c.input.take (min c.request (max 1 (size c.received.length))))

/-- The value of `recv`. -/
def recvlen : Option (List UInt8) → ℤ
  | none => -1
  | some data => data.length

/-- `recv` is given the buffer itself, and stores at its beginning. -/
def store (c : ReplyClient) (data : List UInt8) : Exec ReplyClient :=
  match c.buffer with
  | none => if data = [] then .ok c else .error .nullDeref
  | some buf =>
    if data.length ≤ buf.length then .ok (c.setBuffer (Block.overwrite buf 0 data))
    else .error .outOfBounds

variable (L : IntLayout) (malloc : ℕ → Option (ℕ → UInt8))

/-- Behind an inner loop: the head is read, and a buffer for the payload allocated; or the payload
is ended with `'\0'`, used and freed. -/
def complete (c : ReplyClient) : Exec ReplyClient :=
  match c.target with
  | .packethead =>
    let packetHead := PacketHead.ofBytes L c.packethead
    let recvData := (malloc c.packets.length).map fun mem =>
      fresh mem (toSize (packetHead.packetLen + 1).toInt)
    .ok { c with target := .recvData packetHead recvData, first := true, offset := 0 }
  | .recvData _ none => .error .nullDeref
  | .recvData packetHead (some recvData) =>
    let packetLen := packetHead.packetLen.toInt
    if 0 ≤ packetLen ∧ packetLen < recvData.length then
      .ok { c with
        target := .packethead
        first := true
        offset := 0
        packets := c.packets ++ [⟨packetHead, recvData.set packetLen.toNat 0⟩] }
    else .error .outOfBounds

/-- From what `recv` gave to the next call of `recv`. -/
def returned (c : ReplyClient) (data : Option (List UInt8)) : Exec ReplyClient := do
  let c ← c.store (data.getD [])
  if c.first ∧ recvlen data < 0 then pure c
  else if recvlen data < c.total - c.offset then
    pure { c with first := false, offset := c.offset + recvlen data }
  else c.complete L malloc

/-- One call of `recv`. It waits when there is nothing to return. -/
def next (size : ℕ → ℕ) (c : ReplyClient) : Exec ReplyClient :=
  if c.input = [] ∧ c.request ≠ 0 then .ok c
  else
    let data := c.recv size
    let c := { c with
      received := c.received ++ data.getD []
      input := c.input.drop (data.getD []).length }
    c.returned L malloc data

/-- Some calls of `recv` lead from one state to the other. -/
def Reaches (size : ℕ → ℕ) : ReplyClient → ReplyClient → Prop :=
  Relation.ReflTransGen fun c c' => c.next L malloc size = .ok c'

variable {L malloc} {size : ℕ → ℕ} {c c' : ReplyClient}

/-! ## Between two calls -/

/-- The head of the payload that is being read. -/
def head? (c : ReplyClient) : Option PacketHead :=
  match c.target with
  | .packethead => none
  | .recvData packetHead _ => some packetHead

theorem store_inv {data : List UInt8} (h : c.store data = .ok c') :
    c'.received = c.received ∧ c'.packets = c.packets ∧ c'.head? = c.head? := by
  rw [store] at h
  split at h
  · split at h
    · obtain rfl := Except.ok.inj h
      exact ⟨rfl, rfl, rfl⟩
    · cases h
  · split at h
    · obtain rfl := Except.ok.inj h
      cases ht : c.target <;> simp [setBuffer, head?, ht]
    · cases h

theorem complete_inv (h : c.complete L malloc = .ok c') :
    c'.received = c.received ∧
      ((c.head? = none ∧ c'.packets = c.packets) ∨
        ∃ packetHead recvData, c.head? = some packetHead ∧
          c'.packets = c.packets ++ [⟨packetHead, recvData⟩]) := by
  rw [complete] at h
  cases ht : c.target with
  | packethead =>
    simp only [ht] at h
    obtain rfl := Except.ok.inj h
    exact ⟨rfl, .inl ⟨by rw [head?, ht], rfl⟩⟩
  | recvData packetHead recvData =>
    cases recvData with
    | none =>
      simp only [ht] at h
      cases h
    | some recvData =>
      simp only [ht] at h
      split at h
      · obtain rfl := Except.ok.inj h
        exact ⟨rfl, .inr ⟨packetHead, _, by rw [head?, ht], rfl⟩⟩
      · cases h

/-- Only the end of a payload adds a packet, and it has the head that was read. -/
theorem returned_inv {data : Option (List UInt8)} (h : c.returned L malloc data = .ok c') :
    c'.received = c.received ∧
      ((c'.packets = c.packets ∧ ∀ packetHead, c.head? = some packetHead →
          c'.head? = some packetHead) ∨
        ∃ packetHead recvData, c.head? = some packetHead ∧
          c'.packets = c.packets ++ [⟨packetHead, recvData⟩]) := by
  obtain ⟨c₁, hstore, h⟩ := Run.of_bind h
  obtain ⟨hreceived, hpackets, hhead⟩ := store_inv hstore
  split at h
  · obtain rfl := Except.ok.inj h
    exact ⟨hreceived, .inl ⟨hpackets, fun _ hH => hhead.trans hH⟩⟩
  · split at h
    · obtain rfl := Except.ok.inj h
      exact ⟨hreceived, .inl ⟨hpackets, fun _ hH => hhead.trans hH⟩⟩
    · obtain ⟨hreceived', hcomplete⟩ := complete_inv h
      refine ⟨hreceived'.trans hreceived, ?_⟩
      rcases hcomplete with ⟨hnone, hsame⟩ | ⟨packetHead, recvData, hH, hmore⟩
      · refine .inl ⟨hsame.trans hpackets, ?_⟩
        intro packetHead hH
        rw [← hhead, hnone] at hH
        cases hH
      · exact .inr ⟨packetHead, recvData, hhead.symm.trans hH, by rw [hmore, hpackets]⟩

/-! ## Filling a buffer -/

/-- `recv` has returned `data` and is still to return `rest`; the buffer holds `buf`. -/
def given (c : ReplyClient) (data rest buf : List UInt8) : ReplyClient :=
  { c with received := c.received ++ data, input := rest }.setBuffer buf

section Given

variable (c) (data rest buf : List UInt8)

@[simp] theorem offset_given : (c.given data rest buf).offset = c.offset := by
  rw [given, setBuffer]
  split <;> rfl

@[simp] theorem received_given : (c.given data rest buf).received = c.received ++ data := by
  rw [given, setBuffer]
  split <;> rfl

@[simp] theorem input_given : (c.given data rest buf).input = rest := by
  rw [given, setBuffer]
  split <;> rfl

@[simp] theorem total_given : (c.given data rest buf).total = c.total := by
  cases h : c.target <;> simp [given, setBuffer, total, h]

@[simp] theorem buffer_given : (c.given data rest buf).buffer = some buf := by
  cases h : c.target <;> simp [given, setBuffer, buffer, h]

theorem given_given (first : Bool) (offset : ℤ) (data' rest' buf' : List UInt8) :
    { c.given data rest buf with first, offset }.given data' rest' buf' =
      { c.given (data ++ data') rest' buf' with first, offset } := by
  cases h : c.target <;> simp [given, setBuffer, h]

end Given

/-- What is behind the loop looks at neither `offset` nor the place of the call. -/
theorem complete_congr (first : Bool) (offset : ℤ) :
    { c with first, offset }.complete L malloc = c.complete L malloc := by
  unfold complete
  cases c.target with
  | packethead => rfl
  | recvData packetHead recvData => cases recvData <;> rfl

theorem request_eq {todo : List UInt8} (hsmall : todo.length < 2 ^ 64)
    (htotal : c.total - c.offset = todo.length) : c.request = todo.length := by
  rw [request, htotal, toSize]
  omega

/-- What `recv` gives of the bytes that are asked for. -/
theorem recv_eq {todo rest buf : List UInt8} (hrequest : c.request = todo.length)
    (hbuf : c.buffer = some buf) (hinput : c.input = todo ++ rest) :
    c.recv size = some (todo.take (max 1 (size c.received.length))) := by
  have htake : todo.take (min todo.length (max 1 (size c.received.length))) =
      todo.take (max 1 (size c.received.length)) := by
    rw [List.take_eq_take_iff]
    omega
  rw [recv, if_neg (by rw [hbuf]; exact fun h => Option.some_ne_none _ h.1), hrequest, hinput,
    List.take_append_of_le_length (min_le_left _ _), htake]

/-- One call of `recv`, where the buffer has room and there is something to return. -/
theorem next_eq (L : IntLayout) (malloc : ℕ → Option (ℕ → UInt8))
    {todo rest buf data : List UInt8} (hne : todo ≠ []) (hsmall : todo.length < 2 ^ 64)
    (htotal : c.total - c.offset = todo.length) (hbuf : c.buffer = some buf)
    (hroom : todo.length ≤ buf.length) (hinput : c.input = todo ++ rest)
    (hdata : data = todo.take (max 1 (size c.received.length))) {c₁ : ReplyClient}
    (hc₁ : c₁ = c.given data (todo.drop data.length ++ rest) (Block.overwrite buf 0 data)) :
    c.next L malloc size =
      if data.length < todo.length then
        .ok { c₁ with first := false, offset := c.offset + data.length }
      else c₁.complete L malloc := by
  have hrequest := request_eq hsmall htotal
  have hle : data.length ≤ todo.length := by
    rw [hdata]
    exact List.length_take_le' _ _
  have hnonempty : ¬ (c.input = [] ∧ c.request ≠ 0) := by
    rintro ⟨h, -⟩
    rw [hinput] at h
    exact hne (List.append_eq_nil_iff.mp h).1
  have hdrop : c.input.drop data.length = todo.drop data.length ++ rest := by
    rw [hinput, List.drop_append_of_le_length hle]
  rw [next, if_neg hnonempty, recv_eq hrequest hbuf hinput, ← hdata]
  simp only [Option.getD_some, hdrop]
  have hstore : { c with
      received := c.received ++ data
      input := todo.drop data.length ++ rest }.store data = .ok c₁ := by
    have hbuf' : { c with
      received := c.received ++ data
      input := todo.drop data.length ++ rest }.buffer = some buf := hbuf
    rw [store, hbuf', hc₁]
    exact if_pos (hle.trans hroom)
  have hoffset : c₁.offset = c.offset := by
    rw [hc₁, offset_given]
  have htotal₁ : c₁.total - c₁.offset = todo.length := by
    rw [hoffset, hc₁, total_given, htotal]
  have hrecvlen : ¬ (c₁.first ∧ (data.length : ℤ) < 0) := by
    intro h
    omega
  rw [returned]
  simp only [Option.getD_some, recvlen, hstore, bind, Except.bind, htotal₁, Nat.cast_lt, pure,
    Except.pure]
  rw [if_neg hrecvlen, hoffset]

/-- **A buffer is filled.** Every call stores its bytes at the beginning, and the code behind the
inner loop comes when all have been returned. -/
theorem reaches_complete {todo rest buf : List UInt8} (hne : todo ≠ [])
    (hsmall : todo.length < 2 ^ 64) (htotal : c.total - c.offset = todo.length)
    (hbuf : c.buffer = some buf) (hroom : todo.length ≤ buf.length)
    (hinput : c.input = todo ++ rest)
    (hend : (c.given todo rest (Pieces.overwriteAll buf
      (Pieces.cut size c.received.length todo))).complete L malloc = .ok c') :
    Reaches L malloc size c c' := by
  induction hn : todo.length using Nat.strong_induction_on generalizing c todo buf with
  | _ n ih =>
    have hpos := List.length_pos_iff.mpr hne
    obtain ⟨data, hdata⟩ : ∃ data, data = todo.take (max 1 (size c.received.length)) := ⟨_, rfl⟩
    have hlen : data.length = min (max 1 (size c.received.length)) todo.length := by
      rw [hdata, List.length_take]
    have hnext := next_eq L malloc hne hsmall htotal hbuf hroom hinput hdata rfl
    rw [Pieces.cut_eq hne, ← hdata, Pieces.overwriteAll_cons] at hend
    by_cases hshort : data.length < todo.length
    · have hk : data.length = max 1 (size c.received.length) := by omega
      rw [if_pos hshort] at hnext
      have hdrop : data ++ todo.drop data.length = todo := by
        rw [hk, hdata, List.take_append_drop]
      have hdrop_len : (todo.drop data.length).length = todo.length - data.length :=
        List.length_drop
      refine .head hnext (ih _ (by omega) ?_ ?_ ?_ (buffer_given _ _ _ _) ?_ (input_given _ _ _ _)
        ?_ rfl)
      · exact List.length_pos_iff.mp (by omega)
      · omega
      · change (c.given data _ _).total - (c.offset + data.length) = _
        rw [total_given, hdrop_len]
        omega
      · rw [Block.length_overwrite (by omega)]
        omega
      · rw [given_given, complete_congr, hdrop]
        change (c.given todo rest (Pieces.overwriteAll _ (Pieces.cut size
          (c.given data _ _).received.length _))).complete L malloc = _
        rw [received_given, List.length_append, hk]
        exact hend
    · have hall : data = todo := by
        rw [hdata, List.take_of_length_le (by omega)]
      rw [if_neg hshort] at hnext
      refine .single (hnext.trans ?_)
      rw [List.drop_eq_nil_of_le (by omega), Pieces.cut_nil] at hend
      rw [hall, List.drop_length, List.nil_append]
      rw [hall] at hend
      exact hend

/-! ## Every way to return the bytes -/

/-- `recv` may return `data`: the next bytes, one at least, and at most what it is asked for. -/
structure Returns (c : ReplyClient) (data : List UInt8) : Prop where
  notNull : c.buffer ≠ none
  nonempty : data ≠ []
  atMost : data.length ≤ c.request
  comesNext : data <+: c.input

variable (L malloc) in
/-- The call of `recv` that returns `data`. -/
def nextWith (c : ReplyClient) (data : List UInt8) : Exec ReplyClient :=
  { c with received := c.received ++ data, input := c.input.drop data.length }.returned L malloc
    (some data)

/-- With every `size`, the calls that give something give what `recv` may return. -/
theorem returns_of_recv (hbuf : c.buffer ≠ none) (hinput : c.input ≠ [])
    (hrequest : c.request ≠ 0) :
    ∃ data, c.Returns data ∧ c.next L malloc size = c.nextWith L malloc data := by
  have hpos := List.length_pos_iff.mpr hinput
  refine ⟨c.input.take (min c.request (max 1 (size c.received.length))), ⟨hbuf, ?_, ?_, ?_⟩, ?_⟩
  · rw [← List.length_pos_iff, List.length_take]
    omega
  · rw [List.length_take]
    omega
  · exact List.take_prefix _ _
  · have hrecv : c.recv size = some (c.input.take (min c.request (max 1
        (size c.received.length)))) := if_neg fun h => hbuf h.1
    rw [next, if_neg fun h => hinput h.1, hrecv]
    rfl

theorem next_of_size {data : List UInt8} (h : c.Returns data)
    (hsize : size c.received.length = data.length) :
    c.next L malloc size = c.nextWith L malloc data := by
  have hpos := List.length_pos_iff.mpr h.nonempty
  have hatMost := h.atMost
  have htake : min c.request (max 1 (size c.received.length)) = data.length := by omega
  have hrecv : c.recv size = some data := by
    rw [recv, if_neg fun hnull => h.notNull hnull.1, htake,
      ← List.prefix_iff_eq_take.mp h.comesNext]
  rw [next, if_neg, hrecv]
  · rfl
  · rintro ⟨hinput, -⟩
    have hnil := h.comesNext
    rw [hinput, List.prefix_nil] at hnil
    exact h.nonempty hnil

/-- What is returned first, with the `size` of all that is returned. -/
theorem reaches_sizes {bytes : List UInt8} {before : List (List UInt8)}
    (after : List (List UInt8))
    (hrun : before.foldlM (nextWith L malloc) (start bytes) = .ok c)
    (hreturns : Run.EachStep (fun pieces => pieces.foldlM (nextWith L malloc) (start bytes))
      Returns before) :
    Reaches L malloc (Pieces.sizes (before ++ after)) (start bytes) c ∧
      c.received = before.flatten ∧ ∀ piece ∈ before, piece ≠ [] := by
  induction before using List.reverseRecOn generalizing after c with
  | nil =>
    obtain rfl := Except.ok.inj hrun
    exact ⟨.refl, rfl, fun _ h => by cases h⟩
  | append_singleton before piece ih =>
    obtain ⟨c₁, hc₁, hstep⟩ := Run.of_concat hrun
    obtain ⟨hbefore, hlast⟩ := Run.eachStep_concat.mp hreturns
    obtain ⟨hreach, hreceived, hne⟩ := ih (piece :: after) hc₁ hbefore
    have hpiece : c₁.Returns piece := hlast c₁ hc₁
    rw [List.append_assoc]
    refine ⟨hreach.tail ((next_of_size hpiece ?_).trans hstep), ?_, ?_⟩
    · rw [hreceived]
      exact Pieces.sizes_append hne piece after
    · rw [(returned_inv hstep).1, hreceived, List.flatten_concat]
    · intro q hq
      rcases List.mem_append.mp hq with hq | hq
      · exact hne q hq
      · rw [List.mem_singleton.mp hq]
        exact hpiece.nonempty

/-- Whatever `recv` returns, there is a `size` with which it does. -/
theorem exists_size {bytes : List UInt8} {pieces : List (List UInt8)}
    (hrun : pieces.foldlM (nextWith L malloc) (start bytes) = .ok c)
    (hreturns : Run.EachStep (fun pieces => pieces.foldlM (nextWith L malloc) (start bytes))
      Returns pieces) :
    ∃ size, Reaches L malloc size (start bytes) c ∧ c.received = pieces.flatten := by
  obtain ⟨hreach, hreceived, -⟩ := reaches_sizes [] hrun hreturns
  exact ⟨_, hreach, hreceived⟩

/-! ## What has been read stays -/

theorem next_packets (h : c.next L malloc size = .ok c') :
    (c'.packets = c.packets ∧ ∀ packetHead, c.head? = some packetHead →
      c'.head? = some packetHead) ∨
    ∃ packetHead recvData, c.head? = some packetHead ∧
      c'.packets = c.packets ++ [⟨packetHead, recvData⟩] := by
  rw [next] at h
  split at h
  · obtain rfl := Except.ok.inj h
    exact .inl ⟨rfl, fun _ hH => hH⟩
  · have hinv := returned_inv h
    exact hinv.2

theorem packets_le (h : Reaches L malloc size c c') : c.packets <+: c'.packets := by
  induction h with
  | refl => exact List.prefix_rfl
  | tail _ hnext ih =>
    rcases next_packets hnext with ⟨hsame, -⟩ | ⟨_, _, -, hmore⟩
    · rw [hsame]
      exact ih
    · rw [hmore]
      exact ih.trans (List.prefix_append _ _)

/-- The next packet has the head that has been read. -/
theorem head_of_reaches {packetHead : PacketHead} (hhead : c.head? = some packetHead)
    (h : Reaches L malloc size c c') :
    (c'.packets = c.packets ∧ c'.head? = some packetHead) ∨
      ∃ recvData, c.packets ++ [⟨packetHead, recvData⟩] <+: c'.packets := by
  induction h with
  | refl => exact .inl ⟨rfl, hhead⟩
  | tail _ hnext ih =>
    rcases ih with ⟨hsame, hhead'⟩ | ⟨recvData, hmore⟩
    · rcases next_packets hnext with ⟨hsame', hkeep⟩ | ⟨H, d, hH, hmore⟩
      · exact .inl ⟨hsame'.trans hsame, hkeep _ hhead'⟩
      · obtain rfl := Option.some.inj (hhead'.symm.trans hH)
        exact .inr ⟨d, by rw [hmore, hsame]⟩
    · exact .inr ⟨recvData, hmore.trans (packets_le (.single hnext))⟩

theorem reaches_total {c₁ c₂ : ReplyClient} (h₁ : Reaches L malloc size c c₁)
    (h₂ : Reaches L malloc size c c₂) :
    Reaches L malloc size c₁ c₂ ∨ Reaches L malloc size c₂ c₁ :=
  h₁.total_of_right_unique (fun _ _ _ h h' => Except.ok.inj (h.symm.trans h')) h₂

/-! ## One reply -/

/-- What the client has read of a message. -/
def written (m : Message) : Packet :=
  ⟨⟨m.1.toInt32, (UInt32.ofNat m.2.length).toInt32⟩, m.2 ++ [0]⟩

variable (L)

/-- What is in the buffer of the heads when some replies have been read. -/
def lastHead (before : List Message) : List UInt8 :=
  match before.getLast? with
  | none => List.replicate PACKETHEADLEN 0
  | some m => encodePacketHead L m.1 m.2.length

/-- The client has read the replies `before`, and those of `after` are to come. -/
def between (before after : List Message) : ReplyClient where
  packethead := lastHead L before
  target := .packethead
  first := true
  offset := 0
  packets := before.map written
  received := TcpHandler.writeEvents L before
  input := TcpHandler.writeEvents L after

variable (malloc size)

/-- The reply `m` after the replies `before` comes so that its head lands in the buffer of the head
before it, and its payload in the memory that is allocated for it. -/
structure Arrives (before : List Message) (m : Message) : Prop where
  packethead : Pieces.Lands (lastHead L before) (encodePacketHead L m.1 m.2.length)
    (Pieces.cut size (TcpHandler.writeEvents L before).length
      (encodePacketHead L m.1 m.2.length))
  recvData : ∃ mem, malloc before.length = some mem ∧
    Pieces.Lands (fresh mem (m.2.length + 1)) m.2
      (Pieces.cut size ((TcpHandler.writeEvents L before).length + PACKETHEADLEN) m.2)

/-- The client reads these replies, and nothing of what is behind them, out of `bytes`. -/
def Reads (bytes : List UInt8) (before : List Message) : Prop :=
  ∃ c, Reaches L malloc size (start bytes) c ∧ c.packets = before.map written ∧
    c.received = TcpHandler.writeEvents L before

variable {L malloc size}

theorem length_encodePacketHead (L : IntLayout) (m : Message) :
    (encodePacketHead L m.1 m.2.length).length = PACKETHEADLEN :=
  PacketHead.length_toBytes L _

theorem writeEvents_cons (m : Message) (ms : List Message) :
    TcpHandler.writeEvents L (m :: ms) =
      encodePacketHead L m.1 m.2.length ++ (m.2 ++ TcpHandler.writeEvents L ms) := by
  rw [TcpHandler.writeEvents_eq, TcpHandler.writeEvents_eq, ← List.append_assoc]
  rfl

theorem writeEvents_concat (ms : List Message) (m : Message) :
    TcpHandler.writeEvents L (ms ++ [m]) =
      TcpHandler.writeEvents L ms ++ (encodePacketHead L m.1 m.2.length ++ m.2) := by
  rw [TcpHandler.writeEvents, List.foldl_append]
  rfl

@[simp] theorem length_lastHead (before : List Message) :
    (lastHead L before).length = PACKETHEADLEN := by
  rw [lastHead]
  split
  · exact List.length_replicate
  · exact length_encodePacketHead L _

@[simp] theorem lastHead_concat (before : List Message) (m : Message) :
    lastHead L (before ++ [m]) = encodePacketHead L m.1 m.2.length := by
  rw [lastHead, List.getLast?_concat]

variable {before after : List Message} {m : Message} {p : ℕ}

/-- The state in which the head of `m` has been read, into `packethead`. -/
def atPayload (L : IntLayout) (malloc : ℕ → Option (ℕ → UInt8)) (before after : List Message)
    (m : Message) (packethead : List UInt8) : ReplyClient where
  packethead := packethead
  target := .recvData (PacketHead.ofBytes L packethead) ((malloc before.length).map fun mem =>
    fresh mem (toSize ((PacketHead.ofBytes L packethead).packetLen + 1).toInt))
  first := true
  offset := 0
  packets := before.map written
  received := TcpHandler.writeEvents L before ++ encodePacketHead L m.1 m.2.length
  input := m.2 ++ TcpHandler.writeEvents L after

/-- The head is read. -/
theorem reaches_atPayload (L : IntLayout) (malloc : ℕ → Option (ℕ → UInt8)) (size : ℕ → ℕ)
    (before after : List Message) (m : Message) :
    Reaches L malloc size (between L before (m :: after))
      (atPayload L malloc before after m (Pieces.overwriteAll (lastHead L before)
        (Pieces.cut size (TcpHandler.writeEvents L before).length
          (encodePacketHead L m.1 m.2.length)))) := by
  have hlen := length_encodePacketHead L m
  have hinput : (between L before (m :: after)).input = encodePacketHead L m.1 m.2.length ++
      (m.2 ++ TcpHandler.writeEvents L after) := writeEvents_cons m after
  have hbuf : (between L before (m :: after)).buffer = some (lastHead L before) := rfl
  refine reaches_complete ?_ ?_ ?_ hbuf ?_ hinput ?_
  · intro h
    rw [h] at hlen
    cases hlen
  · rw [hlen]
    decide
  · rw [hlen]
    rfl
  · rw [hlen, length_lastHead]
  · rw [atPayload, ← List.length_map written]
    rfl

theorem toInt_packetLen {n : ℕ} (hn : n < 2 ^ 31) : (UInt32.ofNat n).toInt32.toInt = n := by
  rw [UInt32.toInt32_ofNat']
  exact Int32.toInt_ofNat_of_lt hn

theorem toSize_packetLen {n : ℕ} (hn : n + 1 < 2 ^ 31) :
    toSize ((UInt32.ofNat n).toInt32 + 1).toInt = n + 1 := by
  have hadd : (UInt32.ofNat n).toInt32 + 1 = Int32.ofNat (n + 1) := by
    rw [UInt32.toInt32_ofNat', Int32.ofNat_add]
    rfl
  rw [hadd, Int32.toInt_ofNat_of_lt hn, toSize]
  omega

theorem given_payload {packetHead : PacketHead} {recvData : Option (List UInt8)}
    (ht : c.target = .recvData packetHead recvData) (data rest buf : List UInt8) :
    c.given data rest buf = { c with
      received := c.received ++ data
      input := rest
      target := .recvData packetHead (some buf) } := by
  simp only [given, setBuffer, ht]

theorem complete_payload {packetHead : PacketHead} {recvData : List UInt8}
    (ht : c.target = .recvData packetHead (some recvData)) {n : ℕ}
    (hn : packetHead.packetLen.toInt = n) (hlt : n < recvData.length) :
    c.complete L malloc = .ok { c with
      target := .packethead
      first := true
      offset := 0
      packets := c.packets ++ [⟨packetHead, recvData.set n 0⟩] } := by
  simp only [complete, ht, hn, Int.toNat_natCast]
  exact if_pos ⟨Int.natCast_nonneg n, Int.ofNat_lt.mpr hlt⟩

/-- With `NULL` for a buffer, the first call is made again and again. -/
theorem next_null (hbuf : c.buffer = none) (hfirst : c.first = true) (hrequest : c.request ≠ 0) :
    c.next L malloc size = .ok c := by
  have hrecv : c.recv size = none := if_pos ⟨hbuf, hrequest⟩
  have hsame : { c with received := c.received ++ [], input := c.input.drop 0 } = c := by
    rw [List.append_nil]
    rfl
  have hstore : c.store [] = .ok c := by
    rw [store, hbuf]
    exact if_pos rfl
  rw [next]
  split
  · rfl
  · simp only [hrecv, Option.getD_none, List.length_nil, hsame, returned, hstore, bind, Except.bind]
    exact if_pos ⟨hfirst, by decide⟩

section Payload

variable (hlen : m.2.length ≤ 2 ^ 31 - 2)
include hlen

/-- The target when the head was read rightly. -/
theorem target_atPayload :
    (atPayload L malloc before after m (encodePacketHead L m.1 m.2.length)).target =
      .recvData (written m).packetHead
        ((malloc before.length).map fun mem => fresh mem (m.2.length + 1)) := by
  have hhead : PacketHead.ofBytes L (encodePacketHead L m.1 m.2.length) =
      (written m).packetHead := PacketHead.ofBytes_toBytes L _
  have hsize : toSize ((written m).packetHead.packetLen + 1).toInt = m.2.length + 1 :=
    toSize_packetLen (by omega)
  simp only [atPayload, hhead, hsize]

theorem total_atPayload :
    (atPayload L malloc before after m (encodePacketHead L m.1 m.2.length)).total =
      m.2.length := by
  rw [total, target_atPayload hlen]
  exact toInt_packetLen (by omega)

/-- The payload is read, into `recvData`. -/
theorem reaches_payload (L : IntLayout) (size : ℕ → ℕ) (after : List Message)
    (hone : 1 ≤ m.2.length) {mem : ℕ → UInt8} (hmem : malloc before.length = some mem)
    {recvData : List UInt8} (hrecv : recvData = Pieces.overwriteAll (fresh mem (m.2.length + 1))
      (Pieces.cut size ((TcpHandler.writeEvents L before).length + PACKETHEADLEN) m.2)) :
    Reaches L malloc size
      (atPayload L malloc before after m (encodePacketHead L m.1 m.2.length))
      { between L (before ++ [m]) after with
        packets := before.map written ++
          [⟨(written m).packetHead, recvData.set m.2.length 0⟩] } := by
  have hfresh := length_fresh mem (m.2.length + 1)
  have hall : recvData.length = m.2.length + 1 := by
    rw [hrecv, Pieces.length_overwriteAll, hfresh]
    intro piece hpiece
    rw [hfresh]
    exact (Pieces.length_le_of_mem_cut hpiece).trans (Nat.le_succ _)
  have htarget : (atPayload L malloc before after m
      (encodePacketHead L m.1 m.2.length)).target =
      .recvData (written m).packetHead (some (fresh mem (m.2.length + 1))) := by
    rw [target_atPayload hlen, hmem]
    rfl
  have hbuf : (atPayload L malloc before after m (encodePacketHead L m.1 m.2.length)).buffer =
      some (fresh mem (m.2.length + 1)) := by
    rw [buffer, htarget]
  refine reaches_complete (List.length_pos_iff.mp hone) (by omega) ?_ hbuf (by omega) rfl ?_
  · rw [total_atPayload hlen]
    exact Int.sub_zero _
  · have hpos : (atPayload L malloc before after m
        (encodePacketHead L m.1 m.2.length)).received.length =
        (TcpHandler.writeEvents L before).length + PACKETHEADLEN := by
      rw [← length_encodePacketHead L m]
      exact List.length_append
    have hpacketLen : (written m).packetHead.packetLen.toInt = m.2.length :=
      toInt_packetLen (by omega)
    rw [hpos, ← hrecv, given_payload htarget, complete_payload rfl hpacketLen (by omega)]
    simp only [between, atPayload, lastHead_concat, writeEvents_concat, List.append_assoc]

/-- A payload for which there is no memory is asked for again and again. -/
theorem next_atPayload_null (hone : 1 ≤ m.2.length) (hmem : malloc before.length = none) :
    (atPayload L malloc before after m (encodePacketHead L m.1 m.2.length)).next L malloc size =
      .ok (atPayload L malloc before after m (encodePacketHead L m.1 m.2.length)) := by
  have hrequest : (atPayload L malloc before after m
      (encodePacketHead L m.1 m.2.length)).request = m.2.length := by
    apply request_eq (by omega)
    rw [total_atPayload hlen]
    exact Int.sub_zero _
  refine next_null ?_ rfl (by omega)
  rw [buffer, target_atPayload hlen, hmem]
  rfl

end Payload

theorem set_eq_iff {buf bytes : List UInt8} (hlen : buf.length = bytes.length + 1) :
    buf.set bytes.length 0 = bytes ++ [0] ↔ buf.take bytes.length = bytes := by
  rw [List.set_eq_take_append_cons_drop, if_pos (by omega), List.drop_eq_nil_of_le hlen.le,
    List.append_left_inj]

theorem eq_of_reaches (hnext : c.next L malloc size = .ok c) (h : Reaches L malloc size c c') :
    c' = c := by
  induction h with
  | refl => rfl
  | tail _ hstep ih =>
    rw [ih, hnext] at hstep
    exact (Except.ok.inj hstep).symm

/-- A state with fewer packets comes first. -/
theorem reaches_of_fewer {c₁ c₂ : ReplyClient} (h₁ : Reaches L malloc size c c₁)
    (h₂ : Reaches L malloc size c c₂) (hlt : c₁.packets.length < c₂.packets.length) :
    Reaches L malloc size c₁ c₂ := by
  rcases reaches_total h₁ h₂ with h | h
  · exact h
  · exact absurd (packets_le h).length_le (not_le.mpr hlt)

theorem packets_unique {c₁ c₂ : ReplyClient} (h₁ : Reaches L malloc size c c₁)
    (h₂ : Reaches L malloc size c c₂) (hlen : c₁.packets.length = c₂.packets.length) :
    c₁.packets = c₂.packets := by
  rcases reaches_total h₁ h₂ with h | h
  · exact (packets_le h).eq_of_length hlen
  · exact ((packets_le h).eq_of_length hlen.symm).symm

theorem length_packethead : (Pieces.overwriteAll (lastHead L before)
    (Pieces.cut size p (encodePacketHead L m.1 m.2.length))).length = PACKETHEADLEN := by
  have hlen := length_encodePacketHead L m
  rw [Pieces.length_overwriteAll, length_lastHead]
  intro piece hpiece
  rw [length_lastHead, ← hlen]
  exact Pieces.length_le_of_mem_cut hpiece

/-- The head lands exactly when its bytes are in the buffer. -/
theorem lands_packethead_iff :
    Pieces.Lands (lastHead L before) (encodePacketHead L m.1 m.2.length)
      (Pieces.cut size p (encodePacketHead L m.1 m.2.length)) ↔
      Pieces.overwriteAll (lastHead L before)
        (Pieces.cut size p (encodePacketHead L m.1 m.2.length)) =
        encodePacketHead L m.1 m.2.length := by
  have hlen := length_encodePacketHead L m
  rw [Pieces.lands_iff, List.take_of_length_le]
  rw [length_packethead, hlen]

/-- The payload lands exactly when its bytes are in the buffer, and `'\0'` behind them. -/
theorem lands_recvData_iff {mem : ℕ → UInt8} {payload : List UInt8} :
    Pieces.Lands (fresh mem (payload.length + 1)) payload (Pieces.cut size p payload) ↔
      (Pieces.overwriteAll (fresh mem (payload.length + 1)) (Pieces.cut size p payload)).set
        payload.length 0 = payload ++ [0] := by
  rw [Pieces.lands_iff, set_eq_iff]
  rw [Pieces.length_overwriteAll, length_fresh]
  intro piece hpiece
  rw [length_fresh]
  exact (Pieces.length_le_of_mem_cut hpiece).trans (Nat.le_succ _)

/-- A reply that arrives well is read, and nothing behind it. -/
theorem Arrives.reaches (h : Arrives L malloc size before m) (hone : 1 ≤ m.2.length)
    (hlen : m.2.length ≤ 2 ^ 31 - 2) :
    Reaches L malloc size (between L before (m :: after)) (between L (before ++ [m]) after) := by
  obtain ⟨hhead, mem, hmem, hpayload⟩ := h
  have hread := reaches_atPayload L malloc size before after m
  rw [lands_packethead_iff.mp hhead] at hread
  have hfilled := reaches_payload hlen L size after hone hmem rfl
  rw [lands_recvData_iff.mp hpayload] at hfilled
  have hnext : between L (before ++ [m]) after = { between L (before ++ [m]) after with
      packets := before.map written ++ [⟨(written m).packetHead, m.2 ++ [0]⟩] } := by
    simp only [between, written, List.map_append, List.map_singleton]
  rw [hnext]
  exact hread.trans hfilled

section Read

variable {bytes packethead : List UInt8} (h : Reads L malloc size bytes (before ++ [m]))
include h

/-- Behind the head of a reply that is read, its packet is still to come. -/
theorem Reads.reaches
    (hread : Reaches L malloc size (start bytes)
      (atPayload L malloc before after m packethead)) :
    ∃ c, Reaches L malloc size (start bytes) c ∧
      Reaches L malloc size (atPayload L malloc before after m packethead) c ∧
      c.packets = before.map written ++ [written m] := by
  obtain ⟨c, hc, hpackets, -⟩ := h
  rw [List.map_append, List.map_singleton] at hpackets
  refine ⟨c, hc, reaches_of_fewer hread hc ?_, hpackets⟩
  rw [hpackets, List.length_append]
  exact Nat.lt_succ_self _

/-- The head of a reply that is read was in the buffer. -/
theorem Reads.packethead_eq
    (hread : Reaches L malloc size (start bytes) (atPayload L malloc before after m packethead))
    (hlen : packethead.length = PACKETHEADLEN) :
    packethead = encodePacketHead L m.1 m.2.length := by
  obtain ⟨c, -, hlater, hpackets⟩ := h.reaches hread
  have hfield : PacketHead.ofBytes L packethead = (written m).packetHead := by
    rcases head_of_reaches rfl hlater with ⟨hsame, -⟩ | ⟨recvData, hmore⟩
    · rw [hpackets] at hsame
      exact absurd hsame (by simp [atPayload])
    · rw [hpackets] at hmore
      have heq := hmore.eq_of_length (by simp [atPayload])
      exact congrArg Packet.packetHead (List.singleton_injective (List.append_cancel_left heq))
  rw [← PacketHead.toBytes_ofBytes L hlen, hfield]
  rfl

/-- There was memory for the payload of a reply that is read, and the payload landed in it. -/
theorem Reads.recvData_lands (hone : 1 ≤ m.2.length) (hlen : m.2.length ≤ 2 ^ 31 - 2)
    (hread : Reaches L malloc size (start bytes)
      (atPayload L malloc before after m (encodePacketHead L m.1 m.2.length))) :
    ∃ mem, malloc before.length = some mem ∧
      Pieces.Lands (fresh mem (m.2.length + 1)) m.2
        (Pieces.cut size ((TcpHandler.writeEvents L before).length + PACKETHEADLEN) m.2) := by
  obtain ⟨c, hc, hlater, hpackets⟩ := h.reaches hread
  cases hmem : malloc before.length with
  | none =>
    rw [eq_of_reaches (next_atPayload_null hlen hone hmem) hlater] at hpackets
    exact absurd hpackets (by simp [atPayload])
  | some mem =>
    have hfilled := hread.trans (reaches_payload hlen L size after hone hmem rfl)
    refine ⟨mem, rfl, lands_recvData_iff.mpr ?_⟩
    have hsame := packets_unique hfilled hc (by simp [hpackets])
    rw [hpackets, List.append_cancel_left_eq] at hsame
    exact congrArg Packet.recvData (List.singleton_injective hsame)

/-- A reply that is read has arrived well. -/
theorem Reads.arrives
    (hreach : Reaches L malloc size (start bytes) (between L before (m :: after)))
    (hone : 1 ≤ m.2.length) (hlen : m.2.length ≤ 2 ^ 31 - 2) :
    Arrives L malloc size before m := by
  have hread := hreach.trans (reaches_atPayload L malloc size before after m)
  have hhead := h.packethead_eq hread length_packethead
  rw [hhead] at hread
  exact ⟨lands_packethead_iff.mpr hhead, h.recvData_lands hone hlen hread⟩

end Read

/-- A packet that was read wrongly is never put right. -/
theorem not_reads {bytes : List UInt8} (hreach : Reaches L malloc size (start bytes) c)
    (hlen : c.packets.length = before.length) (hwrong : c.packets ≠ before.map written) :
    ¬ Reads L malloc size bytes before := by
  rintro ⟨c', hc', hpackets, -⟩
  have hsame := packets_unique hreach hc' (by rw [hlen, hpackets, List.length_map])
  exact hwrong (hsame.trans hpackets)

/-- Whatever memory is allocated for it, a payload is read rightly: that is so exactly when one
`recv` returns all of it. -/
theorem lands_any_memory_iff {payload : List UInt8} (hne : payload ≠ []) :
    (∀ mem, Pieces.Lands (fresh mem (payload.length + 1)) payload (Pieces.cut size p payload)) ↔
      payload.length ≤ max 1 (size p) := by
  have : Nontrivial UInt8 := ⟨0, 1, by decide⟩
  rw [← Pieces.forall_lands_cut_iff (Nat.le_succ payload.length) hne]
  constructor
  · intro hall blk hblk
    have hfresh : fresh (fun i => blk.getD i 0) (payload.length + 1) = blk := by
      apply List.ext_getElem
      · rw [length_fresh, hblk]
      · intro i _ hi
        simp [fresh, hi]
    rw [← hfresh]
    exact hall _
  · intro hall mem
    exact hall _ (length_fresh mem _)

/-! ## All replies -/

theorem reaches_between {replies : List Message}
    (hlen : ∀ m ∈ replies, 1 ≤ m.2.length ∧ m.2.length ≤ 2 ^ 31 - 2)
    (hsplit : replies = before ++ after)
    (h : ∀ front m, front ++ [m] <+: before → Arrives L malloc size front m) :
    Reaches L malloc size (start (TcpHandler.writeEvents L replies)) (between L before after) := by
  induction before using List.reverseRecOn generalizing after with
  | nil =>
    obtain rfl : replies = after := hsplit
    exact .refl
  | append_singleton before m ih =>
    rw [List.append_assoc] at hsplit
    obtain ⟨hone, hle⟩ := hlen m (by simp [hsplit])
    have hbefore := ih hsplit fun front m' hfront => h front m' (hfront.trans (by simp))
    exact hbefore.trans ((h before m List.prefix_rfl).reaches hone hle)

/-- Replies that are all read have all arrived well. -/
theorem arrives_of_reads {replies : List Message}
    (hlen : ∀ m ∈ replies, 1 ≤ m.2.length ∧ m.2.length ≤ 2 ^ 31 - 2)
    (hreads : ∀ before, before <+: replies →
      Reads L malloc size (TcpHandler.writeEvents L replies) before)
    (hsplit : replies = before ++ after) :
    ∀ front m, front ++ [m] <+: before → Arrives L malloc size front m := by
  induction before using List.reverseRecOn generalizing after with
  | nil =>
    intro front m hfront
    simp at hfront
  | append_singleton before x ih =>
    intro front m hfront
    have hread := hreads _ ⟨after, hsplit.symm⟩
    rw [List.append_assoc] at hsplit
    have hbefore := ih hsplit
    rcases List.prefix_concat_iff.mp hfront with heq | hfront
    · obtain ⟨rfl, hx⟩ := List.append_inj' heq rfl
      obtain rfl := List.singleton_injective hx
      obtain ⟨hone, hle⟩ := hlen m (by simp [hsplit])
      exact hread.arrives (reaches_between hlen hsplit hbefore) hone hle
    · exact hbefore front m hfront

/-- **The client reads what the server wrote**, reply by reply and no byte more, if and only if
each head and each payload comes in pieces that land. -/
theorem replies_read_iff (L : IntLayout) (malloc : ℕ → Option (ℕ → UInt8)) (size : ℕ → ℕ)
    (replies : List Message)
    (hlen : ∀ m ∈ replies, 1 ≤ m.2.length ∧ m.2.length ≤ 2 ^ 31 - 2) :
    (∀ before, before <+: replies →
        Reads L malloc size (TcpHandler.writeEvents L replies) before) ↔
      ∀ before m, before ++ [m] <+: replies → Arrives L malloc size before m := by
  constructor
  · intro hreads
    exact arrives_of_reads hlen hreads (List.append_nil replies).symm
  · intro harrives before hbefore
    obtain ⟨after, hsplit⟩ := hbefore
    refine ⟨between L before after, ?_, rfl, rfl⟩
    apply reaches_between hlen hsplit.symm
    intro front m hfront
    exact harrives front m (hfront.trans ⟨after, hsplit⟩)

/-- Two replies of one byte. -/
def letters : List Message := [(0, [65]), (0, [66])]

def zeroMemory : ℕ → Option (ℕ → UInt8) := fun _ => some fun _ => 0

/-- The call that begins at byte `9`, with the second head, returns `7` bytes. -/
def cutAtNine (p : ℕ) : ℕ := if p = 9 then 7 else 8

/-- The second head comes in two pieces, and lands on the first one. -/
theorem replies_read_iff_letters :
    Reads .little zeroMemory cutAtNine (TcpHandler.writeEvents .little letters) letters := by
  refine (replies_read_iff .little zeroMemory cutAtNine letters ?_).mpr ?_ _ List.prefix_rfl
  · intro m hm
    simp only [letters, List.mem_cons, List.not_mem_nil, or_false] at hm
    rcases hm with rfl | rfl <;> decide
  · intro before m hbefore
    have hcases : before = [] ∧ m = (0, [65]) ∨ before = [(0, [65])] ∧ m = (0, [66]) := by
      rcases before with _ | ⟨x, _ | ⟨y, before⟩⟩
      · simp [letters] at hbefore
        exact .inl ⟨rfl, hbefore⟩
      · simp [letters] at hbefore
        exact .inr ⟨by rw [hbefore.1], hbefore.2⟩
      · have hle := hbefore.length_le
        simp [letters] at hle
    rcases hcases with ⟨rfl, rfl⟩ | ⟨rfl, rfl⟩
    · exact ⟨by decide, _, rfl, by decide⟩
    · exact ⟨by decide, _, rfl, by decide⟩

/-- A head in two pieces of four bytes is read as id `1` and length `0`, and a payload `AB` in two
pieces as `B`. -/
theorem reply_cut :
    ((∃ c, Reaches .little zeroMemory (fun _ => 4)
          (start (TcpHandler.writeEvents .little [(0, [65])])) c ∧
          c.packets = [⟨⟨1, 0⟩, [0]⟩]) ∧
        ¬ Reads .little zeroMemory (fun _ => 4) (TcpHandler.writeEvents .little [(0, [65])])
          [(0, [65])]) ∧
      (∃ c, Reaches .little zeroMemory (fun p => if p = 0 then 8 else 1)
          (start (TcpHandler.writeEvents .little [(0, [65, 66])])) c ∧
          c.packets = [⟨⟨0, 2⟩, [66, 0, 0]⟩]) ∧
        ¬ Reads .little zeroMemory (fun p => if p = 0 then 8 else 1)
          (TcpHandler.writeEvents .little [(0, [65, 66])]) [(0, [65, 66])] := by
  have hhead : ∃ c, Reaches .little zeroMemory (fun _ => 4)
      (start (TcpHandler.writeEvents .little [(0, [65])])) c ∧ c.packets = [⟨⟨1, 0⟩, [0]⟩] :=
    ⟨_, .head rfl (.head rfl (.head rfl .refl)), by decide⟩
  have hpayload : ∃ c, Reaches .little zeroMemory (fun p => if p = 0 then 8 else 1)
      (start (TcpHandler.writeEvents .little [(0, [65, 66])])) c ∧
      c.packets = [⟨⟨0, 2⟩, [66, 0, 0]⟩] :=
    ⟨_, .head rfl (.head rfl (.head rfl .refl)), by decide⟩
  refine ⟨⟨hhead, ?_⟩, hpayload, ?_⟩
  · obtain ⟨c, hc, hwrong⟩ := hhead
    exact not_reads hc (by rw [hwrong]; rfl) (by rw [hwrong]; decide)
  · obtain ⟨c, hc, hwrong⟩ := hpayload
    exact not_reads hc (by rw [hwrong]; rfl) (by rw [hwrong]; decide)

end ReplyClient

end SmartServer
